import NoshareCover.Core.Video.YuvBands
import NoshareCover.Lib.Rows

/-!
# The conversion pixel by pixel

When the planes fit the image, no index of `to_bgra` is out of range, and every pixel is that of the
reference, on the fast path and the general one, in one band or in several
(`toBgraOn_reference`).
-/

namespace NoshareCover.Yuv

/-! ### Planes -/

/-- `h` rows of `w` samples are in the plane, and rows do not overlap. -/
def Plane.Holds (p : Plane) (w h bytesPer : ℕ) : Prop :=
  w * bytesPer ≤ p.stride ∧ ∀ row < h, row * p.stride + w * bytesPer ≤ p.data.length

theorem planeOk_iff {p : Plane} {w h bytesPer : ℕ} (hh : 0 < h) :
    planeOk p w h bytesPer = true ↔ p.Holds w h bytesPer := by
  have hne : ¬ h = 0 := by omega
  unfold planeOk Plane.Holds
  rw [Bool.or_eq_true, decide_eq_true_iff, or_iff_right hne, Bool.and_eq_true, decide_eq_true_iff,
    decide_eq_true_iff]
  refine and_congr_right fun _ => ⟨fun hlast row hrow => ?_, fun hall => ?_⟩
  · have hmul : row * p.stride ≤ p.stride * (h - 1) := by
      rw [mul_comm]
      exact Nat.mul_le_mul_left _ (by omega)
    omega
  · have hlast := hall (h - 1) (by omega)
    rwa [mul_comm]

/-- The bytes of a sample. -/
def YuvImage.bytesPer (img : YuvImage) : ℕ := if 8 < img.bitDepth then 2 else 1

/-- The size of the chroma planes: one sample for each pixel, or for two or four. -/
def YuvImage.chromaSize (img : YuvImage) : ℕ × ℕ :=
  match img.chroma with
  | .sub420 => ((img.width + 1) / 2, (img.height + 1) / 2)
  | .sub422 => ((img.width + 1) / 2, img.height)
  | .full | .mono => (img.width, img.height)

/-- No plane is missing or short. -/
def YuvImage.Fits (img : YuvImage) : Prop :=
  img.y.Holds img.width img.height img.bytesPer
    ∧ (img.chroma = .mono ∨ match img.uv with
      | .planar u v => u.Holds img.chromaSize.1 img.chromaSize.2 img.bytesPer
          ∧ v.Holds img.chromaSize.1 img.chromaSize.2 img.bytesPer
      | .interleaved uv => uv.Holds (img.chromaSize.1 * 2) img.chromaSize.2 img.bytesPer
      | .none => False)

theorem chromaSize_eq (img : YuvImage) :
    img.chromaSize = ((img.width + 2 ^ img.chroma.shift.1 - 1) / 2 ^ img.chroma.shift.1,
      (img.height + 2 ^ img.chroma.shift.2 - 1) / 2 ^ img.chroma.shift.2) := by
  unfold YuvImage.chromaSize
  cases img.chroma <;> simp [Chroma.shift]

theorem chromaSize_pos {img : YuvImage} (hh : 0 < img.height) : 0 < img.chromaSize.2 := by
  unfold YuvImage.chromaSize
  cases img.chroma <;> dsimp only <;> omega

theorem planesOk_eq (img : YuvImage) :
    planesOk img = (planeOk img.y img.width img.height img.bytesPer
      && (decide (img.chroma = .mono)
        || match img.uv with
          | .planar u v => planeOk u img.chromaSize.1 img.chromaSize.2 img.bytesPer
              && planeOk v img.chromaSize.1 img.chromaSize.2 img.bytesPer
          | .interleaved uv => planeOk uv (img.chromaSize.1 * 2) img.chromaSize.2 img.bytesPer
          | .none => false)) := by
  rw [chromaSize_eq]
  rfl

theorem planesOk_iff {img : YuvImage} (hh : 0 < img.height) : planesOk img = true ↔ img.Fits := by
  have hch := chromaSize_pos hh
  rw [planesOk_eq, Bool.and_eq_true, planeOk_iff hh, Bool.or_eq_true, decide_eq_true_iff]
  refine and_congr_right fun _ => or_congr_right ?_
  cases img.uv with
  | planar u v =>
    dsimp only
    rw [Bool.and_eq_true, planeOk_iff hch, planeOk_iff hch]
  | interleaved uv => exact planeOk_iff hch
  | none => exact iff_of_false Bool.false_ne_true id

/-! ### Samples -/

/-- Sample `i` of row `y` of a plane, reduced to 8 bits. -/
def Plane.reduced (p : Plane) (depth i y : ℕ) : ℤ :=
  if depth = 8 then ((p.data.getD (y * p.stride + i) 0).toNat : ℤ)
  else
    let word := (p.data.getD (y * p.stride + 2 * i) 0).toNat
      + 256 * (p.data.getD (y * p.stride + 2 * i + 1) 0).toNat
    ((min (word / 2 ^ (depth - 8)) 255 : ℕ) : ℤ)

/-- The chroma samples at a place of the chroma planes. -/
def YuvImage.chromaAt (img : YuvImage) (cx cy : ℕ) : ℤ × ℤ :=
  if img.chroma = .mono then (128, 128)
  else
    match img.uv with
    | .planar u v => (u.reduced img.bitDepth cx cy, v.reduced img.bitDepth cx cy)
    | .interleaved uv =>
      (uv.reduced img.bitDepth (2 * cx) cy, uv.reduced img.bitDepth (2 * cx + 1) cy)
    | .none => (128, 128)

/-- The reference: a pixel from its luma sample and the chroma samples of its place. -/
def YuvImage.reference (img : YuvImage) (x y : ℕ) : List UInt8 :=
  let (sx, sy) := img.chroma.shift
  let (u, v) := img.chromaAt (x / 2 ^ sx) (y / 2 ^ sy)
  (Coefs.new img.matrix img.fullRange).px (img.y.reduced img.bitDepth x y) u v

/-- A sample of a plane that holds it is read. -/
theorem readSample_eq {img : YuvImage} {p : Plane} {w h i y : ℕ}
    (hdepth : 8 ≤ img.bitDepth) (hp : p.Holds w h img.bytesPer) (hi : i < w) (hy : y < h) :
    readSample p i y (img.bitDepth - 8) = some (p.reduced img.bitDepth i y) := by
  have hrow := hp.2 y hy
  unfold readSample Plane.reduced
  -- eight bits take one byte a sample, more take two
  by_cases height : img.bitDepth = 8
  · have hbytes : img.bytesPer = 1 := if_neg (by omega)
    rw [hbytes] at hrow
    have hlt : y * p.stride + i < p.data.length := by omega
    rw [if_pos (by omega), if_pos height, List.getElem?_eq_getElem hlt, List.getD_eq_getElem _ _ hlt]
    rfl
  · have hbytes : img.bytesPer = 2 := if_pos (by omega)
    rw [hbytes] at hrow
    have hlo : y * p.stride + 2 * i < p.data.length := by omega
    have hhi : y * p.stride + 2 * i + 1 < p.data.length := by omega
    rw [if_neg (by omega), if_neg height, mul_comm i 2]
    dsimp only
    rw [List.getElem?_eq_getElem hlo, List.getElem?_eq_getElem hhi, List.getD_eq_getElem _ _ hlo,
      List.getD_eq_getElem _ _ hhi, mul_comm 256]

/-- Chroma samples are where their pixels need them. -/
theorem chroma_lt {img : YuvImage} {x y : ℕ} (hx : x < img.width) (hy : y < img.height) :
    x / 2 ^ img.chroma.shift.1 < img.chromaSize.1 ∧ y / 2 ^ img.chroma.shift.2 < img.chromaSize.2 := by
  unfold YuvImage.chromaSize
  cases img.chroma <;> simp only [Chroma.shift, pow_one, pow_zero, Nat.div_one] <;> omega

theorem readChroma_eq {img : YuvImage} (hdepth : 8 ≤ img.bitDepth) (hfits : img.Fits) {x y : ℕ}
    (hx : x < img.width) (hy : y < img.height) :
    readChroma img (x / 2 ^ img.chroma.shift.1) (y / 2 ^ img.chroma.shift.2)
      = some (img.chromaAt (x / 2 ^ img.chroma.shift.1) (y / 2 ^ img.chroma.shift.2)) := by
  obtain ⟨hcx, hcy⟩ := chroma_lt hx hy
  -- `x` and `y` only matter through the place of their chroma sample
  generalize x / 2 ^ img.chroma.shift.1 = cx at hcx ⊢
  generalize y / 2 ^ img.chroma.shift.2 = cy at hcy ⊢
  unfold readChroma YuvImage.chromaAt
  by_cases hmono : img.chroma = .mono
  · rw [if_pos hmono, if_pos hmono]
  -- with chroma there are two planes, or one with both samples in turn
  · rw [if_neg hmono, if_neg hmono]
    have huv := hfits.2.resolve_left hmono
    cases huv' : img.uv with
    | planar u v =>
      rw [huv'] at huv
      dsimp only
      rw [readSample_eq hdepth huv.1 hcx hcy, readSample_eq hdepth huv.2 hcx hcy]
      rfl
    | interleaved uv =>
      rw [huv'] at huv
      dsimp only
      rw [readSample_eq hdepth huv (by omega) hcy, readSample_eq hdepth huv (by omega) hcy,
        mul_comm cx]
      rfl
    -- an image with chroma has one of the two
    | none => simp only [huv'] at huv

/-! ### Rows -/

theorem readPixel_eq {img : YuvImage} (hdepth : 8 ≤ img.bitDepth) (hfits : img.Fits) {x y : ℕ}
    (hx : x < img.width) (hy : y < img.height) :
    readPixel img (Coefs.new img.matrix img.fullRange) y x = some (img.reference x y) := by
  unfold readPixel YuvImage.reference
  rw [readSample_eq hdepth hfits.1 hx hy, Option.bind_eq_bind, Option.bind_some,
    readChroma_eq hdepth hfits hx hy]
  rfl

/-- A row of a plane as a slice. -/
theorem slice_row {img : YuvImage} {p : Plane} {w h y : ℕ} (hdepth : img.bitDepth = 8)
    (hp : p.Holds w h img.bytesPer) (hy : y < h) :
    ∃ row, slice p.data (y * p.stride) w = some row
      ∧ ∀ i < w, ∃ b : UInt8, row[i]? = some b ∧ (b.toNat : ℤ) = p.reduced img.bitDepth i y := by
  have hbytes : img.bytesPer = 1 := if_neg (by omega)
  have hrow := hp.2 y hy
  rw [hbytes, mul_one] at hrow
  refine ⟨_, if_pos hrow, fun i hi => ?_⟩
  have hlt : y * p.stride + i < p.data.length := by omega
  refine ⟨p.data[y * p.stride + i], ?_, ?_⟩
  · rw [List.getElem?_take_of_lt hi, List.getElem?_drop, List.getElem?_eq_getElem hlt]
  · rw [Plane.reduced, if_pos hdepth, List.getD_eq_getElem _ _ hlt]

/-- The fast path makes the pixels of the reference. -/
theorem fastRow_eq {img : YuvImage} {u v : Plane} (hdepth : img.bitDepth = 8)
    (hchroma : img.chroma = .sub420) (huv : img.uv = .planar u v) (hfits : img.Fits) {y : ℕ}
    (hy : y < img.height) :
    fastRow img u v (Coefs.new img.matrix img.fullRange) y
      = some ((List.range img.width).flatMap fun x => img.reference x y) := by
  have hmono : img.chroma ≠ .mono := by
    rw [hchroma]
    decide
  have hsize : img.chromaSize = ((img.width + 1) / 2, (img.height + 1) / 2) := by
    rw [YuvImage.chromaSize, hchroma]
  -- the three rows that the pixels of row `y` read
  have hplanes := hfits.2.resolve_left hmono
  rw [huv, hsize] at hplanes
  obtain ⟨yr, hyr, hyrow⟩ := slice_row hdepth hfits.1 hy
  obtain ⟨ur, hur, hurow⟩ := slice_row hdepth hplanes.1 (show y / 2 < (img.height + 1) / 2 by omega)
  obtain ⟨vr, hvr, hvrow⟩ := slice_row hdepth hplanes.2 (show y / 2 < (img.height + 1) / 2 by omega)
  -- each read of a pixel is the one of the reference
  have hpixels : (List.range img.width).mapM
      (fastPixel (Coefs.new img.matrix img.fullRange) yr ur vr)
        = some ((List.range img.width).map fun x => img.reference x y) := by
    refine Rows.mapM_eq_some fun x hx => ?_
    rw [List.mem_range] at hx
    obtain ⟨by_, hby, hyv⟩ := hyrow x hx
    obtain ⟨bu, hbu, huv'⟩ := hurow (x / 2) (by omega)
    obtain ⟨bv, hbv, hvv⟩ := hvrow (x / 2) (by omega)
    unfold fastPixel YuvImage.reference YuvImage.chromaAt
    rw [hby, hbu, hbv, hchroma, huv]
    dsimp only [Chroma.shift]
    rw [if_neg (by decide), pow_one, ← hyv, ← huv', ← hvv]
  unfold fastRow
  dsimp only
  rw [hyr, hur, hvr]
  simp only [Option.bind_eq_bind, Option.bind_some, hpixels, Option.pure_def,
    List.flatMap_def]

theorem convertRow_eq {img : YuvImage} (hdepth : 8 ≤ img.bitDepth) (hfits : img.Fits) {y : ℕ}
    (hy : y < img.height) :
    convertRow img (Coefs.new img.matrix img.fullRange) y
      = some ((List.range img.width).flatMap fun x => img.reference x y) := by
  unfold convertRow
  split
  · next u v h8 hchroma huv => exact fastRow_eq h8 hchroma huv hfits hy
  · have hpixels : (List.range img.width).mapM (readPixel img (Coefs.new img.matrix img.fullRange) y)
        = some ((List.range img.width).map fun x => img.reference x y) :=
      Rows.mapM_eq_some fun x hx => readPixel_eq hdepth hfits (List.mem_range.1 hx) hy
    rw [hpixels, Option.map_some, List.flatMap_def]

/-! ### Bands -/

/-- The pixels of a row. -/
def YuvImage.referenceRow (img : YuvImage) (y : ℕ) : List UInt8 :=
  (List.range img.width).flatMap fun x => img.reference x y

/-- A band of whole rows. -/
theorem convertBand_eq {img : YuvImage} (hw : 0 < img.width) (hdepth : 8 ≤ img.bitDepth)
    (hfits : img.Fits) {firstRow rows : ℕ} {band : List UInt8}
    (hband : band.length = rows * (img.width * 4)) (hrows : ∀ i < rows, firstRow + i < img.height) :
    convertBand img (Coefs.new img.matrix img.fullRange) firstRow band
      = some ((List.range rows).flatMap fun i => img.referenceRow (firstRow + i)) := by
  have hdiv : band.length / (img.width * 4) = rows := by
    rw [hband, Nat.mul_div_cancel _ (by omega)]
  have hconverted : (List.range rows).mapM (fun i =>
      convertRow img (Coefs.new img.matrix img.fullRange) (firstRow + i))
        = some ((List.range rows).map fun i => img.referenceRow (firstRow + i)) := by
    refine Rows.mapM_eq_some fun i hi => convertRow_eq hdepth hfits ?_
    exact hrows i (List.mem_range.1 hi)
  unfold convertBand
  dsimp only
  rw [hdiv, hconverted, ← hband, List.drop_length]
  simp only [Option.bind_eq_bind, Option.bind_some, Option.pure_def, List.append_nil,
    List.flatMap_def]

/-- The rows of band `i`. -/
theorem range_band (h n i : ℕ) :
    ((List.range h).drop (i * n)).take n
      = (List.range (min n (h - i * n))).map fun j => i * n + j := by
  refine List.ext_getElem (by simp) fun j hj _ => ?_
  simp

/-- The pieces with their numbers. -/
theorem zipIdx_chunks (n : ℕ) (out : List UInt8) :
    (chunks n out).zipIdx = (List.range ((out.length + n - 1) / n)).map
      fun i => ((out.drop (i * n)).take n, i) := by
  refine List.ext_getElem (by simp [chunks]) fun i hi _ => ?_
  simp [chunks]

/-- **The bands** are the rows of the whole picture, however many there are. -/
theorem bands_eq {img : YuvImage} (hw : 0 < img.width) (hdepth : 8 ≤ img.bitDepth)
    (hfits : img.Fits) {rowsPer : ℕ} (hrows : 0 < rowsPer)
    {out : List UInt8} (hout : out.length = img.height * (img.width * 4)) :
    ((chunks (rowsPer * img.width * 4) out).zipIdx.mapM fun (band, i) =>
        convertBand img (Coefs.new img.matrix img.fullRange) (i * rowsPer) band).map List.flatten
      = some ((List.range img.height).flatMap img.referenceRow) := by
  have hpiece : rowsPer * img.width * 4 = rowsPer * (img.width * 4) := mul_assoc ..
  have hpos : 0 < rowsPer * (img.width * 4) := Nat.mul_pos hrows (by omega)
  -- every band is as long as a chunk, the last one may be shorter
  rw [zipIdx_chunks, hpiece, List.mapM_map]
  generalize hcount : (out.length + rowsPer * (img.width * 4) - 1) / (rowsPer * (img.width * 4))
    = count
  -- the bands together reach the last row
  have hcover : img.height ≤ count * rowsPer := by
    have hdiv := Nat.div_add_mod (out.length + rowsPer * (img.width * 4) - 1)
      (rowsPer * (img.width * 4))
    have hmod := Nat.mod_lt (out.length + rowsPer * (img.width * 4) - 1) hpos
    rw [hcount, mul_comm, ← mul_assoc] at hdiv
    refine Nat.le_of_mul_le_mul_right ?_ (show 0 < img.width * 4 by omega)
    omega
  have hbands : (List.range count).mapM (fun i => convertBand img
      (Coefs.new img.matrix img.fullRange) (i * rowsPer)
      ((out.drop (i * (rowsPer * (img.width * 4)))).take (rowsPer * (img.width * 4))))
        = some ((List.range count).map fun i =>
            (((List.range img.height).drop (i * rowsPer)).take rowsPer).flatMap img.referenceRow) := by
    -- a band holds as many rows as are left for it
    refine Rows.mapM_eq_some fun i _ => ?_
    rw [range_band, List.flatMap_map]
    refine convertBand_eq hw hdepth hfits ?_ fun j hj => ?_
    · rw [List.length_take, List.length_drop, hout, ← mul_assoc i, ← Nat.sub_mul,
        Nat.mul_min_mul_right]
    -- no band reads behind the last row
    · have hle := lt_of_lt_of_le hj (min_le_right _ _)
      omega
  show ((List.range count).mapM fun i => convertBand img (Coefs.new img.matrix img.fullRange)
    (i * rowsPer) _).map List.flatten = _
  -- the bands one after the other are all rows
  rw [hbands, Option.map_some, ← List.flatMap_def, ← List.flatMap_assoc, Rows.flatMap_take_drop,
    List.take_of_length_le (by rwa [List.length_range])]

/-! ### The picture -/

/-- A picture that fits is converted row by row. -/
theorem toBgraOn_of_fits (threads : ℕ) {img : YuvImage} (hw : 0 < img.width) (hh : 0 < img.height)
    (hdepth : 8 ≤ img.bitDepth ∧ img.bitDepth ≤ 16) (hfits : img.Fits) :
    toBgraOn threads img = some (some (.fromBgra img.width img.height
      ((List.range img.height).flatMap img.referenceRow))) := by
  have hsize : ¬ (img.width = 0 ∨ img.height = 0 ∨ img.bitDepth < 8 ∨ 16 < img.bitDepth) := by omega
  have hout : (List.replicate (img.width * img.height * 4) (0 : UInt8)).length
      = img.height * (img.width * 4) := by
    rw [List.length_replicate, mul_comm img.width, mul_assoc]
  unfold toBgraOn
  rw [if_neg hsize, if_pos ((planesOk_iff hh).2 hfits)]
  dsimp only
  split_ifs with hthreads
  · rw [convertBand_eq hw hdepth.1 hfits hout fun i hi => by rwa [zero_add]]
    simp only [zero_add, Option.map_some]
  · have hrows : 0 < (img.height + threads - 1) / threads := Nat.div_pos (by omega) (by omega)
    rw [bands_eq hw hdepth.1 hfits hrows hout, Option.map_some]

theorem length_reference (img : YuvImage) (x y : ℕ) : (img.reference x y).length = 4 := rfl

theorem length_referenceRow (img : YuvImage) (y : ℕ) :
    (img.referenceRow y).length = 4 * img.width := by
  rw [YuvImage.referenceRow, Rows.length_flatMap fun x => length_reference img x y,
    List.length_range]

/-- **The conversion** of a picture whose planes fit never reads out of range, and every pixel is
that of the reference, whatever the number of threads; a picture with a missing or short plane is
rejected. -/
theorem toBgraOn_reference (threads : ℕ) {img : YuvImage} (hw : 0 < img.width) (hh : 0 < img.height)
    (hdepth : 8 ≤ img.bitDepth ∧ img.bitDepth ≤ 16) :
    (img.Fits → ∃ pixels, toBgraOn threads img = some (some (.fromBgra img.width img.height pixels))
        ∧ pixels.length = img.width * 4 * img.height
        ∧ ∀ y < img.height, ∀ x < img.width, ∀ k < 4,
          pixels[4 * (y * img.width + x) + k]? = (img.reference x y)[k]?)
      ∧ (¬ img.Fits → toBgraOn threads img = some none) := by
  constructor
  · intro hfits
    refine ⟨_, toBgraOn_of_fits threads hw hh hdepth hfits, ?_, fun y hy x hx k hk => ?_⟩
    -- the picture has a row of four bytes a pixel for every row
    · rw [Rows.length_flatMap (length_referenceRow img), List.length_range, mul_comm 4]
    -- byte `k` of the pixel is found by its row, then its place in the row
    · have hindex : 4 * (y * img.width + x) + k = 4 * img.width * y + (4 * x + k) := by ring
      rw [hindex, Rows.getElem?_flatMap (length_referenceRow img) (by omega), List.getElem?_range hy,
        Option.bind_some, YuvImage.referenceRow,
        Rows.getElem?_flatMap (fun x => length_reference img x y) hk, List.getElem?_range hx,
        Option.bind_some]
  -- the size and the depth are fine, so the planes are what is refused
  · intro hfits
    have hsize : ¬ (img.width = 0 ∨ img.height = 0 ∨ img.bitDepth < 8 ∨ 16 < img.bitDepth) := by
      omega
    unfold toBgraOn
    rw [if_neg hsize, if_neg ((planesOk_iff hh).not.2 hfits)]

/-- A picture of odd size, with chroma samples side by side and rows that are padded. -/
def paddedImage : YuvImage :=
  { width := 3, height := 3, bitDepth := 8, chroma := .sub420, matrix := .bt709, fullRange := false,
    y := { data := List.replicate 12 235, stride := 4 },
    uv := .interleaved { data := List.replicate 8 128, stride := 4 } }

theorem paddedImage_converted : ∃ pixels,
    toBgraOn 2 paddedImage = some (some (.fromBgra 3 3 pixels)) ∧ pixels.length = 36
      ∧ ∀ y < 3, ∀ x < 3, ∀ k < 4,
        pixels[4 * (y * 3 + x) + k]? = (paddedImage.reference x y)[k]? :=
  (toBgraOn_reference 2 (by decide) (by decide) (by decide)).1
    ((planesOk_iff (by decide)).1 (by decide))

/-! ### Without threads -/

theorem sample_eq_reduced {depth : ℕ} (hdepth : 8 ≤ depth) (p : Plane) (i y : ℕ) :
    sample p i y (depth - 8) = p.reduced depth i y := by
  unfold sample Plane.reduced
  by_cases height : depth = 8
  · rw [if_pos (by omega), if_pos height]
  · rw [if_neg (by omega), if_neg height, mul_comm i 2]
    dsimp only
    rw [mul_comm 256]

theorem convertPixel_eq_reference (img : YuvImage) (hdepth : 8 ≤ img.bitDepth) (x y : ℕ) :
    convertPixel img (Coefs.new img.matrix img.fullRange) y x = img.reference x y := by
  unfold convertPixel YuvImage.reference YuvImage.chromaAt
  dsimp only
  simp only [sample_eq_reduced hdepth, mul_comm _ 2]
  split_ifs with hmono
  · rfl
  · cases img.uv <;> rfl

/-- However many threads the platform has, the picture is the one that is made without them. -/
theorem toBgraWith_eq (parallelism : Option ℕ) (img : YuvImage) :
    toBgraWith parallelism img = some (toBgra img) := by
  unfold toBgraWith toBgra
  by_cases hsize : img.width = 0 ∨ img.height = 0 ∨ img.bitDepth < 8 ∨ 16 < img.bitDepth
  · unfold toBgraOn
    rw [if_pos hsize, if_pos hsize]
  · rw [if_neg hsize]
    have hh : 0 < img.height := by omega
    by_cases hplanes : planesOk img = true
    · rw [if_pos hplanes, toBgraOn_of_fits _ (by omega) hh (by omega) ((planesOk_iff hh).1 hplanes)]
      have hpixel := convertPixel_eq_reference img (by omega)
      unfold YuvImage.referenceRow
      simp only [hpixel]
    · unfold toBgraOn
      rw [if_neg hsize, if_neg hplanes, if_neg hplanes]

end NoshareCover.Yuv
