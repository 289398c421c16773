import NoshareCover.Core.GifBytes
import NoshareCover.Lib.Loop
import NoshareCover.Lib.Rows

/-!
# The offsets of a GIF's pixels

`drawn` says what drawing a rectangle does to the bytes of a canvas, in numbers without a limit.
`fill_rect` does just that.  `blit` multiplies by four in `u32`, and does it only up to `2 ^ 30`
pixels (`offsets_exact_iff`).
-/

namespace NoshareCover

namespace GifBytes

/-- The colours of a rectangle, each pixel at its place or nowhere. -/
def drawn (width height left top w h : ℕ) (colour : ℕ × ℕ → Option Bgra) (canvas : List UInt8) :
    List UInt8 :=
  (pixels (List.range h) (List.range w)).foldl (fun canvas p =>
    if top + p.1 < height ∧ left + p.2 < width then
      (colour p).elim canvas (put canvas (((top + p.1) * width + (left + p.2)) * 4))
    else canvas) canvas

/-- What a frame shows at one of its pixels, unless it is transparent there. -/
def colourAt (f : GifFrame) (p : ℕ × ℕ) : Option Bgra :=
  let s := (p.1 * f.width + p.2) * 4
  if f.rgba.getD (s + 3) 0 = 0 then none
  else some { b := f.rgba.getD (s + 2) 0, g := f.rgba.getD (s + 1) 0, r := f.rgba.getD s 0, a := 255 }

/-- The pixel of a frame is on the canvas. -/
def OnCanvas (width height : ℕ) (f : GifFrame) (p : ℕ × ℕ) : Prop :=
  f.top + p.1 < height ∧ f.left + p.2 < width

/-- The offsets of the pixel are numbers of 32 bits, in the frame and, unless the pixel is
transparent, on the canvas. -/
def Fits (width height : ℕ) (f : GifFrame) (p : ℕ × ℕ) : Prop :=
  OnCanvas width height f p →
    p.1 * f.width + p.2 < 2 ^ 30 ∧
      (colourAt f p ≠ none → (f.top + p.1) * width + (f.left + p.2) < 2 ^ 30)

/-! ### Bytes -/

theorem length_put {data : List UInt8} {i : ℕ} (h : i + 4 ≤ data.length) (px : Bgra) :
    (put data i px).length = data.length := by
  have hbytes : px.bytes.length = 4 := rfl
  rw [put, List.length_append, List.length_append, List.length_take, List.length_drop, hbytes]
  omega

theorem slice_eq_some {data : List UInt8} {i : ℕ} (h : i + 4 ≤ data.length) :
    slice data i = some [data.getD i 0, data.getD (i + 1) 0, data.getD (i + 2) 0,
      data.getD (i + 3) 0] := by
  have hlen : ((data.drop i).take 4).length = 4 := by
    rw [List.length_take, List.length_drop]
    omega
  rw [slice, if_pos h]
  congr 1
  apply List.ext_getElem hlen
  intro n hn _
  -- the four bytes, one by one
  rw [List.getElem_take, List.getElem_drop]
  have hcases : n = 0 ∨ n = 1 ∨ n = 2 ∨ n = 3 := by omega
  rcases hcases with rfl | rfl | rfl | rfl
  · exact (List.getD_eq_getElem _ _ (by omega)).symm
  · exact (List.getD_eq_getElem _ _ (by omega)).symm
  · exact (List.getD_eq_getElem _ _ (by omega)).symm
  · exact (List.getD_eq_getElem _ _ (by omega)).symm

/-! ### Arithmetic -/

theorem u32_debug {n : ℕ} (h : n < 2 ^ 32) : Build.debug.u32 n = some n := if_pos h

theorem u32_overflow {n : ℕ} (h : ¬ n < 2 ^ 32) : Build.debug.u32 n = none := if_neg h

theorem offset_debug {y w x : ℕ} (h : (y * w + x) * 4 < 2 ^ 32) :
    Build.debug.offset y w x = some ((y * w + x) * 4) := by
  unfold Build.offset
  generalize y * w = row at *
  rw [u32_debug (by omega), Option.bind_eq_bind, Option.bind_some, u32_debug (by omega),
    Option.bind_some, u32_debug h]

theorem offset_overflow {y w x : ℕ} (h : ¬ (y * w + x) * 4 < 2 ^ 32) :
    Build.debug.offset y w x = none := by
  unfold Build.offset
  generalize y * w = row at *
  by_cases hrow : row < 2 ^ 32
  · rw [u32_debug hrow, Option.bind_eq_bind, Option.bind_some]
    by_cases hn : row + x < 2 ^ 32
    · rw [u32_debug hn, Option.bind_some, u32_overflow h]
    · rw [u32_overflow hn, Option.bind_none]
  · rw [u32_overflow hrow]
    rfl

/-- A row of a picture with sides of 16 bits. -/
theorem row_lt {y w : ℕ} (hy : y < 2 ^ 16) (hw : w < 2 ^ 16) : y * w < 2 ^ 32 := by
  have hmul := Nat.mul_le_mul (by omega : y ≤ 2 ^ 16 - 1) (by omega : w ≤ 2 ^ 16 - 1)
  omega

/-! ### Filling a rectangle -/

theorem mem_pixels {rows columns : List ℕ} {p : ℕ × ℕ} :
    p ∈ pixels rows columns ↔ p.1 ∈ rows ∧ p.2 ∈ columns := List.mem_product

/-- The part of a rectangle that is on the canvas, in one direction. -/
theorem range'_clipped (first n size : ℕ) :
    List.range' (min first size) (min (first + n) size - min first size)
      = ((List.range n).filter fun i => first + i < size).map (first + ·) := by
  induction n with
  | zero => simp
  | succ n ih =>
    rw [List.range_succ, List.filter_append, List.map_append, ← ih]
    -- the last column is on the canvas or off it
    by_cases h : first + n < size
    · have hlast : [n].filter (fun i => first + i < size) = [n] := by simp [h]
      have hlength : min (first + (n + 1)) size - first = n + 1 := by omega
      have hlength' : min (first + n) size - first = n := by omega
      rw [hlast, min_eq_left (by omega : first ≤ size), hlength, hlength', List.range'_1_concat]
      rfl
    · have hlast : [n].filter (fun i => first + i < size) = [] := by simp [h]
      rw [hlast, min_eq_right (by omega : size ≤ first + n),
        min_eq_right (by omega : size ≤ first + (n + 1))]
      exact (List.append_nil _).symm

/-- The clipped rectangle, pixel by pixel. -/
theorem pixels_clipped (left top w h width height : ℕ) :
    pixels (List.range' (min top height) (min (top + h) height - min top height))
        (List.range' (min left width) (min (left + w) width - min left width))
      = ((pixels (List.range h) (List.range w)).filter fun p =>
          top + p.1 < height ∧ left + p.2 < width).map fun p => (top + p.1, left + p.2) := by
  rw [range'_clipped, range'_clipped]
  generalize List.range h = rows
  generalize List.range w = columns
  unfold pixels
  induction rows with
  | nil => rfl
  | cons y rows ih =>
    rw [List.product_cons, List.filter_append, List.map_append, ← ih, List.filter_map, List.map_map]
    -- a row on the canvas has its columns, one off it nothing
    by_cases hrow : top + y < height
    · have hcolumns : columns.filter ((fun p : ℕ × ℕ =>
          decide (top + p.1 < height ∧ left + p.2 < width)) ∘ Prod.mk y)
          = columns.filter fun i => left + i < width :=
        List.filter_congr fun i _ => by simp [hrow]
      rw [List.filter_cons_of_pos (by simpa using hrow), List.map_cons, List.product_cons, hcolumns,
        List.map_map]
      rfl
    · have hcolumns : columns.filter ((fun p : ℕ × ℕ =>
          decide (top + p.1 < height ∧ left + p.2 < width)) ∘ Prod.mk y) = [] := by
        rw [List.filter_eq_nil_iff]
        intro i _
        simp [hrow]
      rw [List.filter_cons_of_neg (by simpa using hrow), hcolumns]
      rfl

section Draw

variable {width height : ℕ} {left top w h : ℕ}

/-- The clipped rectangle is on the canvas. -/
theorem mem_pixels_clipped {p : ℕ × ℕ}
    (hp : p ∈ pixels (List.range' (min top height) (min (top + h) height - min top height))
      (List.range' (min left width) (min (left + w) width - min left width))) :
    p.1 < height ∧ p.2 < width := by
  obtain ⟨hy, hx⟩ := mem_pixels.1 hp
  rw [List.mem_range'_1] at hy hx
  omega

/-- Places on the canvas are in range. -/
theorem place_le {y x : ℕ} (hy : y < height) (hx : x < width) {canvas : List UInt8}
    (hcanvas : canvas.length = width * height * 4) : (y * width + x) * 4 + 4 ≤ canvas.length := by
  have hlt := Rows.index_lt hx hy
  omega

theorem copy_eq_some {canvas : List UInt8} {i : ℕ} (h : i + 4 ≤ canvas.length) (px : Bgra) :
    copy canvas i px = some (put canvas i px) := if_pos h

theorem fillRect_debug (hwidth : width < 2 ^ 16) (hheight : height < 2 ^ 16)
    (hright : left + w < 2 ^ 32) (hbottom : top + h < 2 ^ 32) (color : Bgra) {canvas : List UInt8}
    (hcanvas : canvas.length = width * height * 4) :
    fillRect .debug width height left top w h color canvas
      = some (drawn width height left top w h (fun _ => some color) canvas) := by
  unfold fillRect
  rw [u32_debug hright, u32_debug hbottom]
  dsimp only [Option.bind_eq_bind, Option.bind_some]
  rw [Loop.foldlM_eq_some (fun canvas p => put canvas ((p.1 * width + p.2) * 4) color)
    (fun canvas => canvas.length = width * height * 4) ?_ ?_ hcanvas]
  -- the pixels of the canvas in the rectangle, each filled once
  · rw [pixels_clipped, List.foldl_map, List.foldl_filter]
    unfold drawn
    simp only [decide_eq_true_eq, Option.elim_some]
  -- a fill keeps the length
  · intro canvas p hp hlen
    obtain ⟨hy, hx⟩ := mem_pixels_clipped hp
    rw [length_put (place_le hy hx hlen), hlen]
  -- and every offset of the canvas is below `2 ^ 32`
  · intro canvas p hp hlen
    obtain ⟨hy, hx⟩ := mem_pixels_clipped hp
    rw [u32_debug (row_lt (hy.trans hheight) hwidth), Option.bind_some, ← add_mul]
    exact copy_eq_some (place_le hy hx hlen) color

end Draw

/-! ### Drawing a frame -/

section Frame

variable {width height : ℕ} {f : GifFrame} {p : ℕ × ℕ} {canvas : List UInt8}

/-- What the blit does with a pixel that it can draw. -/
def drawPixel (width height : ℕ) (f : GifFrame) (canvas : List UInt8) (p : ℕ × ℕ) : List UInt8 :=
  if f.top + p.1 < height ∧ f.left + p.2 < width then
    (colourAt f p).elim canvas (put canvas (((f.top + p.1) * width + (f.left + p.2)) * 4))
  else canvas

/-- A pixel off the canvas is passed over. -/
theorem blitPixel_off (htop : f.top + p.1 < 2 ^ 32) (hleft : f.left + p.2 < 2 ^ 32)
    (hoff : ¬ OnCanvas width height f p) : blitPixel .debug width height f canvas p = some canvas := by
  unfold blitPixel
  rw [u32_debug htop, u32_debug hleft]
  dsimp only [Option.bind_eq_bind, Option.bind_some]
  refine if_pos ?_
  unfold OnCanvas at hoff
  omega

/-- What a pixel on the canvas needs. -/
theorem blitPixel_on (htop : f.top + p.1 < 2 ^ 32) (hleft : f.left + p.2 < 2 ^ 32)
    (hon : OnCanvas width height f p) : blitPixel .debug width height f canvas p
      = (Build.debug.offset p.1 f.width p.2).bind fun s => (slice f.rgba s).bind fun src =>
          if src.getD 3 0 = 0 then some canvas
          else (Build.debug.offset (f.top + p.1) width (f.left + p.2)).bind fun d =>
            copy canvas d { b := src.getD 2 0, g := src.getD 1 0, r := src.getD 0 0, a := 255 } := by
  unfold blitPixel
  rw [u32_debug htop, u32_debug hleft]
  dsimp only [Option.bind_eq_bind, Option.bind_some]
  refine if_neg ?_
  unfold OnCanvas at hon
  omega

/-- The pixel that is read. -/
theorem slice_frame (hrgba : f.rgba.length = f.width * f.height * 4) (hy : p.1 < f.height)
    (hx : p.2 < f.width) : ∃ src, slice f.rgba ((p.1 * f.width + p.2) * 4) = some src ∧
      colourAt f p = if src.getD 3 0 = 0 then none
        else some { b := src.getD 2 0, g := src.getD 1 0, r := src.getD 0 0, a := 255 } :=
  ⟨_, slice_eq_some (place_le hy hx hrgba), rfl⟩

theorem length_drawPixel (hcanvas : canvas.length = width * height * 4) :
    (drawPixel width height f canvas p).length = width * height * 4 := by
  unfold drawPixel
  split_ifs with hon
  · cases colourAt f p with
    | none => exact hcanvas
    | some px =>
      rw [Option.elim_some, length_put (place_le hon.1 hon.2 hcanvas)]
      exact hcanvas
  · exact hcanvas

theorem blitPixel_of_fits (htop : f.top + p.1 < 2 ^ 32) (hleft : f.left + p.2 < 2 ^ 32)
    (hrgba : f.rgba.length = f.width * f.height * 4) (hy : p.1 < f.height) (hx : p.2 < f.width)
    (hcanvas : canvas.length = width * height * 4) (hfits : Fits width height f p) :
    blitPixel .debug width height f canvas p = some (drawPixel width height f canvas p) := by
  unfold drawPixel
  by_cases hon : OnCanvas width height f p
  · obtain ⟨hframe, hplace⟩ := hfits hon
    obtain ⟨src, hsrc, hcolour⟩ := slice_frame hrgba hy hx
    rw [blitPixel_on htop hleft hon, offset_debug (by omega), Option.bind_some, hsrc, Option.bind_some,
      if_pos (show f.top + p.1 < height ∧ f.left + p.2 < width from hon), hcolour]
    -- the offset on the canvas is computed for a pixel that is not transparent only
    by_cases halpha : src.getD 3 0 = 0
    · rw [if_pos halpha, if_pos halpha]
      rfl
    · have hlt := hplace (by rw [hcolour, if_neg halpha]; exact Option.some_ne_none _)
      rw [if_neg halpha, if_neg halpha, offset_debug (by omega), Option.bind_some, Option.elim_some]
      exact copy_eq_some (place_le hon.1 hon.2 hcanvas) _
  · rw [blitPixel_off htop hleft hon]
    exact congrArg some (if_neg hon).symm

theorem blitPixel_of_not_fits (htop : f.top + p.1 < 2 ^ 32) (hleft : f.left + p.2 < 2 ^ 32)
    (hrgba : f.rgba.length = f.width * f.height * 4) (hy : p.1 < f.height) (hx : p.2 < f.width)
    (hfits : ¬ Fits width height f p) : blitPixel .debug width height f canvas p = none := by
  unfold Fits at hfits
  obtain ⟨hon, hlarge⟩ := Classical.not_imp.1 hfits
  rw [blitPixel_on htop hleft hon]
  -- the frame's offset overflows, or the canvas' does where the pixel is drawn
  by_cases hframe : p.1 * f.width + p.2 < 2 ^ 30
  · have hplace := fun h => hlarge ⟨hframe, h⟩
    obtain ⟨hcolour, hplace⟩ := Classical.not_imp.1 hplace
    obtain ⟨src, hsrc, hsome⟩ := slice_frame hrgba hy hx
    have halpha : ¬ src.getD 3 0 = 0 := by
      intro hzero
      rw [if_pos hzero] at hsome
      exact hcolour hsome
    rw [offset_debug (by omega), Option.bind_some, hsrc, Option.bind_some, if_neg halpha,
      offset_overflow (by omega)]
    rfl
  · rw [offset_overflow (by omega)]
    rfl

end Frame

/-- The sides of a frame are numbers of 16 bits, as they are in the file. -/
theorem ofImage_bounds {f : GifFrame} (image : GifImage) (hf : GifFrame.ofImage image = f) :
    f.top < 2 ^ 16 ∧ f.left < 2 ^ 16 ∧ f.height < 2 ^ 16 ∧ f.width < 2 ^ 16 := by
  rw [← hf]
  exact ⟨image.top.toNat_lt, image.left.toNat_lt, image.height.toNat_lt, image.width.toNat_lt⟩

/-- The pixels of such a frame are in it, and their places are numbers of 32 bits. -/
theorem mem_pixels_ofImage {f : GifFrame} (image : GifImage) (hf : GifFrame.ofImage image = f)
    {p : ℕ × ℕ} (hp : p ∈ pixels (List.range f.height) (List.range f.width)) :
    p.1 < f.height ∧ p.2 < f.width ∧ f.top + p.1 < 2 ^ 32 ∧ f.left + p.2 < 2 ^ 32 := by
  obtain ⟨htop, hleft, hheight, hwidth⟩ := ofImage_bounds image hf
  obtain ⟨hy, hx⟩ := mem_pixels.1 hp
  rw [List.mem_range] at hy hx
  omega

/-- A frame that a file can declare is drawn at its place just if its pixels fit. -/
theorem blit_eq_some_iff {width height : ℕ} (image : GifImage) {f : GifFrame}
    (hf : GifFrame.ofImage image = f) {canvas : List UInt8}
    (hcanvas : canvas.length = width * height * 4) :
    blit .debug width height f canvas
        = some (drawn width height f.left f.top f.width f.height (colourAt f) canvas)
      ↔ ∀ y < f.height, ∀ x < f.width, Fits width height f (y, x) := by
  have hrgba : f.rgba.length = f.width * f.height * 4 := hf ▸ image.buffer_length
  unfold blit
  rw [Loop.foldlM_eq_some_iff (drawPixel width height f)
    (fun canvas => canvas.length = width * height * 4) (Fits width height f) ?_ ?_ ?_ hcanvas]
  -- a pixel fits when its offsets are exact, the other two goals are its two cases
  · constructor
    · rintro ⟨hfits, -⟩ y hy x hx
      exact hfits (y, x) (mem_pixels.2 ⟨List.mem_range.2 hy, List.mem_range.2 hx⟩)
    · intro hfits
      refine ⟨fun p hp => ?_, rfl⟩
      obtain ⟨hy, hx, -⟩ := mem_pixels_ofImage image hf hp
      exact hfits p.1 hy p.2 hx
  · exact fun canvas p hp hlen => length_drawPixel hlen
  · intro canvas p hp hlen hfits
    obtain ⟨hy, hx, htop, hleft⟩ := mem_pixels_ofImage image hf hp
    exact blitPixel_of_fits htop hleft hrgba hy hx hlen hfits
  · intro canvas p hp hlen hfits
    obtain ⟨hy, hx, htop, hleft⟩ := mem_pixels_ofImage image hf hp
    exact blitPixel_of_not_fits htop hleft hrgba hy hx hfits

/-- **The offsets of a GIF are exact**, in both functions, just if each pixel of the frame that is on
the canvas has its offset in the frame and, unless it is transparent, on the canvas below `2 ^ 32`. -/
theorem offsets_exact_iff (width height : UInt16) (image : GifImage) (color : Bgra)
    (canvas : CanvasBytes width.toNat height.toNat) :
    let f := GifFrame.ofImage image
    (fillRect .debug width.toNat height.toNat f.left f.top f.width f.height color canvas.bytes
        = some (drawn width.toNat height.toNat f.left f.top f.width f.height (fun _ => some color)
            canvas.bytes) ∧
      blit .debug width.toNat height.toNat f canvas.bytes
        = some (drawn width.toNat height.toNat f.left f.top f.width f.height (colourAt f)
            canvas.bytes))
      ↔ ∀ y < f.height, ∀ x < f.width, Fits width.toNat height.toNat f (y, x) := by
  intro f
  -- coordinates of 16 bits add up without overflow
  have hf : GifFrame.ofImage image = f := rfl
  obtain ⟨htop, hleft, hheight, hwidth⟩ := ofImage_bounds image hf
  rw [and_iff_right (fillRect_debug width.toNat_lt height.toNat_lt (by omega) (by omega) color
    canvas.length_bytes)]
  exact blit_eq_some_iff image rfl canvas.length_bytes

/-! ### A wide canvas -/

/-- One opaque pixel in the first row below `2 ^ 30` pixels. -/
def farPixel : GifImage :=
  { delay := 10, dispose := .keep, left := 0, top := 32768, width := 1, height := 1,
    buffer := [255, 0, 0, 255], buffer_length := by decide }

/-- An empty canvas. -/
def blackCanvas (width height : ℕ) : CanvasBytes width height :=
  { bytes := List.replicate (width * height * 4) 0, length_bytes := List.length_replicate }

/-- On a canvas of 32768 by 32769 pixels the offset of that pixel overflows, and a release build puts
it in the top left corner. -/
theorem far_pixel_wraps :
    (¬ ∀ (width height : UInt16) (image : GifImage) (canvas : CanvasBytes width.toNat height.toNat),
        let f := GifFrame.ofImage image
        blit .debug width.toNat height.toNat f canvas.bytes
          = some (drawn width.toNat height.toNat f.left f.top f.width f.height (colourAt f)
              canvas.bytes)) ∧
      blit .release 32768 32769 (GifFrame.ofImage farPixel) (blackCanvas 32768 32769).bytes
        = some (put (blackCanvas 32768 32769).bytes 0 { b := 0, g := 0, r := 255, a := 255 }) := by
  have hpixels : pixels (List.range (GifFrame.ofImage farPixel).height)
      (List.range (GifFrame.ofImage farPixel).width) = [(0, 0)] := by decide
  constructor
  · intro hexact
    have hfar := hexact 32768 32769 farPixel (blackCanvas _ _)
    -- the offset of the pixel on the canvas is `2 ^ 32`
    have hfits : ¬ Fits 32768 32769 (GifFrame.ofImage farPixel) (0, 0) := by
      intro hfits
      have hplace := (hfits ⟨by decide, by decide⟩).2 (by decide)
      exact absurd hplace (by decide)
    have hnone : ∀ canvas, blit .debug 32768 32769 (GifFrame.ofImage farPixel) canvas = none := by
      intro canvas
      unfold blit
      rw [hpixels, List.foldlM_cons, blitPixel_of_not_fits (by decide) (by decide) (by decide)
        (by decide) (by decide) hfits]
      rfl
    exact Option.some_ne_none _ (hfar.symm.trans (hnone _))
  -- in a release build it wraps to 0
  · have hcopy : ∀ canvas, blitPixel .release 32768 32769 (GifFrame.ofImage farPixel) canvas (0, 0)
        = copy canvas 0 { b := 0, g := 0, r := 255, a := 255 } := by
      intro canvas
      have htop : Build.release.u32 ((GifFrame.ofImage farPixel).top + 0) = some 32768 := by decide
      have hleft : Build.release.u32 ((GifFrame.ofImage farPixel).left + 0) = some 0 := by decide
      have hframe : Build.release.offset 0 (GifFrame.ofImage farPixel).width 0 = some 0 := by decide
      have hsrc : slice (GifFrame.ofImage farPixel).rgba 0 = some [255, 0, 0, 255] := by decide
      have hplace : Build.release.offset 32768 32768 0 = some 0 := by decide
      unfold blitPixel
      dsimp only
      rw [htop, hleft]
      dsimp only [Option.bind_eq_bind, Option.bind_some]
      rw [if_neg (by decide), hframe, Option.bind_some, hsrc, Option.bind_some, if_neg (by decide),
        hplace]
      rfl
    unfold blit
    rw [hpixels, List.foldlM_cons, hcopy, copy_eq_some]
    · rfl
    · rw [(blackCanvas 32768 32769).length_bytes]
      decide

end GifBytes

end NoshareCover
