import Mathlib.LinearAlgebra.Pi
import NoshareCover.Core.Spec.OpaqueFile
import NoshareCover.Shim.Spec.Exposed
import NoshareCover.Shim.Texture

/-!
# What shows through a cover

A black cover hides everything below it.  A cover with media is drawn over what the frame has there,
so it hides exactly as much as its frame does: everything if all pixels that the texture takes from
it are opaque (`frameHides_iff`).  `fileHides_iff` puts this together with the frames of the media
files: PNGs with an alpha channel and GIFs without a background may let the hidden surface through.
-/

namespace NoshareCover

open Compose Resample

/-! ### Colours of a texture -/

theorem channel_le_one (b : UInt8) : channel b ≤ 1 := by
  have hb : b.toNat ≤ 255 := Nat.le_of_lt_succ b.toNat_lt
  have hcast : (b.toNat : ℚ) ≤ 255 := by exact_mod_cast hb
  unfold channel
  rw [div_le_one (by norm_num)]
  exact hcast

theorem channel_eq_one_iff {b : UInt8} : channel b = 1 ↔ b = 255 := by
  unfold channel
  rw [div_eq_one_iff_eq (by norm_num)]
  constructor
  · intro h
    have hnat : b.toNat = 255 := by exact_mod_cast h
    exact UInt8.toNat.inj hnat
  · rintro rfl
    rfl

/-- The alpha of a colour, as a linear map. -/
def alphaMap : Colour ℚ →ₗ[ℚ] ℚ where
  toFun := Colour.alpha
  map_add' _ _ := rfl
  map_smul' _ _ := rfl

theorem alpha_drawTexture (flt : Filter) (t : Texture (Colour ℚ)) (box : Box ℚ) (p : Point) :
    (drawTexture flt t box p).alpha = flt.sample (t.map alphaMap) (drawCoord t.size box p) :=
  (sample_map flt alphaMap t _).symm

theorem alpha_texture (f : CpuFrame) (p : Point) :
    (f.texture.map alphaMap).pixel p = channel (f.alphaAt p.1.toNat p.2.toNat) := rfl

/-- A drawn pixel of a frame is opaque when all pixels that the filter reads for it are. -/
theorem alpha_drawTexture_iff (flt : Filter) (f : CpuFrame) (box : Box ℚ) (p : Point) :
    (drawTexture flt f.texture box p).alpha = 1 ↔
      ∀ e ∈ flt.weights f.texture.size (drawCoord f.texture.size box p),
        f.alphaAt e.1.1.toNat e.1.2.toNat = 255 := by
  have hle : ∀ p, (f.texture.map alphaMap).pixel p ≤ 1 := fun p => channel_le_one _
  rw [alpha_drawTexture, sample_eq_iff_of_le flt _ _ hle]
  simp only [alpha_texture, channel_eq_one_iff]
  rfl

@[simp] theorem texture_size (f : CpuFrame) :
    f.texture.size = ((f.width : ℚ), (f.height : ℚ)) := rfl

/-! ### Covers -/

/-- The draw shows the surface's own picture: an effect, where there is an image to make it of. -/
def drawsEffect (kind : CoverKind) (inp : CoverInput) (op : CoverOp) : Bool :=
  kind.isEffect && inp.image.isSome && decide (1 ≤ op.box.w ∧ 1 ≤ op.box.h)

/-- Every draw of the cover leaves the same pixels, whatever was there before. -/
def CoverHides (rd : Renderer) (kind : CoverKind) (inp : CoverInput) : Prop :=
  ∀ capturePos op p, drawsEffect kind inp op = false → op.draws rd p = true →
    ∀ below below', paintCover rd kind inp capturePos op below p
      = paintCover rd kind inp capturePos op below' p

/-- Covers with this frame hide what is below them, if the frame gets a texture or not. -/
def FrameHides (rd : Renderer) (d : FrameData) : Prop :=
  ∀ (up : Uploader) kind inp, inp.media = textureFor up d → CoverHides rd kind inp

/-- Without an effect a cover is its media, or black. -/
theorem coverColour_eq (rd : Renderer) {kind : CoverKind} {inp : CoverInput} (capturePos : Vec)
    {op : CoverOp} (heffect : drawsEffect kind inp op = false) (p : Point) :
    coverColour rd kind inp capturePos op p = Colour.black
      ∨ ∃ t, inp.media = some t
        ∧ coverColour rd kind inp capturePos op p = drawTexture rd.linear t op.box p := by
  -- an effect kind without an effect has no image or no room
  have hsmall : kind.isEffect = true → inp.image.isSome = true → op.box.w < 1 ∨ op.box.h < 1 := by
    intro hkind himage
    simp only [drawsEffect, hkind, himage, Bool.true_and, decide_eq_false_iff_not] at heffect
    by_contra hbig
    rw [not_or, not_lt, not_lt] at hbig
    exact heffect hbig
  unfold coverColour
  -- media, transparent and the two effects in turn
  cases hkind : kind.kind with
  | media =>
    rcases inp.media with _ | t
    · exact .inl rfl
    · exact .inr ⟨t, rfl, rfl⟩
  | transparent => exact .inl rfl
  | blur | pixelate =>
    rcases himage : inp.image with _ | image
    · exact .inl rfl
    · left
      dsimp only
      rw [if_pos (hsmall (by simp [CoverKind.isEffect, hkind]) (by simp [himage]))]

/-- A cover that is opaque where it draws hides everything there. -/
theorem paintCover_of_alpha {rd : Renderer} {kind : CoverKind} {inp : CoverInput}
    {capturePos : Vec} {op : CoverOp} {p : Point} (hdraws : op.draws rd p = true)
    (halpha : (coverColour rd kind inp capturePos op p).alpha = 1) (below : Point → Colour ℚ) :
    paintCover rd kind inp capturePos op below p = coverColour rd kind inp capturePos op p := by
  rw [paintCover, if_pos hdraws, Colour.drawOver_of_alpha halpha]

theorem frameHides_of_opaque (rd : Renderer) {d : FrameData} (hfilled : d.Filled)
    (hfull : d.Opaque) : FrameHides rd d := by
  intro up kind inp hmedia capturePos op p heffect hdraws below below'
  have halpha : (coverColour rd kind inp capturePos op p).alpha = 1 := by
    rcases coverColour_eq rd capturePos heffect p with hc | ⟨t, ht, hc⟩
    · rw [hc]
      exact Colour.alpha_black
    · rw [hc]
      cases d with
      | dmaBuf _ => exact hfull.elim
      | cpu f =>
        have htexture : t = f.texture := by
          rw [hmedia, textureFor] at ht
          split_ifs at ht
          exact (Option.some.inj ht).symm
        rw [htexture, alpha_drawTexture_iff]
        intro e he
        -- the filter stays inside the texture
        rw [texture_size] at he
        have hw : (1 : ℚ) ≤ f.width := by exact_mod_cast hfilled.1
        have hh : (1 : ℚ) ≤ f.height := by exact_mod_cast hfilled.2
        obtain ⟨⟨hx0, hx⟩, hy0, hy⟩ := rd.linear.inside _ _ hw hh e he
        dsimp only at hx hy
        have hx' : e.1.1 < (f.width : ℤ) := by exact_mod_cast hx
        have hy' : e.1.2 < (f.height : ℤ) := by exact_mod_cast hy
        exact hfull _ (by omega) _ (by omega)
  rw [paintCover_of_alpha hdraws halpha, paintCover_of_alpha hdraws halpha]

/-- A cover that draws a frame at its own size, from the corner of the capture. -/
def ownSizeOp (rules : RuleValues) (f : CpuFrame) : CoverOp :=
  { subject := .window 0, rules, box := { x := 0, y := 0, w := f.width, h := f.height }, round := 0,
    roundingPower := 2, area := .ofBox { x := 0, y := 0, w := f.width, h := f.height } }

theorem ownSizeOp_draws (rd : Renderer) (rules : RuleValues) {f : CpuFrame} {x y : ℕ}
    (hx : x < f.width) (hy : y < f.height) : (ownSizeOp rules f).draws rd (x, y) = true := by
  -- the centre of the pixel is inside, half a pixel from each edge
  have hx' : (x : ℚ) + 1 ≤ f.width := by exact_mod_cast hx
  have hy' : (y : ℚ) + 1 ≤ f.height := by exact_mod_cast hy
  have hmem : centre ((x : ℤ), (y : ℤ)) ∈ (ownSizeOp rules f).box := by
    rw [Box.mem_def]
    simp only [ownSizeOp, centre, zero_add, Int.cast_natCast]
    have hx0 : (0 : ℚ) ≤ x := Nat.cast_nonneg x
    have hy0 : (0 : ℚ) ≤ y := Nat.cast_nonneg y
    constructor
    · constructor <;> linarith
    · constructor <;> linarith
  -- without rounding the shape is the box
  have hshape : rd.corners.shape (ownSizeOp rules f).box 0 2 (centre ((x : ℤ), (y : ℤ))) = true :=
    rd.corners.cross_subset _ _ _ _ (inCross_zero.2 hmem)
  have harea : ((x : ℤ), (y : ℤ)) ∈ (ownSizeOp rules f).area := by
    refine Region.mem_ofBox.2 (Box.mem_def.2 ?_)
    dsimp only
    omega
  unfold CoverOp.draws
  rw [Bool.and_eq_true]
  exact ⟨decide_eq_true harea, hshape⟩

theorem opaque_of_frameHides {rd : Renderer} (hreads : rd.linear.ReadsCentre) (rules : RuleValues)
    {d : FrameData} (hfilled : d.Filled) (h : FrameHides rd d) : d.Opaque := by
  cases d with
  | dmaBuf _ => exact hfilled
  | cpu f =>
    intro y hy x hx
    have hhides := h { created := fun _ => true, dmaBuf := fun _ => none }
      { kind := .media, amount := 0 } { image := none, media := some f.texture } rfl (0, 0)
      (ownSizeOp rules f) (x, y) rfl (ownSizeOp_draws rd rules hx hy)
      (fun _ => Colour.black) (fun _ => Colour.white)
    -- drawn over black and over white it is the same, so it is opaque
    have halpha : (drawTexture rd.linear f.texture (ownSizeOp rules f).box (x, y)).alpha = 1 := by
      simp only [paintCover, if_pos (ownSizeOp_draws rd rules hx hy)] at hhides
      exact Colour.opaque_of_drawOver_eq (i := 0) hhides (by decide)
    rw [alpha_drawTexture_iff] at halpha
    have hw : (f.width : ℚ) ≠ 0 := Nat.cast_ne_zero.2 (by omega)
    have hh : (f.height : ℚ) ≠ 0 := Nat.cast_ne_zero.2 (by omega)
    have hcoord : drawCoord f.texture.size (ownSizeOp rules f).box (x, y) = centre (x, y) :=
      drawCoord_own hw hh _
    rw [hcoord] at halpha
    obtain ⟨w, hw⟩ := hreads f.texture.size (x, y) ⟨by simp, by simpa [CpuFrame.texture] using hx⟩
      ⟨by simp, by simpa [CpuFrame.texture] using hy⟩
    exact halpha _ hw

/-- **A cover hides as much as its frame.** -/
theorem frameHides_iff {rd : Renderer} (hreads : rd.linear.ReadsCentre) (rules : RuleValues)
    {d : FrameData} (hfilled : d.Filled) : FrameHides rd d ↔ d.Opaque :=
  ⟨opaque_of_frameHides hreads rules hfilled, frameHides_of_opaque rd hfilled⟩

/-! ### Files -/

section Files

variable {δ κ : Type*} [Demuxer δ] [PictureDecoder κ]

/-- Covers of the file hide what is below them, at every poll and whatever the parameters are. -/
def FileHides (rd : Renderer) (files : Files δ κ) (path : String) : Prop :=
  files.HandsOut path (FrameHides rd)

/-- **Exactly opaque files make covers that hide the surface**: through a translucent PNG, or a GIF
without a background that leaves pixels unpainted, the surface shows. -/
theorem fileHides_iff (rd : Renderer) (hreads : rd.linear.ReadsCentre) (files : Files δ κ)
    (path : String) : FileHides rd files path ↔ files.OpaqueFile path := by
  have hfilled := handsOut_filled files path
  rw [← handsOut_opaque_iff]
  constructor
  · intro h speed looped settings schedule s hopen calls f hf
    exact (frameHides_iff hreads exampleRules (hfilled _ _ _ _ s hopen calls f hf)).1
      (h _ _ _ _ s hopen calls f hf)
  · intro h speed looped settings schedule s hopen calls f hf
    exact (frameHides_iff hreads exampleRules (hfilled _ _ _ _ s hopen calls f hf)).2
      (h _ _ _ _ s hopen calls f hf)

end Files

/-! ### A PNG with an alpha channel, and a GIF with a background -/

/-- No video opens. -/
instance : Demuxer Empty where
  info d := d.elim
  nextPacket d := d.elim
  rewind d := d.elim
  info_nextPacket d := d.elim
  info_rewind d := d.elim

instance : PictureDecoder Empty where
  name k := k.elim
  decode k := k.elim
  flush k := k.elim
  reset k := k.elim

/-- A PNG with one pixel, red with alpha 128. -/
def examplePng : List UInt8 :=
  [137, 80, 78, 71, 13, 10, 26, 10, 0, 0, 0, 13, 73, 72, 68, 82, 0, 0, 0, 1, 0, 0, 0, 1, 8, 6, 0, 0,
    0, 31, 21, 196, 137, 0, 0, 0, 13, 73, 68, 65, 84, 120, 156, 99, 248, 207, 192, 208, 0, 0, 4, 129,
    1, 128, 44, 85, 206, 176, 0, 0, 0, 0, 73, 69, 78, 68, 174, 66, 96, 130]

def examplePngImage : PngImage :=
  { width := 1, height := 1, colorType := .rgba, buf := [255, 0, 0, 128], buf_length := rfl }

/-- One frame that paints the left one of two pixels, on a background. -/
def exampleGif : GifFile :=
  { width := 2, height := 1, bgColor := some 0, globalPalette := some [255, 0, 0, 0, 0, 255]
    frames := .ok [{ delay := 10, dispose := .keep, left := 0, top := 0, width := 1, height := 1
                     buffer := [0, 0, 255, 255], buffer_length := rfl }] }

def exampleFiles : Files Empty Empty where
  present path := path = "cover.png" || path = "cover.gif"
  read path := if path = "cover.png" then .ok examplePng else .error "No such file or directory"
  images :=
    { png := fun bytes => if bytes = examplePng then .ok examplePngImage else .error "invalid"
      jpeg := fun _ => .error "invalid" }
  gif path := if path = "cover.gif" then .ok exampleGif else .error "No such file or directory"
  openDemuxer _ := .error "unsupported"
  openDecoder _ _ := .error "unsupported"

def mediaSettings : Settings :=
  { pathCover := "cover.png", looped := true, speed := ⟨1, Speed.one_pos⟩, backend := .cpu,
    gpuDevice := none }

/-- The red of the PNG lets half of what is below it through. -/
theorem translucent_png_shows_surface : ¬FileHides exampleRenderer exampleFiles "cover.png" := by
  intro h
  have hkind : kindFor "cover.png" = some .still := by decide +kernel
  have hopen : openMedia exampleFiles { path := "cover.png", speed := ⟨1, by decide⟩, looped := true }
      mediaSettings (fun _ => []) = .ok (.still
        ⟨some { generation := 1, data := .cpu (.fromRgba 1 1 [255, 0, 0, 128]) }⟩) := by
    unfold openMedia
    dsimp only
    rw [hkind, if_neg (by decide +kernel)]
    rfl
  have hhides := h _ _ _ _ _ hopen [.poll 0] _ (by
    rw [OpenSource.frames_still]
    exact StillSource.mem_frames rfl)
  -- the pixel under it differs, and so does what is drawn
  have hpixel := hhides { created := fun _ => true, dmaBuf := fun _ => none }
    { kind := .media, amount := 0 } { image := none, media := some (CpuFrame.texture _) } rfl (0, 0)
    (ownSizeOp exampleRules (.fromRgba 1 1 [255, 0, 0, 128])) (0, 0) rfl (by decide +kernel)
    (fun _ => Colour.black) (fun _ => Colour.white)
  have hgreen := congrFun hpixel 1
  revert hgreen
  decide +kernel

/-- The GIF leaves a pixel unpainted, but there is its background. -/
theorem gif_with_background_hides : FileHides exampleRenderer exampleFiles "cover.gif" := by
  refine (fileHides_iff exampleRenderer Filter.bilinear_readsCentre exampleFiles "cover.gif").2 ?_
  intro _
  have hkind : kindFor "cover.gif" = some .gif := by decide +kernel
  rw [hkind]
  intro file hfile
  obtain rfl : exampleGif = file := Except.ok.inj hfile
  exact .inl ⟨0, [255, 0, 0, 0, 0, 255], rfl, rfl, by decide⟩

end NoshareCover
