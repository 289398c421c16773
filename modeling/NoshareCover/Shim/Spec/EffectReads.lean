import NoshareCover.Shim.Effect

/-!
# What an effect is made of

`effectReads` goes through the buffers of `drawEffect` and keeps for each pixel which pixels of the
image the filters read for it.  `drawEffect_congr` and `drawEffect_ne` say that a pixel of the
effect depends on the image there and nowhere else.
-/

namespace NoshareCover

open Resample

/-! ### Reading instead of drawing -/

/-- A pixel of the image, or none for the colour that a buffer is cleared with. -/
abbrev Texel := Option Point

section Reads

open Classical in
/-- One buffer, with what is read for each of its pixels. -/
noncomputable def readStep (smp : Sampler) (acc : Texture (Set Texel) × Box ℚ) (size : Vec) :
    Texture (Set Texel) × Box ℚ :=
  let (tex, from_) := acc
  let box := effectBox tex.size from_ size
  ({ size
     pixel := fun p =>
      if centre p ∈ box then smp.linear.reads tex (drawCoord tex.size box p) else {none} },
    { x := 0, y := 0, w := size.1, h := size.2 })

variable (smp : Sampler) (size : Vec) (kind : CoverKind)

noncomputable def readTexture (src : Box ℚ) : Texture (Set Texel) :=
  let target := effectTarget src kind.amount
  ((effectSteps kind.kind target (effectHalvings src target)).foldl (readStep smp)
    ({ size, pixel := fun p => {some p} }, src)).1

/-- What the pixel `p` of the effect is made of, for an image of this size. -/
noncomputable def effectReads (box : Box ℚ) (capturePos : Vec) (p : Point) : Set Texel :=
  (if kind.kind = .pixelate then smp.nearest else smp.linear).reads
    (readTexture smp size kind (box.translate capturePos))
    (drawCoord (readTexture smp size kind (box.translate capturePos)).size box p)

end Reads

/-! ### Drawing is linear -/

section Linear

variable {M N : Type*} [AddCommGroup M] [Module ℚ M] [AddCommGroup N] [Module ℚ N]
  (smp : Sampler) (L : M →ₗ[ℚ] N) (clear : M)

theorem effectStep_map (tex : Texture M) (from_ : Box ℚ) (size : Vec) :
    effectStep smp (L clear) (tex.map L, from_) size
      = ((effectStep smp clear (tex, from_) size).1.map L,
        (effectStep smp clear (tex, from_) size).2) := by
  unfold effectStep
  dsimp only
  rw [Prod.mk.injEq]
  refine ⟨?_, rfl⟩
  unfold Texture.map
  dsimp only
  congr 1
  -- pixel by pixel: inside the box the texture is drawn, outside it is clear
  funext p
  have hdraw := drawTexture_map smp.linear L tex (effectBox tex.size from_ size) p
  unfold Texture.map at hdraw
  split_ifs
  · exact hdraw
  · rfl

theorem foldl_effectStep_map (sizes : List Vec) (tex : Texture M) (from_ : Box ℚ) :
    (sizes.foldl (effectStep smp (L clear)) (tex.map L, from_)).1
      = (sizes.foldl (effectStep smp clear) (tex, from_)).1.map L := by
  induction sizes generalizing tex from_ with
  | nil => rfl
  | cons size sizes ih =>
    rw [List.foldl_cons, List.foldl_cons, effectStep_map]
    exact ih _ _

theorem drawEffect_map (image : Texture M) (kind : CoverKind) (box : Box ℚ) (capturePos : Vec)
    (p : Point) :
    drawEffect smp (L clear) (image.map L) kind box capturePos p
      = L (drawEffect smp clear image kind box capturePos p) := by
  unfold drawEffect
  rw [← drawTexture_map]
  congr 1
  exact foldl_effectStep_map smp L clear _ image _

end Linear

/-! ### The weights of the image's pixels -/

/-- An image whose pixels stand for themselves. -/
noncomputable def unitImage (size : Vec) : Texture (Texel →₀ ℚ) :=
  { size, pixel := fun p => Finsupp.single (some p) 1 }

/-- The colours of an image, and of a cleared buffer. -/
def texelColour {M : Type*} (clear : M) (image : Texture M) : Texel → M
  | none => clear
  | some p => image.pixel p

/-- The weights of an effect's pixel. -/
noncomputable def effectWeights (smp : Sampler) (size : Vec) (kind : CoverKind) (box : Box ℚ)
    (capturePos : Vec) (p : Point) : Texel →₀ ℚ :=
  drawEffect smp (Finsupp.single none 1) (unitImage size) kind box capturePos p

/-- An effect's pixel is the weighted mean of the image's pixels. -/
theorem drawEffect_eq_mix {M : Type*} [AddCommGroup M] [Module ℚ M] (smp : Sampler) (clear : M)
    (image : Texture M) (kind : CoverKind) (box : Box ℚ) (capturePos : Vec) (p : Point) :
    drawEffect smp clear image kind box capturePos p
      = mix (texelColour clear image) (effectWeights smp image.size kind box capturePos p) := by
  have himage : (unitImage image.size).map (mix (texelColour clear image)) = image := by
    unfold unitImage Texture.map
    dsimp only
    congr 1
    funext q
    exact mix_single _ _
  rw [effectWeights, ← drawEffect_map, himage, mix_single]
  rfl

/-! ### The pixels with weight are those that are read -/

section Weighs

variable {smp : Sampler} {size : Vec} {kind : CoverKind}

theorem weighs_step {t : Texture (Texel →₀ ℚ)} {r : Texture (Set Texel)} (h : Weighs t r)
    (from_ : Box ℚ) (size : Vec) :
    Weighs (effectStep smp (Finsupp.single none 1) (t, from_) size).1
      (readStep smp (r, from_) size).1 := by
  refine ⟨rfl, fun p => ?_, fun p q => ?_⟩
  -- the weights are those of the sample, or of the clear pixel
  · unfold effectStep
    dsimp only
    split_ifs
    · exact sample_nonneg smp.linear h.nonneg _
    · exact Finsupp.single_nonneg.2 zero_le_one
  · unfold effectStep readStep
    dsimp only
    -- what has weight is what the step reads
    rw [h.size]
    split_ifs
    · have hmem := mem_support_sample smp.linear h
        (drawCoord r.size (effectBox r.size from_ size) p) q
      rw [← h.size] at hmem ⊢
      exact hmem
    · rw [Finsupp.single_apply_ne_zero]
      simp

theorem weighs_foldl (sizes : List Vec) :
    ∀ (t : Texture (Texel →₀ ℚ)) (r : Texture (Set Texel)) (from_ : Box ℚ), Weighs t r →
      Weighs (sizes.foldl (effectStep smp (Finsupp.single none 1)) (t, from_)).1
        (sizes.foldl (readStep smp) (r, from_)).1 := by
  induction sizes with
  | nil => exact fun t r from_ h => h
  | cons size sizes ih =>
    intro t r from_ h
    exact ih _ _ _ (weighs_step h from_ size)

theorem weighs_unitImage (size : Vec) :
    Weighs (unitImage size) { size, pixel := fun p => {some p} } := by
  refine ⟨rfl, fun p => Finsupp.single_nonneg.2 zero_le_one, fun p q => ?_⟩
  change Finsupp.single (some p) (1 : ℚ) q ≠ 0 ↔ q = some p
  rw [Finsupp.single_apply_ne_zero]
  simp

/-- **An effect's pixel is made of what is read for it.** -/
theorem effectWeights_ne_zero (box : Box ℚ) (capturePos : Vec) (p : Point) (q : Texel) :
    effectWeights smp size kind box capturePos p q ≠ 0
      ↔ q ∈ effectReads smp size kind box capturePos p := by
  have hweighs : Weighs
      (effectTexture smp (Finsupp.single none 1) (unitImage size) kind (box.translate capturePos))
      (readTexture smp size kind (box.translate capturePos)) :=
    weighs_foldl _ _ _ _ (weighs_unitImage size)
  rw [effectWeights, drawEffect, drawTexture, hweighs.size]
  exact mem_support_sample _ hweighs _ q

end Weighs

section Images

variable {M : Type*} [AddCommGroup M] [Module ℚ M] {smp : Sampler} {clear : M}
  (image image' : Texture M) {kind : CoverKind} {box : Box ℚ} {capturePos : Vec} {p : Point}

/-- Images that agree where the effect reads them give the same effect. -/
theorem drawEffect_congr (hsize : image.size = image'.size)
    (h : ∀ q, some q ∈ effectReads smp image.size kind box capturePos p →
      image.pixel q = image'.pixel q) :
    drawEffect smp clear image kind box capturePos p
      = drawEffect smp clear image' kind box capturePos p := by
  rw [drawEffect_eq_mix, drawEffect_eq_mix, ← hsize]
  refine mix_congr fun q hq => ?_
  cases q with
  | none => rfl
  | some q => exact h q ((effectWeights_ne_zero _ _ _ _).1 hq)

/-- Images that differ in one pixel that the effect reads give different effects. -/
theorem drawEffect_ne (hsize : image.size = image'.size) {q : Point}
    (hq : some q ∈ effectReads smp image.size kind box capturePos p)
    (hne : image.pixel q ≠ image'.pixel q)
    (hrest : ∀ q', q' ≠ q → image.pixel q' = image'.pixel q') :
    drawEffect smp clear image kind box capturePos p
      ≠ drawEffect smp clear image' kind box capturePos p := by
  rw [drawEffect_eq_mix, drawEffect_eq_mix, ← hsize]
  refine mix_ne ((effectWeights_ne_zero _ _ _ _).2 hq) hne fun q' hq' => ?_
  cases q' with
  | none => rfl
  | some q' => exact hrest q' fun h => hq' (congrArg some h)

end Images

end NoshareCover
