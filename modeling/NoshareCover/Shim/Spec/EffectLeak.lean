import NoshareCover.Shim.Spec.Draws
import NoshareCover.Shim.Spec.EffectReads
import NoshareCover.Shim.Spec.Exposed

/-!
# What a blurred or pixelated cover shows

The picture that effects are made of has all surfaces in it, also those whose own cover is media or
black.  `effectsOwn_iff` says that such a surface stays out of the effects exactly when it does not
show in any pixel of the picture that an effect reads.
-/

namespace NoshareCover

open Compose Resample

/-- A hidden surface that is in the image, with a cover of media or black. -/
def PlainHidden (fr : CaptureFrame) (inp : PaintInput) (k : Key) : Prop :=
  (∃ v ∈ visibleWindows fr inp, v.w.key = k ∧ v.gone = false
      ∧ ∃ rules, v.rules = some rules ∧ (coverKind fr.cfg rules).isEffect = false)
    ∨ ∃ l ∈ fr.desktop.layers, l.key = k ∧ layerCovered fr inp l = true
      ∧ (inp.left && transparentCover fr.cfg (inp.rulesOf l.key l.rules)) = false
      ∧ (coverKind fr.cfg (inp.rulesOf l.key l.rules)).isEffect = false

/-- The contents of the surfaces, in the pixels of the monitor's picture. -/
abbrev Scene := Key → Point → Colour ℚ

/-- The monitor's picture: its surfaces one over the other, on black. -/
def sceneImage (size : Vec) (surfaces : Layering Key Point) (scene : Scene) :
    Texture (Colour ℚ) :=
  { size, pixel := surfaces.compose scene fun _ => Colour.black }

theorem sceneImage_pixel (size : Vec) (surfaces : Layering Key Point) (scene : Scene) (q : Point) :
    (sceneImage size surfaces scene).pixel q
      = surfaces.compose scene (fun _ => Colour.black) q := rfl

/-- Two scenes that differ only in the contents of surfaces with a cover of media or black. -/
structure SameButPlain (fr : CaptureFrame) (inp : PaintInput) (surfaces : Layering Key Point)
    (a b : Scene) : Prop where
  valid : ∀ k p, (a k p).Valid ∧ (b k p).Valid
  fills : surfaces.Fills a ∧ surfaces.Fills b
  same : ∀ k, ¬ PlainHidden fr inp k → a k = b k

/-- An effect's cover in the frame, and a pixel that it draws. -/
structure EffectPixel (rd : Renderer) (s : Shim) (fr : CaptureFrame) (inp : PaintInput)
    (op : CoverOp) (p : Point) : Prop where
  mem : .cover op ∈ (s.paintCovers fr inp).2
  effect : (coverKind fr.cfg op.rules).isEffect = true
  draws : op.draws rd p = true

/-- What the effects show does not depend on surfaces with a cover of media or black. -/
def EffectsOwn (rd : Renderer) (size : Vec) (surfaces : Layering Key Point)
    (media : RuleValues → Option (Texture (Colour ℚ))) (s : Shim) (fr : CaptureFrame)
    (inp : PaintInput) : Prop :=
  ∀ a b, SameButPlain fr inp surfaces a b → ∀ op p, EffectPixel rd s fr inp op p →
    coverColour rd (coverKind fr.cfg op.rules)
        { image := some (sceneImage size surfaces a), media := media op.rules } fr.capturePos op p
      = coverColour rd (coverKind fr.cfg op.rules)
        { image := some (sceneImage size surfaces b), media := media op.rules } fr.capturePos op p

section Scenes

variable {surfaces : Layering Key Point} {q : Point}

/-- The surface `k` has the colour `c` at the pixel `q`; other opaque surfaces are black, and all
others are empty. -/
def spotScene (surfaces : Layering Key Point) (k : Key) (q : Point) (c : Colour ℚ) : Scene :=
  fun t p => if t = k ∧ p = q then c else if surfaces.isOpaque t then Colour.black else 0

theorem spotScene_spot (k : Key) (c : Colour ℚ) : spotScene surfaces k q c k q = c := by
  simp [spotScene]

theorem spotScene_of_ne {k t : Key} {p : Point} (h : ¬ (t = k ∧ p = q)) (c c' : Colour ℚ) :
    spotScene surfaces k q c t p = spotScene surfaces k q c' t p := by
  simp [spotScene, h]

theorem valid_spotScene (k : Key) {c : Colour ℚ} (hc : c.Valid) (t : Key) (p : Point) :
    (spotScene surfaces k q c t p).Valid := by
  unfold spotScene
  split_ifs
  · exact hc
  · exact Colour.valid_black
  · exact Colour.valid_zero

theorem fills_spotScene (k : Key) {c : Colour ℚ} (hc : c.alpha = 1) :
    surfaces.Fills (spotScene surfaces k q c) := by
  intro t ht p _
  unfold spotScene
  rw [if_pos ht]
  split_ifs
  · exact hc
  · rfl

/-- Where the surface shows, the picture has its colour. -/
theorem compose_spotScene {k : Key} (hk : surfaces.ShowsAt k q) {c : Colour ℚ}
    (hc : c.alpha = 1) (background : Point → Colour ℚ) :
    surfaces.compose (spotScene surfaces k q c) background q = c := by
  have hspot : spotScene surfaces k q c k q = c := spotScene_spot k c
  rw [Layering.compose_eq_of_shows hk (by rw [hspot, hc]), hspot]
  intro t ht hopaque
  simp [spotScene, ht, hopaque]

/-- Elsewhere the picture does not depend on the colour. -/
theorem compose_spotScene_of_ne {k : Key} {p : Point} (hp : p ≠ q) {c c' : Colour ℚ}
    (hc : c.alpha = 1) (background : Point → Colour ℚ) :
    surfaces.compose (spotScene surfaces k q c) background p
      = surfaces.compose (spotScene surfaces k q c') background p :=
  Layering.compose_congr (fills_spotScene k hc) fun _ _ => spotScene_of_ne (fun h => hp h.2) c c'

end Scenes

section Leak

variable {rd : Renderer} {size : Vec} {surfaces : Layering Key Point} {s : Shim}
  {fr : CaptureFrame} {inp : PaintInput} {op : CoverOp} {p : Point}

/-- An effect's pixel is what `drawEffect` makes of the picture. -/
theorem coverColour_effect (h : EffectPixel rd s fr inp op p) (image : Texture (Colour ℚ))
    (media : Option (Texture (Colour ℚ))) :
    coverColour rd (coverKind fr.cfg op.rules) { image := some image, media } fr.capturePos op p
      = drawEffect rd.toSampler Colour.black image (coverKind fr.cfg op.rules) op.box
        fr.capturePos p := by
  have heffect := h.effect
  have hbox := cover_box s h.mem
  unfold coverColour
  cases hkind : (coverKind fr.cfg op.rules).kind
  all_goals simp_all [CoverKind.isEffect]

end Leak

/-- **Effects show only their own surface** exactly when no surface with a cover of media or black
shows in a pixel of the picture that a drawn pixel of an effect is made of. -/
theorem effectsOwn_iff (rd : Renderer) (size : Vec) (surfaces : Layering Key Point)
    (media : RuleValues → Option (Texture (Colour ℚ))) (s : Shim) (fr : CaptureFrame)
    (inp : PaintInput) :
    EffectsOwn rd size surfaces media s fr inp
      ↔ ∀ op p, EffectPixel rd s fr inp op p → ∀ q,
        some q ∈ effectReads rd.toSampler size (coverKind fr.cfg op.rules) op.box fr.capturePos p →
        ∀ k, PlainHidden fr inp k → ¬ surfaces.ShowsAt k q := by
  constructor
  · intro hown op p hop q hq k hk hshows
    have hpair : SameButPlain fr inp surfaces (spotScene surfaces k q Colour.black)
        (spotScene surfaces k q Colour.white) := by
      refine ⟨fun t p => ⟨valid_spotScene k Colour.valid_black t p,
        valid_spotScene k Colour.valid_white t p⟩, ⟨fills_spotScene k Colour.alpha_black,
        fills_spotScene k Colour.alpha_white⟩,
        fun t ht => ?_⟩
      funext p
      refine spotScene_of_ne (fun h => ht ?_) _ _
      rw [h.1]
      exact hk
    have heq := hown _ _ hpair op p hop
    rw [coverColour_effect hop, coverColour_effect hop] at heq
    -- the two pictures differ in that one pixel
    have hspot : (sceneImage size surfaces (spotScene surfaces k q Colour.black)).pixel q
        ≠ (sceneImage size surfaces (spotScene surfaces k q Colour.white)).pixel q := by
      rw [sceneImage_pixel, sceneImage_pixel, compose_spotScene hshows Colour.alpha_black,
        compose_spotScene hshows Colour.alpha_white]
      exact Colour.black_ne_white
    have hrest : ∀ q', q' ≠ q →
        (sceneImage size surfaces (spotScene surfaces k q Colour.black)).pixel q'
          = (sceneImage size surfaces (spotScene surfaces k q Colour.white)).pixel q' := by
      intro q' hq'
      rw [sceneImage_pixel, sceneImage_pixel]
      exact compose_spotScene_of_ne hq' Colour.alpha_black _
    exact drawEffect_ne (sceneImage size surfaces (spotScene surfaces k q Colour.black))
      (sceneImage size surfaces (spotScene surfaces k q Colour.white)) rfl hq hspot
      hrest heq
  · intro hcond a b hpair op p hop
    rw [coverColour_effect hop, coverColour_effect hop]
    refine drawEffect_congr (sceneImage size surfaces a) (sceneImage size surfaces b) rfl
      fun q hq => ?_
    rw [sceneImage_pixel, sceneImage_pixel]
    refine Layering.compose_congr hpair.fills.1 fun k hshows => ?_
    by_cases hk : PlainHidden fr inp k
    · exact absurd hshows (hcond op p hop q hq k hk)
    · rw [hpair.same k hk]

/-! ### A window with media over a pixelated one -/

def examplePixelated : Window :=
  { exampleWindow with
    rules := { exampleRules with path := some "pixelate 4".toList }, size := (8, 8), rounding := 0 }

def exampleMedia : Window :=
  { exampleWindow with
    key := 2, floating := true, position := (2, 0), size := (8, 8), rounding := 0 }

def exampleEffect : CaptureFrame :=
  { exampleFrame "/bin/portal" true with
    desktop :=
      { windows := [examplePixelated, exampleMedia], layers := [], fadeouts := [], monitors := [0]
        vars := fun _ => { top := none, lower := [some true] }, nodup := by decide }
    mon_mem := exampleMonitor_mem }

def exampleEffectInput : PaintInput := Shim.init.paintInput exampleEffect 0

/-- The two windows in the monitor's picture. -/
def exampleSurfaces : Layering Key Point :=
  { order := [1, 2]
    shape := fun k p =>
      centre p ∈ (if k = 1 then ⟨0, 0, 8, 8⟩ else if k = 2 then ⟨2, 0, 8, 8⟩ else ⟨0, 0, 0, 0⟩ : Box ℚ)
    isOpaque := fun _ => true }

/-- The window with media is black or white, everything else is black. -/
def exampleScene (c : Colour ℚ) : Scene := fun k _ => if k = 2 then c else Colour.black

/-- The pixelated window's cover, within the two columns that the other window leaves of it. -/
def exampleEffectOp : CoverOp :=
  { subject := .window 1, rules := examplePixelated.rules, box := ⟨0, 0, 8, 8⟩, round := 0
    roundingPower := 2
    area := ((Region.ofBox ⟨0, 0, 8, 8⟩).subtractBox ⟨2, 0, 8, 8⟩).subtractBox ⟨2, 0, 8, 8⟩ }

theorem exampleEffectOp_pixel :
    EffectPixel exampleRenderer Shim.init exampleEffect exampleEffectInput exampleEffectOp (0, 0) := by
  refine ⟨?_, ?_, ?_⟩ <;> decide +kernel

theorem exampleMedia_plain : PlainHidden exampleEffect exampleEffectInput 2 := by
  have hmem : exampleMedia ∈ exampleEffect.desktop.windows := by simp [exampleEffect]
  have hhidden : noScreenShare exampleEffectInput.vars exampleMedia.key = true := by
    decide +kernel
  obtain ⟨v, hv, hkey, hrules, hgone⟩ :=
    exists_visible_of_hidden hmem (by decide +kernel) rfl hhidden
  refine .inl ⟨v, hv, hkey, hgone.trans ?_, _, hrules, ?_⟩
  all_goals decide +kernel

/-- The pixelated window's block at its left edge is the mean of two of its own columns and two of
the window over it, whose media cover hides those columns but not what was taken from them. -/
theorem pixelated_shows_media_window :
    ¬ EffectsOwn exampleRenderer (20, 20) exampleSurfaces (fun _ => none) Shim.init exampleEffect
      exampleEffectInput := by
  intro hown
  -- the two scenes differ in a window that is hidden by media
  have hpair : SameButPlain exampleEffect exampleEffectInput exampleSurfaces
      (exampleScene Colour.black) (exampleScene Colour.white) := by
    refine ⟨fun k p => ?_, ⟨fun k _ p _ => ?_, fun k _ p _ => ?_⟩, fun k hk => ?_⟩
    · unfold exampleScene
      -- every colour of the scenes is valid
      split_ifs
      · exact ⟨Colour.valid_black, Colour.valid_white⟩
      · exact ⟨Colour.valid_black, Colour.valid_black⟩
    · unfold exampleScene
      split_ifs <;> rfl
    · unfold exampleScene
      split_ifs <;> rfl
    -- all others show the same in both
    · have hne : k ≠ 2 := by
        rintro rfl
        exact hk exampleMedia_plain
      funext p
      simp [exampleScene, hne]
  have heq := hown _ _ hpair exampleEffectOp (0, 0) exampleEffectOp_pixel
  -- the effect reads the window below it, which the scenes do not share
  rw [coverColour_effect exampleEffectOp_pixel, coverColour_effect exampleEffectOp_pixel] at heq
  have hred := congrFun heq 0
  revert hred
  decide +kernel

end NoshareCover
