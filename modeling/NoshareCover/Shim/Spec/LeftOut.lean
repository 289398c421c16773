import NoshareCover.Shim.Spec.Exposed

/-!
# Surfaces left out of the image

Before the frame is drawn `transparentOn` lists the hidden surfaces with a transparent cover, and
the scene is drawn again without them, if that can be done.  Afterwards the paint pass finds them by
itself: it skips them when the scene was drawn, and paints them black when it was not.
`failsClosed_iff` says that the two agree, and where the black does not reach.
-/

namespace NoshareCover

open Compose Resample

/-- The draw shows something of the surface, or is drawn over it. -/
def PaintOp.drawsFor (key : Key) : PaintOp → Bool
  | .cover op => op.subject = .window key || op.subject = .layer key
  | .popup owner _ _ => owner = key
  | .redrawWindow k _ _ => k = key
  | .redrawLayer k _ => k = key
  | _ => false

/-- The pixel is black after one of the surface's covers, whatever was there before. -/
def BlackAt (rd : Renderer) (fr : CaptureFrame) (ops : List PaintOp) (subject : Subject)
    (p : Point) : Prop :=
  ∃ op, .cover op ∈ ops ∧ op.subject = subject
    ∧ ∀ inp below, paintCover rd (coverKind fr.cfg op.rules) inp fr.capturePos op below p
      = Colour.black

section Frame

variable (s : Shim) (fr : CaptureFrame) (now : Instant)

/-- The surface is hidden from the frame's client, or held. -/
def Shim.Covers (sf : Surface) : Prop :=
  sf.ruled = true
    ∧ ((noScreenShare fr.desktop.vars sf.key = true ∧ fr.client.sees sf.rules = false)
      ∨ s.IsHeld fr now sf.key)

/-- Its cover is transparent, by its rules or, if it is held, by those that it had. -/
def Shim.Transparent (sf : Surface) : Prop :=
  transparentCover fr.cfg (ruleValuesFor (s.prepare fr now).held sf.key sf.rules) = true

/-- The scene was drawn without the surface. -/
def Shim.LeavesOut (k : Key) : Prop :=
  ∃ vars keys, (s.render fr now).vars.scene = some (vars, keys) ∧ k ∈ keys

/-- The window is not in the image: nothing is drawn for it, and the covers of other windows are as
if it was not there. -/
structure WindowGone (w : Window) : Prop where
  leftOut : s.LeavesOut fr now w.key
  nothing : ∀ op ∈ (s.render fr now).ops, op.drawsFor w.key = false
  uncut : ∀ v, visibleRegion fr.region ((visibleWindows fr (s.paintInput fr now)).filter
      fun o => o.w.key ≠ w.key) v
    = visibleRegion fr.region (visibleWindows fr (s.paintInput fr now)) v

/-- Every pixel of the window that no opaque window above it hides is black. -/
def WindowBlack (rd : Renderer) (w : Window) : Prop :=
  ∀ v ∈ visibleWindows fr (s.paintInput fr now), v.w.key = w.key → ∀ p,
    Exposed rd.corners fr (s.paintInput fr now) v (centre p) →
      BlackAt rd fr (s.render fr now).ops (.window w.key) p

structure LayerGone (l : Layer) : Prop where
  leftOut : s.LeavesOut fr now l.key
  nothing : ∀ op ∈ (s.render fr now).ops, op.drawsFor l.key = false

def LayerBlack (rd : Renderer) (l : Layer) : Prop :=
  ∀ p, centre p ∈ layerBox fr l → BlackAt rd fr (s.render fr now).ops (.layer l.key) p

/-- **Left-out surfaces fail closed**: a hidden surface on the monitor with a transparent cover is
not in the image, or it is black where nothing hides it; and what the paint pass skips because the
scene was drawn is not in the scene. -/
structure FailsClosed (rd : Renderer) : Prop where
  window : ∀ w ∈ fr.desktop.windows, s.Covers fr now w.surface → s.Transparent fr now w.surface →
    (windowGeo w fr.mon fr.capturePos).isSome = true →
      WindowGone s fr now w ∨ WindowBlack s fr now rd w
  layer : ∀ l ∈ fr.desktop.layers, s.Covers fr now l.surface → s.Transparent fr now l.surface →
    l.visible = true → ¬ ((layerBox fr l).w < 1 ∨ (layerBox fr l).h < 1) →
      LayerGone s fr now l ∨ LayerBlack s fr now rd l
  skipped : ∀ k, .leftOut (.window k) ∈ (s.render fr now).ops
    ∨ .leftOut (.layer k) ∈ (s.render fr now).ops → s.LeavesOut fr now k

variable {s fr now}

/-! ### What the scene leaves out -/

theorem covers_iff {sf : Surface} (hsf : sf ∈ fr.desktop.surfaces) :
    s.Covers fr now sf
      ↔ sf.ruled = true ∧ noScreenShare (s.paintInput fr now).vars sf.key = true := by
  unfold Shim.Covers
  refine and_congr_right fun hruled => ?_
  exact (Shim.noScreenShare_prepare s now hsf hruled).symm

theorem leavesOut_iff {k : Key} :
    s.LeavesOut fr now k ↔ (s.paintInput fr now).left = true
      ∧ k ∈ (transparentOn s fr (s.prepare fr now).vars (s.prepare fr now).held now).keys := by
  -- the scene is drawn again only when something is left out
  have hscene : (s.render fr now).vars.scene
      = if (s.paintInput fr now).left then some ((suppressNoScreenShare
          (transparentOn s fr (s.prepare fr now).vars (s.prepare fr now).held now).keys fr.desktop
          (s.prepare fr now).vars).1,
        (transparentOn s fr (s.prepare fr now).vars (s.prepare fr now).held now).keys)
      else none := rfl
  unfold Shim.LeavesOut
  rw [hscene]
  constructor
  · rintro ⟨vars, keys, heq, hk⟩
    split_ifs at heq with hleft
    rw [Option.some.injEq, Prod.mk.injEq] at heq
    exact ⟨hleft, heq.2 ▸ hk⟩
  · rintro ⟨hleft, hk⟩
    rw [if_pos hleft]
    exact ⟨_, _, rfl, hk⟩

/-- The windows that are left out are the hidden ones on the monitor with a transparent cover. -/
theorem window_mem_keys {w : Window} (hw : w ∈ fr.desktop.windows)
    (hcovers : s.Covers fr now w.surface) (htransparent : s.Transparent fr now w.surface)
    (hgeo : (windowGeo w fr.mon fr.capturePos).isSome = true) :
    w.key ∈ (transparentOn s fr (s.prepare fr now).vars (s.prepare fr now).held now).keys := by
  obtain ⟨hruled, hhidden⟩ := (covers_iff (Desktop.window_surface hw)).1 hcovers
  refine List.mem_append_left _ (List.mem_map.2 ⟨w, List.mem_filter.2 ⟨hw, ?_⟩, rfl⟩)
  unfold transparentWindow
  rw [show w.ruled = true from hruled, hgeo]
  simp only [Bool.and_true, Bool.true_and, Bool.and_eq_true]
  exact ⟨hhidden, htransparent⟩

theorem layer_mem_keys {l : Layer} (hl : l ∈ fr.desktop.layers)
    (hmon : l.monitor = some fr.mon.id) (hcovers : s.Covers fr now l.surface)
    (htransparent : s.Transparent fr now l.surface) (hvisible : l.visible = true) :
    l.key ∈ (transparentOn s fr (s.prepare fr now).vars (s.prepare fr now).held now).keys := by
  obtain ⟨hruled, hhidden⟩ := (covers_iff (Desktop.layer_surface hl)).1 hcovers
  refine List.mem_append_right _ (List.mem_map.2 ⟨l, List.mem_filter.2 ⟨hl, ?_⟩, rfl⟩)
  unfold transparentLayer
  rw [show l.ruled = true from hruled, hvisible, hmon, decide_eq_true rfl]
  simp only [Bool.and_true, Bool.true_and, Bool.and_eq_true]
  exact ⟨hhidden, htransparent⟩

/-- With a surface to leave out, the scene is drawn if it can be. -/
theorem left_of_mem_keys {k : Key}
    (hk : k ∈ (transparentOn s fr (s.prepare fr now).vars (s.prepare fr now).held now).keys) :
    (s.paintInput fr now).left = fr.sceneReady := by
  show TransparentOn.leaves _ fr = _
  unfold TransparentOn.leaves
  have hne : (transparentOn s fr (s.prepare fr now).vars (s.prepare fr now).held now).keys.isEmpty
      = false := by
    rw [← Bool.not_eq_true, List.isEmpty_iff]
    exact List.ne_nil_of_mem hk
  rw [hne]
  simp

end Frame

/-! ### Nothing is drawn for what is gone -/

section Gone

variable {fr : CaptureFrame} {inp : PaintInput}

/-- A draw that shows something of a surface is for one that is covered and in the image, or for one
that is not hidden. -/
theorem drawsFor_cases (s : Shim) {op : PaintOp} (hop : op ∈ (s.paintCovers fr inp).2) {k : Key}
    (hdraws : op.drawsFor k = true) :
    (∃ v ∈ visibleWindows fr inp, v.w.key = k ∧ v.gone = false)
      ∨ (∃ l ∈ fr.desktop.layers, l.key = k
        ∧ (inp.left && transparentCover fr.cfg (inp.rulesOf l.key l.rules)) = false)
      ∨ noScreenShare inp.vars k = false := by
  -- only what draws for one surface can draw for `k`
  cases drawn_of_mem s hop with
  | window v hv h =>
    obtain ⟨rules, -, ⟨-, rfl⟩ | ⟨hgone, h⟩⟩ := mem_windowOps h
    · exact absurd hdraws Bool.false_ne_true
    have hkey : v.w.key = k := by
      rcases h with ⟨kind, box, rfl⟩ | rfl | ⟨-, rfl⟩
      · exact of_decide_eq_true hdraws
      · exact absurd hdraws Bool.false_ne_true
      · simpa [PaintOp.drawsFor, Visible.coverOp] using hdraws
    exact .inl ⟨v, hv, hkey, hgone⟩
  | layer l hl h =>
    obtain ⟨-, ⟨-, rfl⟩ | ⟨hshown, h⟩⟩ := mem_layerOps h
    · exact absurd hdraws Bool.false_ne_true
    have hkey : l.key = k := by
      rcases h with ⟨kind, box, rfl⟩ | rfl
      · exact of_decide_eq_true hdraws
      · simpa [PaintOp.drawsFor, Layer.coverOp] using hdraws
    exact .inr (.inl ⟨l, hl, hkey, hshown⟩)
  -- a closing cover is drawn for no surface that is there
  | closing c now h =>
    rcases mem_paint h with rfl | ⟨cover, rfl, hsubject, -⟩
    all_goals simp_all [PaintOp.drawsFor]
  -- what is drawn again is not hidden
  | redrawWindow v hopen clip h =>
    subst h
    have hkey : v.w.key = k := of_decide_eq_true hdraws
    exact .inr (.inr (hkey ▸ hopen))
  | redrawLayer l hopen clip h =>
    subst h
    have hkey : l.key = k := of_decide_eq_true hdraws
    exact .inr (.inr (hkey ▸ hopen))
  | extraRect box round fill h =>
    subst h
    exact absurd hdraws Bool.false_ne_true

/-- Nothing is drawn for a hidden surface with a transparent cover when the scene was drawn. -/
theorem drawsFor_eq_false (s : Shim) {sf : Surface} (hsf : sf ∈ fr.desktop.surfaces)
    (hruled : sf.ruled = true) (hleft : inp.left = true)
    (hhidden : noScreenShare inp.vars sf.key = true)
    (htransparent : transparentCover fr.cfg (inp.rulesOf sf.key sf.rules) = true) :
    ∀ op ∈ (s.paintCovers fr inp).2, op.drawsFor sf.key = false := by
  intro op hop
  rw [← Bool.not_eq_true]
  intro hdraws
  rcases drawsFor_cases s hop hdraws with ⟨v, hv, hk, hshown⟩ | ⟨l, hl, hk, hshown⟩ | hopen
  · -- keys name one surface, so it is the window itself that would be drawn
    have hsurface : v.w.surface = sf :=
      fr.desktop.surface_ext (Desktop.window_surface (mem_visibleWindows hv).1) hsf hk
    have hgone := (rules_of_visible hv).2
    rw [← hsurface] at hruled hhidden htransparent
    change v.w.ruled = true at hruled
    change noScreenShare inp.vars v.w.key = true at hhidden
    change transparentCover fr.cfg (inp.rulesOf v.w.key v.w.rules) = true at htransparent
    rw [hruled, hhidden, hleft, htransparent, hshown] at hgone
    exact absurd hgone Bool.false_ne_true
  -- a layer is found by its key in the same way
  · have hsurface : l.surface = sf := fr.desktop.surface_ext (Desktop.layer_surface hl) hsf hk
    rw [← hsurface] at htransparent
    change transparentCover fr.cfg (inp.rulesOf l.key l.rules) = true at htransparent
    rw [hleft, htransparent] at hshown
    exact absurd hshown.symm Bool.false_ne_true
  -- what is open is not hidden
  · rw [hhidden] at hopen
    exact absurd hopen.symm Bool.false_ne_true

/-- What is gone cuts nothing out of the covers below it. -/
theorem visibleRegion_filter (c : RegionCut) (p : Visible → Bool) (visible : List Visible)
    (hgone : ∀ o ∈ visible, p o = false → o.gone = true) (v : Visible) :
    visibleRegion c (visible.filter p) v = visibleRegion c visible v := by
  unfold visibleRegion subtractAbove
  rw [List.foldl_filter]
  refine List.foldl_ext _ _ _ fun region o ho => ?_
  cases hp : p o with
  | true => rfl
  | false => simp [hgone o ho hp]

end Gone

/-! ### What is left of the covers is black -/

section Black

variable {rd : Renderer} {fr : CaptureFrame} {inp : PaintInput}

/-- A cover that leaves its pixel black draws it: whatever is white stays white elsewhere. -/
theorem draws_of_black {kind : CoverKind} {op : CoverOp} {p : Point}
    (h : ∀ inp below, paintCover rd kind inp fr.capturePos op below p = Colour.black) :
    op.draws rd p = true := by
  by_contra hdraws
  have hwhite := h { image := none, media := none } fun _ => Colour.white
  rw [paintCover, if_neg hdraws] at hwhite
  exact Colour.black_ne_white hwhite.symm

/-- A transparent cover is drawn as an opaque black one. -/
theorem black_of_draws (op : CoverOp) {p : Point}
    (htransparent : transparentCover fr.cfg op.rules = true) (hdraws : op.draws rd p = true)
    (inp : CoverInput) (below : Point → Colour ℚ) :
    paintCover rd (coverKind fr.cfg op.rules) inp fr.capturePos op below p = Colour.black := by
  have hkind : (coverKind fr.cfg op.rules).kind = .transparent := of_decide_eq_true htransparent
  have hcolour : coverColour rd (coverKind fr.cfg op.rules) inp fr.capturePos op p
      = Colour.black := by
    unfold coverColour
    rw [hkind]
  rw [paintCover, if_pos hdraws, hcolour, Colour.drawOver_of_alpha Colour.alpha_black]

/-- The power that the paint pass rounds by. -/
theorem geo_roundingPower {v : Visible} (hv : v ∈ visibleWindows fr inp) :
    v.geo.roundingPower = if fr.capturePos = 0 then
      (if v.w.fullscreenMode then 2 else v.w.roundingPower) else 2 := by
  obtain ⟨-, -, -, hpower⟩ := windowGeo_spec (mem_visibleWindows hv).2
  rw [hpower]
  by_cases hpos : fr.capturePos = 0
  · simp [hpos]
  · rw [if_pos (.inl hpos), if_neg hpos]

/-- The cover reaches as far as the window's own shape in the picture. -/
theorem shape_of_picture {c : CornerRounding} {v : Visible} (hv : v ∈ visibleWindows fr inp)
    {q : Vec} (hq : c.picture fr.mon v q = true) :
    c.shape v.geo.box v.geo.round v.geo.roundingPower q = true := by
  rw [geo_round hv, geo_roundingPower hv]
  by_cases hpos : fr.capturePos = 0
  · rw [if_pos hpos, if_pos hpos]
    exact hq
  · rw [if_neg hpos, if_neg hpos]
    exact c.cross_subset _ _ _ _ (inCross_zero.2 (c.subset_box _ _ _ _ hq))

/-- An exposed pixel of a transparent window that is in the image is black exactly when it is
kept. -/
theorem blackAt_iff (s : Shim) {v : Visible} (hv : HiddenShown fr inp v) {rules : RuleValues}
    (hrules : v.rules = some rules) (htransparent : transparentCover fr.cfg rules = true)
    {p : Point} (hq : Exposed rd.corners fr inp v (centre p)) :
    BlackAt rd fr (s.paintCovers fr inp).2 (.window v.w.key) p ↔ PixelKept fr inp v p := by
  have hcover := cover_window_iff s hv.1 hrules hv.2.2
  rw [← mem_visibleRegion_iff_kept]
  -- the black pixel is one of the window's own cover
  constructor
  · rintro ⟨op, hop, hsubject, hblack⟩
    have hdraws := draws_of_black hblack
    obtain ⟨hempty, rfl⟩ := (hcover op).1 ⟨hop, hsubject⟩
    unfold CoverOp.draws Visible.coverOp coverArea at hdraws
    rw [hempty, Bool.and_eq_true] at hdraws
    exact of_decide_eq_true hdraws.1
  -- a pixel of the clip is drawn by the cover, which is black
  · intro hregion
    have hempty : (visibleRegion fr.region (visibleWindows fr inp) v).isEmpty = false := by
      rw [← Bool.not_eq_true]
      intro hempty
      exact Region.isEmpty_iff.1 hempty _ hregion
    have hdraws : (v.coverOp fr.region rules
        (visibleRegion fr.region (visibleWindows fr inp) v)).draws rd p = true := by
      unfold CoverOp.draws Visible.coverOp coverArea
      rw [hempty, Bool.and_eq_true]
      exact ⟨decide_eq_true hregion, shape_of_picture hv.1 hq.inside⟩
    obtain ⟨hop, hsubject⟩ := (hcover _).2 ⟨hempty, rfl⟩
    exact ⟨_, hop, hsubject, black_of_draws _ htransparent hdraws⟩

/-- A pixel of a hidden layer with a transparent cover that is in the image is black exactly when
`CRegion` makes it one of the layer's. -/
theorem blackAt_layer_iff (s : Shim) {l : Layer} (hl : l ∈ fr.desktop.layers)
    (hcovered : layerCovered fr inp l = true) (hleft : inp.left = false)
    (htransparent : transparentCover fr.cfg (inp.rulesOf l.key l.rules) = true) {p : Point}
    (hp : centre p ∈ layerBox fr l) :
    BlackAt rd fr (s.paintCovers fr inp).2 (.layer l.key) p ↔ p ∈ fr.region.cut (layerBox fr l) := by
  -- the clip is empty, which stands for the whole box
  have harea : p ∈ (l.coverOp fr (inp.rulesOf l.key l.rules)).area
      ↔ p ∈ fr.region.cut (layerBox fr l) := Region.mem_ofBox
  constructor
  · rintro ⟨op, hop, hsubject, hblack⟩
    have hdraws := draws_of_black hblack
    rcases cover_mem_cases s hop with ⟨v, -, rules, -, -, -, rfl⟩ | ⟨l', hl', -, rfl⟩ |
      ⟨owner, howner, -⟩
    · cases hsubject
    · obtain rfl := fr.desktop.layer_ext hl' hl (Subject.layer.inj hsubject)
      unfold CoverOp.draws at hdraws
      rw [Bool.and_eq_true] at hdraws
      exact harea.1 (of_decide_eq_true hdraws.1)
    · rw [howner] at hsubject
      cases hsubject
  · intro hcut
    have hdraw : PaintOp.cover (l.coverOp fr (inp.rulesOf l.key l.rules)) ∈ layerOps fr inp l := by
      simp [layerOps, hcovered, hleft]
    have hdraws : (l.coverOp fr (inp.rulesOf l.key l.rules)).draws rd p = true := by
      unfold CoverOp.draws
      rw [Bool.and_eq_true]
      exact ⟨decide_eq_true (harea.2 hcut), rd.corners.cross_subset _ _ _ _ (inCross_zero.2 hp)⟩
    obtain ⟨redrawn, closing, layers, hops, -⟩ := s.paintCovers_ops fr inp
    have hlayers := List.mem_flatMap.2 ⟨l, hl, hdraw⟩
    have hop : PaintOp.cover (l.coverOp fr (inp.rulesOf l.key l.rules))
        ∈ (s.paintCovers fr inp).2 := by
      rw [hops]
      simp only [List.mem_append]
      tauto
    exact ⟨_, hop, rfl, black_of_draws _ htransparent hdraws⟩

end Black

/-! ### The two passes agree -/

/-- What the paint pass skips is gone from the image. -/
theorem leftOut_mem_cases (s : Shim) {fr : CaptureFrame} {inp : PaintInput} {subject : Subject}
    (h : .leftOut subject ∈ (s.paintCovers fr inp).2) :
    (∃ v ∈ visibleWindows fr inp, v.gone = true ∧ subject = .window v.w.key)
      ∨ (∃ l ∈ fr.desktop.layers, layerCovered fr inp l = true
        ∧ (inp.left && transparentCover fr.cfg (inp.rulesOf l.key l.rules)) = true
        ∧ subject = .layer l.key)
      ∨ ∃ owner, subject = .closing owner := by
  cases drawn_of_mem s h with
  -- one case for each part of the frame
  | window v hv h =>
    obtain ⟨rules, -, ⟨hgone, h⟩ | ⟨-, ⟨kind, box, h⟩ | h | ⟨-, h⟩⟩⟩ := mem_windowOps h
    · exact .inl ⟨v, hv, hgone, PaintOp.leftOut.inj h⟩
    all_goals cases h
  | layer l hl h =>
    obtain ⟨hcov, ⟨hgone, h⟩ | ⟨-, ⟨kind, box, h⟩ | h⟩⟩ := mem_layerOps h
    · exact .inr (.inl ⟨l, hl, hcov, hgone, PaintOp.leftOut.inj h⟩)
    all_goals cases h
  | closing c now h =>
    rcases mem_paint h with h | ⟨cover, h, -, -⟩
    · exact .inr (.inr ⟨_, PaintOp.leftOut.inj h⟩)
    · cases h
  | redrawWindow v hopen clip h => cases h
  | redrawLayer l hopen clip h => cases h
  | extraRect box round fill h => cases h

section Frame

variable {s : Shim} {fr : CaptureFrame} {now : Instant}

/-- The scene is only drawn if it can be. -/
theorem sceneReady_of_left (h : (s.paintInput fr now).left = true) : fr.sceneReady = true := by
  have hleaves : (transparentOn s fr (s.prepare fr now).vars (s.prepare fr now).held now).leaves fr
      = true := h
  unfold TransparentOn.leaves at hleaves
  rw [Bool.and_eq_true] at hleaves
  exact hleaves.2

theorem left_of_not_ready (hready : ¬ fr.sceneReady = true) : (s.paintInput fr now).left = false := by
  rw [← Bool.not_eq_true]
  exact fun h => hready (sceneReady_of_left h)

theorem leavesOut_of_skipped (hlayers : ∀ l ∈ fr.desktop.layers, l.monitor = some fr.mon.id)
    {k : Key} (h : .leftOut (.window k) ∈ (s.render fr now).ops
      ∨ .leftOut (.layer k) ∈ (s.render fr now).ops) : s.LeavesOut fr now k := by
  -- the windows and the layers are the only surfaces skipped by name
  rw [(render_eq_paintCovers s fr now).2] at h
  have hcases : (∃ v ∈ visibleWindows fr (s.paintInput fr now), v.gone = true ∧ v.w.key = k)
      ∨ ∃ l ∈ fr.desktop.layers, layerCovered fr (s.paintInput fr now) l = true
        ∧ ((s.paintInput fr now).left
          && transparentCover fr.cfg ((s.paintInput fr now).rulesOf l.key l.rules)) = true
        ∧ l.key = k := by
    rcases h with h | h
    all_goals
      rcases leftOut_mem_cases s h with ⟨v, hv, hgone, hk⟩ | ⟨l, hl, hcov, hgone, hk⟩ | ⟨owner, hk⟩
    · exact .inl ⟨v, hv, hgone, (Subject.window.inj hk).symm⟩
    · cases hk
    · cases hk
    · cases hk
    · exact .inr ⟨l, hl, hcov, hgone, (Subject.layer.inj hk).symm⟩
    · cases hk
  rcases hcases with ⟨v, hv, hgone, rfl⟩ | ⟨l, hl, hcov, hgone, rfl⟩
  -- the window is skipped because it is covered, transparent and in the picture
  · obtain ⟨hw, hgeo⟩ := mem_visibleWindows hv
    rw [(rules_of_visible hv).2] at hgone
    simp only [Bool.and_eq_true] at hgone
    obtain ⟨⟨hruled, hhidden⟩, hleft, htransparent⟩ := hgone
    have hcovers := (covers_iff (Desktop.window_surface hw)).2 ⟨hruled, hhidden⟩
    have hsome : (windowGeo v.w fr.mon fr.capturePos).isSome = true := by rw [hgeo]; rfl
    exact leavesOut_iff.2 ⟨hleft, window_mem_keys hw hcovers htransparent hsome⟩
  -- the layer is skipped for the same reasons
  · rw [Bool.and_eq_true] at hgone
    unfold layerCovered at hcov
    simp only [Bool.and_eq_true] at hcov
    obtain ⟨⟨⟨hruled, hhidden⟩, hvisible⟩, -⟩ := hcov
    have hcovers := (covers_iff (Desktop.layer_surface hl)).2 ⟨hruled, hhidden⟩
    exact leavesOut_iff.2 ⟨hgone.1, layer_mem_keys hl (hlayers l hl) hcovers hgone.2 hvisible⟩

/-- With the scene drawn, a window that it leaves out is gone. -/
theorem windowGone_of_mem_keys {w : Window} (hw : w ∈ fr.desktop.windows)
    (hcovers : s.Covers fr now w.surface) (htransparent : s.Transparent fr now w.surface)
    (hgeo : (windowGeo w fr.mon fr.capturePos).isSome = true) (hready : fr.sceneReady = true) :
    WindowGone s fr now w := by
  -- the window is among the keys of what is left out
  have hkeys := window_mem_keys hw hcovers htransparent hgeo
  have hleft : (s.paintInput fr now).left = true := (left_of_mem_keys hkeys).trans hready
  obtain ⟨hruled, hhidden⟩ := (covers_iff (Desktop.window_surface hw)).1 hcovers
  refine ⟨leavesOut_iff.2 ⟨hleft, hkeys⟩, ?_, fun v => ?_⟩
  · rw [(render_eq_paintCovers s fr now).2]
    exact drawsFor_eq_false s (Desktop.window_surface hw) hruled hleft hhidden htransparent
  -- only the window itself goes out of the list of visible windows
  · refine visibleRegion_filter _ _ _ (fun o ho hout => ?_) v
    have hk : o.w.key = w.key := by simpa using hout
    have hsurface : o.w.surface = w.surface :=
      fr.desktop.surface_ext (Desktop.window_surface (mem_visibleWindows ho).1)
        (Desktop.window_surface hw) hk
    rw [← hsurface] at hruled hhidden htransparent
    change o.w.ruled = true at hruled
    change noScreenShare (s.paintInput fr now).vars o.w.key = true at hhidden
    change transparentCover fr.cfg ((s.paintInput fr now).rulesOf o.w.key o.w.rules) = true
      at htransparent
    rw [(rules_of_visible ho).2, hruled, hhidden, hleft, htransparent]
    rfl

theorem layerGone_of_mem_keys {l : Layer} (hl : l ∈ fr.desktop.layers)
    (hmon : l.monitor = some fr.mon.id) (hcovers : s.Covers fr now l.surface)
    (htransparent : s.Transparent fr now l.surface) (hvisible : l.visible = true)
    (hready : fr.sceneReady = true) : LayerGone s fr now l := by
  have hkeys := layer_mem_keys hl hmon hcovers htransparent hvisible
  have hleft : (s.paintInput fr now).left = true := (left_of_mem_keys hkeys).trans hready
  obtain ⟨hruled, hhidden⟩ := (covers_iff (Desktop.layer_surface hl)).1 hcovers
  refine ⟨leavesOut_iff.2 ⟨hleft, hkeys⟩, ?_⟩
  rw [(render_eq_paintCovers s fr now).2]
  exact drawsFor_eq_false s (Desktop.layer_surface hl) hruled hleft hhidden htransparent

/-- Without the scene a hidden window on screen is in the image. -/
theorem shown_of_covers {v : Visible} (hv : v ∈ visibleWindows fr (s.paintInput fr now))
    (hcovers : s.Covers fr now v.w.surface) (hleft : (s.paintInput fr now).left = false) :
    HiddenShown fr (s.paintInput fr now) v
      ∧ v.rules = some ((s.paintInput fr now).rulesOf v.w.key v.w.rules) := by
  obtain ⟨hruled, hhidden⟩ :=
    (covers_iff (Desktop.window_surface (mem_visibleWindows hv).1)).1 hcovers
  change v.w.ruled = true at hruled
  change noScreenShare (s.paintInput fr now).vars v.w.key = true at hhidden
  obtain ⟨hrules, hgone⟩ := rules_of_visible hv
  rw [hruled, hhidden] at hrules hgone
  rw [hleft] at hgone
  have hrules' : v.rules = some ((s.paintInput fr now).rulesOf v.w.key v.w.rules) := hrules
  exact ⟨⟨hv, by rw [hrules']; rfl, hgone⟩, hrules'⟩

/-- Without the scene a window is black where it is exposed exactly when `CRegion` keeps these
pixels. -/
theorem windowBlack_iff (rd : Renderer) (hready : ¬ fr.sceneReady = true) {v : Visible}
    (hv : v ∈ visibleWindows fr (s.paintInput fr now)) (hcovers : s.Covers fr now v.w.surface)
    (htransparent : s.Transparent fr now v.w.surface) :
    WindowBlack s fr now rd v.w
      ↔ ∀ p, Exposed rd.corners fr (s.paintInput fr now) v (centre p) →
        PixelKept fr (s.paintInput fr now) v p := by
  obtain ⟨hshown, hrules⟩ := shown_of_covers hv hcovers (left_of_not_ready hready)
  unfold WindowBlack
  rw [(render_eq_paintCovers s fr now).2]
  constructor
  · exact fun hblack p hp => (blackAt_iff s hshown hrules htransparent hp).1 (hblack v hv rfl p hp)
  · intro hkept v' hv' hk p hp
    obtain rfl := visibleWindows_ext hv' hv hk
    exact (blackAt_iff s hshown hrules htransparent hp).2 (hkept p hp)

/-- Without the scene a layer is black exactly when `CRegion` makes the pixels in its box its own. -/
theorem layerBlack_iff (rd : Renderer) (hready : ¬ fr.sceneReady = true) {l : Layer}
    (hl : l ∈ fr.desktop.layers) (hcovers : s.Covers fr now l.surface)
    (htransparent : s.Transparent fr now l.surface) (hvisible : l.visible = true)
    (hsize : ¬ ((layerBox fr l).w < 1 ∨ (layerBox fr l).h < 1)) :
    LayerBlack s fr now rd l
      ↔ ∀ p, centre p ∈ layerBox fr l → p ∈ fr.region.cut (layerBox fr l) := by
  -- the layer is covered, as it is hidden, visible and not too small
  obtain ⟨hruled, hhidden⟩ := (covers_iff (Desktop.layer_surface hl)).1 hcovers
  have hcovered : layerCovered fr (s.paintInput fr now) l = true := by
    unfold layerCovered
    have hsize' : ((decide ((layerBox fr l).w < 1)) || decide ((layerBox fr l).h < 1)) = false := by
      rw [← Bool.not_eq_true, Bool.or_eq_true, decide_eq_true_eq, decide_eq_true_eq]
      exact hsize
    rw [show l.ruled = true from hruled, hvisible, hsize',
      show noScreenShare (s.paintInput fr now).vars l.key = true from hhidden]
    rfl
  unfold LayerBlack
  rw [(render_eq_paintCovers s fr now).2]
  exact forall₂_congr fun p hp =>
    blackAt_layer_iff s hl hcovered (left_of_not_ready hready) htransparent hp

end Frame

/-- The surface is hidden, with a transparent cover. -/
def Shim.HidesClear (s : Shim) (fr : CaptureFrame) (now : Instant) (sf : Surface) : Prop :=
  s.Covers fr now sf ∧ s.Transparent fr now sf

section FailsClosed

variable {s : Shim} {fr : CaptureFrame} {now : Instant} (rd : Renderer)
  (hlayers : ∀ l ∈ fr.desktop.layers, l.monitor = some fr.mon.id)

include hlayers

/-- A scene that can be drawn has none of the surfaces that are left out. -/
theorem failsClosed_of_ready (hready : fr.sceneReady = true) : FailsClosed s fr now rd where
  window _ hw hcovers htransparent hgeo :=
    .inl (windowGone_of_mem_keys hw hcovers htransparent hgeo hready)
  layer l hl hcovers htransparent hvisible _ :=
    .inl (layerGone_of_mem_keys hl (hlayers l hl) hcovers htransparent hvisible hready)
  skipped _ hk := leavesOut_of_skipped hlayers hk

/-- Without the scene nothing is left out, so everything has to be black. -/
theorem failsClosed_iff_kept (hready : ¬ fr.sceneReady = true) :
    FailsClosed s fr now rd
      ↔ (∀ v ∈ visibleWindows fr (s.paintInput fr now), s.HidesClear fr now v.w.surface → ∀ p,
          Exposed rd.corners fr (s.paintInput fr now) v (centre p) →
            PixelKept fr (s.paintInput fr now) v p)
        ∧ ∀ l ∈ fr.desktop.layers, s.HidesClear fr now l.surface → l.visible = true →
          ¬ ((layerBox fr l).w < 1 ∨ (layerBox fr l).h < 1) →
            ∀ p, centre p ∈ layerBox fr l → p ∈ fr.region.cut (layerBox fr l) := by
  have hkeeps : ∀ k, ¬ s.LeavesOut fr now k := by
    intro k hk
    have hleft : (s.paintInput fr now).left = false := left_of_not_ready hready
    rw [(leavesOut_iff.1 hk).1] at hleft
    cases hleft
  constructor
  · intro hclosed
    refine ⟨fun v hv hclear => ?_, fun l hl hclear hvisible hsize => ?_⟩
    · obtain ⟨hw, hgeo⟩ := mem_visibleWindows hv
      have hblack := (hclosed.window v.w hw hclear.1 hclear.2 (by rw [hgeo]; rfl)).resolve_left
        fun hgone => hkeeps _ hgone.leftOut
      exact (windowBlack_iff rd hready hv hclear.1 hclear.2).1 hblack
    · have hblack := (hclosed.layer l hl hclear.1 hclear.2 hvisible hsize).resolve_left
        fun hgone => hkeeps _ hgone.leftOut
      exact (layerBlack_iff rd hready hl hclear.1 hclear.2 hvisible hsize).1 hblack
  · rintro ⟨hwindows, hlayer⟩
    refine ⟨fun w hw hcovers htransparent hgeo => .inr ?_,
      fun l hl hcovers htransparent hvisible hsize => .inr ?_,
      fun k hk => leavesOut_of_skipped hlayers hk⟩
    · -- the window that is drawn under the key is this one
      intro v hv hk
      have hsame : v.w = w := fr.desktop.window_ext (mem_visibleWindows hv).1 hw hk
      subst hsame
      exact (windowBlack_iff rd hready hv hcovers htransparent).2
        (hwindows v hv ⟨hcovers, htransparent⟩) v hv rfl
    · exact (layerBlack_iff rd hready hl hcovers htransparent hvisible hsize).2
        (hlayer l hl ⟨hcovers, htransparent⟩ hvisible hsize)

end FailsClosed

/-- **Left-out surfaces fail closed** exactly when the scene can be drawn, or `CRegion` keeps the
exposed pixels of hidden windows with a transparent cover, and the pixels in the boxes of such
layers.  With boxes of whole pixels that is to say that the scene can be drawn, or the capture
starts at the monitor's corner, or no pixel of such a window shows within the box of an opaque window
above it, through one of that window's rounded corners. -/
theorem failsClosed_iff (rd : Renderer) (s : Shim) (fr : CaptureFrame) (now : Instant)
    (hlayers : ∀ l ∈ fr.desktop.layers, l.monitor = some fr.mon.id) :
    (FailsClosed s fr now rd
        ↔ fr.sceneReady = true
          ∨ (∀ v ∈ visibleWindows fr (s.paintInput fr now), s.HidesClear fr now v.w.surface → ∀ p,
              Exposed rd.corners fr (s.paintInput fr now) v (centre p) →
                PixelKept fr (s.paintInput fr now) v p)
            ∧ ∀ l ∈ fr.desktop.layers, s.HidesClear fr now l.surface → l.visible = true →
              ¬ ((layerBox fr l).w < 1 ∨ (layerBox fr l).h < 1) →
                ∀ p, centre p ∈ layerBox fr l → p ∈ fr.region.cut (layerBox fr l))
      ∧ ((∀ v ∈ visibleWindows fr (s.paintInput fr now), WholeBox v.geo.box) →
        (∀ l ∈ fr.desktop.layers, WholeBox (layerBox fr l)) →
        (FailsClosed s fr now rd
          ↔ fr.sceneReady = true ∨ fr.capturePos = 0
            ∨ ∀ v ∈ visibleWindows fr (s.paintInput fr now), s.HidesClear fr now v.w.surface → ∀ p,
              Exposed rd.corners fr (s.paintInput fr now) v (centre p) →
                ∀ o ∈ visibleWindows fr (s.paintInput fr now), Hides o v → centre p ∉ o.geo.box)) := by
  by_cases hready : fr.sceneReady = true
  · have hclosed : FailsClosed s fr now rd := failsClosed_of_ready rd hlayers hready
    exact ⟨iff_of_true hclosed (.inl hready), fun _ _ => iff_of_true hclosed (.inl hready)⟩
  have hkept := @failsClosed_iff_kept s fr now rd hlayers hready
  refine ⟨hkept.trans (or_iff_right hready).symm, fun hwhole hwholeLayers => hkept.trans ?_⟩
  rw [or_iff_right hready, and_iff_left fun l hl _ _ _ p hp =>
    ((hwholeLayers l hl).mem_cut _ _).2 hp]
  by_cases hpos : fr.capturePos = 0
  · refine iff_of_true (fun v hv _ p hp => ?_) (.inl hpos)
    exact (kept_iff_of_whole hwhole hv hp).2 (.inl hpos)
  · rw [or_iff_right hpos]
    refine forall₅_congr fun v hv _ p hp => ?_
    rw [kept_iff_of_whole hwhole hv hp, or_iff_right hpos]

/-! ### A region capture while the scene can't be drawn -/

/-- A capture of the region that starts at (10, 10) while the monitor is locked: the hidden window's
cover is transparent. -/
def exampleLocked : CaptureFrame :=
  { exampleOverlap with
    cfg := { exampleConfig with pathCover := "transparent".toList }
    sceneReady := false }

/-- The hidden window shows in the corner of the window above it, neither left out nor black. -/
theorem corner_of_locked_capture_shown :
    ¬ FailsClosed Shim.init exampleLocked 0 exampleRenderer := by
  have hvisible : visibleWindows exampleLocked (Shim.init.paintInput exampleLocked 0)
      = [exampleHidden, exampleOpaque] :=
    visibleWindows_overlap rfl rfl rfl (by decide +kernel) (by decide +kernel) (by decide +kernel)
  have hmem : exampleHidden ∈ visibleWindows exampleLocked (Shim.init.paintInput exampleLocked 0) := by
    rw [hvisible]
    exact List.mem_cons_self ..
  -- the corner is exposed, since the window above is round there
  have hexposed : Exposed .circle exampleLocked (Shim.init.paintInput exampleLocked 0) exampleHidden
      (centre (40, 40)) :=
    exposed_overlap rfl hvisible (by decide +kernel) (by decide +kernel)
  have hcovers : Shim.init.Covers exampleLocked 0 exampleBelow.surface :=
    ⟨rfl, .inl (by decide +kernel)⟩
  have htransparent : Shim.init.Transparent exampleLocked 0 exampleBelow.surface := by
    unfold Shim.Transparent
    decide +kernel
  have hhides : Hides exampleOpaque exampleHidden := ⟨by decide, rfl, rfl⟩
  intro hclosed
  rcases hclosed.window exampleBelow (List.mem_cons_self ..) hcovers htransparent
    (by decide +kernel) with hgone | hblack
  -- nothing can be left out while the session is locked
  · exact Bool.false_ne_true (sceneReady_of_left (leavesOut_iff.1 hgone.leftOut).1)
  · have hat := hblack exampleHidden hmem rfl (40, 40) hexposed
    rw [(render_eq_paintCovers _ _ _).2] at hat
    -- the cut of the window above reaches into the corner
    have hkept := (blackAt_iff Shim.init ⟨hmem, rfl, rfl⟩ rfl (by decide +kernel) hexposed).1 hat
    refine hkept.2 exampleOpaque ?_ hhides ?_
    · rw [hvisible]
      exact List.mem_cons_of_mem _ (List.mem_cons_self ..)
    · unfold CutCross
      decide +kernel

/-- A hidden layer over the hidden window. -/
def exampleLockedBar : Layer :=
  { key := 3, ruled := true, rules := exampleRules, visible := true, monitor := some 0, position := 0
    size := (100, 20), level := 2, popups := [], geometryPos := 0 }

/-- Captured whole, the locked monitor shows nothing of them. -/
theorem locked_monitor_fails_closed :
    FailsClosed Shim.init
      { exampleFrame "/bin/portal" true with
        cfg := { exampleConfig with pathCover := "transparent".toList }
        desktop :=
          { exampleDesktop true with
            layers := [exampleLockedBar]
            nodup := by decide }
        sceneReady := false
        mon_mem := List.mem_singleton_self _ } 0 exampleRenderer := by
  refine ((failsClosed_iff _ _ _ _ fun l hl => ?_).2 ?_ ?_).2 (.inr (.inl rfl))
  · rw [List.mem_singleton.1 hl]
    rfl
  · decide +kernel
  · decide +kernel

end NoshareCover
