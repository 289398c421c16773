import NoshareCover.Lib.Painter
import NoshareCover.Shim.Spec.MediaHides

/-!
# Covers and the stack of windows

Hyprland draws the windows from the bottom to the top, and the covers are drawn over its picture
afterwards, with the translucent windows above them again on top.  The result should be the picture
of the same stack with the covers in the place of the hidden windows.  Only where several covers
overlap it need not be: they are drawn in the order of the window list, not of the stack
(`composites_iff`).
-/

namespace NoshareCover

open Compose Resample

/-! ### The picture -/

/-- What Hyprland and the core have to draw: every window's own content with its alpha, what is
below the windows, the image for effects, and the media of the covers. -/
structure WindowScene where
  content : Key → Point → Colour ℚ
  background : Point → Colour ℚ
  image : Option (Texture (Colour ℚ))
  media : RuleValues → Option (Texture (Colour ℚ))

/-- The windows on screen, from the bottom to the top. -/
def windowStack (fr : CaptureFrame) (inp : PaintInput) : Layering Visible Point where
  order := (visibleWindows fr inp).insertionSort fun a b => a.geo.layer ≤ b.geo.layer
  shape v p := centre p ∈ v.geo.box
  isOpaque v := v.geo.opaque_

section Picture

variable (rd : Renderer) (s : Shim) (fr : CaptureFrame) (inp : PaintInput) (scene : WindowScene)

/-- What Hyprland draws; its black boxes are switched off. -/
def WindowScene.drawn : Point → Colour ℚ :=
  (windowStack fr inp).compose (fun v => scene.content v.w.key) scene.background

/-- The content of a window, or its cover if it is hidden. -/
def WindowScene.covered (v : Visible) (p : Point) : Colour ℚ :=
  match v.rules with
  | none => scene.content v.w.key p
  | some rules =>
    coverColour rd (coverKind fr.cfg rules) { image := scene.image, media := scene.media rules }
      fr.capturePos (v.coverOp fr.region rules .empty) p

/-- The box of a popup: an effect like its window's cover, otherwise black. -/
def popupCover (c : RegionCut) (owner : Key) (box : Box ℚ) : CoverOp :=
  { subject := .window owner
    rules :=
      { path := none, speed := none, loop := none, hold := none, showTo := none, hideFrom := none }
    box, round := 0, roundingPower := 2, area := coverArea c box .empty }

/-- One of the draws for windows, at a pixel. -/
def PaintOp.draw (p : Point) (below : Colour ℚ) : PaintOp → Colour ℚ
  | .cover op =>
    paintCover rd (coverKind fr.cfg op.rules)
      { image := scene.image, media := scene.media op.rules } fr.capturePos op (fun _ => below) p
  | .popup owner kind box =>
    paintCover rd kind { image := scene.image, media := none } fr.capturePos
      (popupCover fr.region owner box)
      (fun _ => below) p
  | .redrawWindow key geo clip =>
    if p ∈ clip ∧ centre p ∈ geo.box then (scene.content key p).drawOver below else below
  | _ => below

/-- The draws for windows: the covers, and what goes back over them. -/
def Shim.windowDraws : List PaintOp :=
  let windows := paintWindows fr inp (s.startFrame fr)
  windows.ops
    ++ if windows.drawn.isEmpty then []
      else redrawWindows fr.region inp (visibleWindows fr inp) windows.drawn

/-- The pixel after these draws. -/
def Shim.painted (p : Point) : Colour ℚ :=
  (s.windowDraws fr inp).foldl (PaintOp.draw rd fr scene p) (scene.drawn fr inp p)

/-- The pixel of the same stack with the covers in place. -/
def WindowScene.composite : Point → Colour ℚ :=
  (windowStack fr inp).compose (scene.covered rd fr) scene.background

end Picture

/-- Windows with square corners and no popups, none of them left out of the image, with opaque media
or black as covers.  Hyprland gives every window a rule applicator, and a window that counts as
opaque fills its box. -/
structure PlainStack (fr : CaptureFrame) (inp : PaintInput) (scene : WindowScene) : Prop where
  ruled : ∀ w ∈ fr.desktop.windows, w.ruled = true
  noPopups : ∀ w ∈ fr.desktop.windows, w.popups = []
  square : ∀ v ∈ visibleWindows fr inp, v.geo.round = 0
  inImage : ∀ v ∈ visibleWindows fr inp, v.gone = false
  noEffect : ∀ v ∈ visibleWindows fr inp, ∀ rules ∈ v.rules,
    (coverKind fr.cfg rules).isEffect = false
  media : ∀ rules, ∀ tex ∈ scene.media rules, ∀ p, (tex.pixel p).alpha = 1
  fills : ∀ v ∈ visibleWindows fr inp, v.geo.opaque_ = true →
    ∀ p, centre p ∈ v.geo.box → (scene.content v.w.key p).alpha = 1

/-- The pixel is in the window's cover. -/
structure CoveredAt (fr : CaptureFrame) (inp : PaintInput) (p : Point) (v : Visible) : Prop where
  mem : v ∈ visibleWindows fr inp
  hidden : v.rules.isSome = true
  inClip : p ∈ visibleRegion fr.region (visibleWindows fr inp) v

/-- `CRegion` makes the pixel one of exactly those windows in whose box it lies. -/
def ExactAt (fr : CaptureFrame) (inp : PaintInput) (p : Point) : Prop :=
  ∀ v ∈ visibleWindows fr inp, p ∈ fr.region.cut v.geo.box ↔ centre p ∈ v.geo.box

/-- Of the covers at the pixel, the one of the window that is last in the list and the one of the
topmost window look the same, or an opaque pixel of a translucent window is over both. -/
def StackedAt (rd : Renderer) (fr : CaptureFrame) (inp : PaintInput) (scene : WindowScene)
    (p : Point) : Prop :=
  ∀ top last, CoveredAt fr inp p top → CoveredAt fr inp p last →
    (∀ v, CoveredAt fr inp p v → v = top ∨ isAbove top v = true) →
    (∀ v, CoveredAt fr inp p v → v.index ≤ last.index) →
      scene.covered rd fr last p = scene.covered rd fr top p
        ∨ ∃ o ∈ visibleWindows fr inp, isAbove o top = true ∧ o.rules = none
          ∧ centre p ∈ o.geo.box ∧ (scene.content o.w.key p).alpha = 1

/-! ### The stack -/

section Stack

variable {fr : CaptureFrame} {inp : PaintInput}

theorem visibleWindows_pairwise :
    (visibleWindows fr inp).Pairwise fun a b => a.index < b.index := by
  have hindex : (visibleWindows fr inp).map Visible.index
      = List.range' 0 (fr.desktop.windows.filterMap (visibleWindow fr inp)).length := by
    rw [visibleWindows, List.map_map, ← List.zipIdx_map_snd]
    refine List.map_congr_left fun v hv => ?_
    obtain ⟨w, -, hw⟩ := List.mem_filterMap.1 (List.fst_mem_of_mem_zipIdx hv)
    obtain ⟨geo, -, hgeo⟩ := Option.map_eq_some_iff.1 hw
    show (v.1 v.2).index = v.2
    rw [← hgeo]
    dsimp only
    split_ifs <;> rfl
  rw [← List.pairwise_map (f := Visible.index) (R := (· < ·)), hindex]
  exact List.pairwise_lt_range'

theorem isAbove_iff {a b : Visible} :
    isAbove a b = true ↔ a.index ≠ b.index
      ∧ (b.geo.layer < a.geo.layer ∨ a.geo.layer = b.geo.layer ∧ b.index < a.index) := by
  simp [isAbove]

theorem isAbove_asymm {a b : Visible} (h : isAbove a b = true) : isAbove b a = false := by
  rw [← Bool.not_eq_true]
  intro h'
  rw [isAbove_iff] at h h'
  omega

theorem isAbove_trans {a b c : Visible} (ha : a ∈ visibleWindows fr inp)
    (hc : c ∈ visibleWindows fr inp) (h : isAbove a b = true) (h' : isAbove b c = true) :
    isAbove a c = true := by
  have hne : a.index ≠ c.index := by
    intro heq
    have hnodup : ((visibleWindows fr inp).map Visible.index).Nodup :=
      List.pairwise_map.2 (visibleWindows_pairwise.imp fun h => h.ne)
    rw [List.inj_on_of_nodup_map hnodup ha hc heq, isAbove_asymm h'] at h
    cases h
  rw [isAbove_iff] at h h' ⊢
  omega

theorem mem_windowStack {v : Visible} :
    v ∈ (windowStack fr inp).order ↔ v ∈ visibleWindows fr inp := List.mem_insertionSort _

/-- The stack is in the order of `isAbove`. -/
theorem windowStack_pairwise :
    (windowStack fr inp).order.Pairwise fun a b => isAbove b a = true := by
  have hsorted := Painter.insertionSort_pairwise (fun v : Visible => v.geo.layer) Visible.index
    (@visibleWindows_pairwise fr inp)
  have hne : (windowStack fr inp).order.Pairwise fun a b => a.index ≠ b.index := by
    refine (List.perm_insertionSort _ _).symm.pairwise ?_ fun {a b} h => h.symm
    exact visibleWindows_pairwise.imp fun {a b} h => h.ne
  refine (hsorted.and hne).imp fun {a b} h => ?_
  rw [isAbove_iff]
  omega

/-- What is above a window of the stack comes after it. -/
theorem mem_post_iff {pre post : List Visible} {v o : Visible}
    (h : (windowStack fr inp).order = pre ++ v :: post) (ho : o ∈ visibleWindows fr inp) :
    isAbove o v = true ↔ o ∈ post := by
  have hpairwise := @windowStack_pairwise fr inp
  rw [h] at hpairwise
  obtain ⟨-, hpost, hpre⟩ := List.pairwise_append.1 hpairwise
  constructor
  · intro habove
    rw [← mem_windowStack, h] at ho
    rcases List.mem_append.1 ho with ho | ho
    · exact absurd habove (by rw [isAbove_asymm (hpre o ho v (List.mem_cons_self ..))]; decide)
    · rcases List.mem_cons.1 ho with rfl | ho
      · exact absurd rfl (isAbove_iff.1 habove).1
      · exact ho
  · exact (List.pairwise_cons.1 hpost).1 o

end Stack

/-! ### The passes at a pixel -/

section Passes

variable {c : RegionCut} {p : Point}

/-- Where the covers below a window are. -/
theorem mem_under {v : Visible} (drawn : List (Visible × Region ℤ)) (region : Region ℤ) :
    p ∈ drawn.foldl
        (fun (region : Region ℤ) d => if isAbove v d.1 then region.add d.2 else region) region
      ↔ p ∈ region ∨ ∃ d ∈ drawn, isAbove v d.1 = true ∧ p ∈ d.2 := by
  induction drawn generalizing region with
  | nil => simp
  | cons d drawn ih =>
    rw [List.foldl_cons, ih, List.exists_mem_cons_iff]
    split_ifs with hd
    · rw [Region.mem_add, or_assoc, and_iff_right hd]
    · rw [iff_false_intro fun h : _ ∧ p ∈ d.2 => hd h.1, false_or]

/-- What the covers above a window leave. -/
theorem mem_over {v : Visible} (drawn : List (Visible × Region ℤ)) (region : Region ℤ) :
    p ∈ drawn.foldl
        (fun (region : Region ℤ) d => if isAbove d.1 v then region.subtract d.2 else region) region
      ↔ p ∈ region ∧ ∀ d ∈ drawn, isAbove d.1 v = true → p ∉ d.2 := by
  induction drawn generalizing region with
  | nil => simp
  | cons d drawn ih =>
    rw [List.foldl_cons, ih, List.forall_mem_cons]
    split_ifs with hd
    · rw [Region.mem_subtract, and_assoc, imp_iff_right hd]
    · rw [iff_true_intro fun h : isAbove d.1 v = true => absurd h hd, true_and]

theorem mem_redrawRegion {visible : List Visible} {drawn : List (Visible × Region ℤ)}
    {v : Visible} :
    p ∈ redrawRegion c visible drawn v
      ↔ (((∃ d ∈ drawn, isAbove v d.1 = true ∧ p ∈ d.2) ∧ p ∈ c.cut v.geo.box)
          ∧ ∀ o ∈ visible, Hides o v → ¬ CutCross c o.geo.box o.geo.round p)
        ∧ ∀ d ∈ drawn, isAbove d.1 v = true → p ∉ d.2 := by
  unfold redrawRegion
  dsimp only
  rw [mem_over, mem_subtractAbove, Region.mem_inter, mem_under, Region.mem_ofBox,
    or_iff_right Region.notMem_empty]

/-- Of a window with square corners the whole box is taken out. -/
theorem cutCross_zero {b : Box ℚ} : CutCross c b 0 p ↔ p ∈ c.cut b := by
  have hzero : clampRound b 0 = 0 := max_eq_left (min_le_left ..)
  simp [CutCross, hzero]

end Passes

section Pixel

variable {rd : Renderer} {fr : CaptureFrame} {inp : PaintInput} {scene : WindowScene}

/-- The windows with a cover, and where it was drawn. -/
theorem mem_drawn (s : Shim) {c : Visible × Region ℤ} (h : PlainStack fr inp scene) :
    c ∈ (paintWindows fr inp (s.startFrame fr)).drawn
      ↔ c.1 ∈ visibleWindows fr inp ∧ c.1.rules.isSome = true
        ∧ (visibleRegion fr.region (visibleWindows fr inp) c.1).isEmpty = false
        ∧ c.2 = visibleRegion fr.region (visibleWindows fr inp) c.1 := by
  -- each window adds at most one entry, its own
  rw [paintWindows, foldl_adds _ _ _ (coverWindow_drawn fr inp (visibleWindows fr inp)),
    show (s.startFrame fr).drawn = [] from rfl, List.nil_append, List.mem_flatMap]
  constructor
  · rintro ⟨v, hv, hc⟩
    -- covered, so drawn on unless the picture leaves it out or nothing of it is seen
    split_ifs at hc with hcov
    · rw [List.mem_singleton] at hc
      subst hc
      simp only [Bool.and_eq_true, Bool.not_eq_true'] at hcov
      exact ⟨hv, hcov.1.1, hcov.2, rfl⟩
    · cases hc
  · rintro ⟨hv, hrules, hempty, hc⟩
    refine ⟨c.1, hv, ?_⟩
    rw [if_pos (by simp [hrules, h.inImage _ hv, hempty])]
    exact List.mem_singleton.2 (Prod.ext rfl hc)

theorem isEmpty_eq_false_of_mem {r : Region ℤ} {p : Point} (h : p ∈ r) : r.isEmpty = false := by
  rw [← Bool.not_eq_true, Region.isEmpty_iff]
  exact fun hempty => hempty p h

/-- A pixel in a cover of a window: the cover is among those that were drawn. -/
theorem coveredAt_iff_mem_drawn (s : Shim) (h : PlainStack fr inp scene) {p : Point}
    {v : Visible} :
    CoveredAt fr inp p v
      ↔ ∃ c ∈ (paintWindows fr inp (s.startFrame fr)).drawn, c.1 = v ∧ p ∈ c.2 := by
  constructor
  · intro hv
    refine ⟨(v, visibleRegion fr.region (visibleWindows fr inp) v), ?_, rfl, hv.inClip⟩
    exact (mem_drawn s h).2 ⟨hv.mem, hv.hidden, isEmpty_eq_false_of_mem hv.inClip, rfl⟩
  · rintro ⟨c, hc, rfl, hp⟩
    obtain ⟨hv, hrules, -, hregion⟩ := (mem_drawn s h).1 hc
    rw [hregion] at hp
    exact ⟨hv, hrules, hp⟩

/-- Covers are opaque. -/
theorem alpha_covered (h : PlainStack fr inp scene) {v : Visible}
    (hv : v ∈ visibleWindows fr inp) (hhidden : v.rules.isSome = true) (p : Point) :
    (scene.covered rd fr v p).alpha = 1 := by
  -- without an effect the cover is a colour or a texture
  obtain ⟨rules, hrules⟩ := Option.isSome_iff_exists.1 hhidden
  have heffect : drawsEffect (coverKind fr.cfg rules)
      { image := scene.image, media := scene.media rules } (v.coverOp fr.region rules .empty) = false := by
    unfold drawsEffect
    rw [h.noEffect v hv rules hrules]
    rfl
  unfold WindowScene.covered
  rw [hrules]
  dsimp only
  rcases coverColour_eq rd fr.capturePos heffect p with hc | ⟨tex, htex, hc⟩
  -- the colour and the texture are both opaque
  · rw [hc]
    exact Colour.alpha_black
  · rw [hc, alpha_drawTexture]
    exact sample_eq_of_forall _ _ _ fun e _ => h.media rules tex htex e.1

/-- What the first loop draws for a window. -/
theorem foldl_windowOps (h : PlainStack fr inp scene) {p : Point} (hexact : ExactAt fr inp p)
    {v : Visible} (hv : v ∈ visibleWindows fr inp) (below : Colour ℚ) :
    (windowOps fr (visibleWindows fr inp) v).foldl (PaintOp.draw rd fr scene p) below
      = if v.rules.isSome = true ∧ p ∈ visibleRegion fr.region (visibleWindows fr inp) v
        then scene.covered rd fr v p else below := by
  unfold windowOps
  cases hrules : v.rules with
  | none => rfl
  | some rules =>
    have hpopups : popupOps fr v.w.key (v.geo.pos - v.w.clientPos) v.w.popups
        (coverKind fr.cfg rules) = [] := by
      rw [h.noPopups _ (mem_visibleWindows hv).1]
      rfl
    have hcoloured : (scene.covered rd fr v p).alpha = 1 :=
      alpha_covered h hv (by rw [hrules]; rfl) p
    unfold WindowScene.covered at hcoloured ⊢
    rw [hrules] at hcoloured ⊢
    dsimp only at hcoloured ⊢
    rw [h.inImage v hv, hpopups, ite_self, List.nil_append, if_neg Bool.false_ne_true]
    by_cases hempty : (visibleRegion fr.region (visibleWindows fr inp) v).isEmpty = true
    · rw [if_pos hempty, if_neg fun hp => Region.isEmpty_iff.1 hempty _ hp.2]
      rfl
    -- with square corners the cover draws all of its clip
    have hdraws :
        (v.coverOp fr.region rules (visibleRegion fr.region (visibleWindows fr inp) v)).draws rd p = true
        ↔ p ∈ visibleRegion fr.region (visibleWindows fr inp) v := by
      unfold CoverOp.draws Visible.coverOp coverArea
      dsimp only
      rw [if_neg hempty, Bool.and_eq_true, decide_eq_true_iff, and_iff_left_iff_imp, h.square v hv]
      exact fun hp =>
        rd.corners.cross_subset _ _ _ _ (inCross_zero.2 ((hexact v hv).1 (mem_visibleRegion.1 hp).1))
    have hcolour : coverColour rd (coverKind fr.cfg rules)
          { image := scene.image, media := scene.media rules } fr.capturePos
          (v.coverOp fr.region rules (visibleRegion fr.region (visibleWindows fr inp) v)) p
        = coverColour rd (coverKind fr.cfg rules)
          { image := scene.image, media := scene.media rules } fr.capturePos
          (v.coverOp fr.region rules .empty) p := rfl
    rw [if_neg hempty]
    show paintCover rd (coverKind fr.cfg rules) _ fr.capturePos
      (v.coverOp fr.region rules (visibleRegion fr.region (visibleWindows fr inp) v)) (fun _ => below) p = _
    by_cases hp : p ∈ visibleRegion fr.region (visibleWindows fr inp) v
    · rw [if_pos ⟨rfl, hp⟩, ← hcolour]
      exact paintCover_of_alpha (hdraws.2 hp) (hcolour ▸ hcoloured) _
    · rw [if_neg fun hpos => hp hpos.2]
      exact if_neg fun hpos => hp (hdraws.1 hpos)

/-- The pass over the hidden windows, at a pixel. -/
theorem foldl_windows (s : Shim) (h : PlainStack fr inp scene) {p : Point}
    (hexact : ExactAt fr inp p) (below : Colour ℚ) :
    (paintWindows fr inp (s.startFrame fr)).ops.foldl (PaintOp.draw rd fr scene p) below
      = (visibleWindows fr inp).foldl (fun below v =>
          if v.rules.isSome = true ∧ p ∈ visibleRegion fr.region (visibleWindows fr inp) v
          then scene.covered rd fr v p else below) below := by
  rw [paintWindows, foldl_adds _ _ _ (coverWindow_ops fr inp (visibleWindows fr inp)),
    show (s.startFrame fr).ops = [] from rfl, List.nil_append, List.foldl_flatMap]
  exact List.foldl_ext _ _ _ fun below v hv => foldl_windowOps h hexact hv below

/-- The window is drawn again at the pixel. -/
def RedrawnAt (fr : CaptureFrame) (inp : PaintInput) (drawn : List (Visible × Region ℤ))
    (p : Point) (v : Visible) : Prop :=
  v.rules = none ∧ v.geo.opaque_ = false
    ∧ p ∈ redrawRegion fr.region (visibleWindows fr inp) drawn v ∧ centre p ∈ v.geo.box

instance (drawn : List (Visible × Region ℤ)) (p : Point) :
    DecidablePred (RedrawnAt fr inp drawn p) :=
  fun _ => inferInstanceAs (Decidable (_ ∧ _))

/-- The pass over the translucent windows, at a pixel. -/
theorem foldl_redraw (h : PlainStack fr inp scene) (drawn : List (Visible × Region ℤ)) (p : Point)
    (below : Colour ℚ) :
    (if drawn.isEmpty then [] else redrawWindows fr.region inp (visibleWindows fr inp) drawn).foldl
        (PaintOp.draw rd fr scene p) below
      = (windowStack fr inp).order.foldl (fun below v =>
          if RedrawnAt fr inp drawn p v then (scene.content v.w.key p).drawOver below else below)
        below := by
  -- nothing was drawn on, so nothing is drawn again
  split_ifs with hempty
  · rw [List.isEmpty_iff] at hempty
    subst hempty
    refine (Painter.foldl_eq_of_forall
      (fun below (v : Visible) => (scene.content v.w.key p).drawOver below)
      (fun v _ hv => ?_) below).symm
    obtain ⟨c, hc, -⟩ := (mem_redrawRegion.1 hv.2.2.1).1.1.1
    cases hc
  · unfold redrawWindows
    rw [List.foldl_filterMap]
    refine List.foldl_ext _ _ _ fun below v hv => ?_
    have hv : v ∈ visibleWindows fr inp := mem_windowStack.1 hv
    have hruled := h.ruled _ (mem_visibleWindows hv).1
    have hrules := (rules_of_visible hv).1
    rw [hruled, Bool.true_and] at hrules
    -- the loop skips what is hidden or opaque
    have hskip : (v.geo.opaque_ || !v.w.ruled || noScreenShare inp.vars v.w.key) = true
        ↔ ¬ (v.rules = none ∧ v.geo.opaque_ = false) := by
      rw [hrules, hruled]
      cases v.geo.opaque_ <;> cases noScreenShare inp.vars v.w.key <;> simp
    dsimp only
    -- a translucent window that nobody hides is drawn again where it is over a cover
    by_cases hdraw : v.rules = none ∧ v.geo.opaque_ = false
    · rw [if_neg (mt hskip.1 (not_not.2 hdraw))]
      by_cases hp : p ∈ redrawRegion fr.region (visibleWindows fr inp) drawn v ∧ centre p ∈ v.geo.box
      · rw [if_neg (by rw [isEmpty_eq_false_of_mem hp.1]; decide), if_pos ⟨hdraw.1, hdraw.2, hp⟩]
        exact if_pos hp
      · rw [if_neg fun hr : RedrawnAt fr inp drawn p v => hp hr.2.2]
        split_ifs
        · rfl
        · exact if_neg hp
    · rw [if_pos (hskip.2 hdraw), if_neg fun hr : RedrawnAt fr inp drawn p v =>
        hdraw ⟨hr.1, hr.2.1⟩]

/-! ### Above the topmost cover -/

section Top

variable {p : Point} {pre post : List Visible} {top : Visible}

/-- At a pixel, what is above the topmost cover is translucent and not hidden. -/
theorem translucent_of_post (hexact : ExactAt fr inp p) (h : PlainStack fr inp scene)
    (horder : (windowStack fr inp).order = pre ++ top :: post) (htop : CoveredAt fr inp p top)
    (hpost : ∀ v ∈ post, ¬ CoveredAt fr inp p v) {v : Visible} (hv : v ∈ post)
    (hp : centre p ∈ v.geo.box) : v.rules = none ∧ v.geo.opaque_ = false := by
  have hmem : v ∈ visibleWindows fr inp := by
    -- `v` lies above `top`, which is seen at `p`
    rw [← mem_windowStack, horder]
    exact List.mem_append_right _ (List.mem_cons_of_mem _ hv)
  have habove := (mem_post_iff horder hmem).2 hv
  have hclear := (mem_visibleRegion.1 htop.inClip).2
  constructor
  -- hidden, it would be covered here itself
  · by_contra hrules
    refine hpost v hv ⟨hmem, Option.ne_none_iff_isSome.1 hrules, mem_visibleRegion.2
      ⟨(hexact v hmem).2 hp, ?_⟩⟩
    intro o ho hhides
    exact hclear o ho ⟨isAbove_trans ho htop.mem hhides.1 habove, hhides.2⟩
  -- opaque, it would take `p` out of what is seen of `top`
  · rw [← Bool.not_eq_true]
    intro hopaque
    refine hclear v hmem ⟨habove, hopaque, h.inImage v hmem⟩ ?_
    rw [h.square v hmem, cutCross_zero]
    exact (hexact v hmem).2 hp

/-- The windows drawn again at a pixel are those above the topmost cover. -/
theorem redrawnAt_iff (hexact : ExactAt fr inp p) (s : Shim) (h : PlainStack fr inp scene)
    (horder : (windowStack fr inp).order = pre ++ top :: post) (htop : CoveredAt fr inp p top)
    (hpost : ∀ v ∈ post, ¬ CoveredAt fr inp p v) {v : Visible}
    (hv : v ∈ (windowStack fr inp).order) :
    RedrawnAt fr inp (paintWindows fr inp (s.startFrame fr)).drawn p v
      ↔ v ∈ post ∧ centre p ∈ v.geo.box := by
  have hmem := mem_windowStack.1 hv
  constructor
  · rintro ⟨hrules, -, hregion, hbox⟩
    obtain ⟨-, hover⟩ := mem_redrawRegion.1 hregion
    refine ⟨?_, hbox⟩
    -- `top` is not above what is drawn over it
    have htop_over : isAbove top v ≠ true := by
      obtain ⟨c, hc, hctop, hp⟩ := (coveredAt_iff_mem_drawn s h).1 htop
      intro habove
      exact hover c hc (by rwa [hctop]) hp
    -- below `top`, it would be hidden or above by the order of the stack
    by_contra hvpost
    rcases Painter.eq_or_rel_of_last (P := fun w => w ∉ post) horder windowStack_pairwise
      (fun w hw => not_not.2 hw) hv hvpost with rfl | habove
    · exact absurd hrules (Option.isSome_iff_ne_none.1 htop.hidden)
    · exact htop_over habove
  -- the other way: what is above `top` is above every cover drawn at `p`
  · rintro ⟨hvpost, hbox⟩
    obtain ⟨hrules, hopaque⟩ := translucent_of_post hexact h horder htop hpost hvpost hbox
    have habove := (mem_post_iff horder hmem).2 hvpost
    refine ⟨hrules, hopaque, mem_redrawRegion.2 ⟨⟨⟨?_, (hexact v hmem).2 hbox⟩, ?_⟩, ?_⟩, hbox⟩
    · obtain ⟨c, hc, rfl, hp⟩ := (coveredAt_iff_mem_drawn s h).1 htop
      exact ⟨c, hc, habove, hp⟩
    · intro o ho hhides
      exact (mem_visibleRegion.1 htop.inClip).2 o ho
        ⟨isAbove_trans ho htop.mem hhides.1 habove, hhides.2⟩
    -- a cover above `v` would be above `top`, and none is
    · intro c hc hcabove hp
      have hcov := (coveredAt_iff_mem_drawn s h).2 ⟨c, hc, rfl, hp⟩
      exact hpost c.1 ((mem_post_iff horder hcov.mem).1
        (isAbove_trans hcov.mem htop.mem hcabove habove)) hcov

/-- The compositor, where there are covers: the topmost one, below what is above it. -/
theorem composite_eq (hexact : ExactAt fr inp p) (h : PlainStack fr inp scene)
    (horder : (windowStack fr inp).order = pre ++ top :: post) (htop : CoveredAt fr inp p top)
    (hpost : ∀ v ∈ post, ¬ CoveredAt fr inp p v) :
    scene.composite rd fr inp p
      = post.foldl ((windowStack fr inp).drawLayer (fun v => scene.content v.w.key) p)
        (scene.covered rd fr top p) := by
  -- `top` has `p` in its shape, so what is below it does not matter
  have hshape : (windowStack fr inp).shape top p = true :=
    decide_eq_true ((hexact top htop.mem).1 (mem_visibleRegion.1 htop.inClip).1)
  unfold WindowScene.composite
  rw [Layering.compose_eq_foldl horder hshape (alpha_covered h htop.mem htop.hidden p)]
  -- above it the two pictures draw the same windows
  refine List.foldl_ext _ _ _ fun below v hv => ?_
  unfold Layering.drawLayer
  split_ifs with hp
  · obtain ⟨hopen, -⟩ := translucent_of_post hexact h horder htop hpost hv (of_decide_eq_true hp)
    unfold WindowScene.covered
    rw [hopen]
  · rfl

/-- A window above the topmost cover that hides it is open, and is one of those after it. -/
theorem exists_solid_post_iff (hexact : ExactAt fr inp p) (h : PlainStack fr inp scene)
    (horder : (windowStack fr inp).order = pre ++ top :: post) (htop : CoveredAt fr inp p top)
    (hpost : ∀ v ∈ post, ¬ CoveredAt fr inp p v) :
    (∃ o ∈ post, (windowStack fr inp).shape o p = true ∧ (scene.content o.w.key p).alpha = 1)
      ↔ ∃ o ∈ visibleWindows fr inp, isAbove o top = true ∧ o.rules = none
          ∧ centre p ∈ o.geo.box ∧ (scene.content o.w.key p).alpha = 1 := by
  constructor
  · rintro ⟨o, ho, hp, halpha⟩
    have hmem : o ∈ visibleWindows fr inp := by
      rw [← mem_windowStack, horder]
      exact List.mem_append_right _ (List.mem_cons_of_mem _ ho)
    have hbox := of_decide_eq_true hp
    obtain ⟨hopen, -⟩ := translucent_of_post hexact h horder htop hpost ho hbox
    exact ⟨o, hmem, (mem_post_iff horder hmem).2 ho, hopen, hbox, halpha⟩
  · rintro ⟨o, ho, habove, -, hp, halpha⟩
    exact ⟨o, (mem_post_iff horder ho).1 habove, decide_eq_true hp, halpha⟩

/-- What the passes leave where there are covers: the cover of the window that is last in the list,
below what is above the topmost one. -/
theorem painted_eq (hexact : ExactAt fr inp p) (s : Shim) (h : PlainStack fr inp scene)
    (horder : (windowStack fr inp).order = pre ++ top :: post) (htop : CoveredAt fr inp p top)
    (hpost : ∀ v ∈ post, ¬ CoveredAt fr inp p v) {before after : List Visible} {last : Visible}
    (hlist : visibleWindows fr inp = before ++ last :: after) (hlast : CoveredAt fr inp p last)
    (hafter : ∀ v ∈ after, ¬ CoveredAt fr inp p v) :
    s.painted rd fr inp scene p
      = post.foldl ((windowStack fr inp).drawLayer (fun v => scene.content v.w.key) p)
        (scene.covered rd fr last p) := by
  -- covers replace what is below, so the last one in the list is left
  have hfirst : (visibleWindows fr inp).foldl (fun below v =>
      if v.rules.isSome = true ∧ p ∈ visibleRegion fr.region (visibleWindows fr inp) v
      then scene.covered rd fr v p else below) (scene.drawn fr inp p)
      = scene.covered rd fr last p := by
    refine Painter.foldl_replace_of_last (fun v => scene.covered rd fr v p) hlist
      ⟨hlast.hidden, hlast.inClip⟩ (fun v hv hcov => hafter v hv ⟨?_, hcov.1, hcov.2⟩) _
    rw [hlist]
    exact List.mem_append_right _ (List.mem_cons_of_mem _ hv)
  have hpairwise := @windowStack_pairwise fr inp
  rw [horder] at hpairwise
  obtain ⟨-, htop_post, hpre⟩ := List.pairwise_append.1 hpairwise
  -- the windows up to the topmost cover are not above it
  have hbelow : ∀ v ∈ pre ++ [top], v ∈ (windowStack fr inp).order ∧ v ∉ post := by
    intro v hv
    rw [horder]
    rcases List.mem_append.1 hv with hv | hv
    · refine ⟨List.mem_append_left _ hv, fun hpost' => ?_⟩
      have habove := (List.pairwise_cons.1 htop_post).1 v hpost'
      have htop_over := hpre v hv top (List.mem_cons_self ..)
      rw [isAbove_asymm habove] at htop_over
      cases htop_over
    · rw [List.mem_singleton.1 hv]
      refine ⟨List.mem_append_right _ (List.mem_cons_self ..), fun hpost' => ?_⟩
      exact (isAbove_iff.1 ((List.pairwise_cons.1 htop_post).1 top hpost')).1 rfl
  unfold Shim.painted Shim.windowDraws
  dsimp only
  rw [List.foldl_append, foldl_windows s h hexact, hfirst, foldl_redraw h]
  have hredrawn := fun {v} hv => redrawnAt_iff hexact s h horder htop hpost (v := v) hv
  rw [horder, List.append_cons, List.foldl_append, Painter.foldl_eq_of_forall
    (fun below (v : Visible) => (scene.content v.w.key p).drawOver below)
    fun v hv hr => (hbelow v hv).2 ((hredrawn (hbelow v hv).1).1 hr).1]
  refine List.foldl_ext _ _ _ fun below v hv => ?_
  unfold Layering.drawLayer
  refine if_congr ((hredrawn ?_).trans ((and_iff_right hv).trans ?_)) rfl rfl
  · rw [horder]
    exact List.mem_append_right _ (List.mem_cons_of_mem _ hv)
  · exact decide_eq_true_iff.symm

end Top

/-- Where no cover is drawn the picture stays, and the hidden windows do not show in it. -/
theorem painted_eq_of_none (s : Shim) (h : PlainStack fr inp scene) {p : Point}
    (hexact : ExactAt fr inp p) (hnone : ∀ v, ¬ CoveredAt fr inp p v) :
    s.painted rd fr inp scene p = scene.composite rd fr inp p := by
  have hpainted : s.painted rd fr inp scene p = scene.drawn fr inp p := by
    unfold Shim.painted Shim.windowDraws
    dsimp only
    rw [List.foldl_append, foldl_windows s h hexact, foldl_redraw h,
      Painter.foldl_eq_of_forall (fun _ v => scene.covered rd fr v p)
        fun v hv hcov => hnone v ⟨hv, hcov.1, hcov.2⟩]
    refine Painter.foldl_eq_of_forall
      (fun below (v : Visible) => (scene.content v.w.key p).drawOver below) (fun v _ hr => ?_) _
    obtain ⟨c, hc, -, hp⟩ := (mem_redrawRegion.1 hr.2.2.1).1.1.1
    exact hnone c.1 ((coveredAt_iff_mem_drawn s h).2 ⟨c, hc, rfl, hp⟩)
  rw [hpainted]
  refine Layering.composeIn_congr _ (fun v hv hopaque hp => ?_) fun v hshows => ?_
  · exact h.fills v (mem_windowStack.1 hv) hopaque p (of_decide_eq_true hp)
  · obtain ⟨pre, post, horder, hshape, hpost⟩ := hshows
    have hv : v ∈ visibleWindows fr inp := by
      rw [← mem_windowStack, horder]
      exact List.mem_append_right _ (List.mem_cons_self ..)
    -- a hidden window that shows is in its own cover
    have hopen : v.rules = none := by
      by_contra hrules
      refine hnone v ⟨hv, Option.ne_none_iff_isSome.1 hrules, mem_visibleRegion.2
        ⟨(hexact v hv).2 (of_decide_eq_true hshape), fun o ho hhides hcross => ?_⟩⟩
      rw [h.square o ho, cutCross_zero, hexact o ho] at hcross
      have hclear := hpost o ((mem_post_iff horder ho).1 hhides.1) (decide_eq_true hcross)
      exact absurd (hhides.2.1.symm.trans hclear) (by decide)
    unfold WindowScene.covered
    rw [hopen]

/-- **A pixel is right** if and only if the covers there look as they are stacked. -/
theorem painted_eq_composite_iff (s : Shim) (h : PlainStack fr inp scene) {p : Point}
    (hexact : ExactAt fr inp p) :
    s.painted rd fr inp scene p = scene.composite rd fr inp p ↔ StackedAt rd fr inp scene p := by
  by_cases hsome : ∃ v, CoveredAt fr inp p v
  swap
  · rw [not_exists] at hsome
    exact iff_of_true (painted_eq_of_none s h hexact hsome) fun top _ htop => absurd htop (hsome top)
  have hmem : ∃ v ∈ visibleWindows fr inp, CoveredAt fr inp p v :=
    hsome.imp fun v hv => ⟨hv.mem, hv⟩
  have hstack : ∃ v ∈ (windowStack fr inp).order, CoveredAt fr inp p v :=
    hsome.imp fun v hv => ⟨mem_windowStack.2 hv.mem, hv⟩
  obtain ⟨before, last, after, hlist, hlast, hafter⟩ := Painter.exists_last hmem
  obtain ⟨pre, top, post, horder, htop, hpost⟩ := Painter.exists_last hstack
  have htop_best : ∀ v, CoveredAt fr inp p v → v = top ∨ isAbove top v = true := fun v hv =>
    Painter.eq_or_rel_of_last horder windowStack_pairwise hpost (mem_windowStack.2 hv.mem) hv
  have hlast_best : ∀ v, CoveredAt fr inp p v → v = last ∨ v.index < last.index := fun v hv =>
    Painter.eq_or_rel_of_last hlist visibleWindows_pairwise hafter hv.mem hv
  rw [composite_eq hexact h horder htop hpost,
    painted_eq hexact s h horder htop hpost hlist hlast hafter, Layering.foldl_drawLayer_eq_iff,
    exists_solid_post_iff hexact h horder htop hpost]
  constructor
  · intro hpixel top' last' htop' hlast' htop_best' hlast_best'
    -- the topmost cover and the last one are unique
    have htop_eq : top' = top := by
      rcases htop_best' top htop with heq | habove
      · exact heq.symm
      · refine (htop_best top' htop').resolve_right fun habove' => ?_
        rw [isAbove_asymm habove] at habove'
        cases habove'
    have hlast_eq : last' = last :=
      (hlast_best last' hlast').resolve_right (not_lt.2 (hlast_best' last hlast))
    rw [htop_eq, hlast_eq]
    exact hpixel
  · intro hstacked
    exact hstacked top last htop hlast htop_best fun v hv =>
      (hlast_best v hv).elim (fun heq => heq ▸ le_rfl) le_of_lt

/-- **Covering is compositing with the covers in place** if and only if the covers look as they are
stacked: at every pixel that `CRegion` makes one of the windows in whose boxes it lies, and so at
every pixel when the boxes are of whole pixels. -/
theorem composites_iff (rd : Renderer) (s : Shim) (fr : CaptureFrame) (inp : PaintInput)
    (scene : WindowScene) (h : PlainStack fr inp scene) :
    (∀ p, ExactAt fr inp p →
        (s.painted rd fr inp scene p = scene.composite rd fr inp p ↔ StackedAt rd fr inp scene p))
      ∧ ((∀ v ∈ visibleWindows fr inp, WholeBox v.geo.box) →
        ((∀ p, s.painted rd fr inp scene p = scene.composite rd fr inp p)
          ↔ ∀ p, StackedAt rd fr inp scene p)) := by
  refine ⟨fun p hexact => painted_eq_composite_iff s h hexact, fun hwhole => ?_⟩
  exact forall_congr' fun p =>
    painted_eq_composite_iff s h fun v hv => (hwhole v hv).mem_cut fr.region p

/-- A window list in stacking order has its covers in order everywhere. -/
theorem stackedAt_of_pairwise
    (h : (visibleWindows fr inp).Pairwise fun a b => isAbove b a = true) (p : Point) :
    StackedAt rd fr inp scene p := by
  intro top last htop hlast htop_best hlast_best
  -- the topmost window is not the last in the list
  rcases htop_best last hlast with rfl | habove
  · exact .inl rfl
  let R : Visible → Visible → Prop := fun a b =>
    (a.index < b.index → isAbove b a = true) ∧ (b.index < a.index → isAbove a b = true)
  have hsymm : Std.Symm R := ⟨fun _ _ h => h.symm⟩
  -- later in the list is above, by the hypothesis
  have hpairs : (visibleWindows fr inp).Pairwise R := by
    refine (h.and visibleWindows_pairwise).imp fun {a b} hab => ?_
    exact ⟨fun _ => hab.1, fun hlt => absurd hab.2 hlt.asymm⟩
  have hforall := hpairs.forall_of_forall fun v _ =>
    ⟨fun hlt => absurd hlt (lt_irrefl _), fun hlt => absurd hlt (lt_irrefl _)⟩
  have hlt : top.index < last.index :=
    lt_of_le_of_ne (hlast_best top htop) (isAbove_iff.1 habove).1
  -- `last` is above `top` and below it
  have hover := (hforall htop.mem hlast.mem).1 hlt
  rw [isAbove_asymm habove] at hover
  cases hover

end Pixel

/-! ### A floating window over a tiled one -/

/-- A tiled window without rounding, and a translucent floating one in the same place. -/
def exampleTiled : Window := { exampleWindow with rounding := 0 }

def exampleFloating : Window :=
  { exampleTiled with
    key := 2, floating := true, opaque_ := false
    rules := { exampleRules with path := some "/cover.png".toList } }

/-- Both are hidden. -/
def exampleStack (windows : List Window) (h : (windows.map Window.key).Nodup) : CaptureFrame :=
  { exampleFrame "/bin/portal" true with
    desktop :=
      { windows, layers := [], fadeouts := [], monitors := [0]
        vars := fun _ => { top := none, lower := [some true] }, nodup := by simpa using h }
    mon_mem := exampleMonitor_mem }

/-- The floating window is the older one. -/
def exampleMixed : CaptureFrame := exampleStack [exampleFloating, exampleTiled] (by decide)

def exampleSorted : CaptureFrame := exampleStack [exampleTiled, exampleFloating] (by decide)

/-- The cover of the floating window is white, the default cover does not open. -/
def stackedScene : WindowScene :=
  { content := fun k _ => if k = 2 then ![1 / 2, 0, 0, 1 / 2] else .white
    background := fun _ => .black, image := none
    media := fun rules =>
      if rules.path = none then none else some { size := (1, 1), pixel := fun _ => .white } }

theorem plainStack_example {fr : CaptureFrame} (hfr : fr = exampleMixed ∨ fr = exampleSorted) :
    PlainStack fr (Shim.init.paintInput fr 0) stackedScene := by
  -- the media of the scene are opaque at every place
  have hmedia : ∀ rules, ∀ tex ∈ stackedScene.media rules, ∀ p, (tex.pixel p).alpha = 1 := by
    intro rules tex htex p
    unfold stackedScene at htex
    dsimp only at htex
    split_ifs at htex
    · cases htex
    · rw [← Option.mem_some.1 htex]
      rfl
  -- only the second window lets anything through
  have hwhite : ∀ k p, k ≠ 2 → (stackedScene.content k p).alpha = 1 := by
    intro k p hk
    unfold stackedScene
    dsimp only
    rw [if_neg hk]
    rfl
  have hkey : ∀ v ∈ visibleWindows fr (Shim.init.paintInput fr 0),
      v.geo.opaque_ = true → v.w.key ≠ 2 := by
    rcases hfr with rfl | rfl <;> decide +kernel
  have hfills := fun v hv hopaque p => hwhite v.w.key p (hkey v hv hopaque)
  rcases hfr with rfl | rfl
  all_goals
    exact ⟨by decide, by decide, by decide +kernel, by decide +kernel, by decide +kernel, hmedia,
      fun v hv hopaque p _ => hfills v hv hopaque p⟩

/-- The cover of the tiled window is drawn over that of the floating window. -/
theorem lower_cover_over_upper :
    PlainStack exampleMixed (Shim.init.paintInput exampleMixed 0) stackedScene
      ∧ Shim.init.painted exampleRenderer exampleMixed (Shim.init.paintInput exampleMixed 0)
          stackedScene (50, 50) = Colour.black
      ∧ stackedScene.composite exampleRenderer exampleMixed (Shim.init.paintInput exampleMixed 0)
          (50, 50) = Colour.white := by
  refine ⟨plainStack_example (.inl rfl), ?_, ?_⟩
  · decide +kernel
  · decide +kernel

/-- The other way round in the list, the picture is right. -/
theorem stacked_covers_composite :
    PlainStack exampleSorted (Shim.init.paintInput exampleSorted 0) stackedScene
      ∧ ∀ p, Shim.init.painted exampleRenderer exampleSorted (Shim.init.paintInput exampleSorted 0)
          stackedScene p
        = stackedScene.composite exampleRenderer exampleSorted
          (Shim.init.paintInput exampleSorted 0) p := by
  have hplain := plainStack_example (.inr rfl)
  refine ⟨hplain, ((composites_iff _ _ _ _ _ hplain).2 ?_).2 (stackedAt_of_pairwise ?_)⟩
  · decide +kernel
  · decide +kernel

end NoshareCover
