import NoshareCover.Shim.Spec.Entry

/-!
# The draws of one frame

What the loops over windows and layers draw for each surface does not depend on what they drew
before, so the draws of a frame are one list after another (`Shim.paintCovers_ops`), and a hidden
window has at most one cover (`Shim.cover_window_mem`).
-/

namespace NoshareCover

/-- The draw of the window's cover within `clip`. -/
def Visible.coverOp (v : Visible) (c : RegionCut) (rules : RuleValues) (clip : Region ℤ) :
    CoverOp :=
  { subject := .window v.w.key, rules, box := v.geo.box, round := v.geo.round
    roundingPower := v.geo.roundingPower, area := coverArea c v.geo.box clip }

/-- What `coverWindow` draws. -/
def windowOps (fr : CaptureFrame) (visible : List Visible) (v : Visible) : List PaintOp :=
  match v.rules with
  | none => []
  | some rules =>
    if v.gone then [.leftOut (.window v.w.key)]
    else
      (if v.w.x11 then []
        else popupOps fr v.w.key (v.geo.pos - v.w.clientPos) v.w.popups (coverKind fr.cfg rules))
      ++ if (visibleRegion fr.region visible v).isEmpty then [.under v.w.key]
        else [.cover (v.coverOp fr.region rules (visibleRegion fr.region visible v))]

/-- The draw of the layer's cover. -/
def Layer.coverOp (l : Layer) (fr : CaptureFrame) (rules : RuleValues) : CoverOp :=
  { subject := .layer l.key, rules, box := layerBox fr l, round := 0, roundingPower := 2
    area := coverArea fr.region (layerBox fr l) .empty }

/-- What `coverLayer` draws. -/
def layerOps (fr : CaptureFrame) (inp : PaintInput) (l : Layer) : List PaintOp :=
  if !layerCovered fr inp l then []
  else if inp.left && transparentCover fr.cfg (inp.rulesOf l.key l.rules) then
    [.leftOut (.layer l.key)]
  else
    popupOps fr l.key (l.position - l.geometryPos) l.popups
        (coverKind fr.cfg (inp.rulesOf l.key l.rules))
      ++ [.cover (l.coverOp fr (inp.rulesOf l.key l.rules))]

section Loops

variable (fr : CaptureFrame) (inp : PaintInput) (visible : List Visible)

theorem coverWindow_ops (acc : Painted) (v : Visible) :
    (coverWindow fr inp visible acc v).ops = acc.ops ++ windowOps fr visible v := by
  unfold coverWindow windowOps Visible.coverOp Painted.see
  cases v.rules with
  | none => simp
  | some rules =>
    dsimp only
    split_ifs <;> simp

theorem coverLayer_ops (acc : Painted) (l : Layer) :
    (coverLayer fr inp acc l).ops = acc.ops ++ layerOps fr inp l := by
  unfold coverLayer layerOps Layer.coverOp Painted.see
  cases hcov : layerCovered fr inp l with
  | false => simp
  | true =>
    cases hleft : inp.left && transparentCover fr.cfg (inp.rulesOf l.key l.rules) <;>
      simp [hleft]

/-- A loop whose steps each add their own things to a list adds all of them, in order. -/
theorem foldl_adds {α β γ : Type} (f : γ → α → γ) (list : γ → List β) (new : α → List β)
    (h : ∀ acc a, list (f acc a) = list acc ++ new a) :
    ∀ (l : List α) (acc : γ), list (l.foldl f acc) = list acc ++ l.flatMap new
  | [], acc => by simp
  | a :: l, acc => by
    rw [List.foldl_cons, foldl_adds f list new h l, h, List.flatMap_cons, List.append_assoc]

theorem coverWindow_drawn (acc : Painted) (v : Visible) :
    (coverWindow fr inp visible acc v).drawn = acc.drawn
      ++ if v.rules.isSome && !v.gone && !(visibleRegion fr.region visible v).isEmpty then
          [(v, visibleRegion fr.region visible v)]
        else [] := by
  unfold coverWindow Painted.see
  cases v.rules with
  | none => simp
  | some rules =>
    cases hgone : v.gone <;> cases hempty : (visibleRegion fr.region visible v).isEmpty <;>
      simp [hempty]

end Loops

/-- The draws of a frame: windows, what is drawn again over them, layers, closing covers, layers
again, and other plugins' rectangles. -/
theorem Shim.paintCovers_ops (s : Shim) (fr : CaptureFrame) (inp : PaintInput) :
    ∃ redrawn closing layers : List PaintOp,
      (s.paintCovers fr inp).2
        = (visibleWindows fr inp).flatMap (windowOps fr (visibleWindows fr inp)) ++ redrawn
          ++ fr.desktop.layers.flatMap (layerOps fr inp) ++ closing ++ layers
          ++ extraRectOps fr inp
      ∧ (redrawn = [] ∨ redrawn = redrawWindows fr.region inp (visibleWindows fr inp)
          (paintWindows fr inp (s.startFrame fr)).drawn)
      ∧ closing = (paintClosingLoop fr inp.left inp.now []
          (s.remember fr inp (s.paintHidden fr inp).2).closing).2
      ∧ (layers = [] ∨ ∃ area, layers = redrawLayers fr inp area) := by
  -- the windows come first, each with what `coverWindow` adds
  have hwindows : (paintWindows fr inp (s.startFrame fr)).ops
      = (visibleWindows fr inp).flatMap (windowOps fr (visibleWindows fr inp)) := by
    rw [paintWindows, foldl_adds _ _ _ (coverWindow_ops fr inp (visibleWindows fr inp))]
    rfl
  -- then what is drawn again above them, then the layers
  have hhidden : (s.paintHidden fr inp).2.ops
      = (visibleWindows fr inp).flatMap (windowOps fr (visibleWindows fr inp))
        ++ (if (paintWindows fr inp (s.startFrame fr)).drawn.isEmpty then []
          else redrawWindows fr.region inp (visibleWindows fr inp)
            (paintWindows fr inp (s.startFrame fr)).drawn)
        ++ fr.desktop.layers.flatMap (layerOps fr inp) := by
    unfold Shim.paintHidden paintLayers
    dsimp only
    rw [foldl_adds _ _ _ (coverLayer_ops fr inp), hwindows]
  unfold Shim.paintCovers Shim.paintClosing
  dsimp only
  rw [hhidden]
  refine ⟨_, _, _, rfl, ?_, rfl, ?_⟩
  -- nothing is drawn again while no window was covered
  · split_ifs
    · exact .inl rfl
    · exact .inr rfl
  · split_ifs
    · exact .inl rfl
    · exact .inr ⟨_, rfl⟩

/-! ### Covers of windows -/

section Windows

variable {fr : CaptureFrame} {inp : PaintInput}

theorem visibleWindow_spec {w : Window} {f : ℕ → Visible} (h : visibleWindow fr inp w = some f)
    (i : ℕ) : (f i).w = w ∧ windowGeo w fr.mon fr.capturePos = some (f i).geo := by
  obtain ⟨geo, hgeo, rfl⟩ := Option.map_eq_some_iff.1 h
  rw [hgeo]
  dsimp only
  split_ifs <;> exact ⟨rfl, rfl⟩

/-- A visible window is one of the desktop's, at its place in the capture image. -/
theorem mem_visibleWindows {v : Visible} (h : v ∈ visibleWindows fr inp) :
    v.w ∈ fr.desktop.windows ∧ windowGeo v.w fr.mon fr.capturePos = some v.geo := by
  obtain ⟨⟨f, i⟩, hf, rfl⟩ := List.mem_map.1 h
  obtain ⟨w, hw, hf'⟩ := List.mem_filterMap.1 (List.fst_mem_of_mem_zipIdx hf)
  obtain ⟨hw', hgeo⟩ := visibleWindow_spec hf' i
  dsimp only
  rw [hw']
  exact ⟨hw, hgeo⟩

/-- Whether a visible window is covered, and with which rules, and whether it was left out. -/
theorem rules_of_visible {v : Visible} (h : v ∈ visibleWindows fr inp) :
    v.rules = (if v.w.ruled && noScreenShare inp.vars v.w.key then
        some (inp.rulesOf v.w.key v.w.rules) else none)
      ∧ v.gone = (v.w.ruled && noScreenShare inp.vars v.w.key
        && (inp.left && transparentCover fr.cfg (inp.rulesOf v.w.key v.w.rules))) := by
  obtain ⟨⟨f, i⟩, hf, rfl⟩ := List.mem_map.1 h
  obtain ⟨w, -, hw⟩ := List.mem_filterMap.1 (List.fst_mem_of_mem_zipIdx hf)
  obtain ⟨geo, -, rfl⟩ := Option.map_eq_some_iff.1 hw
  dsimp only
  split_ifs with hhidden
  · rw [hhidden, Bool.true_and]
    exact ⟨rfl, rfl⟩
  · rw [Bool.eq_false_of_not_eq_true hhidden]
    exact ⟨rfl, rfl⟩

/-- Every window of the desktop that is on screen is a visible window. -/
theorem exists_visible {w : Window} (hw : w ∈ fr.desktop.windows) {f : ℕ → Visible}
    (h : visibleWindow fr inp w = some f) : ∃ i, f i ∈ visibleWindows fr inp := by
  have hf : f ∈ fr.desktop.windows.filterMap (visibleWindow fr inp) :=
    List.mem_filterMap.2 ⟨w, hw, h⟩
  obtain ⟨i, hi, hget⟩ := List.getElem_of_mem hf
  refine ⟨i, List.mem_map.2 ⟨(f, i), ?_, rfl⟩⟩
  rw [List.mk_mem_zipIdx_iff_getElem?]
  exact List.getElem?_eq_some_iff.2 ⟨hi, hget⟩

/-- A hidden window on screen is a visible window with rules. -/
theorem exists_visible_of_hidden {w : Window} (hw : w ∈ fr.desktop.windows)
    (hgeo : (windowGeo w fr.mon fr.capturePos).isSome = true) (hruled : w.ruled = true)
    (hhidden : noScreenShare inp.vars w.key = true) :
    ∃ v ∈ visibleWindows fr inp, v.w.key = w.key ∧ v.rules = some (inp.rulesOf w.key w.rules)
      ∧ v.gone = (inp.left && transparentCover fr.cfg (inp.rulesOf w.key w.rules)) := by
  obtain ⟨geo, hgeo⟩ := Option.isSome_iff_exists.1 hgeo
  have hvisible : visibleWindow fr inp w = some _ := congrArg (Option.map _) hgeo
  obtain ⟨i, hi⟩ := exists_visible hw hvisible
  refine ⟨_, hi, ?_⟩
  simp [hruled, hhidden]

/-- Visible windows are different windows. -/
theorem visibleWindows_ext {v v' : Visible} (hv : v ∈ visibleWindows fr inp)
    (hv' : v' ∈ visibleWindows fr inp) (hk : v.w.key = v'.w.key) : v = v' := by
  -- the keys of the windows in the picture, in the order of the desktop
  have hkeys : (visibleWindows fr inp).map (fun v => v.w.key)
      = (fr.desktop.windows.filter fun w => (windowGeo w fr.mon fr.capturePos).isSome).map
        Window.key := by
    have hindex : ∀ f ∈ fr.desktop.windows.filterMap (visibleWindow fr inp), ∀ i j,
        (fun v : Visible => some v.w.key) (f i) = (fun v : Visible => some v.w.key) (f j) := by
      intro f hf i j
      obtain ⟨w, -, hw⟩ := List.mem_filterMap.1 hf
      dsimp only
      rw [(visibleWindow_spec hw i).1, (visibleWindow_spec hw j).1]
    rw [← List.filterMap_eq_map, visibleWindows]
    refine (filterMap_zipIdx _ _ _ hindex).trans ?_
    rw [List.filterMap_filterMap, ← List.filterMap_eq_map, ← List.filterMap_eq_filter,
      List.filterMap_filterMap]
    refine List.filterMap_congr fun w _ => ?_
    -- a window without a box is not in the picture
    cases hw : visibleWindow fr inp w with
    | none =>
      have hgeo : windowGeo w fr.mon fr.capturePos = none := Option.map_eq_none_iff.1 hw
      simp [Option.guard, hgeo]
    | some f =>
      obtain ⟨hfw, hgeo⟩ := visibleWindow_spec hw 0
      simp [Option.guard, hgeo, hfw]
  -- no two windows have the same key
  have hnodup : ((visibleWindows fr inp).map fun v => v.w.key).Nodup := by
    rw [hkeys]
    have hwindows := (List.nodup_append.1 fr.desktop.nodup).1
    exact hwindows.sublist (List.filter_sublist.map _)
  exact List.inj_on_of_nodup_map hnodup hv hv' hk

/-- A window's draws are about that window: a note if it was left out, and else its popups and its
cover, or a note that nothing of it shows. -/
theorem mem_windowOps {visible : List Visible} {v : Visible} {op : PaintOp}
    (h : op ∈ windowOps fr visible v) :
    ∃ rules, v.rules = some rules
      ∧ (v.gone = true ∧ op = .leftOut (.window v.w.key)
        ∨ v.gone = false ∧ ((∃ kind box, op = .popup v.w.key kind box) ∨ op = .under v.w.key
          ∨ (visibleRegion fr.region visible v).isEmpty = false
            ∧ op = .cover (v.coverOp fr.region rules (visibleRegion fr.region visible v)))) := by
  unfold windowOps at h
  -- without rules the window is not covered
  cases hrules : v.rules with
  | none =>
    rw [hrules] at h
    cases h
  | some rules =>
    rw [hrules] at h
    dsimp only at h
    refine ⟨rules, rfl, ?_⟩
    -- left out, or covered: with popups unless it is an X11 window, and only where it is seen
    split_ifs at h with hgone hx11 hempty hempty
    all_goals simp only [List.mem_append, List.mem_singleton, List.not_mem_nil, false_or] at h
    · exact .inl ⟨hgone, h⟩
    all_goals refine .inr ⟨Bool.eq_false_of_not_eq_true hgone, ?_⟩
    · exact .inr (.inl h)
    · exact .inr (.inr ⟨Bool.eq_false_of_not_eq_true hempty, h⟩)
    · refine h.elim (fun h => .inl ?_) fun h => .inr (.inl h)
      obtain ⟨box, rfl⟩ := mem_popupOps h
      exact ⟨_, box, rfl⟩
    · refine h.elim (fun h => .inl ?_) fun h => .inr (.inr ?_)
      · obtain ⟨box, rfl⟩ := mem_popupOps h
        exact ⟨_, box, rfl⟩
      · exact ⟨Bool.eq_false_of_not_eq_true hempty, h⟩

/-- A layer's draws are about that layer. -/
theorem mem_layerOps {l : Layer} {op : PaintOp} (h : op ∈ layerOps fr inp l) :
    layerCovered fr inp l = true
      ∧ ((inp.left && transparentCover fr.cfg (inp.rulesOf l.key l.rules)) = true
          ∧ op = .leftOut (.layer l.key)
        ∨ (inp.left && transparentCover fr.cfg (inp.rulesOf l.key l.rules)) = false
          ∧ ((∃ kind box, op = .popup l.key kind box)
            ∨ op = .cover (l.coverOp fr (inp.rulesOf l.key l.rules)))) := by
  -- a layer that is not covered draws nothing
  unfold layerOps at h
  split_ifs at h with hcov hleft
  · cases h
  all_goals refine ⟨by simpa using hcov, ?_⟩
  · exact .inl ⟨hleft, List.mem_singleton.1 h⟩
  · refine .inr ⟨Bool.eq_false_of_not_eq_true hleft, ?_⟩
    rcases List.mem_append.1 h with h | h
    · obtain ⟨box, rfl⟩ := mem_popupOps h
      exact .inl ⟨_, box, rfl⟩
    · exact .inr (List.mem_singleton.1 h)

/-- A closing cover's draws are about the surface that it was. -/
theorem mem_paint {c : Closing} {left : Bool} {now : Instant} {op : PaintOp}
    (h : op ∈ c.paint fr left now) :
    op = .leftOut (.closing c.owner)
      ∨ ∃ cover : CoverOp, op = .cover cover ∧ cover.subject = .closing c.owner
        ∧ ¬ (cover.box.w < 1 ∨ cover.box.h < 1) := by
  unfold Closing.paint at h
  dsimp only at h
  split_ifs at h with hover hsees hleft hsmall hpos
  all_goals simp only [List.not_mem_nil, List.mem_singleton] at h
  · exact .inl h
  · exact .inr ⟨_, h, rfl, hsmall⟩
  · exact .inr ⟨_, h, rfl, hsmall⟩

theorem mem_paintClosingLoop {left : Bool} {now : Instant} {op : PaintOp} :
    ∀ before rest, op ∈ (paintClosingLoop fr left now before rest).2 →
      ∃ c : Closing, op ∈ c.paint fr left now
  | before, [], h => by cases h
  | before, c :: rest, h => by
    rw [paintClosingLoop] at h
    split_ifs at h
    · exact mem_paintClosingLoop _ rest h
    · rcases List.mem_append.1 h with h | h
      · exact ⟨_, h⟩
      · exact mem_paintClosingLoop _ rest h

/-- What a frame draws, by where it comes from. -/
inductive Drawn (fr : CaptureFrame) (inp : PaintInput) (op : PaintOp) : Prop
  | window (v : Visible) (hv : v ∈ visibleWindows fr inp)
      (h : op ∈ windowOps fr (visibleWindows fr inp) v)
  | redrawWindow (v : Visible) (hopen : noScreenShare inp.vars v.w.key = false)
      (clip : Region ℤ) (h : op = .redrawWindow v.w.key v.geo clip)
  | layer (l : Layer) (hl : l ∈ fr.desktop.layers) (h : op ∈ layerOps fr inp l)
  | closing (c : Closing) (now : Instant) (h : op ∈ c.paint fr inp.left now)
  | redrawLayer (l : Layer) (hopen : noScreenShare inp.vars l.key = false) (clip : Region ℤ)
      (h : op = .redrawLayer l.key clip)
  | extraRect (box : Box ℚ) (round : ℤ) (fill : Option RuleValues)
      (h : op = .extraRect box round fill)

theorem drawn_of_mem (s : Shim) {op : PaintOp} (h : op ∈ (s.paintCovers fr inp).2) :
    Drawn fr inp op := by
  obtain ⟨redrawn, closing, layers, hops, hredrawn, hclosing, hlayers⟩ := s.paintCovers_ops fr inp
  rw [hops] at h
  simp only [List.mem_append, or_assoc] at h
  -- one case for each part of the frame, in the order of the drawing
  rcases h with h | h | h | h | h | h
  · obtain ⟨v, hv, h⟩ := List.mem_flatMap.1 h
    exact .window v hv h
  · rcases hredrawn with rfl | rfl
    · cases h
    · obtain ⟨v, -, -, -, hopen, h⟩ := mem_redrawWindows h
      exact .redrawWindow v hopen _ h
  · obtain ⟨l, hl, h⟩ := List.mem_flatMap.1 h
    exact .layer l hl h
  · rw [hclosing] at h
    obtain ⟨c, hc⟩ := mem_paintClosingLoop _ _ h
    exact .closing c inp.now hc
  · rcases hlayers with rfl | ⟨area, rfl⟩
    · cases h
    · obtain ⟨l, -, -, hopen, clip, h⟩ := mem_redrawLayers h
      exact .redrawLayer l hopen clip h
  · obtain ⟨box, round, fill, h⟩ := mem_extraRectOps h
    exact .extraRect box round fill h

/-- The covers of a frame are those of its hidden windows, its hidden layers and its closed
surfaces. -/
theorem cover_mem_cases (s : Shim) {op : CoverOp} (h : .cover op ∈ (s.paintCovers fr inp).2) :
    (∃ v ∈ visibleWindows fr inp, ∃ rules, v.rules = some rules ∧ v.gone = false
        ∧ (visibleRegion fr.region (visibleWindows fr inp) v).isEmpty = false
        ∧ op = v.coverOp fr.region rules (visibleRegion fr.region (visibleWindows fr inp) v))
      ∨ (∃ l ∈ fr.desktop.layers, layerCovered fr inp l = true
        ∧ op = l.coverOp fr (inp.rulesOf l.key l.rules))
      ∨ ∃ owner, op.subject = .closing owner ∧ ¬ (op.box.w < 1 ∨ op.box.h < 1) := by
  -- only windows, layers and closing covers draw covers
  cases drawn_of_mem s h with
  | window v hv h =>
    obtain ⟨rules, hrules, ⟨-, h⟩ | ⟨hgone, ⟨kind, box, h⟩ | h | ⟨hempty, h⟩⟩⟩ := mem_windowOps h
    · cases h
    · cases h
    · cases h
    · exact .inl ⟨v, hv, rules, hrules, hgone, hempty, PaintOp.cover.inj h⟩
  | layer l hl h =>
    obtain ⟨hcov, ⟨-, h⟩ | ⟨-, ⟨kind, box, h⟩ | h⟩⟩ := mem_layerOps h
    · cases h
    · cases h
    · exact .inr (.inl ⟨l, hl, hcov, PaintOp.cover.inj h⟩)
  | closing c now h =>
    rcases mem_paint h with h | ⟨cover, h, hsubject, hbox⟩
    · cases h
    · obtain rfl := PaintOp.cover.inj h
      exact .inr (.inr ⟨c.owner, hsubject, hbox⟩)
  | redrawWindow v hopen clip h => cases h
  | redrawLayer l hopen clip h => cases h
  | extraRect box round fill h => cases h

/-- No cover is less than a pixel wide or high. -/
theorem cover_box (s : Shim) {op : CoverOp} (h : .cover op ∈ (s.paintCovers fr inp).2) :
    ¬ (op.box.w < 1 ∨ op.box.h < 1) := by
  rcases cover_mem_cases s h with ⟨v, hv, rules, -, -, -, rfl⟩ | ⟨l, -, hcov, rfl⟩ | ⟨_, -, hbox⟩
  · exact (windowGeo_spec (mem_visibleWindows hv).2).2.1
  · simp only [layerCovered, Bool.and_eq_true, Bool.not_eq_true', Bool.or_eq_false_iff,
      decide_eq_false_iff_not] at hcov
    rw [not_or]
    exact hcov.2
  · exact hbox

/-- The cover of a hidden window that is in the image: one draw within the region where it shows,
and none when that is empty. -/
theorem cover_window_iff (s : Shim) {v : Visible} (hv : v ∈ visibleWindows fr inp)
    {rules : RuleValues} (hrules : v.rules = some rules) (hgone : v.gone = false) (op : CoverOp) :
    .cover op ∈ (s.paintCovers fr inp).2 ∧ op.subject = .window v.w.key
      ↔ (visibleRegion fr.region (visibleWindows fr inp) v).isEmpty = false
        ∧ op = v.coverOp fr.region rules (visibleRegion fr.region (visibleWindows fr inp) v) := by
  constructor
  · rintro ⟨hmem, hsubject⟩
    -- the cover of another window or of a layer has another subject
    rcases cover_mem_cases s hmem with ⟨v', hv', rules', hrules', -, hempty, rfl⟩ |
      ⟨l, -, -, rfl⟩ | ⟨owner, howner, -⟩
    · obtain rfl := visibleWindows_ext hv' hv (Subject.window.inj hsubject)
      obtain rfl : rules' = rules := Option.some.inj (hrules'.symm.trans hrules)
      exact ⟨hempty, rfl⟩
    · cases hsubject
    · rw [howner] at hsubject
      cases hsubject
  -- the cover is among the calls of its own window
  · rintro ⟨hempty, rfl⟩
    refine ⟨?_, rfl⟩
    obtain ⟨redrawn, closing, layers, hops, -⟩ := s.paintCovers_ops fr inp
    have hdraw : PaintOp.cover
          (v.coverOp fr.region rules (visibleRegion fr.region (visibleWindows fr inp) v))
        ∈ windowOps fr (visibleWindows fr inp) v := by
      simp [windowOps, hrules, hgone, hempty]
    have hwindows := List.mem_flatMap.2 ⟨v, hv, hdraw⟩
    rw [hops]
    simp only [List.mem_append]
    tauto

end Windows

end NoshareCover
