import Mathlib.Data.List.Forall2
import NoshareCover.Shim.Spec.ClosingHold

/-!
# One cover for a fade-out

Closing covers take fade-outs at two places, each time one that no closing cover has.  So no two of
them ever follow the same one, and a cover that follows one keeps it while it exists
(`fades_distinct`).
-/

namespace NoshareCover

open Machine

/-- No fade-out has two covers. -/
def FadesDistinct (closing : List Closing) : Prop := (closing.filterMap Closing.fade).Nodup

/-- The fade-out of the cover is on its monitor and of its kind. -/
def Closing.Matches (d : Desktop) (c : Closing) : Prop :=
  ∀ id ∈ c.fade, ∃ f ∈ d.fadeouts, f.id = id ∧ f.monitor = some c.mon ∧
    (if c.isLayer then isLayerFade f else isWindowFade f) = true

/-- What becomes of a cover in a frame: it keeps its fade-out, or that does not exist any more and
it takes another one or none. -/
structure Closing.Becomes (d : Desktop) (c c' : Closing) : Prop where
  owner : c'.owner = c.owner
  mon : c'.mon = c.mon
  isLayer : c'.isLayer = c.isLayer
  fade : c'.fade = c.fade ∨ (∀ id ∈ c.fade, d.fadeout? id = none) ∧ c'.Matches d

/-- The closing covers before and after an event. -/
def ShimEvent.Evolves (closing closing' : List Closing) : ShimEvent → Prop
  | .frame fr => ∃ tracked, (∀ c ∈ tracked, c.mon = fr.mon.id ∧ c.Matches fr.desktop) ∧
      List.Forall₂ (Closing.Becomes fr.desktop) (closing ++ tracked) closing'
  | .windowClose .. | .layerClose .. =>
    ∃ started : Option Closing, (∀ c ∈ started, c.fade = none) ∧ closing' = closing ++ started.toList
  | .tick .. => closing'.Sublist closing
  | .wait _ => closing' = closing

/-! ### Lists of covers -/

/-- The fade-out is nobody's. -/
def Free (closing : List Closing) (id : FadeId) : Prop := ∀ o ∈ closing, o.fade ≠ some id

theorem Free.notMem {closing : List Closing} {id : FadeId} (h : Free closing id) :
    id ∉ closing.filterMap Closing.fade := by
  intro hmem
  obtain ⟨o, ho, hfade⟩ := List.mem_filterMap.1 hmem
  exact h o ho hfade

theorem FadesDistinct.sublist {closing closing' : List Closing} (h : FadesDistinct closing)
    (hsub : closing'.Sublist closing) : FadesDistinct closing' :=
  List.Nodup.sublist (hsub.filterMap Closing.fade) h

/-- A cover with a fade-out that is nobody's can join. -/
theorem FadesDistinct.insert {before rest : List Closing} {c : Closing}
    (h : FadesDistinct (before ++ rest)) (hfree : ∀ id ∈ c.fade, Free (before ++ rest) id) :
    FadesDistinct (before ++ c :: rest) := by
  unfold FadesDistinct at h ⊢
  rw [List.filterMap_append]
  cases hc : c.fade with
  | none => rwa [List.filterMap_cons_none hc, ← List.filterMap_append]
  | some id =>
    rw [List.filterMap_cons_some hc, List.nodup_middle, ← List.filterMap_append, List.nodup_cons]
    exact ⟨(hfree id hc).notMem, h⟩

theorem FadesDistinct.concat {closing : List Closing} {c : Closing} (h : FadesDistinct closing)
    (hfree : ∀ id ∈ c.fade, Free closing id) : FadesDistinct (closing ++ [c]) := by
  rw [← List.append_nil closing] at h hfree
  exact h.insert hfree

/-- A cover may take a fade-out that is nobody's. -/
theorem FadesDistinct.replace {before rest : List Closing} {c c' : Closing}
    (h : FadesDistinct (before ++ c :: rest))
    (hfade : c'.fade = c.fade ∨ ∀ id ∈ c'.fade, Free (before ++ c :: rest) id) :
    FadesDistinct (before ++ c' :: rest) := by
  rcases hfade with hfade | hfree
  · unfold FadesDistinct at h ⊢
    rw [List.filterMap_append, List.filterMap_cons] at h ⊢
    rw [hfade]
    exact h
  · have hsub : (before ++ rest).Sublist (before ++ c :: rest) :=
      (List.sublist_cons_self c rest).append_left before
    refine (h.sublist hsub).insert fun id hid o ho => ?_
    exact hfree id hid o (hsub.subset ho)

/-! ### A fade-out that is found -/

section Found

variable {d : Desktop} {closing : List Closing} {c : Closing} {mon : MonitorId}

/-- The search finds a fade-out that is nobody's, on the monitor and of the kind. -/
theorem found_free {id : FadeId} (h : id ∈ (findFadeFor d closing c mon).map Fadeout.id) :
    Free closing id := by
  obtain ⟨f, hf, rfl⟩ := Option.map_eq_some_iff.1 h
  obtain ⟨-, hfits⟩ := fits_of_findFadeFor hf
  unfold fadeFits at hfits
  simp only [Bool.and_eq_true, Bool.not_eq_true', List.any_eq_false, decide_eq_true_eq] at hfits
  exact hfits.2

theorem found_matches {c' : Closing} (hmon : c'.mon = mon) (hlayer : c'.isLayer = c.isLayer)
    (hfade : c'.fade = (findFadeFor d closing c mon).map Fadeout.id) : c'.Matches d := by
  intro id hid
  rw [hfade] at hid
  obtain ⟨f, hf, rfl⟩ := Option.map_eq_some_iff.1 hid
  obtain ⟨hmem, hfits⟩ := fits_of_findFadeFor hf
  unfold fadeFits at hfits
  simp only [Bool.and_eq_true, decide_eq_true_eq] at hfits
  refine ⟨f, hmem, rfl, ?_, ?_⟩
  · rw [hmon]
    exact hfits.1.2
  · rw [hlayer]
    exact hfits.1.1.2

end Found

/-! ### One frame -/

section Frame

variable {d : Desktop} {mon : MonitorId} {now : Instant}

/-- A cover only looks for another fade-out when its own does not exist. -/
theorem follow_search (c : Closing) (cfg : ShimConfig) (closing : List Closing) :
    (c.follow cfg d closing mon now).fade = c.fade ∨ c.fade.bind d.fadeout? = none ∧
      (c.follow cfg d closing mon now).fade = (findFadeFor d closing c mon).map Fadeout.id := by
  cases hbound : c.fade.bind d.fadeout? with
  | none => exact (follow_fade c cfg d closing mon now).imp_right fun hfound => ⟨rfl, hfound⟩
  | some f =>
    left
    unfold Closing.follow
    dsimp only
    rw [hbound]
    simp only [Option.isNone_some, Bool.false_and, Bool.false_eq_true, if_false]
    split_ifs <;> rfl

theorem follow_becomes (cfg : ShimConfig) (closing : List Closing) {c : Closing}
    (hmon : c.mon = mon) : c.Becomes d (c.follow cfg d closing mon now) := by
  obtain ⟨howner, hmon', hlayer, -⟩ := follow_frame c cfg d closing mon now
  refine ⟨howner, hmon', hlayer, ?_⟩
  rcases follow_search c cfg closing with hsame | ⟨hgone, hfound⟩
  · exact .inl hsame
  refine .inr ⟨fun id hid => ?_, ?_⟩
  · rw [Option.mem_def.1 hid, Option.bind_some] at hgone
    exact hgone
  · exact found_matches (hmon'.trans hmon) hlayer hfound

theorem Closing.Becomes.refl (c : Closing) : c.Becomes d c := ⟨rfl, rfl, rfl, .inl rfl⟩

/-- **The loop of `paintClosing`**: each cover becomes what it may, and no two take the same
fade-out. -/
theorem paintClosingLoop_becomes (fr : CaptureFrame) (left : Bool) (now : Instant) :
    ∀ before rest : List Closing, ∃ rest',
      (paintClosingLoop fr left now before rest).1 = before ++ rest' ∧
      List.Forall₂ (Closing.Becomes fr.desktop) rest rest' ∧
      (FadesDistinct (before ++ rest) → FadesDistinct (before ++ rest'))
  | before, [] => ⟨[], (List.append_nil _).symm, .nil, id⟩
  | before, c :: rest => by
    -- the cover `c'` takes the place of `c`, and the loop goes on behind it
    have hloop : ∀ c' : Closing, c.Becomes fr.desktop c' →
        (FadesDistinct (before ++ c :: rest) → FadesDistinct (before ++ c' :: rest)) →
        ∃ rest', (paintClosingLoop fr left now (before ++ [c']) rest).1 = before ++ rest' ∧
          List.Forall₂ (Closing.Becomes fr.desktop) (c :: rest) rest' ∧
          (FadesDistinct (before ++ c :: rest) → FadesDistinct (before ++ rest')) := by
      intro c' hbecomes hdistinct
      obtain ⟨rest', heq, hrest, hkeeps⟩ :=
        paintClosingLoop_becomes fr left now (before ++ [c']) rest
      rw [List.append_assoc, List.append_assoc] at hkeeps
      refine ⟨c' :: rest', ?_, .cons hbecomes hrest, fun h => hkeeps (hdistinct h)⟩
      rw [heq, List.append_assoc]
      rfl
    rw [paintClosingLoop]
    by_cases hmon : c.mon = fr.mon.id
    · rw [if_neg (not_not.2 hmon)]
      -- what it finds is free in the whole list, its own old place included
      refine hloop _ (follow_becomes _ _ hmon) fun h => h.replace ?_
      refine (follow_search c fr.cfg (before ++ c :: rest)).imp_right fun hsearch id hid => ?_
      rw [hsearch.2] at hid
      exact found_free hid
    -- a cover of another monitor waits for a frame of its own
    · rw [if_pos hmon]
      exact hloop c (.refl c) id

/-- **`trackClosed`** adds covers that look for a fade-out, or have found one that is nobody's. -/
theorem trackOne_adds (seen : List Key) (s : Shim) (e : Sigma fun _ : Key => LastCover) :
    ∃ o : Option Closing, (s.trackOne d mon seen now e).closing = s.closing ++ o.toList ∧
      ∀ c ∈ o, c.mon = mon ∧ c.Matches d ∧ ∀ id ∈ c.fade, Free s.closing id := by
  unfold Shim.trackOne
  split_ifs with hstays
  -- an entry that stays adds nothing; of the others, those that were closed get a cover
  · exact ⟨none, (List.append_nil _).symm, fun c hc => absurd hc (Option.some_ne_none c).symm⟩
  · refine ⟨_, rfl, fun c hc => ?_⟩
    obtain ⟨-, -, rfl | ⟨-, f, hf, rfl⟩⟩ := closed_cases hc
    · exact ⟨rfl, fun id hid => absurd hid (by simp [LastCover.toClosing]),
        fun id hid => absurd hid (by simp [LastCover.toClosing])⟩
    · have hfade : (some f.id : Option FadeId)
          = (findFadeFor d s.closing (e.2.toClosing e.1 mon now) mon).map Fadeout.id := by
        rw [hf]
        rfl
      have hfree : ∀ id ∈ (findFadeFor d s.closing (e.2.toClosing e.1 mon now) mon).map Fadeout.id,
          Free s.closing id := fun id hid => found_free hid
      rw [← hfade] at hfree
      exact ⟨rfl, found_matches rfl rfl hfade, hfree⟩

theorem foldl_trackOne_adds (seen : List Key) :
    ∀ (es : List (Sigma fun _ : Key => LastCover)) (s : Shim), ∃ tracked,
      (es.foldl (Shim.trackOne d mon seen now) s).closing = s.closing ++ tracked ∧
      (∀ c ∈ tracked, c.mon = mon ∧ c.Matches d) ∧
      (FadesDistinct s.closing → FadesDistinct (s.closing ++ tracked))
  | [], s => ⟨[], (List.append_nil _).symm, List.forall_mem_nil _, by rw [List.append_nil]; exact id⟩
  | e :: es, s => by
    -- each entry adds one cover at most
    obtain ⟨o, ho, hadds⟩ := @trackOne_adds d mon now seen s e
    obtain ⟨tracked, htracked, hmatches, hdistinct⟩ :=
      foldl_trackOne_adds seen es (s.trackOne d mon seen now e)
    rw [ho, List.append_assoc] at htracked hdistinct
    refine ⟨o.toList ++ tracked, htracked, ?_, fun h => hdistinct ?_⟩
    · intro c hc
      rcases List.mem_append.1 hc with hc | hc
      · obtain ⟨hmon, hmatch, -⟩ := hadds c (Option.mem_toList.1 hc)
        exact ⟨hmon, hmatch⟩
      · exact hmatches c hc
    -- the one added has a fade-out of its own
    · cases o with
      | none => rwa [Option.toList_none, List.append_nil]
      | some c => exact h.concat (hadds c rfl).2.2

end Frame

/-! ### Runs -/

/-- A new cover has no fade-out yet. -/
theorem FadesDistinct.start {closing : List Closing} (h : FadesDistinct closing)
    {started : Option Closing} (hnone : ∀ c ∈ started, c.fade = none) :
    FadesDistinct (closing ++ started.toList) := by
  cases started with
  | none => rwa [Option.toList_none, List.append_nil]
  | some c =>
    refine h.concat fun id hid => ?_
    rw [hnone c rfl] at hid
    contradiction

/-- The close of a surface starts one cover at most. -/
theorem closing_close (s : World) {e : ShimEvent} (he : e.isClose = true) :
    ∃ started : Option Closing, (∀ c ∈ started, c.fade = none) ∧
      (s.step e).1.shim.closing = s.shim.closing ++ started.toList := by
  have hnone : ∃ started : Option Closing, (∀ c ∈ started, c.fade = none) ∧
      s.shim.closing = s.shim.closing ++ started.toList :=
    ⟨none, fun c hc => absurd hc (Option.some_ne_none c).symm, (List.append_nil _).symm⟩
  rw [World.step_close s he]
  cases hclose : e.closing? s.now with
  | none => exact hnone
  | some p =>
    rcases startClosing_spec s.shim p.1 p.2 with ⟨-, hclosing, -⟩ | ⟨-, hsame⟩
    · refine ⟨some p.2, fun c hc => ?_, hclosing⟩
      rw [← Option.some.inj hc]
      exact (ShimEvent.closing?_spec hclose).1
    · rw [Option.elim_some, hsame]
      exact hnone

theorem pumpTick_sublist (s : Shim) (mgr : Screenshare) (animating : Bool) (now : Instant) :
    (s.pumpTick mgr animating now).closing.Sublist s.closing := by
  unfold Shim.pumpTick
  split_ifs
  · exact .refl _
  · exact List.filter_sublist
  · exact List.nil_sublist _

/-- **One frame**: first covers are added for what is gone, then all of them look for fade-outs. -/
theorem World.frame_evolves (s : World) (fr : CaptureFrame) :
    ShimEvent.Evolves s.shim.closing (s.step (.frame fr)).1.shim.closing (.frame fr) ∧
      (FadesDistinct s.shim.closing → FadesDistinct (s.step (.frame fr)).1.shim.closing) := by
  obtain ⟨hclosing, -⟩ := s.closing_frame fr
  -- first the covers of surfaces that are gone, then the loop over all of them
  have htracked : ∃ tracked, (s.shim.remember fr (s.shim.paintInput fr s.now)
        (s.shim.paintHidden fr (s.shim.paintInput fr s.now)).2).closing = s.shim.closing ++ tracked ∧
      (∀ c ∈ tracked, c.mon = fr.mon.id ∧ c.Matches fr.desktop) ∧
      (FadesDistinct s.shim.closing → FadesDistinct (s.shim.closing ++ tracked)) :=
    foldl_trackOne_adds _ _ { s.shim with
      lastCovers := (s.shim.paintHidden fr (s.shim.paintInput fr s.now)).2.lastCovers
      animBoxes := (s.shim.paintHidden fr (s.shim.paintInput fr s.now)).2.animBoxes }
  obtain ⟨tracked, heq, hmatches, hjoin⟩ := htracked
  obtain ⟨closing', hloop, hbecomes, hdistinct⟩ := paintClosingLoop_becomes fr
    (s.shim.paintInput fr s.now).left s.now [] (s.shim.closing ++ tracked)
  rw [heq, hloop, List.nil_append] at hclosing
  rw [List.nil_append, List.nil_append] at hdistinct
  rw [hclosing]
  exact ⟨⟨tracked, hmatches, hbecomes⟩, fun h => hdistinct (hjoin h)⟩

/-- **One close**: at most one cover is added. -/
theorem World.close_evolves (s : World) {e : ShimEvent} (he : e.isClose = true) :
    e.Evolves s.shim.closing (s.step e).1.shim.closing ∧
      (FadesDistinct s.shim.closing → FadesDistinct (s.step e).1.shim.closing) := by
  obtain ⟨started, hstarted, hadds⟩ := closing_close s he
  refine ⟨?_, fun h => hadds ▸ h.start hstarted⟩
  cases e with
  | windowClose | layerClose => exact ⟨started, hstarted, hadds⟩
  | _ => cases he

/-- **One event**, in any state. -/
theorem World.step_evolves (s : World) (e : ShimEvent) :
    e.Evolves s.shim.closing (s.step e).1.shim.closing ∧
      (FadesDistinct s.shim.closing → FadesDistinct (s.step e).1.shim.closing) := by
  cases e with
  | wait n => exact ⟨rfl, id⟩
  | tick mgr animating =>
    have hsub := pumpTick_sublist s.shim mgr animating s.now
    exact ⟨hsub, fun h => h.sublist hsub⟩
  | frame fr => exact s.frame_evolves fr
  | _ => exact s.close_evolves rfl

/-- **No two closing covers follow the same fade-out**: so it is after any events in any order, and
in each further event a cover takes only a fade-out of its monitor and kind, and another one than
before only if that does not exist any more. -/
theorem fades_distinct (es : List ShimEvent) :
    FadesDistinct (run World.step World.init es).shim.closing ∧
      ∀ e : ShimEvent, e.Evolves (run World.step World.init es).shim.closing
        ((run World.step World.init es).step e).1.shim.closing :=
  ⟨Machine.invariant (I := fun s : World => FadesDistinct s.shim.closing)
    (fun s e h => (s.step_evolves e).2 h) (show FadesDistinct [] from List.nodup_nil) es,
    fun e => (World.step_evolves _ e).1⟩

end NoshareCover
