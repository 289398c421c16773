import NoshareCover.Shim.Spec.Entry

/-!
# Closing covers in one frame

A closed surface's closing cover looks for the surface's fade-out and then follows it.
`Shim.searches` lists the searches of a frame, `closing_foldl_trackOne` says which entries turn into
closing covers, and `paintClosingLoop_spec` that a closing cover which can follow the fade-out does,
and is drawn over the fade-out's current box.
-/

namespace NoshareCover

/-- A surface that closes: its address, monitor and kind, the rules it has in the run, and the
fade-out that Hyprland makes for it. -/
structure ClosedSurface where
  key : Key
  mon : MonitorId
  isLayer : Bool
  rules : Set RuleValues
  fade : FadeId

/-- The fade-out that was made for the surface of the closing cover. -/
def ownFade (d : Desktop) (closing : List Closing) (c : Closing) (mon : MonitorId) :
    Option Fadeout :=
  d.fadeouts.find? fun f => fadeFits closing c mon f && f.source = c.owner

/-! ### The searches of a frame -/

/-- A frame looks for the cover's fade-out. -/
def Closing.searches (c : Closing) (d : Desktop) (now : Instant) : Bool :=
  c.holdUntil.isNone && (c.fade.bind d.fadeout?).isNone && now < c.bindUntil

/-- An entry of a surface that closed a while ago: a fade-out is looked for at once. -/
def LastCover.searches (last : LastCover) (d : Desktop) (mon : MonitorId) (seen : List Key)
    (now : Instant) (k : Key) : Bool :=
  !last.stays d mon seen k && (last.mon ∈ d.monitors && last.gone d k)
    && !decide (now < last.at_ + staleCover)

/-- The searches of `trackClosed`, each with the closing covers at that moment. -/
def trackSearches (d : Desktop) (mon : MonitorId) (seen : List Key) (now : Instant) :
    List (Sigma fun _ : Key => LastCover) → Shim → List (List Closing × Closing)
  | [], _ => []
  | e :: es, s =>
    (if e.2.searches d mon seen now e.1 then [(s.closing, e.2.toClosing e.1 mon now)] else [])
      ++ trackSearches d mon seen now es (s.trackOne d mon seen now e)

/-- The searches of `paintClosing`. -/
def loopSearches (fr : CaptureFrame) (now : Instant) :
    List Closing → List Closing → List (List Closing × Closing)
  | _, [] => []
  | before, c :: rest =>
    if c.mon ≠ fr.mon.id then loopSearches fr now (before ++ [c]) rest
    else
      (if c.searches fr.desktop now then [(before ++ c :: rest, c)] else [])
        ++ loopSearches fr now
          (before ++ [c.follow fr.cfg fr.desktop (before ++ c :: rest) fr.mon.id now]) rest

/-- All searches of a frame. -/
def Shim.searches (s : Shim) (fr : CaptureFrame) (inp : PaintInput) :
    List (List Closing × Closing) :=
  let painted := (s.paintHidden fr inp).2
  trackSearches fr.desktop fr.mon.id (painted.seen ++ inp.revealed) inp.now
      (inOrder fr.order painted.lastCovers.entries)
      { s with lastCovers := painted.lastCovers, animBoxes := painted.animBoxes }
    ++ loopSearches fr inp.now [] (s.remember fr inp painted).closing

/-- The search finds a fade-out that fits. -/
theorem fits_of_findFadeFor {d : Desktop} {closing : List Closing} {c : Closing}
    {mon : MonitorId} {f : Fadeout} (h : findFadeFor d closing c mon = some f) :
    f ∈ d.fadeouts ∧ fadeFits closing c mon f = true := by
  -- by induction on the fade-outs, for any best one so far
  have hfold : ∀ (l : List Fadeout) (best : Option Fadeout × ℚ),
      (l.foldl (nearerFade closing c mon) best).1 = some f →
        best.1 = some f ∨ f ∈ l ∧ fadeFits closing c mon f = true := by
    intro l
    induction l with
    | nil => exact fun best h => .inl h
    | cons g l ih =>
      intro best h
      -- the best of the rest, or the one just looked at
      rcases ih _ h with h | ⟨hmem, hfits⟩
      · unfold nearerFade at h
        split_ifs at h with hnear
        · rw [Option.some.injEq] at h
          subst h
          rw [Bool.and_eq_true] at hnear
          exact .inr ⟨List.mem_cons_self .., hnear.1⟩
        -- not nearer: the best one stays
        · exact .inl h
      · exact .inr ⟨List.mem_cons_of_mem _ hmem, hfits⟩
  unfold findFadeFor at h
  dsimp only at h
  split_ifs at h
  exact (hfold _ _ h).resolve_left (by simp)

namespace ClosedSurface

variable (x : ClosedSurface)

/-- A closing cover of the surface is on its monitor, of its kind, and has its rules. -/
def Own (c : Closing) : Prop :=
  c.owner = x.key → c.mon = x.mon ∧ c.isLayer = x.isLayer ∧ c.rules ∈ x.rules

/-- Only a cover of the surface follows its fade-out, and the cover's hold has not started. -/
def Bound (c : Closing) : Prop :=
  c.fade = some x.fade → c.owner = x.key ∧ c.holdUntil = none

/-- The cover follows the surface's fade-out, or is still looking for one. -/
def Live (now : Instant) (c : Closing) : Prop :=
  c.owner = x.key ∧ c.holdUntil = none
    ∧ (c.fade = some x.fade ∨ c.fade = none ∧ now < c.bindUntil)

/-- A search picks the surface's own fade-out: for a cover of the surface it finds the one that was
made for it, if that fits, and for other covers it does not take it. -/
structure Picks (d : Desktop) (mon : MonitorId) (closing : List Closing) (c : Closing) : Prop where
  own : c.owner = x.key → findFadeFor d closing c mon = ownFade d closing c mon
  other : c.owner ≠ x.key → ∀ f, findFadeFor d closing c mon = some f → f.id ≠ x.fade

/-- The surface's fade-out `f` is running, and it is the only one made for the surface. -/
structure Running (d : Desktop) (f : Fadeout) : Prop where
  mem : f ∈ d.fadeouts
  id : f.id = x.fade
  source : f.source = x.key
  monitor : f.monitor = some x.mon
  plane : (if x.isLayer then isLayerFade f else isWindowFade f) = true
  running : f.done = false
  only_id : ∀ f' ∈ d.fadeouts, f'.id = f.id → f' = f
  only_source : ∀ f' ∈ d.fadeouts, f'.source = x.key → f' = f

variable {x} {d : Desktop} {f : Fadeout}

theorem Running.fadeout?_eq (h : x.Running d f) : d.fadeout? x.fade = some f := by
  have hsome : (d.fadeouts.find? fun f => f.id = x.fade).isSome = true := by
    rw [List.find?_isSome]
    exact ⟨f, h.mem, by simpa using h.id⟩
  obtain ⟨f', hf'⟩ := Option.isSome_iff_exists.1 hsome
  have hid : f'.id = x.fade := by simpa using List.find?_some hf'
  rw [Desktop.fadeout?, hf', h.only_id f' (List.mem_of_find?_eq_some hf') (hid.trans h.id.symm)]

/-- The search of a cover that comes up with the fade-out is one for the surface. -/
theorem Running.eq_of_picks (h : x.Running d f) {mon : MonitorId} {closing : List Closing}
    {c : Closing} (hpick : x.Picks d mon closing c) {f' : Fadeout}
    (hf' : findFadeFor d closing c mon = some f') (hid : f'.id = x.fade) :
    f' = f ∧ c.owner = x.key := by
  refine ⟨h.only_id f' (fits_of_findFadeFor hf').1 (hid.trans h.id.symm), ?_⟩
  by_contra howner
  exact hpick.other howner f' hf' hid

/-- The surface's own cover picks it, unless another cover has it. -/
theorem Running.ownFade_eq (h : x.Running d f) {closing : List Closing} {c : Closing}
    (howner : c.owner = x.key) (hlayer : c.isLayer = x.isLayer)
    (hfree : ∀ o ∈ closing, o.fade ≠ some x.fade) : ownFade d closing c x.mon = some f := by
  -- the fade-out itself fits, so the search by source finds one
  have hfits : (fadeFits closing c x.mon f && f.source = c.owner) = true := by
    have htaken : (closing.any fun o => decide (o.fade = some f.id)) = false := by
      rw [List.any_eq_false, h.id]
      intro o ho
      simpa using hfree o ho
    simp [fadeFits, h.running, h.monitor, hlayer, h.plane, htaken, h.source, howner]
  have hsome : (ownFade d closing c x.mon).isSome = true := by
    rw [ownFade, List.find?_isSome]
    exact ⟨f, h.mem, hfits⟩
  obtain ⟨f', hf'⟩ := Option.isSome_iff_exists.1 hsome
  -- whatever it finds has the source, and only one fade-out has it
  have hsource : f'.source = c.owner := by
    have := List.find?_some hf'
    simp only [Bool.and_eq_true, decide_eq_true_eq] at this
    exact this.2
  rw [hf', h.only_source f' (List.mem_of_find?_eq_some hf') (hsource.trans howner)]

/-- The fade-out of the surface has not been made yet. -/
def Before (x : ClosedSurface) (d : Desktop) : Prop := ∀ f ∈ d.fadeouts, f.id ≠ x.fade

/-- Without a fade-out of the surface its cover finds none. -/
theorem Picks.eq_none {mon : MonitorId} {closing : List Closing} {c : Closing}
    (h : x.Picks d mon closing c) (howner : c.owner = x.key)
    (hnone : ∀ f ∈ d.fadeouts, f.source ≠ x.key) : findFadeFor d closing c mon = none := by
  rw [h.own howner, ownFade, List.find?_eq_none]
  intro f hf hfits
  rw [Bool.and_eq_true, decide_eq_true_eq] at hfits
  exact hnone f hf (hfits.2.trans howner)

end ClosedSurface

/-! ### One closing cover in one frame -/

section Follow

variable {x : ClosedSurface} {fr : CaptureFrame} {f : Fadeout}

/-- Following a fade-out does not change what the cover stands for. -/
theorem follow_frame (c : Closing) (cfg : ShimConfig) (d : Desktop) (closing : List Closing)
    (mon : MonitorId) (now : Instant) :
    (c.follow cfg d closing mon now).owner = c.owner
      ∧ (c.follow cfg d closing mon now).mon = c.mon
      ∧ (c.follow cfg d closing mon now).isLayer = c.isLayer
      ∧ (c.follow cfg d closing mon now).rules = c.rules := by
  unfold Closing.follow
  dsimp only
  split_ifs <;> (try split) <;> (try split_ifs) <;> exact ⟨rfl, rfl, rfl, rfl⟩

/-- The fade-out that the cover follows is the old one, or one that it has found now. -/
theorem follow_fade (c : Closing) (cfg : ShimConfig) (d : Desktop) (closing : List Closing)
    (mon : MonitorId) (now : Instant) :
    (c.follow cfg d closing mon now).fade = c.fade
      ∨ (c.follow cfg d closing mon now).fade
        = (findFadeFor d closing c mon).map Fadeout.id := by
  unfold Closing.follow
  dsimp only
  split_ifs <;> (try split) <;> (try split_ifs) <;> first | exact .inl rfl | exact .inr rfl

variable {c : Closing} {closing : List Closing} {now : Instant}

theorem own_follow (h : x.Own c) :
    x.Own (c.follow fr.cfg fr.desktop closing fr.mon.id now) := by
  obtain ⟨h1, h2, h3, h4⟩ := follow_frame c fr.cfg fr.desktop closing fr.mon.id now
  unfold ClosedSurface.Own
  rw [h1, h2, h3, h4]
  exact h

/-- A cover that follows the fade-out after this frame has its box, and its hold has not
started. -/
theorem follow_bound (hrun : x.Running fr.desktop f) (hbound : x.Bound c)
    (hpick : c.searches fr.desktop now = true → x.Picks fr.desktop fr.mon.id closing c)
    (hfade : (c.follow fr.cfg fr.desktop closing fr.mon.id now).fade = some x.fade) :
    c.owner = x.key
      ∧ (c.follow fr.cfg fr.desktop closing fr.mon.id now).holdUntil = none
      ∧ (c.follow fr.cfg fr.desktop closing fr.mon.id now).box = f.box := by
  unfold Closing.follow at hfade ⊢
  -- a cover that holds is bound to no fade-out
  cases hhold : c.holdUntil with
  | some t =>
    simp only [hhold, Option.isSome_some, if_true] at hfade
    have := (hbound hfade).2
    rw [hhold] at this
    cases this
  | none =>
    simp only [hhold, Option.isSome_none, Bool.false_eq_true, if_false] at hfade ⊢
    cases hlook : c.fade.bind fr.desktop.fadeout? with
    -- bound already: the fade-out is the one followed
    | some g =>
      simp only [hlook, Option.isNone_some, Bool.false_and, Bool.false_eq_true, if_false]
        at hfade ⊢
      have hc : c.fade = some x.fade := by split_ifs at hfade <;> exact hfade
      rw [hc, Option.bind_some, hrun.fadeout?_eq, Option.some.injEq] at hlook
      subst hlook
      simp [hrun.running, (hbound hc).1, hhold]
    | none =>
      -- not bound to the fade-out, or it would have been found
      have hc : c.fade ≠ some x.fade := by
        intro hc
        rw [hc, Option.bind_some, hrun.fadeout?_eq] at hlook
        cases hlook
      simp only [hlook, Option.isNone_none, Bool.true_and, decide_eq_true_eq] at hfade ⊢
      by_cases hnow : now < c.bindUntil
      · simp only [hnow, if_true] at hfade ⊢
        cases hfind : findFadeFor fr.desktop closing c fr.mon.id with
        | none =>
          simp only [hfind] at hfade
          split_ifs at hfade <;> cases hfade
        -- the search picked it, and the pick is the surface's own
        | some g =>
          have hid : g.id = x.fade := by
            simp only [hfind] at hfade
            split_ifs at hfade <;> simpa using hfade
          have hsearch : c.searches fr.desktop now = true := by
            simp [Closing.searches, hhold, hlook, hnow]
          obtain ⟨rfl, howner⟩ := hrun.eq_of_picks (hpick hsearch) hfind hid
          simp [hrun.running, howner]
      -- past the time to bind, no fade-out is taken
      · simp only [hnow, if_false] at hfade
        split_ifs at hfade <;> exact absurd hfade hc

/-- A cover that follows the fade-out goes on following it. -/
theorem follow_keeps (hrun : x.Running fr.desktop f) (hbound : x.Bound c)
    (hc : c.fade = some x.fade) :
    (c.follow fr.cfg fr.desktop closing fr.mon.id now).fade = some x.fade := by
  simp [Closing.follow, (hbound hc).2, hrun.fadeout?_eq, hrun.running, hc]

/-- A live cover follows the fade-out after this frame, unless another one does already. -/
theorem follow_live (hrun : x.Running fr.desktop f) (hm : fr.mon.id = x.mon) (hown : x.Own c)
    (hbound : x.Bound c) (hlive : x.Live now c)
    (hpick : c.searches fr.desktop now = true → x.Picks fr.desktop fr.mon.id closing c)
    (hfree : ∀ o ∈ closing, o.fade ≠ some x.fade) :
    (c.follow fr.cfg fr.desktop closing fr.mon.id now).fade = some x.fade := by
  obtain ⟨howner, hhold, hc | ⟨hnone, hnow⟩⟩ := hlive
  · exact follow_keeps hrun hbound hc
  · have hsearch : c.searches fr.desktop now = true := by
      simp [Closing.searches, hhold, hnone, hnow]
    have hfind : findFadeFor fr.desktop closing c fr.mon.id = some f := by
      rw [(hpick hsearch).own howner, hm]
      exact hrun.ownFade_eq howner (hown howner).2.1 hfree
    simp [Closing.follow, hhold, hnone, hnow, hfind, hrun.running, hrun.id]

/-- Before its fade-out is made, a cover of the surface goes on looking for it. -/
theorem follow_absent (howner : c.owner = x.key) (hhold : c.holdUntil = none) (hnone : c.fade = none)
    (hnow : now < c.bindUntil) (hsource : ∀ f ∈ fr.desktop.fadeouts, f.source ≠ x.key)
    (hpick : c.searches fr.desktop now = true → x.Picks fr.desktop fr.mon.id closing c) :
    c.follow fr.cfg fr.desktop closing fr.mon.id now = c := by
  have hsearch : c.searches fr.desktop now = true := by
    simp [Closing.searches, hhold, hnone, hnow]
  have hfind := (hpick hsearch).eq_none howner hsource
  cases c
  simp_all [Closing.follow]

end Follow

/-! ### The loop over the closing covers -/

section Loop

variable {x : ClosedSurface} {fr : CaptureFrame} {f : Fadeout} (left : Bool) (now : Instant)

/-- A closing cover over the fade-out's current box, after a frame that drew `ops`. -/
structure PaintedCover (x : ClosedSurface) (fr : CaptureFrame) (f : Fadeout) (left : Bool)
    (now : Instant) (c : Closing) (ops : List PaintOp) : Prop where
  owner : c.owner = x.key
  fade : c.fade = some x.fade
  holdUntil : c.holdUntil = none
  box : c.box = f.box
  ops : ∀ op ∈ c.paint fr left now, op ∈ ops

/-- What is known of the covers before this one, and of this one. -/
theorem known_concat {before : List Closing} {c : Closing}
    (hbefore : ∀ o ∈ before, x.Own o ∧ x.Bound o) (hown : x.Own c) (hbound : x.Bound c) :
    ∀ o ∈ before ++ [c], x.Own o ∧ x.Bound o := by
  rw [List.forall_mem_append, List.forall_mem_singleton]
  exact ⟨hbefore, hown, hbound⟩

/-- A cover that does not follow the fade-out is not the one that does. -/
theorem exists_fade_of_concat {before : List Closing} {c : Closing} (hc : c.fade ≠ some x.fade)
    (h : ∃ o ∈ before ++ [c], o.fade = some x.fade) : ∃ o ∈ before, o.fade = some x.fade := by
  obtain ⟨o, ho, hfade⟩ := h
  rcases List.mem_append.1 ho with ho | ho
  · exact ⟨o, ho, hfade⟩
  · obtain rfl := List.mem_singleton.1 ho
    exact absurd hfade hc

/-- Where this cover does not follow the fade-out after this frame, the live cover is a later one,
or an earlier one follows the fade-out already. -/
theorem live_elsewhere (hrun : x.Running fr.desktop f) (hm : fr.mon.id = x.mon)
    {before rest : List Closing} {c : Closing} {now : Instant}
    (hknown : ∀ o ∈ c :: rest, x.Own o ∧ x.Bound o)
    (hpick : c.searches fr.desktop now = true →
      x.Picks fr.desktop fr.mon.id (before ++ c :: rest) c)
    (hfade : (c.follow fr.cfg fr.desktop (before ++ c :: rest) fr.mon.id now).fade ≠ some x.fade)
    (hlive : ∃ o ∈ c :: rest, x.Live now o) :
    (∃ o ∈ before, o.fade = some x.fade) ∨ ∃ o ∈ rest, x.Live now o := by
  obtain ⟨hown, hbound⟩ := hknown c (List.mem_cons_self ..)
  obtain ⟨o, ho, holive⟩ := hlive
  -- the living cover is `c`, which did not take the fade-out, or a later one
  rcases List.mem_cons.1 ho with rfl | ho
  -- the fade-out was taken by another cover
  · have htaken : ∃ o' ∈ before ++ o :: rest, o'.fade = some x.fade := by
      by_contra hfree
      refine hfade (follow_live hrun hm hown hbound holive hpick fun o' ho' h => ?_)
      exact hfree ⟨o', ho', h⟩
    obtain ⟨o', ho', hfade'⟩ := htaken
    -- by one before, which was asked for, or by one that is still to come
    rcases List.mem_append.1 ho' with ho' | ho'
    · exact .inl ⟨o', ho', hfade'⟩
    rcases List.mem_cons.1 ho' with rfl | ho'
    · exact absurd (follow_keeps hrun hbound hfade') hfade
    · obtain ⟨h1, h2⟩ := (hknown o' (List.mem_cons_of_mem _ ho')).2 hfade'
      exact .inr ⟨o', ho', h1, h2, .inl hfade'⟩
  · exact .inr ⟨o, ho, holive⟩

/-- The loop keeps what is known of every closing cover, and after it a live cover, or another one
of the surface, follows the fade-out and was painted. -/
theorem paintClosingLoop_spec (hrun : x.Running fr.desktop f) (hm : fr.mon.id = x.mon) :
    ∀ before rest : List Closing, (∀ c ∈ before, x.Own c ∧ x.Bound c) →
      (∀ c ∈ rest, x.Own c ∧ x.Bound c) →
      (∀ q ∈ loopSearches fr now before rest, x.Picks fr.desktop fr.mon.id q.1 q.2) →
      (∀ c ∈ (paintClosingLoop fr left now before rest).1, x.Own c ∧ x.Bound c)
        ∧ (∀ c ∈ before, c ∈ (paintClosingLoop fr left now before rest).1)
        ∧ ((∃ c ∈ rest, x.Live now c) → (∃ c ∈ before, c.fade = some x.fade)
          ∨ ∃ c ∈ (paintClosingLoop fr left now before rest).1,
            PaintedCover x fr f left now c (paintClosingLoop fr left now before rest).2)
  | before, [], hbefore, _, _ => by
    -- at the end no cover is left to live
    refine ⟨hbefore, fun c hc => hc, ?_⟩
    rintro ⟨c, hc, -⟩
    cases hc
  | before, c :: rest, hbefore, hrest, hpicks => by
    obtain ⟨hown, hbound⟩ := hrest c (List.mem_cons_self ..)
    have hrest' := fun o ho => hrest o (List.mem_cons_of_mem c ho)
    rw [paintClosingLoop]
    rw [loopSearches] at hpicks
    by_cases hmon : c.mon ≠ fr.mon.id
    · -- a cover of another monitor is passed over
      rw [if_pos hmon] at hpicks ⊢
      obtain ⟨hall, hmem, hlive⟩ := paintClosingLoop_spec hrun hm (before ++ [c]) rest
        (known_concat hbefore hown hbound) hrest' hpicks
      have hother : c.owner ≠ x.key := fun h => hmon ((hown h).1.trans hm.symm)
      refine ⟨hall, fun o ho => hmem o (List.mem_append_left _ ho), ?_⟩
      rintro ⟨o, ho, holive⟩
      rcases List.mem_cons.1 ho with rfl | ho
      · exact absurd holive.1 hother
      · refine (hlive ⟨o, ho, holive⟩).imp_left ?_
        exact exists_fade_of_concat fun hfade => hother (hbound hfade).1
    -- a cover of this monitor follows its fade-out and is painted
    · rw [if_neg hmon] at hpicks ⊢
      obtain ⟨hpick, hpicks'⟩ := List.forall_mem_append.1 hpicks
      have hpick : c.searches fr.desktop now = true →
          x.Picks fr.desktop fr.mon.id (before ++ c :: rest) c := by
        intro hsearch
        rw [if_pos hsearch] at hpick
        exact hpick _ (List.mem_singleton_self _)
      set c' := c.follow fr.cfg fr.desktop (before ++ c :: rest) fr.mon.id now with hc'
      have hframe := follow_frame c fr.cfg fr.desktop (before ++ c :: rest) fr.mon.id now
      have hfollow : c'.fade = some x.fade →
          c'.owner = x.key ∧ c'.holdUntil = none ∧ c'.box = f.box := by
        intro hfade
        obtain ⟨h1, h2, h3⟩ := follow_bound hrun hbound hpick hfade
        exact ⟨hframe.1.trans h1, h2, h3⟩
      have hbound' : x.Bound c' := fun hfade => ⟨(hfollow hfade).1, (hfollow hfade).2.1⟩
      obtain ⟨hall, hmem, hlive⟩ := paintClosingLoop_spec hrun hm (before ++ [c']) rest
        (known_concat hbefore (own_follow hown) hbound') hrest' hpicks'
      refine ⟨hall, fun o ho => hmem o (List.mem_append_left _ ho), fun hex => ?_⟩
      -- `c` has the fade-out now, or another cover lives on
      by_cases hfade : c'.fade = some x.fade
      · obtain ⟨h1, h2, h3⟩ := hfollow hfade
        have hmem' := hmem c' (List.mem_append_right _ (List.mem_singleton_self _))
        exact .inr ⟨c', hmem', h1, hfade, h2, h3, fun op hop => List.mem_append_left _ hop⟩
      · rcases live_elsewhere hrun hm hrest hpick hfade hex with hbefore' | hlater
        · exact .inl hbefore'
        · refine (hlive hlater).imp (exists_fade_of_concat hfade) ?_
          rintro ⟨o, ho, hpainted⟩
          refine ⟨o, ho, hpainted.owner, hpainted.fade, hpainted.holdUntil, hpainted.box, ?_⟩
          exact fun op hop => List.mem_append_right _ (hpainted.ops op hop)

/-- What a frame makes of one closing cover of its monitor, and of one of another monitor. -/
theorem paintClosingLoop_follow (fr : CaptureFrame) (left : Bool) (now : Instant) :
    ∀ before rest : List Closing,
      (∀ c ∈ before, c ∈ (paintClosingLoop fr left now before rest).1)
        ∧ (∀ c ∈ rest, c.mon ≠ fr.mon.id → c ∈ (paintClosingLoop fr left now before rest).1)
        ∧ ∀ c ∈ rest, c.mon = fr.mon.id → ∃ closing,
          (c.searches fr.desktop now = true → (closing, c) ∈ loopSearches fr now before rest)
            ∧ c.follow fr.cfg fr.desktop closing fr.mon.id now
              ∈ (paintClosingLoop fr left now before rest).1
            ∧ ∀ op ∈ (c.follow fr.cfg fr.desktop closing fr.mon.id now).paint fr left now,
              op ∈ (paintClosingLoop fr left now before rest).2
  | before, [] => ⟨fun c hc => hc, List.forall_mem_nil _, List.forall_mem_nil _⟩
  | before, c :: rest => by
    rw [paintClosingLoop, loopSearches]
    by_cases hmon : c.mon = fr.mon.id
    · rw [if_neg (not_not.2 hmon), if_neg (not_not.2 hmon)]
      -- the loop goes on with what the cover became
      set closing := before ++ c :: rest
      set c' := c.follow fr.cfg fr.desktop closing fr.mon.id now
      obtain ⟨hbefore, hother, hfollow⟩ := paintClosingLoop_follow fr left now (before ++ [c']) rest
      have hc' := hbefore c' (List.mem_append_right _ (List.mem_singleton_self c'))
      refine ⟨fun o ho => hbefore o (List.mem_append_left _ ho), ?_, ?_⟩
      · intro o ho hne
        rcases List.mem_cons.1 ho with rfl | ho
        · exact absurd hmon hne
        · exact hother o ho hne
      · intro o ho heq
        rcases List.mem_cons.1 ho with rfl | ho
        · refine ⟨closing, fun hsearch => List.mem_append_left _ ?_, hc',
            fun op hop => List.mem_append_left _ hop⟩
          rw [if_pos hsearch]
          exact List.mem_singleton_self _
        · obtain ⟨closing', hsearch, hmem, hops⟩ := hfollow o ho heq
          exact ⟨closing', fun h => List.mem_append_right _ (hsearch h), hmem,
            fun op hop => List.mem_append_right _ (hops op hop)⟩
    · rw [if_pos hmon, if_pos hmon]
      obtain ⟨hbefore, hother, hfollow⟩ := paintClosingLoop_follow fr left now (before ++ [c]) rest
      have hc := hbefore c (List.mem_append_right _ (List.mem_singleton_self c))
      refine ⟨fun o ho => hbefore o (List.mem_append_left _ ho), ?_, ?_⟩
      · intro o ho hne
        rcases List.mem_cons.1 ho with rfl | ho
        · exact hc
        · exact hother o ho hne
      · intro o ho heq
        rcases List.mem_cons.1 ho with rfl | ho
        · exact absurd heq hmon
        · exact hfollow o ho heq

end Loop

/-! ### Entries that turn into closing covers -/

section Track

variable (d : Desktop) (mon : MonitorId) (seen : List Key) (now : Instant)

/-- `trackClosed` only adds covers, each from an entry that does not stay, and it adds one for each
such entry that has one to give. -/
theorem closing_foldl_trackOne :
    ∀ (es : List (Sigma fun _ : Key => LastCover)) (s : Shim),
      (∀ c ∈ s.closing, c ∈ (es.foldl (Shim.trackOne d mon seen now) s).closing)
        ∧ (∀ c ∈ (es.foldl (Shim.trackOne d mon seen now) s).closing,
          c ∈ s.closing ∨ ∃ e ∈ es, e.2.stays d mon seen e.1 = false
            ∧ ∃ closing, (e.2.searches d mon seen now e.1 = true →
                (closing, e.2.toClosing e.1 mon now) ∈ trackSearches d mon seen now es s)
              ∧ c ∈ e.2.closed d closing e.1 mon now)
        ∧ ∀ e ∈ es, e.2.stays d mon seen e.1 = false →
          ∃ closing, (e.2.searches d mon seen now e.1 = true →
              (closing, e.2.toClosing e.1 mon now) ∈ trackSearches d mon seen now es s)
            ∧ (∀ o ∈ closing, o ∈ (es.foldl (Shim.trackOne d mon seen now) s).closing)
            ∧ ∀ c ∈ e.2.closed d closing e.1 mon now,
              c ∈ (es.foldl (Shim.trackOne d mon seen now) s).closing
  | [], s => ⟨fun c hc => hc, fun c hc => .inl hc, fun e he => by cases he⟩
  | e :: es, s => by
    obtain ⟨hsub, hfrom, hgive⟩ := closing_foldl_trackOne es (s.trackOne d mon seen now e)
    have hstep : ∀ c, c ∈ (s.trackOne d mon seen now e).closing ↔ c ∈ s.closing
        ∨ e.2.stays d mon seen e.1 = false ∧ c ∈ e.2.closed d s.closing e.1 mon now := by
      intro c
      unfold Shim.trackOne
      cases e.2.stays d mon seen e.1 <;> simp
    -- the search for the first entry comes with the covers that were there before
    have hfirst : e.2.searches d mon seen now e.1 = true →
        (s.closing, e.2.toClosing e.1 mon now) ∈ trackSearches d mon seen now (e :: es) s := by
      intro hsearch
      rw [trackSearches, if_pos hsearch]
      exact List.mem_append_left _ (List.mem_singleton_self _)
    have hlater : ∀ q ∈ trackSearches d mon seen now es (s.trackOne d mon seen now e),
        q ∈ trackSearches d mon seen now (e :: es) s := fun q hq => List.mem_append_right _ hq
    rw [List.foldl_cons]
    refine ⟨fun c hc => hsub c ((hstep c).2 (.inl hc)), fun c hc => ?_, fun e' he' hstays => ?_⟩
    · rcases hfrom c hc with hc | ⟨e', he', hstays, closing, hsearch, hclosed⟩
      · rcases (hstep c).1 hc with hc | ⟨hstays, hclosed⟩
        · exact .inl hc
        · exact .inr ⟨e, List.mem_cons_self .., hstays, s.closing, hfirst, hclosed⟩
      · exact .inr ⟨e', List.mem_cons_of_mem _ he', hstays, closing,
          fun h => hlater _ (hsearch h), hclosed⟩
    · rcases List.mem_cons.1 he' with rfl | he'
      · refine ⟨s.closing, hfirst, fun o ho => hsub o ((hstep o).2 (.inl ho)), fun c hc => ?_⟩
        exact hsub c ((hstep c).2 (.inr ⟨hstays, hc⟩))
      · obtain ⟨closing, hsearch, hgiven⟩ := hgive e' he' hstays
        exact ⟨closing, fun h => hlater _ (hsearch h), hgiven⟩

variable {d mon now} in
/-- What a closing cover from an entry looks like: it is still looking for its fade-out, or the
entry was old and the fade-out is found. -/
theorem closed_cases {last : LastCover} {closing : List Closing} {k : Key} {c : Closing}
    (h : c ∈ last.closed d closing k mon now) :
    last.mon ∈ d.monitors ∧ last.gone d k = true
      ∧ (c = last.toClosing k mon now
        ∨ last.at_ + staleCover ≤ now
          ∧ ∃ f, findFadeFor d closing (last.toClosing k mon now) mon = some f
            ∧ c = { last.toClosing k mon now with fade := some f.id }) := by
  unfold LastCover.closed at h
  split_ifs at h with hgone hfresh
  · simp only [Bool.and_eq_true, decide_eq_true_eq] at hgone
    exact ⟨hgone.1, hgone.2, .inl (Option.mem_some_iff.1 h).symm⟩
  · simp only [Bool.and_eq_true, decide_eq_true_eq] at hgone
    obtain ⟨f, hf, rfl⟩ := Option.map_eq_some_iff.1 h
    exact ⟨hgone.1, hgone.2, .inr ⟨not_lt.1 hfresh, f, hf, rfl⟩⟩
  · cases h

/-- An old entry of a surface that closed looks for the fade-out at once. -/
theorem searches_of_stale {last : LastCover} {k : Key}
    (hstays : last.stays d mon seen k = false) (hmon : last.mon ∈ d.monitors)
    (hgone : last.gone d k = true) (hstale : last.at_ + staleCover ≤ now) :
    last.searches d mon seen now k = true := by
  simp [LastCover.searches, hstays, hmon, hgone, not_lt.2 hstale]

end Track

/-- A surface that the loops did not see has the entry that it had. -/
theorem view_of_not_seen {s : Shim} {fr : CaptureFrame} {inp : PaintInput} {k : Key}
    (h : ((s.paintHidden fr inp).2.view k).seen = false) :
    ((s.paintHidden fr inp).2.view k).entry = s.lastCovers.lookup k := by
  rw [view_paintHidden] at h ⊢
  generalize sightings fr inp k = l at h ⊢
  have hseen : ∀ (l : List LastCover) (v : KeyView), v.seen = true →
      (l.foldl (KeyView.see (inp.isHeld k)) v).seen = true := by
    intro l
    induction l with
    | nil => exact fun v hv => hv
    | cons last l ih => exact fun v _ => ih _ rfl
  cases l with
  | nil => rfl
  | cons last l =>
    rw [List.foldl_cons, hseen l _ rfl] at h
    cases h

/-! ### The frame's closing covers -/

section Frame

variable {x : ClosedSurface} {fr : CaptureFrame} {now : Instant}

/-- Before the surface's fade-out is made, no cover follows it. -/
theorem follow_before (hbefore : x.Before fr.desktop) {c : Closing} {closing : List Closing}
    (h : c.fade ≠ some x.fade) :
    (c.follow fr.cfg fr.desktop closing fr.mon.id now).fade ≠ some x.fade := by
  have hfound : (findFadeFor fr.desktop closing c fr.mon.id).map Fadeout.id ≠ some x.fade := by
    intro hfade
    obtain ⟨f, hf, hid⟩ := Option.map_eq_some_iff.1 hfade
    exact hbefore f (fits_of_findFadeFor hf).1 hid
  rcases follow_fade c fr.cfg fr.desktop closing fr.mon.id now with heq | heq
  · rwa [heq]
  · rwa [heq]

/-- What `follow` keeps of one cover the loop keeps of all of them. -/
theorem paintClosingLoop_forall {left : Bool} {Q : Closing → Prop}
    (hfollow : ∀ c closing, c.mon = fr.mon.id → Q c →
      Q (c.follow fr.cfg fr.desktop closing fr.mon.id now)) :
    ∀ before rest : List Closing, (∀ c ∈ before, Q c) → (∀ c ∈ rest, Q c) →
      ∀ c ∈ (paintClosingLoop fr left now before rest).1, Q c
  | before, [], hbefore, _ => hbefore
  | before, c :: rest, hbefore, hrest => by
    have hc := hrest c (List.mem_cons_self ..)
    have hrest' := fun o ho => hrest o (List.mem_cons_of_mem c ho)
    -- the cover just passed joins those before
    have hsnoc : ∀ o, Q o → ∀ o' ∈ before ++ [o], Q o' := by
      intro o ho o' ho'
      rcases List.mem_append.1 ho' with ho' | ho'
      · exact hbefore o' ho'
      · rwa [List.mem_singleton.1 ho']
    rw [paintClosingLoop]
    split_ifs with hmon
    · exact paintClosingLoop_forall hfollow _ rest (hsnoc c hc) hrest'
    · exact paintClosingLoop_forall hfollow _ rest (hsnoc _ (hfollow c _ (not_not.1 hmon) hc)) hrest'

/-- The closing covers of a frame: those that `trackClosed` leaves go through the loop, and its
draws are among those of the frame. -/
theorem World.closing_frame (s : World) (fr : CaptureFrame) :
    let inp := s.shim.paintInput fr s.now
    let tracked := (s.shim.remember fr inp (s.shim.paintHidden fr inp).2).closing
    (s.step (.frame fr)).1.shim.closing
        = (paintClosingLoop fr inp.left s.now [] tracked).1
      ∧ ∀ op ∈ (paintClosingLoop fr inp.left s.now [] tracked).2,
        op ∈ (s.step (.frame fr)).2 := by
  intro inp tracked
  obtain ⟨hshim, hops⟩ := render_eq_paintCovers s.shim fr s.now
  have hshim' : (s.step (.frame fr)).1.shim = (s.shim.paintCovers fr inp).1 := hshim
  have hops' : (s.step (.frame fr)).2 = (s.shim.paintCovers fr inp).2 := hops
  rw [hshim', hops']
  constructor
  -- the pump does not touch the closing covers
  · unfold Shim.paintCovers Shim.paintClosing Shim.startPump
    dsimp only
    split_ifs <;> rfl
  · intro op hop
    unfold Shim.paintCovers Shim.paintClosing
    dsimp only
    -- these are the calls in the middle of a frame's
    exact List.mem_append_left _ (List.mem_append_left _ (List.mem_append_right _ hop))

end Frame

end NoshareCover
