import NoshareCover.Shim.Spec.ClosingLoop
import NoshareCover.Shim.Spec.Hold

/-!
# Closing covers over a run

The cover of a surface that closes is remembered in `lastCovers` until a frame or the close event
turns it into a closing cover, and in `closing` from then on.  `closing_cover_kept` says under which
condition on the steps neither of the two loses it while the surface's fade-out is running.
-/

namespace NoshareCover

open Machine

/-! ### The surface in the run -/

namespace ClosedSurface

variable (x : ClosedSurface)

/-- The desktop's window or layer `x.key` has the kind and the rules of the surface. -/
structure Shown (d : Desktop) : Prop where
  window : ∀ w ∈ d.windows, w.key = x.key → x.isLayer = false ∧ w.rules ∈ x.rules
  layer : ∀ l ∈ d.layers, l.key = x.key → x.isLayer = true ∧ l.rules ∈ x.rules

/-- The event is about the surface's monitor, and shows the surface as it is. -/
def Knows : ShimEvent → Prop
  | .frame fr => fr.mon.id = x.mon ∧ x.Shown fr.desktop
  | .windowClose _ _ w =>
    w.key = x.key → x.isLayer = false ∧ w.rules ∈ x.rules ∧ w.monitor = some x.mon
  | .layerClose _ _ l =>
    l.key = x.key → x.isLayer = true ∧ l.rules ∈ x.rules ∧ l.monitor = some x.mon
  | _ => True

/-- The hidden surface closes. -/
def Closes : ShimEvent → Prop
  | .windowClose d _ w => w.key = x.key ∧ d.hidden w.surface = true
  | .layerClose d _ l => l.key = x.key ∧ d.hidden l.surface = true
  | _ => False

/-- The frame comes after the surface closed: it is nowhere on screen, and a fade-out that is there
for it is its only one and running. -/
structure Gone (fr : CaptureFrame) : Prop where
  window : fr.desktop.windowGone x.key = true
  layer : fr.desktop.layerGone x.key = true
  offScreen : ∀ g, fr.sight? x.key = some g → g.onScreen = none
  fades : ∀ f ∈ fr.desktop.fadeouts, f.id = x.fade ∨ f.source = x.key → x.Running fr.desktop f

/-- A fade-out that a frame finds running is there in a later one too. -/
def GoesOn (e later : ShimEvent) : Prop :=
  ∀ fr fr', e = .frame fr → later = .frame fr' → ¬ x.Before fr.desktop → ¬ x.Before fr'.desktop

/-- The entry is the surface's. -/
def OwnEntry (s : World) : Prop :=
  ∀ last, s.entry x.key = some last →
    last.mon = x.mon ∧ last.isLayer = x.isLayer ∧ last.rules ∈ x.rules

/-- A closing cover of the surface whose hold has not started, and which follows its fade-out or
none. -/
def Unheld (c : Closing) : Prop :=
  c.owner = x.key ∧ c.holdUntil = none ∧ (c.fade = some x.fade ∨ c.fade = none)

/-- The surface's cover is in one of the two places where it can be. -/
def Kept (s : World) : Prop :=
  (s.entry x.key).isSome = true ∨ ∃ c ∈ s.shim.closing, x.Unheld c

/-- The closing cover has no fade-out, and no longer looks for one. -/
def Overdue (now : Instant) (c : Closing) : Prop :=
  c.owner = x.key ∧ c.holdUntil = none ∧ c.fade = none ∧ c.bindUntil ≤ now

/-- The frame comes too late for one of the two places: for a closing cover that no longer looks for
its fade-out, or for an entry that turns into a closing cover only if the fade-out is there. -/
def Late (s : World) (fr : CaptureFrame) : Prop :=
  (∃ c ∈ s.shim.closing, x.Overdue s.now c)
    ∨ ∃ last, s.entry x.key = some last ∧ last.at_ + staleCover ≤ s.now ∧ x.Before fr.desktop

/-- One of the two places is not too late for the frame: a closing cover looks for the fade-out or
follows it, or the entry is fresh, or its surface may be seen, or the fade-out is there. -/
def Findable (s : World) (fr : CaptureFrame) : Prop :=
  (∃ last, s.entry x.key = some last ∧ (x.Before fr.desktop → s.now < last.at_ + staleCover
      ∨ x.key ∈ (s.shim.paintInput fr s.now).revealed))
    ∨ ∃ c ∈ s.shim.closing, x.Live s.now c

/-- The step does not lose the surface's cover: the surface closes while its monitor is captured or
with its cover in one of the two places; a tick of the pump comes while the monitor is captured, or
finds no closing cover that it could drop; and a frame that comes too late for one of the two places
is not too late for the other. -/
def Careful (s : World) : ShimEvent → Prop
  | .windowClose _ mgr w => w.key = x.key → mgr.beingCaptured x.mon = true ∨ x.Kept s
  | .layerClose _ mgr l => l.key = x.key → mgr.beingCaptured x.mon = true ∨ x.Kept s
  | .tick mgr _ => mgr.beingCaptured x.mon = true
      ∨ ((∃ c ∈ s.shim.closing, x.Unheld c) → (s.entry x.key).isSome = true)
  | .frame fr => x.Late s fr → x.Findable s fr
  | .wait _ => True

/-- Before the surface closes. -/
structure Open (s : World) : Prop where
  entry : x.OwnEntry s
  closing : ∀ c ∈ s.shim.closing, x.Own c ∧ c.fade ≠ some x.fade

/-- After it has closed, when no step lost its cover. -/
structure Covered (s : World) : Prop where
  entry : x.OwnEntry s
  closing : ∀ c ∈ s.shim.closing, x.Own c ∧ x.Bound c
  kept : x.Kept s

end ClosedSurface

section Surface

variable {x : ClosedSurface} {fr : CaptureFrame} {now : Instant}

/-- What the frame finds of the surface has its kind and its rules. -/
theorem ClosedSurface.Shown.sight (h : x.Shown fr.desktop) {g : Sight}
    (hsight : fr.sight? x.key = some g) :
    g.rules ∈ x.rules
      ∧ ∀ f, g.onScreen = some f → ∀ rules now, (f rules now).isLayer = x.isLayer := by
  have hmem := List.mem_of_head? hsight
  -- a surface is seen as a window or as a layer
  rcases List.mem_append.1 hmem with hmem | hmem
  · obtain ⟨w, hw, hg⟩ := List.mem_filterMap.1 hmem
    split_ifs at hg with hk
    rw [Option.some.injEq] at hg
    subst hg
    obtain ⟨hkind, hrules⟩ := h.window w hw hk.1
    refine ⟨hrules, fun f hf rules now => ?_⟩
    obtain ⟨geo, -, rfl⟩ := Option.map_eq_some_iff.1 hf
    exact hkind.symm
  · obtain ⟨l, hl, hg⟩ := List.mem_filterMap.1 hmem
    split_ifs at hg with hk
    rw [Option.some.injEq] at hg
    subst hg
    obtain ⟨hkind, hrules⟩ := h.layer l hl hk.1
    refine ⟨hrules, fun f hf rules now => ?_⟩
    unfold Layer.sight at hf
    split_ifs at hf
    rw [Option.some.injEq] at hf
    subst hf
    exact hkind.symm

/-- A frame leaves the surface's entry its own. -/
theorem ownEntry_frame {s : World} (hm : fr.mon.id = x.mon) (hshown : x.Shown fr.desktop)
    (h : x.OwnEntry s) : x.OwnEntry (s.step (.frame fr)).1 := by
  intro last hlast
  rw [World.entry_frame, entryStep] at hlast
  -- the entry stays, or is written from what the frame sees of the surface
  cases hsight : fr.sight? x.key with
  | none =>
    rw [hsight] at hlast
    exact h last (Option.mem_filter_iff.1 hlast).1
  | some g =>
    rw [hsight] at hlast
    have hentry := (Option.mem_filter_iff.1 hlast).1
    obtain ⟨hrules, hkind⟩ := hshown.sight hsight
    -- only what is on screen is written
    split_ifs at hentry
    · obtain ⟨f, hf, rfl⟩ := Option.map_eq_some_iff.1 hentry
      obtain ⟨h1, h2, -⟩ := CaptureFrame.onScreen_spec hsight hf g.rules s.now
      exact ⟨h1.trans hm, hkind f hf _ _, by rw [h2]; exact hrules⟩
    · exact h last hentry

/-- The closing covers that are there go through `trackClosed` unchanged. -/
theorem mem_tracked_of_mem {s : Shim} {inp : PaintInput} {c : Closing} (hc : c ∈ s.closing) :
    c ∈ (s.remember fr inp (s.paintHidden fr inp).2).closing :=
  (closing_foldl_trackOne fr.desktop fr.mon.id ((s.paintHidden fr inp).2.seen ++ inp.revealed)
    inp.now (inOrder fr.order (s.paintHidden fr inp).2.lastCovers.entries)
    { s with
      lastCovers := (s.paintHidden fr inp).2.lastCovers
      animBoxes := (s.paintHidden fr inp).2.animBoxes }).1 c hc

/-- A closing cover after `trackClosed` is an old one or comes from an entry. -/
theorem mem_tracked {s : Shim} {inp : PaintInput} {c : Closing}
    (hc : c ∈ (s.remember fr inp (s.paintHidden fr inp).2).closing) :
    c ∈ s.closing ∨ ∃ k last, s.lastCovers.lookup k = some last
      ∧ (c = last.toClosing k fr.mon.id inp.now
        ∨ ∃ closing f, (closing, last.toClosing k fr.mon.id inp.now) ∈ s.searches fr inp
          ∧ findFadeFor fr.desktop closing (last.toClosing k fr.mon.id inp.now) fr.mon.id = some f
          ∧ c = { last.toClosing k fr.mon.id inp.now with fade := some f.id }) := by
  obtain ⟨-, hfrom, -⟩ := closing_foldl_trackOne fr.desktop fr.mon.id
    ((s.paintHidden fr inp).2.seen ++ inp.revealed) inp.now
    (inOrder fr.order (s.paintHidden fr inp).2.lastCovers.entries)
    { s with
      lastCovers := (s.paintHidden fr inp).2.lastCovers
      animBoxes := (s.paintHidden fr inp).2.animBoxes }
  rcases hfrom c hc with hold | ⟨⟨k, last⟩, he, hstays, closing, hsearch, hclosed⟩
  · exact .inl hold
  · obtain ⟨hmon, hgone, hcases⟩ := closed_cases hclosed
    -- a surface that was seen in this frame keeps its entry
    have hseen : ((s.paintHidden fr inp).2.view k).seen = false := by
      rw [← Bool.not_eq_true]
      intro hseen
      have hk : k ∈ (s.paintHidden fr inp).2.seen := by simpa [Painted.view] using hseen
      simp [LastCover.stays, hmon, hk] at hstays
    have hentry : s.lastCovers.lookup k = some last := by
      rw [← view_of_not_seen hseen]
      exact AList.mem_lookup_iff.2 (mem_inOrder.1 he)
    refine .inr ⟨k, last, hentry, hcases.imp_right ?_⟩
    rintro ⟨hstale, f, hf, rfl⟩
    refine ⟨closing, f, List.mem_append_left _ (hsearch ?_), hf, rfl⟩
    exact searches_of_stale _ _ _ _ hstays hmon hgone hstale

/-- A closing cover of the surface's entry is its own. -/
theorem own_toClosing {s : World} (h : x.OwnEntry s) (hm : fr.mon.id = x.mon) {k : Key}
    {last : LastCover} (hlast : s.entry k = some last) (now : Instant) :
    x.Own (last.toClosing k fr.mon.id now) := by
  intro hk
  obtain rfl : k = x.key := hk
  obtain ⟨-, h2, h3⟩ := h last hlast
  exact ⟨hm, h2, h3⟩

/-- Without the fade-out `trackClosed` adds no cover that follows it. -/
theorem unbound_tracked {s : World} (inp : PaintInput) (hm : fr.mon.id = x.mon)
    (hbefore : x.Before fr.desktop) (hentry : x.OwnEntry s)
    (h : ∀ c ∈ s.shim.closing, x.Own c ∧ c.fade ≠ some x.fade) :
    ∀ c ∈ (s.shim.remember fr inp (s.shim.paintHidden fr inp).2).closing,
      x.Own c ∧ c.fade ≠ some x.fade := by
  intro c hc
  rcases mem_tracked hc with hold | ⟨k, last, hlast, rfl | ⟨closing, f, -, hf, rfl⟩⟩
  · exact h c hold
  · exact ⟨own_toClosing hentry hm hlast _, by simp [LastCover.toClosing]⟩
  · refine ⟨own_toClosing hentry hm hlast inp.now, fun hfade => ?_⟩
    exact hbefore f (fits_of_findFadeFor hf).1 (Option.some.inj hfade)

/-- In frames without the fade-out no cover comes to follow it. -/
theorem unbound_frame {s : World} (hm : fr.mon.id = x.mon) (hbefore : x.Before fr.desktop)
    (hentry : x.OwnEntry s) (h : ∀ c ∈ s.shim.closing, x.Own c ∧ c.fade ≠ some x.fade) :
    ∀ c ∈ (s.step (.frame fr)).1.shim.closing, x.Own c ∧ c.fade ≠ some x.fade := by
  obtain ⟨hclosing, -⟩ := s.closing_frame fr
  rw [hclosing]
  exact paintClosingLoop_forall (Q := fun c => x.Own c ∧ c.fade ≠ some x.fade)
    (fun c closing _ hc => ⟨own_follow hc.1, follow_before hbefore hc.2⟩) [] _
    (List.forall_mem_nil _) (unbound_tracked _ hm hbefore hentry h)

/-- Frames before the surface closes. -/
theorem open_frame {s : World} (hm : fr.mon.id = x.mon) (hshown : x.Shown fr.desktop)
    (hbefore : x.Before fr.desktop) (h : x.Open s) : x.Open (s.step (.frame fr)).1 :=
  ⟨ownEntry_frame hm hshown h.entry, unbound_frame hm hbefore h.entry h.closing⟩

end Surface

/-! ### Frames after the close -/

section Gone

variable {x : ClosedSurface} {fr : CaptureFrame} {f : Fadeout} {s : World}

/-- The loops over hidden windows and layers pass over a surface that is not on screen. -/
theorem not_seen_of_offScreen {k : Key} (hoff : ∀ g, fr.sight? k = some g → g.onScreen = none)
    (s : Shim) (inp : PaintInput) : ((s.paintHidden fr inp).2.view k).seen = false := by
  have hnone : sightings fr inp k = [] := by
    rcases fr.finds k with ⟨sf, g, -, rfl, -, hsight, -, -, -, hlist⟩ | ⟨-, -, hlist⟩
    · rw [hlist, hoff g hsight]
      simp
    · exact hlist inp
  rw [view_paintHidden, hnone]
  rfl

/-- After `trackClosed` too the fade-out has only covers of the surface. -/
theorem known_tracked (hm : fr.mon.id = x.mon) (hgone : x.Gone fr) (h : x.Covered s)
    (hpicks : ∀ q ∈ s.shim.searches fr (s.shim.paintInput fr s.now),
      x.Picks fr.desktop fr.mon.id q.1 q.2) :
    let inp := s.shim.paintInput fr s.now
    ∀ c ∈ (s.shim.remember fr inp (s.shim.paintHidden fr inp).2).closing, x.Own c ∧ x.Bound c := by
  intro inp c hc
  rcases mem_tracked hc with hold | ⟨k, last, hlast, rfl | ⟨closing, f, hsearch, hf, rfl⟩⟩
  · exact h.closing c hold
  · exact ⟨own_toClosing h.entry hm hlast _, fun hnone => by cases hnone⟩
  · refine ⟨own_toClosing h.entry hm hlast s.now, fun hid => ⟨?_, rfl⟩⟩
    have hrun := hgone.fades f (fits_of_findFadeFor hf).1 (.inl (Option.some.inj hid))
    exact (hrun.eq_of_picks (hpicks _ hsearch) hf (Option.some.inj hid)).2

/-- What `trackClosed` makes of the surface's entry, if the client does not see the surface. -/
theorem tracked_of_entry (hm : fr.mon.id = x.mon) (hgone : x.Gone fr) (h : x.OwnEntry s)
    {last : LastCover} (hlast : s.entry x.key = some last) :
    let inp := s.shim.paintInput fr s.now
    let tracked := (s.shim.remember fr inp (s.shim.paintHidden fr inp).2).closing
    x.key ∉ inp.revealed → last.mon ∈ fr.desktop.monitors ∧ last.gone fr.desktop x.key = true ∧
      ∃ closing, (∀ o ∈ closing, o ∈ tracked)
        ∧ (∀ c ∈ last.closed fr.desktop closing x.key fr.mon.id s.now, c ∈ tracked)
        ∧ (last.at_ + staleCover ≤ s.now →
          (closing, last.toClosing x.key fr.mon.id s.now) ∈ s.shim.searches fr inp) := by
  intro inp tracked hrevealed
  -- what the loop over `g_lastCovers` does to the entry of the surface
  obtain ⟨-, -, hgive⟩ := closing_foldl_trackOne fr.desktop fr.mon.id
    ((s.shim.paintHidden fr inp).2.seen ++ inp.revealed) s.now
    (inOrder fr.order (s.shim.paintHidden fr inp).2.lastCovers.entries)
    { s.shim with
      lastCovers := (s.shim.paintHidden fr inp).2.lastCovers
      animBoxes := (s.shim.paintHidden fr inp).2.animBoxes }
  obtain ⟨hmon, hkind, -⟩ := h last hlast
  have hseen := not_seen_of_offScreen hgone.offScreen s.shim inp
  have he : (⟨x.key, last⟩ : Sigma fun _ : Key => LastCover)
      ∈ inOrder fr.order (s.shim.paintHidden fr inp).2.lastCovers.entries := by
    rw [mem_inOrder, ← AList.mem_lookup_iff]
    exact (view_of_not_seen hseen).trans hlast
  -- the surface is off the screen, so the frame has not seen it
  have hnotSeen : x.key ∉ (s.shim.paintHidden fr inp).2.seen := by
    simpa [Painted.view] using hseen
  have hstays : last.stays fr.desktop fr.mon.id
      ((s.shim.paintHidden fr inp).2.seen ++ inp.revealed) x.key = false := by
    simp [LastCover.stays, hmon, hm, hnotSeen, hrevealed]
  -- its monitor is there, and the surface itself is not
  have hmem : last.mon ∈ fr.desktop.monitors := by
    rw [hmon, ← hm]
    exact fr.mon_mem
  have hclosed : last.gone fr.desktop x.key = true := by
    simp [LastCover.gone, hgone.window, hgone.layer]
  obtain ⟨closing, hsearch, hsub, hgiven⟩ := hgive _ he hstays
  refine ⟨hmem, hclosed, closing, hsub, hgiven, fun hstale => List.mem_append_left _ (hsearch ?_)⟩
  exact searches_of_stale _ _ _ _ hstays hmem hclosed hstale

/-- The surface's cover after `trackClosed`: its entry stays, or a closing cover follows the
fade-out or looks for it. -/
theorem live_tracked (hm : fr.mon.id = x.mon) (hgone : x.Gone fr) (h : x.Covered s)
    (hpicks : ∀ q ∈ s.shim.searches fr (s.shim.paintInput fr s.now),
      x.Picks fr.desktop fr.mon.id q.1 q.2)
    (hfind : x.Findable s fr) :
    let inp := s.shim.paintInput fr s.now
    (x.key ∈ inp.revealed ∧ (s.entry x.key).isSome = true)
      ∨ ∃ c ∈ (s.shim.remember fr inp (s.shim.paintHidden fr inp).2).closing, x.Live s.now c := by
  intro inp
  rcases hfind with ⟨last, hlast, husable⟩ | ⟨c, hc, hlive⟩
  swap
  · exact .inr ⟨c, mem_tracked_of_mem hc, hlive⟩
  -- a revealed surface keeps its entry and gets no closing cover yet
  by_cases hrevealed : x.key ∈ inp.revealed
  · exact .inl ⟨hrevealed, Option.isSome_iff_exists.2 ⟨last, hlast⟩⟩
  right
  obtain ⟨hmem, hclosed, closing, hsub, hgiven, hsearch⟩ :=
    tracked_of_entry hm hgone h.entry hlast hrevealed
  -- a fresh entry gives a closing cover in any case
  by_cases hfresh : s.now < last.at_ + staleCover
  · refine ⟨last.toClosing x.key fr.mon.id s.now, hgiven _ ?_, rfl, rfl, .inr ⟨rfl, ?_⟩⟩
    · simp [LastCover.closed, hmem, hclosed, hfresh]
    · exact Nat.lt_add_of_pos_right (by decide)
  · -- an old entry: its fade-out is there, so it is found, unless a cover has it already
    have hthere : ¬ x.Before fr.desktop := fun hbefore =>
      (husable hbefore).elim hfresh hrevealed
    obtain ⟨f, hf, hid⟩ : ∃ f ∈ fr.desktop.fadeouts, f.id = x.fade := by
      simpa [ClosedSurface.Before] using hthere
    have hrun := hgone.fades f hf (.inl hid)
    -- the fade-out is free, or it has a closing cover of the surface
    by_cases hfree : ∀ o ∈ closing, o.fade ≠ some x.fade
    · have hpick := (hpicks _ (hsearch (not_lt.1 hfresh))).own rfl
      rw [hm, hrun.ownFade_eq rfl (h.entry last hlast).2.1 hfree] at hpick
      refine ⟨{ last.toClosing x.key fr.mon.id s.now with fade := some f.id }, hgiven _ ?_, rfl,
        rfl, .inl (congrArg some hid)⟩
      simp [LastCover.closed, hmem, hclosed, hfresh, hm, hpick]
    · obtain ⟨o, ho, hofade⟩ : ∃ o ∈ closing, o.fade = some x.fade := by
        simpa using hfree
      obtain ⟨howner, hhold⟩ := (known_tracked hm hgone h hpicks o (hsub o ho)).2 hofade
      exact ⟨o, hsub o ho, howner, hhold, .inl hofade⟩

/-- A closed surface that the client may see keeps its entry. -/
theorem entry_revealed (hm : fr.mon.id = x.mon) (hgone : x.Gone fr) (h : x.OwnEntry s)
    (hrevealed : x.key ∈ (s.shim.paintInput fr s.now).revealed) :
    (s.step (.frame fr)).1.entry x.key = s.entry x.key := by
  -- the surface is not seen, and revealed entries are not dropped
  set inp := s.shim.paintInput fr s.now
  have hseen := not_seen_of_offScreen hgone.offScreen s.shim inp
  obtain ⟨hshim, -⟩ := render_eq_paintCovers s.shim fr s.now
  obtain ⟨hentry, -⟩ := paintCovers_view s.shim fr inp x.key
  have hstep : (s.step (.frame fr)).1.entry x.key
      = (s.shim.paintCovers fr inp).1.lastCovers.lookup x.key :=
    congrArg (fun shim => shim.lastCovers.lookup x.key) hshim
  rw [hstep, hentry, view_of_not_seen hseen, hseen]
  change (s.entry x.key).filter _ = s.entry x.key
  cases hlast : s.entry x.key with
  | none => rfl
  | some last =>
    have hmem : last.mon ∈ fr.desktop.monitors := by
      rw [(h last hlast).1, ← hm]
      exact fr.mon_mem
    simp [Option.filter, keepEntry, hmem, hrevealed]

/-- No entry is kept for a client that does not see the surface. -/
theorem notMem_revealed_of_not_sees (hshown : x.Shown fr.desktop)
    (hsees : ∀ r ∈ x.rules, fr.client.sees r = false) (s : Shim) (now : Instant) :
    x.key ∉ (s.paintInput fr now).revealed := by
  rcases fr.finds x.key with ⟨sf, g, hsf, hk, hruled, hsight, hhidden, hrules, hpresent, -⟩ |
    ⟨-, hruled, -⟩
  · obtain ⟨-, -, hrevealed⟩ :=
      paintInput_sight s now hsf hruled (hk ▸ hhidden) hrules hpresent
    have hnot := hsees g.rules (hshown.sight hsight).1
    simpa [hk, Sight.revealed, hnot] using hrevealed
  · exact notMem_revealed s now hruled

/-- The draws have the cover of the surface over its fade-out's current box.  A transparent cover
is not drawn, its surface is left out of the image; and a box less than a pixel wide or high has
nothing to draw over. -/
def FadeCovered (x : ClosedSurface) (fr : CaptureFrame) (f : Fadeout) (ops : List PaintOp) : Prop :=
  let box := captureBox fr.mon fr.capturePos (atLeast5 f.box)
  (∃ op, .cover op ∈ ops ∧ op.subject = .closing x.key ∧ op.rules ∈ x.rules ∧ op.box = box
      ∧ op.area = coverArea fr.region box .empty)
    ∨ .leftOut (.closing x.key) ∈ ops ∨ box.w < 1 ∨ box.h < 1

/-- A closing cover over the fade-out's box is drawn for a client that does not see the surface. -/
theorem fadeCovered_of_painted {left : Bool} {now : Instant} {c : Closing} {ops : List PaintOp}
    (hown : x.Own c) (h : PaintedCover x fr f left now c ops)
    (hsees : ∀ r ∈ x.rules, fr.client.sees r = false) : FadeCovered x fr f ops := by
  obtain ⟨howner, -, hhold, hbox, hops⟩ := h
  obtain ⟨-, -, hrules⟩ := hown howner
  have hnot := hsees c.rules hrules
  unfold Closing.paint at hops
  simp only [hhold, hnot, howner, hbox, Option.any_none, Bool.false_eq_true, if_false] at hops
  unfold FadeCovered
  split_ifs at hops with hleft hsmall hcapture
  · exact .inr (.inl (hops _ (List.mem_singleton_self _)))
  · exact .inr (.inr hsmall)
  · exact .inl ⟨_, hops _ (List.mem_singleton_self _), rfl, hrules, rfl, rfl⟩
  · exact .inl ⟨_, hops _ (List.mem_singleton_self _), rfl, hrules, rfl, rfl⟩

/-- Frames during the fade-out keep the cover, and draw it for a client that does not see the
surface. -/
theorem covered_frame (hm : fr.mon.id = x.mon) (hshown : x.Shown fr.desktop) (hgone : x.Gone fr)
    (hpicks : ∀ q ∈ s.shim.searches fr (s.shim.paintInput fr s.now),
      x.Picks fr.desktop fr.mon.id q.1 q.2)
    (hrun : x.Running fr.desktop f) (h : x.Covered s) (hfind : x.Findable s fr) :
    x.Covered (s.step (.frame fr)).1
      ∧ ((∀ r ∈ x.rules, fr.client.sees r = false)
        → FadeCovered x fr f (s.step (.frame fr)).2) := by
  have htracked := known_tracked hm hgone h hpicks
  have hlive := live_tracked hm hgone h hpicks hfind
  obtain ⟨hclosing, hops⟩ := s.closing_frame fr
  obtain ⟨hall, -, hpainted⟩ := paintClosingLoop_spec (s.shim.paintInput fr s.now).left s.now
    hrun hm [] _ (List.forall_mem_nil _) htracked fun q hq => hpicks q (List.mem_append_right _ hq)
  -- no cover is in front of the loop, so the one found comes in it
  rw [← hclosing] at hall hpainted
  have hpainted' : (∃ c ∈ _, x.Live s.now c) → _ := fun hex =>
    (hpainted hex).resolve_left fun ⟨_, ho, _⟩ => by cases ho
  refine ⟨⟨ownEntry_frame hm hshown h.entry, hall, ?_⟩, fun hsees => ?_⟩
  -- the frame leaves the surface its entry or a closing cover
  · rcases hlive with ⟨hrevealed, hentry⟩ | hex
    · exact .inl (by rwa [entry_revealed hm hgone h.entry hrevealed])
    · obtain ⟨c, hc, hcover⟩ := hpainted' hex
      exact .inr ⟨c, hc, hcover.owner, hcover.holdUntil, .inl hcover.fade⟩
  -- to a client that may not see it, it is not revealed
  · rcases hlive with ⟨hrevealed, -⟩ | hex
    · exact absurd hrevealed (notMem_revealed_of_not_sees hshown hsees s.shim s.now)
    · obtain ⟨c, hc, hcover⟩ := hpainted' hex
      refine fadeCovered_of_painted (hall c hc).1 ⟨hcover.owner, hcover.fade, hcover.holdUntil,
        hcover.box, fun op hop => hops op (hcover.ops op hop)⟩ hsees

/-- Frames before the fade-out is made keep the cover, and none follows a fade-out that is not
there. -/
theorem waiting_frame (hm : fr.mon.id = x.mon) (hshown : x.Shown fr.desktop) (hgone : x.Gone fr)
    (hpicks : ∀ q ∈ s.shim.searches fr (s.shim.paintInput fr s.now),
      x.Picks fr.desktop fr.mon.id q.1 q.2)
    (hbefore : x.Before fr.desktop) (h : x.Covered s)
    (hunbound : ∀ c ∈ s.shim.closing, c.fade ≠ some x.fade) (hfind : x.Findable s fr) :
    x.Covered (s.step (.frame fr)).1
      ∧ ∀ c ∈ (s.step (.frame fr)).1.shim.closing, c.fade ≠ some x.fade := by
  -- no cover has the fade-out, which is not there yet
  have hold : ∀ c ∈ s.shim.closing, x.Own c ∧ c.fade ≠ some x.fade := fun c hc =>
    ⟨(h.closing c hc).1, hunbound c hc⟩
  have htracked := unbound_tracked (s.shim.paintInput fr s.now) hm hbefore h.entry hold
  have hall := unbound_frame hm hbefore h.entry hold
  refine ⟨⟨ownEntry_frame hm hshown h.entry,
    fun c hc => ⟨(hall c hc).1, fun hfade => absurd hfade (hall c hc).2⟩, ?_⟩, fun c hc =>
      (hall c hc).2⟩
  -- the entry was revealed, or there is a closing cover to follow
  rcases live_tracked hm hgone h hpicks hfind with ⟨hrevealed, hentry⟩ | ⟨c, hc, hlive⟩
  · exact .inl (by rwa [entry_revealed hm hgone h.entry hrevealed])
  · -- the cover looks for its fade-out, does not find it, and goes on
    obtain ⟨howner, hhold, hfade⟩ := hlive
    obtain ⟨hclosing, -⟩ := s.closing_frame fr
    obtain ⟨-, -, hfollow⟩ := paintClosingLoop_follow fr (s.shim.paintInput fr s.now).left s.now []
      (s.shim.remember fr (s.shim.paintInput fr s.now)
        (s.shim.paintHidden fr (s.shim.paintInput fr s.now)).2).closing
    obtain ⟨closing, hsearch, hmem, -⟩ :=
      hfollow c hc (((htracked c hc).1 howner).1.trans hm.symm)
    have hsource : ∀ f ∈ fr.desktop.fadeouts, f.source ≠ x.key := fun f hf hsource =>
      hbefore f hf (hgone.fades f hf (.inr hsource)).id
    rcases hfade with hfade | ⟨hnone, hnow⟩
    · exact absurd hfade (htracked c hc).2
    · rw [follow_absent howner hhold hnone hnow hsource fun h =>
        hpicks _ (List.mem_append_right _ (hsearch h)), ← hclosing] at hmem
      exact .inr ⟨c, hmem, howner, hhold, .inr hnone⟩

end Gone

/-! ### The run -/

section Run

variable {x : ClosedSurface} {s : World}

/-- The world after a close event has the entries of the world before it, or fewer, and a closing
cover more if the surface's monitor is captured. -/
theorem startClosing_spec (s : Shim) (mgr : Screenshare) (c : Closing) :
    (mgr.beingCaptured c.mon = true ∧ (s.startClosing mgr c).closing = s.closing ++ [c]
        ∧ (s.startClosing mgr c).lastCovers = s.lastCovers.erase c.owner)
      ∨ mgr.beingCaptured c.mon = false ∧ s.startClosing mgr c = s := by
  unfold Shim.startClosing Shim.startPump
  cases mgr.beingCaptured c.mon
  · exact .inr ⟨rfl, rfl⟩
  · exact .inl ⟨rfl, rfl, rfl⟩

/-- What an event that is not a frame does to the surface's cover. -/
structure Untouched (x : ClosedSurface) (s s' : World) : Prop where
  entry : ∀ last, s'.entry x.key = some last → s.entry x.key = some last
  closing : ∀ c ∈ s'.shim.closing, c ∈ s.shim.closing ∨ x.Own c ∧ c.fade = none ∧ c.holdUntil = none

/-- Close events add a closing cover that looks for its fade-out, and only that. -/
theorem untouched_startClosing (s : World) (mgr : Screenshare) {c : Closing} (hown : x.Own c)
    (hfade : c.fade = none) (hhold : c.holdUntil = none) :
    Untouched x s { s with shim := s.shim.startClosing mgr c } := by
  rcases startClosing_spec s.shim mgr c with ⟨-, hclosing, hentry⟩ | ⟨-, hsame⟩
  · constructor
    -- the entry of the owner is gone, every other one stays
    · intro last hlast
      have hlook : ((s.shim.startClosing mgr c).lastCovers).lookup x.key = some last := hlast
      rw [hentry] at hlook
      by_cases hk : x.key = c.owner
      · rw [hk, AList.lookup_erase] at hlook
        cases hlook
      · rwa [AList.lookup_erase_ne hk] at hlook
    -- the only new cover is `c` itself
    · intro o ho
      have ho' : o ∈ (s.shim.startClosing mgr c).closing := ho
      rw [hclosing] at ho'
      rcases List.mem_append.1 ho' with ho' | ho'
      · exact .inl ho'
      · obtain rfl := List.mem_singleton.1 ho'
        exact .inr ⟨hown, hfade, hhold⟩
  -- without a capture nothing starts
  · rw [hsame]
    exact ⟨fun last hlast => hlast, fun c hc => .inl hc⟩

/-- Ticks only drop closing covers. -/
theorem pumpTick_spec (s : Shim) (mgr : Screenshare) (animating : Bool) (now : Instant) :
    (s.pumpTick mgr animating now).lastCovers = s.lastCovers
      ∧ (∀ c ∈ (s.pumpTick mgr animating now).closing, c ∈ s.closing)
      ∧ ∀ c ∈ s.closing, mgr.beingCaptured c.mon = true → c.holdUntil = none →
        c ∈ (s.pumpTick mgr animating now).closing := by
  unfold Shim.pumpTick
  split_ifs with hpump hany
  · exact ⟨rfl, fun c hc => hc, fun c hc _ _ => hc⟩
  · refine ⟨rfl, fun c hc => (List.mem_filter.1 hc).1, fun c hc hcap hhold => ?_⟩
    exact List.mem_filter.2 ⟨hc, by simp [keepClosing, hcap, hhold]⟩
  · refine ⟨rfl, List.forall_mem_nil _, fun c hc hcap _ => absurd ?_ hany⟩
    simp only [Bool.or_eq_true, List.any_eq_true]
    exact .inr ⟨c, hc, hcap⟩

/-- A closing cover that starts for the surface is its own. -/
theorem own_of_closing? {e : ShimEvent} {now : Instant} {p : Screenshare × Closing}
    (hknows : x.Knows e) (hp : e.closing? now = some p) : x.Own p.2 := by
  intro hk
  cases e with
  | windowClose d mgr w =>
    obtain ⟨-, hp⟩ := Option.ite_none_right_eq_some.1 hp
    obtain ⟨mon, hmon, rfl⟩ := Option.map_eq_some_iff.1 hp
    obtain ⟨hkind, hrules, hmon'⟩ := hknows hk
    exact ⟨Option.some.inj (hmon.symm.trans hmon'), hkind.symm, hrules⟩
  | layerClose d mgr l =>
    obtain ⟨-, hp⟩ := Option.ite_none_right_eq_some.1 hp
    obtain ⟨mon, hmon, rfl⟩ := Option.map_eq_some_iff.1 hp
    obtain ⟨hkind, hrules, hmon'⟩ := hknows hk
    exact ⟨Option.some.inj (hmon.symm.trans hmon'), hkind.symm, hrules⟩
  | _ => cases hp

/-- The close of the surface starts its closing cover. -/
theorem closing?_of_closes {e : ShimEvent} (hknows : x.Knows e) (hcloses : x.Closes e)
    (now : Instant) : ∃ p, e.closing? now = some p ∧ p.2.owner = x.key := by
  cases e with
  | windowClose d mgr w =>
    obtain ⟨-, -, hmon⟩ := hknows hcloses.1
    exact ⟨(mgr, w.closing x.mon now), by simp [ShimEvent.closing?, hcloses.2, hmon], hcloses.1⟩
  | layerClose d mgr l =>
    obtain ⟨-, -, hmon⟩ := hknows hcloses.1
    exact ⟨(mgr, l.closing x.mon now), by simp [ShimEvent.closing?, hcloses.2, hmon], hcloses.1⟩
  | _ => exact absurd hcloses id

/-- A careful close of the surface comes while its monitor is captured, or finds its cover. -/
theorem careful_of_closing? {e : ShimEvent} {now : Instant} {p : Screenshare × Closing}
    (hcareful : x.Careful s e) (hp : e.closing? now = some p) (hk : p.2.owner = x.key) :
    p.1.beingCaptured x.mon = true ∨ x.Kept s := by
  cases e with
  | windowClose d mgr w =>
    obtain ⟨-, hp⟩ := Option.ite_none_right_eq_some.1 hp
    obtain ⟨mon, -, rfl⟩ := Option.map_eq_some_iff.1 hp
    exact hcareful hk
  | layerClose d mgr l =>
    obtain ⟨-, hp⟩ := Option.ite_none_right_eq_some.1 hp
    obtain ⟨mon, -, rfl⟩ := Option.map_eq_some_iff.1 hp
    exact hcareful hk
  | _ => cases hp

/-- Events that are not frames leave the surface's cover what it is. -/
theorem untouched_step (s : World) (e : ShimEvent) (he : ∀ fr, e ≠ .frame fr) (hknows : x.Knows e) :
    Untouched x s (s.step e).1 := by
  have hrefl : Untouched x s s := ⟨fun last hlast => hlast, fun c hc => .inl hc⟩
  -- a tick only drops covers, and a close starts at most one
  cases e with
  | frame fr => exact absurd rfl (he fr)
  | wait d => exact ⟨fun last hlast => hlast, fun c hc => .inl hc⟩
  | tick mgr animating =>
    obtain ⟨hentry, hsub, -⟩ := pumpTick_spec s.shim mgr animating s.now
    refine ⟨fun last hlast => ?_, fun c hc => .inl (hsub c hc)⟩
    have hlook : (s.shim.pumpTick mgr animating s.now).lastCovers.lookup x.key = some last := hlast
    rwa [hentry] at hlook
  | _ =>
    rw [World.step_close s rfl]
    cases hclose : ShimEvent.closing? s.now _ with
    | none => exact hrefl
    | some p =>
      obtain ⟨hfade, hhold⟩ := ShimEvent.closing?_spec hclose
      exact untouched_startClosing s p.1 (own_of_closing? hknows hclose) hfade hhold

/-- Close events keep the surface's cover, and the surface's own one starts it. -/
theorem kept_startClosing (mgr : Screenshare) {c : Closing} (hfade : c.fade = none)
    (hhold : c.holdUntil = none)
    (h : c.owner = x.key ∧ mgr.beingCaptured c.mon = true ∨ x.Kept s) :
    x.Kept { s with shim := s.shim.startClosing mgr c } := by
  rcases startClosing_spec s.shim mgr c with ⟨-, hclosing, hentry⟩ | ⟨hcap, hsame⟩
  -- the cover that starts is the surface's own, or it was kept before
  · by_cases hk : c.owner = x.key
    · refine .inr ⟨c, ?_, hk, hhold, .inr hfade⟩
      change c ∈ (s.shim.startClosing mgr c).closing
      rw [hclosing]
      exact List.mem_append_right _ (List.mem_singleton_self c)
    · rcases h.resolve_left fun h => hk h.1 with hsome | ⟨o, ho, hunheld⟩
      · left
        change ((s.shim.startClosing mgr c).lastCovers.lookup x.key).isSome = true
        rw [hentry, AList.lookup_erase_ne (Ne.symm hk)]
        exact hsome
      · refine .inr ⟨o, ?_, hunheld⟩
        change o ∈ (s.shim.startClosing mgr c).closing
        rw [hclosing]
        exact List.mem_append_left _ ho
  -- the monitor is not captured: then it was kept before
  · rw [hsame]
    exact h.resolve_left (by simp [hcap])

/-- The surface closes, or another careful event finds its cover in one of the two places: then it
is in one of them afterwards. -/
theorem kept_step {e : ShimEvent} (he : ∀ fr, e ≠ .frame fr) (hown : ∀ c ∈ s.shim.closing, x.Own c)
    (hknows : x.Knows e) (hcareful : x.Careful s e) (h : x.Closes e ∨ x.Kept s) :
    x.Kept (s.step e).1 := by
  cases e with
  | frame fr => exact absurd rfl (he fr)
  | wait d => exact h.resolve_left id
  | tick mgr animating =>
    obtain ⟨hentry, -, hkeep⟩ := pumpTick_spec s.shim mgr animating s.now
    have hsome : (s.entry x.key).isSome = true →
        x.Kept { s with shim := s.shim.pumpTick mgr animating s.now } := by
      intro hsome
      left
      change ((s.shim.pumpTick mgr animating s.now).lastCovers.lookup x.key).isSome = true
      rwa [hentry]
    -- a tick leaves the entries, and the covers without a hold while their monitor is captured
    rcases h.resolve_left id with h | ⟨c, hc, hunheld⟩
    · exact hsome h
    · rcases hcareful with hcap | hcareful
      · refine .inr ⟨c, hkeep c hc ?_ hunheld.2.1, hunheld⟩
        rwa [(hown c hc hunheld.1).1]
      · exact hsome (hcareful ⟨c, hc, hunheld⟩)
  | _ =>
    rw [World.step_close s rfl]
    cases hclose : ShimEvent.closing? s.now _ with
    | none =>
      refine h.resolve_left fun hcloses => ?_
      obtain ⟨p, hp, -⟩ := closing?_of_closes hknows hcloses s.now
      cases hclose.symm.trans hp
    | some p =>
      obtain ⟨hfade, hhold⟩ := ShimEvent.closing?_spec hclose
      refine kept_startClosing p.1 hfade hhold ?_
      -- either this is the close of the surface, or another surface closes
      by_cases hk : p.2.owner = x.key
      · rw [(own_of_closing? hknows hclose hk).1]
        exact (careful_of_closing? hcareful hclose hk).imp_left fun hcap => ⟨hk, hcap⟩
      · refine .inr (h.resolve_left fun hcloses => ?_)
        obtain ⟨p', hp', hk'⟩ := closing?_of_closes hknows hcloses s.now
        exact hk (Option.some.inj (hclose.symm.trans hp') ▸ hk')

/-- One event before the surface closes. -/
theorem open_step {e : ShimEvent} (hknows : x.Knows e)
    (hbefore : ∀ fr, e = .frame fr → x.Before fr.desktop) (h : x.Open s) :
    x.Open (s.step e).1 := by
  by_cases hframe : ∃ fr, e = .frame fr
  · obtain ⟨fr, rfl⟩ := hframe
    exact open_frame hknows.1 hknows.2 (hbefore fr rfl) h
  · obtain ⟨hentry, hclosing⟩ := untouched_step s e (fun fr he => hframe ⟨fr, he⟩) hknows
    refine ⟨fun last hlast => h.entry last (hentry last hlast), fun c hc => ?_⟩
    rcases hclosing c hc with hold | ⟨hown, hfade, -⟩
    · exact h.closing c hold
    · exact ⟨hown, by simp [hfade]⟩

/-- An event that is not a frame, after the surface closed or as it closes. -/
theorem covered_step {e : ShimEvent} (he : ∀ fr, e ≠ .frame fr) (hknows : x.Knows e)
    (hcareful : x.Careful s e) (hentry : x.OwnEntry s)
    (hclosing : ∀ c ∈ s.shim.closing, x.Own c ∧ x.Bound c) (h : x.Closes e ∨ x.Kept s) :
    x.Covered (s.step e).1 := by
  obtain ⟨hentry', hclosing'⟩ := untouched_step s e he hknows
  refine ⟨fun last hlast => hentry last (hentry' last hlast), fun c hc => ?_,
    kept_step he (fun c hc => (hclosing c hc).1) hknows hcareful h⟩
  rcases hclosing' c hc with hold | ⟨hown, hfade, -⟩
  · exact hclosing c hold
  · refine ⟨hown, fun hfade' => ?_⟩
    rw [hfade] at hfade'
    cases hfade'

/-- What is in one of the two places can be found by a frame that does not come too late. -/
theorem findable_of_kept {fr : CaptureFrame} (hkept : x.Kept s)
    (hcareful : x.Late s fr → x.Findable s fr) : x.Findable s fr := by
  rcases hkept with hsome | ⟨c, hc, howner, hhold, hfade⟩
  · obtain ⟨last, hlast⟩ := Option.isSome_iff_exists.1 hsome
    by_cases hfresh : s.now < last.at_ + staleCover
    · exact .inl ⟨last, hlast, fun _ => .inl hfresh⟩
    · by_cases hbefore : x.Before fr.desktop
      · exact hcareful (.inr ⟨last, hlast, not_lt.1 hfresh, hbefore⟩)
      · exact .inl ⟨last, hlast, fun h => absurd h hbefore⟩
  · by_cases hnow : s.now < c.bindUntil
    · exact .inr ⟨c, hc, howner, hhold, hfade.imp_right fun hnone => ⟨hnone, hnow⟩⟩
    · rcases hfade with hfade | hnone
      · exact .inr ⟨c, hc, howner, hhold, .inl hfade⟩
      · exact hcareful (.inl ⟨c, hc, howner, hhold, hnone, not_lt.1 hnow⟩)

/-- What is assumed of an event after the surface closed: its frames find the surface gone, and what
they look for a fade-out for finds its own. -/
def ClosedSurface.After (x : ClosedSurface) (s : World) (e : ShimEvent) : Prop :=
  x.Knows e ∧ ∀ fr, e = .frame fr → x.Gone fr
    ∧ ∀ q ∈ s.shim.searches fr (s.shim.paintInput fr s.now), x.Picks fr.desktop fr.mon.id q.1 q.2

theorem ClosedSurface.After.wait (n : ℕ) : x.After s (.wait n) :=
  ⟨trivial, fun fr hfr => by cases hfr⟩

theorem ClosedSurface.After.tick (mgr : Screenshare) (animating : Bool) :
    x.After s (.tick mgr animating) :=
  ⟨trivial, fun fr hfr => by cases hfr⟩

/-- One event after the surface closed.  A closing cover follows the fade-out only after a frame that
found it there. -/
theorem after_step {e : ShimEvent} (hafter : x.After s e) (hcareful : x.Careful s e)
    (hthere : (∃ c ∈ s.shim.closing, c.fade = some x.fade) →
      ∀ fr, e = .frame fr → ¬ x.Before fr.desktop) (h : x.Covered s) :
    x.Covered (s.step e).1
      ∧ ((∃ c ∈ (s.step e).1.shim.closing, c.fade = some x.fade) →
        (∃ c ∈ s.shim.closing, c.fade = some x.fade) ∨ ∃ fr, e = .frame fr ∧ ¬ x.Before fr.desktop) := by
  obtain ⟨hknows, hframes⟩ := hafter
  by_cases hframe : ∃ fr, e = .frame fr
  · obtain ⟨fr, rfl⟩ := hframe
    obtain ⟨hgone, hpicks⟩ := hframes fr rfl
    have hfind := findable_of_kept h.kept hcareful
    by_cases hbefore : x.Before fr.desktop
    · have hunbound : ∀ c ∈ s.shim.closing, c.fade ≠ some x.fade := fun c hc hfade =>
        hthere ⟨c, hc, hfade⟩ fr rfl hbefore
      obtain ⟨hcovered, hstill⟩ :=
        waiting_frame hknows.1 hknows.2 hgone hpicks hbefore h hunbound hfind
      exact ⟨hcovered, fun ⟨c, hc, hfade⟩ => absurd hfade (hstill c hc)⟩
    · obtain ⟨f, hf, hid⟩ : ∃ f ∈ fr.desktop.fadeouts, f.id = x.fade := by
        simpa [ClosedSurface.Before] using hbefore
      have hrun := hgone.fades f hf (.inl hid)
      exact ⟨(covered_frame hknows.1 hknows.2 hgone hpicks hrun h hfind).1,
        fun _ => .inr ⟨fr, rfl, hbefore⟩⟩
  · have hother : ∀ fr, e ≠ .frame fr := fun fr he => hframe ⟨fr, he⟩
    -- every other step leaves the covers as they were
    refine ⟨covered_step hother hknows hcareful h.entry h.closing (.inr h.kept), ?_⟩
    -- none of them binds a cover to a fade-out
    rintro ⟨c, hc, hfade⟩
    rcases (untouched_step s e hother hknows).closing c hc with hold | ⟨-, hnone, -⟩
    · exact .inl ⟨c, hold, hfade⟩
    · rw [hfade] at hnone
      cases hnone

/-- The events after the surface closed. -/
theorem after_run {es : List ShimEvent} (hlife : es.Pairwise x.GoesOn)
    (hafter : Admits World.step x.After s es) (hcareful : Admits World.step x.Careful s es)
    (hthere : (∃ c ∈ s.shim.closing, c.fade = some x.fade) →
      ∀ e ∈ es, ∀ fr, e = .frame fr → ¬ x.Before fr.desktop)
    (h : x.Covered s) : x.Covered (run World.step s es) := by
  induction es generalizing s with
  | nil => exact h
  | cons e es ih =>
    obtain ⟨hgoes, hlife⟩ := List.pairwise_cons.1 hlife
    obtain ⟨hcovered, hbound⟩ := after_step hafter.1 hcareful.1
      (fun hex => hthere hex e (List.mem_cons_self ..)) h
    refine ih hlife hafter.2 hcareful.2 (fun hex e' he' fr' hfr' => ?_) hcovered
    -- the fade-out that a cover follows was there before, or this frame found it
    rcases hbound hex with hold | ⟨fr, hfr, hfound⟩
    · exact hthere hold e' (List.mem_cons_of_mem e he') fr' hfr'
    · exact hgoes e' he' fr fr' hfr hfr' hfound

/-- **A closing cover is kept while the fade-out runs**: let a hidden surface close in a run, and
let no step from then on lose its cover.  Then every frame during its fade-out, for a client that
does not see the surface, has the cover over the fade-out's current box. -/
theorem closing_cover_kept (x : ClosedSurface) (before after : List ShimEvent) (close : ShimEvent)
    (fr : CaptureFrame) (f : Fadeout)
    (hbefore : ∀ e ∈ before, x.Knows e ∧ ∀ fr, e = .frame fr → x.Before fr.desktop)
    (hclose : x.Closes close ∧ x.Knows close)
    (hafter : Admits World.step x.After (run World.step World.init (before ++ [close]))
      (after ++ [.frame fr]))
    (hlife : after.Pairwise x.GoesOn)
    (hcareful : Admits World.step x.Careful (run World.step World.init before)
      (close :: (after ++ [.frame fr])))
    (hf : x.Running fr.desktop f) (hsees : ∀ r ∈ x.rules, fr.client.sees r = false) :
    FadeCovered x fr f
      ((run World.step World.init (before ++ close :: after)).step (.frame fr)).2 := by
  set s₀ := run World.step World.init before with hs₀
  have hopen : x.Open s₀ := by
    have hinit : x.Open World.init :=
      ⟨fun last hlast => by simp [World.init, World.entry, Shim.init] at hlast,
        List.forall_mem_nil _⟩
    refine Admits.invariant (I := x.Open) (P := fun _ e => x.Knows e
      ∧ ∀ fr, e = .frame fr → x.Before fr.desktop) ?_ hinit (admits_of_forall fun _ => hbefore)
    exact fun s e hs he => open_step he.1 he.2 hs
  have hnotFrame : ∀ fr', close ≠ .frame fr' := by
    rintro fr' rfl
    exact hclose.1
  have hclosed : x.Covered (s₀.step close).1 :=
    covered_step hnotFrame hclose.2 hcareful.1 hopen.entry
      (fun c hc => ⟨(hopen.closing c hc).1, fun hfade => absurd hfade (hopen.closing c hc).2⟩)
      (.inl hclose.1)
  -- no cover follows the fade-out when the surface has just closed
  have hunbound : ¬ ∃ c ∈ (s₀.step close).1.shim.closing, c.fade = some x.fade := by
    rintro ⟨c, hc, hfade⟩
    rcases (untouched_step s₀ close hnotFrame hclose.2).closing c hc with hold | ⟨-, hnone, -⟩
    · exact (hopen.closing c hold).2 hfade
    · rw [hfade] at hnone
      cases hnone
  rw [run_append, run_cons, run_nil] at hafter
  obtain ⟨hafter, ⟨⟨⟨hm, hshown⟩, hframe⟩, -⟩⟩ := (admits_append _ _ _).1 hafter
  obtain ⟨hcareful, ⟨hlate, -⟩⟩ := (admits_append _ _ _).1 hcareful.2
  have hcovered : x.Covered (run World.step (s₀.step close).1 after) :=
    after_run hlife hafter hcareful (fun hex => absurd hex hunbound) hclosed
  obtain ⟨hgone, hpicks⟩ := hframe fr rfl
  rw [run_append, run_cons]
  exact (covered_frame hm hshown hgone hpicks hf hcovered
    (findable_of_kept hcovered.kept hlate)).2 hsees

end Run

/-! ### A screenshot, a close, another screenshot -/

def exampleFade : Fadeout :=
  { id := 7, source := 1, plane := .windowTiled, monitor := some 0, done := false
    box := { x := 0, y := 0, w := 100, h := 100 } }

/-- The window closed, and its fade-out is running. -/
def exampleFading : CaptureFrame :=
  { exampleFrame "/bin/portal" true with
    desktop :=
      { windows := [], layers := [], fadeouts := [exampleFade], monitors := [0]
        vars := fun _ => { top := none, lower := [] }, nodup := by simp }
    mon_mem := exampleMonitor_mem }

def exampleClosed : ClosedSurface :=
  { key := 1, mon := 0, isLayer := false, rules := {exampleRules}, fade := 7 }

/-- A session that counts as sharing for half a second after its last frame. -/
def exampleSharing : Screenshare :=
  { sessions := [{ stopped := false, ofMonitor := true, monitor := 0, sharing := true }]
    pending := [] }

def exampleIdle : Screenshare := { sessions := [], pending := [] }

theorem exampleFade_running : exampleClosed.Running exampleFading.desktop exampleFade := by
  refine ⟨List.mem_singleton_self _, rfl, rfl, rfl, rfl, rfl, ?_, ?_⟩
  · exact fun f' hf' _ => List.mem_singleton.1 hf'
  · exact fun f' hf' _ => List.mem_singleton.1 hf'

/-- The only fade-out is picked by the cover of the surface that it was made for. -/
theorem exampleFade_picks {c : Closing} (closing : List Closing) (howner : c.owner = 1)
    (hbox : c.box = exampleFade.box) :
    exampleClosed.Picks exampleFading.desktop exampleFading.mon.id closing c := by
  refine ⟨fun _ => ?_, fun hother => absurd howner hother⟩
  have hfades : exampleFading.desktop.fadeouts = [exampleFade] := rfl
  have hnear : distSq exampleFade.box.middle exampleFade.box.middle
      ≤ (max exampleFade.box.w exampleFade.box.h) ^ 2 := by decide +kernel
  have hreach : ¬ max exampleFade.box.w exampleFade.box.h < 0 := by decide +kernel
  have hsource : exampleFade.source = 1 := rfl
  unfold findFadeFor ownFade
  rw [hfades, hbox, howner]
  simp only [hreach, if_false, List.foldl_cons, List.foldl_nil, nearerFade, hbox, hnear,
    decide_true, Bool.and_true, hsource, List.find?_cons, List.find?_nil]
  cases fadeFits closing c exampleFading.mon.id exampleFade <;> rfl

/-- The frame finds the surface gone, and its own fade-out. -/
theorem exampleClosed_after {s : World}
    (h : ∀ q ∈ s.shim.searches exampleFading (s.shim.paintInput exampleFading s.now),
      q.2.owner = 1 ∧ q.2.box = exampleFade.box) :
    exampleClosed.After s (.frame exampleFading) := by
  refine ⟨⟨rfl, List.forall_mem_nil _, List.forall_mem_nil _⟩, ?_⟩
  rintro fr ⟨⟩
  refine ⟨⟨rfl, rfl, fun g hg => (by cases hg), fun f hf _ => ?_⟩, fun q hq => ?_⟩
  · rw [List.mem_singleton.1 hf]
    exact exampleFade_running
  · exact exampleFade_picks q.1 (h q hq).1 (h q hq).2

/-- The window closes 450 ms after a screenshot, while the session still counts as sharing.  The
next tick of the pump finds nothing captured and drops the closing cover, and a screenshot 40 ms
later shows the fade-out. -/
theorem idle_tick_drops_closing_cover :
    let before : List ShimEvent := [.frame (exampleFrame "/bin/portal" true), .wait 450000000]
    let close : ShimEvent := .windowClose (exampleDesktop true) exampleSharing exampleWindow
    let after : List ShimEvent := [.wait 100000000, .tick exampleIdle false, .wait 40000000]
    coversSurface (World.init.step (.frame (exampleFrame "/bin/portal" true))).2 1 = true
      ∧ exampleClosed.Closes close
      ∧ Admits World.step exampleClosed.After (run World.step World.init (before ++ [close]))
        (after ++ [.frame exampleFading])
      ∧ exampleClosed.Running exampleFading.desktop exampleFade
      ∧ (∀ r ∈ exampleClosed.rules, exampleFading.client.sees r = false)
      ∧ ¬ FadeCovered exampleClosed exampleFading exampleFade
        ((run World.step World.init (before ++ close :: after)).step (.frame exampleFading)).2 := by
  intro before close after
  -- the frame draws nothing, although the fade-out is on screen
  have hops : ((run World.step World.init (before ++ close :: after)).step
      (.frame exampleFading)).2 = [] := by decide +kernel
  have hbox : ¬ (captureBox exampleMonitor 0 (atLeast5 exampleFade.box)).w < 1
      ∧ ¬ (captureBox exampleMonitor 0 (atLeast5 exampleFade.box)).h < 1 := by decide +kernel
  refine ⟨by decide +kernel, ⟨rfl, rfl⟩, ⟨.wait _, .tick _ _, .wait _,
    exampleClosed_after (by decide +kernel), trivial⟩, exampleFade_running, ?_, ?_⟩
  · rintro r rfl
    decide +kernel
  · rw [hops]
    rintro (⟨op, hop, -⟩ | hop | hsmall)
    · cases hop
    · cases hop
    · exact hsmall.elim hbox.1 hbox.2

/-- While the session still counts as sharing, the next screenshot has the cover. -/
theorem screenshot_during_fade_covered :
    FadeCovered exampleClosed exampleFading exampleFade
      ((run World.step World.init
        [.frame (exampleFrame "/bin/portal" true), .wait 450000000,
          .windowClose (exampleDesktop true) exampleSharing exampleWindow,
          .wait 100000000]).step (.frame exampleFading)).2 := by
  have hclose : exampleClosed.Closes
      (.windowClose (exampleDesktop true) exampleSharing exampleWindow) := ⟨rfl, rfl⟩
  refine closing_cover_kept exampleClosed
    [.frame (exampleFrame "/bin/portal" true), .wait 450000000] [.wait 100000000]
    (.windowClose (exampleDesktop true) exampleSharing exampleWindow) exampleFading exampleFade ?_
    ⟨hclose, fun _ => ⟨rfl, rfl, rfl⟩⟩ ?_ (List.pairwise_singleton _ _) ?_ exampleFade_running ?_
  -- one goal for each hypothesis on the run
  · intro e he
    simp only [List.mem_cons, List.not_mem_nil, or_false] at he
    rcases he with rfl | rfl
    · refine ⟨⟨rfl, ?_, ?_⟩, ?_⟩
      · intro w hw _
        obtain rfl : w = exampleWindow := List.mem_singleton.1 hw
        exact ⟨rfl, rfl⟩
      · exact List.forall_mem_nil _
      · rintro fr ⟨⟩
        exact List.forall_mem_nil _
    · exact ⟨trivial, fun fr hfr => by cases hfr⟩
  · exact ⟨.wait _, exampleClosed_after (by decide +kernel), trivial⟩
  -- the cover lives at the wait that is left
  · refine ⟨fun _ => .inl (by decide +kernel), trivial, fun _ => .inr ?_, trivial⟩
    unfold ClosedSurface.Live
    decide +kernel
  · rintro r rfl
    decide +kernel

end NoshareCover
