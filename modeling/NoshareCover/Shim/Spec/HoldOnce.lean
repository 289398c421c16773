import NoshareCover.Shim.Spec.Draws
import NoshareCover.Shim.Spec.Hold

/-!
# A hold ends

While a surface is held its variable is true, so the frame covers it as it covers a hidden one.  It
leaves the entry alone, though, and `hold_never_extends` says what follows from that: a held cover
is up for the hold after the last frame that covered the hidden surface, with the rules of that
frame, however many frames held it in between.
-/

namespace NoshareCover

open Machine

/-- When a frame covers the surface because it is hidden, and with which rules. -/
def hiddenAt (k : Key) (s : World) : ShimEvent → Option (Instant × RuleValues)
  | .frame fr => (fr.sight? k).bind fun g =>
      if g.hidden && !fr.client.sees g.rules && g.onScreen.isSome then some (s.now, g.rules)
      else none
  | _ => none

/-- The last frame of the run that covered the surface because it was hidden: its time, and the
rules that the surface had. -/
def lastHidden (k : Key) : World → List ShimEvent → Option (Instant × RuleValues)
  | _, [] => none
  | s, e :: es => (lastHidden k (s.step e).1 es).or (hiddenAt k s e)

section Run

variable {k : Key}

/-- What is remembered of a surface is when and with which rules it was covered while hidden, here
before the run or else in its last such frame. -/
def Remembers (entry : Option LastCover) (last : Option (Instant × RuleValues)) : Prop :=
  ∀ e, entry = some e → last = some (e.at_, e.rules)

/-- One frame: an entry that is written is that of a hidden surface. -/
theorem remembers_frame (fr : CaptureFrame) (s : World) {last : Option (Instant × RuleValues)}
    (h : Remembers (s.entry k) last) :
    Remembers ((s.step (.frame fr)).1.entry k) ((hiddenAt k s (.frame fr)).or last) := by
  intro e he
  rw [World.entry_frame, entryStep] at he
  cases hsight : fr.sight? k with
  | none =>
    rw [hsight] at he
    have hold := h e (Option.mem_filter_iff.1 he).1
    rw [hiddenAt, hsight]
    exact hold
  | some g =>
    rw [hsight] at he
    have hentry := (Option.mem_filter_iff.1 he).1
    have hhidden : hiddenAt k s (.frame fr)
        = if g.hidden && !fr.client.sees g.rules && g.onScreen.isSome then some (s.now, g.rules)
          else none := by
      rw [hiddenAt, hsight]
      rfl
    -- a surface that is held is not hidden
    have hwritten : (g.covered fr s.now (s.entry k) && !g.held fr s.now (s.entry k))
        = (g.hidden && !fr.client.sees g.rules && g.onScreen.isSome) := by
      unfold Sight.covered Sight.shut Sight.held
      cases g.hidden with
      | true => simp
      | false =>
        simp only [Bool.false_and, Bool.false_or, Bool.not_false, Bool.and_true]
        rw [Bool.and_assoc, Bool.and_left_comm, Bool.and_not_self, Bool.and_false]
    rw [hwritten] at hentry
    rw [hhidden]
    -- a frame that writes the entry is the last one so far, and any other leaves what was there
    by_cases hcov : (g.hidden && !fr.client.sees g.rules && g.onScreen.isSome) = true
    · rw [if_pos hcov] at hentry
      rw [if_pos hcov]
      obtain ⟨f, hf, rfl⟩ := Option.map_eq_some_iff.1 hentry
      obtain ⟨-, hrules, hat⟩ := CaptureFrame.onScreen_spec hsight hf g.rules s.now
      rw [hrules, hat]
      rfl
    · rw [if_neg hcov] at hentry
      rw [if_neg hcov]
      exact h e hentry

theorem remembers_step (e : ShimEvent) (s : World) {last : Option (Instant × RuleValues)}
    (h : Remembers (s.entry k) last) :
    Remembers ((s.step e).1.entry k) ((hiddenAt k s e).or last) := by
  by_cases hframe : ∃ fr, e = .frame fr
  · obtain ⟨fr, rfl⟩ := hframe
    exact remembers_frame fr s h
  · have hne : ∀ fr, e ≠ .frame fr := fun fr he => hframe ⟨fr, he⟩
    have hhidden : hiddenAt k s e = none := by
      cases e with
      | frame fr => exact absurd rfl (hne fr)
      | _ => rfl
    intro last' hlast'
    rw [World.entry_step s e k hne] at hlast'
    rw [hhidden]
    split_ifs at hlast'
    exact h last' hlast'

theorem remembers_run :
    ∀ (es : List ShimEvent) (s : World) (last : Option (Instant × RuleValues)),
      Remembers (s.entry k) last →
        Remembers ((run World.step s es).entry k) ((lastHidden k s es).or last)
  | [], _, _, h => h
  | e :: es, s, last, h => by
    rw [run_cons, lastHidden, Option.or_assoc]
    exact remembers_run es (s.step e).1 _ (remembers_step e s h)

end Run

/-! ### Held covers -/

section Held

variable {k : Key} {fr : CaptureFrame}

/-- The frame that holds a surface has it among the held ones. -/
theorem isHeld_of_held {s : World} {g : Sight} (hsight : fr.sight? k = some g)
    (hheld : g.held fr s.now (s.entry k) = true) : s.shim.IsHeld fr s.now k := by
  rcases fr.finds k with ⟨sf, g', hsf, rfl, hruled, hsight', hhidden, -, hpresent, -⟩ |
    ⟨hsight', -, -⟩
  · obtain rfl : g' = g := Option.some.inj (hsight'.symm.trans hsight)
    rw [Shim.isHeld_iff_held? s.shim s.now hsf, Shim.held?_isSome s.shim s.now hsf]
    unfold Sight.held at hheld
    simp only [Bool.and_eq_true, Bool.not_eq_true', Option.any_eq_true] at hheld
    obtain ⟨⟨hthere, hopen⟩, last, hlast, hholds⟩ := hheld
    exact ⟨⟨hruled, hpresent ▸ hthere⟩, hhidden ▸ hopen, last, hlast, hholds⟩
  · exact absurd (hsight.symm.trans hsight') (Option.some_ne_none g)

/-- The covers of a held surface have the rules that it had while hidden. -/
theorem rules_of_held {s : World} {last : LastCover} (hentry : s.entry k = some last)
    (hheld : s.shim.IsHeld fr s.now k) {op : CoverOp} (hop : .cover op ∈ (s.step (.frame fr)).2)
    (hsubject : op.subject = .window k ∨ op.subject = .layer k) : op.rules = last.rules := by
  have hsaved : k ∈ (s.shim.prepare fr s.now).heldSaved.map Override.Saved.key := by
    have hsome : ((heldOf s.shim (s.shim.prepare fr s.now).heldSaved).lookup k).isSome = true := by
      rw [List.lookup_isSome_iff]
      obtain ⟨e, he, hk⟩ := List.mem_map.1 hheld
      exact ⟨e, he, beq_iff_eq.2 hk.symm⟩
    -- a held surface that was not saved would have no rules to look up
    by_contra hnot
    rw [lookup_heldOf, if_neg hnot] at hsome
    exact absurd hsome (by simp)
  have hrules : ∀ rules, (s.shim.paintInput fr s.now).rulesOf k rules = last.rules := by
    have hlook : (s.shim.paintInput fr s.now).held.lookup k = some last.rules := by
      show (heldOf s.shim (s.shim.prepare fr s.now).heldSaved).lookup k = _
      rw [lookup_heldOf, if_pos hsaved]
      exact congrArg (Option.map LastCover.rules) hentry
    intro rules
    rw [PaintInput.rulesOf, ruleValuesFor, hlook]
    rfl
  have hpainted : PaintOp.cover op ∈ (s.shim.paintCovers fr (s.shim.paintInput fr s.now)).2 := by
    rw [← (render_eq_paintCovers s.shim fr s.now).2]
    exact hop
  -- a closing cover has another subject
  rcases cover_mem_cases s.shim hpainted with ⟨v, hv, rules, hvrules, -, -, rfl⟩ | ⟨l, -, -, rfl⟩ |
    ⟨owner, howner, -⟩
  · have hk : v.w.key = k := hsubject.elim Subject.window.inj (by simp [Visible.coverOp])
    rw [(rules_of_visible hv).1, hk] at hvrules
    split_ifs at hvrules
    exact (Option.some.inj hvrules).symm.trans (hrules v.w.rules)
  · have hk : l.key = k := hsubject.elim (by simp [Layer.coverOp]) Subject.layer.inj
    show (s.shim.paintInput fr s.now).rulesOf l.key l.rules = last.rules
    rw [hk]
    exact hrules l.rules
  · rw [howner] at hsubject
    exact absurd hsubject (by simp)

end Held

/-- **A hold never extends itself**: a frame that covers a surface which is not hidden from its
client comes less than the hold after the last frame that covered the hidden surface, and uses the
rules of that frame. -/
theorem hold_never_extends (es : List ShimEvent) (fr : CaptureFrame) (k : Key)
    (hnever : fr.NeverHides k)
    (hcovers : coversSurface ((run World.step World.init es).step (.frame fr)).2 k = true) :
    ∃ T r, lastHidden k World.init es = some (T, r)
      ∧ (run World.step World.init es).now < T + holdFor fr.cfg r
      ∧ ∀ op, .cover op ∈ ((run World.step World.init es).step (.frame fr)).2 →
        op.subject = .window k ∨ op.subject = .layer k → op.rules = r := by
  -- the entry remembers the last frame that hid the surface
  have hremembers := remembers_run es World.init none (k := k) fun e he => by
    exact absurd he (Option.some_ne_none e).symm
  set s := run World.step World.init es with hs
  rw [World.covers_frame, entryStep] at hcovers
  cases hsight : fr.sight? k with
  | none =>
    rw [hsight] at hcovers
    exact absurd hcovers Bool.false_ne_true
  -- seen, and never hidden by this frame, so covered because it is held
  | some g =>
    rw [hsight] at hcovers
    have hheld : g.held fr s.now (s.entry k) = true := by
      have hcov : g.covered fr s.now (s.entry k) = true := hcovers
      rw [covered_eq_held s.now hsight hnever, Bool.and_eq_true] at hcov
      exact hcov.1
    -- held means that there is an entry, which is younger than its hold
    have hany := hheld
    unfold Sight.held at hany
    rw [Bool.and_eq_true, Option.any_eq_true] at hany
    obtain ⟨-, last, hentry, hholds⟩ := hany
    have hlast : lastHidden k World.init es = some (last.at_, last.rules) := by
      have hor := hremembers last hentry
      rwa [Option.or_none] at hor
    unfold LastCover.holds at hholds
    rw [Bool.and_eq_true, decide_eq_true_eq] at hholds
    -- the cover is drawn by the rules of that entry
    refine ⟨last.at_, last.rules, hlast, hholds.1, fun op hop hsubject => ?_⟩
    exact rules_of_held hentry (isHeld_of_held hsight hheld) hop hsubject

/-- The title changes after the first frame.  A frame in between holds the window, and one at 0.9 s
still covers it: less than a second after the first. -/
theorem held_frame_keeps_time :
    ∃ T r, lastHidden 1 World.init [.frame (exampleFrame "/bin/portal" true), .wait 500000000,
          .frame (exampleFrame "/bin/portal" false), .wait 400000000] = some (T, r)
      ∧ (run World.step World.init [.frame (exampleFrame "/bin/portal" true), .wait 500000000,
          .frame (exampleFrame "/bin/portal" false), .wait 400000000]).now
        < T + holdFor exampleConfig r
      ∧ ∀ op, .cover op ∈ ((run World.step World.init
          [.frame (exampleFrame "/bin/portal" true), .wait 500000000,
            .frame (exampleFrame "/bin/portal" false), .wait 400000000]).step
              (.frame (exampleFrame "/bin/portal" false))).2 →
        op.subject = .window 1 ∨ op.subject = .layer 1 → op.rules = r := by
  have hopen : (exampleFrame "/bin/portal" false).FindsOpen 1 :=
    ⟨exampleWindow.sight (exampleFrame "/bin/portal" false), rfl, rfl, rfl, by decide +kernel⟩
  exact hold_never_extends _ (exampleFrame "/bin/portal" false) 1 hopen.neverHides
    (by decide +kernel)

end NoshareCover
