import Mathlib.Data.Nat.Notation
import Mathlib.Logic.Relation
import Mathlib.Tactic.ByContra

/-!
# While loops whose body can fail

`While.run` goes through at most `fuel` rounds of a loop, and `While.runAll` also of the loops in its
body.  A loop in which every round makes progress, but for rounds that come back to where they were,
runs on for ever just if it gets to such a round, or to one that runs on for ever itself
(`While.endless_iff`).
-/

namespace While

variable {σ ε : Type*}

/-- The loop; `none` when it is still running after `fuel` rounds. -/
def run (cond : σ → Bool) (body : σ → Except ε σ) : ℕ → σ → Option (Except ε σ)
  | 0, _ => none
  | fuel + 1, s =>
    if cond s then
      match body s with
      | .error e => some (.error e)
      | .ok s' => run cond body fuel s'
    else some (.ok s)

variable {cond : σ → Bool} {body : σ → Except ε σ}

theorem run_of_not {s : σ} (h : cond s = false) (fuel : ℕ) :
    run cond body (fuel + 1) s = some (.ok s) := by
  rw [run, h]
  rfl

theorem run_of_ok {s s' : σ} (h : cond s = true) (hbody : body s = .ok s') (fuel : ℕ) :
    run cond body (fuel + 1) s = run cond body fuel s' := by
  rw [run, h, hbody]
  rfl

theorem run_of_error {s : σ} {e : ε} (h : cond s = true) (hbody : body s = .error e) (fuel : ℕ) :
    run cond body (fuel + 1) s = some (.error e) := by
  rw [run, h, hbody]
  rfl

/-! ### Loops in loops -/

section Nested

/-- A body with loops of its own, which take fuel as well: the error `none` says that one of them is
still running. -/
abbrev Nested (σ ε : Type*) := ℕ → σ → Except (Option ε) σ

/-- More fuel changes nothing once the loops in it have ended. -/
def Steady {β : Type*} (r : ℕ → Except (Option ε) β) : Prop :=
  ∀ n m, n ≤ m → r n ≠ .error none → r m = r n

/-- It is still running, whatever fuel it gets. -/
def Endless {β : Type*} (r : ℕ → Except (Option ε) β) : Prop := ∀ fuel, r fuel = .error none

/-- The loop, all of them for at most so many rounds. -/
def runAll (cond : σ → Bool) (body : Nested σ ε) (fuel : ℕ) (s : σ) : Except (Option ε) σ :=
  (run cond (body fuel) fuel s).getD (.error none)

/-! #### Steady steps -/

section Steady

universe u

variable {β γ : Type u}

theorem steady_const (r : Except (Option ε) β) : Steady fun _ => r := fun _ _ _ _ => rfl

theorem running_of_error {e : Option ε} {f : β → Except (Option ε) γ}
    (h : (.error e >>= f : Except (Option ε) γ) = .error none) : e = none := Except.error.inj h

/-- One step after the other. -/
theorem Steady.bind {r : ℕ → Except (Option ε) β} {f : ℕ → β → Except (Option ε) γ} (hr : Steady r)
    (hf : ∀ b, Steady fun n => f n b) : Steady fun n => r n >>= f n := by
  intro n m hnm h
  dsimp only at h ⊢
  have hmore := hr n m hnm
  rcases hres : r n with e | b
  · rw [hres] at h hmore
    have hend : (.error e : Except (Option ε) β) ≠ .error none := fun heq => by
      cases heq
      exact h rfl
    rw [hmore hend]
    rfl
  · rw [hres] at h hmore
    rw [hmore nofun]
    exact hf b n m hnm h

theorem Steady.map {r : ℕ → Except (Option ε) β} (f : β → γ) (hr : Steady r) :
    Steady fun n => f <$> r n := by
  have hbind := hr.bind (f := fun _ b => pure (f b)) fun _ => steady_const _
  simpa only [bind_pure_comp] using hbind

theorem endless_map {r : ℕ → Except (Option ε) β} {f : β → γ} :
    (Endless fun n => f <$> r n) ↔ Endless r := by
  refine forall_congr' fun n => ?_
  dsimp only
  rcases r n with e | b
  · constructor
    · intro h
      cases Except.error.inj h
      rfl
    · intro h
      cases Except.error.inj h
      rfl
  · exact ⟨nofun, nofun⟩

/-- A step without loops, in front of others. -/
theorem endless_bind {r : Except (Option ε) β} {f : ℕ → β → Except (Option ε) γ}
    (hr : r ≠ .error none) :
    (Endless fun n => r >>= f n) ↔ ∃ b, r = .ok b ∧ Endless fun n => f n b := by
  rcases r with e | b
  · constructor
    · intro h
      cases running_of_error (h 0)
      exact absurd rfl hr
    · exact nofun
  · exact ⟨fun h => ⟨b, rfl, h⟩, fun ⟨_, hb, h⟩ => by cases hb; exact h⟩

/-- A step without loops, behind others. -/
theorem endless_bind_last {r : ℕ → Except (Option ε) β} {f : β → Except (Option ε) γ}
    (hf : ∀ b, f b ≠ .error none) : (Endless fun n => r n >>= f) ↔ Endless r := by
  refine forall_congr' fun n => ?_
  dsimp only
  rcases r n with e | b
  · constructor
    · intro h
      cases running_of_error h
      rfl
    · intro h
      cases h
      rfl
  · exact ⟨fun h => absurd h (hf b), nofun⟩

end Steady

/-! #### Steady loops -/

variable {body : Nested σ ε}

/-- A loop that has ended is at its end with more rounds, too. -/
theorem run_more (hsteady : ∀ s, Steady fun n => body n s) {n m k l : ℕ} (hnm : n ≤ m) (hkl : k ≤ l)
    {s : σ} (h : (run cond (body n) k s).getD (.error none) ≠ .error none) :
    (run cond (body m) l s).getD (.error none) = (run cond (body n) k s).getD (.error none) := by
  -- by induction on the rounds, with more of them and more fuel in each
  induction k generalizing s l with
  | zero => exact absurd rfl h
  | succ k ih =>
    obtain ⟨l, rfl⟩ := Nat.exists_eq_add_one.2 (Nat.lt_of_lt_of_le k.succ_pos hkl)
    cases hcond : cond s with
    | false => rw [run_of_not hcond, run_of_not hcond]
    | true =>
      have hmore := hsteady s n m hnm
      -- an error that is not the lack of fuel stays with more fuel
      rcases hbody : body n s with e | s'
      · rw [run_of_error hcond hbody] at h ⊢
        dsimp only at hmore
        rw [hbody] at hmore
        rw [run_of_error hcond (hmore h)]
      · dsimp only at hmore
        rw [hbody] at hmore
        rw [run_of_ok hcond hbody] at h ⊢
        rw [run_of_ok hcond (hmore nofun)]
        exact ih (Nat.le_of_succ_le_succ hkl) h

theorem steady_runAll (hsteady : ∀ s, Steady fun n => body n s) (s : σ) :
    Steady fun n => runAll cond body n s :=
  fun _ _ hnm h => run_more hsteady hnm hnm h

/-- One round that does not end the loop. -/
def Round (cond : σ → Bool) (body : Nested σ ε) (s s' : σ) : Prop :=
  cond s = true ∧ ∃ fuel, body fuel s = .ok s'

/-- The loop gets from one state to the other. -/
def Reaches (cond : σ → Bool) (body : Nested σ ε) : σ → σ → Prop :=
  Relation.ReflTransGen (Round cond body)

/-- Behind a round the loop goes on, if the body is steady. -/
theorem Round.endless_iff (hsteady : ∀ s, Steady fun n => body n s) {s s' : σ}
    (h : Round cond body s s') :
    Endless (fun n => runAll cond body n s) ↔ Endless (fun n => runAll cond body n s') := by
  obtain ⟨hcond, f, hf⟩ := h
  -- with enough fuel the first round is the one of `h`
  have hround : ∀ n, f ≤ n + 1 →
      runAll cond body (n + 1) s = (run cond (body (n + 1)) n s').getD (.error none) := by
    intro n hn
    have hbody : body (n + 1) s = .ok s' :=
      (hsteady s f (n + 1) hn (by dsimp only; rw [hf]; exact nofun)).trans hf
    rw [runAll, run_of_ok hcond hbody]
  -- more fuel is tried until both sides have a result
  constructor
  · intro hend n
    by_contra hn
    have hmore := run_more (m := max f n + 1) (l := max f n) hsteady (by omega) (by omega) hn
    exact hn (hmore.symm.trans ((hround (max f n) (by omega)).symm.trans (hend _)))
  · intro hend n
    by_contra hn
    have hmore := steady_runAll hsteady s n (max f n + 1) (by omega) hn
    have hrest := hmore.symm.trans (hround (max f n) (by omega))
    have hlate := run_more (l := max f n + 1) hsteady (Nat.le_refl _) (Nat.le_succ _)
      (fun hnone => hn (hrest.trans hnone))
    exact hn (hrest.trans (hlate.symm.trans (hend _)))

theorem Reaches.endless (hsteady : ∀ s, Steady fun n => body n s) {s s' : σ}
    (h : Reaches cond body s s') (hend : Endless fun n => runAll cond body n s') :
    Endless fun n => runAll cond body n s := by
  induction h using Relation.ReflTransGen.head_induction_on with
  | refl => exact hend
  | head hround _ ih => exact (hround.endless_iff hsteady).2 ih

/-- A loop that never ends goes through a first round, or never comes out of it. -/
theorem round_of_endless (hsteady : ∀ s, Steady fun n => body n s) {s : σ}
    (h : Endless fun n => runAll cond body n s) :
    cond s = true ∧ ((Endless fun n => body n s) ∨ ∃ s', Round cond body s s') := by
  -- a loop that stops ends with one round of fuel
  cases hcond : cond s with
  | false =>
    have hone : (run cond (body 1) 1 s).getD (.error none) = .error none := h 1
    rw [run_of_not hcond] at hone
    cases hone
  | true =>
    refine ⟨rfl, ?_⟩
    -- the body stays, or it ends and there is a round
    by_cases hbody : Endless fun n => body n s
    · exact .inl hbody
    · obtain ⟨f, hf⟩ := not_forall.1 hbody
      have hmore := hsteady s f (f + 1) (Nat.le_succ f) hf
      dsimp only at hf hmore
      -- an error would end the loop
      rcases hres : body f s with e | s'
      · have hstop : (run cond (body (f + 1)) (f + 1) s).getD (.error none) = .error none :=
          h (f + 1)
        rw [run_of_error hcond (hmore.trans hres)] at hstop
        exact absurd (hres.trans hstop) hf
      · exact .inr ⟨s', hcond, f, hres⟩

/-- A kind of states that rounds stay in. -/
theorem endless_of_stuck (hsteady : ∀ s, Steady fun n => body n s) {stuck : σ → Prop}
    (hstuck : ∀ s, stuck s → ∃ s', Round cond body s s' ∧ stuck s') {s : σ} (h : stuck s) :
    Endless fun n => runAll cond body n s := by
  intro n
  suffices hrun : ∀ k s, stuck s → (run cond (body n) k s).getD (.error none) = .error none from
    hrun n s h
  intro k
  -- every round leads back to a stuck state
  induction k with
  | zero => exact fun _ _ => rfl
  | succ k ih =>
    intro s h
    obtain ⟨s', ⟨hcond, f, hf⟩, hs'⟩ := hstuck s h
    by_cases hbody : body n s = .error none
    · rw [run_of_error hcond hbody]
      rfl
    -- the body has the result of `f` with this fuel, too
    · have hmore := hsteady s n (max f n) (Nat.le_max_right f n) hbody
      have hthere := hsteady s f (max f n) (Nat.le_max_left f n) (by dsimp only; rw [hf]; exact nofun)
      rw [run_of_ok hcond ((hmore.symm.trans hthere).trans hf)]
      exact ih s' hs'

/-- **A loop never ends** if and only if it gets stuck, or to a round that never ends, when every other
round makes progress. -/
theorem endless_iff (hsteady : ∀ s, Steady fun n => body n s) {stuck : σ → Prop} (left : σ → ℕ)
    (hstuck : ∀ s, stuck s → ∃ s', Round cond body s s' ∧ stuck s')
    (hleft : ∀ s s', Round cond body s s' → stuck s ∨ left s' < left s) {s : σ} :
    (Endless fun n => runAll cond body n s) ↔
      ∃ s', Reaches cond body s s' ∧
        (stuck s' ∨ (cond s' = true ∧ Endless fun n => body n s')) := by
  constructor
  -- by induction on what is left: a round makes it less, or is stuck
  · generalize hn : left s = n
    intro hend
    induction n using Nat.strongRecOn generalizing s with
    | ind n ih =>
      obtain ⟨hcond, hbody | ⟨s', hround⟩⟩ := round_of_endless hsteady hend
      · exact ⟨s, .refl, .inr ⟨hcond, hbody⟩⟩
      · rcases hleft s s' hround with h | hlt
        · exact ⟨s, .refl, .inl h⟩
        · obtain ⟨t, hreach, ht⟩ := ih (left s') (hn ▸ hlt) rfl ((hround.endless_iff hsteady).1 hend)
          exact ⟨t, .head hround hreach, ht⟩
  -- the state is reached, and from there the loop stays
  · rintro ⟨s', hreach, h | ⟨hcond, hbody⟩⟩
    · exact hreach.endless hsteady (endless_of_stuck hsteady hstuck h)
    · refine hreach.endless hsteady fun n => ?_
      show (run cond (body n) n s').getD (.error none) = .error none
      cases n with
      | zero => rfl
      | succ n =>
        rw [run_of_error hcond (hbody (n + 1))]
        rfl

end Nested

end While
