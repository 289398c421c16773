import Mathlib.Data.List.Basic
import Mathlib.Logic.Function.Basic

/-!
# Caches that drop what is idle

An `IdleCache κ` has the time of the last use of each key that it keeps.  `IdleCache.run` follows a list
of operations: a key is used, or brought in if it is not there, keys idle for the limit are dropped
except one that is pinned, and all of them are dropped.  `run_some` says where the time of a key comes
from, and `run_kept` that no key goes before its time.
-/

/-- When each key of a cache was last used. -/
abbrev IdleCache (κ : Type*) := κ → Option ℕ

namespace IdleCache

variable {κ : Type*}

inductive Op (κ : Type*) where
  | use (k : κ) (now : ℕ)
  /-- Nothing if the key is there. -/
  | load (k : κ) (now : ℕ)
  | expire (pinned : κ) (now : ℕ)
  | clear

variable [DecidableEq κ] {limit : ℕ}

def apply (limit : ℕ) (u : IdleCache κ) : Op κ → IdleCache κ
  | .use k now => Function.update u k (some now)
  | .load k now => if u k = none then Function.update u k (some now) else u
  | .expire pinned now => fun k => (u k).filter fun t => k = pinned ∨ now - t < limit
  | .clear => fun _ => none

def run (limit : ℕ) (u : IdleCache κ) (ops : List (Op κ)) : IdleCache κ := ops.foldl (apply limit) u

theorem apply_expire (u : IdleCache κ) (pinned k : κ) (now : ℕ) :
    apply limit u (.expire pinned now) k = (u k).filter fun t => k = pinned ∨ now - t < limit := rfl

@[simp] theorem run_nil (u : IdleCache κ) : run limit u [] = u := rfl

@[simp] theorem run_cons (u : IdleCache κ) (op : Op κ) (ops : List (Op κ)) :
    run limit u (op :: ops) = run limit (apply limit u op) ops := rfl

theorem run_append (u : IdleCache κ) (ops ops' : List (Op κ)) :
    run limit u (ops ++ ops') = run limit (run limit u ops) ops' := List.foldl_append

/-! ### What one operation does to a key -/

/-- The operation gives the key this time. -/
def Op.Sets (op : Op κ) (k : κ) (t : ℕ) : Prop := op = .use k t ∨ op = .load k t

/-- The time of a key is the one it had, or the operation has given it. -/
theorem apply_some {u : IdleCache κ} {op : Op κ} {k : κ} {t : ℕ} (h : apply limit u op k = some t) :
    op.Sets k t ∨ (u k = some t ∧ op ≠ .clear) := by
  -- only a use or a load of `k` itself sets its time
  cases op with
  | use k' now =>
    by_cases hk : k = k'
    · subst hk
      rw [apply, Function.update_self] at h
      obtain rfl := Option.some.inj h
      exact .inl (.inl rfl)
    · rw [apply, Function.update_of_ne hk] at h
      exact .inr ⟨h, nofun⟩
  | load k' now =>
    rw [apply] at h
    -- a load sets the time of a new entry only
    split_ifs at h with hnone
    · by_cases hk : k = k'
      · subst hk
        rw [Function.update_self] at h
        obtain rfl := Option.some.inj h
        exact .inl (.inr rfl)
      · rw [Function.update_of_ne hk] at h
        exact .inr ⟨h, nofun⟩
    · exact .inr ⟨h, nofun⟩
  -- what outlives an expiry keeps its time
  | expire pinned now => exact .inr ⟨(Option.filter_eq_some_iff.mp h).1, nofun⟩
  | clear => cases h

/-- A key stays in an operation that neither clears the cache nor comes too late for it, and its time
does not go back. -/
theorem apply_kept {u : IdleCache κ} {op : Op κ} {k : κ} {t₀ t : ℕ} (hu : u k = some t) (ht : t₀ ≤ t)
    (hclear : op ≠ .clear) (huse : ∀ now, op = .use k now → t₀ ≤ now)
    (hexpire : ∀ pinned now, op = .expire pinned now → k = pinned ∨ now - t₀ < limit) :
    ∃ t', apply limit u op k = some t' ∧ t₀ ≤ t' := by
  cases op with
  | use k' now =>
    -- a use moves the time on, and everything else leaves it
    by_cases hk : k = k'
    · subst hk
      exact ⟨now, Function.update_self .., huse now rfl⟩
    · exact ⟨t, by rw [apply, Function.update_of_ne hk, hu], ht⟩
  -- the entry is there, so a load does not touch it
  | load k' now =>
    refine ⟨t, ?_, ht⟩
    rw [apply]
    split_ifs with hnone
    · have hk : k ≠ k' := by
        rintro rfl
        rw [hu] at hnone
        cases hnone
      rw [Function.update_of_ne hk, hu]
    · exact hu
  -- pinned or young enough
  | expire pinned now =>
    refine ⟨t, Option.filter_eq_some_iff.mpr ⟨hu, ?_⟩, ht⟩
    have hnow := hexpire pinned now rfl
    exact decide_eq_true (hnow.imp_right fun hlt => by omega)
  | clear => exact absurd rfl hclear

/-! ### Runs -/

/-- A time in the cache was there before, or the last operation that gave it came after the last
clearing. -/
theorem run_some {u : IdleCache κ} {ops : List (Op κ)} {k : κ} {t : ℕ}
    (h : run limit u ops k = some t) :
    (u k = some t ∧ .clear ∉ ops) ∨
      ∃ before op after, ops = before ++ op :: after ∧ op.Sets k t ∧ .clear ∉ after := by
  induction ops generalizing u with
  | nil => exact .inl ⟨h, List.not_mem_nil⟩
  | cons op ops ih =>
    obtain ⟨hu, hclear⟩ | ⟨before, op', after, rfl, hsets, hclear⟩ := ih h
    · obtain hsets | ⟨hu, hne⟩ := apply_some hu
      · exact .inr ⟨[], op, ops, rfl, hsets, hclear⟩
      · refine .inl ⟨hu, fun hmem => ?_⟩
        obtain heq | hmem := List.mem_cons.mp hmem
        · exact hne heq.symm
        · exact hclear hmem
    · exact .inr ⟨op :: before, op', after, rfl, hsets, hclear⟩

/-- A key that was used at `t₀` or later is there as long as nothing expires `limit` after that. -/
theorem run_kept {u : IdleCache κ} {ops : List (Op κ)} {k : κ} {t₀ t : ℕ} (hu : u k = some t)
    (ht : t₀ ≤ t) (hclear : .clear ∉ ops) (huse : ∀ now, .use k now ∈ ops → t₀ ≤ now)
    (hexpire : ∀ pinned now, .expire pinned now ∈ ops → k = pinned ∨ now - t₀ < limit) :
    ∃ t', run limit u ops k = some t' ∧ t₀ ≤ t' := by
  induction ops generalizing u t with
  | nil => exact ⟨t, hu, ht⟩
  | cons op ops ih =>
    obtain ⟨t', hu', ht'⟩ := apply_kept hu ht
      (fun heq => hclear (heq ▸ List.mem_cons_self ..))
      (fun now heq => huse now (heq ▸ List.mem_cons_self ..))
      (fun pinned now heq => hexpire pinned now (heq ▸ List.mem_cons_self ..))
    exact ih hu' ht' (fun hmem => hclear (List.mem_cons_of_mem op hmem))
      (fun now hmem => huse now (List.mem_cons_of_mem op hmem))
      (fun pinned now hmem => hexpire pinned now (List.mem_cons_of_mem op hmem))

/-- What is left right after the idle keys were dropped. -/
theorem expire_some {u : IdleCache κ} {pinned k : κ} {now t : ℕ}
    (h : apply limit u (.expire pinned now) k = some t) :
    u k = some t ∧ (k = pinned ∨ now - t < limit) := by
  obtain ⟨hu, hfilter⟩ := Option.filter_eq_some_iff.mp h
  exact ⟨hu, of_decide_eq_true hfilter⟩

end IdleCache
