import Mathlib.Data.List.Nodup
import Mathlib.Logic.Function.Basic

/-!
# Overriding the highest slot of a variable

A variable keeps one optional value for each priority, and the highest priority with a value wins.
`overrideAll` goes through a list of items and writes into the top slot of some of their variables,
keeping for each what the slot held; `restore` puts that back.  `restore_overrideAll` says that the
two undo each other exactly, and `overrideAll_apply` what a variable holds in between.
-/

namespace Override

inductive Priority where
  /-- The `i`-th priority below the top, counted from above. -/
  | lower (i : ℕ)
  | top
  deriving DecidableEq, Repr

/-- One optional value for each priority; `lower` starts below the top and goes down. -/
@[ext] structure Slots (α : Type*) where
  top : Option α
  lower : List (Option α)
  deriving DecidableEq, Repr

namespace Slots

variable {α : Type*}

/-- The highest priority with a value. -/
def priority? (v : Slots α) : Option Priority :=
  if v.top.isSome then some .top
  else (v.lower.findIdx? Option.isSome).map Priority.lower

def hasValue (v : Slots α) : Bool := v.top.isSome || v.lower.any Option.isSome

/-- The value of the highest priority that has one. -/
def value? (v : Slots α) : Option α := v.top.or (v.lower.findSome? id)

def valueOr (v : Slots α) (default : α) : α := v.value?.getD default

/-- Writes the top slot. -/
def set (v : Slots α) (a : α) : Slots α := { v with top := some a }

/-- Empties the top slot. -/
def unset (v : Slots α) : Slots α := { v with top := none }

/-- The value to put back after the top slot is overwritten: the variable's value if it comes from
the top slot. -/
def saved (v : Slots α) : Option α :=
  if v.hasValue = true ∧ v.priority? = some .top then v.value? else none

@[simp] theorem value?_set (v : Slots α) (a : α) : (v.set a).value? = some a := rfl

@[simp] theorem valueOr_set (v : Slots α) (a b : α) : (v.set a).valueOr b = a := rfl

/-- A value that comes from the top slot is the top slot's. -/
@[simp] theorem saved_eq_top (v : Slots α) : v.saved = v.top := by
  obtain ⟨top, lower⟩ := v
  cases top with
  | some a => simp [saved, hasValue, priority?, value?]
  | none => simp [saved, priority?]

theorem top_set_unset (v : Slots α) (a : α) (h : v.top = none) : (v.set a).unset = v := by
  ext1
  · exact h.symm
  · rfl

theorem top_set_set (v : Slots α) (a b : α) (h : v.top = some b) : (v.set a).set b = v := by
  ext1
  · exact h.symm
  · rfl

end Slots

/-- What is kept of an overwritten slot. -/
structure Saved (κ α : Type*) where
  key : κ
  prev : Option α
  deriving DecidableEq, Repr

section Store

variable {κ α β : Type*} [DecidableEq κ]

/-- Puts one slot back. -/
def restoreOne (s : κ → Slots α) (e : Saved κ α) : κ → Slots α :=
  Function.update s e.key
    (match e.prev with
      | some a => (s e.key).set a
      | none => (s e.key).unset)

/-- Puts all slots back, in the order in which they were overwritten. -/
def restore (s : κ → Slots α) (saved : List (Saved κ α)) : κ → Slots α :=
  saved.foldl restoreOne s

/-- Goes through `bs` and overwrites the top slot of each item's variable for which `want` gives a
value. -/
def overrideAll (key : β → κ) (want : β → Slots α → Option α) :
    (κ → Slots α) → List β → (κ → Slots α) × List (Saved κ α)
  | s, [] => (s, [])
  | s, b :: bs =>
    match want b (s (key b)) with
    | none => overrideAll key want s bs
    | some a =>
      let rest := overrideAll key want (Function.update s (key b) ((s (key b)).set a)) bs
      (rest.1, { key := key b, prev := (s (key b)).saved } :: rest.2)

variable (key : β → κ) (want : β → Slots α → Option α)

@[simp] theorem overrideAll_nil (s : κ → Slots α) : overrideAll key want s [] = (s, []) := rfl

theorem overrideAll_cons_of_none (s : κ → Slots α) (b : β) (bs : List β)
    (h : want b (s (key b)) = none) :
    overrideAll key want s (b :: bs) = overrideAll key want s bs := by
  rw [overrideAll, h]

theorem overrideAll_cons_of_some (s : κ → Slots α) (b : β) (bs : List β) (a : α)
    (h : want b (s (key b)) = some a) :
    overrideAll key want s (b :: bs)
      = ((overrideAll key want (Function.update s (key b) ((s (key b)).set a)) bs).1,
          { key := key b, prev := (s (key b)).top } ::
            (overrideAll key want (Function.update s (key b) ((s (key b)).set a)) bs).2) := by
  rw [overrideAll, h, Slots.saved_eq_top]

/-- The variables of other keys stay as they are. -/
theorem overrideAll_apply_of_notMem {k : κ} :
    ∀ (s : κ → Slots α) (bs : List β), k ∉ bs.map key → (overrideAll key want s bs).1 k = s k
  | _, [], _ => rfl
  | s, b :: bs, h => by
    rw [List.map_cons, List.mem_cons, not_or] at h
    cases hw : want b (s (key b)) with
    | none =>
      rw [overrideAll_cons_of_none key want s b bs hw]
      exact overrideAll_apply_of_notMem s bs h.2
    | some a =>
      rw [overrideAll_cons_of_some key want s b bs a hw]
      have := overrideAll_apply_of_notMem (Function.update s (key b) ((s (key b)).set a)) bs h.2
      simpa [Function.update_of_ne h.1] using this

/-- The value of a variable that is not gone through makes no difference to the others. -/
theorem overrideAll_update_of_notMem {k : κ} (v : Slots α) :
    ∀ (s : κ → Slots α) (bs : List β), k ∉ bs.map key →
      overrideAll key want (Function.update s k v) bs
        = (Function.update (overrideAll key want s bs).1 k v, (overrideAll key want s bs).2)
  | _, [], _ => rfl
  | s, b :: bs, h => by
    rw [List.map_cons, List.mem_cons, not_or] at h
    -- the update is at another key than the one overridden
    have hb : Function.update s k v (key b) = s (key b) := Function.update_of_ne (Ne.symm h.1) ..
    cases hw : want b (s (key b)) with
    | none =>
      rw [overrideAll_cons_of_none key want _ b bs (by rw [hb]; exact hw),
        overrideAll_cons_of_none key want s b bs hw]
      exact overrideAll_update_of_notMem v s bs h.2
    | some a =>
      rw [overrideAll_cons_of_some key want _ b bs a (by rw [hb]; exact hw),
        overrideAll_cons_of_some key want s b bs a hw, hb, Function.update_comm h.1,
        overrideAll_update_of_notMem v _ bs h.2]

/-- What the variable of a gone-through item holds afterwards. -/
theorem overrideAll_apply :
    ∀ (s : κ → Slots α) (bs : List β) (b : β), (bs.map key).Nodup → b ∈ bs →
      (overrideAll key want s bs).1 (key b)
        = match want b (s (key b)) with
          | none => s (key b)
          | some a => (s (key b)).set a
  | s, c :: bs, b, hnd, hb => by
    rw [List.map_cons, List.nodup_cons] at hnd
    -- the key is the first one, and no later one touches it
    rcases List.mem_cons.1 hb with rfl | hb
    · cases hw : want b (s (key b)) with
      | none =>
        rw [overrideAll_cons_of_none key want s b bs hw]
        exact overrideAll_apply_of_notMem key want s bs hnd.1
      | some a =>
        rw [overrideAll_cons_of_some key want s b bs a hw]
        have := overrideAll_apply_of_notMem key want
          (Function.update s (key b) ((s (key b)).set a)) bs hnd.1
        simpa using this
    · have hne : key b ≠ key c := by
        intro h
        exact hnd.1 (h ▸ List.mem_map_of_mem hb)
      cases hw : want c (s (key c)) with
      | none =>
        rw [overrideAll_cons_of_none key want s c bs hw]
        exact overrideAll_apply s bs b hnd.2 hb
      | some a =>
        rw [overrideAll_cons_of_some key want s c bs a hw]
        have := overrideAll_apply (Function.update s (key c) ((s (key c)).set a)) bs b hnd.2 hb
        simpa [Function.update_of_ne hne] using this

/-- The keys of the overwritten slots are those of the items for which `want` gave a value. -/
theorem mem_overrideAll_saved {k : κ} :
    ∀ (s : κ → Slots α) (bs : List β), (bs.map key).Nodup →
      (k ∈ (overrideAll key want s bs).2.map Saved.key
        ↔ ∃ b ∈ bs, key b = k ∧ (want b (s k)).isSome = true)
  | s, [], _ => by simp
  | s, b :: bs, hnd => by
    rw [List.map_cons, List.nodup_cons] at hnd
    have key_ne : ∀ c ∈ bs, key c ≠ key b := by
      intro c hc h
      exact hnd.1 (h ▸ List.mem_map_of_mem hc)
    rw [List.exists_mem_cons_iff]
    cases hw : want b (s (key b)) with
    | none =>
      rw [overrideAll_cons_of_none key want s b bs hw, mem_overrideAll_saved s bs hnd.2]
      have : ¬ (key b = k ∧ (want b (s k)).isSome = true) := by
        rintro ⟨rfl, h⟩
        simp [hw] at h
      simp [this]
    | some a =>
      rw [overrideAll_cons_of_some key want s b bs a hw, List.map_cons, List.mem_cons,
        mem_overrideAll_saved _ bs hnd.2]
      constructor
      · rintro (rfl | ⟨c, hc, rfl, h⟩)
        · exact .inl ⟨rfl, by simp [hw]⟩
        · rw [Function.update_of_ne (key_ne c hc)] at h
          exact .inr ⟨c, hc, rfl, h⟩
      · rintro (⟨rfl, -⟩ | ⟨c, hc, rfl, h⟩)
        · exact .inl rfl
        · refine .inr ⟨c, hc, rfl, ?_⟩
          rw [Function.update_of_ne (key_ne c hc)]
          exact h

/-- **Override, then restore**: every slot is back to what it was, an empty slot empty. -/
theorem restore_overrideAll :
    ∀ (s : κ → Slots α) (bs : List β), (bs.map key).Nodup →
      restore (overrideAll key want s bs).1 (overrideAll key want s bs).2 = s
  | _, [], _ => rfl
  | s, b :: bs, hnd => by
    rw [List.map_cons, List.nodup_cons] at hnd
    cases hw : want b (s (key b)) with
    | none =>
      rw [overrideAll_cons_of_none key want s b bs hw]
      exact restore_overrideAll s bs hnd.2
    | some a =>
      rw [overrideAll_cons_of_some key want s b bs a hw,
        overrideAll_update_of_notMem key want _ s bs hnd.1]
      have hkey := overrideAll_apply_of_notMem key want s bs hnd.1
      -- the first slot is put back first, and nothing after it touches that variable
      have hfirst : restoreOne
          (Function.update (overrideAll key want s bs).1 (key b) ((s (key b)).set a))
          { key := key b, prev := (s (key b)).top } = (overrideAll key want s bs).1 := by
        rw [restoreOne, Function.update_idem, Function.update_self, Function.update_eq_self_iff,
          hkey]
        cases htop : (s (key b)).top with
        | none => exact Slots.top_set_unset _ a htop
        | some c => exact Slots.top_set_set _ a c htop
      change restore (restoreOne _ _) _ = s
      rw [hfirst]
      exact restore_overrideAll s bs hnd.2

end Store

end Override
