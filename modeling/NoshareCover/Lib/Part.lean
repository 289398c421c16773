import Mathlib.Data.List.AList

/-!
# The part of a map for some of its keys

`AList.part p m` lists the entries of the map `m` whose key satisfies `p`, in the order in which the
map holds them.  Insertions and removals of other keys leave it alone, and those of such a key
change it as a function of it alone, so two maps with the same part keep the same part.
-/

namespace List

variable {α : Type*} {p q : α → Bool} {l : List α}

/-- The first item that satisfies `q` goes: the others that satisfy `p` are not touched, if no item
satisfies both. -/
theorem filter_eraseP_of_disjoint (h : ∀ a, q a = true → p a = false) :
    (l.eraseP q).filter p = l.filter p := by
  induction l with
  | nil => rfl
  | cons a l ih =>
    cases hq : q a with
    | true => rw [eraseP_cons_of_pos hq, filter_cons_of_neg (by simp [h a hq])]
    | false =>
      rw [eraseP_cons_of_neg (by simp [hq]), filter_cons, filter_cons, ih]

/-- The first item that satisfies `q` goes: it is the first among those that satisfy `p`, if every
such item does. -/
theorem filter_eraseP_of_imp (h : ∀ a, q a = true → p a = true) :
    (l.eraseP q).filter p = (l.filter p).eraseP q := by
  have hand : (fun a => q a && p a) = q := by
    funext a
    cases hq : q a with
    | true => simp [h a hq]
    | false => rfl
  rw [eraseP_filter, hand]

end List

namespace AList

variable {α : Type*} {β : α → Type*} (p : α → Bool)

def part (m : AList β) : List (Sigma β) := m.entries.filter fun e => p e.1

variable {p} {m : AList β} {e : Sigma β}

theorem mem_part : e ∈ m.part p ↔ e ∈ m.entries ∧ p e.1 = true := List.mem_filter

variable [DecidableEq α] {k : α}

/-- What is found for a key of the part depends on the part alone. -/
theorem mem_lookup_iff_mem_part (hk : p k = true) {b : β k} :
    b ∈ m.lookup k ↔ ⟨k, b⟩ ∈ m.part p := by
  rw [mem_lookup_iff, mem_part]
  exact ⟨fun h => ⟨h, hk⟩, fun h => h.1⟩

theorem lookup_eq_of_part {m' : AList β} (h : m.part p = m'.part p) (hk : p k = true) :
    m.lookup k = m'.lookup k := by
  ext b
  exact (mem_lookup_iff_mem_part hk).trans (by rw [h]; exact (mem_lookup_iff_mem_part hk).symm)

theorem part_erase_of_neg (hk : p k = false) : (m.erase k).part p = m.part p := by
  refine List.filter_eraseP_of_disjoint fun e he => ?_
  rw [← of_decide_eq_true he]
  exact hk

theorem part_erase_of_pos (hk : p k = true) : (m.erase k).part p = (m.part p).kerase k := by
  refine List.filter_eraseP_of_imp fun e he => ?_
  rw [← of_decide_eq_true he]
  exact hk

theorem part_insert_of_neg (hk : p k = false) (b : β k) : (m.insert k b).part p = m.part p := by
  unfold part
  rw [entries_insert, List.filter_cons_of_neg (by simp [hk])]
  exact part_erase_of_neg hk

theorem part_insert_of_pos (hk : p k = true) (b : β k) :
    (m.insert k b).part p = ⟨k, b⟩ :: (m.part p).kerase k := by
  unfold part
  rw [entries_insert, List.filter_cons_of_pos (by simp [hk])]
  exact congrArg _ (part_erase_of_pos hk)

end AList
