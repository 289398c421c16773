import Mathlib.Algebra.GroupWithZero.Nat
import Mathlib.Data.List.AList

/-!
# Counting the entries of a map

`AList.tally f m` adds up `f` over the values of the map `m`.  An insertion or a removal changes it
by the value that comes and the value that goes, which is what a proof that nothing is lost or
counted twice needs.
-/

namespace AList

variable {α β : Type*} [DecidableEq α]

/-- The sum of `f` over the values of a map. -/
def tally (f : β → ℕ) (m : AList fun _ : α => β) : ℕ := (m.entries.map fun e => f e.2).sum

variable {f : β → ℕ} {m : AList fun _ : α => β} {k : α} {b : β}

omit [DecidableEq α] in
@[simp] theorem tally_empty : tally f (∅ : AList fun _ : α => β) = 0 := rfl

/-- A value that is there counts once, besides the others. -/
theorem tally_erase (h : m.lookup k = some b) : tally f (m.erase k) + f b = tally f m := by
  have hmem : k ∈ m.entries.keys := AList.lookup_isSome.mp (by rw [h]; rfl)
  obtain ⟨b', l₁, l₂, hk, hsplit, herase⟩ := List.exists_of_kerase hmem
  have hb : b' = b := by
    have hentry : (⟨k, b'⟩ : Sigma fun _ : α => β) ∈ m.entries := by rw [hsplit]; simp
    have hlookup : m.lookup k = some b' := AList.mem_lookup_iff.mpr hentry
    exact Option.some.inj (hlookup.symm.trans h)
  unfold tally
  show ((List.kerase k m.entries).map _).sum + f b = _
  rw [herase, hsplit, hb]
  simp only [List.map_append, List.sum_append, List.map_cons, List.sum_cons]
  omega

theorem tally_insert (b : β) : tally f (m.insert k b) = tally f (m.erase k) + f b := by
  unfold tally
  rw [AList.entries_insert, List.map_cons, List.sum_cons, Nat.add_comm]
  rfl

theorem tally_insert_of_notMem (h : k ∉ m) (b : β) :
    tally f (m.insert k b) = tally f m + f b := by
  have herase : m.erase k = m := AList.ext (List.kerase_of_notMem_keys h)
  rw [tally_insert, herase]

end AList
