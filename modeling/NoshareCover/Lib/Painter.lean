import Mathlib.Data.List.Induction
import Mathlib.Data.List.Sort
import Mathlib.Data.Nat.Notation

/-!
# Painting in passes

A pass that replaces what is there leaves the colour of the last thing that it painted
(`foldl_replace_of_last`), so what it paints first should be lowest.  `insertionSort_pairwise` is
the order of a stable sort: by key, and among equal keys as before.
-/

namespace Painter

variable {α β : Type*}

/-! ### The last one -/

/-- The last element with a property. -/
theorem exists_last {l : List α} {P : α → Prop} (h : ∃ a ∈ l, P a) :
    ∃ pre a post, l = pre ++ a :: post ∧ P a ∧ ∀ b ∈ post, ¬ P b := by
  induction l using List.reverseRecOn with
  | nil =>
    obtain ⟨a, ha, -⟩ := h
    cases ha
  | append_singleton l t ih =>
    -- the last element of all, or the last one of those before it
    by_cases ht : P t
    · exact ⟨l, t, [], rfl, ht, fun _ hb => by cases hb⟩
    · have hl : ∃ a ∈ l, P a := by
        obtain ⟨a, ha, hP⟩ := h
        rcases List.mem_append.1 ha with ha | ha
        · exact ⟨a, ha, hP⟩
        · rw [List.mem_singleton.1 ha] at hP
          exact absurd hP ht
      obtain ⟨pre, a, post, rfl, hP, hpost⟩ := ih hl
      refine ⟨pre, a, post ++ [t], by simp, hP, fun b hb => ?_⟩
      rcases List.mem_append.1 hb with hb | hb
      · exact hpost b hb
      · rwa [List.mem_singleton.1 hb]

/-- In an ordered list, an element with the property is the last one or stands in order with it. -/
theorem eq_or_rel_of_last {R : α → α → Prop} {P : α → Prop} {l pre post : List α} {a b : α}
    (hl : l = pre ++ a :: post) (hpairwise : l.Pairwise R) (hpost : ∀ b ∈ post, ¬ P b)
    (hb : b ∈ l) (hP : P b) : b = a ∨ R b a := by
  rw [hl] at hb hpairwise
  rcases List.mem_append.1 hb with hpre | hb
  · right
    exact (List.pairwise_append.1 hpairwise).2.2 b hpre a (List.mem_cons_self ..)
  · rcases List.mem_cons.1 hb with rfl | hb
    · exact .inl rfl
    · exact absurd hP (hpost b hb)

variable {P : α → Prop} [DecidablePred P]

/-- A pass that paints nothing. -/
theorem foldl_eq_of_forall (step : β → α → β) {l : List α} (h : ∀ a ∈ l, ¬ P a) (b : β) :
    l.foldl (fun b a => if P a then step b a else b) b = b := by
  induction l with
  | nil => rfl
  | cons a l ih =>
    rw [List.foldl_cons, if_neg (h a (List.mem_cons_self ..))]
    exact ih fun a' ha' => h a' (List.mem_cons_of_mem _ ha')

/-- A pass that replaces what is there leaves what it painted last. -/
theorem foldl_replace_of_last (colour : α → β) {l pre post : List α} {a : α}
    (hl : l = pre ++ a :: post) (ha : P a) (hpost : ∀ b ∈ post, ¬ P b) (b : β) :
    l.foldl (fun b a => if P a then colour a else b) b = colour a := by
  rw [hl, List.foldl_append, List.foldl_cons, if_pos ha]
  exact foldl_eq_of_forall (fun _ a => colour a) hpost _

/-! ### Stable sorting -/

theorem orderedInsert_congr (r r' : α → α → Prop) [DecidableRel r] [DecidableRel r'] (a : α)
    {l : List α} (h : ∀ b ∈ l, r a b ↔ r' a b) : l.orderedInsert r a = l.orderedInsert r' a := by
  induction l with
  | nil => rfl
  | cons b l ih =>
    have hb := h b (List.mem_cons_self ..)
    have hl := ih fun b' hb' => h b' (List.mem_cons_of_mem _ hb')
    rw [List.orderedInsert_cons, List.orderedInsert_cons, hl]
    exact if_congr hb rfl rfl

/-- Sorting only compares an element with later ones. -/
theorem insertionSort_congr (r r' : α → α → Prop) [DecidableRel r] [DecidableRel r'] {l : List α}
    (h : l.Pairwise fun a b => r a b ↔ r' a b) : l.insertionSort r = l.insertionSort r' := by
  induction l with
  | nil => rfl
  | cons a l ih =>
    obtain ⟨ha, hl⟩ := List.pairwise_cons.1 h
    rw [List.insertionSort_cons, List.insertionSort_cons, ih hl]
    exact orderedInsert_congr r r' a fun b hb => ha b ((List.mem_insertionSort r').1 hb)

theorem filter_orderedInsert_of_neg (r : α → α → Prop) [DecidableRel r] {p : α → Bool} {a : α}
    (ha : p a = false) (l : List α) : (l.orderedInsert r a).filter p = l.filter p := by
  induction l with
  | nil => simp [ha]
  | cons b l ih =>
    rw [List.orderedInsert_cons]
    split_ifs
    · rw [List.filter_cons_of_neg (by simp [ha])]
    · rw [List.filter_cons, List.filter_cons, ih]

theorem filter_orderedInsert_of_pos (r : α → α → Prop) [DecidableRel r] [IsTrans α r]
    {p : α → Bool} {a : α} (ha : p a = true) {l : List α} (hl : l.Pairwise r) :
    (l.orderedInsert r a).filter p = (l.filter p).orderedInsert r a := by
  induction l with
  | nil => simp [ha]
  | cons b l ih =>
    obtain ⟨hb, hl⟩ := List.pairwise_cons.1 hl
    rw [List.orderedInsert_cons]
    split_ifs with hab
    · rw [List.filter_cons_of_pos ha]
      -- `a` is below everything that is left
      cases hfilter : (b :: l).filter p with
      | nil => rfl
      | cons c l' =>
        have hc : c ∈ b :: l := (List.mem_filter.1 (hfilter ▸ List.mem_cons_self ..)).1
        have hac : r a c := by
          rcases List.mem_cons.1 hc with rfl | hc
          · exact hab
          · exact IsTrans.trans a b c hab (hb c hc)
        rw [List.orderedInsert_cons, if_pos hac]
    · cases hpb : p b with
      | true =>
        rw [List.filter_cons_of_pos hpb, List.filter_cons_of_pos hpb, ih hl,
          List.orderedInsert_cons, if_neg hab]
      | false =>
        rw [List.filter_cons_of_neg (by simp [hpb]), List.filter_cons_of_neg (by simp [hpb]), ih hl]

/-- A stable sort puts some of the elements into the order that they have among themselves. -/
theorem filter_insertionSort (r : α → α → Prop) [DecidableRel r] [Std.Total r] [IsTrans α r]
    (p : α → Bool) (l : List α) : (l.insertionSort r).filter p = (l.filter p).insertionSort r := by
  induction l with
  | nil => rfl
  | cons a l ih =>
    rw [List.insertionSort_cons]
    cases ha : p a with
    | true =>
      rw [filter_orderedInsert_of_pos r ha (List.pairwise_insertionSort r l), ih,
        List.filter_cons_of_pos ha, List.insertionSort_cons]
    | false =>
      rw [filter_orderedInsert_of_neg r ha, ih, List.filter_cons_of_neg (by simp [ha])]

/-- The order after sorting by `key`: elements with equal keys stay as they were, by `index`. -/
theorem insertionSort_pairwise (key index : α → ℕ) {l : List α}
    (h : l.Pairwise fun a b => index a < index b) :
    (l.insertionSort fun a b => key a ≤ key b).Pairwise fun a b =>
      key a < key b ∨ key a = key b ∧ index a ≤ index b := by
  -- the order with the index is the one of a stable sort
  let r : α → α → Prop := fun a b => key a < key b ∨ key a = key b ∧ index a ≤ index b
  have htrans : IsTrans α r := ⟨fun a b c hab hbc => by
    unfold r at hab hbc ⊢
    omega⟩
  have htotal : Std.Total r := ⟨fun a b => by
    unfold r
    omega⟩
  have hdec : DecidableRel r := fun a b => inferInstanceAs (Decidable (_ ∨ _))
  rw [insertionSort_congr (fun a b => key a ≤ key b) r (h.imp fun {a b} hlt => ?_)]
  · exact List.pairwise_insertionSort r l
  -- in a list sorted by index the two orders agree
  · show key a ≤ key b ↔ key a < key b ∨ key a = key b ∧ index a ≤ index b
    omega

end Painter
