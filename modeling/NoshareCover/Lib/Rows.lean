import Mathlib.Data.List.GetD
import Mathlib.Tactic.Ring

/-!
# Pixels in rows

A picture in memory is a list of pixels, row after row, and a list of bytes, so many for a pixel.
`forall_index_iff` goes from the pixels' numbers to rows and columns, `getD_flatMap` from the bytes
to the pieces that they were put together from, and `flatMap_take_drop` puts bands of rows together
again.  `foldl_write` is about drawing: what a loop of
writes does to one pixel.
-/

namespace Rows

theorem index_lt {w h x y : ℕ} (hx : x < w) (hy : y < h) : y * w + x < w * h := by
  have hrow : (y + 1) * w ≤ h * w := Nat.mul_le_mul_right w (by omega)
  calc y * w + x < y * w + w := by omega
    _ = (y + 1) * w := by ring
    _ ≤ h * w := hrow
    _ = w * h := mul_comm ..

theorem forall_index_iff {w h : ℕ} {P : ℕ → Prop} :
    (∀ n < w * h, P n) ↔ ∀ y < h, ∀ x < w, P (y * w + x) := by
  constructor
  · intro hall y hy x hx
    exact hall _ (index_lt hx hy)
  · intro hall n hn
    have hw : 0 < w := Nat.pos_of_mul_pos_right (Nat.lt_of_le_of_lt (Nat.zero_le n) hn)
    have hat := hall (n / w) (Nat.div_lt_of_lt_mul hn) (n % w) (Nat.mod_lt _ hw)
    rwa [mul_comm, Nat.div_add_mod] at hat

variable {α β : Type*}

/-- An entry of a list that is put together from pieces of length `m`. -/
theorem getD_flatMap {l : List α} {piece : α → List β} {m : ℕ} (hpiece : ∀ a, (piece a).length = m)
    {r : ℕ} (hr : r < m) (d : β) (n : ℕ) :
    (l.flatMap piece).getD (m * n + r) d = (l[n]?).elim d fun a => (piece a).getD r d := by
  induction l generalizing n with
  | nil => simp
  | cons a l ih =>
    rw [List.flatMap_cons]
    -- the index is in the first piece, or in the rest
    cases n with
    | zero =>
      rw [mul_zero, zero_add, List.getD_append _ _ _ _ (by rw [hpiece]; exact hr)]
      simp
    | succ n =>
      have hindex : m * (n + 1) + r = m * n + r + m := by ring
      rw [List.getD_append_right _ _ _ _ (by rw [hpiece]; omega), hpiece, hindex,
        Nat.add_sub_cancel, ih]
      simp

theorem length_flatMap {l : List α} {piece : α → List β} {m : ℕ}
    (hpiece : ∀ a, (piece a).length = m) : (l.flatMap piece).length = m * l.length := by
  induction l with
  | nil => simp
  | cons a l ih =>
    rw [List.flatMap_cons, List.length_append, hpiece, ih, List.length_cons]
    ring

/-- The same entry, if it is there. -/
theorem getElem?_flatMap {l : List α} {piece : α → List β} {m : ℕ}
    (hpiece : ∀ a, (piece a).length = m) {r : ℕ} (hr : r < m) (n : ℕ) :
    (l.flatMap piece)[m * n + r]? = l[n]?.bind fun a => (piece a)[r]? := by
  induction l generalizing n with
  | nil => simp
  | cons a l ih =>
    rw [List.flatMap_cons]
    -- the same split for the optional element
    cases n with
    | zero =>
      rw [mul_zero, zero_add, List.getElem?_append_left (by rw [hpiece]; exact hr)]
      simp
    | succ n =>
      have hindex : m * (n + 1) + r - m = m * n + r := by
        rw [mul_add, mul_one]
        omega
      rw [List.getElem?_append_right (by rw [hpiece, mul_add, mul_one]; omega), hpiece, hindex, ih]
      simp

/-- The first pieces. -/
theorem take_flatMap {piece : α → List β} {m : ℕ} (hpiece : ∀ a, (piece a).length = m) (l : List α)
    (n : ℕ) : (l.flatMap piece).take (n * m) = (l.take n).flatMap piece := by
  induction l generalizing n with
  | nil => simp
  | cons a l ih =>
    cases n with
    | zero => simp
    | succ n =>
      have hpast : (n + 1) * m - m = n * m := by rw [Nat.succ_mul, Nat.add_sub_cancel]
      rw [List.flatMap_cons, List.take_append, hpiece, hpast, ih, List.take_succ_cons,
        List.flatMap_cons, List.take_of_length_le]
      rw [hpiece, Nat.succ_mul]
      omega

/-- The pieces after them. -/
theorem drop_flatMap {piece : α → List β} {m : ℕ} (hpiece : ∀ a, (piece a).length = m) (l : List α)
    (n : ℕ) : (l.flatMap piece).drop (n * m) = (l.drop n).flatMap piece := by
  have hboth : (l.take n).flatMap piece ++ (l.flatMap piece).drop (n * m)
      = (l.take n).flatMap piece ++ (l.drop n).flatMap piece := by
    rw [← take_flatMap hpiece, List.take_append_drop, take_flatMap hpiece, ← List.flatMap_append,
      List.take_append_drop]
  exact List.append_cancel_left hboth

/-- A loop that always goes on makes a list of its results. -/
theorem mapM_eq_some {l : List α} {f : α → Option β} {g : α → β} (h : ∀ a ∈ l, f a = some (g a)) :
    l.mapM f = some (l.map g) := by
  induction l with
  | nil => rfl
  | cons a l ih =>
    obtain ⟨ha, hl⟩ := List.forall_mem_cons.1 h
    rw [List.mapM_cons, ha, ih hl]
    rfl

/-- Pieces of `n` entries, one after the other, are the list up to there. -/
theorem flatMap_take_drop (l : List α) (n k : ℕ) :
    ((List.range k).flatMap fun i => (l.drop (i * n)).take n) = l.take (k * n) := by
  induction k with
  | zero => simp
  | succ k ih =>
    rw [List.range_succ, List.flatMap_append, ih, Nat.succ_mul, List.take_add]
    simp

/-- A loop of writes.  Each round either gives `look` the value `v` or leaves it alone, so after the
loop it is `v` if some round wrote, and else what it was. -/
theorem foldl_write {γ ι τ : Type*} {f : γ → ι → γ} {I : γ → Prop} {look : γ → τ}
    {wrote : ι → Prop} {v : τ} {l : List ι}
    (hround : ∀ c, ∀ i ∈ l, I c → I (f c i) ∧ (wrote i → look (f c i) = v)
      ∧ (¬wrote i → look (f c i) = look c)) {c : γ} (hc : I c) :
    I (l.foldl f c) ∧ ((∃ i ∈ l, wrote i) → look (l.foldl f c) = v)
      ∧ ((¬∃ i ∈ l, wrote i) → look (l.foldl f c) = look c) := by
  induction l generalizing c with
  | nil => exact ⟨hc, by simp, fun _ => rfl⟩
  | cons i l ih =>
    obtain ⟨hI, hwrote, hkept⟩ := hround c i (List.mem_cons_self ..) hc
    obtain ⟨hI', hwrote', hkept'⟩ := ih (fun c j hj => hround c j (List.mem_cons_of_mem _ hj)) hI
    -- a write is by this round or by a later one
    have hex : (∃ j ∈ i :: l, wrote j) ↔ wrote i ∨ ∃ j ∈ l, wrote j := by simp
    rw [List.foldl_cons, hex]
    refine ⟨hI', fun hsome => ?_, fun hnone => ?_⟩
    · by_cases hl : ∃ j ∈ l, wrote j
      · exact hwrote' hl
      · -- nothing after this round wrote, so it was this one
        rw [hkept' hl, hwrote (hsome.resolve_right hl)]
    · rw [not_or] at hnone
      rw [hkept' hnone.2, hkept hnone.1]

end Rows
