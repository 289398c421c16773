import Mathlib.Data.List.Basic
import Mathlib.Data.Nat.Basic
import Mathlib.Order.Basic

/-!
# Cursors into a concatenation

Items stand for parts of a list one after the other.  A cursor that walks the list keeps the item
that a position lies in (`Cursor.At.stay`), and moves to the next one where the part of its item
ends (`Cursor.At.next`).  Run-length coding is the case where the part of an item is one value, repeated;
a table of steps gives the value from a position on.
-/

namespace Cursor

variable {α β : Type*} {part : α → List β} {items : List α} {i n : ℕ}

/-- The length of the parts of the first `i` items. -/
def covered (part : α → List β) (items : List α) (i : ℕ) : ℕ := ((items.take i).flatMap part).length

@[simp] theorem covered_zero : covered part items 0 = 0 := by simp [covered]

theorem covered_succ {a : α} (ha : items[i]? = some a) :
    covered part items (i + 1) = covered part items i + (part a).length := by
  rw [covered, List.take_add_one, ha]
  simp [covered]

theorem covered_of_length_le (h : items.length ≤ i) :
    covered part items i = (items.flatMap part).length := by
  rw [covered, List.take_of_length_le h]

/-- Position `n` of the list lies in the part of item `i`. -/
structure At (part : α → List β) (items : List α) (i n : ℕ) : Prop where
  le : covered part items i ≤ n
  lt : n < covered part items (i + 1)

namespace At

theorem exists_item (h : At part items i n) : ∃ a, items[i]? = some a := by
  rcases hi : items[i]? with _ | a
  · have hlen := List.getElem?_eq_none_iff.1 hi
    have hle := h.le
    have hlt := h.lt
    rw [covered_of_length_le hlen] at hle
    rw [covered_of_length_le (hlen.trans i.le_succ)] at hlt
    exact absurd hlt hle.not_gt
  · exact ⟨a, rfl⟩

/-- What stands at the position. -/
theorem getElem?_flatMap (h : At part items i n) {a : α} (ha : items[i]? = some a) :
    (items.flatMap part)[n]? = (part a)[n - covered part items i]? := by
  obtain ⟨hi, rfl⟩ := List.getElem?_eq_some_iff.1 ha
  have hsplit : items.flatMap part = (items.take i).flatMap part ++
      (part items[i] ++ (items.drop (i + 1)).flatMap part) := by
    conv_lhs => rw [← List.take_append_drop i items, List.drop_eq_getElem_cons hi]
    rw [List.flatMap_append, List.flatMap_cons]
  have hlt := h.lt
  rw [covered_succ ha] at hlt
  rw [hsplit, List.getElem?_append_right h.le, List.getElem?_append_left]
  · rfl
  · have := h.le
    show n - covered part items i < _
    omega

theorem start (hpos : ∀ a ∈ items, part a ≠ []) (hne : items ≠ []) : At part items 0 0 where
  le := covered_zero.le
  lt := by
    obtain ⟨a, rest, rfl⟩ := List.exists_cons_of_ne_nil hne
    have ha := hpos a (List.mem_cons_self ..)
    rw [covered_succ (a := a) rfl, covered_zero, Nat.zero_add]
    exact List.length_pos_iff.2 ha

/-- Within the part of its item the cursor stays. -/
theorem stay (h : At part items i n) (hlt : n + 1 < covered part items (i + 1)) :
    At part items i (n + 1) := ⟨h.le.trans n.le_succ, hlt⟩

theorem next_eq (h : At part items i n) (hge : covered part items (i + 1) ≤ n + 1) :
    covered part items (i + 1) = n + 1 := by
  have := h.lt
  omega

/-- Behind the part of its item the cursor moves on, if anything is left. -/
theorem next (hpos : ∀ a ∈ items, part a ≠ []) (h : At part items i n)
    (hn : n + 1 < (items.flatMap part).length) (hge : covered part items (i + 1) ≤ n + 1) :
    At part items (i + 1) (n + 1) := by
  refine ⟨hge, ?_⟩
  have heq := h.next_eq hge
  rcases hi : items[i + 1]? with _ | a
  · have hlen := List.getElem?_eq_none_iff.1 hi
    rw [covered_of_length_le hlen] at heq
    exact absurd hn heq.le.not_gt
  · have ha := List.length_pos_iff.2 (hpos a (List.mem_of_getElem? hi))
    rw [covered_succ hi, heq]
    omega

end At

end Cursor

/-! ### Tables of steps -/

namespace StepTable

variable {α : Type*} {start : α → ℕ} {table : List α} {r c : ℕ}

/-- The last entry that starts at `c` or before. -/
def lookup (start : α → ℕ) (table : List α) (c : ℕ) : Option α :=
  (table.filter fun a => decide (start a ≤ c)).getLast?

/-- Entry `r` starts no later than `c`, and the entry after it, if any, does. -/
structure InForce (start : α → ℕ) (table : List α) (r c : ℕ) : Prop where
  le : ∃ a, table[r]? = some a ∧ start a ≤ c
  lt : ∀ a, table[r + 1]? = some a → c < start a

/-- In a table with rising starts the entry in force is the one looked up. -/
theorem InForce.lookup_eq (hsorted : table.Pairwise fun a b => start a < start b)
    (h : InForce start table r c) : lookup start table c = table[r]? := by
  obtain ⟨a, ha, hle⟩ := h.le
  obtain ⟨hr, rfl⟩ := List.getElem?_eq_some_iff.1 ha
  -- the table is split at the entry in force
  have hsplit : table = table.take r ++ table[r] :: table.drop (r + 1) := by
    rw [← List.drop_eq_getElem_cons hr, List.take_append_drop]
  -- what is before it starts earlier
  have hbefore : ∀ b ∈ table.take r, start b ≤ c := by
    intro b hb
    rw [hsplit, List.pairwise_append] at hsorted
    exact (hsorted.2.2 b hb _ (List.mem_cons_self ..)).le.trans hle
  -- what is behind it starts later than `c`
  have hafter : ∀ b ∈ table.drop (r + 1), c < start b := by
    intro b hb
    rcases hd : table.drop (r + 1) with _ | ⟨next, rest⟩
    · rw [hd] at hb
      exact absurd hb List.not_mem_nil
    · have hnext : table[r + 1]? = some next := by
        rw [← List.head?_drop, hd, List.head?_cons]
      have hlt := h.lt next hnext
      rw [hd, List.mem_cons] at hb
      rcases hb with rfl | hb
      · exact hlt
      · have htail : (next :: rest).Pairwise fun a b => start a < start b := by
          rw [← hd]
          exact hsorted.sublist (List.drop_sublist _ _)
        exact hlt.trans (List.rel_of_pairwise_cons htail hb)
  -- so the entries that have started end with it
  have hfilter : table.filter (fun b => decide (start b ≤ c)) = table.take r ++ [table[r]] := by
    conv_lhs => rw [hsplit]
    have hhead : decide (start table[r] ≤ c) = true := decide_eq_true hle
    have hnil : (table.drop (r + 1)).filter (fun b => decide (start b ≤ c)) = [] :=
      List.filter_eq_nil_iff.2 fun b hb => by simpa using hafter b hb
    rw [List.filter_append, List.filter_eq_self.2 fun b hb => decide_eq_true (hbefore b hb),
      List.filter_cons, hhead, hnil]
    rfl
  rw [lookup, hfilter, List.getLast?_append, ha]
  rfl

theorem InForce.stay (h : InForce start table r c)
    (hlt : ∀ a, table[r + 1]? = some a → c + 1 < start a) : InForce start table r (c + 1) := by
  obtain ⟨a, ha, hle⟩ := h.le
  exact ⟨⟨a, ha, hle.trans c.le_succ⟩, hlt⟩

theorem InForce.next (hsorted : table.Pairwise fun a b => start a < start b)
    (h : InForce start table r c) {a : α} (ha : table[r + 1]? = some a) (hle : start a ≤ c + 1) :
    InForce start table (r + 1) (c + 1) := by
  refine ⟨⟨a, ha, hle⟩, fun b hb => ?_⟩
  have hlt := h.lt a ha
  obtain ⟨hi, hai⟩ := List.getElem?_eq_some_iff.1 ha
  obtain ⟨hj, hbj⟩ := List.getElem?_eq_some_iff.1 hb
  have hab := List.pairwise_iff_getElem.1 hsorted _ _ hi hj (Nat.lt_succ_self _)
  rw [hai, hbj] at hab
  exact lt_of_le_of_lt hlt hab

end StepTable

/-! ### Run-length coding -/

namespace RunLength

variable {α : Type*}

/-- So many copies of one value. -/
def copies (run : ℕ × α) : List α := List.replicate run.1 run.2

/-- The list that runs stand for. -/
def expand (runs : List (ℕ × α)) : List α := runs.flatMap copies

@[simp] theorem expand_nil : expand ([] : List (ℕ × α)) = [] := rfl

@[simp] theorem expand_cons (run : ℕ × α) (runs : List (ℕ × α)) :
    expand (run :: runs) = List.replicate run.1 run.2 ++ expand runs := rfl

theorem copies_ne_nil {run : ℕ × α} (h : 0 < run.1) : copies run ≠ [] := by
  rw [copies, Ne, List.replicate_eq_nil_iff]
  exact h.ne'

/-- The value at a position is that of the run the position lies in. -/
theorem getElem?_expand {runs : List (ℕ × α)} {i n : ℕ} (h : Cursor.At copies runs i n)
    {run : ℕ × α} (hrun : runs[i]? = some run) : (expand runs)[n]? = some run.2 := by
  have hlt := h.lt
  have hle := h.le
  rw [Cursor.covered_succ hrun, copies, List.length_replicate] at hlt
  rw [expand, h.getElem?_flatMap hrun, copies, List.getElem?_replicate_of_lt]
  omega

/-- One more copy in front. -/
def push [DecidableEq α] (a : α) : List (ℕ × α) → List (ℕ × α)
  | [] => [(1, a)]
  | (n, b) :: runs => if a = b then (n + 1, b) :: runs else (1, a) :: (n, b) :: runs

def compress [DecidableEq α] (l : List α) : List (ℕ × α) := l.foldr push []

theorem expand_push [DecidableEq α] (a : α) (runs : List (ℕ × α)) :
    expand (push a runs) = a :: expand runs := by
  cases runs with
  | nil => rfl
  | cons run runs =>
    obtain ⟨n, b⟩ := run
    rw [push]
    split_ifs with hab
    · rw [hab, expand_cons, expand_cons, List.replicate_succ, List.cons_append]
    · rw [expand_cons]
      rfl

theorem expand_compress [DecidableEq α] (l : List α) : expand (compress l) = l := by
  induction l with
  | nil => rfl
  | cons a l ih =>
    show expand (push a (compress l)) = a :: l
    rw [expand_push, ih]

theorem pos_push [DecidableEq α] (a : α) {runs : List (ℕ × α)} (h : ∀ run ∈ runs, 0 < run.1) :
    ∀ run ∈ push a runs, 0 < run.1 := by
  cases runs with
  | nil => simp [push]
  | cons run runs =>
    obtain ⟨n, b⟩ := run
    rw [List.forall_mem_cons] at h
    rw [push]
    split_ifs with hab
    · exact List.forall_mem_cons.2 ⟨n.succ_pos, h.2⟩
    · exact List.forall_mem_cons.2 ⟨Nat.one_pos, List.forall_mem_cons.2 h⟩

theorem pos_compress [DecidableEq α] (l : List α) : ∀ run ∈ compress l, 0 < run.1 := by
  induction l with
  | nil => simp [compress]
  | cons a l ih => exact pos_push a ih

theorem length_run_le {runs : List (ℕ × α)} {run : ℕ × α} (h : run ∈ runs) :
    run.1 ≤ (expand runs).length := by
  induction runs with
  | nil => exact absurd h List.not_mem_nil
  | cons first runs ih =>
    rw [expand_cons, List.length_append, List.length_replicate]
    rcases List.mem_cons.1 h with rfl | h
    · exact Nat.le_add_right _ _
    · exact (ih h).trans (Nat.le_add_left _ _)

theorem mem_expand {runs : List (ℕ × α)} {run : ℕ × α} (h : run ∈ runs) (hpos : 0 < run.1) :
    run.2 ∈ expand runs :=
  List.mem_flatMap.2 ⟨run, h, List.mem_replicate.2 ⟨hpos.ne', rfl⟩⟩

theorem length_le_expand {runs : List (ℕ × α)} (hpos : ∀ run ∈ runs, 0 < run.1) :
    runs.length ≤ (expand runs).length := by
  induction runs with
  | nil => exact le_rfl
  | cons run runs ih =>
    have hrest := ih fun run' h => hpos run' (List.mem_cons_of_mem run h)
    have hfirst := hpos run (List.mem_cons_self ..)
    rw [expand_cons, List.length_append, List.length_replicate, List.length_cons]
    omega

end RunLength
