import Mathlib.Logic.Function.Iterate

/-!
# Calls that take items off a list

A call of `Feed.next` takes the first item that is not passed over.  A component whose calls do the
same to the items that it still has `Feed.Follows` it, and then every item comes out of some call
(`Feed.Follows.exists_call_iff`).
-/

namespace Feed

variable {σ β : Type*}

/-- The first item that is not passed over, and what is left behind it. -/
def next : List (Option β) → Option β × List (Option β)
  | [] => (none, [])
  | none :: items => next items
  | some b :: items => (some b, items)

/-- The items after `n` calls. -/
def left (items : List (Option β)) (n : ℕ) : List (Option β) := (fun l => (next l).2)^[n] items

theorem left_succ (items : List (Option β)) (n : ℕ) :
    left items (n + 1) = left (next items).2 n := rfl

theorem left_nil (n : ℕ) : left ([] : List (Option β)) n = [] := by
  induction n with
  | zero => rfl
  | succ n ih => rw [left_succ, next, ih]

theorem next_left_none (items : List (Option β)) (n : ℕ) :
    next (left (none :: items) n) = next (left items n) := by
  cases n with
  | zero => rfl
  | succ n => rfl

/-- Every item comes out of some call. -/
theorem exists_next_iff (items : List (Option β)) (b : β) :
    (∃ n, (next (left items n)).1 = some b) ↔ some b ∈ items := by
  induction items with
  | nil => simp [left_nil, next]
  | cons item items ih =>
    cases item with
    -- a gap is skipped
    | none => simp [next_left_none, ih]
    | some a =>
      rw [List.mem_cons, ← ih]
      -- the first element comes first, any other from the rest
      constructor
      · rintro ⟨n, hn⟩
        cases n with
        | zero => exact .inl hn.symm
        | succ n => exact .inr ⟨n, hn⟩
      · rintro (hb | ⟨n, hn⟩)
        · exact ⟨0, hb.symm⟩
        · exact ⟨n + 1, hn⟩

/-- The calls of a component do to its items what `next` does. -/
structure Follows (call : σ → Option β × σ) (items : σ → List (Option β)) : Prop where
  answer : ∀ s, (call s).1 = (next (items s)).1
  left : ∀ s, items (call s).2 = (next (items s)).2

theorem Follows.items_iterate {call : σ → Option β × σ} {items : σ → List (Option β)}
    (h : Follows call items) (n : ℕ) :
    ∀ s, items ((fun s => (call s).2)^[n] s) = Feed.left (items s) n := by
  induction n with
  | zero => exact fun _ => rfl
  | succ n ih =>
    intro s
    rw [Function.iterate_succ_apply, ih, left_succ, h.left]

theorem Follows.exists_call_iff {call : σ → Option β × σ} {items : σ → List (Option β)}
    (h : Follows call items) (s : σ) (b : β) :
    (∃ n, (call ((fun s => (call s).2)^[n] s)).1 = some b) ↔ some b ∈ items s := by
  rw [← exists_next_iff]
  refine exists_congr fun n => ?_
  rw [h.answer, h.items_iterate]

/-- Call `n` gives item `n` of those that are not passed over. -/
theorem next_left (items : List (Option β)) (n : ℕ) :
    (next (left items n)).1 = (items.filterMap id)[n]? := by
  induction items generalizing n with
  | nil => rw [left_nil, next, List.filterMap_nil, List.getElem?_nil]
  | cons item items ih =>
    cases item with
    | none =>
      rw [next_left_none, ih]
      rfl
    | some a =>
      cases n with
      | zero => rfl
      | succ n => exact ih n

theorem Follows.answer_iterate {call : σ → Option β × σ} {items : σ → List (Option β)}
    (h : Follows call items) (s : σ) (n : ℕ) :
    (call ((fun s => (call s).2)^[n] s)).1 = ((items s).filterMap id)[n]? := by
  rw [h.answer, h.items_iterate, next_left]

end Feed
