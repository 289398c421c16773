import Mathlib.Algebra.Order.Field.Basic
import Mathlib.Algebra.Order.Ring.Int
import Mathlib.Algebra.Order.Ring.Rat
import Mathlib.Tactic.Linarith
import Mathlib.Tactic.Tauto

/-!
# Boxes and regions of the plane

A box is half open: it holds its left and top edges and not its right and bottom ones.  A region
is a list of boxes that stands for their union.  Every operation comes with the lemma that says
which points the result holds, so regions can be computed with and reasoned about as sets.
-/

/-- A box by its corner and size; with a width or height of zero or less it is empty. -/
@[ext] structure Box (K : Type*) where
  x : K
  y : K
  w : K
  h : K
  deriving DecidableEq, Repr

namespace Box

variable {K : Type*}

/-- The box between two corners. -/
def ofBounds [Sub K] (x₀ y₀ x₁ y₁ : K) : Box K := { x := x₀, y := y₀, w := x₁ - x₀, h := y₁ - y₀ }

def translate [Add K] (b : Box K) (v : K × K) : Box K := { b with x := b.x + v.1, y := b.y + v.2 }

/-- Scales position and size. -/
def scale [Mul K] (b : Box K) (s : K) : Box K :=
  { x := b.x * s, y := b.y * s, w := b.w * s, h := b.h * s }

/-- The same box in other numbers. -/
def map {L : Type*} (f : K → L) (b : Box K) : Box L := { x := f b.x, y := f b.y, w := f b.w, h := f b.h }

/-- The centre. -/
def middle [DivisionRing K] (b : Box K) : K × K := (b.x + b.w / 2, b.y + b.h / 2)

section Order

variable [CommRing K] [LinearOrder K]

instance : Membership (K × K) (Box K) where
  mem b p := (b.x ≤ p.1 ∧ p.1 < b.x + b.w) ∧ (b.y ≤ p.2 ∧ p.2 < b.y + b.h)

theorem mem_def {b : Box K} {p : K × K} :
    p ∈ b ↔ (b.x ≤ p.1 ∧ p.1 < b.x + b.w) ∧ (b.y ≤ p.2 ∧ p.2 < b.y + b.h) := Iff.rfl

instance (b : Box K) (p : K × K) : Decidable (p ∈ b) := decidable_of_iff _ mem_def.symm

@[simp] theorem mem_ofBounds {x₀ y₀ x₁ y₁ : K} {p : K × K} :
    p ∈ ofBounds x₀ y₀ x₁ y₁ ↔ (x₀ ≤ p.1 ∧ p.1 < x₁) ∧ (y₀ ≤ p.2 ∧ p.2 < y₁) := by
  simp [mem_def, ofBounds]

/-- Nothing lies in it. -/
def isEmpty (b : Box K) : Bool := decide (b.w ≤ 0) || decide (b.h ≤ 0)

theorem isEmpty_iff [IsStrictOrderedRing K] {b : Box K} : b.isEmpty = true ↔ ∀ p, p ∉ b := by
  simp only [isEmpty, Bool.or_eq_true, decide_eq_true_eq]
  constructor
  · rintro (hw | hh) p hp
    · have := hp.1.1.trans_lt hp.1.2
      linarith
    · have := hp.2.1.trans_lt hp.2.2
      linarith
  · intro h
    by_contra hne
    rw [not_or, not_le, not_le] at hne
    exact h (b.x, b.y) ⟨⟨le_rfl, by simpa using hne.1⟩, ⟨le_rfl, by simpa using hne.2⟩⟩

def inter (b c : Box K) : Box K :=
  ofBounds (max b.x c.x) (max b.y c.y) (min (b.x + b.w) (c.x + c.w)) (min (b.y + b.h) (c.y + c.h))

@[simp] theorem mem_inter {b c : Box K} {p : K × K} : p ∈ b.inter c ↔ p ∈ b ∧ p ∈ c := by
  rw [inter, mem_ofBounds, max_le_iff, max_le_iff, lt_min_iff, lt_min_iff, mem_def, mem_def]
  tauto

/-- What is left of `b` without `c`: the parts above and below `c`, and beside it. -/
def diff (b c : Box K) : List (Box K) :=
  [ofBounds b.x b.y (b.x + b.w) (min (b.y + b.h) c.y),
    ofBounds b.x (max b.y (c.y + c.h)) (b.x + b.w) (b.y + b.h),
    ofBounds b.x (max b.y c.y) (min (b.x + b.w) c.x) (min (b.y + b.h) (c.y + c.h)),
    ofBounds (max b.x (c.x + c.w)) (max b.y c.y) (b.x + b.w) (min (b.y + b.h) (c.y + c.h))]

theorem mem_diff {b c : Box K} {p : K × K} : (∃ d ∈ b.diff c, p ∈ d) ↔ p ∈ b ∧ p ∉ c := by
  simp only [diff, List.mem_cons, List.not_mem_nil, or_false, exists_eq_or_imp, exists_eq_left,
    mem_ofBounds, max_le_iff, lt_min_iff]
  rw [mem_def, mem_def]
  constructor
  -- above, below, to the left or to the right
  · rintro (⟨hx, hy, hlt⟩ | ⟨hx, ⟨hy, hge⟩, hlt⟩ | ⟨⟨hx, hxb, hxc⟩, hy, hyb⟩ |
      ⟨⟨⟨hx, hxc⟩, hxb⟩, hy, hyb⟩)
    · exact ⟨⟨hx, hy, hlt.1⟩, fun h => absurd h.2.1 (not_le.2 hlt.2)⟩
    · exact ⟨⟨hx, hy, hlt⟩, fun h => absurd h.2.2 (not_lt.2 hge)⟩
    · exact ⟨⟨⟨hx, hxb⟩, hy.1, hyb.1⟩, fun h => absurd h.1.1 (not_le.2 hxc)⟩
    · exact ⟨⟨⟨hx, hxb⟩, hy.1, hyb.1⟩, fun h => absurd h.1.2 (not_lt.2 hxc)⟩
  · rintro ⟨⟨⟨hx, hxb⟩, hy, hyb⟩, hc⟩
    rcases lt_or_ge p.2 c.y with h | h
    · exact .inl ⟨⟨hx, hxb⟩, hy, hyb, h⟩
    rcases lt_or_ge p.2 (c.y + c.h) with h' | h'
    · -- beside `c`: to the left of it or to the right
      rcases lt_or_ge p.1 c.x with hl | hl
      · exact .inr (.inr (.inl ⟨⟨hx, hxb, hl⟩, ⟨hy, h⟩, hyb, h'⟩))
      · have hr : c.x + c.w ≤ p.1 := by
          by_contra hr
          exact hc ⟨⟨hl, not_le.1 hr⟩, h, h'⟩
        exact .inr (.inr (.inr ⟨⟨⟨hx, hr⟩, hxb⟩, ⟨hy, h⟩, hyb, h'⟩))
    · exact .inr (.inl ⟨⟨hx, hxb⟩, ⟨hy, h'⟩, hyb⟩)

end Order

end Box

/-- A union of boxes. -/
structure Region (K : Type*) where
  boxes : List (Box K)
  deriving DecidableEq, Repr

namespace Region

variable {K : Type*}

def empty : Region K := { boxes := [] }

def ofBox (b : Box K) : Region K := { boxes := [b] }

/-- The union. -/
def add (r s : Region K) : Region K := { boxes := r.boxes ++ s.boxes }

variable [CommRing K] [LinearOrder K]

instance : Membership (K × K) (Region K) where
  mem r p := ∃ b ∈ r.boxes, p ∈ b

theorem mem_def {r : Region K} {p : K × K} : p ∈ r ↔ ∃ b ∈ r.boxes, p ∈ b := Iff.rfl

instance (r : Region K) (p : K × K) : Decidable (p ∈ r) := decidable_of_iff _ mem_def.symm

def isEmpty (r : Region K) : Bool := r.boxes.all Box.isEmpty

/-- Takes a box out. -/
def subtractBox (r : Region K) (c : Box K) : Region K :=
  { boxes := r.boxes.flatMap fun b => b.diff c }

/-- Takes a region out. -/
def subtract (r s : Region K) : Region K := s.boxes.foldl subtractBox r

def inter (r s : Region K) : Region K :=
  { boxes := r.boxes.flatMap fun b => s.boxes.map b.inter }

@[simp] theorem notMem_empty {p : K × K} : p ∉ (empty : Region K) := by
  rintro ⟨b, hb, -⟩
  cases hb

@[simp] theorem mem_ofBox {b : Box K} {p : K × K} : p ∈ ofBox b ↔ p ∈ b := by
  simp [mem_def, ofBox]

@[simp] theorem mem_add {r s : Region K} {p : K × K} : p ∈ r.add s ↔ p ∈ r ∨ p ∈ s := by
  simp [mem_def, add, or_and_right, exists_or]

theorem isEmpty_iff [IsStrictOrderedRing K] {r : Region K} : r.isEmpty = true ↔ ∀ p, p ∉ r := by
  simp only [isEmpty, List.all_eq_true, Box.isEmpty_iff, mem_def, not_exists, not_and]
  exact ⟨fun h p b hb => h b hb p, fun h b hb p => h p b hb⟩

@[simp] theorem mem_subtractBox {r : Region K} {c : Box K} {p : K × K} :
    p ∈ r.subtractBox c ↔ p ∈ r ∧ p ∉ c := by
  simp only [mem_def, subtractBox, List.mem_flatMap]
  constructor
  · rintro ⟨d, ⟨b, hb, hd⟩, hp⟩
    obtain ⟨hpb, hpc⟩ := Box.mem_diff.1 ⟨d, hd, hp⟩
    exact ⟨⟨b, hb, hpb⟩, hpc⟩
  · rintro ⟨⟨b, hb, hpb⟩, hpc⟩
    obtain ⟨d, hd, hp⟩ := Box.mem_diff.2 ⟨hpb, hpc⟩
    exact ⟨d, ⟨b, hb, hd⟩, hp⟩

/-- Taking out box after box leaves the points that lie in none of them. -/
theorem mem_foldl_subtractBox {p : K × K} :
    ∀ (r : Region K) (cs : List (Box K)),
      p ∈ cs.foldl subtractBox r ↔ p ∈ r ∧ ∀ c ∈ cs, p ∉ c
  | r, [] => by simp
  | r, c :: cs => by
    rw [List.foldl_cons, mem_foldl_subtractBox (r.subtractBox c) cs, mem_subtractBox,
      List.forall_mem_cons, and_assoc]

@[simp] theorem mem_subtract {r s : Region K} {p : K × K} :
    p ∈ r.subtract s ↔ p ∈ r ∧ p ∉ s := by
  rw [subtract, mem_foldl_subtractBox]
  simp [mem_def]

@[simp] theorem mem_inter {r s : Region K} {p : K × K} : p ∈ r.inter s ↔ p ∈ r ∧ p ∈ s := by
  simp only [mem_def, inter, List.mem_flatMap, List.mem_map]
  constructor
  · rintro ⟨d, ⟨b, hb, c, hc, rfl⟩, hp⟩
    obtain ⟨hpb, hpc⟩ := Box.mem_inter.1 hp
    exact ⟨⟨b, hb, hpb⟩, ⟨c, hc, hpc⟩⟩
  · rintro ⟨⟨b, hb, hpb⟩, ⟨c, hc, hpc⟩⟩
    exact ⟨b.inter c, ⟨b, hb, c, hc, rfl⟩, Box.mem_inter.2 ⟨hpb, hpc⟩⟩

end Region
