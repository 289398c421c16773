import Mathlib.Algebra.Order.Field.Basic
import Mathlib.Data.Fin.VecNotation
import Mathlib.Data.Fintype.Basic
import Mathlib.Data.List.Induction
import Mathlib.Tactic.FinCases
import Mathlib.Tactic.LinearCombination

/-!
# Pictures made of layers

Colours have three channels, multiplied by the fourth, which is the alpha; `drawOver` draws one over
another.  A layering stacks shapes, and `compose` draws their contents from the bottom to the top.
A layer shows at a point when no opaque layer above it is there: `compose_congr` says that only
such layers matter for the picture, and `compose_eq_of_shows` that each of them can make the
picture anything.
-/

namespace Compose

/-- A colour with premultiplied alpha. -/
abbrev Colour (K : Type*) := Fin 4 → K

namespace Colour

variable {K : Type*}

def alpha (c : Colour K) : K := c 3

section Ring

variable [CommRing K]

def black : Colour K := ![0, 0, 0, 1]

def white : Colour K := ![1, 1, 1, 1]

/-- Draws `c` over `below`. -/
def drawOver (c below : Colour K) : Colour K := fun i => c i + (1 - c.alpha) * below i

@[simp] theorem alpha_black : (black : Colour K).alpha = 1 := rfl

@[simp] theorem alpha_white : (white : Colour K).alpha = 1 := rfl

theorem black_ne_white [Nontrivial K] : (black : Colour K) ≠ white := by
  intro h
  exact zero_ne_one (congrFun h 0)

/-- An opaque colour hides what is below it. -/
theorem drawOver_of_alpha {c : Colour K} (h : c.alpha = 1) (below : Colour K) :
    c.drawOver below = c := by
  funext i
  simp [drawOver, h]

@[simp] theorem drawOver_zero (below : Colour K) : drawOver 0 below = below := by
  funext i
  simp [drawOver, alpha]

/-- Only an opaque colour hides everything: one that hides two different colours is opaque. -/
theorem opaque_of_drawOver_eq [NoZeroDivisors K] {c below below' : Colour K} {i : Fin 4}
    (h : c.drawOver below = c.drawOver below') (hne : below i ≠ below' i) : c.alpha = 1 := by
  have hi : c i + (1 - c.alpha) * below i = c i + (1 - c.alpha) * below' i := congrFun h i
  have hmul : (1 - c.alpha) * (below i - below' i) = 0 := by
    linear_combination hi
  rcases mul_eq_zero.1 hmul with h0 | h0
  · exact (sub_eq_zero.1 h0).symm
  · exact absurd (sub_eq_zero.1 h0) hne

/-- Drawn over two colours, a colour gives the same if they are, or if it is opaque. -/
theorem drawOver_eq_iff [NoZeroDivisors K] {c below below' : Colour K} :
    c.drawOver below = c.drawOver below' ↔ below = below' ∨ c.alpha = 1 := by
  constructor
  · intro h
    by_cases heq : below = below'
    · exact .inl heq
    · obtain ⟨i, hi⟩ := Function.ne_iff.1 heq
      exact .inr (opaque_of_drawOver_eq h hi)
  · rintro (rfl | h)
    · rfl
    · rw [drawOver_of_alpha h, drawOver_of_alpha h]

end Ring

/-- The channels of a colour that can be seen: at most the alpha, which is at most one. -/
structure Valid [Zero K] [One K] [LE K] (c : Colour K) : Prop where
  nonneg : ∀ i, 0 ≤ c i
  le_alpha : ∀ i, c i ≤ c.alpha
  alpha_le : c.alpha ≤ 1

theorem valid_zero [Field K] [LinearOrder K] [IsStrictOrderedRing K] : Valid (0 : Colour K) :=
  ⟨fun _ => le_rfl, fun _ => le_rfl, zero_le_one⟩

theorem valid_black [Field K] [LinearOrder K] [IsStrictOrderedRing K] :
    Valid (black : Colour K) := by
  refine ⟨fun i => ?_, fun i => ?_, le_rfl⟩ <;> fin_cases i <;> simp [black, alpha]

theorem valid_white [Field K] [LinearOrder K] [IsStrictOrderedRing K] :
    Valid (white : Colour K) := by
  refine ⟨fun i => ?_, fun i => ?_, le_rfl⟩ <;> fin_cases i <;> simp [white, alpha]

end Colour

/-- Layers by name, from the bottom to the top, each with the points where it is. -/
structure Layering (κ P : Type*) where
  order : List κ
  shape : κ → P → Bool
  /-- Nothing shows through it. -/
  isOpaque : κ → Bool

namespace Layering

variable {κ P K : Type*} (L : Layering κ P)

/-- The layer `k` of the stack `l` is at the point, and no opaque layer above it is. -/
def ShowsIn (l : List κ) (k : κ) (p : P) : Prop :=
  ∃ pre post, l = pre ++ k :: post ∧ L.shape k p = true
    ∧ ∀ t ∈ post, L.shape t p = true → L.isOpaque t = false

def ShowsAt (k : κ) (p : P) : Prop := L.ShowsIn L.order k p

variable {L}

/-- What shows without the topmost layer shows with it, unless that is opaque and there. -/
theorem ShowsIn.snoc {l : List κ} {k t : κ} {p : P} (h : L.ShowsIn l k p)
    (ht : L.shape t p = true → L.isOpaque t = false) : L.ShowsIn (l ++ [t]) k p := by
  obtain ⟨pre, post, rfl, hk, hpost⟩ := h
  refine ⟨pre, post ++ [t], by simp, hk, fun t' ht' => ?_⟩
  rcases List.mem_append.1 ht' with ht' | ht'
  · exact hpost t' ht'
  · rwa [List.mem_singleton.1 ht']

theorem showsIn_top {l : List κ} {t : κ} {p : P} (ht : L.shape t p = true) :
    L.ShowsIn (l ++ [t]) t p :=
  ⟨l, [], rfl, ht, fun _ h => by cases h⟩

variable [CommRing K] (L)

/-- Draws the contents of one layer. -/
def drawLayer (content : κ → P → Colour K) (p : P) (below : Colour K) (k : κ) : Colour K :=
  if L.shape k p then (content k p).drawOver below else below

def composeIn (l : List κ) (content : κ → P → Colour K) (background : P → Colour K) (p : P) :
    Colour K :=
  l.foldl (L.drawLayer content p) (background p)

/-- The picture at a point. -/
def compose (content : κ → P → Colour K) (background : P → Colour K) (p : P) : Colour K :=
  L.composeIn L.order content background p

/-- Opaque layers are opaque where they are. -/
def Fills (content : κ → P → Colour K) : Prop :=
  ∀ k, L.isOpaque k = true → ∀ p, L.shape k p = true → (content k p).alpha = 1

variable {L} {content content' : κ → P → Colour K} {background : P → Colour K} {p : P}

theorem composeIn_congr :
    ∀ l : List κ, (∀ k ∈ l, L.isOpaque k = true → L.shape k p = true → (content k p).alpha = 1) →
      (∀ k, L.ShowsIn l k p → content k p = content' k p) →
        L.composeIn l content background p = L.composeIn l content' background p := by
  intro l
  induction l using List.reverseRecOn with
  | nil => exact fun _ _ => rfl
  | append_singleton l t ih =>
    intro hfills hsame
    have hfills' : ∀ k ∈ l, L.isOpaque k = true → L.shape k p = true → (content k p).alpha = 1 :=
      fun k hk => hfills k (List.mem_append_left _ hk)
    unfold composeIn at ih ⊢
    rw [List.foldl_append, List.foldl_append]
    simp only [List.foldl_cons, List.foldl_nil, drawLayer]
    by_cases ht : L.shape t p = true
    · rw [if_pos ht, if_pos ht, ← hsame t (showsIn_top ht)]
      cases hopaque : L.isOpaque t with
      | true =>
        -- nothing below an opaque layer matters
        have halpha := hfills t (List.mem_append_right _ (List.mem_singleton_self t)) hopaque ht
        rw [Colour.drawOver_of_alpha halpha, Colour.drawOver_of_alpha halpha]
      | false =>
        rw [ih hfills' fun k hk => hsame k (hk.snoc fun _ => hopaque)]
    · rw [if_neg ht, if_neg ht]
      exact ih hfills' fun k hk => hsame k (hk.snoc fun h => absurd h ht)

/-- **Only what shows matters**: two pictures of the same layering agree at a point when the
contents of every layer that shows there do. -/
theorem compose_congr (hfills : L.Fills content)
    (hsame : ∀ k, L.ShowsAt k p → content k p = content' k p) :
    L.compose content background p = L.compose content' background p :=
  composeIn_congr L.order (fun k _ hopaque => hfills k hopaque p) hsame

/-- From an opaque content upwards: what is below it does not matter. -/
theorem compose_eq_foldl {pre post : List κ} {k : κ} (horder : L.order = pre ++ k :: post)
    (hshape : L.shape k p = true) (halpha : (content k p).alpha = 1) :
    L.compose content background p = post.foldl (L.drawLayer content p) (content k p) := by
  have hdraw : ∀ below, L.drawLayer content p below k = content k p := by
    intro below
    rw [drawLayer, if_pos hshape, Colour.drawOver_of_alpha halpha]
  rw [compose, composeIn, horder, List.foldl_append, List.foldl_cons, hdraw]

/-- The same layers over two colours give the same, if the colours are or a layer is opaque. -/
theorem foldl_drawLayer_eq_iff [NoZeroDivisors K] (layers : List κ) (below below' : Colour K) :
    layers.foldl (L.drawLayer content p) below = layers.foldl (L.drawLayer content p) below'
      ↔ below = below' ∨ ∃ k ∈ layers, L.shape k p = true ∧ (content k p).alpha = 1 := by
  induction layers generalizing below below' with
  | nil => simp
  | cons k layers ih =>
    rw [List.foldl_cons, List.foldl_cons, ih, List.exists_mem_cons_iff]
    unfold drawLayer
    split_ifs with hk
    · rw [Colour.drawOver_eq_iff, or_assoc, and_iff_right hk]
    · rw [iff_false_intro fun h : _ ∧ (content k p).alpha = 1 => hk h.1, false_or]

/-- **What shows matters**: the picture has the colour of an opaque content that shows, when the
layers that could show through are empty there. -/
theorem compose_eq_of_shows {k : κ} (hk : L.ShowsAt k p) (halpha : (content k p).alpha = 1)
    (hempty : ∀ t, t ≠ k → L.isOpaque t = false → content t p = 0) :
    L.compose content background p = content k p := by
  obtain ⟨pre, post, horder, hshape, hpost⟩ := hk
  -- by induction on the layers above: each one is `k` again or shows nothing
  have hrest : ∀ post : List κ, (∀ t ∈ post, L.shape t p = true → L.isOpaque t = false) →
      post.foldl (L.drawLayer content p) (content k p) = content k p := by
    intro post
    induction post with
    | nil => exact fun _ => rfl
    | cons t post ih =>
      intro hpost
      have hdraw : L.drawLayer content p (content k p) t = content k p := by
        unfold drawLayer
        split_ifs with ht
        · by_cases htk : t = k
          · rw [htk, Colour.drawOver_of_alpha halpha]
          · rw [hempty t htk (hpost t (List.mem_cons_self ..) ht), Colour.drawOver_zero]
        · rfl
      rw [List.foldl_cons, hdraw]
      exact ih fun t' ht' => hpost t' (List.mem_cons_of_mem _ ht')
  rw [compose_eq_foldl horder hshape halpha]
  exact hrest post hpost

end Layering

end Compose
