import Mathlib.Algebra.Module.BigOperators
import Mathlib.Algebra.Order.BigOperators.Group.List
import Mathlib.Algebra.Order.Floor.Ring
import Mathlib.Data.Finsupp.Order
import Mathlib.Data.Rat.Floor
import Mathlib.LinearAlgebra.Finsupp.LinearCombination
import NoshareCover.Lib.Region

/-!
# Textures that are drawn scaled

A renderer reads a texture between its pixels with a filter, which is a weighted mean of some of
them.  Textures may have any rational vector space of colours, and drawing one is linear in its
colours (`sample_map`).  So a texture whose colours are weights of the pixels of another one tells
which of those a drawn pixel is made of, and `mem_support_sample` says that these are the pixels
that the filter reads.
-/

namespace Resample

abbrev Point := ℤ × ℤ

/-- A picture: the pixel `(i, j)` is the square between `i`, `j` and `i + 1`, `j + 1`. -/
structure Texture (M : Type*) where
  size : ℚ × ℚ
  pixel : Point → M

def Texture.map {M N : Type*} (f : M → N) (t : Texture M) : Texture N :=
  { size := t.size, pixel := fun p => f (t.pixel p) }

/-- The middle of a pixel. -/
def centre (p : Point) : ℚ × ℚ := (p.1 + 1 / 2, p.2 + 1 / 2)

/-- How a texture of a size is read at a point: the pixels and their weights. -/
structure Filter where
  weights : ℚ × ℚ → ℚ × ℚ → List (Point × ℚ)
  pos : ∀ size u, ∀ e ∈ weights size u, 0 < e.2
  sum_one : ∀ size u, ((weights size u).map Prod.snd).sum = 1
  inside : ∀ size u, 1 ≤ size.1 → 1 ≤ size.2 → ∀ e ∈ weights size u,
    (0 ≤ e.1.1 ∧ (e.1.1 : ℚ) < size.1) ∧ 0 ≤ e.1.2 ∧ (e.1.2 : ℚ) < size.2

/-! ### The usual filters -/

/-- The index of a pixel, kept inside the texture. -/
def clampIndex (n : ℚ) (i : ℤ) : ℤ := max 0 (min i (⌈n⌉ - 1))

/-- Along one axis: the pixel whose middle is at `u`, or the two around it. -/
def axisWeights (n u : ℚ) : List (ℤ × ℚ) :=
  let i := ⌊u - 1 / 2⌋
  let f := Int.fract (u - 1 / 2)
  if f = 0 then [(clampIndex n i, 1)] else [(clampIndex n i, 1 - f), (clampIndex n (i + 1), f)]

theorem clampIndex_inside {n : ℚ} (hn : 1 ≤ n) (i : ℤ) :
    0 ≤ clampIndex n i ∧ (clampIndex n i : ℚ) < n := by
  refine ⟨le_max_left .., ?_⟩
  have hceil : (⌈n⌉ : ℚ) < n + 1 := Int.ceil_lt_add_one n
  have hle : clampIndex n i ≤ ⌈n⌉ - 1 := by
    have hone : (1 : ℤ) ≤ ⌈n⌉ := Int.one_le_ceil_iff.2 (by linarith)
    exact max_le (by omega) (min_le_right ..)
  have hcast : (clampIndex n i : ℚ) ≤ ⌈n⌉ - 1 := by exact_mod_cast hle
  linarith

theorem axisWeights_pos (n u : ℚ) : ∀ e ∈ axisWeights n u, 0 < e.2 := by
  have hlt := Int.fract_lt_one (u - 1 / 2)
  have hnonneg := Int.fract_nonneg (u - 1 / 2)
  unfold axisWeights
  dsimp only
  split_ifs with hf
  · simp
  · have hpos := lt_of_le_of_ne hnonneg (Ne.symm hf)
    simp only [List.mem_cons, List.not_mem_nil, or_false]
    rintro e (rfl | rfl)
    · dsimp only
      linarith
    · exact hpos

theorem axisWeights_sum (n u : ℚ) : ((axisWeights n u).map Prod.snd).sum = 1 := by
  unfold axisWeights
  dsimp only
  split_ifs <;> simp

theorem axisWeights_index (n u : ℚ) : ∀ e ∈ axisWeights n u, ∃ i, e.1 = clampIndex n i := by
  unfold axisWeights
  dsimp only
  split_ifs <;> simp

namespace Filter

/-- The mean of the pixels around a point, by their distance along both axes. -/
def bilinear : Filter where
  weights size u := (axisWeights size.1 u.1).flatMap fun a =>
    (axisWeights size.2 u.2).map fun b => ((a.1, b.1), a.2 * b.2)
  pos size u e he := by
    obtain ⟨a, ha, he⟩ := List.mem_flatMap.1 he
    obtain ⟨b, hb, rfl⟩ := List.mem_map.1 he
    exact mul_pos (axisWeights_pos _ _ a ha) (axisWeights_pos _ _ b hb)
  sum_one size u := by
    have hrow : ∀ a : ℤ × ℚ, (((axisWeights size.2 u.2).map fun b =>
        (((a.1, b.1), a.2 * b.2) : Point × ℚ)).map Prod.snd).sum = a.2 := by
      intro a
      have hmul : ((axisWeights size.2 u.2).map fun b => a.2 * b.2).sum
          = a.2 * ((axisWeights size.2 u.2).map Prod.snd).sum := List.sum_map_mul_left ..
      rw [List.map_map]
      exact hmul.trans (by rw [axisWeights_sum, mul_one])
    rw [List.map_flatMap, List.flatMap_def, List.sum_flatten, List.map_map]
    rw [← axisWeights_sum size.1 u.1]
    congr 1
    exact List.map_congr_left fun a _ => hrow a
  inside size u h1 h2 e he := by
    obtain ⟨a, ha, he⟩ := List.mem_flatMap.1 he
    obtain ⟨b, hb, rfl⟩ := List.mem_map.1 he
    obtain ⟨i, hi⟩ := axisWeights_index _ _ a ha
    obtain ⟨j, hj⟩ := axisWeights_index _ _ b hb
    dsimp only
    rw [hi, hj]
    exact ⟨clampIndex_inside h1 i, clampIndex_inside h2 j⟩

/-- The pixel that the point is in. -/
def closest : Filter where
  weights size u := [((clampIndex size.1 ⌊u.1⌋, clampIndex size.2 ⌊u.2⌋), 1)]
  pos _ _ e he := by
    rw [List.mem_singleton.1 he]
    exact zero_lt_one
  sum_one _ _ := by simp
  inside size u h1 h2 e he := by
    rw [List.mem_singleton.1 he]
    exact ⟨clampIndex_inside h1 _, clampIndex_inside h2 _⟩

/-- At the middle of a pixel the filter reads that pixel. -/
def ReadsCentre (flt : Filter) : Prop :=
  ∀ (size : ℚ × ℚ) (p : Point), (0 ≤ p.1 ∧ (p.1 : ℚ) < size.1) → (0 ≤ p.2 ∧ (p.2 : ℚ) < size.2) →
    ∃ w, (p, w) ∈ flt.weights size (centre p)

theorem bilinear_readsCentre : bilinear.ReadsCentre := by
  -- in the middle of a pixel all the weight is its own
  have haxis : ∀ {n : ℚ} {i : ℤ}, 0 ≤ i ∧ (i : ℚ) < n →
      axisWeights n (i + 1 / 2) = [(i, 1)] := by
    rintro n i ⟨h0, hlt⟩
    have hceil : i < ⌈n⌉ := Int.lt_ceil.2 hlt
    have hclamp : clampIndex n i = i := by
      unfold clampIndex
      omega
    have hmid : (i : ℚ) + 1 / 2 - 1 / 2 = i := by ring
    unfold axisWeights
    dsimp only
    rw [hmid, Int.fract_intCast, if_pos rfl, Int.floor_intCast, hclamp]
  intro size p h1 h2
  refine ⟨1 * 1, ?_⟩
  simp only [bilinear, centre]
  rw [haxis h1, haxis h2]
  simp

end Filter

section Module

variable {M N : Type*} [AddCommGroup M] [Module ℚ M] [AddCommGroup N] [Module ℚ N]

/-- The texture at a point, in its own pixels. -/
def Filter.sample (flt : Filter) (t : Texture M) (u : ℚ × ℚ) : M :=
  ((flt.weights t.size u).map fun e => e.2 • t.pixel e.1).sum

/-- Where the texture is read when it is drawn over the box and this is the pixel. -/
def drawCoord (size : ℚ × ℚ) (box : Box ℚ) (p : Point) : ℚ × ℚ :=
  (((centre p).1 - box.x) / box.w * size.1, ((centre p).2 - box.y) / box.h * size.2)

/-- A pixel of the texture drawn over the box. -/
def drawTexture (flt : Filter) (t : Texture M) (box : Box ℚ) (p : Point) : M :=
  flt.sample t (drawCoord t.size box p)

theorem sample_map (flt : Filter) (L : M →ₗ[ℚ] N) (t : Texture M) (u : ℚ × ℚ) :
    flt.sample (t.map L) u = L (flt.sample t u) := by
  unfold Filter.sample Texture.map
  rw [map_list_sum, List.map_map]
  simp [Function.comp_def]

theorem drawTexture_map (flt : Filter) (L : M →ₗ[ℚ] N) (t : Texture M) (box : Box ℚ) (p : Point) :
    drawTexture flt (t.map L) box p = L (drawTexture flt t box p) :=
  sample_map flt L t _

/-- A channel that is the same all over the texture is the same in every draw of it. -/
theorem sample_eq_of_forall (flt : Filter) (t : Texture M) (u : ℚ × ℚ) {c : M}
    (h : ∀ e ∈ flt.weights t.size u, t.pixel e.1 = c) : flt.sample t u = c := by
  have hmap : (flt.weights t.size u).map (fun e => e.2 • t.pixel e.1)
      = ((flt.weights t.size u).map Prod.snd).map fun w => w • c := by
    rw [List.map_map]
    exact List.map_congr_left fun e he => by rw [h e he]; rfl
  rw [Filter.sample, hmap, ← List.sum_smul, flt.sum_one, one_smul]

/-- A texture that is drawn at its own size is read at the middles of its pixels. -/
theorem drawCoord_own {w h : ℚ} (hw : w ≠ 0) (hh : h ≠ 0) (p : Point) :
    drawCoord (w, h) { x := 0, y := 0, w, h } p = centre p := by
  simp only [drawCoord, sub_zero]
  rw [div_mul_cancel₀ _ hw, div_mul_cancel₀ _ hh]

end Module

/-- A mean of values up to `c` is only `c` if all of them are. -/
theorem sample_eq_iff_of_le (flt : Filter) (t : Texture ℚ) (u : ℚ × ℚ) {c : ℚ}
    (hle : ∀ p, t.pixel p ≤ c) :
    flt.sample t u = c ↔ ∀ e ∈ flt.weights t.size u, t.pixel e.1 = c := by
  refine ⟨fun hsum e he => ?_, sample_eq_of_forall flt t u⟩
  -- the weighted gaps to `c` add up to nothing
  have hgaps : ((flt.weights t.size u).map fun e => e.2 * (c - t.pixel e.1)).sum = 0 := by
    have hsplit : ((flt.weights t.size u).map fun e => e.2 * (c - t.pixel e.1)).sum
        + flt.sample t u = ((flt.weights t.size u).map Prod.snd).sum * c := by
      unfold Filter.sample
      rw [← List.sum_map_add, ← List.sum_map_mul_right]
      congr 1
      refine List.map_congr_left fun e _ => ?_
      rw [smul_eq_mul]
      ring
    rw [flt.sum_one, hsum] at hsplit
    linarith
  -- none of them is negative, so each is nothing
  have hnonneg : ∀ e ∈ flt.weights t.size u, 0 ≤ e.2 * (c - t.pixel e.1) := fun e he =>
    mul_nonneg (flt.pos _ _ e he).le (sub_nonneg.2 (hle e.1))
  have hzero := List.all_zero_of_le_zero_le_of_sum_eq_zero
    (List.forall_mem_map.2 hnonneg) hgaps (List.mem_map_of_mem he)
  rcases mul_eq_zero.1 hzero with hw | hgap
  · exact absurd hw (flt.pos _ _ e he).ne'
  · exact (sub_eq_zero.1 hgap).symm

/-! ### Which pixels a draw is made of -/

section Support

variable {P : Type*}

/-- The pixels that the filter reads, when each pixel of the texture stands for a set. -/
def Filter.reads (flt : Filter) (t : Texture (Set P)) (u : ℚ × ℚ) : Set P :=
  { q | ∃ e ∈ flt.weights t.size u, q ∈ t.pixel e.1 }

/-- The weights of the texture's pixels are not negative, and are positive on the sets. -/
structure Weighs (t : Texture (P →₀ ℚ)) (r : Texture (Set P)) : Prop where
  size : t.size = r.size
  nonneg : ∀ p, 0 ≤ t.pixel p
  support : ∀ p q, t.pixel p q ≠ 0 ↔ q ∈ r.pixel p

variable {t : Texture (P →₀ ℚ)} {r : Texture (Set P)}

theorem sample_nonneg (flt : Filter) (h : ∀ p, 0 ≤ t.pixel p) (u : ℚ × ℚ) :
    0 ≤ flt.sample t u := by
  refine List.sum_nonneg fun x hx => ?_
  obtain ⟨e, he, rfl⟩ := List.mem_map.1 hx
  exact smul_nonneg (flt.pos _ _ e he).le (h e.1)

/-- **A drawn pixel is made of what the filter reads.** -/
theorem mem_support_sample (flt : Filter) (h : Weighs t r) (u : ℚ × ℚ) (q : P) :
    flt.sample t u q ≠ 0 ↔ q ∈ flt.reads r u := by
  have hsum : flt.sample t u q = ((flt.weights t.size u).map fun e => e.2 * t.pixel e.1 q).sum := by
    have happly := map_list_sum (Finsupp.applyAddHom q)
      ((flt.weights t.size u).map fun e => e.2 • t.pixel e.1)
    rw [List.map_map] at happly
    exact happly
  -- the weights are positive and the texels are not negative
  have hterm : ∀ e ∈ flt.weights t.size u, 0 ≤ e.2 * t.pixel e.1 q := fun e he =>
    mul_nonneg (flt.pos _ _ e he).le (h.nonneg e.1 q)
  have hmem : q ∈ flt.reads r u ↔ ∃ e ∈ flt.weights t.size u, q ∈ r.pixel e.1 := by
    rw [Filter.reads, h.size]
    rfl
  rw [hsum, hmem]
  constructor
  · intro hne
    by_contra hnone
    refine hne (List.sum_eq_zero fun x hx => ?_)
    obtain ⟨e, he, rfl⟩ := List.mem_map.1 hx
    have hzero : t.pixel e.1 q = 0 := by
      by_contra hq
      exact hnone ⟨e, he, (h.support e.1 q).1 hq⟩
    rw [hzero, mul_zero]
  · -- the terms are not negative, so they don't cancel
    rintro ⟨e, he, hq⟩ hzero
    have hall := List.all_zero_of_le_zero_le_of_sum_eq_zero
      (List.forall_mem_map.2 hterm) hzero (List.mem_map_of_mem he)
    rcases mul_eq_zero.1 hall with hw | hw
    · exact absurd hw (flt.pos _ _ e he).ne'
    · exact (h.support e.1 q).2 hq hw

end Support

/-! ### Colours from weights -/

section Mix

variable {P M : Type*} [AddCommGroup M] [Module ℚ M]

/-- The weighted sum of colours. -/
noncomputable def mix (f : P → M) : (P →₀ ℚ) →ₗ[ℚ] M := Finsupp.linearCombination ℚ f

@[simp] theorem mix_single (f : P → M) (q : P) : mix f (Finsupp.single q 1) = f q := by
  simp [mix]

/-- Colours without weight do not matter. -/
theorem mix_congr {f g : P → M} {w : P →₀ ℚ} (h : ∀ q, w q ≠ 0 → f q = g q) :
    mix f w = mix g w := by
  rw [mix, mix, Finsupp.linearCombination_apply, Finsupp.linearCombination_apply]
  exact Finsupp.sum_congr fun q hq => by rw [h q (Finsupp.mem_support_iff.1 hq)]

/-- One colour with weight that changes alone changes the sum. -/
theorem mix_ne {f g : P → M} {w : P →₀ ℚ} {q : P} (hw : w q ≠ 0) (hq : f q ≠ g q)
    (hrest : ∀ q', q' ≠ q → f q' = g q') : mix f w ≠ mix g w := by
  -- the two mixes differ by `q` alone
  have hdiff : mix f w - mix g w = w q • (f q - g q) := by
    have hsub : mix f w - mix g w = mix (fun q' => f q' - g q') w := by
      simp only [mix, Finsupp.linearCombination_apply, Finsupp.sum, smul_sub,
        Finset.sum_sub_distrib]
    have hsingle : mix (fun q' => f q' - g q') w = w q • (f q - g q) := by
      rw [mix, Finsupp.linearCombination_apply, Finsupp.sum, Finset.sum_eq_single q]
      · intro q' _ hne
        rw [hrest q' hne, sub_self, smul_zero]
      · intro hnot
        rw [Finsupp.notMem_support_iff.1 hnot, zero_smul]
    exact hsub.trans hsingle
  intro heq
  rw [heq, sub_self] at hdiff
  have hzero := congrArg ((w q)⁻¹ • ·) hdiff
  rw [smul_zero, inv_smul_smul₀ hw] at hzero
  exact hq (sub_eq_zero.1 hzero.symm)

end Mix

end Resample
