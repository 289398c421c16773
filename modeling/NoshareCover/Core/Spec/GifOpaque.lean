import NoshareCover.Core.Spec.GifPixels

/-!
# Which pixels of a GIF are opaque

A canvas pixel is `Solid` when its alpha is 255.  Over a background that is, all pixels are.  Over a
transparent one a pixel of a picture is solid exactly when its frame paints it, or an earlier frame
did that was neither undone nor cleared there since (`solid_picture_iff`).
-/

namespace NoshareCover

/-! ### What stays of a frame -/

namespace GifFrame

/-- A frame before the `i`th painted the pixel for good: it was not undone, and neither its disposal
nor that of a later frame cleared the pixel. -/
def Stays (w h : ℕ) (frames : List GifFrame) (n i : ℕ) : Prop :=
  ∃ j < i, ∃ f, frames[j]? = some f ∧ f.Paints w h n ∧ f.dispose ≠ .previous
    ∧ ∀ k, j ≤ k → k < i → ∀ f', frames[k]? = some f' → f'.dispose = .background → ¬f'.Clears w n

/-- The pixel is there when the `i`th frame shows. -/
def Painted (w h : ℕ) (frames : List GifFrame) (n i : ℕ) : Prop :=
  (∃ f, frames[i]? = some f ∧ f.Paints w h n) ∨ Stays w h frames n i

theorem not_stays_zero {w h : ℕ} {frames : List GifFrame} {n : ℕ} : ¬Stays w h frames n 0 := by
  rintro ⟨j, hj, _⟩
  omega

theorem stays_succ {w h : ℕ} {frames : List GifFrame} {n i : ℕ} {f : GifFrame}
    (hf : frames[i]? = some f) :
    Stays w h frames n (i + 1) ↔
      ((f.Paints w h n ∧ f.dispose ≠ .previous) ∨ Stays w h frames n i)
        ∧ (f.dispose = .background → ¬f.Clears w n) := by
  constructor
  -- the frame that painted is an earlier one, or frame `i` itself
  · rintro ⟨j, hj, fj, hfj, hpaints, hdispose, hkeep⟩
    refine ⟨?_, hkeep i (by omega) (by omega) f hf⟩
    rcases Nat.lt_succ_iff_lt_or_eq.1 hj with hlt | rfl
    -- an earlier one: the frames between are as they were
    · right
      exact ⟨j, hlt, fj, hfj, hpaints, hdispose, fun k hjk hk => hkeep k hjk (by omega)⟩
    -- frame `i`: nothing between it and the end
    · left
      rw [hf] at hfj
      obtain rfl := Option.some.inj hfj
      exact ⟨hpaints, hdispose⟩
  -- the other way, where no frame between may clear the pixel
  · rintro ⟨hpaints | hstays, hclear⟩
    · refine ⟨i, by omega, f, hf, hpaints.1, hpaints.2, fun k hik hk f' hf' => ?_⟩
      obtain rfl : k = i := by omega
      rw [hf] at hf'
      obtain rfl := Option.some.inj hf'
      exact hclear
    · obtain ⟨j, hj, fj, hfj, hpaints, hdispose, hkeep⟩ := hstays
      refine ⟨j, by omega, fj, hfj, hpaints, hdispose, fun k hjk hk f' hf' => ?_⟩
      rcases Nat.lt_succ_iff_lt_or_eq.1 hk with hlt | rfl
      · exact hkeep k hjk hlt f' hf'
      · rw [hf] at hf'
        obtain rfl := Option.some.inj hf'
        exact hclear

end GifFrame

/-! ### Opaque pixels -/

namespace GifSource

def Solid (canvas : List Bgra) (n : ℕ) : Prop := ∃ px, canvas[n]? = some px ∧ px.a = 255

theorem looks_solid {N n : ℕ} (hn : n < N) : Looks N n (Solid · n) fun px => px.a = 255 where
  inside := hn
  set_self c px hc := by
    unfold Solid
    rw [List.getElem?_set, if_pos rfl, if_pos (by omega)]
    simp
  set_ne c m px hne := by
    unfold Solid
    rw [List.getElem?_set, if_neg hne]

variable {g : GifSource}

theorem solid_blit {f : GifFrame} {n : ℕ} {c : List Bgra} (hc : c.length = g.width * g.height)
    (hn : n < g.width * g.height) :
    (blit g f c).length = g.width * g.height
      ∧ (Solid (blit g f c) n ↔ f.Paints g.width g.height n ∨ Solid c n) := by
  -- what a blit writes is opaque
  have hopaque : ∀ y < f.height, ∀ x < f.width, f.PaintsAt g.width g.height y x n →
      ((f.color y x).a = 255) = True := fun _ _ _ _ _ => eq_true rfl
  obtain ⟨hlen, hpaints, hkept⟩ := (looks_solid hn).blit hopaque hc
  refine ⟨hlen, ?_⟩
  by_cases hp : f.Paints g.width g.height n
  · simp [hpaints hp, hp]
  · simp [hkept hp, hp]

theorem solid_fillRect {f : GifFrame} {n : ℕ} (color : Bgra) {c : List Bgra}
    (hc : c.length = g.width * g.height) (hn : n < g.width * g.height) :
    (fillRect g f.left f.top f.width f.height color c).length = g.width * g.height
      ∧ (Solid (fillRect g f.left f.top f.width f.height color c) n ↔
        (f.Clears g.width n ∧ color.a = 255) ∨ (¬f.Clears g.width n ∧ Solid c n)) := by
  obtain ⟨hlen, hfilled, hkept⟩ := (looks_solid hn).fillRect f color hc
  refine ⟨hlen, ?_⟩
  by_cases hclear : f.Clears g.width n
  · simp [hfilled hclear, hclear]
  · simp [hkept hclear, hclear]

/-! ### Pictures -/

theorem solid_blank {n : ℕ} (hn : n < g.width * g.height) : Solid g.blank n ↔ g.bg.a = 255 := by
  unfold Solid blank
  rw [List.getElem?_replicate, if_pos hn]
  simp

/-- Under a frame: either all is background, or what stays. -/
theorem solid_under_iff {n : ℕ} (hn : n < g.width * g.height) :
    ∀ i ≤ g.frames.length, (g.under i).length = g.width * g.height
      ∧ (Solid (g.under i) n ↔
        g.bg.a = 255 ∨ GifFrame.Stays g.width g.height g.frames n i) := by
  intro i
  -- by induction on the frames below
  induction i with
  | zero =>
    intro _
    refine ⟨List.length_replicate .., ?_⟩
    rw [under, solid_blank hn]
    exact ⟨.inl, fun h => h.resolve_right GifFrame.not_stays_zero⟩
  | succ i ih =>
    intro hi
    obtain ⟨hlen, hsolid⟩ := ih (by omega)
    have hf : g.frames[i]? = some g.frames[i] := List.getElem?_eq_getElem (by omega)
    generalize g.frames[i] = f at hf
    obtain ⟨hblen, hblit⟩ := solid_blit (f := f) hlen hn
    have hpic : g.picture i = blit g f (g.under i) := by
      rw [picture, hf]
    rw [under_succ hf, GifFrame.stays_succ hf, hpic]
    -- what is under the next frame is what this one's disposal leaves
    cases hd : f.dispose with
    | background =>
      obtain ⟨hflen, hfill⟩ := solid_fillRect (f := f) g.bg hblen hn
      refine ⟨hflen, ?_⟩
      rw [hfill, hblit, hsolid]
      by_cases hc : f.Clears g.width n <;> simp [hc, or_left_comm]
    | previous =>
      refine ⟨hlen, ?_⟩
      rw [hsolid]
      simp
    | keep =>
      refine ⟨hblen, ?_⟩
      rw [hblit, hsolid]
      simp [or_left_comm]
    | any =>
      refine ⟨hblen, ?_⟩
      rw [hblit, hsolid]
      simp [or_left_comm]

/-- **The opaque pixels of a picture**: all of them over a background, else what was painted. -/
theorem solid_picture_iff {n i : ℕ} (hn : n < g.width * g.height) (hi : i < g.frames.length) :
    (g.picture i).length = g.width * g.height
      ∧ (Solid (g.picture i) n ↔
        g.bg.a = 255 ∨ GifFrame.Painted g.width g.height g.frames n i) := by
  obtain ⟨hlen, hsolid⟩ := solid_under_iff hn i hi.le
  have hf : g.frames[i]? = some g.frames[i] := List.getElem?_eq_getElem hi
  generalize g.frames[i] = f at hf
  obtain ⟨hblen, hblit⟩ := solid_blit (f := f) hlen hn
  have hpic : g.picture i = blit g f (g.under i) := by
    rw [picture, hf]
  rw [hpic]
  refine ⟨hblen, hblit.trans ?_⟩
  rw [hsolid]
  -- the pixels of the frame on top are there whatever its disposal is
  have hat : (∃ f', g.frames[i]? = some f' ∧ f'.Paints g.width g.height n)
      ↔ f.Paints g.width g.height n := by
    rw [hf]
    simp
  unfold GifFrame.Painted
  rw [hat, or_left_comm]

end GifSource

end NoshareCover
