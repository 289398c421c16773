import NoshareCover.Core.Spec.GifCanvas
import NoshareCover.Lib.Rows

/-!
# What a frame does to a pixel

The loops of `blit` and `fillRect` write pixels one by one.  `Looks` is a way to look at one pixel of
a canvas (its alpha, or all of it), and `Looks.blit` and `Looks.fillRect` say what is seen there after
a whole frame or rectangle.
-/

namespace NoshareCover

namespace GifFrame

/-- The frame's pixel `(x, y)` is visible, and the blit puts it at this canvas pixel. -/
def PaintsAt (w h : ℕ) (f : GifFrame) (y x n : ℕ) : Prop :=
  (f.top + y < h ∧ f.left + x < w) ∧ GifSource.srcAlpha f y x ≠ 0
    ∧ GifSource.pixelIndex ((f.top + y) * w + (f.left + x)) = n

def Paints (w h : ℕ) (f : GifFrame) (n : ℕ) : Prop :=
  ∃ y < f.height, ∃ x < f.width, f.PaintsAt w h y x n

/-- The canvas pixel is in the frame's rectangle. -/
def Clears (w : ℕ) (f : GifFrame) (n : ℕ) : Prop :=
  (f.top ≤ n / w ∧ n / w < f.top + f.height) ∧ f.left ≤ n % w ∧ n % w < f.left + f.width

/-- What a blit writes for the pixel `(x, y)` of the frame. -/
def color (f : GifFrame) (y x : ℕ) : Bgra :=
  let s := GifSource.pixelIndex (y * f.width + x) * 4
  { b := f.rgba.getD (s + 2) 0, g := f.rgba.getD (s + 1) 0, r := f.rgba.getD s 0, a := 255 }

end GifFrame

namespace GifSource

/-- `look` sees the pixel `n` of a canvas of `N` pixels, and `val` of a pixel that is written there. -/
structure Looks {τ : Type*} (N n : ℕ) (look : List Bgra → τ) (val : Bgra → τ) : Prop where
  inside : n < N
  set_self : ∀ (c : List Bgra) px, c.length = N → look (c.set n px) = val px
  set_ne : ∀ (c : List Bgra) m px, m ≠ n → look (c.set m px) = look c

/-! ### The loops keep the size of the canvas -/

theorem length_blit (g : GifSource) (f : GifFrame) (canvas : List Bgra) :
    (g.blit f canvas).length = canvas.length := by
  unfold GifSource.blit
  refine List.foldlRecOn (motive := fun c : List Bgra => c.length = canvas.length) _ _ rfl
    fun c hc y _ => ?_
  refine List.foldlRecOn (motive := fun c : List Bgra => c.length = canvas.length) _ _ hc
    fun c hc x _ => ?_
  unfold GifSource.blitPixel
  dsimp only
  split_ifs
  · exact hc
  · exact hc
  · rw [List.length_set, hc]

theorem length_fillRect (g : GifSource) (left top w h : ℕ) (color : Bgra) (canvas : List Bgra) :
    (g.fillRect left top w h color canvas).length = canvas.length := by
  unfold GifSource.fillRect
  refine List.foldlRecOn (motive := fun c : List Bgra => c.length = canvas.length) _ _ rfl
    fun c hc y _ => ?_
  refine List.foldlRecOn (motive := fun c : List Bgra => c.length = canvas.length) _ _ hc
    fun c hc x _ => ?_
  rw [List.length_set, hc]

/-! ### One pixel -/

variable {g : GifSource} {τ : Type*} {n : ℕ} {look : List Bgra → τ} {val : Bgra → τ}

theorem Looks.setPixel {N : ℕ} (h : Looks N n look val) (px : Bgra) (m : ℕ) {c : List Bgra}
    (hc : c.length = N) :
    (c.set m px).length = N ∧ (m = n → look (c.set m px) = val px)
      ∧ (¬m = n → look (c.set m px) = look c) := by
  refine ⟨by rw [List.length_set, hc], fun heq => ?_, fun hne => h.set_ne _ _ _ hne⟩
  rw [heq, h.set_self _ _ hc]

theorem Looks.blitPixel (h : Looks (g.width * g.height) n look val) {f : GifFrame} {v : τ} {y x : ℕ}
    (hv : f.PaintsAt g.width g.height y x n → val (f.color y x) = v) {c : List Bgra}
    (hc : c.length = g.width * g.height) :
    (g.blitPixel f y x c).length = g.width * g.height
      ∧ (f.PaintsAt g.width g.height y x n → look (g.blitPixel f y x c) = v)
      ∧ (¬f.PaintsAt g.width g.height y x n → look (g.blitPixel f y x c) = look c) := by
  unfold GifSource.blitPixel
  dsimp only
  -- off the canvas, transparent, or drawn
  split_ifs with hout halpha
  · refine ⟨hc, fun hp => ?_, fun _ => rfl⟩
    have hin := hp.1
    omega
  · exact ⟨hc, fun hp => absurd halpha hp.2.1, fun _ => rfl⟩
  · obtain ⟨hlen, hself, hne⟩ := h.setPixel (f.color y x)
      (pixelIndex ((f.top + y) * g.width + (f.left + x))) hc
    refine ⟨hlen, fun hp => (hself hp.2.2).trans (hv hp), fun hp => hne fun heq => hp ?_⟩
    exact ⟨by omega, halpha, heq⟩

/-- After a blit: what the frame paints there, else what was there. -/
theorem Looks.blit (h : Looks (g.width * g.height) n look val) {f : GifFrame} {v : τ}
    (hv : ∀ y < f.height, ∀ x < f.width, f.PaintsAt g.width g.height y x n → val (f.color y x) = v)
    {c : List Bgra} (hc : c.length = g.width * g.height) :
    (g.blit f c).length = g.width * g.height
      ∧ (f.Paints g.width g.height n → look (g.blit f c) = v)
      ∧ (¬f.Paints g.width g.height n → look (g.blit f c) = look c) := by
  have hrow : ∀ (c : List Bgra), ∀ y ∈ List.range f.height, c.length = g.width * g.height → _ :=
    fun c y hy hc => Rows.foldl_write (I := fun c => c.length = g.width * g.height)
      (f := fun c x => g.blitPixel f y x c) (l := List.range f.width)
      (fun _ x hx => h.blitPixel (hv y (List.mem_range.1 hy) x (List.mem_range.1 hx))) hc
  have hloop := Rows.foldl_write hrow hc
  simp only [List.mem_range] at hloop
  exact hloop

/-- A range of a rectangle, cut off at the canvas. -/
theorem mem_clipped {l k w x : ℕ} :
    x ∈ List.range' (min l w) (min (l + k) w - min l w) ↔ (l ≤ x ∧ x < l + k) ∧ x < w := by
  rw [List.mem_range'_1]
  omega

/-- The loops over a rectangle reach the pixels it clears. -/
theorem clipped_iff_clears {f : GifFrame} {w h n : ℕ} (hn : n < w * h) :
    (∃ y ∈ List.range' (min f.top h) (min (f.top + f.height) h - min f.top h),
      ∃ x ∈ List.range' (min f.left w) (min (f.left + f.width) w - min f.left w), y * w + x = n)
      ↔ f.Clears w n := by
  simp only [mem_clipped]
  constructor
  -- row and column of the pixel are the quotient and the remainder
  · rintro ⟨y, ⟨hy, _⟩, x, ⟨hx, hxw⟩, hyx⟩
    have hdiv : n / w = y := by
      rw [← hyx, mul_comm, Nat.mul_add_div (by omega), Nat.div_eq_of_lt hxw, add_zero]
    have hmod : n % w = x := by
      rw [← hyx, mul_comm, Nat.mul_add_mod, Nat.mod_eq_of_lt hxw]
    unfold GifFrame.Clears
    rw [hdiv, hmod]
    exact ⟨hy, hx⟩
  · rintro ⟨hrow, hcol⟩
    have hw : 0 < w := Nat.pos_of_mul_pos_right (Nat.lt_of_le_of_lt (Nat.zero_le n) hn)
    refine ⟨n / w, ⟨hrow, Nat.div_lt_of_lt_mul hn⟩, n % w, ⟨hcol, Nat.mod_lt _ hw⟩, ?_⟩
    rw [mul_comm]
    exact Nat.div_add_mod ..

/-- After a rectangle was filled: the colour inside, else what was there. -/
theorem Looks.fillRect (h : Looks (g.width * g.height) n look val) (f : GifFrame) (color : Bgra)
    {c : List Bgra} (hc : c.length = g.width * g.height) :
    (g.fillRect f.left f.top f.width f.height color c).length = g.width * g.height
      ∧ (f.Clears g.width n →
        look (g.fillRect f.left f.top f.width f.height color c) = val color)
      ∧ (¬f.Clears g.width n →
        look (g.fillRect f.left f.top f.width f.height color c) = look c) := by
  -- one row, then the rows
  have hrow : ∀ (c : List Bgra), ∀ y ∈ List.range' (min f.top g.height)
      (min (f.top + f.height) g.height - min f.top g.height), c.length = g.width * g.height → _ :=
    fun c y _ hc => Rows.foldl_write (I := fun c => c.length = g.width * g.height)
      (f := fun (c : List Bgra) x => c.set (y * g.width + x) color)
      (l := List.range' (min f.left g.width) (min (f.left + f.width) g.width - min f.left g.width))
      (fun _ x _ => h.setPixel color (y * g.width + x)) hc
  have hloop := Rows.foldl_write hrow hc
  rw [clipped_iff_clears h.inside] at hloop
  exact hloop

end GifSource

end NoshareCover
