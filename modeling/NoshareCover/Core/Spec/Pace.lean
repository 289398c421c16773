import Mathlib.Algebra.Order.Archimedean.Basic
import Mathlib.Tactic.Linarith
import Mathlib.Tactic.Positivity
import NoshareCover.Core.Video.Pace
import NoshareCover.Lib.Run

/-!
# A decoder that is too slow

A frame that is dropped was decoded before, so dropping it saves no time, and only sleeping moves
the clock's reference point.  A thread that needs more time for a frame than the frame is shown
therefore falls behind without end (`lateness_ge`), and from some frame on it drops them all.  One
that keeps up shows every frame (`onTime_of_keepsUp`).
-/

namespace NoshareCover

open Machine

/-! ### Rounding -/

theorem divF64_zero (speed : Speed) : divF64 0 speed = 0 := by
  have hfloor : ⌊(1 / 2 : ℚ)⌋₊ = 0 := Nat.floor_eq_zero.2 (by norm_num)
  simpa [divF64] using hfloor

theorem divF64_le (d : ℕ) (speed : Speed) : (divF64 d speed : ℚ) ≤ d / speed + 1 / 2 := by
  have hspeed : (0 : ℚ) < speed := speed.2
  exact Nat.floor_le (by positivity)

/-- A time that is not longer than a frame is shown fits between two frames. -/
theorem divF64_add_le {d spacing cost : ℕ} {speed : Speed} (h : (cost : ℚ) * speed ≤ spacing) :
    divF64 d speed + cost ≤ divF64 (d + spacing) speed := by
  have hspeed : (0 : ℚ) < speed := speed.2
  have hcost : (cost : ℚ) ≤ spacing / speed := (le_div_iff₀ hspeed).2 h
  unfold divF64
  rw [← Nat.floor_add_natCast (by positivity)]
  apply Nat.floor_le_floor
  push_cast
  rw [add_div]
  linarith

/-! ### One round -/

namespace Worker

variable {speed : Speed} {w : Worker} {l : Lap}

variable (speed) in
/-- A round while somebody is watching: what it compares, and when it ends. -/
theorem round_awake (hawake : l.slept = none) {origin : Instant × ℕ} {due : Instant}
    (horigin : w.origin.getD (w.now + l.decode, l.pts) = origin)
    (hdue : origin.1 + divF64 (l.pts - origin.2) speed = due) :
    (w.round speed l).1 = { now := max (w.now + l.decode) due, origin := some origin }
      ∧ ((w.round speed l).2 = .onTime ↔ w.now + l.decode ≤ due + dropLate) := by
  -- nobody slept, so the reference point stays
  have hwake : w.wake l.slept = w := by
    rw [hawake]
    rfl
  unfold round
  rw [hwake]
  dsimp only
  rw [horigin, hdue]
  -- early: it waits until `due`; late: it drops the frame; else it shows it at once
  split_ifs with hearly hlate
  · rw [max_eq_right hearly.le]
    exact ⟨rfl, iff_of_true rfl (hearly.le.trans (Nat.le_add_right _ _))⟩
  · rw [max_eq_left (not_lt.1 hearly)]
    exact ⟨rfl, iff_of_false (by simp) (not_le.2 (lt_tsub_iff_left.1 hlate))⟩
  · rw [max_eq_left (not_lt.1 hearly)]
    exact ⟨rfl, iff_of_true rfl (tsub_le_iff_left.1 (not_lt.1 hlate))⟩

end Worker

/-- The thread's source gets a new generation for a frame that is shown, and keeps the old one for a
frame that is dropped. -/
theorem VideoSource.generation_round {δ κ : Type*} [Demuxer δ] [Decoder κ] {v : VideoSource δ κ}
    {t : Turn} {f : DecodedFrame} {pipe : Pipeline δ κ} (hruns : v.stopped = false)
    (hwatched : v.shared.watched ≠ none) (hcrash : t ≠ .crash)
    (hnext : v.pipe.nextFrame = (.ok (.frame f), pipe)) :
    (v.round t).shared.generation = v.shared.generation + 1 ↔ t = .onTime := by
  have hgoes : ¬ (v.stopped = true ∨ v.shared.watched = none) := by
    rw [hruns]
    exact not_or.2 ⟨Bool.false_ne_true, hwatched⟩
  unfold VideoSource.round
  rw [if_neg hgoes, if_neg hcrash, hnext]
  cases t with
  | onTime => exact iff_of_true rfl rfl
  | late => exact iff_of_false (Nat.succ_ne_self _).symm (by simp)
  | crash => exact absurd rfl hcrash

/-! ### A run -/

/-- Frames that are `spacing` apart and take `cost` each, while somebody polls all the time. -/
def steadyLap (first spacing cost n : ℕ) : Lap :=
  { slept := none, decode := cost, pts := first + n * spacing }

section Steady

variable (start : Instant) (first spacing cost : ℕ) (speed : Speed)

/-- The thread before frame `n`. -/
def steadyWorker (n : ℕ) : Worker :=
  after (Worker.round speed) { now := start, origin := none } (steadyLap first spacing cost) n

/-- When frame `n` is decoded. -/
def decodedAt (n : ℕ) : Instant := (steadyWorker start first spacing cost speed n).now + cost

/-- When frame `n` is due: the first frame, as soon as it is decoded. -/
def dueAt (n : ℕ) : Instant := start + cost + divF64 (n * spacing) speed

/-- The thread shows frame `n`. -/
def Published (n : ℕ) : Prop :=
  outputAt (Worker.round speed) { now := start, origin := none } (steadyLap first spacing cost) n
    = .onTime

/-- Only the first frame sets the reference point. -/
theorem origin_steadyWorker (n : ℕ) :
    (steadyWorker start first spacing cost speed n).origin.getD
        (decodedAt start first spacing cost speed n, first + n * spacing)
      = (start + cost, first) := by
  induction n with
  | zero =>
    show (start + cost, first + 0 * spacing) = _
    rw [zero_mul, add_zero]
  -- the reference point is that of the first frame
  | succ n ih =>
    have hround : (Worker.round speed (steadyWorker start first spacing cost speed n)
        (steadyLap first spacing cost n)).1.origin = some (start + cost, first) := by
      rw [(Worker.round_awake _ rfl ih rfl).1]
    unfold steadyWorker
    rw [after_succ]
    show (Worker.round speed (steadyWorker start first spacing cost speed n) _).1.origin.getD _ = _
    rw [hround, Option.getD_some]

/-- The round of frame `n`. -/
theorem round_steady (n : ℕ) :
    (Worker.round speed (steadyWorker start first spacing cost speed n)
        (steadyLap first spacing cost n)).1
        = { now := max (decodedAt start first spacing cost speed n) (dueAt start spacing cost speed n),
            origin := some (start + cost, first) }
      ∧ ((Worker.round speed (steadyWorker start first spacing cost speed n)
          (steadyLap first spacing cost n)).2 = .onTime
        ↔ decodedAt start first spacing cost speed n
            ≤ dueAt start spacing cost speed n + dropLate) := by
  have hdue : start + cost + divF64 (first + n * spacing - first) speed
      = dueAt start spacing cost speed n := by
    rw [dueAt, Nat.add_sub_cancel_left]
  exact Worker.round_awake _ rfl (origin_steadyWorker start first spacing cost speed n) hdue

/-- **One frame** is shown unless it is late. -/
theorem published_iff (n : ℕ) :
    Published start first spacing cost speed n
      ↔ decodedAt start first spacing cost speed n
          ≤ dueAt start spacing cost speed n + dropLate :=
  (round_steady start first spacing cost speed n).2

/-- The next frame is decoded when this one is out of the way. -/
theorem decodedAt_succ (n : ℕ) :
    decodedAt start first spacing cost speed (n + 1)
      = max (decodedAt start first spacing cost speed n) (dueAt start spacing cost speed n)
        + cost := by
  have hround := (round_steady start first spacing cost speed n).1
  unfold decodedAt steadyWorker
  rw [after_succ]
  exact congrArg (fun w : Worker => w.now + cost) hround

variable {start first spacing cost speed}

/-- A thread that keeps up is never late. -/
theorem decodedAt_le (h : (cost : ℚ) * speed ≤ spacing) (n : ℕ) :
    decodedAt start first spacing cost speed n ≤ dueAt start spacing cost speed n := by
  induction n with
  | zero => exact Nat.le_add_right _ _
  | succ n ih =>
    rw [decodedAt_succ, max_eq_right ih, dueAt, dueAt, add_assoc, Nat.succ_mul]
    exact Nat.add_le_add_left (divF64_add_le h) _

/-- Decoding alone takes its time. -/
theorem le_decodedAt (n : ℕ) :
    start + cost + n * cost ≤ decodedAt start first spacing cost speed n := by
  induction n with
  | zero =>
    rw [zero_mul]
    exact le_rfl
  | succ n ih =>
    rw [decodedAt_succ, Nat.succ_mul, ← add_assoc]
    exact Nat.add_le_add_right (ih.trans (le_max_left _ _)) _

/-- A thread that does not keep up falls behind by the same time at every frame. -/
theorem lateness_ge (n : ℕ) :
    (dueAt start spacing cost speed n : ℚ) + n * (cost - spacing / speed) - 1 / 2
      ≤ decodedAt start first spacing cost speed n := by
  have hdecoded : ((start + cost + n * cost : ℕ) : ℚ)
      ≤ decodedAt start first spacing cost speed n := Nat.cast_le.2 (le_decodedAt n)
  have hdue := divF64_le (n * spacing) speed
  unfold dueAt
  push_cast at hdecoded hdue ⊢
  rw [mul_div_assoc] at hdue
  linarith

/-- Then all frames are late from some frame on. -/
theorem exists_late (h : (spacing : ℚ) < cost * speed) :
    ∃ m, ∀ n ≥ m, ¬ Published start first spacing cost speed n := by
  have hspeed : (0 : ℚ) < speed := speed.2
  have hgap : 0 < (cost : ℚ) - spacing / speed := sub_pos.2 ((div_lt_iff₀ hspeed).2 h)
  obtain ⟨m, hm⟩ := exists_nat_gt (((dropLate : ℚ) + 1 / 2) / (cost - spacing / speed))
  refine ⟨m, fun n hn => ?_⟩
  rw [published_iff, not_le, ← Nat.cast_lt (α := ℚ)]
  have hlate := @lateness_ge start first spacing cost speed n
  have hmn : (m : ℚ) ≤ n := Nat.cast_le.2 hn
  have hmul := (div_lt_iff₀ hgap).1 hm
  have hmono := mul_le_mul_of_nonneg_right hmn hgap.le
  push_cast
  linarith

end Steady

/-- **A slow decoder never freezes the video** if and only if it is not slow: it decodes a frame in
the time that a frame is shown. -/
theorem never_freezes_iff (start : Instant) (first spacing cost : ℕ) (speed : Speed) :
    (∃ N, ∀ n, ∃ i < N, Published start first spacing cost speed (n + i))
      ↔ (cost : ℚ) * speed ≤ spacing := by
  constructor
  · rintro ⟨N, hshown⟩
    by_contra hslow
    obtain ⟨m, hlate⟩ := @exists_late start first spacing cost speed (not_le.1 hslow)
    obtain ⟨i, -, hi⟩ := hshown m
    exact hlate (m + i) (Nat.le_add_right m i) hi
  · intro hkeeps
    refine ⟨1, fun n => ⟨0, Nat.one_pos, ?_⟩⟩
    rw [published_iff]
    exact (decodedAt_le hkeeps _).trans (Nat.le_add_right _ _)

/-- Frames that are 40 ms apart and take 41 ms each. -/
theorem slow_decoder_freezes :
    ¬ ∃ N, ∀ n, ∃ i < N, Published 0 0 40000000 41000000 ⟨1, by decide⟩ (n + i) := by
  rintro ⟨N, hshown⟩
  obtain ⟨m, hlate⟩ := @exists_late 0 0 40000000 41000000 ⟨1, by decide⟩ (by norm_num)
  obtain ⟨i, -, hi⟩ := hshown m
  exact hlate (m + i) (Nat.le_add_right m i) hi

end NoshareCover
