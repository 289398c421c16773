import Mathlib.Tactic.Linarith
import Mathlib.Tactic.Positivity
import NoshareCover.Core.RawSettings
import NoshareCover.Core.Video.Pace

/-!
# Speeds that break the clock

Every finite speed above zero is let through, but the product of a time and a speed and the quotient
must be a `Duration`.  `speed_in_range_iff` says when they are.
-/

namespace NoshareCover

/-- A rounded value is below a whole number just if the value, moved by the half, is. -/
theorem floor_add_half_lt {x : ℚ} (hx : 0 ≤ x) (n : ℕ) : ⌊x + 1 / 2⌋₊ < n ↔ x + 1 / 2 < n :=
  Nat.floor_lt (by positivity)

theorem mulF64_lt (d : ℕ) (speed : Speed) (n : ℕ) :
    mulF64 d speed < n ↔ (d : ℚ) * speed + 1 / 2 < n := by
  have hspeed : (0 : ℚ) < speed := speed.2
  exact floor_add_half_lt (by positivity) n

theorem divF64_lt (d : ℕ) (speed : Speed) (n : ℕ) :
    divF64 d speed < n ↔ (d : ℚ) / speed + 1 / 2 < n := by
  have hspeed : (0 : ℚ) < speed := speed.2
  exact floor_add_half_lt (by positivity) n

/-! ### The clock of a GIF -/

theorem PlaybackClock.checkedPosition_eq_some_iff (c : PlaybackClock) (now : Instant)
    (duration : Option ℕ) :
    c.checkedPosition now duration = some (c.position now duration)
      ↔ ((now - c.started.getD now : ℕ) : ℚ) * c.speed + 1 / 2 < durationEnd := by
  unfold checkedPosition checkedMulF64
  rw [← mulF64_lt]
  split_ifs with h
  · exact iff_of_true rfl h
  · exact iff_of_false (Option.some_ne_none _).symm h

/-! ### The clock of a video -/

theorem checkedDue_eq_some_iff (speed : Speed) (origin : Instant × ℕ) (pts : ℕ) :
    checkedDue speed origin pts = some (origin.1 + divF64 (pts - origin.2) speed)
      ↔ (origin.1 : ℚ) + (pts - origin.2 : ℕ) / speed + 1 / 2 < instantEnd := by
  -- an instant in range leaves no room for a duration out of range
  have hends : instantEnd ≤ durationEnd := by decide
  have hspeed : (0 : ℚ) < speed := speed.2
  have hsum : origin.1 + divF64 (pts - origin.2) speed < instantEnd
      ↔ (origin.1 : ℚ) + (pts - origin.2 : ℕ) / speed + 1 / 2 < instantEnd := by
    unfold divF64
    rw [add_comm origin.1, ← Nat.floor_add_natCast (by positivity), Nat.floor_lt (by positivity)]
    constructor <;> intro h <;> linarith
  rw [← hsum]
  unfold checkedDue checkedDivF64
  by_cases hquotient : divF64 (pts - origin.2) speed < durationEnd
  · rw [if_pos hquotient, Option.bind_some, checkedAdd]
    by_cases hinstant : origin.1 + divF64 (pts - origin.2) speed < instantEnd
    · rw [if_pos hinstant]
      exact iff_of_true rfl hinstant
    · rw [if_neg hinstant]
      exact iff_of_false (Option.some_ne_none _).symm hinstant
  · rw [if_neg hquotient]
    refine iff_of_false (Option.some_ne_none _).symm fun h => hquotient ?_
    exact ((Nat.le_add_left _ _).trans_lt h).trans_le hends

/-! ### Both clocks -/

section Played

variable (files : ConfigFiles) (raw : RawSettings) (parse : String → Option F64) (rule : PlayRule)

/-- What a window plays: the defaults of the config, and what the window's rule overrides. -/
def played : PlayParams := (Settings.fromRaw files raw).1.defaultPlay.withRule files parse rule

/-- The clock of a GIF that a window plays. -/
def playedClock (started : Option Instant) : PlaybackClock :=
  { PlaybackClock.new (played files raw parse rule).speed (played files raw parse rule).looped with
    started }

theorem speed_playedClock (started : Option Instant) :
    (playedClock files raw parse rule started).speed = (played files raw parse rule).speed :=
  sanitizeSpeed_some _

/-- **A speed does not break a clock** just if the time that it makes of the elapsed one is a
`Duration`, and the time at which it shows a frame is an `Instant`. -/
theorem speed_in_range_iff (started : Option Instant) (now : Instant) (duration : Option ℕ)
    (origin : Instant × ℕ) (pts : ℕ) :
    ((playedClock files raw parse rule started).checkedPosition now duration
        = some ((playedClock files raw parse rule started).position now duration) ∧
      checkedDue (played files raw parse rule).speed origin pts
        = some (origin.1 + divF64 (pts - origin.2) (played files raw parse rule).speed))
      ↔ ((now - started.getD now : ℕ) : ℚ) * (played files raw parse rule).speed + 1 / 2
            < 2 ^ 64 * 10 ^ 9 ∧
          (origin.1 : ℚ) + (pts - origin.2 : ℕ) / (played files raw parse rule).speed + 1 / 2
            < 2 ^ 63 * 10 ^ 9 := by
  have hduration : ((durationEnd : ℕ) : ℚ) = 2 ^ 64 * 10 ^ 9 := by norm_num [durationEnd]
  have hinstant : ((instantEnd : ℕ) : ℚ) = 2 ^ 63 * 10 ^ 9 := by norm_num [instantEnd]
  rw [PlaybackClock.checkedPosition_eq_some_iff, checkedDue_eq_some_iff, speed_playedClock,
    hduration, hinstant]
  rfl

end Played

/-- A config with nothing but a speed. -/
def speedOnly (speed : ℚ) : RawSettings :=
  { pathCover := "/c.gif", looped := true, speed := some speed, backend := "", gpuDevice := "" }

/-- After a second at 10^20 times the speed the position is out of range, and at a 10^21st of the
speed the frame after 40 ms is. -/
theorem fast_and_slow_clocks_panic :
    ¬ (∀ files raw parse rule started now duration,
        ((playedClock files raw parse rule started).checkedPosition now duration).isSome = true) ∧
      ¬ ∀ files raw parse rule origin pts,
        (checkedDue (played files raw parse rule).speed origin pts).isSome = true := by
  let files : ConfigFiles := { home := none, present := fun _ => true }
  let noRule : PlayRule := { path := none, speed := none, looped := none }
  have hspeed : ∀ speed, (played files (speedOnly speed) (fun _ => none) noRule).speed
      = sanitizeSpeed (some speed) := fun _ => rfl
  -- the product is out of range
  have hfast : checkedMulF64 1000000000 (sanitizeSpeed (some (10 ^ 20))) = none := by
    refine if_neg ?_
    rw [mulF64_lt, sanitizeSpeed, dif_pos (by norm_num)]
    norm_num [durationEnd]
  -- and so is the quotient
  have hslow : checkedDivF64 40000000 (sanitizeSpeed (some (1 / 10 ^ 21))) = none := by
    refine if_neg ?_
    rw [divF64_lt, sanitizeSpeed, dif_pos (by norm_num)]
    norm_num [durationEnd]
  -- the clock of the file, then the pace of its thread
  constructor
  · intro hposition
    have hsome := hposition files (speedOnly (10 ^ 20)) (fun _ => none) noRule (some 0) 1000000000 none
    unfold PlaybackClock.checkedPosition at hsome
    rw [speed_playedClock, hspeed] at hsome
    have hnone : checkedMulF64 (1000000000 - 0) (sanitizeSpeed (some (10 ^ 20))) = none := hfast
    exact absurd (hnone ▸ hsome) (by decide)
  · intro hdue
    have hsome := hdue files (speedOnly (1 / 10 ^ 21)) (fun _ => none) noRule (0, 0) 40000000
    unfold checkedDue at hsome
    rw [hspeed] at hsome
    have hnone : checkedDivF64 (40000000 - 0) (sanitizeSpeed (some (1 / 10 ^ 21))) = none := hslow
    exact absurd (hnone ▸ hsome) (by decide)

end NoshareCover
