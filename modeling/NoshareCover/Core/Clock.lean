import Mathlib.Algebra.Order.Floor.Semiring
import Mathlib.Data.Rat.Floor
import NoshareCover.Core.Config
import NoshareCover.Core.Media

/-!
# The playback clock

Position in the clip, accounting for speed and looping.  Durations are nanoseconds.
-/

namespace NoshareCover

structure PlaybackClock where
  started : Option Instant
  speed : Speed
  looped : Bool

/-- A duration times a speed, to the nearest nanosecond. -/
def mulF64 (d : ℕ) (speed : Speed) : ℕ := ⌊(d : ℚ) * speed + 1 / 2⌋₊

/-- A `Duration` is shorter than 2^64 seconds. -/
def durationEnd : ℕ := 2 ^ 64 * 10 ^ 9

/-- `Duration::mul_f64`, which panics out of range. -/
def checkedMulF64 (d : ℕ) (speed : Speed) : Option ℕ :=
  if mulF64 d speed < durationEnd then some (mulF64 d speed) else none

namespace PlaybackClock

def new (speed : Speed) (looped : Bool) : PlaybackClock :=
  { started := none, speed := sanitizeSpeed (some speed), looped }

/-- Position at `now`.  The first call starts the clock; without looping, the position stays at the
clip's last moment.  No duration means unknown length.  A looped position goes through a `u64` of
nanoseconds. -/
def position (c : PlaybackClock) (now : Instant) (duration : Option ℕ) : ℕ × PlaybackClock :=
  let started := c.started.getD now
  let raw := mulF64 (now - started) c.speed
  let pos := match duration with
    | some d => if d = 0 then raw else if c.looped then raw % d % 2 ^ 64 else min raw (d - 1)
    | none => raw
  (pos, { c with started := some started })

/-- `position`, with the range of its product: `none` is a panic. -/
def checkedPosition (c : PlaybackClock) (now : Instant) (duration : Option ℕ) :
    Option (ℕ × PlaybackClock) :=
  (checkedMulF64 (now - c.started.getD now) c.speed).map fun _ => c.position now duration

def restart (c : PlaybackClock) : PlaybackClock := { c with started := none }

end PlaybackClock

theorem sanitizeSpeed_some (speed : Speed) : sanitizeSpeed (some speed) = speed := by
  obtain ⟨s, hs⟩ := speed
  exact dif_pos hs

/-- At normal speed positions are the time that passed. -/
theorem mulF64_one (d : ℕ) : mulF64 d ⟨1, by decide⟩ = d := by
  have hfloor : ⌊((d : ℚ) + 1 / 2)⌋₊ = d := by
    rw [Nat.floor_eq_iff (by positivity)]
    constructor <;> linarith
  simpa [mulF64] using hfloor

end NoshareCover
