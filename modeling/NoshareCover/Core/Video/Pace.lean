import Mathlib.Algebra.Order.Floor.Semiring
import Mathlib.Data.Rat.Floor
import NoshareCover.Core.Clock
import NoshareCover.Core.Video.Source

/-!
# The pace of the video thread

When a frame is due, and whether the thread shows or drops it.  Durations and instants are
nanoseconds; they are exact, and the largest one of the platform is out of reach.
-/

namespace NoshareCover

/-- A frame later than this is dropped instead of shown. -/
def dropLate : ℕ := 80000000

/-- A duration divided by a speed, to the nearest nanosecond. -/
def divF64 (d : ℕ) (speed : Speed) : ℕ := ⌊(d : ℚ) / speed + 1 / 2⌋₊

/-- An `Instant` is less than 2^63 seconds after the first one. -/
def instantEnd : ℕ := 2 ^ 63 * 10 ^ 9

/-- `Duration::div_f64`, which panics out of range. -/
def checkedDivF64 (d : ℕ) (speed : Speed) : Option ℕ :=
  if divF64 d speed < durationEnd then some (divF64 d speed) else none

/-- An instant plus a duration, which panics out of range. -/
def checkedAdd (t : Instant) (d : ℕ) : Option Instant :=
  if t + d < instantEnd then some (t + d) else none

/-- When a frame at `pts` is due, by the clock's reference point. -/
def checkedDue (speed : Speed) (origin : Instant × ℕ) (pts : ℕ) : Option Instant :=
  (checkedDivF64 (pts - origin.2) speed).bind (checkedAdd origin.1)

/-- What a round of the thread meets: the time it slept because nobody was watching, the time until
`next_frame` returns, and the frame's position. -/
structure Lap where
  slept : Option ℕ
  decode : ℕ
  pts : ℕ

/-- The thread between two rounds. -/
structure Worker where
  now : Instant
  /-- Wall time and position: the clock's reference point. -/
  origin : Option (Instant × ℕ)

namespace Worker

/-- After sleeping, the thread resumes from the current position instead of catching up. -/
def wake (w : Worker) : Option ℕ → Worker
  | some d => { now := w.now + d, origin := none }
  | none => w

/-- One round: the thread waits until the frame is due, or drops a frame that is late. -/
def round (speed : Speed) (w : Worker) (l : Lap) : Worker × Turn :=
  let w := w.wake l.slept
  let now := w.now + l.decode
  let origin := w.origin.getD (now, l.pts)
  let due := origin.1 + divF64 (l.pts - origin.2) speed
  if now < due then ({ now := due, origin := some origin }, .onTime)
  else if dropLate < now - due then ({ now, origin := some origin }, .late)
  else ({ now, origin := some origin }, .onTime)

end Worker

end NoshareCover
