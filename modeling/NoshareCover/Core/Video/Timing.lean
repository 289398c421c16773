import NoshareCover.Core.Video.Thread

/-!
# When the video thread gets its rounds done

`VideoSource` takes the rounds of its thread from a schedule.  Here is which schedules the clock
allows: a round begins while somebody is watching, and its frame is shown or dropped by the clock's
reference point.  How long a call takes and how long the thread is kept from running are not known.
-/

namespace NoshareCover

/-- `is_watched`: somebody polled less than `IDLE_AFTER` ago. -/
def watchedAt (watched : Option Instant) (t : Instant) : Bool :=
  watched.any fun p => t - p < idleAfter

namespace Worker

/-- The poll at `now` wakes a thread that slept since the last one. -/
def polled (w : Worker) (watched : Option Instant) (now : Instant) : Worker :=
  if watchedAt watched w.now then w else w.wake (some (now - w.now))

/-- A round in which `next_frame` gives `next` can take the thread from `w` to `w'`, by this turn. -/
def Lapse (speed : Speed) (w : Worker) (next : PipeResult Next) (t : Turn) (w' : Worker) : Prop :=
  match t, next with
  | .crash, _ => w.now ≤ w'.now
  | t, .ok (.frame f) =>
    ∃ decode, let after := w.round speed { slept := none, decode, pts := f.pts }
      t = after.2 ∧ after.1.now ≤ w'.now ∧ w'.origin = after.1.origin
  | t, _ => t = .onTime ∧ w.now ≤ w'.now

end Worker

namespace VideoSource

variable {δ κ : Type*} [Demuxer δ] [Decoder κ]

/-- The thread can get these rounds done between the last poll and `poll`. -/
def Rounds (speed : Speed) (poll : Instant) :
    List Turn → VideoSource δ κ → Worker → Worker → Prop
  | [], _, w, w' => w' = w
  | t :: ts, v, w, w' =>
    v.stopped = false ∧ watchedAt v.shared.watched w.now = true
      ∧ ∃ w₁, w.Lapse speed v.pipe.nextFrame.1 t w₁ ∧ (∀ p ∈ v.shared.watched, p ≤ w₁.now)
        ∧ w₁.now ≤ poll ∧ Rounds speed poll ts (v.round t) w₁ w'

/-- The schedule of the source keeps time: its thread, from `w` on, can get these rounds done before
these polls. -/
def KeepsTime (speed : Speed) : List Instant → VideoSource δ κ → Worker → Prop
  | [], _, _ => True
  | now :: polls, v, w =>
    ∃ w', Rounds speed now (v.schedule 0) v w w'
      ∧ KeepsTime speed polls (v.poll now).2 (w'.polled v.shared.watched now)

end VideoSource

end NoshareCover
