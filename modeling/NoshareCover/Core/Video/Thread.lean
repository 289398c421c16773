import NoshareCover.Core.Video.Pace

/-!
# The video thread and its owner

The thread and the owner of the source take their steps in any order.  They share a mutex with a
condition variable: a wait lets go of the mutex and starts to wait in one step, and it ends by a
notification that was sent while it lasted, by its timeout, or for no reason.  Nobody else waits, so
the thread's own notifications wake nobody.
-/

namespace NoshareCover

/-- How long frames can go unrequested before the thread goes to sleep. -/
def idleAfter : ℕ := 400000000

inductive Party where
  | worker
  | owner
  deriving DecidableEq, Repr

/-! ### Places in the code -/

/-- The loops in which the thread waits. -/
inductive WaitLoop where
  /-- While nobody is watching; it notes whether it slept. -/
  | watch (slept : Bool)
  /-- Until the display time of a frame. -/
  | due (f : DecodedFrame) (deadline : Instant)
  /-- After the end of a video that does not loop. -/
  | quit
  deriving DecidableEq, Repr

/-- What the thread does under the lock. -/
inductive Critical where
  /-- The condition of a loop. -/
  | test (l : WaitLoop)
  | publish (f : DecodedFrame)
  | ended
  | error (e : String)
  | crash
  deriving DecidableEq, Repr

inductive WorkerPlace where
  /-- It needs the lock. -/
  | lock (c : Critical)
  /-- It has the lock. -/
  | hold (c : Critical)
  /-- It has the lock, and is going to wait. -/
  | wait (l : WaitLoop) (timeout : Option ℕ)
  /-- It waits, until a time or for ever; it may have been notified. -/
  | asleep (l : WaitLoop) (wakeAt : Option Instant) (notified : Bool)
  /-- It is going to call `next_frame`. -/
  | call
  | decoding
  /-- It has a frame, and reads the clock's reference point. -/
  | reckon (f : DecodedFrame)
  /-- It knows when the frame is due. -/
  | compare (f : DecodedFrame) (due : Instant)
  | returned
  deriving DecidableEq, Repr

/-- A thread that waits is notified. -/
def WorkerPlace.notify : WorkerPlace → WorkerPlace
  | asleep l wakeAt _ => asleep l wakeAt true
  | place => place

inductive OwnerPlace where
  | idle
  /-- In `poll`, before the lock. -/
  | lockPoll (now : Instant)
  | holdPoll (now : Instant)
  /-- Still in `poll`, with the lock, after the notification. -/
  | answer
  /-- In `drop`, before the lock. -/
  | lockDrop
  | holdDrop
  /-- The lock is given back, and nobody is notified yet. -/
  | notify
  | join
  | dropped
  deriving DecidableEq, Repr

structure VideoThread where
  clock : Instant
  shared : Shared
  quit : Bool
  /-- Who has the lock. -/
  lock : Option Party
  worker : WorkerPlace
  origin : Option (Instant × ℕ)
  owner : OwnerPlace
  sent : ℕ

/-- What a step does that is seen from outside. -/
inductive Deed where
  | nothing
  /-- `next_frame` is called. -/
  | called
  | published
  /-- A poll returns a frame, nothing new, or the reason why there is none. -/
  | answered (r : Except String (Option Frame))

namespace VideoThread

def spawn (clock : Instant) : VideoThread :=
  { clock, quit := false, lock := none, worker := .lock (.test (.watch false)), origin := none,
    owner := .idle, sent := 0,
    shared := { latest := none, generation := 0, watched := none, error := none, ended := false } }

/-! ### The thread -/

def isWatched (s : VideoThread) : Bool :=
  s.shared.watched.any fun t => s.clock - t < idleAfter

/-- The thread gives the lock back. -/
def leave (s : VideoThread) (place : WorkerPlace) : VideoThread :=
  { s with lock := none, worker := place }

/-- The condition of a loop, and what is after the loop. -/
def test (s : VideoThread) : WaitLoop → VideoThread
  | .watch slept =>
    if s.quit then s.leave .returned
    else if s.isWatched then { s.leave .call with origin := if slept then none else s.origin }
    else { s with worker := .wait (.watch true) (some idleAfter) }
  | .due f deadline =>
    let left := deadline - s.clock
    if s.quit then s.leave .returned
    else if left = 0 then s.leave (.lock (.publish f))
    else { s with worker := .wait (.due f deadline) (some (min left (10 ^ 9))) }
  | .quit =>
    if s.quit then s.leave .returned else { s with worker := .wait .quit none }

/-- One step under the lock. -/
def critical (s : VideoThread) : Critical → VideoThread × Deed
  | .test l => (s.test l, .nothing)
  | .publish f =>
    let generation := s.shared.generation + 1
    ({ s.leave (.lock (.test (.watch false))) with
        shared := { s.shared with generation, latest := some { generation, data := f.data } } },
      .published)
  | .ended =>
    ({ s with shared := { s.shared with ended := true }, worker := .hold (.test .quit) }, .nothing)
  | .error e =>
    ({ s.leave .returned with shared := { s.shared with error := some e } }, .nothing)
  | .crash =>
    ({ s.leave .returned with
        shared := { s.shared with error := s.shared.error.orElse fun _ => "decoder crashed" } },
      .nothing)

/-- One step of the thread. -/
def work (speed : Speed) (s : VideoThread) : VideoThread × Deed :=
  match s.worker with
  | .lock c =>
    (if s.lock = none then { s with lock := some .worker, worker := .hold c } else s, .nothing)
  | .hold c => s.critical c
  | .wait l timeout => (s.leave (.asleep l (timeout.map (s.clock + ·)) false), .nothing)
  | .call => ({ s with worker := .decoding }, .called)
  | .reckon f =>
    let origin := s.origin.getD (s.clock, f.pts)
    ({ s with origin := some origin
              worker := (checkedDue speed origin f.pts).elim (.lock .crash) (.compare f) }, .nothing)
  | .compare f due =>
    let place := if s.clock < due then .lock (.test (.due f due))
      else if dropLate < s.clock - due then .lock (.test (.watch false))
      else .lock (.publish f)
    ({ s with worker := place }, .nothing)
  -- these need more than a step of the thread
  | .asleep .. | .decoding | .returned => (s, .nothing)

/-- Where the thread goes on after a call of `next_frame`; `none` is a panic. -/
def afterCall : Option (PipeResult Next) → WorkerPlace
  | some (.ok (.frame f)) => .reckon f
  | some (.ok .ended) => .lock .ended
  | some (.error e) => .lock (.error e)
  | none => .lock .crash

/-- Why a wait ends. -/
inductive Cause where
  | notified
  | timeout
  | spurious
  deriving DecidableEq, Repr

def Cause.allows (cause : Cause) (clock : Instant) (wakeAt : Option Instant) (notified : Bool) : Bool :=
  match cause with
  | .notified => notified
  | .timeout => wakeAt.any fun t => t ≤ clock
  | .spurious => true

/-- The end of a wait, after which the thread needs the lock again. -/
def wake (s : VideoThread) (cause : Cause) : VideoThread :=
  match s.worker with
  | .asleep l wakeAt notified =>
    if cause.allows s.clock wakeAt notified then { s with worker := .lock (.test l) } else s
  | _ => s

/-! ### The owner -/

/-- `notify_all`. -/
def notifyAll (s : VideoThread) : VideoThread := { s with worker := s.worker.notify }

/-- What a poll returns. -/
def answer (s : VideoThread) : Except String (Option Frame) :=
  match s.shared.error with
  | some e =>
    if s.shared.generation = 0 then .error e
    else .ok (if s.shared.generation = s.sent then none else s.shared.latest)
  | none => .ok (if s.shared.generation = s.sent then none else s.shared.latest)

/-- A poll takes the frame out, if there is one that was not sent yet. -/
def takeLatest (s : VideoThread) : VideoThread :=
  if (s.shared.error.isSome = true ∧ s.shared.generation = 0) ∨ s.shared.generation = s.sent then s
  else { s with sent := s.shared.generation, shared := { s.shared with latest := none } }

/-- One step inside `poll` or `drop`. -/
def own (s : VideoThread) : VideoThread × Deed :=
  match s.owner with
  | .lockPoll now =>
    (if s.lock = none then { s with lock := some .owner, owner := .holdPoll now } else s, .nothing)
  | .holdPoll now =>
    let s := { s with shared := { s.shared with watched := some now } }
    ({ s.notifyAll with owner := .answer }, .nothing)
  | .answer => ({ s.takeLatest with lock := none, owner := .idle }, .answered s.answer)
  | .lockDrop =>
    (if s.lock = none then { s with lock := some .owner, owner := .holdDrop } else s, .nothing)
  | .holdDrop => ({ s with quit := true, lock := none, owner := .notify }, .nothing)
  | .notify => ({ s.notifyAll with owner := .join }, .nothing)
  | .join => (if s.worker = .returned then { s with owner := .dropped } else s, .nothing)
  | .idle | .dropped => (s, .nothing)

/-! ### Any order of steps -/

inductive Event where
  | tick (d : ℕ)
  | work
  /-- `next_frame` returns, or panics. -/
  | decoded (r : Option (PipeResult Next))
  | wake (cause : Cause)
  | poll (now : Instant)
  | drop
  | own

/-- An event that cannot happen changes nothing. -/
def step (speed : Speed) (s : VideoThread) : Event → VideoThread × Deed
  | .tick d => ({ s with clock := s.clock + d }, .nothing)
  | .work => s.work speed
  | .decoded r =>
    (if s.worker = .decoding then { s with worker := afterCall r } else s, .nothing)
  | .wake cause => (s.wake cause, .nothing)
  | .poll now => (if s.owner = .idle then { s with owner := .lockPoll now } else s, .nothing)
  | .drop => (if s.owner = .idle then { s with owner := .lockDrop } else s, .nothing)
  | .own => s.own

end VideoThread

end NoshareCover
