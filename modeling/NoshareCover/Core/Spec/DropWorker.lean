import NoshareCover.Core.Video.Thread
import NoshareCover.Lib.Run

/-!
# Dropping a video

The owner sets `quit` under the lock, notifies and joins the thread.  The thread only starts to wait
while `quit` is not set, so a wait that goes on after that is notified (`Inv.calm`), and with `quit`
set the thread goes through the decoder at most once more (`drop_never_waits`).
-/

namespace NoshareCover

open Machine

/-! ### What a place says -/

namespace WorkerPlace

/-- The thread has the lock. -/
def holds : WorkerPlace → Bool
  | hold _ | wait .. => true
  | _ => false

/-- A wait that goes on is notified when it has to be, and none is begun when it must not. -/
def Calm (quit notified : Bool) : WorkerPlace → Prop
  | wait .. => quit = false
  | asleep _ _ n => notified = true → n = true
  | _ => True

/-- The thread waits, and neither a notification nor a timeout is to come. -/
def Forgotten : WorkerPlace → Prop
  | asleep _ wakeAt notified => wakeAt = none ∧ notified = false
  | _ => False

/-- How often the thread can still call `next_frame` when it has to quit. -/
def callsLeft : WorkerPlace → ℕ
  | call => 1
  | _ => 0

/-- How many frames it can still publish then. -/
def publishesLeft : WorkerPlace → ℕ
  | call | decoding | reckon _ | compare .. | lock (.publish _) | hold (.publish _) => 1
  | _ => 0

theorem holds_notify (place : WorkerPlace) : place.notify.holds = place.holds := by
  cases place <;> rfl

theorem callsLeft_notify (place : WorkerPlace) : place.notify.callsLeft = place.callsLeft := by
  cases place <;> rfl

theorem publishesLeft_notify (place : WorkerPlace) :
    place.notify.publishesLeft = place.publishesLeft := by
  cases place <;> rfl

/-- After a notification everything is calm that was not about to wait. -/
theorem Calm.notify {quit notified : Bool} {place : WorkerPlace} (h : place.Calm quit notified)
    (notified' : Bool) : place.notify.Calm quit notified' := by
  cases place with
  | wait l timeout => exact h
  | asleep l wakeAt n => exact fun _ => rfl
  | _ => trivial

end WorkerPlace

namespace OwnerPlace

/-- The owner has the lock. -/
def holds : OwnerPlace → Bool
  | holdPoll _ | answer | holdDrop => true
  | _ => false

/-- The owner has set `quit`. -/
def quits : OwnerPlace → Bool
  | notify | join | dropped => true
  | _ => false

/-- The owner has set `quit` and notified. -/
def notified : OwnerPlace → Bool
  | join | dropped => true
  | _ => false

end OwnerPlace

/-- A call of `next_frame` begins. -/
def Deed.isCall : Deed → Bool
  | called => true
  | _ => false

/-- A frame is published. -/
def Deed.isPublish : Deed → Bool
  | published => true
  | _ => false

namespace VideoThread

/-! ### The invariant -/

structure Inv (s : VideoThread) : Prop where
  worker_lock : s.worker.holds = true ↔ s.lock = some .worker
  owner_lock : s.owner.holds = true ↔ s.lock = some .owner
  quit : s.quit = s.owner.quits
  calm : s.worker.Calm s.quit s.owner.notified

theorem inv_spawn (clock : Instant) : (spawn clock).Inv where
  worker_lock := iff_of_false Bool.false_ne_true nofun
  owner_lock := iff_of_false Bool.false_ne_true nofun
  quit := rfl
  calm := trivial

variable {s s' : VideoThread} {speed : Speed}

/-- The thread goes on without changing who has the lock. -/
theorem Inv.goOn (h : s.Inv) (hlock : s'.lock = s.lock) (howner : s'.owner = s.owner)
    (hquit : s'.quit = s.quit) (hholds : s'.worker.holds = s.worker.holds)
    (hcalm : s'.worker.Calm s.quit s.owner.notified) : s'.Inv where
  worker_lock := by rw [hholds, hlock]; exact h.worker_lock
  owner_lock := by rw [howner, hlock]; exact h.owner_lock
  quit := by rw [hquit, howner]; exact h.quit
  calm := by rw [hquit, howner]; exact hcalm

/-- The thread gives the lock back. -/
theorem Inv.giveBack (h : s.Inv) (hhad : s.worker.holds = true) (hlock : s'.lock = none)
    (howner : s'.owner = s.owner) (hquit : s'.quit = s.quit) (hholds : s'.worker.holds = false)
    (hcalm : s'.worker.Calm s.quit s.owner.notified) : s'.Inv where
  worker_lock := by
    rw [hholds, hlock]
    exact iff_of_false Bool.false_ne_true nofun
  owner_lock := by
    have howns : ¬ s.owner.holds = true := by
      rw [h.owner_lock, h.worker_lock.1 hhad]
      simp
    rw [howner, hlock]
    exact iff_of_false howns nofun
  quit := by rw [hquit, howner]; exact h.quit
  calm := by rw [hquit, howner]; exact hcalm

/-! ### The thread -/

theorem inv_test (h : s.Inv) {l : WaitLoop} (hworker : s.worker = .hold (.test l)) :
    (s.test l).Inv := by
  have hhad : s.worker.holds = true := by rw [hworker]; rfl
  -- a loop that waits has seen that `quit` is not set
  have hwait : s.quit = false → ∀ l timeout, Inv { s with worker := .wait l timeout } :=
    fun hquit l timeout => h.goOn rfl rfl rfl hhad.symm hquit
  have hleave : ∀ place : WorkerPlace, place.holds = false →
      place.Calm s.quit s.owner.notified → (s.leave place).Inv :=
    fun place hholds hcalm => h.giveBack hhad rfl rfl rfl hholds hcalm
  unfold test
  cases l with
  | watch slept =>
    dsimp only
    split_ifs with hquit hwatched
    · exact hleave _ rfl trivial
    · exact h.giveBack hhad rfl rfl rfl rfl trivial
    · exact h.giveBack hhad rfl rfl rfl rfl trivial
    · exact hwait (Bool.eq_false_of_not_eq_true hquit) _ _
  -- `quit` ends the thread, the deadline only the wait
  | due f deadline =>
    dsimp only
    split_ifs with hquit hleft
    · exact hleave _ rfl trivial
    · exact hleave _ rfl trivial
    · exact hwait (Bool.eq_false_of_not_eq_true hquit) _ _
  | quit =>
    dsimp only
    split_ifs with hquit
    · exact hleave _ rfl trivial
    · exact hwait (Bool.eq_false_of_not_eq_true hquit) _ _

theorem inv_critical (h : s.Inv) {c : Critical} (hworker : s.worker = .hold c) :
    (s.critical c).1.Inv := by
  have hhad : s.worker.holds = true := by rw [hworker]; rfl
  cases c with
  | test l => exact inv_test h hworker
  | publish f => exact h.giveBack hhad rfl rfl rfl rfl trivial
  | ended => exact h.goOn rfl rfl rfl hhad.symm trivial
  | error e => exact h.giveBack hhad rfl rfl rfl rfl trivial
  | crash => exact h.giveBack hhad rfl rfl rfl rfl trivial

theorem inv_work (h : s.Inv) : (s.work speed).1.Inv := by
  unfold work
  cases hworker : s.worker with
  | lock c =>
    dsimp only
    split_ifs with hfree
    · have howns : ¬ s.owner.holds = true := by
        rw [h.owner_lock, hfree]
        nofun
      exact ⟨iff_of_true rfl rfl, iff_of_false howns nofun, h.quit, trivial⟩
    · exact h
  | hold c => exact inv_critical h hworker
  | wait l timeout =>
    have hhad : s.worker.holds = true := by rw [hworker]; rfl
    -- the wait begins: `quit` is not set, and so not notified either
    have hquit : s.quit = false := by
      have hcalm := h.calm
      rw [hworker] at hcalm
      exact hcalm
    have hquiet : s.owner.notified = false := by
      rw [h.quit] at hquit
      cases howner : s.owner with
      | join | dropped => rw [howner] at hquit; cases hquit
      | _ => rfl
    refine h.giveBack hhad rfl rfl rfl rfl fun hnotified => ?_
    rw [hquiet] at hnotified
    cases hnotified
  | call => exact h.goOn rfl rfl rfl (by rw [hworker]; rfl) trivial
  | reckon f =>
    dsimp only
    cases checkedDue speed (s.origin.getD (s.clock, f.pts)) f.pts with
    | none => exact h.goOn rfl rfl rfl (by rw [hworker]; rfl) trivial
    | some due => exact h.goOn rfl rfl rfl (by rw [hworker]; rfl) trivial
  | compare f due =>
    dsimp only
    split_ifs
    · exact h.goOn rfl rfl rfl (by rw [hworker]; rfl) trivial
    · exact h.goOn rfl rfl rfl (by rw [hworker]; rfl) trivial
    · exact h.goOn rfl rfl rfl (by rw [hworker]; rfl) trivial
  -- asleep, in the decoder or at its end, the thread does nothing by itself
  | asleep l wakeAt notified => exact h
  | decoding => exact h
  | returned => exact h

theorem inv_decoded (h : s.Inv) (r : Option (PipeResult Next)) :
    (s.step speed (.decoded r)).1.Inv := by
  unfold step
  dsimp only
  split_ifs with hdecoding
  · have hheld : s.worker.holds = false := by rw [hdecoding]; rfl
    rcases r with _ | e | f | _
    · exact h.goOn rfl rfl rfl hheld.symm trivial
    · exact h.goOn rfl rfl rfl hheld.symm trivial
    · exact h.goOn rfl rfl rfl hheld.symm trivial
    · exact h.goOn rfl rfl rfl hheld.symm trivial
  · exact h

theorem inv_wake (h : s.Inv) (cause : Cause) : (s.wake cause).Inv := by
  unfold wake
  cases hworker : s.worker with
  | asleep l wakeAt notified =>
    dsimp only
    split_ifs
    · exact h.goOn rfl rfl rfl (by rw [hworker]; rfl) trivial
    · exact h
  | _ => exact h

/-! ### The owner -/

/-- The owner gets the lock, which is free. -/
theorem Inv.take (h : s.Inv) (hfree : s.lock = none) {place : OwnerPlace}
    (hholds : place.holds = true) (hquits : s.owner.quits = place.quits)
    (hnotified : s.owner.notified = place.notified) :
    Inv { s with lock := some .owner, owner := place } where
  worker_lock := by
    have hworks : ¬ s.worker.holds = true := by
      rw [h.worker_lock, hfree]
      nofun
    exact iff_of_false hworks nofun
  owner_lock := iff_of_true hholds rfl
  quit := h.quit.trans hquits
  calm := hnotified ▸ h.calm

/-- While the owner has the lock, the thread does not. -/
theorem Inv.not_holds (h : s.Inv) (howns : s.owner.holds = true) : s.worker.holds = false := by
  have hlock := h.owner_lock.1 howns
  refine Bool.eq_false_of_not_eq_true fun hholds => ?_
  rw [h.worker_lock.1 hholds] at hlock
  cases hlock

/-- The owner gives the lock back. -/
theorem Inv.release (h : s.Inv) (howns : s.owner.holds = true) (hlock : s'.lock = none)
    (hworker : s'.worker = s.worker) (hholds : s'.owner.holds = false)
    (hquit : s'.quit = s'.owner.quits) (hcalm : s'.worker.Calm s'.quit s'.owner.notified) :
    s'.Inv where
  worker_lock := by
    rw [hworker, hlock, h.not_holds howns]
    exact iff_of_false Bool.false_ne_true nofun
  owner_lock := by
    rw [hholds, hlock]
    exact iff_of_false Bool.false_ne_true nofun
  quit := hquit
  calm := hcalm

/-- The owner notifies, and has the lock as before. -/
theorem Inv.notify (h : s.Inv) {place : OwnerPlace} (hlock : s'.lock = s.lock)
    (hworker : s'.worker = s.worker.notify) (howner : s'.owner = place)
    (hholds : s.owner.holds = place.holds) (hquit : s'.quit = s.quit)
    (hquits : s.owner.quits = place.quits) : s'.Inv where
  worker_lock := by
    rw [hworker, hlock, WorkerPlace.holds_notify]
    exact h.worker_lock
  owner_lock := by
    rw [howner, hlock, ← hholds]
    exact h.owner_lock
  quit := by
    rw [hquit, howner, ← hquits]
    exact h.quit
  calm := by
    rw [hworker, hquit]
    exact h.calm.notify _

theorem takeLatest_keeps (s : VideoThread) : s.takeLatest.worker = s.worker
    ∧ s.takeLatest.quit = s.quit := by
  unfold takeLatest
  split_ifs
  · exact ⟨rfl, rfl⟩
  · exact ⟨rfl, rfl⟩

theorem inv_own (h : s.Inv) : s.own.1.Inv := by
  unfold own
  cases howner : s.owner with
  | idle => exact h
  | lockPoll now =>
    dsimp only
    split_ifs with hfree
    · exact h.take hfree rfl (by rw [howner]; rfl) (by rw [howner]; rfl)
    · exact h
  | holdPoll now =>
    exact h.notify rfl rfl rfl (by rw [howner]; rfl) rfl (by rw [howner]; rfl)
  | answer =>
    have howns : s.owner.holds = true := by rw [howner]; rfl
    have hquit : s.quit = false := by rw [h.quit, howner]; rfl
    obtain ⟨hworker, hkeeps⟩ := takeLatest_keeps s
    refine h.release howns rfl hworker rfl (hkeeps.trans hquit) ?_
    have hcalm := h.calm
    rw [howner] at hcalm
    show s.takeLatest.worker.Calm s.takeLatest.quit _
    rw [hworker, hkeeps]
    exact hcalm
  | lockDrop =>
    dsimp only
    split_ifs with hfree
    · exact h.take hfree rfl (by rw [howner]; rfl) (by rw [howner]; rfl)
    · exact h
  | holdDrop =>
    have howns : s.owner.holds = true := by rw [howner]; rfl
    refine h.release howns rfl rfl rfl rfl ?_
    -- the lock was the owner's, so the thread was not about to wait
    have hworks := h.not_holds howns
    show s.worker.Calm true false
    cases hworker : s.worker with
    | wait l timeout =>
      rw [hworker] at hworks
      cases hworks
    | asleep l wakeAt notified => exact nofun
    | _ => trivial
  | notify => exact h.notify rfl rfl rfl (by rw [howner]; rfl) rfl (by rw [howner]; rfl)
  | join =>
    dsimp only
    split_ifs with hreturned
    · have hlock := h.owner_lock
      have hquit := h.quit
      rw [howner] at hlock hquit
      refine ⟨h.worker_lock, hlock, hquit, ?_⟩
      show s.worker.Calm _ _
      rw [hreturned]
      trivial
    · exact h
  | dropped => exact h

/-! ### All steps -/

/-- **One step** keeps the invariant. -/
theorem inv_step (h : s.Inv) (e : Event) : (s.step speed e).1.Inv := by
  cases e with
  | tick d => exact h.goOn rfl rfl rfl rfl h.calm
  | work => exact inv_work h
  | decoded r => exact inv_decoded h r
  | wake cause => exact inv_wake h cause
  | own => exact inv_own h
  | poll now =>
    unfold step
    dsimp only
    -- the owner takes the lock to poll
    split_ifs with hidle
    · have hlock := h.owner_lock
      have hquit := h.quit
      have hcalm := h.calm
      rw [hidle] at hlock hquit hcalm
      exact ⟨h.worker_lock, hlock, hquit, hcalm⟩
    · exact h
  | drop =>
    unfold step
    -- and to quit
    dsimp only
    split_ifs with hidle
    · have hlock := h.owner_lock
      have hquit := h.quit
      have hcalm := h.calm
      rw [hidle] at hlock hquit hcalm
      exact ⟨h.worker_lock, hlock, hquit, hcalm⟩
    · exact h

/-! ### With `quit` set -/

/-- A step spends a call or a frame if it makes one, and gives none back. -/
structure Spends (place : WorkerPlace) (r : VideoThread × Deed) : Prop where
  quit : r.1.quit = true
  calls : r.2.isCall.toNat + r.1.worker.callsLeft ≤ place.callsLeft
  publishes : r.2.isPublish.toNat + r.1.worker.publishesLeft ≤ place.publishesLeft

theorem Spends.same {r : VideoThread × Deed} {place : WorkerPlace} (hquit : r.1.quit = true)
    (hworker : r.1.worker = place) (hcall : r.2.isCall = false) (hpublish : r.2.isPublish = false) :
    Spends place r where
  quit := hquit
  calls := by rw [hworker, hcall, Bool.toNat_false, Nat.zero_add]
  publishes := by rw [hworker, hpublish, Bool.toNat_false, Nat.zero_add]

/-- A loop ends the thread. -/
theorem test_of_quit (h : s.quit = true) (l : WaitLoop) : s.test l = s.leave .returned := by
  cases l <;> exact if_pos h

theorem spends_work (h : s.quit = true) : Spends s.worker (s.work speed) := by
  unfold work
  -- one case a place in the worker's loop
  cases hworker : s.worker with
  | lock c =>
    dsimp only
    split_ifs
    · cases c <;> exact ⟨h, le_rfl, le_rfl⟩
    · exact .same h hworker rfl rfl
  | hold c =>
    cases c with
    -- the test sees `quit` and returns
    | test l =>
      have htest : s.critical (.test l) = (s.leave .returned, .nothing) := by
        rw [critical, test_of_quit h]
      show Spends _ (s.critical (.test l))
      rw [htest]
      exact ⟨h, le_rfl, le_rfl⟩
    | publish f => exact ⟨h, le_rfl, le_rfl⟩
    | ended => exact ⟨h, le_rfl, le_rfl⟩
    | error e => exact ⟨h, le_rfl, le_rfl⟩
    | crash => exact ⟨h, le_rfl, le_rfl⟩
  | wait l timeout => exact ⟨h, le_rfl, le_rfl⟩
  | call => exact ⟨h, le_rfl, le_rfl⟩
  | reckon f =>
    -- the sum of `due` may panic, which ends the thread
    dsimp only
    cases checkedDue speed (s.origin.getD (s.clock, f.pts)) f.pts with
    | none => exact ⟨h, le_rfl, Nat.zero_le _⟩
    | some due => exact ⟨h, le_rfl, le_rfl⟩
  | compare f due =>
    dsimp only
    split_ifs
    · exact ⟨h, le_rfl, Nat.zero_le _⟩
    · exact ⟨h, le_rfl, Nat.zero_le _⟩
    · exact ⟨h, le_rfl, le_rfl⟩
  | asleep l wakeAt notified => exact .same h hworker rfl rfl
  | decoding => exact .same h hworker rfl rfl
  | returned => exact .same h hworker rfl rfl

theorem spends_own (h : s.quit = true) : Spends s.worker s.own := by
  -- a notify changes where the worker sleeps, not what it has to do
  have hnotify : ∀ r : VideoThread × Deed, r.1.quit = true → r.1.worker = s.worker.notify →
      r.2 = .nothing → Spends s.worker r := by
    rintro ⟨t, deed⟩ hquit hworker rfl
    have hsame : Spends s.worker.notify (t, .nothing) := .same hquit hworker rfl rfl
    refine ⟨hquit, ?_, ?_⟩
    · rw [← s.worker.callsLeft_notify]
      exact hsame.calls
    · rw [← s.worker.publishesLeft_notify]
      exact hsame.publishes
  unfold own
  -- the owner's steps, place by place
  cases s.owner with
  | idle => exact .same h rfl rfl rfl
  | lockPoll now =>
    dsimp only
    split_ifs
    · exact .same h rfl rfl rfl
    · exact .same h rfl rfl rfl
  | holdPoll now => exact hnotify _ h rfl rfl
  | answer =>
    obtain ⟨hworker, hquit⟩ := takeLatest_keeps s
    exact .same (hquit.trans h) hworker rfl rfl
  | lockDrop =>
    dsimp only
    split_ifs
    · exact .same h rfl rfl rfl
    · exact .same h rfl rfl rfl
  | holdDrop => exact .same rfl rfl rfl rfl
  | notify => exact hnotify _ h rfl rfl
  | join =>
    dsimp only
    split_ifs
    · exact .same h rfl rfl rfl
    · exact .same h rfl rfl rfl
  | dropped => exact .same h rfl rfl rfl

/-- **One step** with `quit` set. -/
theorem spends_step (h : s.quit = true) (e : Event) : Spends s.worker (s.step speed e) := by
  cases e with
  | tick d => exact .same h rfl rfl rfl
  | work => exact spends_work h
  | own => exact spends_own h
  | decoded r =>
    unfold step
    dsimp only
    split_ifs with hdecoding
    -- the call that was under way is the one that may still publish
    · rw [hdecoding]
      rcases r with _ | e | f | _
      · exact ⟨h, le_rfl, Nat.zero_le _⟩
      · exact ⟨h, le_rfl, Nat.zero_le _⟩
      · exact ⟨h, le_rfl, le_rfl⟩
      · exact ⟨h, le_rfl, Nat.zero_le _⟩
    · exact .same h rfl rfl rfl
  | wake cause =>
    show Spends _ (s.wake cause, .nothing)
    unfold wake
    cases hworker : s.worker with
    | asleep l wakeAt notified =>
      dsimp only
      split_ifs
      · exact ⟨h, le_rfl, le_rfl⟩
      · exact .same h hworker rfl rfl
    | _ => exact .same h hworker rfl rfl
  | poll now =>
    unfold step
    dsimp only
    split_ifs
    · exact .same h rfl rfl rfl
    · exact .same h rfl rfl rfl
  | drop =>
    unfold step
    dsimp only
    split_ifs
    · exact .same h rfl rfl rfl
    · exact .same h rfl rfl rfl

theorem callsLeft_le (place : WorkerPlace) : place.callsLeft ≤ 1 := by
  cases place with
  | call => exact le_rfl
  | _ => exact Nat.zero_le 1

theorem publishesLeft_le (place : WorkerPlace) : place.publishesLeft ≤ 1 := by
  unfold WorkerPlace.publishesLeft
  split
  · exact le_rfl
  · exact le_rfl
  · exact le_rfl
  · exact le_rfl
  · exact le_rfl
  · exact le_rfl
  · exact Nat.zero_le 1

variable (speed)

theorem countP_outputs_isCall (h : s.quit = true) (es : List Event) :
    (outputs (step speed) s es).countP Deed.isCall ≤ s.worker.callsLeft :=
  countP_outputs_le (fun s : VideoThread => s.quit = true) (fun s => s.worker.callsLeft)
    (fun _ e h => (spends_step h e).quit) (fun _ e h => (spends_step h e).calls) h es

theorem countP_outputs_isPublish (h : s.quit = true) (es : List Event) :
    (outputs (step speed) s es).countP Deed.isPublish ≤ s.worker.publishesLeft :=
  countP_outputs_le (fun s : VideoThread => s.quit = true) (fun s => s.worker.publishesLeft)
    (fun _ e h => (spends_step h e).quit) (fun _ e h => (spends_step h e).publishes) h es

/-- The state after steps in any order. -/
def reached (clock : Instant) (es : List Event) : VideoThread := run (step speed) (spawn clock) es

theorem inv_reached (clock : Instant) (es : List Event) : (reached speed clock es).Inv :=
  Machine.invariant (I := Inv) (fun _ e h => inv_step h e) (inv_spawn clock) es

end VideoThread

open VideoThread

/-- **Dropping a video does not wait for a thread that sleeps**: in every state that is reached by
steps in any order, a thread that waits although it was told to quit is woken by a notification or a
timeout, and from when `quit` is set it calls `next_frame` at most once and publishes at most one
frame. -/
theorem drop_never_waits (speed : Speed) (clock : Instant) (es : List VideoThread.Event) :
    ((reached speed clock es).quit = true → (reached speed clock es).owner.notified = true →
      ¬ (reached speed clock es).worker.Forgotten) ∧
    ((reached speed clock es).quit = true → ∀ fs,
      (outputs (step speed) (reached speed clock es) fs).countP Deed.isCall ≤ 1 ∧
        (outputs (step speed) (reached speed clock es) fs).countP Deed.isPublish ≤ 1) := by
  constructor
  -- the invariant says that who sleeps was notified
  · intro _ hnotified hforgotten
    have hcalm := (inv_reached speed clock es).calm
    cases hworker : (reached speed clock es).worker with
    | asleep l wakeAt notified =>
      rw [hworker] at hcalm hforgotten
      exact absurd (hcalm hnotified) (by rw [hforgotten.2]; decide)
    | _ =>
      rw [hworker] at hforgotten
      exact hforgotten
  -- what is left to spend is at most one of each
  · intro hquit fs
    exact ⟨(countP_outputs_isCall speed hquit fs).trans (callsLeft_le _),
      (countP_outputs_isPublish speed hquit fs).trans (publishesLeft_le _)⟩

/-- A video that ended waits without a timeout; dropping it notifies the thread, which still sleeps. -/
theorem drop_never_waits_ended :
    let speed : Speed := ⟨1, by decide⟩
    let s := reached speed 0 [.poll 0, .own, .own, .own, .work, .work, .work,
      .decoded (some (.ok .ended)), .work, .work, .work, .work, .drop, .own, .own, .own]
    s.quit = true ∧ s.owner.notified = true ∧ s.worker = .asleep .quit none true ∧
      ¬ s.worker.Forgotten ∧
      (outputs (step speed) s [.wake .notified, .work, .work]).countP Deed.isCall ≤ 1 := by
  intro speed s
  have hquit : s.quit = true := by decide +kernel
  have hnotified : s.owner.notified = true := by decide +kernel
  obtain ⟨hwaits, hspends⟩ := drop_never_waits speed 0 [.poll 0, .own, .own, .own, .work, .work,
    .work, .decoded (some (.ok .ended)), .work, .work, .work, .work, .drop, .own, .own, .own]
  exact ⟨hquit, hnotified, by decide +kernel, hwaits hquit hnotified, (hspends hquit _).1⟩

end NoshareCover
