import NoshareCover.Core.Notify

/-!
# Showing the notifications of the core

After a capture frame and after a config reload the shim takes all messages of the core, one buffer
after the other, and shows them.
-/

namespace NoshareCover

/-- `std::array<char, 512>`. -/
def notificationBuffer : ℕ := 512

/-- A C string ends at its first zero. -/
def cString (bytes : List UInt8) : List UInt8 := bytes.takeWhile (· ≠ 0)

namespace Notifier

/-- Taking from an empty queue. -/
@[simp] theorem take_nil (last : Option String) (cap : ℕ) :
    take { last, queue := [] } cap = ({ last, queue := [] }, []) := by
  unfold take
  split <;> rfl

theorem take_cons (last : Option String) (msg : String) (queue : List String) {cap : ℕ}
    (hcap : cap ≠ 0) :
    take { last, queue := msg :: queue } cap
      = ({ last, queue },
        msg.toByteArray.data.toList.take (floorBoundary msg (min msg.utf8ByteSize (cap - 1)))) := by
  unfold take
  exact if_neg hcap

theorem take_queue_lt {n : Notifier} {cap : ℕ} (hcap : cap ≠ 0) (h : (n.take cap).2 ≠ []) :
    (n.take cap).1.queue.length < n.queue.length := by
  obtain ⟨last, queue⟩ := n
  cases queue with
  | nil =>
    rw [take_nil] at h
    exact absurd rfl h
  | cons msg queue =>
    rw [take_cons last msg queue hcap]
    exact Nat.lt_succ_self _

/-- `drainNotifications`: what is shown, in this order. -/
def drain (n : Notifier) : Notifier × List (List UInt8) :=
  match h : n.take notificationBuffer with
  | (n', []) => (n', [])
  | (n', b :: bytes) =>
    have : n'.queue.length < n.queue.length := by
      have hlt := n.take_queue_lt (show notificationBuffer ≠ 0 by decide)
      rw [h] at hlt
      exact hlt (List.cons_ne_nil b bytes)
    let (n'', shown) := n'.drain
    (n'', cString (b :: bytes) :: shown)
termination_by n.queue.length

/-- What happens to the messages. -/
inductive Event where
  | push (msg : String)
  /-- The settings changed. -/
  | reset
  | drain
  deriving DecidableEq, Repr

/-- One event, with what is shown. -/
def step (n : Notifier) : Event → Notifier × List (List UInt8)
  | .push msg => (n.push msg, [])
  | .reset => (n.reset, [])
  | .drain => n.drain

end Notifier

end NoshareCover
