import Mathlib.Data.Nat.Notation

/-!
# User notifications

The same message is never repeated back to back; otherwise a config error would spam the screen
every frame.
-/

namespace NoshareCover

structure Notifier where
  last : Option String
  queue : List String
  deriving DecidableEq, Repr

namespace Notifier

def empty : Notifier := { last := none, queue := [] }

/-- The queue keeps at most 16 messages, the newest ones. -/
def push (n : Notifier) (msg : String) : Notifier :=
  if n.last = some msg then n
  else
    let queue := if 16 ≤ n.queue.length then n.queue.tail else n.queue
    { last := some msg, queue := queue ++ [msg] }

/-- After a config change, previous errors may be shown again. -/
def reset (n : Notifier) : Notifier := { n with last := none }

def pop (n : Notifier) : Option String × Notifier :=
  (n.queue.head?, { n with queue := n.queue.tail })

/-- The last place at or before `n` that does not split a character of the message. -/
def floorBoundary (msg : String) : ℕ → ℕ
  | 0 => 0
  | n + 1 => if (String.Pos.Raw.mk (n + 1)).isValid msg then n + 1 else floorBoundary msg n

/-- `nsc_take_notification`: the bytes that it writes to a buffer of `cap` bytes, before the zero at
the end. -/
def take (n : Notifier) (cap : ℕ) : Notifier × List UInt8 :=
  if cap = 0 then (n, [])
  else
    match n.pop with
    | (none, n) => (n, [])
    | (some msg, n) =>
      (n, msg.toByteArray.data.toList.take (floorBoundary msg (min msg.utf8ByteSize (cap - 1))))

end Notifier

end NoshareCover
