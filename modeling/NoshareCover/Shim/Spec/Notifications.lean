import Mathlib.Data.List.DropRight
import NoshareCover.Lib.Run
import NoshareCover.Lib.Utf8
import NoshareCover.Shim.Notifications

/-!
# Which notifications are shown

`Inbox` says what the notifications are for: a message that is not the one before it again waits to
be shown, and everything that waits is shown at the next opportunity, in order and once.  The queue
of the core is shorter than that, and the shim takes the messages one at a time through a small
buffer; `Notifier.shown_eq` says what of the waiting messages is shown.
-/

namespace NoshareCover

open Machine

/-- What is shown of a message: its first characters, as many as fit into the buffer, up to the first
zero. -/
def shownText (msg : String) : List UInt8 :=
  cString (Utf8.bytes (Utf8.fitting (notificationBuffer - 1) msg.toList))

/-- The messages that wait to be shown. -/
structure Inbox where
  last : Option String
  pending : List String
  deriving DecidableEq, Repr

namespace Inbox

def empty : Inbox := { last := none, pending := [] }

/-- The messages up to the first empty one. -/
def readable (msgs : List String) : List String := msgs.takeWhile (· ≠ "")

/-- The messages behind the first empty one. -/
def behind (msgs : List String) : List String := (msgs.dropWhile (· ≠ "")).tail

/-- One event: only the newest 16 messages are shown, and the first empty one among them ends it. -/
def step (i : Inbox) : Notifier.Event → Inbox × List (List UInt8)
  | .push msg =>
    if i.last = some msg then (i, []) else ({ last := some msg, pending := i.pending ++ [msg] }, [])
  | .reset => ({ i with last := none }, [])
  | .drain =>
    ({ i with pending := behind (i.pending.rtake 16) }, (readable (i.pending.rtake 16)).map shownText)

end Inbox

namespace Notifier

/-! ### One message -/

theorem floorBoundary_le (msg : String) (n : ℕ) : floorBoundary msg n ≤ n := by
  induction n with
  | zero => exact le_rfl
  | succ n ih =>
    unfold floorBoundary
    split_ifs
    · exact le_rfl
    · exact ih.trans n.le_succ

theorem isValid_floorBoundary (msg : String) (n : ℕ) :
    (String.Pos.Raw.mk (floorBoundary msg n)).IsValid msg := by
  induction n with
  | zero => exact String.Pos.Raw.isValid_zero
  | succ n ih =>
    unfold floorBoundary
    split_ifs with h
    · exact String.Pos.Raw.isValid_eq_true_iff.1 h
    · exact ih

theorem le_floorBoundary (msg : String) {m n : ℕ} (hle : m ≤ n)
    (h : (String.Pos.Raw.mk m).IsValid msg) : m ≤ floorBoundary msg n := by
  induction n with
  | zero => exact hle
  | succ n ih =>
    unfold floorBoundary
    split_ifs with hvalid
    · exact hle
    · rcases Nat.le_succ_iff.1 hle with hlt | rfl
      · exact ih hlt
      · exact absurd (String.Pos.Raw.isValid_eq_true_iff.2 h) hvalid

/-- The loop over the character boundaries finds the longest beginning that fits. -/
theorem floorBoundary_eq (msg : String) (room : ℕ) :
    floorBoundary msg (min msg.utf8ByteSize room)
      = (Utf8.bytes (Utf8.fitting room msg.toList)).length := by
  obtain ⟨cs, rfl⟩ : ∃ cs, msg = String.ofList cs := ⟨msg.toList, String.ofList_toList.symm⟩
  rw [String.toList_ofList]
  apply le_antisymm
  · refine Utf8.le_fitting_of_isValid ?_ (isValid_floorBoundary _ _)
    exact (floorBoundary_le _ _).trans (min_le_right _ _)
  · refine le_floorBoundary _ (le_min ?_ (Utf8.length_bytes_fitting_le room cs))
      (Utf8.isValid_fitting room cs)
    rw [← Utf8.length_bytes]
    obtain ⟨rest, hrest⟩ := Utf8.fitting_isPrefix room cs
    have hlength := congrArg (fun cs => (Utf8.bytes cs).length) hrest
    simp only [Utf8.bytes_append, List.length_append] at hlength
    omega

/-- **One call** takes the oldest message, and writes what fits of it. -/
theorem take_cons_eq (last : Option String) (msg : String) (queue : List String) {cap : ℕ}
    (hcap : cap ≠ 0) :
    take { last, queue := msg :: queue } cap
      = ({ last, queue }, Utf8.bytes (Utf8.fitting (cap - 1) msg.toList)) := by
  rw [take_cons last msg queue hcap, floorBoundary_eq, Utf8.toByteArray_toList,
    Utf8.take_bytes_fitting]

/-! ### All messages -/

theorem drain_nil (last : Option String) :
    drain { last, queue := [] } = ({ last, queue := [] }, []) := by
  rw [drain]
  split
  · rename_i heq
    rw [take_nil] at heq
    rw [← (Prod.mk.inj heq).1]
  · rename_i heq
    rw [take_nil] at heq
    cases (Prod.mk.inj heq).2

theorem drain_cons_empty (last : Option String) (queue : List String) :
    drain { last, queue := "" :: queue } = ({ last, queue }, []) := by
  have htake := take_cons_eq last "" queue (show notificationBuffer ≠ 0 by decide)
  rw [drain]
  split
  · rename_i heq
    rw [htake] at heq
    rw [← (Prod.mk.inj heq).1]
  · rename_i heq
    rw [htake] at heq
    cases (Prod.mk.inj heq).2

theorem drain_cons (last : Option String) {msg : String} (hmsg : msg ≠ "") (queue : List String) :
    drain { last, queue := msg :: queue }
      = ((drain { last, queue }).1, shownText msg :: (drain { last, queue }).2) := by
  -- the buffer has room for one character at least
  have htake := take_cons_eq last msg queue (show notificationBuffer ≠ 0 by decide)
  have hne : Utf8.bytes (Utf8.fitting (notificationBuffer - 1) msg.toList) ≠ [] :=
    Utf8.bytes_fitting_ne_nil (by decide) fun h => hmsg (String.toList_eq_nil_iff.1 h)
  rw [drain]
  -- a message that is not empty does not end the loop
  split
  · rename_i heq
    rw [htake] at heq
    exact absurd (Prod.mk.inj heq).2 hne
  · rename_i n' b bytes heq
    rw [htake] at heq
    obtain ⟨rfl, hbytes⟩ := Prod.mk.inj heq
    show (_, cString (b :: bytes) :: _) = _
    unfold shownText
    rw [hbytes]

/-- **The loop of the shim** shows the messages up to the first empty one. -/
theorem drain_eq (last : Option String) (queue : List String) :
    drain { last, queue }
      = ({ last, queue := Inbox.behind queue }, (Inbox.readable queue).map shownText) := by
  induction queue with
  | nil => exact drain_nil last
  | cons msg queue ih =>
    unfold Inbox.behind Inbox.readable at *
    by_cases hmsg : msg = ""
    · subst hmsg
      rw [drain_cons_empty]
      rfl
    · have hne : decide (msg ≠ "") = true := decide_eq_true hmsg
      rw [drain_cons last hmsg, ih, List.dropWhile_cons_of_pos (p := fun m => decide (m ≠ "")) hne,
        List.takeWhile_cons_of_pos (p := fun m => decide (m ≠ "")) hne, List.map_cons]

/-! ### Runs -/

/-- The queue of the core has the newest messages of the inbox. -/
structure Holds (n : Notifier) (i : Inbox) : Prop where
  last : n.last = i.last
  queue : n.queue = i.pending.rtake 16

theorem rtake_concat (msgs : List String) (msg : String) :
    (msgs ++ [msg]).rtake 16
      = (if 16 ≤ (msgs.rtake 16).length then (msgs.rtake 16).tail else msgs.rtake 16) ++ [msg] := by
  unfold List.rtake
  rw [List.length_append, List.length_singleton, List.length_drop]
  split_ifs with hfull
  · rw [List.tail_drop, List.drop_append_of_le_length (by omega)]
    congr 2
    omega
  · rw [List.drop_append_of_le_length (by omega)]
    congr 2
    omega

/-- **One event** shows the same and keeps the relation. -/
theorem Holds.step {n : Notifier} {i : Inbox} (h : Holds n i) (e : Event) :
    (n.step e).2 = (i.step e).2 ∧ Holds (n.step e).1 (i.step e).1 := by
  obtain ⟨last, queue⟩ := n
  obtain ⟨hlast, hqueue⟩ := h
  dsimp only at hlast hqueue
  subst hlast hqueue
  cases e with
  | reset => exact ⟨rfl, rfl, rfl⟩
  | push msg =>
    unfold Notifier.step Inbox.step push
    dsimp only
    by_cases hlast : i.last = some msg
    · rw [if_pos hlast, if_pos hlast]
      exact ⟨rfl, rfl, rfl⟩
    · rw [if_neg hlast, if_neg hlast]
      exact ⟨rfl, rfl, (rtake_concat _ _).symm⟩
  | drain =>
    show (drain _).2 = _ ∧ Holds (drain _).1 _
    rw [drain_eq]
    refine ⟨rfl, rfl, ?_⟩
    -- what is left behind an empty message is short enough to stay
    show Inbox.behind (i.pending.rtake 16) = (Inbox.behind (i.pending.rtake 16)).rtake 16
    have hshort : (Inbox.behind (i.pending.rtake 16)).length ≤ 16 := by
      have hdrop :=
        (List.dropWhile_suffix (l := i.pending.rtake 16) (fun m => decide (m ≠ ""))).length_le
      unfold Inbox.behind
      rw [List.length_tail]
      unfold List.rtake at hdrop ⊢
      rw [List.length_drop (l := i.pending)] at hdrop
      omega
    rw [List.rtake.eq_def (Inbox.behind _), Nat.sub_eq_zero_of_le hshort, List.drop_zero]

/-- **What is shown**: in every run, each opportunity shows the newest 16 of the messages that wait in
the inbox, in order, each cut to the buffer at a character boundary. -/
theorem shown_eq (es : List Event) :
    outputs step empty es = outputs Inbox.step Inbox.empty es := by
  have hrun : ∀ (n : Notifier) (i : Inbox), Holds n i →
      outputs Notifier.step n es = outputs Inbox.step i es := by
    induction es with
    | nil => exact fun _ _ _ => rfl
    | cons e es ih =>
      intro n i h
      obtain ⟨hshown, hnext⟩ := h.step e
      rw [outputs_cons, outputs_cons, hshown, ih _ _ hnext]
  exact hrun empty Inbox.empty ⟨rfl, rfl⟩

end Notifier

end NoshareCover
