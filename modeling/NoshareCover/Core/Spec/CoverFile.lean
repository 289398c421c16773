import Mathlib.Algebra.GroupWithZero.Nat
import Mathlib.Algebra.BigOperators.Group.List.Basic
import NoshareCover.Core.Spec.Registry

/-!
# What `resolve` does with one cover

`resolve` advances one cover: a missing file is looked for again after the retry time, an opening
cover takes what its loader has sent, a ready one is polled.  The lemmas give the state that comes
out, what is said about missing files, and the threads that are started.
-/

namespace NoshareCover

/-- The message that a file is not there. -/
def isNotFound (msg : String) : Bool := "noshare-cover: file not found: ".toList.isPrefixOf msg.toList

theorem isNotFound_missing (p : String) :
    isNotFound ("noshare-cover: file not found: " ++ p) = true := by
  unfold isNotFound
  rw [String.toList_append, List.isPrefixOf_iff_prefix]
  exact List.prefix_append _ _

/-- No other error has such a message. -/
theorem isNotFound_toString {e : MediaError} (h : ∀ p, e ≠ .missing p) :
    isNotFound ("noshare-cover: " ++ e.toString) = false := by
  unfold isNotFound
  rw [String.toList_append]
  cases e with
  | missing p => exact absurd rfl (h p)
  | unknownFormat ext =>
    unfold MediaError.toString
    rw [String.toList_append]
    rfl
  | «open» path reason =>
    unfold MediaError.toString
    simp only [String.toList_append, List.append_assoc]
    rfl
  | video path reason =>
    unfold MediaError.toString
    simp only [String.toList_append, List.append_assoc]
    rfl

/-- How often an entry of the history starts a thread for the cover `id`. -/
def Effect.opens (id : ℕ) : Effect → ℕ
  | .spawned _ cover => if cover = id then 1 else 0
  | _ => 0

/-- Whether an entry of the history is a look for the file of the cover `id`, and what was found. -/
def Effect.probe (id : ℕ) : Effect → Option Bool
  | .probed cover found => if cover = id then some found else none
  | _ => none

/-- The cover has its source, or has failed. -/
def State.Over {σ : Type} : State σ → Prop
  | .ready _ | .failed => True
  | _ => False

/-- What `resolve` finds out about a missing file, which it looks for from the retry time on. -/
def Cover.lookedFor {σ : Type} (c : Cover σ) (env : Env) (now : Instant) : List Bool :=
  match c.state with
  | .missing retryAt => if retryAt ≤ now then [env.pathExists] else []
  | _ => []

theorem Cover.due_of_lookedFor {σ : Type} {c : Cover σ} {env : Env} {now : Instant} {found : Bool}
    (h : found ∈ c.lookedFor env now) : ∃ retryAt, c.state = .missing retryAt ∧ retryAt ≤ now := by
  unfold Cover.lookedFor at h
  cases hc : c.state with
  | missing retryAt =>
    rw [hc] at h
    dsimp only at h
    split_ifs at h with hdue
    · exact ⟨retryAt, rfl, hdue⟩
    · exact absurd h List.not_mem_nil
  | _ =>
    rw [hc] at h
    exact absurd h List.not_mem_nil

namespace Sys

variable {σ : Type} [Source σ]

/-- The loader of the cover has sent that the file is missing; the value says if it was a retry. -/
def endedMissing (s : Sys σ) (c : Cover σ) : Option Bool :=
  match c.state with
  | .opening loader retry =>
    match (s.threads loader.rx).sent with
    | some (.error (.missing _)) => some retry
    | _ => none
  | _ => none

/-- How often a thread was started for the cover `id`. -/
def opens (s : Sys σ) (id : ℕ) : ℕ := (s.log.map (Effect.opens id)).sum

/-- What the looks for the file of the cover `id` have found, the last one first. -/
def probes (s : Sys σ) (id : ℕ) : List Bool := s.log.filterMap (Effect.probe id)

/-! ### The call -/

theorem resolve_of_lookup {s : Sys σ} {play : PlayParams} {c : Cover σ} (env : Env) (now : Instant)
    (hpath : play.path ≠ "") (hc : s.reg.covers.lookup play = some c) :
    s.resolve env play now
      = (s.advance env play now c).2.present play (s.advance env play now c).1 := by
  obtain ⟨c', hc', hresolve⟩ := s.resolve_eq env now hpath
  have hensure : s.ensure env play now = s := if_pos (AList.lookup_isSome.mp (by rw [hc]; rfl))
  rw [hensure] at hc' hresolve
  obtain rfl := Option.some.inj (hc'.symm.trans hc)
  exact hresolve

/-- Only a ready cover is polled. -/
theorem pollReady_of_ne {s : Sys σ} {c : Cover σ} (now : Instant) (h : ∀ src, c.state ≠ .ready src) :
    s.pollReady now c = (c, s) := by
  unfold pollReady
  cases hs : c.state with
  | ready src => exact absurd hs (h src)
  | _ => rfl

/-- Polling leaves a ready cover ready or failed, and reports what the source says. -/
theorem pollReady_over {s : Sys σ} {c : Cover σ} (now : Instant) {src : σ}
    (h : c.state = .ready src) :
    (s.pollReady now c).1.state.Over ∧ ((s.pollReady now c).2.reg.notifier = s.reg.notifier
      ∨ ∃ e, (Source.poll src now).1 = .error e
        ∧ (s.pollReady now c).2.reg.notifier
          = s.reg.notifier.push ("noshare-cover: " ++ e.toString)) := by
  unfold pollReady
  rw [h]
  dsimp only
  -- polled once in a frame, and only then can there be an error
  split_ifs
  · rcases hp : Source.poll src now with ⟨e | _ | f, src'⟩
    · exact ⟨trivial, .inr ⟨e, rfl, rfl⟩⟩
    · exact ⟨trivial, .inl rfl⟩
    · exact ⟨trivial, .inl rfl⟩
  · rw [h]
    exact ⟨trivial, .inl rfl⟩

omit [Source σ] in
theorem dropLoader_nextThread (s : Sys σ) (l : Loader) :
    (s.dropLoader l).nextThread = s.nextThread := by
  unfold dropLoader
  cases l.worker <;> rfl

omit [Source σ] in
theorem tryRecv_kept (s : Sys σ) (l : Loader) :
    (s.tryRecv l).2.reg = s.reg ∧ (s.tryRecv l).2.nextThread = s.nextThread := by
  unfold tryRecv
  cases (s.threads l.rx).sent <;> exact ⟨rfl, rfl⟩

theorem pollReady_nextThread (s : Sys σ) (now : Instant) (c : Cover σ) :
    (s.pollReady now c).2.nextThread = s.nextThread := by
  unfold pollReady
  cases c.state with
  | ready src =>
    dsimp only
    split_ifs
    · rcases Source.poll src now with ⟨e | _ | f, src'⟩ <;> rfl
    · rfl
  | _ => rfl

/-! ### A missing cover -/

/-- Before the retry time nothing happens; from then on an absent file is looked for again later. -/
theorem advance_absent {s : Sys σ} {env : Env} {play : PlayParams} {now : Instant} {c : Cover σ}
    {retryAt : Instant} (h : c.state = .missing retryAt)
    (hno : ¬ (retryAt ≤ now ∧ env.pathExists = true)) :
    s.advance env play now c
      = ({ c with lastUsed := now
                  state := .missing (if retryAt ≤ now then now + missingRetry else retryAt) },
        if retryAt ≤ now then s.probe env c.id else s) := by
  unfold advance retryMissing
  rw [h]
  dsimp only
  by_cases hdue : retryAt ≤ now
  · rw [if_pos hdue, if_pos hdue, if_pos hdue, if_neg fun hfile => hno ⟨hdue, hfile⟩]
    rfl
  · rw [if_neg hdue, if_neg hdue, if_neg hdue]
    simp [pickUp, pollReady]

/-- A file that is there is opened again, unless no thread can be started. -/
theorem advance_found {s : Sys σ} {env : Env} {play : PlayParams} {now : Instant} {c : Cover σ}
    {retryAt : Instant} (h : c.state = .missing retryAt)
    (hyes : retryAt ≤ now ∧ env.pathExists = true) :
    let opened := (s.probe env c.id).spawn play (s.settings env) env.canSpawn c.id
    s.advance env play now c
      = if env.canSpawn then
          ({ c with lastUsed := now, state := .opening opened.1 true }, opened.2)
        else
          ({ c with lastUsed := now, state := .failed },
            opened.2.notify "noshare-cover: failed to start the cover loader") := by
  intro opened
  -- the new thread hasn't sent anything
  have hsent : (opened.2.threads opened.1.rx).sent = none := by
    show (Function.update s.threads s.nextThread _ s.nextThread).sent = none
    rw [Function.update_self]
  have hclosed : (opened.2.threads opened.1.rx).closed = !env.canSpawn := by
    show (Function.update s.threads s.nextThread _ s.nextThread).closed = _
    rw [Function.update_self]
  have hworker : opened.1.worker = if env.canSpawn then some s.nextThread else none := rfl
  -- the file is opened again, as a retry
  have hretry : s.retryMissing env play now { c with lastUsed := now }
      = ({ c with lastUsed := now, state := .opening opened.1 true }, opened.2) := by
    unfold retryMissing
    rw [h]
    dsimp only
    rw [if_pos hyes.1, if_pos hyes.2]
    rfl
  unfold advance
  rw [hretry]
  dsimp only
  unfold pickUp tryRecv
  dsimp only
  rw [hsent, hclosed]
  -- without a thread the loader is closed at once, and `pickUp` finds that
  cases hspawn : env.canSpawn with
  | true => rfl
  | false =>
    rw [hspawn] at hworker
    simp [pollReady, dropLoader, hworker]

/-! ### An opening cover -/

theorem advance_opening {s : Sys σ} {env : Env} {play : PlayParams} {now : Instant} {c : Cover σ}
    {loader : Loader} {retry : Bool} (h : c.state = .opening loader retry) :
    s.advance env play now c
      = (s.pickUp now { c with lastUsed := now }).2.pollReady now
          (s.pickUp now { c with lastUsed := now }).1 := by
  unfold advance retryMissing
  rw [h]

/-- An open that ended with a missing file. -/
theorem advance_opened_missing {s : Sys σ} (env : Env) (play : PlayParams) (now : Instant)
    {c : Cover σ} {loader : Loader} {retry : Bool} {p : String} (h : c.state = .opening loader retry)
    (hsent : (s.threads loader.rx).sent = some (.error (.missing p))) :
    (s.advance env play now c).1
        = { c with lastUsed := now, state := .missing (now + missingRetry) }
      ∧ (s.advance env play now c).2.reg.notifier
        = if retry then s.reg.notifier
          else s.reg.notifier.push ("noshare-cover: file not found: " ++ p) := by
  -- a retry that misses the file again is not reported
  have hpick : (s.pickUp now { c with lastUsed := now }).1
        = { c with lastUsed := now, state := .missing (now + missingRetry) }
      ∧ (s.pickUp now { c with lastUsed := now }).2.reg.notifier
        = if retry then s.reg.notifier
          else s.reg.notifier.push ("noshare-cover: file not found: " ++ p) := by
    unfold pickUp tryRecv
    dsimp only
    rw [h]
    dsimp only
    rw [hsent]
    dsimp only
    rw [dropLoader_reg]
    cases retry <;> exact ⟨rfl, rfl⟩
  rw [advance_opening h, hpick.1, pollReady_of_ne now nofun]
  exact ⟨rfl, hpick.2⟩

/-- Any other answer of the loader, or none: the cover waits, has its source, or has failed. -/
theorem pickUp_other {s : Sys σ} {c : Cover σ} (now : Instant) {loader : Loader} {retry : Bool}
    (h : c.state = .opening loader retry)
    (hsent : ∀ p, (s.threads loader.rx).sent ≠ some (.error (.missing p))) :
    ((s.pickUp now c).1.state = c.state ∧ (s.pickUp now c).2 = s)
      ∨ ((s.pickUp now c).1.state.Over ∧ ((s.pickUp now c).2.reg.notifier = s.reg.notifier
        ∨ (s.pickUp now c).1.state = .failed ∧ ∃ msg, isNotFound msg = false
          ∧ (s.pickUp now c).2.reg.notifier = s.reg.notifier.push msg)) := by
  unfold pickUp tryRecv
  rw [h]
  dsimp only
  -- nothing sent, a failure, or the source
  rcases hs : (s.threads loader.rx).sent with _ | ⟨e | ⟨src, frame⟩⟩
  -- the loader is gone without a message
  · by_cases hclosed : (s.threads loader.rx).closed = true
    · dsimp only
      rw [if_pos hclosed]
      dsimp only
      rw [dropLoader_reg]
      exact .inr ⟨trivial, .inr ⟨rfl, "noshare-cover: failed to start the cover loader", by decide, rfl⟩⟩
    · dsimp only
      rw [if_neg hclosed]
      exact .inl ⟨h, rfl⟩
  · have hmsg := isNotFound_toString (e := e) fun p hp => hsent p (by rw [hs, hp])
    cases e with
    | missing p => exact absurd hs (hsent p)
    | _ =>
      dsimp only
      rw [dropLoader_reg]
      exact .inr ⟨trivial, .inr ⟨rfl, _, hmsg, rfl⟩⟩
  · dsimp only
    rw [dropLoader_reg]
    exact .inr ⟨trivial, .inl rfl⟩

theorem pickUp_nextThread (s : Sys σ) (now : Instant) (c : Cover σ) :
    (s.pickUp now c).2.nextThread = s.nextThread := by
  unfold pickUp
  cases c.state with
  | opening loader retry =>
    dsimp only
    obtain ⟨-, hnext⟩ := s.tryRecv_kept loader
    rcases hr : s.tryRecv loader with ⟨r, u⟩
    rw [hr] at hnext
    rcases r with _ | _ | (e | ⟨src, frame⟩)
    · exact hnext
    · exact (dropLoader_nextThread _ _).trans hnext
    -- the one error that is not final
    · cases e with
      | missing p => cases retry <;> exact (dropLoader_nextThread _ _).trans hnext
      | _ => exact (dropLoader_nextThread _ _).trans hnext
    · exact (dropLoader_nextThread _ _).trans hnext
  | _ => rfl

/-! ### A cover that is over -/

theorem advance_ready {s : Sys σ} {env : Env} {play : PlayParams} {now : Instant} {c : Cover σ}
    {src : σ} (h : c.state = .ready src) :
    s.advance env play now c = s.pollReady now { c with lastUsed := now } := by
  unfold advance retryMissing
  rw [h]
  simp [pickUp]

theorem advance_failed {s : Sys σ} {env : Env} {play : PlayParams} {now : Instant} {c : Cover σ}
    (h : c.state = .failed) : s.advance env play now c = ({ c with lastUsed := now }, s) := by
  unfold advance retryMissing
  simp [h, pickUp, pollReady]

/-! ### The messages -/

/-- The messages about missing files in the queue. -/
def notFound (n : Notifier) : List String := n.queue.filter isNotFound

theorem notFound_push {msg : String} :
    notFound (Notifier.empty.push msg) = if isNotFound msg then [msg] else [] := by
  show List.filter isNotFound [msg] = _
  cases hmsg : isNotFound msg <;> simp [hmsg]

/-- A source does not say that its file is missing. -/
theorem pollReady_notFound (hpoll : ∀ (src : σ) now p, (Source.poll src now).1 ≠ .error (.missing p))
    {s : Sys σ} (now : Instant) {c : Cover σ}
    (h : s.reg.notifier = .empty ∨ ∀ src, c.state ≠ .ready src) :
    notFound (s.pollReady now c).2.reg.notifier = notFound s.reg.notifier := by
  by_cases hready : ∃ src, c.state = .ready src
  · obtain ⟨src, hsrc⟩ := hready
    have hempty := h.resolve_right fun hne => hne src hsrc
    obtain ⟨-, hsame | ⟨e, he, hpush⟩⟩ := pollReady_over now hsrc
    · rw [hsame]
    · rw [hpush, hempty, notFound_push,
        isNotFound_toString (e := e) fun p hp => hpoll src now p (hp ▸ he)]
      rfl
  · rw [pollReady_of_ne now fun src hsrc => hready ⟨src, hsrc⟩]

omit [Source σ] in
theorem endedMissing_eq_some_iff {s : Sys σ} {c : Cover σ} {retry : Bool} :
    s.endedMissing c = some retry ↔ ∃ loader p, c.state = .opening loader retry
      ∧ (s.threads loader.rx).sent = some (.error (.missing p)) := by
  unfold endedMissing
  cases hc : c.state with
  | opening loader retry' =>
    dsimp only
    constructor
    -- only a message of a missing file is one
    · intro h
      split at h
      · rename_i p hp
        obtain rfl := Option.some.inj h
        exact ⟨loader, p, rfl, hp⟩
      · cases h
    · rintro ⟨loader', p, heq, hp⟩
      cases heq
      rw [hp]
  | _ => exact ⟨nofun, fun ⟨_, _, h, _⟩ => nomatch h⟩

omit [Source σ] in
theorem endedMissing_eq_none {s : Sys σ} {c : Cover σ}
    (h : ∀ loader retry, c.state ≠ .opening loader retry) : s.endedMissing c = none := by
  unfold endedMissing
  cases hc : c.state with
  | opening loader retry => exact absurd hc (h loader retry)
  | _ => rfl

/-- An open that has not ended, or has ended otherwise, is no reason to speak of a missing file. -/
theorem advance_opening_notFound
    (hpoll : ∀ (src : σ) now p, (Source.poll src now).1 ≠ .error (.missing p)) {s : Sys σ} {env : Env}
    {play : PlayParams} {now : Instant} {c : Cover σ} {loader : Loader} {retry : Bool}
    (hempty : s.reg.notifier = .empty) (hc : c.state = .opening loader retry)
    (hsent : ∀ p, (s.threads loader.rx).sent ≠ some (.error (.missing p))) :
    notFound (s.advance env play now c).2.reg.notifier = [] := by
  -- nothing is in the queue before
  have hquiet : notFound s.reg.notifier = [] := by
    rw [hempty]
    rfl
  rw [advance_opening hc]
  rcases pickUp_other now (c := { c with lastUsed := now }) hc hsent with
    ⟨hstate, hsys⟩ | ⟨-, hsame | ⟨hfailed, msg, hmsg, hpush⟩⟩
  -- the three ways to pick up: nothing new, silently, with a message about something else
  · rw [pollReady_notFound hpoll now (.inr fun src hsrc => ?_), hsys, hquiet]
    rw [hstate] at hsrc
    cases hc.symm.trans hsrc
  · rw [pollReady_notFound hpoll now (.inl (hsame.trans hempty)), hsame, hquiet]
  · rw [pollReady_notFound hpoll now (.inr fun src hsrc => ?_), hpush, hempty, notFound_push, hmsg]
    · rfl
    · cases hfailed.symm.trans hsrc

/-- **What `resolve` says about a missing file**: only that the first open did not find it. -/
theorem advance_notFound (hpoll : ∀ (src : σ) now p, (Source.poll src now).1 ≠ .error (.missing p))
    {s : Sys σ} {env : Env} {play : PlayParams} {now : Instant} {c : Cover σ}
    (hempty : s.reg.notifier = .empty) :
    (notFound (s.advance env play now c).2.reg.notifier).length
      = if s.endedMissing c = some false then 1 else 0 := by
  have hquiet : notFound s.reg.notifier = [] := by
    rw [hempty]
    rfl
  cases hc : c.state with
  | opening loader retry =>
    by_cases hsent : ∃ p, (s.threads loader.rx).sent = some (.error (.missing p))
    · obtain ⟨p, hp⟩ := hsent
      obtain ⟨-, hpush⟩ := advance_opened_missing env play now hc hp
      have hended : s.endedMissing c = some retry := endedMissing_eq_some_iff.2 ⟨loader, p, hc, hp⟩
      rw [hpush, hended]
      cases retry with
      | true =>
        rw [if_pos rfl, hquiet]
        rfl
      | false =>
        rw [if_neg (by decide), hempty, notFound_push, if_pos (isNotFound_missing p)]
        rfl
    -- anything else that arrives is told in other words, if at all
    · have hended : s.endedMissing c ≠ some false := by
        intro h
        obtain ⟨loader', p, heq, hp⟩ := endedMissing_eq_some_iff.1 h
        obtain ⟨rfl, rfl⟩ := State.opening.inj (hc.symm.trans heq)
        exact hsent ⟨p, hp⟩
      rw [if_neg hended, List.length_eq_zero_iff]
      exact advance_opening_notFound hpoll hempty hc fun p hp => hsent ⟨p, hp⟩
  | missing retryAt =>
    have hended : s.endedMissing c = none := endedMissing_eq_none fun _ _ h => nomatch hc.symm.trans h
    rw [hended, if_neg nofun, List.length_eq_zero_iff]
    -- only a loader that does not start says something here
    by_cases hyes : retryAt ≤ now ∧ env.pathExists = true
    · rw [advance_found hc hyes]
      split_ifs
      · exact hquiet
      · show notFound (s.reg.notifier.push _) = []
        rw [hempty, notFound_push]
        decide
    · rw [advance_absent hc hyes]
      dsimp only
      split_ifs
      · exact hquiet
      · exact hquiet
  | ready src =>
    have hended : s.endedMissing c = none := endedMissing_eq_none fun _ _ h => nomatch hc.symm.trans h
    rw [hended, if_neg nofun, List.length_eq_zero_iff, advance_ready hc,
      pollReady_notFound hpoll now (.inl hempty), hquiet]
  | failed =>
    have hended : s.endedMissing c = none := endedMissing_eq_none fun _ _ h => nomatch hc.symm.trans h
    rw [hended, if_neg nofun, List.length_eq_zero_iff, advance_failed hc]
    exact hquiet

/-! ### The cover after `resolve` -/

theorem advance_id (s : Sys σ) (env : Env) (play : PlayParams) (now : Instant) (c : Cover σ) :
    (s.advance env play now c).1.id = c.id :=
  (pollReady_move _ now _).id_eq.trans
    ((pickUp_move _ now _).id_eq.trans (retryMissing_id s env play now _))

/-- A cover whose open did not end with a missing file goes on opening, or is over. -/
theorem advance_opening_state {s : Sys σ} {env : Env} {play : PlayParams} {now : Instant} {c : Cover σ}
    {loader : Loader} {retry : Bool} (hc : c.state = .opening loader retry)
    (hsent : ∀ p, (s.threads loader.rx).sent ≠ some (.error (.missing p))) :
    (s.advance env play now c).1.state = c.state ∨ (s.advance env play now c).1.state.Over := by
  rw [advance_opening hc]
  rcases pickUp_other now (c := { c with lastUsed := now }) hc hsent with ⟨hstate, -⟩ | ⟨hover, -⟩
  · left
    rw [pollReady_of_ne now fun src hsrc => nomatch (hc.symm.trans hstate.symm).trans hsrc]
    exact hstate
  · right
    by_cases hready : ∃ src, (s.pickUp now { c with lastUsed := now }).1.state = .ready src
    · obtain ⟨src, hsrc⟩ := hready
      exact (pollReady_over now hsrc).1
    · rw [pollReady_of_ne now fun src hsrc => hready ⟨src, hsrc⟩]
      exact hover

/-- **What `resolve` can do to the state of a cover.** -/
theorem advance_state (s : Sys σ) (env : Env) (play : PlayParams) (now : Instant) (c : Cover σ) :
    let d := (s.advance env play now c).1.state
    (∃ retry, s.endedMissing c = some retry ∧ d = .missing (now + missingRetry))
    ∨ (s.endedMissing c = none ∧ d = c.state ∧ ∀ t, c.state = .missing t → now < t)
    ∨ (∃ t, c.state = .missing t ∧ t ≤ now ∧ env.pathExists = false
        ∧ d = .missing (now + missingRetry))
    ∨ (s.endedMissing c = none ∧ (∀ t, c.state = .missing t → t ≤ now ∧ env.pathExists = true)
        ∧ ((∃ t loader, c.state = .missing t ∧ d = .opening loader true) ∨ d.Over)) := by
  intro d
  cases hc : c.state with
  | opening loader retry =>
    cases hended : s.endedMissing c with
    | some retry' =>
      obtain ⟨loader', p, heq, hp⟩ := endedMissing_eq_some_iff.1 hended
      obtain ⟨hstate, -⟩ := advance_opened_missing env play now heq hp
      exact .inl ⟨retry', rfl, congrArg Cover.state hstate⟩
    | none =>
      have hsent : ∀ p, (s.threads loader.rx).sent ≠ some (.error (.missing p)) := by
        intro p hp
        rw [endedMissing_eq_some_iff.2 ⟨loader, p, hc, hp⟩] at hended
        cases hended
      rcases advance_opening_state hc hsent with hsame | hover
      · exact .inr (.inl ⟨rfl, hsame.trans hc, nofun⟩)
      · exact .inr (.inr (.inr ⟨rfl, nofun, .inr hover⟩))
  | missing t =>
    have hended : s.endedMissing c = none := endedMissing_eq_none fun _ _ h => nomatch hc.symm.trans h
    by_cases hyes : t ≤ now ∧ env.pathExists = true
    · refine .inr (.inr (.inr ⟨hended, ?_, ?_⟩))
      · rintro t' heq
        cases heq
        exact hyes
      · show (∃ t' loader, _ ∧ (s.advance env play now c).1.state = _) ∨ _
        rw [show d = (s.advance env play now c).1.state from rfl, advance_found hc hyes]
        split_ifs
        · exact .inl ⟨t, _, rfl, rfl⟩
        · exact .inr trivial
    · have hd : d = .missing (if t ≤ now then now + missingRetry else t) := by
        show (s.advance env play now c).1.state = _
        rw [advance_absent hc hyes]
      -- the file was looked for and is not there, or it is not time yet
      by_cases hdue : t ≤ now
      · rw [if_pos hdue] at hd
        have hfile : env.pathExists = false := by
          rw [← Bool.not_eq_true]
          exact fun h => hyes ⟨hdue, h⟩
        exact .inr (.inr (.inl ⟨t, rfl, hdue, hfile, hd⟩))
      · rw [if_neg hdue] at hd
        refine .inr (.inl ⟨hended, hd, ?_⟩)
        rintro t' heq
        cases heq
        exact not_le.1 hdue
  | ready src =>
    have hended : s.endedMissing c = none := endedMissing_eq_none fun _ _ h => nomatch hc.symm.trans h
    refine .inr (.inr (.inr ⟨hended, nofun, .inr ?_⟩))
    show (s.advance env play now c).1.state.Over
    rw [advance_ready hc]
    exact (pollReady_over (c := { c with lastUsed := now }) now hc).1
  | failed =>
    have hended : s.endedMissing c = none := endedMissing_eq_none fun _ _ h => nomatch hc.symm.trans h
    refine .inr (.inl ⟨hended, ?_, nofun⟩)
    show (s.advance env play now c).1.state = _
    rw [advance_failed hc]
    exact hc

/-! ### The threads and the file of one cover -/

/-- From `s` to `t` no thread was started and no file was looked for. -/
def Quiet (s t : Sys σ) : Prop :=
  ∃ es, t.log = es ++ s.log ∧ ∀ e ∈ es, ∀ id, e.opens id = 0 ∧ e.probe id = none

section Quiet

variable {s t u : Sys σ} {id : ℕ}

omit [Source σ]

theorem Quiet.of_log (h : t.log = s.log) : Quiet s t :=
  ⟨[], h, fun _ he => absurd he List.not_mem_nil⟩

theorem Quiet.trans (h : Quiet s t) (h' : Quiet t u) : Quiet s u := by
  obtain ⟨es, hes, hquiet⟩ := h
  obtain ⟨fs, hfs, hquiet'⟩ := h'
  refine ⟨fs ++ es, by rw [hfs, hes, List.append_assoc], fun e he => ?_⟩
  rcases List.mem_append.1 he with he | he
  · exact hquiet' e he
  · exact hquiet e he

/-- One more entry of the history. -/
theorem Quiet.note (h : t.log = s.log) (e : Effect) (he : ∀ id, e.opens id = 0 ∧ e.probe id = none) :
    Quiet s { t with log := e :: t.log } := by
  refine ⟨[e], by rw [h]; rfl, fun e' he' => ?_⟩
  obtain rfl := List.mem_singleton.1 he'
  exact he

theorem Quiet.opens_eq (h : Quiet s t) : t.opens id = s.opens id := by
  obtain ⟨es, hlog, hquiet⟩ := h
  have hnone : (es.map (Effect.opens id)).sum = 0 := by
    refine List.sum_eq_zero fun n hn => ?_
    obtain ⟨e, he, rfl⟩ := List.mem_map.1 hn
    exact (hquiet e he id).1
  unfold opens
  rw [hlog, List.map_append, List.sum_append, hnone, Nat.zero_add]

theorem Quiet.probes_eq (h : Quiet s t) : t.probes id = s.probes id := by
  obtain ⟨es, hlog, hquiet⟩ := h
  unfold probes
  rw [hlog, List.filterMap_append, List.filterMap_eq_nil_iff.2 fun e he => (hquiet e he id).2,
    List.nil_append]

theorem Behind.quiet (h : Behind s t) : Quiet s t := by
  obtain ⟨es, hlog, hjoined⟩ := h.log
  refine ⟨es, hlog, fun e he id => ?_⟩
  obtain ⟨thread, done, rfl⟩ := hjoined e he
  exact ⟨rfl, rfl⟩

theorem removeCovers_quiet (s : Sys σ) (plays : List PlayParams) :
    Quiet s (plays.foldl removeCover s) := by
  refine List.foldlRecOn (motive := fun u : Sys σ => Quiet s u) plays _ (.of_log rfl) ?_
  intro u hu p _
  refine hu.trans ?_
  unfold removeCover
  cases u.reg.covers.lookup p with
  | none => exact .of_log rfl
  | some c =>
    have hdropped : Quiet u { u with
        reg := { u.reg with covers := u.reg.covers.erase p }, log := .dropped c.id :: u.log } :=
      .note (t := { u with reg := { u.reg with covers := u.reg.covers.erase p } }) rfl _
        fun _ => ⟨rfl, rfl⟩
    exact hdropped.trans (retire_behind _ c).quiet

theorem present_quiet (s : Sys σ) (play : PlayParams) (c : Cover σ) :
    Quiet s (s.present play c).1 := by
  unfold present
  cases c.current with
  | none => exact .of_log rfl
  | some f => exact .note (t := s.setCover play c) rfl _ fun _ => ⟨rfl, rfl⟩

theorem send_quiet (s : Sys σ) (t : ℕ) (r : Loaded σ) : Quiet s (s.send t r) := by
  unfold send
  split_ifs <;> exact .of_log rfl

theorem finish_quiet (s : Sys σ) (t : ℕ) : Quiet s (s.finish t) := by
  unfold finish
  split_ifs <;> exact .of_log rfl

theorem present_nextThread (s : Sys σ) (play : PlayParams) (c : Cover σ) :
    (s.present play c).1.nextThread = s.nextThread := by
  unfold present
  cases c.current <;> rfl

/-- A thread is only started for the new cover. -/
theorem start_opens (hid : id < s.reg.nextId) (play : PlayParams) (settings : Settings)
    (now : Instant) (canSpawn : Bool) :
    (s.start play settings now canSpawn).opens id = s.opens id := by
  have hne : s.reg.nextId ≠ id := hid.ne'
  unfold start spawn
  cases canSpawn with
  | false => exact Nat.zero_add _
  | true =>
    show (if s.reg.nextId = id then 1 else 0) + (0 + s.opens id) = _
    rw [if_neg hne, Nat.zero_add, Nat.zero_add]

theorem start_probes (play : PlayParams) (settings : Settings) (now : Instant) (canSpawn : Bool) :
    (s.start play settings now canSpawn).probes id = s.probes id := by
  cases canSpawn <;> rfl

theorem warm_opens (hid : id < s.reg.nextId) (env : Env) (play : PlayParams) (now : Instant) :
    (s.warm env play now).opens id = s.opens id := by
  unfold warm
  split_ifs
  · rfl
  · exact start_opens hid play _ now _

end Quiet

theorem pollReady_quiet (s : Sys σ) (now : Instant) (c : Cover σ) :
    Quiet s (s.pollReady now c).2 := by
  unfold pollReady
  cases c.state with
  | ready src =>
    have hpolled : Quiet s { s with log := .polled c.id :: s.log } :=
      .note (t := s) rfl _ fun _ => ⟨rfl, rfl⟩
    dsimp only
    split_ifs
    · rcases Source.poll src now with ⟨e | _ | f, src'⟩ <;> exact hpolled
    · exact .of_log rfl
  | _ => exact .of_log rfl

theorem pickUp_quiet (s : Sys σ) (now : Instant) (c : Cover σ) : Quiet s (s.pickUp now c).2 := by
  unfold pickUp
  cases c.state with
  | opening loader retry =>
    dsimp only
    rcases s.tryRecv_cases loader with ⟨r, u, hr, -, hu, -⟩ | hr | hr
    · rw [hr]
      refine hu.quiet.trans ?_
      rcases r with e | ⟨src, frame⟩
      -- a file that is missing again
      · cases e with
        | missing p => cases retry <;> exact (dropLoader_behind _ _).quiet
        | _ => exact (dropLoader_behind _ _).quiet
      · have hbound : Quiet u { u with log := .bound c.id :: u.log } :=
          .note (t := u) rfl _ fun _ => ⟨rfl, rfl⟩
        exact hbound.trans (dropLoader_behind _ _).quiet
    · rw [hr]
      exact (dropLoader_behind _ _).quiet
    · rw [hr]
      exact .of_log rfl
  | _ => exact .of_log rfl

/-- Once a missing file was looked for, `resolve` is quiet. -/
theorem advance_quiet (s : Sys σ) (env : Env) (play : PlayParams) (now : Instant) (c : Cover σ) :
    Quiet (s.retryMissing env play now { c with lastUsed := now }).2 (s.advance env play now c).2 :=
  (pickUp_quiet _ now _).trans (pollReady_quiet _ now _)

/-- **The threads that `resolve` starts** for the cover it finds: one for a file that is there
again, and none else. -/
theorem advance_threads (s : Sys σ) (env : Env) (play : PlayParams) (now : Instant) (c : Cover σ)
    {id : ℕ} :
    (∃ retryAt, c.state = .missing retryAt ∧ (retryAt ≤ now ∧ env.pathExists = true)
      ∧ (s.advance env play now c).2.nextThread = s.nextThread + 1
      ∧ (s.advance env play now c).2.opens id
        = s.opens id + if env.canSpawn = true ∧ c.id = id then 1 else 0)
    ∨ ((∀ retryAt, c.state = .missing retryAt → ¬ (retryAt ≤ now ∧ env.pathExists = true))
      ∧ (s.advance env play now c).2.nextThread = s.nextThread
      ∧ (s.advance env play now c).2.opens id = s.opens id) := by
  -- only the retry of a missing file opens
  by_cases hyes : ∃ retryAt, c.state = .missing retryAt ∧ retryAt ≤ now ∧ env.pathExists = true
  · obtain ⟨retryAt, hc, hdue⟩ := hyes
    refine .inl ⟨retryAt, hc, hdue, ?_⟩
    rw [advance_found hc hdue]
    have hopens : (s.probe env c.id).opens id = s.opens id := Nat.zero_add _
    cases hspawn : env.canSpawn with
    | true =>
      refine ⟨rfl, ?_⟩
      rw [if_pos rfl, ← hopens]
      refine (Nat.add_comm _ _).trans (congrArg _ ?_)
      exact if_congr (and_iff_right rfl).symm rfl rfl
    -- no thread could start
    | false =>
      refine ⟨rfl, ?_⟩
      rw [if_neg Bool.false_ne_true, if_neg fun h => Bool.false_ne_true h.1]
      exact hopens
  · have hno : ∀ retryAt, c.state = .missing retryAt → ¬ (retryAt ≤ now ∧ env.pathExists = true) :=
      fun retryAt hc hdue => hyes ⟨retryAt, hc, hdue⟩
    refine .inr ⟨hno, ?_⟩
    -- `retryMissing` is where a thread would be started
    have hretry : (s.retryMissing env play now { c with lastUsed := now }).2.nextThread = s.nextThread
        ∧ (s.retryMissing env play now { c with lastUsed := now }).2.opens id = s.opens id := by
      unfold retryMissing
      cases hc : c.state with
      | missing retryAt =>
        dsimp only
        split_ifs with hdue hfile
        · exact absurd ⟨hdue, hfile⟩ (hno retryAt hc)
        · exact ⟨rfl, Nat.zero_add _⟩
        · exact ⟨rfl, rfl⟩
      | _ => exact ⟨rfl, rfl⟩
    constructor
    · exact ((pollReady_nextThread _ now _).trans (pickUp_nextThread _ now _)).trans hretry.1
    · exact (advance_quiet s env play now c).opens_eq.trans hretry.2

/-- **The looks for the file** of the cover that `resolve` finds. -/
theorem advance_probes (s : Sys σ) (env : Env) (play : PlayParams) (now : Instant) (c : Cover σ)
    {id : ℕ} :
    (s.advance env play now c).2.probes id
      = (if c.id = id then c.lookedFor env now else []) ++ s.probes id := by
  refine (advance_quiet s env play now c).probes_eq.trans ?_
  unfold retryMissing Cover.lookedFor
  cases hc : c.state with
  -- the one state in which the path is looked for
  | missing retryAt =>
    have hprobe : (s.probe env c.id).probes id
        = (if c.id = id then [env.pathExists] else []) ++ s.probes id := by
      show List.filterMap (Effect.probe id) (.probed c.id env.pathExists :: s.log) = _
      rw [List.filterMap_cons]
      unfold Effect.probe
      dsimp only
      split_ifs <;> rfl
    have hspawn : ∀ (u : Sys σ) settings canSpawn,
        (u.spawn play settings canSpawn c.id).2.probes id = u.probes id := by
      intro u settings canSpawn
      cases canSpawn <;> rfl
    dsimp only
    -- due or not
    by_cases hdue : retryAt ≤ now
    · rw [if_pos hdue, if_pos hdue, ← hprobe]
      split_ifs
      · exact hspawn _ _ _
      · rfl
    · rw [if_neg hdue, if_neg hdue, ite_self]
      rfl
  | _ => rw [ite_self]; rfl

end Sys

end NoshareCover
