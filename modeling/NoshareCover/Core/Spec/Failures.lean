import NoshareCover.Core.Spec.Registry

/-!
# Covers that failed

A cover that failed to open is reported once and not opened again while the registry has it: `warm`
and `resolve` leave it alone.  `end_frame` closes it with the others, though, when it was not shown
for a while, and then the next use opens the file again.  `failed_stays_iff` says that this is the
only way.
-/

namespace NoshareCover

namespace Sys

variable {σ : Type} [Source σ]

open Machine

/-! ### What a step does about a cover -/

/-- An attempt to open or poll the cover has failed. -/
def Failed (s : Sys σ) (p : PlayParams) : Prop :=
  ∃ c, s.reg.covers.lookup p = some c ∧ c.state = .failed

/-- The step starts a thread that calls the opener for `p`. -/
def Opens (s : Sys σ) (p : PlayParams) (e : Event σ) : Prop :=
  ∃ new t id, (s.step e).1.log = new ++ s.log ∧ Effect.spawned t id ∈ new
    ∧ ((s.step e).1.threads t).play = p

/-- The same with an empty notifier. -/
def hushed (s : Sys σ) : Sys σ := { s with reg := { s.reg with notifier := .empty } }

/-- What a step pushes to the notifier: what is in the queue if it was empty before. -/
def pushed (s : Sys σ) (e : Event σ) : List String := (s.hushed.step e).1.reg.notifier.queue

/-- The step finds out that the cover of `p` failed, and says so. -/
def Reports (s : Sys σ) (p : PlayParams) (e : Event σ) : Prop :=
  (∃ env now, e = .resolve env p now) ∧ (s.step e).1.Failed p ∧ s.pushed e ≠ []

/-- The settings really change. -/
def Changes (s : Sys σ) : Event σ → Prop
  | .setSettings _ settings _ _ => s.reg.settings ≠ some settings
  | _ => False

/-- **A failed cover stays failed** in the run: the opener is not called for it again, and its
failure is pushed at most once. -/
structure StaysFailed (p : PlayParams) (s : Sys σ) (es : List (Event σ)) : Prop where
  opener : ∀ a b, es = a ++ b → (run step s a).Failed p →
    Admits step (fun u e => ¬ u.Opens p e) (run step s a) b
  silent : ∀ a b, es = a ++ b → (run step s a).Failed p →
    Admits step (fun u e => ¬ u.Reports p e) (run step s a) b
  once : ∀ a e b e' c, es = a ++ e :: b ++ e' :: c → (run step s a).Reports p e →
    ¬ (run step s (a ++ e :: b)).Reports p e'

/-- The end of a frame closes the failed cover, as one that nobody has shown for a while. -/
def Forgets (s : Sys σ) (p : PlayParams) (e : Event σ) : Prop :=
  s.Failed p ∧ ∃ env now, e = .endFrame env now ∧ p ∈ s.stale env now

/-- The cover is shown, or warmed with a new loader. -/
def Reopens (s : Sys σ) (p : PlayParams) (e : Event σ) : Prop :=
  p.path ≠ "" ∧ ((∃ env now, e = .resolve env p now)
    ∨ ∃ env now, e = .warm env p now ∧ env.canSpawn = true ∧ p ∉ s.reg.covers)

/-- Once the failed cover was closed it is not used any more. -/
def ForgottenForGood (p : PlayParams) (s : Sys σ) (es : List (Event σ)) : Prop :=
  ∀ a e b, es = a ++ e :: b → (run step s a).Forgets p e →
    Admits step (fun u e => ¬ u.Reopens p e) (run step s (a ++ [e])) b

/-! ### Threads -/

/-- How the threads can move: they are only started for covers that meet `P`, keep what they play,
and those that will never send anything go on like that. -/
structure Goes (s u : Sys σ) (P : PlayParams → Prop) : Prop where
  started : ∃ new, u.log = new ++ s.log ∧ ∀ t id, Effect.spawned t id ∈ new →
    t < u.nextThread ∧ P (u.threads t).play
  next : s.nextThread ≤ u.nextThread
  play : ∀ t < s.nextThread, (u.threads t).play = (s.threads t).play
  dead : ∀ t < s.nextThread, (s.threads t).sent = none → (s.threads t).closed = true →
    (u.threads t).sent = none ∧ (u.threads t).closed = true

section Goes

variable {s u v : Sys σ} {P Q : PlayParams → Prop}

omit [Source σ]

theorem Goes.refl (s : Sys σ) : Goes s s P :=
  ⟨⟨[], rfl, fun _ _ h => absurd h List.not_mem_nil⟩, le_rfl, fun _ _ => rfl,
    fun _ _ hsent hclosed => ⟨hsent, hclosed⟩⟩

theorem Goes.trans (h : Goes s u P) (h' : Goes u v P) : Goes s v P := by
  obtain ⟨new, hnew, hP⟩ := h.started
  obtain ⟨new', hnew', hP'⟩ := h'.started
  refine ⟨⟨new' ++ new, by rw [hnew', hnew, List.append_assoc], fun t id ht => ?_⟩,
    h.next.trans h'.next, fun t ht => ?_, fun t ht hsent hclosed => ?_⟩
  · rcases List.mem_append.1 ht with ht | ht
    · exact hP' t id ht
    · obtain ⟨hlt, hplay⟩ := hP t id ht
      rw [h'.play t hlt]
      exact ⟨lt_of_lt_of_le hlt h'.next, hplay⟩
  · rw [h'.play t (lt_of_lt_of_le ht h.next), h.play t ht]
  · obtain ⟨hsent', hclosed'⟩ := h.dead t ht hsent hclosed
    exact h'.dead t (lt_of_lt_of_le ht h.next) hsent' hclosed'

theorem Goes.mono (h : Goes s u P) (hPQ : ∀ q, P q → Q q) : Goes s u Q := by
  obtain ⟨new, hnew, hP⟩ := h.started
  exact ⟨⟨new, hnew, fun t id ht => ⟨(hP t id ht).1, hPQ _ (hP t id ht).2⟩⟩, h.next, h.play, h.dead⟩

/-- Only threads and history matter. -/
theorem Goes.of_reg (h : Goes s u P) (reg : Registry σ) : Goes s { u with reg } P :=
  ⟨h.started, h.next, h.play, h.dead⟩

theorem Goes.note (h : Goes s u P) {e : Effect} (he : ∀ t id, e ≠ .spawned t id) :
    Goes s { u with log := e :: u.log } P := by
  obtain ⟨new, hnew, hP⟩ := h.started
  refine ⟨⟨e :: new, by rw [hnew]; rfl, fun t id ht => ?_⟩, h.next, h.play, h.dead⟩
  rcases List.mem_cons.1 ht with heq | ht
  · exact absurd heq.symm (he t id)
  · exact hP t id ht

/-- One thread is updated. -/
theorem Goes.setThread (s : Sys σ) (t : ℕ) (th : Thread σ) (hplay : th.play = (s.threads t).play)
    (hdead : (s.threads t).sent = none → (s.threads t).closed = true →
      th.sent = none ∧ th.closed = true) : Goes s (s.setThread t th) P := by
  refine ⟨⟨[], rfl, fun _ _ h => absurd h List.not_mem_nil⟩, le_rfl, fun t' _ => ?_,
    fun t' _ hsent hclosed => ?_⟩
  all_goals
    unfold Sys.setThread
    dsimp only
    -- the thread that was written, and the others
    by_cases ht : t' = t
  · rw [ht, Function.update_self]
    exact hplay
  · rw [Function.update_of_ne ht]
  · rw [ht, Function.update_self]
    rw [ht] at hsent hclosed
    exact hdead hsent hclosed
  · rw [Function.update_of_ne ht]
    exact ⟨hsent, hclosed⟩

theorem dropLoader_goes (s : Sys σ) (l : Loader) : Goes s (s.dropLoader l) P := by
  unfold dropLoader
  cases l.worker with
  | none => exact .refl s
  | some t =>
    exact (Goes.setThread s t { s.threads t with joined := true } rfl
      fun hsent hclosed => ⟨hsent, hclosed⟩).note nofun

theorem spawn_goes (s : Sys σ) (play : PlayParams) (settings : Settings) {canSpawn : Bool} (id : ℕ)
    (hP : canSpawn = true → P play) : Goes s (s.spawn play settings canSpawn id).2 P := by
  have hold : ∀ t < s.nextThread,
      (s.spawn play settings canSpawn id).2.threads t = s.threads t := by
    intro t ht
    exact Function.update_of_ne ht.ne _ _
  refine ⟨?_, Nat.le_succ _, fun t ht => by rw [hold t ht], fun t ht hsent hclosed => ?_⟩
  -- only a thread that could start is in the history
  · cases canSpawn with
    | false => exact ⟨[], rfl, fun _ _ h => absurd h List.not_mem_nil⟩
    | true =>
      refine ⟨[.spawned s.nextThread id], rfl, fun t id' ht => ?_⟩
      cases List.mem_singleton.1 ht
      refine ⟨Nat.lt_succ_self _, ?_⟩
      show P (Function.update s.threads s.nextThread _ s.nextThread).play
      rw [Function.update_self]
      exact hP rfl
  · rw [hold t ht]
    exact ⟨hsent, hclosed⟩

theorem retire_goes (s : Sys σ) (c : Cover σ) : Goes s (s.retire c) P := by
  have hdropped : Goes s { s with log := .dropped c.id :: s.log } P := (Goes.refl s).note nofun
  unfold retire
  cases c.state with
  | opening loader retry =>
    dsimp only
    split_ifs
    · exact hdropped.trans (dropLoader_goes _ loader)
    · exact hdropped.of_reg _
  | _ => exact hdropped

theorem removeCovers_goes (s : Sys σ) (plays : List PlayParams) :
    Goes s (plays.foldl removeCover s) P := by
  induction plays generalizing s with
  | nil => exact .refl s
  | cons p ps ih =>
    refine Goes.trans ?_ (ih _)
    unfold removeCover
    cases s.reg.covers.lookup p with
    | none => exact .refl s
    | some c =>
      have h : Goes s { s with reg := { s.reg with covers := s.reg.covers.erase p } } P :=
        (Goes.refl s).of_reg _
      exact h.trans (retire_goes _ c)

theorem reap_goes (s : Sys σ) : Goes s s.reap P := by
  unfold reap
  generalize s.reg.retired.filter s.finished = ls
  have h : Goes s { s with reg := { s.reg with
      retired := s.reg.retired.filter (!s.finished ·) } } P := (Goes.refl s).of_reg _
  exact List.foldlRecOn (motive := fun u => Goes s u P) ls _ h fun u hu l _ =>
    hu.trans (u.dropLoader_goes l)

theorem start_goes (s : Sys σ) (play : PlayParams) (settings : Settings) (now : Instant)
    {canSpawn : Bool} (hP : canSpawn = true → P play) :
    Goes s (s.start play settings now canSpawn) P := by
  have h : Goes s { s with reg := { s.reg with nextId := s.reg.nextId + 1 },
                           log := .started s.reg.nextId play :: s.log } P :=
    ((Goes.refl s).of_reg _).note (u := { s with reg := { s.reg with nextId := s.reg.nextId + 1 } })
      nofun
  exact (h.trans (spawn_goes _ play settings s.reg.nextId hP)).of_reg _

theorem send_goes (s : Sys σ) (t : ℕ) (r : Loaded σ) : Goes s (s.send t r) P := by
  unfold send
  by_cases hclosed : (s.threads t).closed = true ∨ s.nextThread ≤ t
  · rw [if_pos hclosed]
    exact .refl s
  · rw [if_neg hclosed]
    exact .setThread s t _ rfl fun _ hc => absurd (Or.inl hc) hclosed

theorem finish_goes (s : Sys σ) (t : ℕ) : Goes s (s.finish t) P := by
  unfold finish
  split_ifs
  · exact .setThread s t _ rfl fun hsent hclosed => ⟨hsent, hclosed⟩
  · exact .refl s

theorem pickUp_goes [Source σ] (s : Sys σ) (now : Instant) (c : Cover σ) :
    Goes s (s.pickUp now c).2 P := by
  unfold pickUp
  cases c.state with
  | opening loader retry =>
    -- a message is taken out of its thread
    have hrecv : Goes s (s.tryRecv loader).2 P := by
      unfold tryRecv
      cases (s.threads loader.rx).sent with
      | none => exact .refl s
      | some r => exact .setThread s loader.rx _ rfl fun _ hclosed => ⟨rfl, hclosed⟩
    have hnotify : ∀ (v : Sys σ) (msg : String), Goes s v P → Goes s (v.notify msg) P :=
      fun v msg h => h.of_reg _
    dsimp only
    rcases hr : s.tryRecv loader with ⟨r, v⟩
    rw [hr] at hrecv
    -- whatever was taken, the loader is dropped
    rcases r with _ | _ | (e | ⟨src, frame⟩)
    · exact hrecv
    · exact (hnotify v _ hrecv).trans (dropLoader_goes _ loader)
    · cases e with
      | missing p =>
        cases retry with
        | true => exact hrecv.trans (dropLoader_goes _ loader)
        | false => exact (hnotify v _ hrecv).trans (dropLoader_goes _ loader)
      | _ => exact (hnotify v _ hrecv).trans (dropLoader_goes _ loader)
    · exact (hrecv.note (e := .bound c.id) nofun).trans (dropLoader_goes _ loader)
  | _ => exact .refl s

theorem pollReady_goes [Source σ] (s : Sys σ) (now : Instant) (c : Cover σ) :
    Goes s (s.pollReady now c).2 P := by
  unfold pollReady
  cases c.state with
  | ready src =>
    have hpolled : Goes s { s with log := .polled c.id :: s.log } P := (Goes.refl s).note nofun
    dsimp only
    split_ifs
    · rcases hp : Source.poll src now with ⟨e | _ | f, src'⟩
      · exact hpolled.of_reg _
      · exact hpolled
      · exact hpolled
    · exact .refl s
  | _ => exact .refl s

end Goes

/-! ### Where a cover stays -/

omit [Source σ] in
theorem removeCovers_lookup (s : Sys σ) (plays : List PlayParams) (p : PlayParams) :
    (plays.foldl removeCover s).reg.covers.lookup p =
      if p ∈ plays then none else s.reg.covers.lookup p := by
  induction plays generalizing s with
  | nil => simp
  | cons q qs ih =>
    -- one key, and then the rest of the list
    have hq : (s.removeCover q).reg.covers.lookup p =
        if p = q then none else s.reg.covers.lookup p := by
      unfold removeCover
      cases hc : s.reg.covers.lookup q with
      | none =>
        split_ifs with hp
        · rw [hp, hc]
        · rfl
      | some c =>
        have hcovers := (retire_behind { s with reg := { s.reg with
          covers := s.reg.covers.erase q } } c).reg.covers
        dsimp only
        rw [hcovers]
        split_ifs with hp
        · rw [hp]
          exact AList.lookup_erase _ _
        · exact AList.lookup_erase_ne hp
    rw [List.foldl_cons, ih, hq]
    by_cases hp : p = q
    · simp [hp]
    · simp [hp]

/-- Showing a cover changes that cover only. -/
theorem resolve_lookup_ne (s : Sys σ) (env : Env) {play p : PlayParams} (now : Instant)
    (h : p ≠ play) :
    (s.resolve env play now).1.reg.covers.lookup p = s.reg.covers.lookup p := by
  by_cases hpath : play.path = ""
  · unfold resolve
    rw [if_pos hpath]
  obtain ⟨c, -, hresolve⟩ := s.resolve_eq env now hpath
  rw [hresolve]
  have hcovers := (advance_sameReg (s.ensure env play now) env play now c).covers
  rw [present_reg, setCover_lookup_ne _ h, hcovers]
  unfold ensure
  split_ifs
  · rfl
  · exact setCover_lookup_ne _ h _

omit [Source σ] in
theorem present_goes (s : Sys σ) (p : PlayParams) (c : Cover σ) {P : PlayParams → Prop} :
    Goes s (s.present p c).1 P := by
  unfold present
  cases c.current with
  | none => exact (Goes.refl s).of_reg _
  | some f => exact ((Goes.refl s).of_reg (s.setCover p c).reg).note nofun

omit [Source σ] in
@[simp] theorem present_notifier (s : Sys σ) (p : PlayParams) (c : Cover σ) :
    (s.present p c).1.reg.notifier = s.reg.notifier := by
  rw [present_reg]
  rfl

omit [Source σ] in
theorem present_lookup (s : Sys σ) (p : PlayParams) (c : Cover σ) :
    (s.present p c).1.reg.covers.lookup p = some c := by
  rw [present_reg]
  exact setCover_lookup_self s p c

theorem resolve_goes_ensure (s : Sys σ) (env : Env) {play : PlayParams} (now : Instant)
    (hpath : play.path ≠ "") :
    Goes (s.ensure env play now) (s.resolve env play now).1 fun q => q = play := by
  obtain ⟨c, -, hresolve⟩ := s.resolve_eq env now hpath
  rw [hresolve]
  have hretry : ∀ (u : Sys σ) (d : Cover σ),
      Goes u (u.retryMissing env play now d).2 fun q => q = play := by
    intro u d
    unfold retryMissing
    cases d.state with
    | missing retryAt =>
      dsimp only
      have hprobed : Goes u (u.probe env d.id) fun q => q = play := (Goes.refl u).note nofun
      split_ifs
      · exact hprobed.trans (spawn_goes _ play _ d.id fun _ => rfl)
      · exact hprobed
      · exact .refl u
    | _ => exact .refl u
  -- the other blocks of `resolve` start nothing
  refine Goes.trans ?_ (present_goes _ play _)
  exact (hretry _ _).trans ((pickUp_goes _ now _).trans (pollReady_goes _ now _))

theorem resolve_goes (s : Sys σ) (env : Env) (play : PlayParams) (now : Instant) :
    Goes s (s.resolve env play now).1 fun q => play.path ≠ "" ∧ q = play := by
  by_cases hpath : play.path = ""
  · unfold resolve
    rw [if_pos hpath]
    exact .refl s
  have hensure : Goes s (s.ensure env play now) fun q => q = play := by
    unfold ensure
    split_ifs
    · exact .refl s
    · exact start_goes s play _ now fun _ => rfl
  exact (hensure.trans (s.resolve_goes_ensure env now hpath)).mono fun q hq => ⟨hpath, hq⟩

/-- **What a step does to the threads**, unless the settings change. -/
theorem step_goes {s : Sys σ} {e : Event σ} (h : ¬ s.Changes e) :
    Goes s (s.step e).1 fun q => s.Reopens q e := by
  cases e with
  | setSettings env settings error now =>
    -- settings that are pushed again change nothing
    have hsame : s.reg.settings = some settings := not_not.1 h
    show Goes s (s.setSettings env settings error now) _
    unfold setSettings
    rw [if_pos hsame]
    exact .refl s
  | warm env play now =>
    show Goes s (s.warm env play now) _
    unfold warm
    split_ifs with hskip
    · exact .refl s
    -- a new cover
    · rw [not_or] at hskip
      exact start_goes s play _ now fun hspawn =>
        ⟨hskip.1, .inr ⟨env, now, rfl, hspawn, hskip.2⟩⟩
  | beginFrame =>
    have hcount : Goes s { s with reg := { s.reg with frameNo := s.reg.frameNo + 1 } }
        fun q => s.Reopens q .beginFrame := (Goes.refl s).of_reg _
    exact hcount.trans (reap_goes _)
  | resolve env play now =>
    refine (s.resolve_goes env play now).mono fun q hq => ?_
    obtain ⟨hpath, rfl⟩ := hq
    exact ⟨hpath, .inl ⟨env, now, rfl⟩⟩
  | endFrame env now => exact removeCovers_goes s _
  | deliver t opened polls => exact send_goes s t _
  | crash t => exact send_goes s t _
  | finish t => exact finish_goes s t

/-- A cover that is neither shown nor started stays, unless the end of a frame closes it. -/
theorem step_lookup {s : Sys σ} {e : Event σ} {p : PlayParams} (hchange : ¬ s.Changes e)
    (hresolve : ∀ env now, e ≠ .resolve env p now)
    (hwarm : ∀ env now, e = .warm env p now → p ∈ s.reg.covers ∨ p.path = "") :
    ((s.step e).1.reg.covers.lookup p = s.reg.covers.lookup p
      ∧ ∀ env now, e = .endFrame env now → p ∉ s.stale env now)
    ∨ ((s.step e).1.reg.covers.lookup p = none
      ∧ ∃ env now, e = .endFrame env now ∧ p ∈ s.stale env now) := by
  cases e with
  | setSettings env settings error now =>
    have hsame : s.reg.settings = some settings := not_not.1 hchange
    refine .inl ⟨?_, nofun⟩
    show (s.setSettings env settings error now).reg.covers.lookup p = _
    unfold setSettings
    rw [if_pos hsame]
  | warm env play now =>
    refine .inl ⟨?_, nofun⟩
    show (s.warm env play now).reg.covers.lookup p = _
    unfold warm
    split_ifs with hskip
    · rfl
    -- it starts a cover of another file
    · have hne : p ≠ play := by
        rintro rfl
        exact hskip (hwarm env now rfl).symm
      exact setCover_lookup_ne _ hne _
  | beginFrame =>
    refine .inl ⟨?_, nofun⟩
    exact congrArg (fun m => AList.lookup p m)
      (reap_behind { s with reg := { s.reg with frameNo := s.reg.frameNo + 1 } }).reg.covers
  | resolve env play now =>
    have hne : p ≠ play := by
      rintro rfl
      exact hresolve env now rfl
    exact .inl ⟨s.resolve_lookup_ne env now hne, nofun⟩
  | endFrame env now =>
    have hlookup := s.removeCovers_lookup (s.stale env now) p
    by_cases hstale : p ∈ s.stale env now
    · rw [if_pos hstale] at hlookup
      exact .inr ⟨hlookup, env, now, rfl, hstale⟩
    · rw [if_neg hstale] at hlookup
      refine .inl ⟨hlookup, fun env' now' heq => ?_⟩
      cases heq
      exact hstale
  | deliver t opened polls =>
    exact .inl ⟨congrArg (fun m => AList.lookup p m) (s.send_sameReg t _).covers, nofun⟩
  | crash t =>
    exact .inl ⟨congrArg (fun m => AList.lookup p m) (s.send_sameReg t _).covers, nofun⟩
  | finish t =>
    exact .inl ⟨congrArg (fun m => AList.lookup p m) (s.finish_sameReg t).covers, nofun⟩

theorem Goes.not_opens {s : Sys σ} {e : Event σ} {P : PlayParams → Prop} {p : PlayParams}
    (h : Goes s (s.step e).1 P) (hp : ¬ P p) : ¬ s.Opens p e := by
  rintro ⟨new, t, id, hlog, hspawned, hplay⟩
  obtain ⟨new', hlog', hP⟩ := h.started
  obtain rfl : new = new' := List.append_cancel_right (hlog.symm.trans hlog')
  exact hp (hplay ▸ (hP t id hspawned).2)

/-! ### A failed cover -/

/-- Showing a failed cover leaves it as it is. -/
theorem resolve_failed {s : Sys σ} {p : PlayParams} {c : Cover σ} (env : Env) (now : Instant)
    (hpath : p.path ≠ "") (hc : s.reg.covers.lookup p = some c) (hf : c.state = .failed) :
    s.resolve env p now = s.present p { c with lastUsed := now } := by
  obtain ⟨c', hc', hresolve⟩ := s.resolve_eq env now hpath
  have hmem : p ∈ s.reg.covers := AList.lookup_isSome.mp (by rw [hc]; rfl)
  have hensure : s.ensure env p now = s := if_pos hmem
  rw [hensure] at hc' hresolve
  obtain rfl : c' = c := Option.some.inj (hc'.symm.trans hc)
  have hadvance : s.advance env p now c' = ({ c' with lastUsed := now }, s) := by
    unfold advance retryMissing
    simp [hf, pickUp, pollReady]
  rw [hresolve, hadvance]

/-- While the cover is there as a failed one, nothing is opened or reported. -/
theorem Failed.quiet {s : Sys σ} {p : PlayParams} {e : Event σ} (h : s.Failed p)
    (hchange : ¬ s.Changes e) : ¬ s.Opens p e ∧ ¬ s.Reports p e := by
  obtain ⟨c, hc, hf⟩ := h
  have hmem : p ∈ s.reg.covers := AList.lookup_isSome.mp (by rw [hc]; rfl)
  -- the one call that could try again
  by_cases hresolve : ∃ env now, e = .resolve env p now
  · obtain ⟨env, now, rfl⟩ := hresolve
    -- without a path it returns early
    by_cases hpath : p.path = ""
    · have hgoes := s.resolve_goes env p now
      refine ⟨Goes.not_opens hgoes fun hp => hp.1 hpath, fun hr => hr.2.2 ?_⟩
      show (s.hushed.resolve env p now).1.reg.notifier.queue = []
      unfold resolve
      rw [if_pos hpath]
      rfl
    -- the cover stays failed, and is not polled
    · have heq := s.resolve_failed env now hpath hc hf
      have hgoes : Goes s (s.step (.resolve env p now)).1 fun _ => False := by
        show Goes s (s.resolve env p now).1 _
        rw [heq]
        exact present_goes s p _
      refine ⟨hgoes.not_opens id, fun hr => hr.2.2 ?_⟩
      show (s.hushed.resolve env p now).1.reg.notifier.queue = []
      rw [resolve_failed (s := s.hushed) env now hpath hc hf, present_notifier]
      rfl
  -- any other event opens no cover that is in the table
  · refine ⟨(step_goes hchange).not_opens ?_, fun hr => hresolve hr.1⟩
    rintro ⟨-, hr | ⟨env, now, rfl, -, hnew⟩⟩
    · exact hresolve hr
    · exact hnew hmem

/-- It stays until the end of a frame closes it. -/
theorem Failed.next {s : Sys σ} {p : PlayParams} {e : Event σ} (h : s.Failed p)
    (hchange : ¬ s.Changes e) :
    ((s.step e).1.Failed p ∧ ¬ s.Forgets p e)
      ∨ ((s.step e).1.reg.covers.lookup p = none ∧ s.Forgets p e) := by
  have hfailed := h
  obtain ⟨c, hc, hf⟩ := h
  have hmem : p ∈ s.reg.covers := AList.lookup_isSome.mp (by rw [hc]; rfl)
  by_cases hresolve : ∃ env now, e = .resolve env p now
  -- the time of its last use is all that changes
  · obtain ⟨env, now, rfl⟩ := hresolve
    refine .inl ⟨?_, ?_⟩
    · by_cases hpath : p.path = ""
      · refine ⟨c, ?_, hf⟩
        show (s.resolve env p now).1.reg.covers.lookup p = some c
        unfold resolve
        rw [if_pos hpath]
        exact hc
      · refine ⟨{ c with lastUsed := now }, ?_, hf⟩
        show (s.resolve env p now).1.reg.covers.lookup p = _
        rw [s.resolve_failed env now hpath hc hf, present_lookup]
    · rintro ⟨-, env', now', heq, -⟩
      cases heq
  · have hne : ∀ env now, e ≠ .resolve env p now := fun env now heq => hresolve ⟨env, now, heq⟩
    -- it stays, or the end of a frame drops it
    rcases step_lookup hchange hne fun _ _ _ => .inl hmem with ⟨hsame, hkept⟩ | ⟨hnone, hend⟩
    · refine .inl ⟨⟨c, hsame.trans hc, hf⟩, ?_⟩
      rintro ⟨-, env, now, heq, hstale⟩
      exact hkept env now heq hstale
    · exact .inr ⟨hnone, hfailed, hend⟩

/-! ### A cover that was closed -/

/-- There is no cover, or only one whose loader could not be started. -/
def Gone (s : Sys σ) (p : PlayParams) : Prop :=
  ∀ c, s.reg.covers.lookup p = some c → ∃ loader retry, c.state = .opening loader retry
    ∧ loader.rx < s.nextThread ∧ (s.threads loader.rx).sent = none
    ∧ (s.threads loader.rx).closed = true

omit [Source σ] in
/-- A loader that could not be started. -/
theorem start_gone (s : Sys σ) (p : PlayParams) (settings : Settings) (now : Instant) :
    (s.start p settings now false).Gone p := by
  intro c hc
  rw [start, setCover_lookup_self] at hc
  obtain rfl := Option.some.inj hc
  refine ⟨_, _, rfl, Nat.lt_succ_self _, ?_, ?_⟩
  · show (Function.update s.threads s.nextThread _ s.nextThread).sent = none
    rw [Function.update_self]
  · show (Function.update s.threads s.nextThread _ s.nextThread).closed = true
    rw [Function.update_self]
    rfl

/-- While the cover is not used, nothing is opened or reported. -/
theorem Gone.step {s : Sys σ} {p : PlayParams} {e : Event σ} (h : s.Gone p)
    (hchange : ¬ s.Changes e) (hreopens : ¬ s.Reopens p e) :
    (s.step e).1.Gone p ∧ ¬ s.Opens p e ∧ ¬ s.Reports p e := by
  have hgoes := step_goes hchange
  have hopens : ¬ s.Opens p e := hgoes.not_opens hreopens
  -- to show a cover that has a path would open it again
  by_cases hresolve : ∃ env now, e = .resolve env p now
  · obtain ⟨env, now, rfl⟩ := hresolve
    have hpath : p.path = "" := by
      by_contra hpath
      exact hreopens ⟨hpath, .inl ⟨env, now, rfl⟩⟩
    have hsame : ∀ u : Sys σ, (u.resolve env p now).1 = u := by
      intro u
      unfold resolve
      rw [if_pos hpath]
    refine ⟨?_, hopens, fun hr => hr.2.2 ?_⟩
    · show (s.resolve env p now).1.Gone p
      rw [hsame]
      exact h
    · show (s.hushed.resolve env p now).1.reg.notifier.queue = []
      rw [hsame]
      rfl
  refine ⟨?_, hopens, fun hr => hresolve hr.1⟩
  -- a new cover is no reopening only when its loader does not start
  by_cases hwarm : ∃ env now, e = .warm env p now ∧ ¬ (p.path = "" ∨ p ∈ s.reg.covers)
  · obtain ⟨env, now, rfl, hnew⟩ := hwarm
    have hspawn : env.canSpawn = false := by
      rw [← Bool.not_eq_true]
      intro hspawn
      rw [not_or] at hnew
      exact hreopens ⟨hnew.1, .inr ⟨env, now, rfl, hspawn, hnew.2⟩⟩
    show (s.warm env p now).Gone p
    rw [warm, if_neg hnew, hspawn]
    exact start_gone s p _ now
  · have hne : ∀ env now, e ≠ .resolve env p now := fun env now heq => hresolve ⟨env, now, heq⟩
    have hthere : ∀ env now, e = .warm env p now → p ∈ s.reg.covers ∨ p.path = "" := by
      intro env now heq
      by_contra hnew
      exact hwarm ⟨env, now, heq, fun hor => hnew hor.symm⟩
    intro c hc
    rcases step_lookup hchange hne hthere with ⟨hsame, -⟩ | ⟨hnone, -⟩
    · obtain ⟨loader, retry, hstate, hlt, hsent, hclosed⟩ := h c (hsame.symm.trans hc)
      obtain ⟨hsent', hclosed'⟩ := hgoes.dead _ hlt hsent hclosed
      exact ⟨loader, retry, hstate, lt_of_lt_of_le hlt hgoes.next, hsent', hclosed'⟩
    · cases hnone.symm.trans hc

omit [Source σ] in
/-- The cover that `resolve` works on has a loader that never answers. -/
theorem ensure_gone {s : Sys σ} {env : Env} {p : PlayParams} (now : Instant) (h : s.Gone p)
    (hspawn : p ∉ s.reg.covers → env.canSpawn = false) : (s.ensure env p now).Gone p := by
  unfold ensure
  split_ifs with hmem
  · exact h
  · rw [hspawn hmem]
    exact start_gone s p _ now

/-- Showing a cover whose loader never answers: it fails. -/
theorem resolve_gone {s : Sys σ} {env : Env} {p : PlayParams} (now : Instant) (hpath : p.path ≠ "")
    (h : s.Gone p) (hspawn : p ∉ s.reg.covers → env.canSpawn = false) :
    ∃ u d, d.state = .failed
      ∧ s.resolve env p now = present u p d
      ∧ u.reg.notifier
        = s.reg.notifier.push "noshare-cover: failed to start the cover loader" := by
  obtain ⟨c, hc, hresolve⟩ := s.resolve_eq env now hpath
  have hkept : (s.ensure env p now).reg.notifier = s.reg.notifier := by
    unfold ensure
    split_ifs <;> rfl
  obtain ⟨loader, retry, hs, -, hsent, hclosed⟩ := ensure_gone now h hspawn c hc
  generalize s.ensure env p now = u at *
  -- the loader has neither a thread nor a message
  have hadvance : u.advance env p now c =
      ({ c with lastUsed := now, state := .failed },
        (u.notify "noshare-cover: failed to start the cover loader").dropLoader loader) := by
    unfold advance retryMissing
    simp [hs, pickUp, tryRecv, hsent, hclosed, pollReady]
  rw [hresolve, hadvance]
  refine ⟨_, _, rfl, rfl, ?_⟩
  rw [dropLoader_reg]
  show u.reg.notifier.push _ = _
  rw [hkept]

theorem opens_of_start {s : Sys σ} {e : Event σ} {p : PlayParams} {settings : Settings}
    {now : Instant} {P : PlayParams → Prop}
    (h : Goes (s.start p settings now true) (s.step e).1 P) : s.Opens p e := by
  obtain ⟨new, hnew, -⟩ := h.started
  refine ⟨new ++ [.spawned s.nextThread s.reg.nextId, .started s.reg.nextId p], s.nextThread,
    s.reg.nextId, ?_, by simp, ?_⟩
  · rw [hnew, List.append_assoc]
    rfl
  · rw [h.play s.nextThread (Nat.lt_succ_self _)]
    show (Function.update s.threads s.nextThread _ s.nextThread).play = p
    rw [Function.update_self]

/-- Using the cover again opens it again, or reports that this did not work. -/
theorem Gone.reopens {s : Sys σ} {p : PlayParams} {e : Event σ} (h : s.Gone p)
    (hreopens : s.Reopens p e) : s.Opens p e ∨ s.Reports p e := by
  obtain ⟨hpath, ⟨env, now, rfl⟩ | ⟨env, now, rfl, hspawn, hnew⟩⟩ := hreopens
  -- its thread cannot start, or it can
  · by_cases hspawn : p ∉ s.reg.covers → env.canSpawn = false
    · -- no thread was started for the cover
      right
      obtain ⟨u, d, hfailed, heq, -⟩ := resolve_gone now hpath h hspawn
      obtain ⟨v, d', -, heq', hpush⟩ := resolve_gone (s := s.hushed) now hpath h hspawn
      refine ⟨⟨env, now, rfl⟩, ⟨d, ?_, hfailed⟩, ?_⟩
      · show (s.resolve env p now).1.reg.covers.lookup p = some d
        rw [heq, present_lookup]
      · show (s.hushed.resolve env p now).1.reg.notifier.queue ≠ []
        rw [heq', present_notifier, hpush]
        exact List.cons_ne_nil _ _
    · left
      rw [Classical.not_imp, Bool.not_eq_false] at hspawn
      have hensure : s.ensure env p now = s.start p (s.settings env) now true := by
        rw [ensure, if_neg hspawn.1, hspawn.2]
      have hgoes := s.resolve_goes_ensure env now hpath
      rw [hensure] at hgoes
      exact opens_of_start hgoes
  -- `warm` starts the thread
  · left
    have hwarm : (s.step (.warm env p now)).1 = s.start p (s.settings env) now true := by
      show s.warm env p now = _
      rw [warm, if_neg (not_or.2 ⟨hpath, hnew⟩), hspawn]
    have hgoes : Goes (s.start p (s.settings env) now true) (s.step (.warm env p now)).1
        fun _ => True := by
      rw [hwarm]
      exact .refl _
    exact opens_of_start hgoes

/-! ### Runs -/

/-- After the failed cover was closed, the run is quiet exactly as long as it is not used. -/
theorem quiet_iff_of_gone {p : PlayParams} {s : Sys σ} {es : List (Event σ)} (h : s.Gone p)
    (hes : Admits step (fun u e => ¬ u.Changes e) s es) :
    Admits step (fun u e => ¬ u.Opens p e ∧ ¬ u.Reports p e) s es
      ↔ Admits step (fun u e => ¬ u.Reopens p e) s es := by
  induction es generalizing s with
  | nil => exact Iff.rfl
  | cons e es ih =>
    rw [admits_cons, admits_cons]
    -- the first event after which it is tried again settles it
    by_cases hreopens : s.Reopens p e
    · refine ⟨fun hquiet => ?_, fun hnot => absurd hreopens hnot.1⟩
      rcases h.reopens hreopens with hopens | hreports
      · exact absurd hopens hquiet.1.1
      · exact absurd hreports hquiet.1.2
    · obtain ⟨hgone, hquiet⟩ := h.step hes.1 hreopens
      rw [ih hgone hes.2]
      exact and_congr_left fun _ => iff_of_true hquiet hreopens

/-- A cover that is not used after it was closed does not fail again. -/
theorem not_forgets_of_gone {p : PlayParams} {s : Sys σ} {a : List (Event σ)} (h : s.Gone p)
    (ha : Admits step (fun u e => ¬ u.Changes e) s a)
    (hnot : Admits step (fun u e => ¬ u.Reopens p e) s a) (e : Event σ) :
    ¬ (run step s a).Forgets p e := by
  have hgone : (run step s a).Gone p :=
    (ha.and hnot).invariant (I := fun u => u.Gone p) (fun _ _ hu he' => (hu.step he'.1 he'.2).1) h
  rintro ⟨⟨c, hc, hf⟩, -⟩
  obtain ⟨loader, retry, hstate, -⟩ := hgone c hc
  rw [hf] at hstate
  cases hstate

/-- From a failed cover on, the run is quiet exactly if the cover is forgotten for good. -/
theorem quiet_iff_of_failed {p : PlayParams} {s : Sys σ} {es : List (Event σ)} (h : s.Failed p)
    (hes : Admits step (fun u e => ¬ u.Changes e) s es) :
    Admits step (fun u e => ¬ u.Opens p e ∧ ¬ u.Reports p e) s es ↔ ForgottenForGood p s es := by
  induction es generalizing s with
  | nil =>
    refine iff_of_true trivial fun a e b heq => ?_
    cases a <;> cases heq
  | cons e es ih =>
    rw [admits_cons, and_iff_right (h.quiet hes.1)]
    -- still failed, or forgotten by this event
    rcases h.next hes.1 with ⟨hfailed, hkept⟩ | ⟨hnone, hforgets⟩
    · rw [ih hfailed hes.2]
      constructor
      · intro hgood a e' b heq hforgets
        cases a with
        | nil =>
          cases heq
          exact absurd hforgets hkept
        | cons e'' a =>
          cases heq
          exact hgood a e' b rfl hforgets
      · intro hgood a e' b heq hforgets
        exact hgood (e :: a) e' b (by rw [heq]; rfl) hforgets
    -- once forgotten, it must not be used again
    · have hgone : (s.step e).1.Gone p := fun c hc => nomatch hnone.symm.trans hc
      rw [quiet_iff_of_gone hgone hes.2]
      constructor
      · intro hnot a e' b heq hforgets'
        cases a with
        | nil =>
          cases heq
          exact hnot
        | cons e'' a =>
          cases heq
          have hnot' := (admits_append _ a (e' :: b)).1 hnot
          have hes' := (admits_append _ a (e' :: b)).1 hes.2
          exact absurd hforgets' (not_forgets_of_gone hgone hes'.1 hnot'.1 e')
      · intro hgood
        exact hgood [] e es rfl hforgets

/-- **A failed cover stays failed** in exactly those runs in which it is not used any more once the
end of a frame has closed it. -/
theorem failed_stays_iff (p : PlayParams) (s : Sys σ) (es : List (Event σ))
    (hes : Admits step (fun u e => ¬ u.Changes e) s es) :
    StaysFailed p s es ↔ ForgottenForGood p s es := by
  constructor
  · intro hstays a e b heq hforgets
    subst heq
    have hes' := (admits_append _ a (e :: b)).1 hes
    have hquiet := (hstays.opener a (e :: b) rfl hforgets.1).and
      (hstays.silent a (e :: b) rfl hforgets.1)
    have hgood := (quiet_iff_of_failed hforgets.1 hes'.2).1 hquiet
    rw [run_append]
    exact hgood [] e b rfl hforgets
  · intro hgood
    -- from a point where the cover has failed on, the run is quiet
    have hquiet : ∀ a b, es = a ++ b → (run step s a).Failed p →
        Admits step (fun u e => ¬ u.Opens p e ∧ ¬ u.Reports p e) (run step s a) b := by
      intro a b heq hfailed
      subst heq
      refine (quiet_iff_of_failed hfailed ((admits_append _ a b).1 hes).2).2 ?_
      intro a' e b' heq hforgets
      rw [← run_append] at hforgets ⊢
      rw [← List.append_assoc]
      exact hgood (a ++ a') e b' (by rw [heq, List.append_assoc]) hforgets
    refine ⟨fun a b heq hf => (hquiet a b heq hf).mono fun _ _ hq => hq.1,
      fun a b heq hf => (hquiet a b heq hf).mono fun _ _ hq => hq.2, ?_⟩
    intro a e b e' c heq hreports hreports'
    have hfailed : (run step s (a ++ [e])).Failed p := by
      rw [run_append]
      exact hreports.2.1
    have hlater := hquiet (a ++ [e]) (b ++ e' :: c) (by rw [heq]; simp) hfailed
    rw [admits_append, admits_cons, ← run_append, List.append_assoc] at hlater
    exact hlater.2.1.2 hreports'

/-- A file that no library can read. -/
def brokenPlay : PlayParams := { path := "/broken.png", looped := true, speed := ⟨1, Speed.one_pos⟩ }

/-- The cover is shown, its loader finds the file broken, and the next `resolve` reports it. -/
def brokenRun : List (Event Solid) :=
  [.resolve exampleEnv brokenPlay 0, .deliver 0 (.error (.open "/broken.png" "bad header")) [],
    .resolve exampleEnv brokenPlay 1]

theorem brokenRun_failed : (run step (init exampleSettings) brokenRun).Failed brokenPlay := by
  have hfailed : ((run step (init exampleSettings) brokenRun).reg.covers.lookup brokenPlay).any
      (fun c => match c.state with | .failed => true | _ => false) = true := by decide +kernel
  obtain ⟨c, hc, hstate⟩ := Option.any_eq_true _ _ |>.1 hfailed
  refine ⟨c, hc, ?_⟩
  cases hs : c.state with
  | failed => rfl
  | _ => simp [hs] at hstate

/-- The cover is shown in the next frame too, and was opened and reported once. -/
theorem broken_cover_reported_once :
    StaysFailed brokenPlay (init exampleSettings)
      (brokenRun ++ [.beginFrame, .resolve exampleEnv brokenPlay 16000000]) := by
  refine (failed_stays_iff brokenPlay (init exampleSettings) _ ?_).2 ?_
  · exact ⟨id, id, id, id, id, trivial⟩
  · rintro a e b heq ⟨-, env, now, rfl, -⟩
    have hmem : Event.endFrame env now ∈
        brokenRun ++ [.beginFrame, .resolve exampleEnv brokenPlay 16000000] := by
      rw [heq]
      simp
    simp [brokenRun] at hmem

/-- Nobody shows the cover for 30 s, so the end of a frame closes it.  Shown again, it is opened
again. -/
theorem closed_cover_opened_again :
    ¬ StaysFailed brokenPlay (init exampleSettings)
      (brokenRun ++ [.endFrame exampleEnv 30000000001,
        .resolve exampleEnv brokenPlay 30000000001]) := by
  intro hstays
  have hquiet := hstays.opener brokenRun _ rfl brokenRun_failed
  refine hquiet.2.1 ⟨[.spawned 1 2, .started 2 brokenPlay], 1, 2, ?_, by simp, ?_⟩
  · decide +kernel
  · decide +kernel

end Sys

end NoshareCover
