import NoshareCover.Core.Registry
import NoshareCover.Lib.Run

/-!
# What a call on the registry can do

`Sys.resolve` takes one cover out, moves it and puts it back.  `Move` lists every elementary thing
that can happen to the cover and to the rest of the system on the way; `resolve_moves` says that
nothing else does, so each invariant is checked once per kind of move.
-/

namespace NoshareCover

namespace Sys

variable {σ : Type}

/-! ### Small lemmas -/

@[simp] theorem setCover_reg_nextId (s : Sys σ) (p : PlayParams) (c : Cover σ) :
    (s.setCover p c).reg.nextId = s.reg.nextId := rfl

@[simp] theorem setCover_reg_frameNo (s : Sys σ) (p : PlayParams) (c : Cover σ) :
    (s.setCover p c).reg.frameNo = s.reg.frameNo := rfl

@[simp] theorem setCover_log (s : Sys σ) (p : PlayParams) (c : Cover σ) :
    (s.setCover p c).log = s.log := rfl

@[simp] theorem setCover_threads (s : Sys σ) (p : PlayParams) (c : Cover σ) :
    (s.setCover p c).threads = s.threads := rfl

@[simp] theorem setCover_lookup_self (s : Sys σ) (p : PlayParams) (c : Cover σ) :
    (s.setCover p c).reg.covers.lookup p = some c :=
  AList.lookup_insert _

theorem setCover_lookup_ne (s : Sys σ) {p q : PlayParams} (h : q ≠ p) (c : Cover σ) :
    (s.setCover p c).reg.covers.lookup q = s.reg.covers.lookup q :=
  AList.lookup_insert_ne h

@[simp] theorem setThread_reg (s : Sys σ) (t : ℕ) (th : Thread σ) :
    (s.setThread t th).reg = s.reg := rfl

@[simp] theorem setThread_log (s : Sys σ) (t : ℕ) (th : Thread σ) :
    (s.setThread t th).log = s.log := rfl

@[simp] theorem dropLoader_reg (s : Sys σ) (l : Loader) : (s.dropLoader l).reg = s.reg := by
  unfold dropLoader
  cases l.worker <;> rfl

/-- What a channel holds after an update of one thread. -/
theorem setThread_sent (s : Sys σ) (t t' : ℕ) (th : Thread σ) :
    ((s.setThread t th).threads t').sent = th.sent ∨
      ((s.setThread t th).threads t').sent = (s.threads t').sent := by
  unfold setThread
  by_cases h : t' = t
  · exact Or.inl (by rw [h]; simp)
  · exact Or.inr (by simp [Function.update_of_ne h])

/-- The same when the update leaves the channel alone. -/
theorem setThread_sent_eq (s : Sys σ) {t : ℕ} (t' : ℕ) {th : Thread σ}
    (hth : th.sent = (s.threads t).sent) :
    ((s.setThread t th).threads t').sent = (s.threads t').sent := by
  unfold setThread
  by_cases h : t' = t
  · subst h
    simpa using hth
  · simp [Function.update_of_ne h]

/-- The parts of the registry that no move of a cover changes. -/
structure SameReg (s t : Sys σ) : Prop where
  covers : t.reg.covers = s.reg.covers
  nextId : t.reg.nextId = s.reg.nextId
  frameNo : t.reg.frameNo = s.reg.frameNo

theorem SameReg.refl (s : Sys σ) : SameReg s s := ⟨rfl, rfl, rfl⟩

theorem SameReg.trans {s t u : Sys σ} (h : SameReg s t) (h' : SameReg t u) : SameReg s u :=
  ⟨h'.covers.trans h.covers, h'.nextId.trans h.nextId, h'.frameNo.trans h.frameNo⟩

/-- Work on threads that no cover can see: its log entries name no cover, and it puts nothing into
a channel. -/
structure Behind (s t : Sys σ) : Prop where
  reg : SameReg s t
  log : ∃ es, t.log = es ++ s.log ∧ ∀ e ∈ es, ∃ thread done, e = Effect.joined thread done
  sent : ∀ thread, (t.threads thread).sent = none ∨
    (t.threads thread).sent = (s.threads thread).sent

theorem Behind.refl (s : Sys σ) : Behind s s :=
  ⟨.refl s, ⟨[], rfl, fun _ h => absurd h List.not_mem_nil⟩, fun _ => Or.inr rfl⟩

theorem Behind.trans {s t u : Sys σ} (h : Behind s t) (h' : Behind t u) : Behind s u := by
  obtain ⟨es, hes, hjoined⟩ := h.log
  obtain ⟨fs, hfs, hjoined'⟩ := h'.log
  refine ⟨h.reg.trans h'.reg, ⟨fs ++ es, by rw [hfs, hes, List.append_assoc], ?_⟩, ?_⟩
  · intro e he
    rcases List.mem_append.mp he with he | he
    · exact hjoined' e he
    · exact hjoined e he
  · intro thread
    rcases h'.sent thread with hs | hs
    · exact Or.inl hs
    · rw [hs]
      exact h.sent thread

theorem Behind.setCover {s t : Sys σ} (h : Behind s t) (p : PlayParams) (c : Cover σ) :
    Behind (s.setCover p c) (t.setCover p c) :=
  ⟨⟨congrArg (·.insert p c) h.reg.covers, h.reg.nextId, h.reg.frameNo⟩, h.log, h.sent⟩

/-- A log entry made before the work is still there after it. -/
theorem Behind.cons {s t : Sys σ} (h : Behind s t) (hlog : t.log = s.log) (e : Effect) :
    Behind { s with log := e :: s.log } { t with log := e :: t.log } :=
  ⟨⟨h.reg.covers, h.reg.nextId, h.reg.frameNo⟩,
    ⟨[], by rw [hlog]; rfl, fun _ he => absurd he List.not_mem_nil⟩, h.sent⟩

theorem dropLoader_behind (s : Sys σ) (l : Loader) : Behind s (s.dropLoader l) := by
  unfold dropLoader
  cases l.worker with
  | none => exact .refl s
  | some t =>
    refine ⟨⟨rfl, rfl, rfl⟩, ⟨[_], rfl, ?_⟩, fun thread => Or.inr (s.setThread_sent_eq thread rfl)⟩
    intro e he
    exact ⟨t, _, List.mem_singleton.mp he⟩

theorem notify_behind (s : Sys σ) (msg : String) : Behind s (s.notify msg) :=
  ⟨⟨rfl, rfl, rfl⟩, ⟨[], rfl, fun _ h => absurd h List.not_mem_nil⟩, fun _ => Or.inr rfl⟩

theorem reap_behind (s : Sys σ) : Behind s s.reap := by
  unfold reap
  generalize s.reg.retired.filter s.finished = ls
  set t : Sys σ := { s with reg := { s.reg with retired := s.reg.retired.filter (!s.finished ·) } }
  have ht : Behind s t :=
    ⟨⟨rfl, rfl, rfl⟩, ⟨[], rfl, fun _ h => absurd h List.not_mem_nil⟩, fun _ => Or.inr rfl⟩
  exact List.foldlRecOn ls _ ht fun u hu l _ => hu.trans (u.dropLoader_behind l)

/-- Apart from the log entry, dropping a cover is work on threads. -/
theorem retire_behind (s : Sys σ) (c : Cover σ) :
    Behind { s with log := .dropped c.id :: s.log } (s.retire c) := by
  unfold retire
  cases c.state with
  | opening loader retry =>
    dsimp only
    split_ifs
    · exact dropLoader_behind _ _
    · exact ⟨⟨rfl, rfl, rfl⟩, ⟨[], rfl, fun _ h => absurd h List.not_mem_nil⟩, fun _ => Or.inr rfl⟩
  | _ => exact .refl _

theorem send_sameReg (s : Sys σ) (t : ℕ) (r : Loaded σ) : SameReg s (s.send t r) := by
  unfold send
  split_ifs <;> exact ⟨rfl, rfl, rfl⟩

theorem finish_sameReg (s : Sys σ) (t : ℕ) : SameReg s (s.finish t) := by
  unfold finish
  split_ifs <;> exact ⟨rfl, rfl, rfl⟩

/-- Receiving empties the channel, or finds nothing and changes nothing. -/
theorem tryRecv_cases (s : Sys σ) (l : Loader) :
    (∃ r u, s.tryRecv l = (.result r, u) ∧ (s.threads l.rx).sent = some r ∧ Behind s u ∧
      u.log = s.log) ∨
    s.tryRecv l = (.disconnected, s) ∨ s.tryRecv l = (.empty, s) := by
  unfold tryRecv
  cases h : (s.threads l.rx).sent with
  | none =>
    dsimp only
    split_ifs
    · exact Or.inr (Or.inl rfl)
    · exact Or.inr (Or.inr rfl)
  | some r =>
    exact Or.inl ⟨r, _, rfl, rfl, ⟨⟨rfl, rfl, rfl⟩,
      ⟨[], rfl, fun _ h => absurd h List.not_mem_nil⟩, fun t => s.setThread_sent _ t _⟩, rfl⟩

variable [Source σ]

/-! ### The moves of a cover -/

/-- What can happen to a cover in `resolve`, together with the rest of the system. -/
inductive Move : Cover σ × Sys σ → Cover σ × Sys σ → Prop where
  /-- Nothing the cover's identity depends on. -/
  | idle {c s} (c') (hid : c'.id = c.id) (hstate : c'.state = c.state)
      (hcurrent : c'.current = c.current) (hpolled : c'.polledIn = c.polledIn) :
      Move (c, s) (c', s)
  /-- A missing file is looked for. -/
  | probe {c s t} (env) (h : c.state = .missing t) : Move (c, s) (c, s.probe env c.id)
  /-- The file is still missing. -/
  | wait {c s t} (t') (h : c.state = .missing t) : Move (c, s) ({ c with state := .missing t' }, s)
  /-- The file is there again. -/
  | reopen {c s t} (play settings canSpawn) (h : c.state = .missing t) :
      Move (c, s) ({ c with state := .opening (s.spawn play settings canSpawn c.id).1 true },
        (s.spawn play settings canSpawn c.id).2)
  /-- The loader has sent a source. -/
  | bind {c s u loader retry src frame} (h : c.state = .opening loader retry)
      (hsent : (s.threads loader.rx).sent = some (.ok (src, frame)))
      (hbehind : Behind { s with log := .bound c.id :: s.log } u) :
      Move (c, s)
        ({ c with state := .ready (Source.shown src), current := frame.or c.current }, u)
  /-- The loader has sent an error, or will never send anything. -/
  | giveUp {c s u loader retry} (state) (h : c.state = .opening loader retry)
      (hstate : (∃ t, state = .missing t) ∨ state = .failed) (hbehind : Behind s u) :
      Move (c, s) ({ c with state }, u)
  /-- The poll of this frame. -/
  | poll {c s u src} (now state current) (h : c.state = .ready src)
      (hframe : c.polledIn ≠ s.reg.frameNo)
      (hbehind : Behind { s with log := .polled c.id :: s.log } u)
      (hpoll : (∃ f, (Source.poll src now).1 = .ok (some f) ∧ current = some f ∧
          state = .ready (Source.poll src now).2) ∨
        ((Source.poll src now).1 = .ok none ∧ current = c.current ∧
          state = .ready (Source.poll src now).2) ∨
        (current = none ∧ state = .failed)) :
      Move (c, s) ({ c with state, current, polledIn := s.reg.frameNo }, u)

/-- The file is looked for, and then the cover is opened again or waits. -/
theorem retryMissing_moves (s : Sys σ) (env : Env) (play : PlayParams) (now : Instant)
    (c : Cover σ) : ∃ u, Move (c, s) (c, u) ∧ Move (c, u) (s.retryMissing env play now c) := by
  unfold retryMissing
  cases h : c.state with
  | missing t =>
    dsimp only
    split_ifs
    · exact ⟨_, .probe env h, .reopen _ _ _ h⟩
    · exact ⟨_, .probe env h, .wait _ h⟩
    · exact ⟨s, .idle c rfl rfl rfl rfl, .idle c rfl rfl rfl rfl⟩
  | _ => exact ⟨s, .idle c rfl rfl rfl rfl, .idle c rfl rfl rfl rfl⟩

theorem pickUp_move (s : Sys σ) (now : Instant) (c : Cover σ) : Move (c, s) (s.pickUp now c) := by
  unfold pickUp
  cases h : c.state with
  | opening loader retry =>
    dsimp only
    rcases s.tryRecv_cases loader with ⟨r, u, hr, hsent, hu, hlog⟩ | hr | hr
    · rw [hr]
      rcases r with e | ⟨src, frame⟩
      · cases e with
        -- a missing file is tried again later, any other error is not
        | missing p =>
          refine .giveUp _ h (Or.inl ⟨_, rfl⟩) ?_
          split_ifs
          · exact hu.trans (dropLoader_behind _ _)
          · exact hu.trans ((notify_behind _ _).trans (dropLoader_behind _ _))
        | _ =>
          exact .giveUp _ h (Or.inr rfl)
            (hu.trans ((notify_behind _ _).trans (dropLoader_behind _ _)))
      · exact .bind h hsent ((hu.cons hlog _).trans (dropLoader_behind _ _))
    · rw [hr]
      exact .giveUp _ h (Or.inr rfl) ((notify_behind _ _).trans (dropLoader_behind _ _))
    · rw [hr]
      exact .idle c rfl rfl rfl rfl
  | _ => exact .idle c rfl rfl rfl rfl

theorem pollReady_move (s : Sys σ) (now : Instant) (c : Cover σ) :
    Move (c, s) (s.pollReady now c) := by
  unfold pollReady
  cases h : c.state with
  | ready src =>
    dsimp only
    split_ifs with hframe
    · rcases hp : Source.poll src now with ⟨e | _ | f, src'⟩
      · exact .poll now _ _ h hframe (notify_behind _ _) (Or.inr (Or.inr ⟨rfl, rfl⟩))
      · exact .poll now _ _ h hframe (.refl _) (Or.inr (Or.inl ⟨by rw [hp], rfl, by rw [hp]⟩))
      · exact .poll now _ _ h hframe (.refl _) (Or.inl ⟨f, by rw [hp], rfl, by rw [hp]⟩)
    · exact .idle c rfl rfl rfl rfl
  | _ => exact .idle c rfl rfl rfl rfl

theorem Move.id_eq {c c' : Cover σ} {s s' : Sys σ} (h : Move (c, s) (c', s')) : c'.id = c.id := by
  cases h with
  | idle _ hid => exact hid
  | _ => rfl

theorem Move.sameReg {c c' : Cover σ} {s s' : Sys σ} (h : Move (c, s) (c', s')) :
    SameReg s s' := by
  cases h with
  | bind _ _ hb => exact ⟨hb.reg.covers, hb.reg.nextId, hb.reg.frameNo⟩
  | giveUp _ _ _ hb => exact hb.reg
  | poll _ _ _ _ _ hb => exact ⟨hb.reg.covers, hb.reg.nextId, hb.reg.frameNo⟩
  | _ => exact ⟨rfl, rfl, rfl⟩

/-- A ready cover leaves `pollReady` polled in this frame. -/
theorem pollReady_polledIn (s : Sys σ) (now : Instant) (c : Cover σ) {src : σ}
    (h : (s.pollReady now c).1.state = .ready src) :
    (s.pollReady now c).1.polledIn = (s.pollReady now c).2.reg.frameNo := by
  unfold pollReady at h ⊢
  cases hs : c.state with
  | ready src' =>
    simp only [hs] at h ⊢
    -- polled in this frame already, or now
    by_cases hframe : c.polledIn = s.reg.frameNo
    · simp [hframe]
    · simp only [ne_eq, hframe, not_false_eq_true, if_true] at h ⊢
      rcases hp : Source.poll src' now with ⟨e | _ | f, src''⟩
      · simp only [hp] at h
        cases h
      · rfl
      · rfl
  | opening loader retry =>
    simp only [hs] at h
    cases h
  | missing t =>
    simp only [hs] at h
    cases h
  | failed =>
    simp only [hs] at h
    cases h

/-- The cover `resolve` works on: the one that is there, or a new one. -/
def ensure (s : Sys σ) (env : Env) (play : PlayParams) (now : Instant) : Sys σ :=
  if play ∈ s.reg.covers then s else s.start play (s.settings env) now env.canSpawn

/-- The moves `resolve` makes with the cover of `play`: it is used, looked for and reopened if its file
was missing, picked up from its loader and polled. -/
structure Moved (s : Sys σ) (play : PlayParams) (c : Cover σ) (t : Sys σ) (d : Cover σ) : Prop where
  there : s.reg.covers.lookup play = some c
  moves : ∃ c₁ c₂ c₃ s₁ s₂ s₃, Move (c, s) (c₁, s) ∧ Move (c₁, s) (c₁, s₁) ∧
    Move (c₁, s₁) (c₂, s₂) ∧ Move (c₂, s₂) (c₃, s₃) ∧ Move (c₃, s₃) (d, t)
  polled : ∀ src, d.state = .ready src → d.polledIn = t.reg.frameNo

/-- Putting a cover back and showing its frame. -/
def present (s : Sys σ) (play : PlayParams) (c : Cover σ) : Sys σ × Option CoverView :=
  match c.current with
  | none => (s.setCover play c, none)
  | some f =>
    ({ s.setCover play c with log := .viewed { id := c.id, frame := f } :: s.log },
      some { id := c.id, frame := f })

omit [Source σ] in
/-- Handing a cover over changes nothing in the registry but the cover. -/
theorem present_reg (s : Sys σ) (play : PlayParams) (c : Cover σ) :
    (s.present play c).1.reg = (s.setCover play c).reg := by
  unfold present
  cases c.current <;> rfl

/-- The cover `resolve` works on, and what it does to it: used, reopened if its file was missing,
picked up from its loader and polled. -/
def advance (s : Sys σ) (env : Env) (play : PlayParams) (now : Instant) (c : Cover σ) :
    Cover σ × Sys σ :=
  let reopened := s.retryMissing env play now { c with lastUsed := now }
  let received := reopened.2.pickUp now reopened.1
  received.2.pollReady now received.1

theorem retryMissing_sameReg (s : Sys σ) (env : Env) (play : PlayParams) (now : Instant)
    (c : Cover σ) : SameReg s (s.retryMissing env play now c).2 := by
  obtain ⟨u, hprobe, hretry⟩ := s.retryMissing_moves env play now c
  exact hprobe.sameReg.trans hretry.sameReg

theorem retryMissing_id (s : Sys σ) (env : Env) (play : PlayParams) (now : Instant) (c : Cover σ) :
    (s.retryMissing env play now c).1.id = c.id := by
  obtain ⟨u, -, hretry⟩ := s.retryMissing_moves env play now c
  exact hretry.id_eq

theorem pickUp_sameReg (s : Sys σ) (now : Instant) (c : Cover σ) : SameReg s (s.pickUp now c).2 :=
  (pickUp_move s now c).sameReg

theorem pollReady_sameReg (s : Sys σ) (now : Instant) (c : Cover σ) :
    SameReg s (s.pollReady now c).2 :=
  (pollReady_move s now c).sameReg

theorem advance_sameReg (s : Sys σ) (env : Env) (play : PlayParams) (now : Instant)
    (c : Cover σ) : SameReg s (s.advance env play now c).2 :=
  (retryMissing_sameReg s env play now _).trans
    ((pickUp_sameReg _ now _).trans (pollReady_sameReg _ now _))

/-- `resolve` in one line: advance the cover that is there, or a new one, and show it. -/
theorem resolve_eq (s : Sys σ) (env : Env) {play : PlayParams} (now : Instant)
    (hpath : play.path ≠ "") :
    ∃ c, (s.ensure env play now).reg.covers.lookup play = some c ∧
      s.resolve env play now = ((s.ensure env play now).advance env play now c).2.present play
        ((s.ensure env play now).advance env play now c).1 := by
  have hmem : ∃ c, (s.ensure env play now).reg.covers.lookup play = some c := by
    unfold ensure
    split_ifs with h
    · exact Option.isSome_iff_exists.mp (AList.lookup_isSome.mpr h)
    · exact ⟨_, setCover_lookup_self _ _ _⟩
  obtain ⟨c, hc⟩ := hmem
  -- what is looked up is what `resolve` itself finds after its insertion
  refine ⟨c, hc, ?_⟩
  unfold resolve
  rw [if_neg hpath]
  unfold ensure at hc ⊢
  dsimp only
  rw [hc]
  rfl

/-- **What `resolve` does**: nothing for an empty path; else it moves the cover and shows the frame
the cover then has. -/
theorem resolve_moves (s : Sys σ) (env : Env) {play : PlayParams} (now : Instant)
    (hpath : play.path ≠ "") :
    ∃ c t d, Moved (s.ensure env play now) play c t d ∧ s.resolve env play now = t.present play d := by
  obtain ⟨c, hc, hresolve⟩ := s.resolve_eq env now hpath
  obtain ⟨u, hprobe, hretry⟩ :=
    (s.ensure env play now).retryMissing_moves env play now { c with lastUsed := now }
  exact ⟨c, _, _, ⟨hc, ⟨{ c with lastUsed := now }, _, _, u, _, _, .idle _ rfl rfl rfl rfl, hprobe,
    hretry, pickUp_move _ now _, pollReady_move _ now _⟩, fun src => pollReady_polledIn _ now _⟩,
    hresolve⟩

/-- What every move keeps, all of them keep. -/
theorem Moved.induct {P : Cover σ → Sys σ → Prop} {s t : Sys σ} {play : PlayParams}
    {c d : Cover σ} (h : Moved s play c t d)
    (hP : ∀ c s c' s', Move (c, s) (c', s') → P c s → P c' s') (h0 : P c s) : P d t := by
  obtain ⟨c₁, c₂, c₃, s₁, s₂, s₃, huse, hprobe, hretry, hpick, hpoll⟩ := h.moves
  exact hP _ _ _ _ hpoll (hP _ _ _ _ hpick (hP _ _ _ _ hretry (hP _ _ _ _ hprobe
    (hP _ _ _ _ huse h0))))

theorem Moved.sameReg {s t : Sys σ} {play : PlayParams} {c d : Cover σ} (h : Moved s play c t d) :
    SameReg s t :=
  h.induct (P := fun _ u => SameReg s u) (fun _ _ _ _ hm hs => hs.trans hm.sameReg) (.refl s)

/-! ### The history only grows -/

omit [Source σ] in
theorem Behind.log_suffix {s t : Sys σ} (h : Behind s t) : s.log <:+ t.log := by
  obtain ⟨es, hes, -⟩ := h.log
  exact ⟨es, hes.symm⟩

theorem Move.log_suffix {c c' : Cover σ} {s s' : Sys σ} (h : Move (c, s) (c', s')) :
    s.log <:+ s'.log := by
  cases h with
  | idle => exact List.suffix_rfl
  | probe => exact List.suffix_cons _ _
  | wait => exact List.suffix_rfl
  | reopen play settings canSpawn =>
    cases canSpawn
    · exact List.suffix_rfl
    · exact List.suffix_cons _ _
  | bind h hsent hb => exact (List.suffix_cons _ _).trans hb.log_suffix
  | giveUp state h hstate hb => exact hb.log_suffix
  | poll now state current h hframe hb => exact (List.suffix_cons _ _).trans hb.log_suffix

omit [Source σ] in
theorem start_log_suffix (s : Sys σ) (play : PlayParams) (settings : Settings) (now : Instant)
    (canSpawn : Bool) : s.log <:+ (s.start play settings now canSpawn).log := by
  cases canSpawn
  · exact List.suffix_cons _ _
  · exact (List.suffix_cons _ _).trans (List.suffix_cons _ _)

omit [Source σ] in
theorem ensure_log_suffix (s : Sys σ) (env : Env) (play : PlayParams) (now : Instant) :
    s.log <:+ (s.ensure env play now).log := by
  unfold ensure
  split_ifs
  · exact List.suffix_rfl
  · exact s.start_log_suffix play _ now _

theorem resolve_log_suffix (s : Sys σ) (env : Env) (play : PlayParams) (now : Instant) :
    s.log <:+ (s.resolve env play now).1.log ∧
      ∀ v, (s.resolve env play now).2 = some v → .viewed v ∈ (s.resolve env play now).1.log := by
  by_cases hpath : play.path = ""
  · unfold resolve
    rw [if_pos hpath]
    exact ⟨List.suffix_rfl, nofun⟩
  -- the three blocks only add to the history
  · obtain ⟨c, t, d, hmoved, heq⟩ := s.resolve_moves env now hpath
    have hlog : s.log <:+ t.log :=
      hmoved.induct (P := fun _ u => s.log <:+ u.log)
        (fun _ _ _ _ hm hs => hs.trans hm.log_suffix) (s.ensure_log_suffix env play now)
    rw [heq]
    unfold present
    cases d.current with
    | none => exact ⟨hlog, nofun⟩
    | some f =>
      refine ⟨hlog.trans (List.suffix_cons _ _), ?_⟩
      intro v hv
      cases hv
      exact List.mem_cons_self ..

omit [Source σ] in
theorem removeCover_log_suffix (s : Sys σ) (play : PlayParams) :
    s.log <:+ (s.removeCover play).log := by
  unfold removeCover
  cases s.reg.covers.lookup play with
  | none => exact List.suffix_rfl
  | some c =>
    -- the entry for the cover comes first, then those of its thread
    refine List.IsSuffix.trans ?_ (retire_behind _ c).log_suffix
    exact List.suffix_cons _ _

omit [Source σ] in
theorem foldl_removeCover_log_suffix (s : Sys σ) (ps : List PlayParams) :
    s.log <:+ (ps.foldl removeCover s).log := by
  induction ps generalizing s with
  | nil => exact List.suffix_rfl
  | cons p ps ih => exact (s.removeCover_log_suffix p).trans (ih _)

omit [Source σ] in
theorem warm_log_suffix (s : Sys σ) (env : Env) (play : PlayParams) (now : Instant) :
    s.log <:+ (s.warm env play now).log := by
  unfold warm
  split_ifs
  · exact List.suffix_rfl
  · exact s.start_log_suffix play _ now _

omit [Source σ] in
theorem prewarm_log_suffix (s : Sys σ) (env : Env) (now : Instant) :
    s.log <:+ (s.prewarm env now).log := by
  unfold prewarm
  dsimp only
  split_ifs
  · exact List.suffix_rfl
  · exact s.warm_log_suffix env _ now

/-- No step forgets anything, and what `resolve` returns is in the history. -/
theorem step_log (s : Sys σ) (e : Event σ) :
    s.log <:+ (s.step e).1.log ∧ ∀ v, (s.step e).2 = some v → .viewed v ∈ (s.step e).1.log := by
  -- each call adds to the history, or leaves it
  cases e with
  | resolve env play now => exact s.resolve_log_suffix env play now
  | setSettings env settings error now =>
    refine ⟨?_, nofun⟩
    show s.log <:+ (s.setSettings env settings error now).log
    unfold setSettings
    split_ifs
    · exact List.suffix_rfl
    · exact (s.foldl_removeCover_log_suffix _).trans
        ((s.reset settings error).prewarm_log_suffix env now)
  | warm env play now => exact ⟨s.warm_log_suffix env play now, nofun⟩
  | beginFrame =>
    refine ⟨?_, nofun⟩
    show s.log <:+ s.beginFrame.log
    exact (reap_behind { s with reg := { s.reg with frameNo := s.reg.frameNo + 1 } }).log_suffix
  | endFrame env now => exact ⟨s.foldl_removeCover_log_suffix _, nofun⟩
  | deliver t opened polls =>
    refine ⟨?_, nofun⟩
    show s.log <:+ (s.send t _).log
    unfold send
    split_ifs <;> exact List.suffix_rfl
  | crash t =>
    refine ⟨?_, nofun⟩
    show s.log <:+ (s.send t _).log
    unfold send
    split_ifs <;> exact List.suffix_rfl
  | finish t =>
    refine ⟨?_, nofun⟩
    show s.log <:+ (s.finish t).log
    unfold finish
    split_ifs <;> exact List.suffix_rfl

theorem run_log_suffix (s : Sys σ) (es : List (Event σ)) :
    s.log <:+ (Machine.run step s es).log := by
  induction es generalizing s with
  | nil => exact List.suffix_rfl
  | cons e es ih => exact (s.step_log e).1.trans (ih _)

/-- Every view of a run is in its history. -/
theorem outputs_viewed (s : Sys σ) (es : List (Event σ)) {v : CoverView}
    (hv : some v ∈ Machine.outputs step s es) : .viewed v ∈ (Machine.run step s es).log := by
  induction es generalizing s with
  | nil => cases hv
  | cons e es ih =>
    rcases List.mem_cons.mp hv with heq | hv
    · exact (run_log_suffix _ es).subset ((s.step_log e).2 v heq.symm)
    · exact ih _ hv

end Sys

/-! ### A source that counts its frames -/

/-- A still picture with a new generation at every poll. -/
structure Solid where
  count : ℕ

namespace Solid

def frame (n : ℕ) : Frame :=
  { generation := n, data := .cpu (.fromBgra 1 1 [0, 0, 0, 0]) }

instance : Source Solid where
  kind _ := .still
  poll s _ := (.ok (some (frame (s.count + 1))), { count := s.count + 1 })
  shown s := s

end Solid

def exampleSettings : Settings :=
  { pathCover := "/default", looped := true, speed := ⟨1, Speed.one_pos⟩, backend := .auto,
    gpuDevice := none }

/-- What the calls of the examples find: files are there and threads start. -/
def exampleEnv : Env := { defaults := exampleSettings, pathExists := true, canSpawn := true }

end NoshareCover
