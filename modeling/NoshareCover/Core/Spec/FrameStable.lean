import NoshareCover.Core.Spec.Registry

/-!
# Frame data stays valid until the end of the frame

Between `begin_frame` and `end_frame` the shim holds pointers into the frames `resolve` gave it.
`Settled` links `current`, `state` and `polled_in` of every cover in every reachable state;
`Pinned` says that a cover was shown in this frame, and no resolve, warm or loader thread moves a
pinned cover.
-/

namespace NoshareCover

namespace Sys

variable {σ : Type}

/-! ### The invariant of every reachable state -/

/-- The cover was not polled in a later frame, and only a ready source has a picture. -/
structure CoverSettled (frameNo : ℕ) (c : Cover σ) : Prop where
  polledIn_le : c.polledIn ≤ frameNo
  ready : ∀ f, c.current = some f → ∃ src, c.state = .ready src

structure Settled (s : Sys σ) : Prop where
  covers : ∀ p c, s.reg.covers.lookup p = some c → CoverSettled s.reg.frameNo c
  id_lt : ∀ p c, s.reg.covers.lookup p = some c → c.id < s.reg.nextId
  distinct : ∀ p q c d, s.reg.covers.lookup p = some c → s.reg.covers.lookup q = some d →
    c.id = d.id → p = q

namespace Settled

/-- Only covers, ids and the frame number matter. -/
theorem of_sameReg {s t : Sys σ} (h : Settled s) (ht : SameReg s t) : Settled t := by
  obtain ⟨hcovers, hnext, hframe⟩ := ht
  refine ⟨?_, ?_, ?_⟩
  · rw [hcovers, hframe]
    exact h.covers
  · rw [hcovers, hnext]
    exact h.id_lt
  · rw [hcovers]
    exact h.distinct

/-- Putting a cover in the place of one with the same id. -/
theorem replace {s : Sys σ} {p : PlayParams} {c c' : Cover σ} (h : Settled (s.setCover p c))
    (hid : c'.id = c.id) (hc' : CoverSettled s.reg.frameNo c') : Settled (s.setCover p c') := by
  -- every cover is one from before, with the same id
  have hlookup : ∀ q d, (s.setCover p c').reg.covers.lookup q = some d →
      ∃ e, (s.setCover p c).reg.covers.lookup q = some e ∧ e.id = d.id ∧
        (CoverSettled s.reg.frameNo e → CoverSettled s.reg.frameNo d) := by
    intro q d hd
    by_cases hq : q = p
    · subst hq
      rw [setCover_lookup_self] at hd
      cases hd
      exact ⟨c, setCover_lookup_self _ _ _, hid.symm, fun _ => hc'⟩
    · rw [setCover_lookup_ne _ hq] at hd
      exact ⟨d, by rw [setCover_lookup_ne _ hq]; exact hd, rfl, id⟩
  -- what each keeps, the ids, and that they differ
  refine ⟨?_, ?_, ?_⟩
  · intro q d hd
    obtain ⟨e, he, -, hsettled⟩ := hlookup q d hd
    exact hsettled (h.covers q e he)
  · intro q d hd
    obtain ⟨e, he, heq, -⟩ := hlookup q d hd
    exact heq ▸ h.id_lt q e he
  · intro q r d d' hd hd' heq
    obtain ⟨e, he, hid₁, -⟩ := hlookup q d hd
    obtain ⟨e', he', hid₂, -⟩ := hlookup r d' hd'
    exact h.distinct q r e e' he he' (by rw [hid₁, hid₂, heq])

theorem setCover_self {s : Sys σ} (h : Settled s) {p : PlayParams} {c : Cover σ}
    (hc : s.reg.covers.lookup p = some c) : Settled (s.setCover p c) := by
  have hlookup : ∀ q, (s.setCover p c).reg.covers.lookup q = s.reg.covers.lookup q := by
    intro q
    by_cases hq : q = p
    · rw [hq, setCover_lookup_self, hc]
    · exact setCover_lookup_ne _ hq _
  refine ⟨?_, ?_, ?_⟩
  · intro q d hd
    exact h.covers q d (hlookup q ▸ hd)
  · intro q d hd
    exact h.id_lt q d (hlookup q ▸ hd)
  · intro q r d d' hd hd'
    exact h.distinct q r d d' (hlookup q ▸ hd) (hlookup r ▸ hd')

theorem start {s : Sys σ} (h : Settled s) (play : PlayParams) (settings : Settings)
    (now : Instant) (canSpawn : Bool) : Settled (s.start play settings now canSpawn) := by
  -- the new cover, or one from before
  have hlookup : ∀ q d, (s.start play settings now canSpawn).reg.covers.lookup q = some d →
      (q = play ∧ d.id = s.reg.nextId ∧ d.polledIn = 0 ∧ d.current = none) ∨
        q ≠ play ∧ s.reg.covers.lookup q = some d := by
    intro q d hd
    by_cases hq : q = play
    · refine Or.inl ⟨hq, ?_⟩
      rw [hq] at hd
      cases (setCover_lookup_self _ play _).symm.trans hd
      exact ⟨rfl, rfl, rfl⟩
    · exact Or.inr ⟨hq, (setCover_lookup_ne _ hq _).symm.trans hd⟩
  refine ⟨?_, ?_, ?_⟩
  · intro q d hd
    rcases hlookup q d hd with ⟨-, -, hpolled, hcur⟩ | ⟨-, hd⟩
    · exact ⟨by rw [hpolled]; exact Nat.zero_le _, fun f hf => by rw [hcur] at hf; cases hf⟩
    · exact h.covers q d hd
  · intro q d hd
    show d.id < s.reg.nextId + 1
    rcases hlookup q d hd with ⟨-, hid, -⟩ | ⟨-, hd⟩
    · omega
    · exact Nat.lt_succ_of_lt (h.id_lt q d hd)
  -- the new id is larger than all before
  · intro q r d d' hd hd' heq
    rcases hlookup q d hd with ⟨hq, hid, -⟩ | ⟨-, hold⟩ <;>
      rcases hlookup r d' hd' with ⟨hr, hid', -⟩ | ⟨-, hold'⟩
    · rw [hq, hr]
    · have hlt := h.id_lt r d' hold'
      omega
    · have hlt := h.id_lt q d hold
      omega
    · exact h.distinct q r d d' hold hold' heq

theorem ensure {s : Sys σ} (h : Settled s) (env : Env) (play : PlayParams) (now : Instant) :
    Settled (s.ensure env play now) := by
  unfold Sys.ensure
  split_ifs
  · exact h
  · exact h.start play _ now _

theorem warm {s : Sys σ} (h : Settled s) (env : Env) (play : PlayParams) (now : Instant) :
    Settled (s.warm env play now) := by
  unfold Sys.warm
  split_ifs
  · exact h
  · exact h.start play _ now _

theorem removeCover {s : Sys σ} (h : Settled s) (play : PlayParams) :
    Settled (s.removeCover play) := by
  unfold Sys.removeCover
  cases hc : s.reg.covers.lookup play with
  | none => exact h
  | some c =>
    -- what is left was there
    have hlookup : ∀ q d, (s.reg.covers.erase play).lookup q = some d →
        s.reg.covers.lookup q = some d := by
      intro q d hd
      by_cases hq : q = play
      · rw [hq, AList.lookup_erase] at hd
        cases hd
      · rwa [AList.lookup_erase_ne hq] at hd
    refine Settled.of_sameReg ?_ (retire_behind _ c).reg
    exact ⟨fun q d hd => h.covers q d (hlookup q d hd), fun q d hd => h.id_lt q d (hlookup q d hd),
      fun q r d d' hd hd' => h.distinct q r d d' (hlookup q d hd) (hlookup r d' hd')⟩

theorem setSettings {s : Sys σ} (h : Settled s) (env : Env) (settings : Settings)
    (error : Option ConfigError) (now : Instant) :
    Settled (s.setSettings env settings error now) := by
  unfold Sys.setSettings
  split_ifs
  · exact h
  · have hdropped : Settled (s.reg.covers.keys.foldl Sys.removeCover s) :=
      List.foldlRecOn _ _ h fun _ hI p _ => hI.removeCover p
    have hreset : Settled (s.reset settings error) := hdropped.of_sameReg ⟨rfl, rfl, rfl⟩
    unfold prewarm
    dsimp only
    split_ifs
    · exact hreset
    · exact hreset.warm env _ now

theorem beginFrame {s : Sys σ} (h : Settled s) : Settled s.beginFrame := by
  unfold Sys.beginFrame
  refine Settled.of_sameReg ?_ (reap_behind _).reg
  exact ⟨fun p c hc => ⟨Nat.le_succ_of_le (h.covers p c hc).polledIn_le, (h.covers p c hc).ready⟩,
    h.id_lt, h.distinct⟩

variable [Source σ]

theorem move {p : PlayParams} {c c' : Cover σ} {s s' : Sys σ} (hm : Move (c, s) (c', s'))
    (h : Settled (s.setCover p c)) : Settled (s'.setCover p c') := by
  have hc : CoverSettled s.reg.frameNo c := h.covers p c (setCover_lookup_self s p c)
  -- one case a block of `resolve`; without a poll the picture stays
  have hc' : CoverSettled s.reg.frameNo c' := by
    cases hm with
    | idle c' hid hstate hcurrent hpolled =>
      exact ⟨hpolled ▸ hc.polledIn_le, fun f hf => hstate ▸ hc.ready f (hcurrent ▸ hf)⟩
    | probe env hs => exact hc
    | wait t' hs =>
      refine ⟨hc.polledIn_le, fun f hf => ?_⟩
      obtain ⟨src, hsrc⟩ := hc.ready f hf
      cases hs.symm.trans hsrc
    | reopen play settings canSpawn hs =>
      refine ⟨hc.polledIn_le, fun f hf => ?_⟩
      obtain ⟨src, hsrc⟩ := hc.ready f hf
      cases hs.symm.trans hsrc
    | bind hs hsent hbehind => exact ⟨hc.polledIn_le, fun f hf => ⟨_, rfl⟩⟩
    | giveUp state hs hstate hbehind =>
      refine ⟨hc.polledIn_le, fun f hf => ?_⟩
      obtain ⟨src, hsrc⟩ := hc.ready f hf
      cases hs.symm.trans hsrc
    -- a poll is the first of this frame
    | poll now state current hs hframe hbehind hpoll =>
      refine ⟨le_rfl, fun f hf => ?_⟩
      rcases hpoll with ⟨-, -, -, rfl⟩ | ⟨-, -, rfl⟩ | ⟨rfl, -⟩
      · exact ⟨_, rfl⟩
      · exact ⟨_, rfl⟩
      · cases hf
  refine (h.replace hm.id_eq hc').of_sameReg ?_
  have hreg := hm.sameReg
  exact ⟨congrArg (·.insert p c') hreg.covers, hreg.nextId, hreg.frameNo⟩

theorem resolve {s : Sys σ} (h : Settled s) (env : Env) (play : PlayParams) (now : Instant) :
    Settled (s.resolve env play now).1 := by
  by_cases hpath : play.path = ""
  · unfold Sys.resolve
    rw [if_pos hpath]
    exact h
  · obtain ⟨c, t, d, hmoved, heq⟩ := s.resolve_moves env now hpath
    have hI : Settled (t.setCover play d) :=
      hmoved.induct (P := fun c u => Settled (u.setCover play c)) (fun _ _ _ _ hm hs => hs.move hm)
        ((h.ensure env play now).setCover_self hmoved.there)
    rw [heq]
    unfold present
    cases d.current with
    | none => exact hI
    | some f => exact hI.of_sameReg ⟨rfl, rfl, rfl⟩

theorem step {s : Sys σ} (h : Settled s) (e : Event σ) : Settled (s.step e).1 := by
  cases e with
  | setSettings env settings error now => exact h.setSettings env settings error now
  | warm env play now => exact h.warm env play now
  | beginFrame => exact h.beginFrame
  | resolve env play now => exact h.resolve env play now
  | endFrame env now => exact List.foldlRecOn _ _ h fun _ hI p _ => hI.removeCover p
  | deliver t opened polls => exact h.of_sameReg (send_sameReg s t _)
  | crash t => exact h.of_sameReg (send_sameReg s t _)
  | finish t => exact h.of_sameReg (finish_sameReg s t)

theorem run (defaults : Settings) (es : List (Event σ)) :
    Settled (Machine.run Sys.step (Sys.init defaults) es) :=
  Machine.invariant (I := Settled) (fun _ e h => h.step e)
    ⟨fun p c hc => absurd hc (by simp [init]), fun p c hc => absurd hc (by simp [init]),
      fun p q c d hc => absurd hc (by simp [init])⟩ es

end Settled

/-! ### One poll per frame -/

/-- How often the cover `id` was polled. -/
def polls (s : Sys σ) (id : ℕ) : ℕ := s.log.count (.polled id)

/-- Since there were `base` polls, each cover was polled at most once, and not at all if it was not
polled in this frame. -/
def PolledOnce (base : ℕ → ℕ) (s : Sys σ) : Prop :=
  ∀ id, s.polls id ≤ base id + 1 ∧
    ((∀ p c, s.reg.covers.lookup p = some c → c.id = id → c.polledIn < s.reg.frameNo) →
      s.polls id ≤ base id)

theorem polls_cons {s t : Sys σ} {e : Effect} (h : t.log = e :: s.log)
    (he : ∀ id, e ≠ .polled id) (id : ℕ) : t.polls id = s.polls id := by
  unfold polls
  rw [h, List.count_cons_of_ne (he id)]

theorem Behind.polls_eq {s t : Sys σ} (h : Behind s t) (id : ℕ) : t.polls id = s.polls id := by
  obtain ⟨es, hes, hjoined⟩ := h.log
  unfold polls
  rw [hes, List.count_append]
  have hzero : es.count (.polled id) = 0 := by
    rw [List.count_eq_zero]
    intro hmem
    obtain ⟨thread, done, heq⟩ := hjoined _ hmem
    cases heq
  omega

theorem send_polls (s : Sys σ) (t : ℕ) (r : Loaded σ) (id : ℕ) :
    (s.send t r).polls id = s.polls id := by
  unfold send
  split_ifs <;> rfl

theorem finish_polls (s : Sys σ) (t : ℕ) (id : ℕ) : (s.finish t).polls id = s.polls id := by
  unfold finish
  split_ifs <;> rfl

namespace PolledOnce

variable {base : ℕ → ℕ}

/-- More covers, and no more polls. -/
theorem mono {s t : Sys σ} (h : PolledOnce base s) (hpolls : ∀ id, t.polls id = s.polls id)
    (hcovers : ∀ p c, s.reg.covers.lookup p = some c → ∃ q d, t.reg.covers.lookup q = some d ∧
      d.id = c.id ∧ (d.polledIn < t.reg.frameNo → c.polledIn < s.reg.frameNo)) :
    PolledOnce base t := by
  intro id
  rw [hpolls id]
  refine ⟨(h id).1, fun hlt => (h id).2 fun p c hc hid => ?_⟩
  obtain ⟨q, d, hd, heq, hpolled⟩ := hcovers p c hc
  exact hpolled (hlt q d hd (heq.trans hid))

theorem of_sameReg {s t : Sys σ} (h : PolledOnce base s) (ht : SameReg s t)
    (hpolls : ∀ id, t.polls id = s.polls id) : PolledOnce base t :=
  h.mono hpolls fun p c hc => ⟨p, c, by rw [ht.covers]; exact hc, rfl, by rw [ht.frameNo]; exact id⟩

theorem start {s : Sys σ} (h : PolledOnce base s) (play : PlayParams) (settings : Settings)
    (now : Instant) (canSpawn : Bool) (hp : play ∉ s.reg.covers) :
    PolledOnce base (s.start play settings now canSpawn) := by
  refine h.mono ?_ ?_
  -- the new cover was not polled yet
  · intro id
    have hstarted := polls_cons (s := s) (e := .started s.reg.nextId play)
      (t := { s with log := .started s.reg.nextId play :: s.log }) rfl (fun _ => nofun) id
    cases canSpawn
    · exact hstarted
    · refine Eq.trans ?_ hstarted
      exact polls_cons (e := .spawned s.nextThread s.reg.nextId) rfl (fun _ => nofun) id
  -- and the others are not the new one
  · intro p c hc
    have hne : p ≠ play := by
      rintro rfl
      exact hp (AList.lookup_isSome.mp (by rw [hc]; rfl))
    exact ⟨p, c, (setCover_lookup_ne _ hne _).trans hc, rfl, id⟩

/-- A cover changed, but not what matters for its polls. -/
theorem replace {s t : Sys σ} {p : PlayParams} {c c' : Cover σ}
    (h : PolledOnce base (s.setCover p c)) (hid : c'.id = c.id) (hpolled : c'.polledIn = c.polledIn)
    (ht : SameReg s t) (hpolls : ∀ id, t.polls id = s.polls id) :
    PolledOnce base (t.setCover p c') := by
  refine h.mono hpolls ?_
  intro q d hd
  -- the cover that is replaced, and the others
  by_cases hq : q = p
  · subst hq
    rw [setCover_lookup_self] at hd
    cases hd
    refine ⟨q, c', setCover_lookup_self _ _ _, hid, ?_⟩
    rw [setCover_reg_frameNo, setCover_reg_frameNo, ht.frameNo, hpolled]
    exact id
  · refine ⟨q, d, ?_, rfl, ?_⟩
    · rw [setCover_lookup_ne _ hq] at hd ⊢
      rw [ht.covers]
      exact hd
    · rw [setCover_reg_frameNo, setCover_reg_frameNo, ht.frameNo]
      exact id

end PolledOnce

/-! ### A cover that was shown in this frame -/

/-- An event between `begin_frame` and `end_frame`: a resolve, a warm or a step of a thread. -/
def Event.InFrame : Event σ → Prop
  | .setSettings _ _ _ _ => False
  | .beginFrame => False
  | .endFrame _ _ => False
  | _ => True

/-- The cover of `p` is ready, polled in this frame, and has the frame of `v`. -/
def Pinned (p : PlayParams) (v : CoverView) (s : Sys σ) : Prop :=
  ∃ c src, s.reg.covers.lookup p = some c ∧ c.id = v.id ∧ c.current = some v.frame ∧
    c.state = .ready src ∧ c.polledIn = s.reg.frameNo

/-- Only covers and the frame number matter. -/
theorem Pinned.of_sameReg {p : PlayParams} {v : CoverView} {s t : Sys σ} (h : Pinned p v s)
    (ht : SameReg s t) : Pinned p v t := by
  obtain ⟨c, src, hc, hid, hcur, hstate, hpolled⟩ := h
  exact ⟨c, src, by rw [ht.covers]; exact hc, hid, hcur, hstate, by rw [ht.frameNo]; exact hpolled⟩

theorem Pinned.setCover_ne {p q : PlayParams} {v : CoverView} {s : Sys σ} (h : Pinned p v s)
    (hq : p ≠ q) (d : Cover σ) : Pinned p v (s.setCover q d) := by
  obtain ⟨c, src, hc, hrest⟩ := h
  exact ⟨c, src, by rw [setCover_lookup_ne _ hq]; exact hc, hrest⟩

theorem Pinned.start {p q : PlayParams} {v : CoverView} {s : Sys σ} (h : Pinned p v s)
    (hq : q ∉ s.reg.covers) (settings : Settings) (now : Instant) (canSpawn : Bool) :
    Pinned p v (s.start q settings now canSpawn) := by
  have hne : p ≠ q := by
    rintro rfl
    obtain ⟨c, -, hc, -⟩ := h
    exact hq (AList.lookup_isSome.mp (by rw [hc]; rfl))
  obtain ⟨c, src, hc, hrest⟩ := h
  exact ⟨c, src, (setCover_lookup_ne _ hne _).trans hc, hrest⟩

/-- What a cover shows in a frame in which it was polled already. -/
def Steady (v : CoverView) (c : Cover σ) (s : Sys σ) : Prop :=
  c.id = v.id ∧ c.current = some v.frame ∧ (∃ src, c.state = .ready src) ∧
    c.polledIn = s.reg.frameNo

theorem present_of_current {s : Sys σ} {play : PlayParams} {c : Cover σ} {v : CoverView}
    (hid : c.id = v.id) (hcur : c.current = some v.frame) :
    s.present play c = ({ s.setCover play c with log := .viewed v :: s.log }, some v) := by
  unfold present
  rw [hcur]
  simp [hid]

variable [Source σ]

/-- A ready cover that was polled in this frame is not moved. -/
theorem Steady.move {v : CoverView} {c c' : Cover σ} {s s' : Sys σ} (hm : Move (c, s) (c', s'))
    (h : Steady v c s) : Steady v c' s' := by
  obtain ⟨hid, hcur, ⟨src, hsrc⟩, hpolled⟩ := h
  cases hm with
  | idle c' hid' hstate hcurrent hpolled' =>
    exact ⟨hid'.trans hid, hcurrent.trans hcur, ⟨src, hstate.trans hsrc⟩, hpolled'.trans hpolled⟩
  | probe env hs => cases hs.symm.trans hsrc
  | wait t' hs => cases hs.symm.trans hsrc
  | reopen play settings canSpawn hs => cases hs.symm.trans hsrc
  | bind hs => cases hs.symm.trans hsrc
  | giveUp state hs => cases hs.symm.trans hsrc
  | poll now state current hs hframe => exact absurd hpolled hframe

/-- Resolving a pinned cover again gives the same view and leaves it pinned. -/
theorem Pinned.resolve_self {p : PlayParams} {v : CoverView} {s : Sys σ} (h : Pinned p v s)
    (hpath : p.path ≠ "") (env : Env) (now : Instant) :
    (s.resolve env p now).2 = some v ∧ Pinned p v (s.resolve env p now).1 := by
  obtain ⟨c, src, hc, hid, hcur, hstate, hpolled⟩ := h
  obtain ⟨c', t, d, hmoved, heq⟩ := s.resolve_moves env now hpath
  -- the cover is there, so nothing is started
  have hensure : s.ensure env p now = s := by
    unfold ensure
    exact if_pos (AList.lookup_isSome.mp (by rw [hc]; rfl))
  rw [hensure] at hmoved
  cases hc.symm.trans hmoved.there
  -- nothing in `resolve` touches a cover that was polled in this frame
  have hsteady : Steady v d t :=
    hmoved.induct (P := Steady v) (fun _ _ _ _ hm hs => hs.move hm)
      ⟨hid, hcur, ⟨src, hstate⟩, hpolled⟩
  obtain ⟨hid', hcur', ⟨src', hstate'⟩, hpolled'⟩ := hsteady
  rw [heq, present_of_current hid' hcur']
  exact ⟨rfl, d, src', setCover_lookup_self _ _ _, hid', hcur', hstate', hpolled'⟩

theorem Pinned.resolve_ne {p q : PlayParams} {v : CoverView} {s : Sys σ} (h : Pinned p v s)
    (hq : p ≠ q) (env : Env) (now : Instant) : Pinned p v (s.resolve env q now).1 := by
  by_cases hpath : q.path = ""
  · unfold Sys.resolve
    rw [if_pos hpath]
    exact h
  · obtain ⟨c, t, d, hmoved, heq⟩ := s.resolve_moves env now hpath
    -- another cover is started at most
    have hensure : Pinned p v (s.ensure env q now) := by
      unfold ensure
      split_ifs with hmem
      · exact h
      · exact h.start hmem _ now _
    have ht : Pinned p v (t.setCover q d) := (hensure.of_sameReg hmoved.sameReg).setCover_ne hq d
    rw [heq]
    unfold present
    cases d.current with
    | none => exact ht
    | some f => exact ht.of_sameReg ⟨rfl, rfl, rfl⟩

/-- A pinned cover stays pinned until the end of the frame. -/
theorem Pinned.step {p : PlayParams} {v : CoverView} {s : Sys σ} (h : Pinned p v s)
    (hpath : p.path ≠ "") {e : Event σ} (he : e.InFrame) : Pinned p v (s.step e).1 := by
  cases e with
  -- the three calls that end a frame are excluded
  | setSettings => exact he.elim
  | beginFrame => exact he.elim
  | endFrame => exact he.elim
  | warm env play now =>
    show Pinned p v (s.warm env play now)
    unfold warm
    split_ifs with hmem
    · exact h
    · exact h.start (fun hin => hmem (Or.inr hin)) _ now _
  -- its own `resolve`, or that of another cover
  | resolve env play now =>
    by_cases hq : p = play
    · exact hq ▸ (h.resolve_self hpath env now).2
    · exact h.resolve_ne hq env now
  | deliver t opened polls => exact h.of_sameReg (send_sameReg s t _)
  | crash t => exact h.of_sameReg (send_sameReg s t _)
  | finish t => exact h.of_sameReg (finish_sameReg s t)

theorem Pinned.run {p : PlayParams} {v : CoverView} {s : Sys σ} (h : Pinned p v s)
    (hpath : p.path ≠ "") {es : List (Event σ)} (hes : ∀ e ∈ es, e.InFrame) :
    Pinned p v (Machine.run Sys.step s es) :=
  Machine.Admits.invariant (I := Pinned p v) (P := fun _ e => e.InFrame)
    (fun _ _ hs he => hs.step hpath he) h (Machine.admits_of_forall fun _ e he => hes e he)

/-- A view pins its cover. -/
theorem Settled.pinned {s : Sys σ} (h : Settled s) {env : Env} {p : PlayParams} {now : Instant}
    {v : CoverView} (hv : (s.resolve env p now).2 = some v) :
    p.path ≠ "" ∧ Pinned p v (s.resolve env p now).1 := by
  -- without a path nothing is shown
  by_cases hpath : p.path = ""
  · unfold Sys.resolve at hv
    rw [if_pos hpath] at hv
    cases hv
  · refine ⟨hpath, ?_⟩
    obtain ⟨c, t, d, hmoved, heq⟩ := s.resolve_moves env now hpath
    have hI : Settled (t.setCover p d) :=
      hmoved.induct (P := fun c u => Settled (u.setCover p c)) (fun _ _ _ _ hm hs => hs.move hm)
        ((h.ensure env p now).setCover_self hmoved.there)
    rw [heq] at hv ⊢
    unfold present at hv ⊢
    cases hcur : d.current with
    | none =>
      rw [hcur] at hv
      cases hv
    -- what is shown is ready, and was polled in this frame
    | some f =>
      rw [hcur] at hv
      cases hv
      obtain ⟨src, hsrc⟩ := (hI.covers p d (setCover_lookup_self _ _ _)).ready f hcur
      exact ⟨d, src, setCover_lookup_self _ _ _, rfl, hcur, hsrc, hmoved.polled src hsrc⟩

namespace PolledOnce

variable {base : ℕ → ℕ}

theorem move {p : PlayParams} {c c' : Cover σ} {s s' : Sys σ} (hm : Move (c, s) (c', s'))
    (hsettled : Settled (s.setCover p c)) (h : PolledOnce base (s.setCover p c)) :
    PolledOnce base (s'.setCover p c') := by
  cases hm with
  | idle c' hid hstate hcurrent hpolled => exact h.replace hid hpolled (.refl s) fun _ => rfl
  | probe env hs =>
    refine h.replace rfl rfl ⟨rfl, rfl, rfl⟩ fun id => ?_
    exact polls_cons (e := .probed c.id env.pathExists) rfl (fun _ => nofun) id
  | wait t' hs => exact h.replace rfl rfl (.refl s) fun _ => rfl
  | reopen play settings canSpawn hs =>
    refine h.replace rfl rfl ⟨rfl, rfl, rfl⟩ fun id => ?_
    cases canSpawn
    · rfl
    · exact polls_cons (e := .spawned s.nextThread c.id) rfl (fun _ => nofun) id
  | bind hs hsent hb =>
    refine h.replace rfl rfl ⟨hb.reg.covers, hb.reg.nextId, hb.reg.frameNo⟩ fun id => ?_
    exact (hb.polls_eq id).trans (polls_cons (e := .bound c.id) rfl (fun _ => nofun) id)
  | giveUp state hs hstate hb => exact h.replace rfl rfl hb.reg hb.polls_eq
  | poll now state current hs hframe hb hpoll =>
    -- the poll of this frame is the one that counts
    intro id
    have hself := setCover_lookup_self s p c
    have hpolls : ∀ d, (s'.setCover p d).polls id = List.count (.polled id) (.polled c.id :: s.log) :=
      fun _ => hb.polls_eq id
    rw [hpolls]
    by_cases hid : c.id = id
    · -- the cover of this poll was not polled in this frame before, and no other cover has its id
      have hlt : c.polledIn < s.reg.frameNo :=
        lt_of_le_of_ne (hsettled.covers p c hself).polledIn_le hframe
      have hle : s.polls id ≤ base id := by
        refine (h id).2 fun q d hd hdid => ?_
        have hqp := hsettled.distinct q p d c hd hself (hdid.trans hid.symm)
        subst hqp
        cases hself.symm.trans hd
        exact hlt
      rw [hid, List.count_cons_self]
      refine ⟨Nat.succ_le_succ hle, fun hnone => ?_⟩
      have hlt' := hnone p _ (setCover_lookup_self _ _ _) rfl
      rw [setCover_reg_frameNo, hb.reg.frameNo] at hlt'
      exact absurd hlt' (lt_irrefl _)
    · rw [List.count_cons_of_ne (by simpa using hid)]
      refine ⟨(h id).1, fun hlt => (h id).2 fun q d hd hdid => ?_⟩
      have hq : q ≠ p := by
        rintro rfl
        rw [setCover_lookup_self] at hd
        cases hd
        exact hid hdid
      rw [setCover_lookup_ne _ hq] at hd
      have hd' := hlt q d (by rw [setCover_lookup_ne _ hq, hb.reg.covers]; exact hd) hdid
      rw [setCover_reg_frameNo, hb.reg.frameNo] at hd'
      exact hd'

/-- An event inside the frame. -/
theorem step {s : Sys σ} (hsettled : Settled s) (h : PolledOnce base s) {e : Event σ}
    (he : e.InFrame) : PolledOnce base (s.step e).1 := by
  cases e with
  | setSettings => exact he.elim
  | beginFrame => exact he.elim
  | endFrame => exact he.elim
  | warm env play now =>
    show PolledOnce base (s.warm env play now)
    unfold warm
    split_ifs with hmem
    · exact h
    · exact h.start play _ now _ fun hin => hmem (Or.inr hin)
  | resolve env play now =>
    show PolledOnce base (s.resolve env play now).1
    by_cases hpath : play.path = ""
    · unfold Sys.resolve
      rw [if_pos hpath]
      exact h
    · obtain ⟨c, t, d, hmoved, heq⟩ := s.resolve_moves env now hpath
      have hensure : PolledOnce base (s.ensure env play now) := by
        unfold ensure
        split_ifs with hmem
        · exact h
        · exact h.start play _ now _ hmem
      -- the cover that `resolve` works on is the one in the registry
      have hcover : PolledOnce base ((s.ensure env play now).setCover play c) := by
        refine hensure.mono (fun _ => rfl) ?_
        intro q d hd
        by_cases hq : q = play
        · subst hq
          cases hmoved.there.symm.trans hd
          exact ⟨q, c, setCover_lookup_self _ _ _, rfl, id⟩
        · exact ⟨q, d, (setCover_lookup_ne _ hq _).trans hd, rfl, id⟩
      have hI : Settled (t.setCover play d) ∧ PolledOnce base (t.setCover play d) :=
        hmoved.induct
          (P := fun c u => Settled (u.setCover play c) ∧ PolledOnce base (u.setCover play c))
          (fun _ _ _ _ hm hs => ⟨hs.1.move hm, hs.2.move hm hs.1⟩)
          ⟨(hsettled.ensure env play now).setCover_self hmoved.there, hcover⟩
      rw [heq]
      unfold present
      cases d.current with
      | none => exact hI.2
      | some f =>
        refine hI.2.of_sameReg ⟨rfl, rfl, rfl⟩ ?_
        exact polls_cons (e := .viewed { id := d.id, frame := f }) rfl fun _ => nofun
  | deliver t opened polls => exact h.of_sameReg (send_sameReg s t _) (s.send_polls t _)
  | crash t => exact h.of_sameReg (send_sameReg s t _) (s.send_polls t _)
  | finish t => exact h.of_sameReg (finish_sameReg s t) (s.finish_polls t)

end PolledOnce

/-- **Frame data stays valid until the end of the frame.**  In every reachable state `s`, after
`begin_frame`, for all resolves, warms and thread steps `es` up to the end of the frame:

* each cover's source was polled at most once since `begin_frame`;
* if `resolve p` returned `v` after the events `es`, then after any further events `es'` of the
  frame the cover of `p` still has the id and the frame of `v`, and `resolve p` returns `v`. -/
theorem frame_data_valid_until_end_frame (defaults : Settings) (before es es' : List (Event σ))
    (hes : ∀ e ∈ es, e.InFrame) (hes' : ∀ e ∈ es', e.InFrame) :
    let s := Machine.run step (init defaults) before
    let t := Machine.run step s.beginFrame es
    (∀ id, t.polls id ≤ s.polls id + 1) ∧
    ∀ env p now v, (t.resolve env p now).2 = some v →
      let u := Machine.run step (t.resolve env p now).1 es'
      (∃ c, u.reg.covers.lookup p = some c ∧ c.id = v.id ∧ c.current = some v.frame) ∧
      ∀ env' now', (u.resolve env' p now').2 = some v := by
  intro s t
  have hs : Settled s := Settled.run defaults before
  -- joining the threads polls nothing
  have hframe : ∀ id, s.beginFrame.polls id = s.polls id := (reap_behind _).polls_eq
  have hbegin : Settled s.beginFrame ∧ PolledOnce s.polls s.beginFrame :=
    ⟨hs.beginFrame, fun id => ⟨by rw [hframe]; omega, fun _ => (hframe id).le⟩⟩
  have ht : Settled t ∧ PolledOnce s.polls t :=
    Machine.Admits.invariant (I := fun u => Settled u ∧ PolledOnce s.polls u)
      (P := fun _ e => e.InFrame) (fun _ _ hI he => ⟨hI.1.step _, hI.2.step hI.1 he⟩) hbegin
      (Machine.admits_of_forall fun _ e he => hes e he)
  refine ⟨fun id => (ht.2 id).1, ?_⟩
  intro env p now v hv u
  -- from the first `resolve` on the picture is pinned
  obtain ⟨hpath, hpinned⟩ := ht.1.pinned hv
  have hu : Pinned p v u := hpinned.run hpath hes'
  refine ⟨?_, fun env' now' => (hu.resolve_self hpath env' now').1⟩
  obtain ⟨c, src, hc, hid, hcur, -⟩ := hu
  exact ⟨c, hc, hid, hcur⟩

end Sys

/-- The default cover is loaded before the frame begins. -/
def loadedRun : List (Sys.Event Solid) :=
  [.setSettings exampleEnv exampleSettings none 0, .deliver 0 (.ok { count := 0 }) [0], .finish 0]

theorem Sys.loadedRun_view_stays :
    ((Machine.run Sys.step
      ((Machine.run Sys.step (Sys.init exampleSettings) loadedRun).beginFrame.resolve exampleEnv
        exampleSettings.defaultPlay 1).1
      [.resolve exampleEnv exampleSettings.defaultPlay 2]).resolve exampleEnv
        exampleSettings.defaultPlay 3).2 = some { id := 1, frame := Solid.frame 2 } :=
  ((Sys.frame_data_valid_until_end_frame exampleSettings loadedRun []
    [.resolve exampleEnv exampleSettings.defaultPlay 2] (by simp)
    (by simp [Sys.Event.InFrame])).2 exampleEnv exampleSettings.defaultPlay 1
    { id := 1, frame := Solid.frame 2 } (by decide +kernel)).2 exampleEnv 3

end NoshareCover
