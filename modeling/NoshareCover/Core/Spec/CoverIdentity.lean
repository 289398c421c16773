import NoshareCover.Core.Spec.Registry

/-!
# A cover id and a generation identify the picture

The history of a run (`Sys.log`) is well formed, `History`: an id is created once, gets a source
at most once, is never mentioned again after its cover was dropped, and the frames shown under it
have growing generations.  `Identified` is the invariant that carries it through every event.
-/

namespace NoshareCover

/-! ### Generations of a source -/

namespace Source

variable {σ : Type*} [Source σ]

/-- Every frame the source hands out from here on has a generation above `n`, and they grow. -/
def Above (n : ℕ) (src : σ) : Prop :=
  ∀ cs, (n :: (frames src cs).map Frame.generation).Pairwise (· < ·)

/-- The generations of the frames that a source hands out strictly increase. -/
def Increasing (src : σ) : Prop :=
  ∀ cs, ((frames src cs).map Frame.generation).Pairwise (· < ·)

/-- A source that goes on behind the frame it is sent with, if there is one. -/
structure GoesOn (src : σ) (first : Option Frame) : Prop where
  increasing : Increasing src
  above : ∀ f ∈ first, Above f.generation src

theorem Above.increasing {n : ℕ} {src : σ} (h : Above n src) : Increasing src :=
  fun cs => (List.pairwise_cons.1 (h cs)).2

theorem Above.shown {n : ℕ} {src : σ} (h : Above n src) : Above n (shown src) :=
  fun cs => h (.shown :: cs)

theorem Increasing.shown {src : σ} (h : Increasing src) : Increasing (shown src) :=
  fun cs => h (.shown :: cs)

theorem frames_poll_none {src : σ} {now : Instant} (h : (poll src now).1 = .ok none)
    (cs : List SourceCall) : frames src (.poll now :: cs) = frames (poll src now).2 cs := by
  rw [frames]
  rcases hp : poll src now with ⟨_ | _ | f, src'⟩
  · rfl
  · rfl
  · rw [hp] at h
    cases h

theorem frames_poll_some {src : σ} {now : Instant} {f : Frame}
    (h : (poll src now).1 = .ok (some f)) (cs : List SourceCall) :
    frames src (.poll now :: cs) = f :: frames (poll src now).2 cs := by
  rw [frames]
  rcases hp : poll src now with ⟨_ | _ | g, src'⟩ <;> rw [hp] at h <;> cases h
  rfl

theorem Above.poll_none {n : ℕ} {src : σ} {now : Instant} (h : Above n src)
    (hp : (poll src now).1 = .ok none) : Above n (poll src now).2 :=
  fun cs => frames_poll_none hp cs ▸ h (.poll now :: cs)

theorem Above.poll_some {n : ℕ} {src : σ} {now : Instant} {f : Frame} (h : Above n src)
    (hp : (poll src now).1 = .ok (some f)) :
    n < f.generation ∧ Above f.generation (poll src now).2 := by
  constructor
  · have hcs := h [.poll now]
    rw [frames_poll_some hp] at hcs
    exact (List.pairwise_cons.mp hcs).1 _ (List.mem_cons_self ..)
  · intro cs
    have hcs := h (.poll now :: cs)
    rw [frames_poll_some hp] at hcs
    exact (List.pairwise_cons.mp hcs).2

theorem Increasing.poll_none {src : σ} {now : Instant} (h : Increasing src)
    (hp : (poll src now).1 = .ok none) : Increasing (poll src now).2 :=
  fun cs => frames_poll_none hp cs ▸ h (.poll now :: cs)

theorem Increasing.poll_some {src : σ} {now : Instant} {f : Frame} (h : Increasing src)
    (hp : (poll src now).1 = .ok (some f)) : Above f.generation (poll src now).2 := by
  intro cs
  have hcs := h (.poll now :: cs)
  rwa [frames_poll_some hp] at hcs

end Source

/-- What the loader sends goes on behind its first frame, if the opened source increases. -/
theorem goesOn_of_load {σ : Type} [Source σ] {opened : Except MediaError σ} {polls : List Instant}
    {src : σ} {first : Option Frame} (hopened : ∀ src, opened = .ok src → Source.Increasing src)
    (h : load opened polls = .ok (src, first)) : Source.GoesOn src first := by
  unfold load at h
  cases opened with
  | error e => cases h
  | ok src₀ =>
    have hsrc := hopened src₀ rfl
    dsimp only at h
    clear hopened
    -- the polls until the first frame, each of an increasing source
    induction polls generalizing src₀ with
    | nil =>
      cases h
      exact ⟨hsrc, nofun⟩
    | cons now polls ih =>
      rw [firstFrame] at h
      rcases hp : Source.poll src₀ now with ⟨_ | _ | g, src'⟩ <;> rw [hp] at h <;> dsimp only at h
      · cases h
      · have hnext : Source.Increasing (Source.poll src₀ now).2 := hsrc.poll_none (by rw [hp])
        rw [hp] at hnext
        exact ih _ h hnext
      · cases h
        have hsome : Source.Above g.generation (Source.poll src₀ now).2 :=
          hsrc.poll_some (by rw [hp])
        -- the first frame is below what the source gives from then on
        rw [hp] at hsome
        refine ⟨hsome.increasing, fun f hf => ?_⟩
        obtain rfl := Option.mem_some_iff.1 hf
        exact hsome

/-! ### Well-formed histories -/

namespace Effect

/-- The cover id an effect is about. -/
def cover : Effect → Option ℕ
  | started id _ => some id
  | spawned _ id => some id
  | probed id _ => some id
  | bound id => some id
  | polled id => some id
  | viewed v => some v.id
  | dropped id => some id
  | joined _ _ => none

/-- What an effect requires of the history before it. -/
def Allowed (log : List Effect) (e : Effect) : Prop :=
  (∀ id ∈ e.cover, dropped id ∉ log) ∧
  match e with
  | started id _ => ∀ e' ∈ log, e'.cover ≠ some id
  | bound id => bound id ∉ log
  | viewed v => ∀ w, viewed w ∈ log → w.id = v.id →
      w.frame.generation = v.frame.generation → w.frame = v.frame
  | _ => True

/-- An effect that the state of the cover `id` does not have to follow. -/
def Neutral (e : Effect) (id : ℕ) : Prop :=
  e ≠ dropped id ∧ e ≠ bound id ∧ ∀ v, e = viewed v → v.id ≠ id

theorem neutral_of_cover {e : Effect} {id : ℕ} (h : e.cover ≠ some id) : e.Neutral id := by
  refine ⟨?_, ?_, ?_⟩
  · rintro rfl
    exact h rfl
  · rintro rfl
    exact h rfl
  · rintro v rfl hid
    exact h (congrArg some hid)

end Effect

/-- Every effect was allowed when it happened. -/
def History : List Effect → Prop
  | [] => True
  | e :: log => e.Allowed log ∧ History log

namespace History

/-- Nothing happens to a cover after it was dropped. -/
theorem after_dropped {newer older : List Effect} {id : ℕ}
    (h : History (newer ++ .dropped id :: older)) : ∀ e ∈ newer, e.cover ≠ some id := by
  induction newer with
  | nil => exact fun e he => absurd he List.not_mem_nil
  | cons e newer ih =>
    intro e' he' hid
    rcases List.mem_cons.mp he' with rfl | he'
    · exact h.1.1 id hid (List.mem_append_right _ (List.mem_cons_self ..))
    · exact ih h.2 e' he' hid

/-- A cover id belongs to one set of playback parameters. -/
theorem started_unique {log : List Effect} (h : History log) {id : ℕ} {p q : PlayParams}
    (hp : .started id p ∈ log) (hq : .started id q ∈ log) : p = q := by
  induction log with
  | nil => cases hp
  | cons e log ih =>
    rcases List.mem_cons.mp hp with rfl | hp'
    · rcases List.mem_cons.mp hq with heq | hq'
      · cases heq; rfl
      · exact absurd rfl (h.1.2 _ hq')
    · rcases List.mem_cons.mp hq with rfl | hq'
      · exact absurd rfl (h.1.2 _ hp')
      · exact ih h.2 hp' hq'

/-- A cover gets a source at most once. -/
theorem bound_once {log : List Effect} (h : History log) (id : ℕ) :
    log.count (.bound id) ≤ 1 := by
  induction log with
  | nil => exact Nat.zero_le _
  | cons e log ih =>
    by_cases he : e = .bound id
    · subst he
      rw [List.count_cons_self, List.count_eq_zero.mpr h.1.2]
    · rw [List.count_cons_of_ne he]
      exact ih h.2

/-- One id and one generation, one picture. -/
theorem viewed_unique {log : List Effect} (h : History log) {v w : CoverView}
    (hv : .viewed v ∈ log) (hw : .viewed w ∈ log) (hid : v.id = w.id)
    (hgen : v.frame.generation = w.frame.generation) : v.frame = w.frame := by
  induction log with
  | nil => cases hv
  | cons e log ih =>
    rcases List.mem_cons.mp hv with rfl | hv'
    · rcases List.mem_cons.mp hw with heq | hw'
      · cases heq; rfl
      · exact (h.1.2 w hw' hid.symm hgen.symm).symm
    · rcases List.mem_cons.mp hw with rfl | hw'
      · exact h.1.2 v hv' hid hgen
      · exact ih h.2 hv' hw'

end History

/-! ### The invariant -/

namespace Sys

variable {σ : Type} [Source σ]

/-- The cover has no source yet. -/
def State.Unbound : State σ → Prop
  | .opening _ _ => True
  | .missing _ => True
  | _ => False

/-- What the history says about a live cover. -/
structure CoverOk (log : List Effect) (play : PlayParams) (c : Cover σ) : Prop where
  started : .started c.id play ∈ log
  live : .dropped c.id ∉ log
  unbound : State.Unbound c.state → .bound c.id ∉ log
  source : ∀ src, c.state = .ready src → Source.Increasing src
  picture : ∀ f, c.current = some f →
    (∃ src, c.state = .ready src ∧ Source.Above f.generation src) ∧
    ∀ v, .viewed v ∈ log → v.id = c.id → v.frame.generation ≤ f.generation ∧
      (v.frame.generation = f.generation → v.frame = f)
  blank : c.current = none → c.state ≠ .failed →
    ∀ v, .viewed v ∈ log → v.id ≠ c.id

/-- The invariant of the registry with its threads. -/
structure Identified (s : Sys σ) : Prop where
  covers : ∀ p c, s.reg.covers.lookup p = some c → CoverOk s.log p c
  below : ∀ e ∈ s.log, ∀ id ∈ e.cover, id < s.reg.nextId
  history : History s.log
  sent : ∀ t src first, (s.threads t).sent = some (.ok (src, first)) → Source.GoesOn src first

theorem CoverOk.cons {log : List Effect} {p : PlayParams} {c : Cover σ} (h : CoverOk log p c)
    {e : Effect} (he : e.Neutral c.id) : CoverOk (e :: log) p c := by
  -- a neutral event is no view of this cover
  have hview : ∀ v, .viewed v ∈ e :: log → v.id = c.id → .viewed v ∈ log := by
    intro v hv hid
    rcases List.mem_cons.mp hv with heq | hv
    · exact absurd hid (he.2.2 v heq.symm)
    · exact hv
  refine ⟨List.mem_cons_of_mem _ h.started, ?_, ?_, h.source, ?_, ?_⟩
  · intro hd
    rcases List.mem_cons.mp hd with heq | hd
    · exact he.1 heq.symm
    · exact h.live hd
  · intro hu hb
    rcases List.mem_cons.mp hb with heq | hb
    · exact he.2.1 heq.symm
    · exact h.unbound hu hb
  · intro f hf
    exact ⟨(h.picture f hf).1, fun v hv hid => (h.picture f hf).2 v (hview v hv hid) hid⟩
  · intro hn hs v hv hid
    exact h.blank hn hs v (hview v hv hid) hid

theorem CoverOk.append {log es : List Effect} {p : PlayParams} {c : Cover σ} (h : CoverOk log p c)
    (hes : ∀ e ∈ es, e.Neutral c.id) : CoverOk (es ++ log) p c := by
  induction es with
  | nil => exact h
  | cons e es ih =>
    exact (ih fun e' he' => hes e' (List.mem_cons_of_mem _ he')).cons
      (hes e (List.mem_cons_self ..))

/-- Only identity, state and picture of a cover matter. -/
theorem CoverOk.congr {log : List Effect} {p : PlayParams} {c c' : Cover σ} (h : CoverOk log p c)
    (hid : c'.id = c.id) (hstate : c'.state = c.state) (hcurrent : c'.current = c.current) :
    CoverOk log p c' := by
  obtain ⟨id, state, current, polledIn, lastUsed⟩ := c
  obtain ⟨id', state', current', polledIn', lastUsed'⟩ := c'
  cases hid
  cases hstate
  cases hcurrent
  exact ⟨h.started, h.live, h.unbound, h.source, h.picture, h.blank⟩

theorem CoverOk.current_of_unbound {log : List Effect} {p : PlayParams} {c : Cover σ}
    (h : CoverOk log p c) (hu : State.Unbound c.state) : c.current = none := by
  cases hcur : c.current with
  | none => rfl
  | some f =>
    obtain ⟨⟨src, hsrc, -⟩, -⟩ := h.picture f hcur
    rw [hsrc] at hu
    exact hu.elim

/-- A cover that was never shown can change its state freely, as long as it gets no source. -/
theorem CoverOk.of_unbound {log : List Effect} {p : PlayParams} {c : Cover σ}
    (h : CoverOk log p c) (hu : State.Unbound c.state) {state : State σ}
    (hstate : ∀ src, state ≠ .ready src) : CoverOk log p { c with state } := by
  have hnone := h.current_of_unbound hu
  refine ⟨h.started, h.live, fun _ => h.unbound hu, fun src hsrc => absurd hsrc (hstate src),
    fun f hf => ?_, ?_⟩
  · rw [hnone] at hf
    cases hf
  intro hn _
  refine h.blank hn ?_
  intro hfailed
  rw [hfailed] at hu
  exact hu.elim

/-- A cover that gets its source for the first time: nothing of it was shown yet. -/
theorem CoverOk.bind {log : List Effect} {p : PlayParams} {c : Cover σ} (h : CoverOk log p c)
    (hu : State.Unbound c.state) {src : σ} {frame : Option Frame} (hgoes : Source.GoesOn src frame) :
    CoverOk (.bound c.id :: log) p
      { c with state := .ready (Source.shown src), current := frame.or c.current } := by
  have hcur : c.current = none := h.current_of_unbound hu
  have hfailed : c.state ≠ .failed := by
    intro hfailed
    rw [hfailed] at hu
    exact hu.elim
  have hviews : ∀ v, .viewed v ∈ Effect.bound c.id :: log → v.id ≠ c.id := by
    intro v hv
    rcases List.mem_cons.mp hv with heq | hv
    · cases heq
    · exact h.blank hcur hfailed v hv
  refine ⟨List.mem_cons_of_mem _ h.started, ?_, fun hu' => hu'.elim, fun src' hready => ?_, ?_,
    fun _ _ => hviews⟩
  · intro hd
    rcases List.mem_cons.mp hd with heq | hd
    · cases heq
    · exact h.live hd
  · cases hready
    exact hgoes.increasing.shown
  · intro f hf
    rw [hcur, Option.or_none] at hf
    exact ⟨⟨_, rfl, (hgoes.above f hf).shown⟩, fun v hv hid => absurd hid (hviews v hv)⟩

/-- A cover that is polled: the generation of a new frame is above all that were shown. -/
theorem CoverOk.poll_some {log : List Effect} {p : PlayParams} {c : Cover σ} (h : CoverOk log p c)
    {src : σ} (hs : c.state = .ready src) {now : Instant} {f : Frame}
    (hf : (Source.poll src now).1 = .ok (some f)) (polledIn : ℕ) :
    CoverOk log p
      { c with state := .ready (Source.poll src now).2, current := some f, polledIn } := by
  have habove := (h.source src hs).poll_some hf
  refine ⟨h.started, h.live, fun hu => hu.elim, fun src' hready => ?_, fun g hg => ?_, nofun⟩
  · cases hready
    exact habove.increasing
  · cases hg
    refine ⟨⟨_, rfl, habove⟩, fun v hv hid => ?_⟩
    cases hcur : c.current with
    | none => exact absurd hid (h.blank hcur (by rw [hs]; exact nofun) v hv)
    | some g =>
      obtain ⟨⟨src', hsrc', hold⟩, hviews⟩ := h.picture g hcur
      rw [hs] at hsrc'
      cases hsrc'
      have hlt := (hold.poll_some hf).1
      have hle := (hviews v hv hid).1
      exact ⟨by omega, by omega⟩

/-- Without a new frame the old one stays. -/
theorem CoverOk.poll_none {log : List Effect} {p : PlayParams} {c : Cover σ} (h : CoverOk log p c)
    {src : σ} (hs : c.state = .ready src) {now : Instant}
    (hn : (Source.poll src now).1 = .ok none) (polledIn : ℕ) :
    CoverOk log p { c with state := .ready (Source.poll src now).2, polledIn } := by
  refine ⟨h.started, h.live, fun hu => hu.elim, fun src' hready => ?_, fun g hg => ?_,
    fun hcur _ => h.blank hcur (by rw [hs]; exact nofun)⟩
  · cases hready
    exact (h.source src hs).poll_none hn
  · obtain ⟨⟨src', hsrc', habove⟩, hviews⟩ := h.picture g hg
    rw [hs] at hsrc'
    cases hsrc'
    exact ⟨⟨_, rfl, habove.poll_none hn⟩, hviews⟩

/-- The source that a loader opens in this event. -/
def Event.opened : Event σ → Option σ
  | .deliver _ (.ok src) _ => some src
  | _ => none

namespace Identified

theorem id_lt {s : Sys σ} (h : Identified s) {p : PlayParams} {c : Cover σ}
    (hc : s.reg.covers.lookup p = some c) : c.id < s.reg.nextId :=
  h.below _ (h.covers p c hc).started _ rfl

theorem id_ne {s : Sys σ} (h : Identified s) {p q : PlayParams} {c d : Cover σ}
    (hc : s.reg.covers.lookup p = some c) (hd : s.reg.covers.lookup q = some d) (hpq : p ≠ q) :
    c.id ≠ d.id := by
  intro hid
  have hstarted := (h.covers q d hd).started
  rw [← hid] at hstarted
  exact hpq (h.history.started_unique (h.covers p c hc).started hstarted)

/-- Only covers, ids, history and channels matter. -/
theorem congr {s t : Sys σ} (h : Identified s) (hcovers : t.reg.covers = s.reg.covers)
    (hnext : t.reg.nextId = s.reg.nextId) (hlog : t.log = s.log)
    (hsent : ∀ k, (t.threads k).sent = (s.threads k).sent) : Identified t := by
  refine ⟨?_, ?_, ?_, ?_⟩
  · rw [hcovers, hlog]
    exact h.covers
  · rw [hnext, hlog]
    exact h.below
  · rw [hlog]
    exact h.history
  · intro k src f hk
    exact h.sent k src f ((hsent k).symm.trans hk)

/-- Work behind the covers keeps the invariant. -/
theorem behind {s t : Sys σ} (h : Identified s) (hb : Behind s t) : Identified t := by
  -- a joined thread is about no cover
  obtain ⟨es, hlog, hjoined⟩ := hb.log
  have hnone : ∀ e ∈ es, e.cover = none := by
    intro e he
    obtain ⟨thread, done, rfl⟩ := hjoined e he
    rfl
  -- covers, ids, history and messages, in turn
  refine ⟨?_, ?_, ?_, ?_⟩
  · intro p c hc
    rw [hb.reg.covers] at hc
    rw [hlog]
    refine (h.covers p c hc).append fun e he => Effect.neutral_of_cover ?_
    rw [hnone e he]
    exact Option.some_ne_none c.id |>.symm
  · intro e he id hid
    rw [hlog, List.mem_append] at he
    rw [hb.reg.nextId]
    rcases he with he | he
    · rw [hnone e he] at hid
      cases hid
    · exact h.below e he id hid
  -- the history grows by the joined threads only
  · rw [hlog]
    clear hlog
    induction es with
    | nil => exact h.history
    | cons e es ih =>
      obtain ⟨thread, done, rfl⟩ := hjoined e (List.mem_cons_self ..)
      exact ⟨⟨fun id hid => absurd hid (by simp [Effect.cover]), trivial⟩,
        ih (fun e' he' => hjoined e' (List.mem_cons_of_mem _ he'))
          (fun e' he' => hnone e' (List.mem_cons_of_mem _ he'))⟩
  · intro t' src f hsent
    rcases hb.sent t' with hn | hs
    · rw [hn] at hsent
      cases hsent
    · exact h.sent t' src f (hs ▸ hsent)

/-- Something happened to one cover: the history grows by an effect about it that was allowed. -/
theorem tell {s : Sys σ} {p : PlayParams} {c c' : Cover σ} (h : Identified (s.setCover p c))
    {e : Effect} (he : e.cover = some c.id) (hallowed : e.Allowed s.log)
    (hc' : CoverOk (e :: s.log) p c') :
    Identified ({ s with log := e :: s.log }.setCover p c') := by
  have hself := setCover_lookup_self s p c
  refine ⟨?_, ?_, ⟨hallowed, h.history⟩, h.sent⟩
  -- the one cover that changed, and the others
  · intro q d hd
    by_cases hq : q = p
    · subst hq
      rw [setCover_lookup_self] at hd
      cases hd
      exact hc'
    · rw [setCover_lookup_ne _ hq] at hd
      have hd' : (s.setCover p c).reg.covers.lookup q = some d := by
        rw [setCover_lookup_ne _ hq]
        exact hd
      have hne := h.id_ne hself hd' (Ne.symm hq)
      refine (h.covers q d hd').cons (Effect.neutral_of_cover ?_)
      rw [he]
      exact fun heq => hne (Option.some.inj heq)
  -- the ids of the history are below the next one
  · intro e' he' id hid
    rcases List.mem_cons.mp he' with rfl | he'
    · rw [he] at hid
      cases hid
      exact h.id_lt hself
    · exact h.below e' he' id hid

/-- One cover changed and the history did not. -/
theorem change {s : Sys σ} {p : PlayParams} {c c' : Cover σ} (h : Identified (s.setCover p c))
    (hc' : CoverOk s.log p c') : Identified (s.setCover p c') := by
  refine ⟨?_, h.below, h.history, h.sent⟩
  intro q d hd
  by_cases hq : q = p
  · subst hq
    rw [setCover_lookup_self] at hd
    cases hd
    exact hc'
  · rw [setCover_lookup_ne _ hq] at hd
    exact h.covers q d (by rw [setCover_lookup_ne _ hq]; exact hd)

theorem spawn {s : Sys σ} {p : PlayParams} {c c' : Cover σ} (h : Identified (s.setCover p c))
    (play : PlayParams) (settings : Settings) (canSpawn : Bool)
    (hc' : CoverOk s.log p c') :
    Identified ((s.spawn play settings canSpawn c.id).2.setCover p c') := by
  have hsent : ∀ t src first, ((s.spawn play settings canSpawn c.id).2.threads t).sent =
      some (.ok (src, first)) → Source.GoesOn src first := by
    -- the new thread hasn't sent, the others have what they had
    intro t src first ht
    rcases s.setThread_sent s.nextThread t _ with hs | hs
    · cases hs.symm.trans ht
    · exact h.sent t src first (hs.symm.trans ht)
  cases canSpawn with
  | false =>
    have hI := h.change hc'
    exact ⟨hI.covers, hI.below, hI.history, hsent⟩
  | true =>
    -- a cover that is in the table was not dropped
    have hlive := (h.covers p c (setCover_lookup_self s p c)).live
    have hneutral : (Effect.spawned s.nextThread c.id).Neutral c'.id :=
      ⟨Effect.noConfusion, Effect.noConfusion, fun _ h => Effect.noConfusion h⟩
    have hI := h.tell (e := .spawned s.nextThread c.id) rfl
      ⟨fun id hid => by cases hid; exact hlive, trivial⟩ (hc'.cons hneutral)
    exact ⟨hI.covers, hI.below, hI.history, hsent⟩

/-- Every move of a cover keeps the invariant. -/
theorem move {p : PlayParams} {c c' : Cover σ} {s s' : Sys σ} (hm : Move (c, s) (c', s'))
    (h : Identified (s.setCover p c)) :
    Identified (s'.setCover p c') := by
  have hc : CoverOk s.log p c := h.covers p c (setCover_lookup_self s p c)
  cases hm with
  | idle c' hid hstate hcurrent hpolled => exact h.change (hc.congr hid hstate hcurrent)
  | probe env hs =>
    have hneutral : (Effect.probed c.id env.pathExists).Neutral c.id :=
      ⟨Effect.noConfusion, Effect.noConfusion, fun _ h => Effect.noConfusion h⟩
    refine h.tell (e := .probed c.id env.pathExists) rfl ⟨fun id hid => ?_, trivial⟩
      (hc.cons hneutral)
    cases hid
    exact hc.live
  | wait t' hs =>
    exact h.change (hc.of_unbound (by rw [hs]; trivial) nofun)
  | reopen play settings canSpawn hs =>
    exact h.spawn play settings canSpawn (hc.of_unbound (by rw [hs]; trivial) nofun)
  | giveUp state hs hstate hbehind =>
    have hno : ∀ src, state ≠ .ready src := by
      rcases hstate with ⟨t, rfl⟩ | rfl
      · exact nofun
      · exact nofun
    exact (h.change (hc.of_unbound (by rw [hs]; trivial) hno)).behind (hbehind.setCover p _)
  | bind hs hsent hbehind =>
    have hu : State.Unbound c.state := by rw [hs]; trivial
    refine (h.tell (e := .bound c.id) rfl ⟨fun id hid => ?_, hc.unbound hu⟩
      (hc.bind hu (h.sent _ _ _ hsent))).behind (hbehind.setCover p _)
    cases hid
    exact hc.live
  | poll now state current hs hframe hbehind hpoll =>
    have hc' : CoverOk (.polled c.id :: s.log) p c :=
      hc.cons ⟨Effect.noConfusion, Effect.noConfusion, fun _ h => Effect.noConfusion h⟩
    refine (h.tell (e := .polled c.id) rfl ⟨fun id hid => ?_, trivial⟩ ?_).behind
      (hbehind.setCover p _)
    · cases hid
      exact hc.live
    · rcases hpoll with ⟨f, hf, rfl, rfl⟩ | ⟨hn, rfl, rfl⟩ | ⟨rfl, rfl⟩
      · exact hc'.poll_some hs hf _
      · exact hc'.poll_none hs hn _
      -- the source failed, and the cover shows nothing any more
      · exact ⟨hc'.started, hc'.live, fun hu => hu.elim, nofun, nofun,
          fun _ hfailed => absurd rfl hfailed⟩

/-! ### Every event -/

/-- No effect is about an id that was not given out yet. -/
theorem cover_ne_nextId {s : Sys σ} (h : Identified s) {e : Effect} (he : e ∈ s.log) :
    e.cover ≠ some s.reg.nextId :=
  fun hid => absurd (h.below e he _ hid) (lt_irrefl _)

theorem start {s : Sys σ} (h : Identified s) (play : PlayParams) (settings : Settings)
    (now : Instant) (canSpawn : Bool) (hp : play ∉ s.reg.covers) :
    Identified (s.start play settings now canSpawn) := by
  set id := s.reg.nextId with hidef
  set s₁ : Sys σ := { s with reg := { s.reg with nextId := id + 1 }
                             log := .started id play :: s.log } with hs₁
  set c : Cover σ :=
    { id, state := .opening (s₁.spawn play settings canSpawn id).1 false, current := none,
      polledIn := 0, lastUsed := now } with hc
  -- the id is new, so the start is all that the log has about it
  have hmem : ∀ e, e ∈ s₁.log → e.cover = some id → e = .started id play := by
    intro e he hid
    rcases List.mem_cons.mp he with heq | he
    · exact heq
    · exact absurd hid (h.cover_ne_nextId he)
  have hok : CoverOk s₁.log play c := by
    refine ⟨List.mem_cons_self .., ?_, ?_, nofun, nofun, ?_⟩
    · intro hd
      cases hmem _ hd rfl
    · intro _ hb
      cases hmem _ hb rfl
    · intro _ _ v hv hid
      cases hmem _ hv (congrArg some hid)
  have hI : Identified (s₁.setCover play c) := by
    refine ⟨?_, ?_, ⟨⟨?_, ?_⟩, h.history⟩, h.sent⟩
    · intro q d hd
      by_cases hq : q = play
      · subst hq
        rw [setCover_lookup_self] at hd
        exact Option.some.inj hd ▸ hok
      · rw [setCover_lookup_ne _ hq] at hd
        refine (h.covers q d hd).cons (Effect.neutral_of_cover fun hid => ?_)
        exact absurd (h.id_lt hd) (by rw [← Option.some.inj hid]; exact lt_irrefl _)
    · intro e he id' hid'
      rcases List.mem_cons.mp he with rfl | he
      · cases hid'
        exact Nat.lt_succ_self _
      · exact Nat.lt_succ_of_lt (h.below e he id' hid')
    · intro id' hid' hd
      cases hid'
      exact h.cover_ne_nextId hd rfl
    · exact fun e he => h.cover_ne_nextId he
  exact hI.spawn play settings canSpawn hok

theorem ensure {s : Sys σ} (h : Identified s) (env : Env) (play : PlayParams) (now : Instant) :
    Identified (s.ensure env play now) := by
  unfold Sys.ensure
  split_ifs with hp
  · exact h
  · exact h.start play _ now _ hp

/-- Taking a cover out and putting it back. -/
theorem setCover_self {s : Sys σ} (h : Identified s) {p : PlayParams} {c : Cover σ}
    (hc : s.reg.covers.lookup p = some c) : Identified (s.setCover p c) := by
  refine ⟨?_, h.below, h.history, h.sent⟩
  intro q d hd
  by_cases hq : q = p
  · subst hq
    rw [setCover_lookup_self] at hd
    exact h.covers q d (hc.trans hd)
  · rw [setCover_lookup_ne _ hq] at hd
    exact h.covers q d hd

theorem resolve {s : Sys σ} (h : Identified s) (env : Env) (play : PlayParams) (now : Instant) :
    Identified (s.resolve env play now).1 := by
  by_cases hpath : play.path = ""
  · unfold Sys.resolve
    rw [if_pos hpath]
    exact h
  -- the three blocks of `resolve` keep the invariant, then the picture is shown
  · obtain ⟨c, t, d, hmoved, heq⟩ := s.resolve_moves env now hpath
    have hI : Identified (t.setCover play d) :=
      hmoved.induct (P := fun c u => Identified (u.setCover play c))
        (fun _ _ _ _ hm hs => hs.move hm) ((h.ensure env play now).setCover_self hmoved.there)
    rw [heq]
    unfold present
    cases hcur : d.current with
    | none => exact hI
    | some f =>
      have hok := hI.covers play d (setCover_lookup_self _ _ _)
      -- what was shown under this generation before is the same picture
      obtain ⟨hready, hviews⟩ := hok.picture f hcur
      refine hI.tell (e := .viewed { id := d.id, frame := f }) rfl ⟨?_, ?_⟩ ?_
      · intro id hid
        cases hid
        exact hok.live
      · intro w hw hid hg
        exact (hviews w hw hid).2 hg
      · refine ⟨List.mem_cons_of_mem _ hok.started, ?_, ?_, hok.source, ?_, ?_⟩
        · intro hd
          rcases List.mem_cons.mp hd with heq | hd
          · cases heq
          · exact hok.live hd
        · intro hu
          rw [hok.current_of_unbound hu] at hcur
          cases hcur
        · intro g hg
          cases hcur.symm.trans hg
          refine ⟨hready, fun v hv hid => ?_⟩
          rcases List.mem_cons.mp hv with heq | hv
          · cases heq
            exact ⟨le_rfl, fun _ => rfl⟩
          · exact hviews v hv hid
        · intro hn
          rw [hn] at hcur
          cases hcur

theorem warm {s : Sys σ} (h : Identified s) (env : Env) (play : PlayParams) (now : Instant) :
    Identified (s.warm env play now) := by
  unfold Sys.warm
  split_ifs with hp
  · exact h
  · exact h.start play _ now _ (fun hmem => hp (Or.inr hmem))

theorem removeCover {s : Sys σ} (h : Identified s) (play : PlayParams) :
    Identified (s.removeCover play) := by
  unfold Sys.removeCover
  cases hc : s.reg.covers.lookup play with
  | none => exact h
  | some c =>
    -- the others have other ids
    have hne : ∀ q d, (s.reg.covers.erase play).lookup q = some d →
        s.reg.covers.lookup q = some d ∧ d.id ≠ c.id := by
      intro q d hd
      by_cases hq : q = play
      · rw [hq, AList.lookup_erase] at hd
        cases hd
      · rw [AList.lookup_erase_ne hq] at hd
        exact ⟨hd, h.id_ne hd hc hq⟩
    refine Identified.behind ?_ (retire_behind _ c)
    -- after the drop its id is in no cover
    refine ⟨?_, ?_, ⟨⟨?_, trivial⟩, h.history⟩, h.sent⟩
    · intro q d hd
      obtain ⟨hd', hid⟩ := hne q d hd
      exact (h.covers q d hd').cons
        (Effect.neutral_of_cover fun heq => hid (Option.some.inj heq).symm)
    · intro e he id hid
      rcases List.mem_cons.mp he with rfl | he
      · cases hid
        exact h.id_lt hc
      · exact h.below e he id hid
    · intro id hid
      cases hid
      exact (h.covers play c hc).live

theorem endFrame {s : Sys σ} (h : Identified s) (env : Env) (now : Instant) :
    Identified (s.endFrame env now) :=
  List.foldlRecOn _ _ h fun _ hI p _ => hI.removeCover p

theorem prewarm {s : Sys σ} (h : Identified s) (env : Env) (now : Instant) :
    Identified (s.prewarm env now) := by
  unfold Sys.prewarm
  dsimp only
  split_ifs
  · exact h
  · exact h.warm env _ now

theorem setSettings {s : Sys σ} (h : Identified s) (env : Env) (settings : Settings)
    (error : Option ConfigError) (now : Instant) :
    Identified (s.setSettings env settings error now) := by
  unfold Sys.setSettings
  split_ifs
  · exact h
  · have hI : Identified (s.reg.covers.keys.foldl Sys.removeCover s) :=
      List.foldlRecOn _ _ h fun _ hI p _ => hI.removeCover p
    have hreset : Identified (s.reset settings error) := hI.congr rfl rfl rfl fun _ => rfl
    exact hreset.prewarm env now

theorem beginFrame {s : Sys σ} (h : Identified s) : Identified s.beginFrame := by
  unfold Sys.beginFrame
  refine Identified.behind ?_ (reap_behind _)
  exact h.congr rfl rfl rfl fun _ => rfl

theorem send {s : Sys σ} (h : Identified s) (t : ℕ) {r : Loaded σ}
    (hr : ∀ src first, r = .ok (src, first) → Source.GoesOn src first) :
    Identified (s.send t r) := by
  unfold Sys.send
  split_ifs
  · exact h
  · refine ⟨h.covers, h.below, h.history, ?_⟩
    intro t' src first hsent
    rcases s.setThread_sent t t' _ with hs | hs
    · exact hr src first (Option.some.inj (hs.symm.trans hsent))
    · exact h.sent t' src first (hs.symm.trans hsent)

theorem finish {s : Sys σ} (h : Identified s) (t : ℕ) : Identified (s.finish t) := by
  unfold Sys.finish
  split_ifs
  · exact h.congr rfl rfl rfl fun k => s.setThread_sent_eq k rfl
  · exact h

/-- Every event keeps the invariant, if the source that a loader opens in it increases. -/
theorem step {s : Sys σ} (h : Identified s) {e : Event σ}
    (he : ∀ src ∈ e.opened, Source.Increasing src) : Identified (s.step e).1 := by
  cases e with
  | setSettings env settings error now => exact h.setSettings env settings error now
  | warm env play now => exact h.warm env play now
  | beginFrame => exact h.beginFrame
  | resolve env play now => exact h.resolve env play now
  | endFrame env now => exact h.endFrame env now
  | deliver t opened polls =>
    refine h.send t fun src first hload => goesOn_of_load (fun src hsrc => ?_) hload
    subst hsrc
    exact he src rfl
  | crash t => exact h.send t nofun
  | finish t => exact h.finish t

theorem liveIds_nodup {s : Sys σ} (h : Identified s) : s.liveIds.Nodup := by
  unfold Sys.liveIds
  refine List.Nodup.map_on ?_ ?_
  · intro x hx y hy hid
    have hx' := AList.mem_lookup_iff.mpr hx
    have hy' := AList.mem_lookup_iff.mpr hy
    by_contra hne
    -- one cover a key
    have hkeys : x.1 ≠ y.1 := by
      intro hkey
      obtain ⟨p, c⟩ := x
      obtain ⟨q, d⟩ := y
      cases hkey
      cases hx'.symm.trans hy'
      exact hne rfl
    exact h.id_ne hx' hy' hkeys hid
  · exact List.NodupKeys.nodup s.reg.covers.nodupKeys

theorem init (defaults : Settings) : Identified (Sys.init defaults : Sys σ) :=
  ⟨fun p c hc => absurd hc (by simp [Sys.init]), fun e he => absurd he List.not_mem_nil, trivial,
    nofun⟩

end Identified

/-- The invariant holds in every reachable state. -/
theorem run_identified (defaults : Settings) {es : List (Event σ)}
    (hgen : ∀ e ∈ es, ∀ src ∈ e.opened, Source.Increasing src) :
    Identified (Machine.run Sys.step (Sys.init defaults) es) :=
  Machine.Admits.invariant (P := fun _ e => ∀ src ∈ e.opened, Source.Increasing src)
    (fun _ _ h he => h.step he) (Identified.init defaults) (Machine.admits_of_forall fun _ => hgen)

/-- **`(id, generation)` identifies the picture.**  In every run of the registry with its loader
threads, when the generations of each source that a loader opens increase:

* the ids of live covers are distinct, none of them was ever dropped, and after a cover was dropped
  nothing happens under its id any more;
* an id is bound to one set of playback parameters and gets a source at most once;
* two results of `resolve` with the same id and generation carry the same frame data. -/
theorem id_and_generation_identify_picture (defaults : Settings) (es : List (Event σ))
    (hgen : ∀ e ∈ es, ∀ src ∈ e.opened, Source.Increasing src) :
    let s := Machine.run Sys.step (Sys.init defaults) es
    s.liveIds.Nodup ∧
    (∀ p c, s.reg.covers.lookup p = some c → .started c.id p ∈ s.log ∧ .dropped c.id ∉ s.log) ∧
    (∀ newer older id, s.log = newer ++ .dropped id :: older → ∀ e ∈ newer, e.cover ≠ some id) ∧
    (∀ id p q, .started id p ∈ s.log → .started id q ∈ s.log → p = q) ∧
    (∀ id, s.log.count (.bound id) ≤ 1) ∧
    (∀ v w, some v ∈ Machine.outputs Sys.step (Sys.init defaults) es →
      some w ∈ Machine.outputs Sys.step (Sys.init defaults) es → v.id = w.id →
      v.frame.generation = w.frame.generation → v.frame.data = w.frame.data) := by
  intro s
  have h : Identified s := run_identified defaults hgen
  refine ⟨h.liveIds_nodup, fun p c hc => ⟨(h.covers p c hc).started, (h.covers p c hc).live⟩,
    fun newer older id heq => History.after_dropped (heq ▸ h.history),
    fun id p q => h.history.started_unique, h.history.bound_once, ?_⟩
  intro v w hv hw hid hg
  rw [h.history.viewed_unique (outputs_viewed _ es hv) (outputs_viewed _ es hw) hid hg]

end Sys

/-! ### A source that counts its frames -/

namespace Solid

theorem frames_above (s : Solid) (cs : List SourceCall) :
    (s.count :: (Source.frames s cs).map Frame.generation).Pairwise (· < ·) := by
  induction cs generalizing s with
  | nil => exact List.pairwise_singleton _ _
  | cons c cs ih =>
    cases c with
    | shown => exact ih s
    | poll now =>
      have hcs := ih { count := s.count + 1 }
      rw [List.pairwise_cons]
      refine ⟨?_, hcs⟩
      intro g hg
      rcases List.mem_cons.mp hg with rfl | hg
      · exact Nat.lt_succ_self _
      · exact lt_trans (Nat.lt_succ_self _) ((List.pairwise_cons.mp hcs).1 g hg)

theorem increasing (s : Solid) : Source.Increasing s :=
  fun cs => (List.pairwise_cons.mp (s.frames_above cs)).2

end Solid

/-- A settings change opens the default cover, the loader delivers, and two frames show it. -/
def exampleRun : List (Sys.Event Solid) :=
  [.setSettings exampleEnv exampleSettings none 0, .deliver 0 (.ok { count := 0 }) [0], .finish 0,
    .beginFrame, .resolve exampleEnv exampleSettings.defaultPlay 1, .endFrame exampleEnv 1,
    .beginFrame, .resolve exampleEnv exampleSettings.defaultPlay 2]

theorem Sys.exampleRun_liveIds_nodup :
    (Machine.run Sys.step (Sys.init exampleSettings) exampleRun).liveIds.Nodup :=
  (Sys.id_and_generation_identify_picture exampleSettings exampleRun
    fun _ _ src _ => src.increasing).1

end NoshareCover
