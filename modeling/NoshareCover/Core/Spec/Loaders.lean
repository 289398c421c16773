import NoshareCover.Core.Spec.Registry
import NoshareCover.Lib.Tally
import Mathlib.Algebra.Order.BigOperators.Group.List
import Mathlib.Algebra.Order.Ring.Nat

/-!
# Who owns a loader thread

A thread that was started is owned by the cover it opens or by the list of parked loaders until it
is joined.  `Accounted` counts the owners and the joins against the starts, and every function of
the registry keeps the account; a cover that was taken out of the map is held on the side.  What is
joined, and when, is read off the history: `JoinsOnly` says what held of every thread that a step
joined.
-/

namespace NoshareCover

/-! ### The account -/

/-- How often a loader owns the thread `t`. -/
def Loader.owns (t : ℕ) (l : Loader) : ℕ := if l.worker = some t then 1 else 0

/-- How often a cover owns the thread `t`: only an opening cover owns one. -/
def Cover.owns {σ : Type} (t : ℕ) (c : Cover σ) : ℕ :=
  match c.state with
  | .opening loader _ => loader.owns t
  | _ => 0

/-- How often an entry of the history starts the thread `t`. -/
def Effect.starts (t : ℕ) : Effect → ℕ
  | .spawned thread _ => if thread = t then 1 else 0
  | _ => 0

/-- How often an entry of the history joins the thread `t`. -/
def Effect.joins (t : ℕ) : Effect → ℕ
  | .joined thread _ => if thread = t then 1 else 0
  | _ => 0

namespace Sys

variable {σ : Type}

/-- The covers that own the thread `t`. -/
def opening (s : Sys σ) (t : ℕ) : ℕ := s.reg.covers.tally (Cover.owns t)

/-- The parked loaders that own the thread `t`. -/
def parked (s : Sys σ) (t : ℕ) : ℕ := (s.reg.retired.map (Loader.owns t)).sum

def starts (s : Sys σ) (t : ℕ) : ℕ := (s.log.map (Effect.starts t)).sum

def joins (s : Sys σ) (t : ℕ) : ℕ := (s.log.map (Effect.joins t)).sum

/-- Every thread that was started is held, parked or joined, once for each start, and no number is
given to two threads.  `held` counts the covers, in the map or out of it. -/
structure Accounted (s : Sys σ) (held : ℕ → ℕ) : Prop where
  balance : ∀ t, held t + s.parked t + s.joins t = s.starts t
  once : ∀ t, s.starts t ≤ if t < s.nextThread then 1 else 0

/-- A step that touches no account. -/
theorem Accounted.congr {s u : Sys σ} {held held' : ℕ → ℕ} (h : Accounted s held)
    (hheld : ∀ t, held' t = held t) (hretired : u.reg.retired = s.reg.retired)
    (hlog : ∀ t, u.starts t = s.starts t ∧ u.joins t = s.joins t)
    (hnext : u.nextThread = s.nextThread) : Accounted u held' where
  balance t := by
    have hparked : u.parked t = s.parked t := by unfold parked; rw [hretired]
    rw [hheld, hparked, (hlog t).1, (hlog t).2]
    exact h.balance t
  once t := by
    rw [(hlog t).1, hnext]
    exact h.once t

/-- A new entry of the history that neither starts nor joins a thread. -/
theorem Accounted.note {s : Sys σ} {held : ℕ → ℕ} (h : Accounted s held) (e : Effect)
    (he : ∀ t, e.starts t = 0 ∧ e.joins t = 0) : Accounted { s with log := e :: s.log } held := by
  refine h.congr (fun _ => rfl) rfl (fun t => ?_) rfl
  unfold starts joins
  simp [he t]

theorem dropLoader_accounted {s : Sys σ} {held : ℕ → ℕ} {l : Loader}
    (h : Accounted s fun t => held t + l.owns t) : Accounted (s.dropLoader l) held := by
  unfold dropLoader
  -- a loader without a thread has nothing to join
  cases hw : l.worker with
  | none =>
    refine h.congr (fun t => ?_) rfl (fun _ => ⟨rfl, rfl⟩) rfl
    simp [Loader.owns, hw]
  | some thread =>
    constructor
    · intro t
      have hb := h.balance t
      -- the thread goes from the loader to the joined ones
      have hjoins : Effect.joins t (.joined thread (s.threads thread).done) = l.owns t := by
        simp [Effect.joins, Loader.owns, hw]
      show held t + s.parked t + (_ + s.joins t) = 0 + s.starts t
      rw [hjoins]
      omega
    · intro t
      have ho := h.once t
      show 0 + s.starts t ≤ _
      rw [Nat.zero_add]
      exact ho

theorem spawn_accounted {s : Sys σ} {held : ℕ → ℕ} (h : Accounted s held) (play : PlayParams)
    (settings : Settings) (canSpawn : Bool) (id : ℕ) :
    Accounted (s.spawn play settings canSpawn id).2
      fun t => held t + (s.spawn play settings canSpawn id).1.owns t := by
  cases canSpawn with
  -- no thread could start
  | false =>
    constructor
    · intro t
      exact h.balance t
    · intro t
      have ho := h.once t
      show s.starts t ≤ if t < s.nextThread + 1 then 1 else 0
      split_ifs at ho ⊢ <;> omega
  | true =>
    -- the new thread is the loader's
    have hown : ∀ t, (s.spawn play settings true id).1.owns t =
        Effect.starts t (.spawned s.nextThread id) := by
      intro t
      simp [spawn, Loader.owns, Effect.starts]
    constructor
    · intro t
      have hb := h.balance t
      rw [hown]
      show held t + _ + s.parked t + (0 + s.joins t) = _ + s.starts t
      omega
    · -- the number is new: nothing was started under it before
      intro t
      have ho := h.once t
      show (if s.nextThread = t then 1 else 0) + s.starts t ≤ if t < s.nextThread + 1 then 1 else 0
      split_ifs at ho ⊢ <;> omega

/-- Parking a loader moves its share to the list. -/
theorem park_accounted {s : Sys σ} {held : ℕ → ℕ} {l : Loader}
    (h : Accounted s fun t => held t + l.owns t) :
    Accounted { s with reg := { s.reg with retired := s.reg.retired ++ [l] } } held := by
  refine ⟨fun t => ?_, h.once⟩
  have hb := h.balance t
  have hparked : parked { s with reg := { s.reg with retired := s.reg.retired ++ [l] } } t =
      s.parked t + l.owns t := by
    simp [parked]
  rw [hparked]
  show held t + (s.parked t + l.owns t) + s.joins t = s.starts t
  omega

theorem retire_accounted {s : Sys σ} {held : ℕ → ℕ} {c : Cover σ}
    (h : Accounted s fun t => held t + c.owns t) : Accounted (s.retire c) held := by
  have h' := h.note (.dropped c.id) fun _ => ⟨rfl, rfl⟩
  unfold retire
  cases hs : c.state with
  | opening loader retry =>
    have howns : ∀ t, c.owns t = loader.owns t := fun t => by simp [Cover.owns, hs]
    simp only [howns] at h'
    dsimp only
    split_ifs
    · exact dropLoader_accounted h'
    · exact park_accounted (l := { loader with cancelled := true }) h'
  | ready src => exact h'.congr (fun t => by simp [Cover.owns, hs]) rfl (fun _ => ⟨rfl, rfl⟩) rfl
  | missing t => exact h'.congr (fun t => by simp [Cover.owns, hs]) rfl (fun _ => ⟨rfl, rfl⟩) rfl
  | failed => exact h'.congr (fun t => by simp [Cover.owns, hs]) rfl (fun _ => ⟨rfl, rfl⟩) rfl

theorem dropLoaders_accounted {s : Sys σ} {held : ℕ → ℕ} {ls : List Loader}
    (h : Accounted s fun t => held t + (ls.map (Loader.owns t)).sum) :
    Accounted (ls.foldl dropLoader s) held := by
  induction ls generalizing s with
  | nil => exact h.congr (fun _ => rfl) rfl (fun _ => ⟨rfl, rfl⟩) rfl
  | cons l ls ih =>
    refine ih (dropLoader_accounted (h.congr (fun t => ?_) rfl (fun _ => ⟨rfl, rfl⟩) rfl))
    rw [List.map_cons, List.sum_cons]
    omega

/-! ### Functions that work on one cover

`others` stands for the covers that stay in the map. -/

theorem tryRecv_accounted {s : Sys σ} {held : ℕ → ℕ} (h : Accounted s held) (l : Loader) :
    Accounted (s.tryRecv l).2 held := by
  unfold tryRecv
  cases (s.threads l.rx).sent with
  | none => exact h
  | some r => exact h.congr (fun _ => rfl) rfl (fun _ => ⟨rfl, rfl⟩) rfl

theorem notify_accounted {s : Sys σ} {held : ℕ → ℕ} (h : Accounted s held) (msg : String) :
    Accounted (s.notify msg) held :=
  h.congr (fun _ => rfl) rfl (fun _ => ⟨rfl, rfl⟩) rfl

theorem retryMissing_accounted {s : Sys σ} {others : ℕ → ℕ} {c : Cover σ}
    (h : Accounted s fun t => others t + c.owns t) (env : Env) (play : PlayParams)
    (now : Instant) :
    Accounted (s.retryMissing env play now c).2
      fun t => others t + (s.retryMissing env play now c).1.owns t := by
  unfold retryMissing
  cases hs : c.state with
  -- a missing cover has no loader yet
  | missing retryAt =>
    have h' : Accounted s others := h.congr (fun t => by simp [Cover.owns, hs]) rfl
      (fun _ => ⟨rfl, rfl⟩) rfl
    have hprobed : Accounted (s.probe env c.id) others := h'.note _ fun _ => ⟨rfl, rfl⟩
    dsimp only
    split_ifs
    · exact spawn_accounted hprobed play _ env.canSpawn c.id
    · exact hprobed
    · exact h
  | opening loader retry => exact h
  | ready src => exact h
  | failed => exact h

variable [Source σ]

theorem pickUp_accounted {s : Sys σ} {others : ℕ → ℕ} {c : Cover σ}
    (h : Accounted s fun t => others t + c.owns t) (now : Instant) :
    Accounted (s.pickUp now c).2 fun t => others t + (s.pickUp now c).1.owns t := by
  unfold pickUp
  cases hs : c.state with
  | opening loader retry =>
    have howns : ∀ t, c.owns t = loader.owns t := fun t => by simp [Cover.owns, hs]
    have hrecv := tryRecv_accounted h loader
    dsimp only
    rcases hr : s.tryRecv loader with ⟨r, u⟩
    simp only [hr, howns] at hrecv
    -- in every case but the first the loader leaves the cover and is dropped
    rcases r with _ | _ | (e | ⟨src, frame⟩)
    · simpa only [howns] using hrecv
    · exact dropLoader_accounted (notify_accounted hrecv _)
    · cases e with
      | missing p =>
        cases retry with
        | true => exact dropLoader_accounted hrecv
        | false => exact dropLoader_accounted (notify_accounted hrecv _)
      | unknownFormat ext => exact dropLoader_accounted (notify_accounted hrecv _)
      | «open» path reason => exact dropLoader_accounted (notify_accounted hrecv _)
      | video path reason => exact dropLoader_accounted (notify_accounted hrecv _)
    · exact dropLoader_accounted (hrecv.note (.bound c.id) fun _ => ⟨rfl, rfl⟩)
  | ready src => exact h
  | missing t => exact h
  | failed => exact h

theorem pollReady_accounted {s : Sys σ} {others : ℕ → ℕ} {c : Cover σ}
    (h : Accounted s fun t => others t + c.owns t) (now : Instant) :
    Accounted (s.pollReady now c).2 fun t => others t + (s.pollReady now c).1.owns t := by
  unfold pollReady
  cases hs : c.state with
  -- nor has one that is ready
  | ready src =>
    have h' : Accounted s others := h.congr (fun t => by simp [Cover.owns, hs]) rfl
      (fun _ => ⟨rfl, rfl⟩) rfl
    have hpolled := h'.note (.polled c.id) fun _ => ⟨rfl, rfl⟩
    dsimp only
    split_ifs
    · rcases hp : Source.poll src now with ⟨e | _ | f, src'⟩
      · exact notify_accounted hpolled _
      · exact hpolled
      · exact hpolled
    · exact h
  | opening loader retry => exact h
  | missing t => exact h
  | failed => exact h

/-! ### The map of covers -/

omit [Source σ] in
/-- A cover that goes into the map where there was none. -/
theorem setCover_new_accounted {s : Sys σ} {play : PlayParams} {c : Cover σ}
    (hnew : play ∉ s.reg.covers) (h : Accounted s fun t => s.opening t + c.owns t) :
    Accounted (s.setCover play c) (s.setCover play c).opening :=
  h.congr (fun _ => AList.tally_insert_of_notMem hnew c) rfl (fun _ => ⟨rfl, rfl⟩) rfl

omit [Source σ] in
theorem start_accounted {s : Sys σ} (h : Accounted s s.opening) {play : PlayParams}
    (hnew : play ∉ s.reg.covers) (settings : Settings) (now : Instant) (canSpawn : Bool) :
    Accounted (s.start play settings now canSpawn) (s.start play settings now canSpawn).opening := by
  let s₁ : Sys σ := { s with
    reg := { s.reg with nextId := s.reg.nextId + 1 }, log := .started s.reg.nextId play :: s.log }
  have h₁ : Accounted s₁ s₁.opening :=
    h.congr (fun _ => rfl) rfl (fun _ => ⟨Nat.zero_add _, Nat.zero_add _⟩) rfl
  exact setCover_new_accounted (s := (s₁.spawn play settings canSpawn s.reg.nextId).2) hnew
    (spawn_accounted h₁ play settings canSpawn s.reg.nextId)

omit [Source σ] in
theorem warm_accounted {s : Sys σ} (h : Accounted s s.opening) (env : Env) (play : PlayParams)
    (now : Instant) : Accounted (s.warm env play now) (s.warm env play now).opening := by
  unfold warm
  split_ifs with hskip
  · exact h
  · exact start_accounted h (fun hmem => hskip (Or.inr hmem)) _ now _

omit [Source σ] in
theorem ensure_accounted {s : Sys σ} (h : Accounted s s.opening) (env : Env) (play : PlayParams)
    (now : Instant) : Accounted (s.ensure env play now) (s.ensure env play now).opening := by
  unfold ensure
  split_ifs with hmem
  · exact h
  · exact start_accounted h hmem _ now _

theorem advance_accounted {s : Sys σ} {others : ℕ → ℕ} {c : Cover σ}
    (h : Accounted s fun t => others t + c.owns t) (env : Env) (play : PlayParams)
    (now : Instant) :
    Accounted (s.advance env play now c).2
      fun t => others t + (s.advance env play now c).1.owns t := by
  have hused : Accounted s fun t => others t + { c with lastUsed := now }.owns t := h
  exact pollReady_accounted (pickUp_accounted (retryMissing_accounted hused env play now) now) now

omit [Source σ] in
theorem present_accounted {s : Sys σ} {play : PlayParams} {c : Cover σ}
    (h : Accounted s fun t => (s.reg.covers.erase play).tally (Cover.owns t) + c.owns t) :
    Accounted (s.present play c).1 (s.present play c).1.opening := by
  have hput : Accounted (s.setCover play c) (s.setCover play c).opening :=
    h.congr (fun t => AList.tally_insert c) rfl (fun _ => ⟨rfl, rfl⟩) rfl
  unfold present
  cases c.current with
  | none => exact hput
  | some f => exact hput.note (.viewed _) fun _ => ⟨rfl, rfl⟩

theorem resolve_accounted {s : Sys σ} (h : Accounted s s.opening) (env : Env) (play : PlayParams)
    (now : Instant) :
    Accounted (s.resolve env play now).1 (s.resolve env play now).1.opening := by
  by_cases hpath : play.path = ""
  · unfold resolve
    rwa [if_pos hpath]
  obtain ⟨c, hc, hresolve⟩ := s.resolve_eq env now hpath
  rw [hresolve]
  -- the cover is taken out of the map, moved, and put back
  apply present_accounted
  rw [(advance_sameReg _ env play now c).covers]
  exact advance_accounted ((ensure_accounted h env play now).congr
    (fun t => AList.tally_erase (f := Cover.owns t) hc) rfl (fun _ => ⟨rfl, rfl⟩) rfl) env play now

omit [Source σ] in
theorem removeCover_accounted {s : Sys σ} (h : Accounted s s.opening) (play : PlayParams) :
    Accounted (s.removeCover play) (s.removeCover play).opening := by
  unfold removeCover
  cases hc : s.reg.covers.lookup play with
  | none => exact h
  | some c =>
    let s₁ : Sys σ := { s with reg := { s.reg with covers := s.reg.covers.erase play } }
    have h₁ : Accounted s₁ fun t => s₁.opening t + c.owns t :=
      h.congr (fun t => AList.tally_erase (f := Cover.owns t) hc) rfl (fun _ => ⟨rfl, rfl⟩) rfl
    have hkeep : (s₁.retire c).reg.covers = s₁.reg.covers := (s₁.retire_behind c).reg.covers
    refine (retire_accounted h₁).congr (fun t => ?_) rfl (fun _ => ⟨rfl, rfl⟩) rfl
    show (s₁.retire c).reg.covers.tally _ = s₁.reg.covers.tally _
    rw [hkeep]

omit [Source σ] in
theorem removeCovers_accounted {s : Sys σ} (h : Accounted s s.opening) (plays : List PlayParams) :
    Accounted (plays.foldl removeCover s) (plays.foldl removeCover s).opening := by
  induction plays generalizing s with
  | nil => exact h
  | cons p ps ih => exact ih (removeCover_accounted h p)

omit [Source σ] in
theorem reap_accounted {s : Sys σ} (h : Accounted s s.opening) :
    Accounted s.reap s.reap.opening := by
  let s₁ : Sys σ := { s with reg := { s.reg with retired := s.reg.retired.filter (!s.finished ·) } }
  -- the finished loaders and the others together are all that were parked
  have hsplit : ∀ t, ((s.reg.retired.filter s.finished).map (Loader.owns t)).sum + s₁.parked t =
      s.parked t := by
    intro t
    have hperm := List.filter_append_perm s.finished s.reg.retired
    have hsum := (hperm.map (Loader.owns t)).sum_nat
    rw [List.map_append, List.sum_append] at hsum
    exact hsum
  have h₁ : Accounted s₁ fun t =>
      s.opening t + ((s.reg.retired.filter s.finished).map (Loader.owns t)).sum := by
    refine ⟨fun t => ?_, h.once⟩
    have hb := h.balance t
    have ht := hsplit t
    show _ + _ + s₁.parked t + s.joins t = s.starts t
    omega
  refine (dropLoaders_accounted h₁).congr (fun t => ?_) rfl (fun _ => ⟨rfl, rfl⟩) rfl
  show s.reap.reg.covers.tally _ = s.reg.covers.tally _
  rw [s.reap_behind.reg.covers]

omit [Source σ] in
theorem beginFrame_accounted {s : Sys σ} (h : Accounted s s.opening) :
    Accounted s.beginFrame s.beginFrame.opening :=
  reap_accounted (h.congr (fun _ => rfl) rfl (fun _ => ⟨rfl, rfl⟩) rfl)

omit [Source σ] in
theorem setSettings_accounted {s : Sys σ} (h : Accounted s s.opening) (env : Env)
    (settings : Settings) (error : Option ConfigError) (now : Instant) :
    Accounted (s.setSettings env settings error now)
      (s.setSettings env settings error now).opening := by
  unfold setSettings
  split_ifs
  · exact h
  · have hreset : Accounted (s.reset settings error) (s.reset settings error).opening :=
      (removeCovers_accounted h s.reg.covers.keys).congr (fun _ => rfl) rfl
        (fun _ => ⟨rfl, rfl⟩) rfl
    unfold prewarm
    dsimp only
    split_ifs
    · exact hreset
    · exact warm_accounted hreset env _ now

omit [Source σ] in
theorem send_accounted {s : Sys σ} (h : Accounted s s.opening) (t : ℕ) (r : Loaded σ) :
    Accounted (s.send t r) (s.send t r).opening := by
  unfold send
  split_ifs
  · exact h
  · exact h.congr (fun _ => rfl) rfl (fun _ => ⟨rfl, rfl⟩) rfl

omit [Source σ] in
theorem finish_accounted {s : Sys σ} (h : Accounted s s.opening) (t : ℕ) :
    Accounted (s.finish t) (s.finish t).opening := by
  unfold finish
  split_ifs
  · exact h.congr (fun _ => rfl) rfl (fun _ => ⟨rfl, rfl⟩) rfl
  · exact h

theorem step_accounted {s : Sys σ} (h : Accounted s s.opening) (e : Event σ) :
    Accounted (s.step e).1 (s.step e).1.opening := by
  cases e with
  | setSettings env settings error now => exact setSettings_accounted h env settings error now
  | warm env play now => exact warm_accounted h env play now
  | beginFrame => exact beginFrame_accounted h
  | resolve env play now => exact resolve_accounted h env play now
  | endFrame env now => exact removeCovers_accounted h _
  | deliver t opened polls => exact send_accounted h t _
  | crash t => exact send_accounted h t _
  | finish t => exact finish_accounted h t

theorem run_accounted (defaults : Settings) (es : List (Event σ)) :
    Accounted (Machine.run step (init defaults) es)
      (Machine.run step (init defaults) es).opening := by
  have hinit : Accounted (init defaults : Sys σ) (init defaults : Sys σ).opening :=
    ⟨fun _ => rfl, fun _ => Nat.zero_le _⟩
  exact Machine.invariant (I := fun s => Accounted s s.opening)
    (fun _ e h => step_accounted h e) hinit es

/-! ### Unloading -/

omit [Source σ] in
theorem dropLoaders_reg (s : Sys σ) (ls : List Loader) : (ls.foldl dropLoader s).reg = s.reg := by
  induction ls generalizing s with
  | nil => rfl
  | cons l ls ih => rw [List.foldl_cons, ih, dropLoader_reg]

omit [Source σ] in
/-- The loaders of the covers of a map own what the covers own. -/
theorem sum_opening_owns (t : ℕ) (es : List (Sigma fun _ : PlayParams => Cover σ)) :
    ((es.filterMap (·.2.loader)).map (Loader.owns t)).sum = (es.map fun e => e.2.owns t).sum := by
  induction es with
  | nil => rfl
  | cons e es ih =>
    rw [List.map_cons, List.sum_cons, List.filterMap_cons, ← ih]
    cases hs : e.2.state with
    | opening loader retry => simp [Cover.owns, Cover.loader, hs]
    | _ => simp [Cover.owns, Cover.loader, hs]

omit [Source σ] in
theorem dropLoaders_starts (s : Sys σ) (ls : List Loader) (t : ℕ) :
    (ls.foldl dropLoader s).starts t = s.starts t := by
  induction ls generalizing s with
  | nil => rfl
  | cons l ls ih =>
    rw [List.foldl_cons, ih]
    unfold dropLoader
    cases l.worker with
    | none => rfl
    | some thread => exact Nat.zero_add _

omit [Source σ] in
/-- Once the registry is gone, every thread that was started has been joined. -/
theorem unload_joins {s : Sys σ} (h : Accounted s s.opening) (t : ℕ) :
    s.unload.joins t = s.starts t := by
  let s₁ : Sys σ := { s with reg := { s.reg with covers := ∅, retired := [] } }
  have h₁ : Accounted s.unload fun _ => 0 := by
    -- covers and parked loaders are all on the side now
    refine dropLoaders_accounted (s := s₁) ⟨fun t => ?_, h.once⟩
    have hb := h.balance t
    have hopening := sum_opening_owns t s.reg.covers.entries
    have hparked : s₁.parked t = 0 := rfl
    rw [hparked, List.map_append, List.sum_append, hopening]
    show 0 + (s.opening t + s.parked t) + 0 + s.joins t = s.starts t
    omega
  have hnone : s.unload.parked t = 0 := by
    unfold parked unload
    rw [dropLoaders_reg]
    rfl
  have hstarts : s.unload.starts t = s.starts t := dropLoaders_starts s₁ _ t
  have hb := h₁.balance t
  omega

/-! ### What a step joins -/

/-- Every thread joined between `s` and `u` met `P`. -/
def JoinsOnly (s u : Sys σ) (P : ℕ → Prop) : Prop :=
  ∃ es, u.log = es ++ s.log ∧ ∀ t done, .joined t done ∈ es → P t

section Joins

variable {s u v : Sys σ} {P Q : ℕ → Prop}

omit [Source σ]

theorem JoinsOnly.of_log (h : u.log = s.log) : JoinsOnly s u P :=
  ⟨[], h, fun _ _ he => absurd he List.not_mem_nil⟩

theorem JoinsOnly.trans (h : JoinsOnly s u P) (h' : JoinsOnly u v P) : JoinsOnly s v P := by
  obtain ⟨es, hes, hP⟩ := h
  obtain ⟨fs, hfs, hP'⟩ := h'
  refine ⟨fs ++ es, by rw [hfs, hes, List.append_assoc], fun t done he => ?_⟩
  rcases List.mem_append.mp he with he | he
  · exact hP' t done he
  · exact hP t done he

theorem JoinsOnly.mono (h : JoinsOnly s u P) (hPQ : ∀ t, P t → Q t) : JoinsOnly s u Q := by
  obtain ⟨es, hes, hP⟩ := h
  exact ⟨es, hes, fun t done he => hPQ t (hP t done he)⟩

/-- One more entry of the history. -/
theorem JoinsOnly.note (h : u.log = s.log) (e : Effect) (he : ∀ t done, e ≠ .joined t done) :
    JoinsOnly s { u with log := e :: u.log } P := by
  refine ⟨[e], by rw [h]; rfl, fun t done hmem => ?_⟩
  exact absurd (List.mem_singleton.mp hmem).symm (he t done)

theorem dropLoader_joins (s : Sys σ) (l : Loader) :
    JoinsOnly s (s.dropLoader l) fun t => l.worker = some t := by
  unfold dropLoader
  cases hw : l.worker with
  | none => exact .of_log rfl
  | some thread =>
    refine ⟨[.joined thread (s.threads thread).done], rfl, fun t done hmem => ?_⟩
    cases List.mem_singleton.mp hmem
    rfl

theorem spawn_joins (s : Sys σ) (play : PlayParams) (settings : Settings) (canSpawn : Bool)
    (id : ℕ) : JoinsOnly s (s.spawn play settings canSpawn id).2 P := by
  cases canSpawn with
  | false => exact .of_log rfl
  | true => exact .note (u := s) rfl (.spawned s.nextThread id) nofun

theorem start_joins (s : Sys σ) (play : PlayParams) (settings : Settings) (now : Instant)
    (canSpawn : Bool) : JoinsOnly s (s.start play settings now canSpawn) P := by
  have hstarted : JoinsOnly (P := P) s { s with
      reg := { s.reg with nextId := s.reg.nextId + 1 },
      log := .started s.reg.nextId play :: s.log } :=
    .note (u := { s with reg := { s.reg with nextId := s.reg.nextId + 1 } }) rfl _ nofun
  exact hstarted.trans (spawn_joins _ play settings canSpawn s.reg.nextId)

theorem warm_joins (s : Sys σ) (env : Env) (play : PlayParams) (now : Instant) :
    JoinsOnly s (s.warm env play now) P := by
  unfold warm
  split_ifs
  · exact .of_log rfl
  · exact start_joins s play _ now _

/-- A loader that is finished is joined without waiting; the flags of the threads stay. -/
structure JoinsDone (s u : Sys σ) : Prop where
  joins : JoinsOnly s u fun t => (s.threads t).done = true
  flags : ∀ t, (u.threads t).done = (s.threads t).done

theorem JoinsDone.trans (h : JoinsDone s u) (h' : JoinsDone u v) : JoinsDone s v where
  joins := h.joins.trans (h'.joins.mono fun t ht => by rwa [h.flags] at ht)
  flags t := (h'.flags t).trans (h.flags t)

theorem dropLoader_done {s : Sys σ} {l : Loader} (h : s.finished l = true) :
    JoinsDone s (s.dropLoader l) where
  joins := by
    refine (s.dropLoader_joins l).mono fun t ht => ?_
    unfold finished at h
    rwa [ht, Option.all_some] at h
  flags t := by
    unfold dropLoader
    cases l.worker with
    | none => rfl
    | some thread =>
      show (Function.update s.threads thread _ t).done = _
      by_cases ht : t = thread
      · rw [ht, Function.update_self]
      · rw [Function.update_of_ne ht]

theorem retire_done (s : Sys σ) (c : Cover σ) : JoinsDone s (s.retire c) := by
  have hdropped : JoinsDone s { s with log := .dropped c.id :: s.log } :=
    ⟨.note (u := s) rfl _ nofun, fun _ => rfl⟩
  unfold retire
  cases c.state with
  | opening loader retry =>
    dsimp only
    split_ifs with hfin
    · exact hdropped.trans (dropLoader_done hfin)
    · exact ⟨.note (u := { s with reg := { s.reg with
        retired := s.reg.retired ++ [{ loader with cancelled := true }] } }) rfl _ nofun,
        fun _ => rfl⟩
  | _ => exact hdropped

theorem removeCovers_done (s : Sys σ) (plays : List PlayParams) :
    JoinsDone s (plays.foldl removeCover s) := by
  induction plays generalizing s with
  | nil => exact ⟨.of_log rfl, fun _ => rfl⟩
  | cons p ps ih =>
    refine JoinsDone.trans ?_ (ih _)
    unfold removeCover
    cases s.reg.covers.lookup p with
    | none => exact ⟨.of_log rfl, fun _ => rfl⟩
    | some c =>
      have h := retire_done { s with reg := { s.reg with covers := s.reg.covers.erase p } } c
      exact ⟨h.joins, h.flags⟩

/-- Loaders that are finished when the first of them is dropped stay so. -/
theorem dropLoaders_done (ls : List Loader) {s : Sys σ} (h : ∀ l ∈ ls, s.finished l = true) :
    JoinsDone s (ls.foldl dropLoader s) := by
  induction ls generalizing s with
  | nil => exact ⟨.of_log rfl, fun _ => rfl⟩
  | cons l ls ih =>
    have hl := dropLoader_done (h l (List.mem_cons_self ..))
    refine hl.trans (ih fun l' hl' => ?_)
    have hfin := h l' (List.mem_cons_of_mem _ hl')
    -- joining one thread sets no flag of another
    unfold finished at hfin ⊢
    simpa only [hl.flags] using hfin

theorem reap_done (s : Sys σ) : JoinsDone s s.reap := by
  have h := dropLoaders_done (s.reg.retired.filter s.finished)
    (s := { s with reg := { s.reg with retired := s.reg.retired.filter (!s.finished ·) } })
    fun l hl => (List.mem_filter.mp hl).2
  exact ⟨h.joins, h.flags⟩

theorem setSettings_joins (s : Sys σ) (env : Env) (settings : Settings)
    (error : Option ConfigError) (now : Instant) :
    JoinsOnly s (s.setSettings env settings error now) fun t => (s.threads t).done = true := by
  unfold setSettings
  split_ifs
  · exact .of_log rfl
  · have hreset := (s.removeCovers_done s.reg.covers.keys).joins
    refine JoinsOnly.trans (u := s.reset settings error) hreset ?_
    unfold prewarm
    dsimp only
    split_ifs
    · exact .of_log rfl
    · exact warm_joins _ env _ now

end Joins

/-! ### What `resolve` drops -/

/-- The result of the loader is in the channel, or the channel is closed. -/
def Answered (s : Sys σ) (l : Loader) : Prop :=
  (s.threads l.rx).sent.isSome ∨ (s.threads l.rx).closed

omit [Source σ] in
/-- A loader that was just spawned on a thread has not answered. -/
theorem spawn_not_answered (s : Sys σ) (play : PlayParams) (settings : Settings)
    {canSpawn : Bool} (id : ℕ) {t : ℕ}
    (h : (s.spawn play settings canSpawn id).1.worker = some t) :
    ¬ (s.spawn play settings canSpawn id).2.Answered (s.spawn play settings canSpawn id).1 := by
  cases canSpawn with
  | false => cases h
  | true => simp [spawn, Answered, setThread]

/-- The threads `resolve` may join for a cover: the one of its loader, once the loader has
answered. -/
def Due (s : Sys σ) (c : Cover σ) (t : ℕ) : Prop :=
  ∃ l, c.loader = some l ∧ l.worker = some t ∧ s.Answered l

theorem pickUp_joins (s : Sys σ) (now : Instant) (c : Cover σ) :
    JoinsOnly s (s.pickUp now c).2 (s.Due c) := by
  unfold pickUp
  cases hs : c.state with
  | opening loader retry =>
    have hl : c.loader = some loader := by simp [Cover.loader, hs]
    -- the loader is dropped once it has answered
    have hdrop : ∀ u : Sys σ, s.Answered loader → u.log = s.log →
        JoinsOnly s (u.dropLoader loader) (s.Due c) := fun u ha hu =>
      (JoinsOnly.of_log hu).trans
        ((u.dropLoader_joins loader).mono fun t ht => ⟨loader, hl, ht, ha⟩)
    dsimp only
    unfold tryRecv
    -- nothing sent, an error, or the source
    cases hsent : (s.threads loader.rx).sent with
    | none =>
      by_cases hclosed : (s.threads loader.rx).closed = true
      · rw [if_pos hclosed]
        exact hdrop (s.notify _) (Or.inr hclosed) rfl
      · rw [if_neg hclosed]
        exact .of_log rfl
    | some r =>
      have ha : s.Answered loader := Or.inl (by rw [hsent]; rfl)
      rcases r with e | ⟨src, frame⟩
      · cases e with
        | missing p =>
          cases retry with
          | true => exact hdrop _ ha rfl
          | false => exact hdrop (notify _ _) ha rfl
        | unknownFormat ext => exact hdrop (notify _ _) ha rfl
        | «open» path reason => exact hdrop (notify _ _) ha rfl
        | video path reason => exact hdrop (notify _ _) ha rfl
      · refine JoinsOnly.trans (.note (u := s.setThread loader.rx
          { s.threads loader.rx with sent := none }) rfl (.bound c.id) nofun) ?_
        exact (dropLoader_joins _ loader).mono fun t ht => ⟨loader, hl, ht, ha⟩
  | ready src => exact .of_log rfl
  | missing t => exact .of_log rfl
  | failed => exact .of_log rfl

/-- A loader stays with its cover until it has answered. -/
theorem pickUp_keeps (s : Sys σ) (now : Instant) (c : Cover σ) {l : Loader}
    (hl : c.loader = some l) : s.Answered l ∨ (s.pickUp now c).1.loader = some l := by
  by_cases ha : s.Answered l
  · exact Or.inl ha
  right
  -- no answer: the channel is empty and open
  have hsent : (s.threads l.rx).sent = none := by
    by_contra h
    exact ha (Or.inl (Option.isSome_iff_ne_none.mpr h))
  have hopen : (s.threads l.rx).closed = false := by
    by_contra h
    exact ha (Or.inr (Bool.not_eq_false _ ▸ h))
  unfold pickUp
  cases hs : c.state with
  | opening loader retry =>
    obtain rfl : loader = l := by simpa [Cover.loader, hs] using hl
    -- `try_recv` finds the channel empty
    simp [tryRecv, hsent, hopen, Cover.loader, hs]
  | _ => exact hl

omit [Source σ] in
theorem retryMissing_joins (s : Sys σ) (env : Env) (play : PlayParams) (now : Instant)
    (c : Cover σ) {P : ℕ → Prop} : JoinsOnly s (s.retryMissing env play now c).2 P := by
  unfold retryMissing
  cases c.state with
  | missing retryAt =>
    have hprobed : JoinsOnly s (s.probe env c.id) P := .note (u := s) rfl _ nofun
    dsimp only
    split_ifs
    · exact hprobed.trans (spawn_joins _ play _ _ c.id)
    · exact hprobed
    · exact .of_log rfl
  | _ => exact .of_log rfl

omit [Source σ] in
/-- A loader that was spawned to reopen a file has nothing due. -/
theorem retryMissing_due (s : Sys σ) (env : Env) (play : PlayParams) (now : Instant)
    (c : Cover σ) {t : ℕ}
    (h : (s.retryMissing env play now c).2.Due (s.retryMissing env play now c).1 t) :
    s.Due c t := by
  unfold retryMissing at h
  cases hs : c.state with
  | missing retryAt =>
    simp only [hs] at h
    -- the new thread cannot have answered yet
    split_ifs at h
    · obtain ⟨l, hl, hw, ha⟩ := h
      cases hl
      exact absurd ha (spawn_not_answered _ play _ c.id hw)
    · obtain ⟨l, hl, -, -⟩ := h
      cases hl
    · exact h
  | opening loader retry => simpa only [hs] using h
  | ready src => simpa only [hs] using h
  | failed => simpa only [hs] using h

theorem pollReady_joins (s : Sys σ) (now : Instant) (c : Cover σ) {P : ℕ → Prop} :
    JoinsOnly s (s.pollReady now c).2 P := by
  unfold pollReady
  cases c.state with
  | ready src =>
    have hpolled : JoinsOnly s { s with log := .polled c.id :: s.log } P :=
      .note (u := s) rfl _ nofun
    dsimp only
    split_ifs
    · rcases hp : Source.poll src now with ⟨e | _ | f, src'⟩ <;> exact hpolled
    · exact .of_log rfl
  | _ => exact .of_log rfl

theorem advance_joins (s : Sys σ) (env : Env) (play : PlayParams) (now : Instant) (c : Cover σ) :
    JoinsOnly s (s.advance env play now c).2 (s.Due c) := by
  let used : Cover σ := { c with lastUsed := now }
  have hpicked : JoinsOnly s ((s.retryMissing env play now used).2.pickUp now
      (s.retryMissing env play now used).1).2 (s.Due used) :=
    (retryMissing_joins s env play now used).trans
      ((pickUp_joins _ now _).mono fun t ht => retryMissing_due s env play now used ht)
  exact hpicked.trans (pollReady_joins _ now _)

/-- The loader of a cover stays with it through the whole of `resolve` until it has answered. -/
theorem advance_keeps (s : Sys σ) (env : Env) (play : PlayParams) (now : Instant) (c : Cover σ)
    {l : Loader} (hl : c.loader = some l) :
    s.Answered l ∨ (s.advance env play now c).1.loader = some l := by
  obtain ⟨retry, hs⟩ : ∃ retry, c.state = .opening l retry := by
    unfold Cover.loader at hl
    cases hs : c.state with
    | opening loader retry => exact ⟨retry, by simpa [hs] using hl⟩
    | _ => simp [hs] at hl
  -- the file is not missing, so nothing is reopened
  have hreopened : s.retryMissing env play now { c with lastUsed := now } =
      ({ c with lastUsed := now }, s) := by
    unfold retryMissing
    simp [hs]
  unfold advance
  dsimp only
  rw [hreopened]
  have hused : ({ c with lastUsed := now } : Cover σ).loader = some l := hl
  refine (pickUp_keeps s now _ hused).imp_right fun hkept => ?_
  unfold pollReady
  unfold Cover.loader at hkept ⊢
  cases hs' : (s.pickUp now { c with lastUsed := now }).1.state with
  | opening loader retry => simpa [hs'] using hkept
  | _ => simp [hs'] at hkept

theorem resolve_joins (s : Sys σ) (env : Env) (play : PlayParams) (now : Instant) :
    JoinsOnly s (s.resolve env play now).1 fun t =>
      ∃ c, s.reg.covers.lookup play = some c ∧ s.Due c t := by
  by_cases hpath : play.path = ""
  · unfold resolve
    rw [if_pos hpath]
    exact .of_log rfl
  -- the steps of `resolve` one by one
  obtain ⟨c, hc, hresolve⟩ := s.resolve_eq env now hpath
  rw [hresolve]
  have hpresent : ∀ (u : Sys σ) (d : Cover σ) (P : ℕ → Prop), JoinsOnly u (u.present play d).1 P := by
    intro u d P
    unfold present
    cases d.current with
    | none => exact .of_log rfl
    | some f => exact .note (u := u.setCover play d) rfl _ nofun
  unfold ensure at hc ⊢
  split_ifs at hc ⊢ with hmem
  · exact ((advance_joins s env play now c).mono fun t ht => ⟨c, hc, ht⟩).trans (hpresent _ _ _)
  · -- a cover that has just been created has nothing due
    refine (start_joins s play (s.settings env) now env.canSpawn).trans
      (((advance_joins _ env play now c).mono fun t ht => ?_).trans (hpresent _ _ _))
    obtain ⟨l, hl, hw, ha⟩ := ht
    rw [start, setCover_lookup_self] at hc
    cases hc
    cases hl
    exact absurd ha (spawn_not_answered _ play _ _ hw)

/-- **The cover keeps its loader** in `resolve` until the loader has answered; other covers are not
touched. -/
theorem resolve_keeps (s : Sys σ) (env : Env) (play : PlayParams) (now : Instant)
    {q : PlayParams} {c : Cover σ} (hc : s.reg.covers.lookup q = some c) {l : Loader}
    (hl : c.loader = some l) :
    (q = play ∧ s.Answered l) ∨
      ∃ d, (s.resolve env play now).1.reg.covers.lookup q = some d ∧ d.loader = some l := by
  by_cases hpath : play.path = ""
  · right
    unfold resolve
    rw [if_pos hpath]
    exact ⟨c, hc, hl⟩
  -- the loader stays with its cover, unless this call binds it
  obtain ⟨c', hc', hresolve⟩ := s.resolve_eq env now hpath
  rw [hresolve]
  set s₁ := s.ensure env play now with hs₁
  have hcovers := (advance_sameReg s₁ env play now c').covers
  have hshown : ∀ d, ((s₁.advance env play now c').2.present play d).1.reg.covers =
      s₁.reg.covers.insert play d := by
    intro d
    rw [present_reg, ← hcovers]
    rfl
  rw [hshown]
  -- its own `resolve`, or that of another cover
  by_cases hq : q = play
  · subst hq
    have hmem : q ∈ s.reg.covers := AList.lookup_isSome.mp (by rw [hc]; rfl)
    have hsame : s₁ = s := by rw [hs₁, ensure, if_pos hmem]
    rw [hsame] at hc' ⊢
    obtain rfl : c = c' := Option.some.inj (hc.symm.trans hc')
    refine (advance_keeps s env q now c hl).imp (fun ha => ⟨rfl, ha⟩) fun hkept => ?_
    exact ⟨_, AList.lookup_insert _, hkept⟩
  · refine Or.inr ⟨c, ?_, hl⟩
    rw [AList.lookup_insert_ne hq, hs₁, ensure]
    split_ifs
    · exact hc
    · exact (setCover_lookup_ne _ hq _).trans hc

omit [Source σ] in
/-- A thread that was started was started once. -/
theorem Accounted.starts_eq_one {s : Sys σ} {held : ℕ → ℕ} (h : Accounted s held) {t id : ℕ}
    (hmem : .spawned t id ∈ s.log) : s.starts t = 1 := by
  have honce : s.starts t ≤ 1 := by
    have ho := h.once t
    split_ifs at ho <;> omega
  have hpos : Effect.starts t (.spawned t id) ≤ s.starts t :=
    List.single_le_sum (fun _ _ => Nat.zero_le _) _ (List.mem_map_of_mem hmem)
  have hone : Effect.starts t (.spawned t id) = 1 := if_pos rfl
  omega

/-! ### The life of a loader thread -/

/-- **No loader thread is leaked or waited for.**  After every run, each thread that was started
has exactly one owner or was joined, once; `set_settings`, `begin_frame` and `end_frame` join only
threads that are done; `resolve` joins only the thread of the cover it works on, after the answer
of its loader, and takes a loader from a cover in no other case; and dropping the registry leaves
every thread joined. -/
theorem loaders_owned_or_joined (defaults : Settings) (es : List (Event σ)) :
    let s := Machine.run step (init defaults) es
    (∀ t id, .spawned t id ∈ s.log → s.opening t + s.parked t + s.joins t = 1) ∧
    (∀ env settings error now,
      JoinsOnly s (s.setSettings env settings error now) fun t => (s.threads t).done = true) ∧
    (JoinsOnly s s.beginFrame fun t => (s.threads t).done = true) ∧
    (∀ env now, JoinsOnly s (s.endFrame env now) fun t => (s.threads t).done = true) ∧
    (∀ env play now, JoinsOnly s (s.resolve env play now).1 fun t =>
      ∃ c, s.reg.covers.lookup play = some c ∧ s.Due c t) ∧
    (∀ env play now q c l, s.reg.covers.lookup q = some c → c.loader = some l →
      (q = play ∧ s.Answered l) ∨
        ∃ d, (s.resolve env play now).1.reg.covers.lookup q = some d ∧ d.loader = some l) ∧
    (∀ t id, .spawned t id ∈ s.log → s.unload.joins t = 1) := by
  intro s
  have hs : Accounted s s.opening := run_accounted defaults es
  -- the balance of threads gives all of it
  refine ⟨fun t id hmem => ?_, fun env settings error now => s.setSettings_joins env settings error
    now, ?_, fun env now => (s.removeCovers_done _).joins, fun env play now =>
    s.resolve_joins env play now, fun env play now q c l hc hl => s.resolve_keeps env play now hc hl,
    fun t id hmem => ?_⟩
  · rw [hs.balance t, hs.starts_eq_one hmem]
  · exact (reap_done { s with reg := { s.reg with frameNo := s.reg.frameNo + 1 } }).joins
  · rw [unload_joins hs t, hs.starts_eq_one hmem]

/-- A cover is opened and still loading when the settings change: its loader is parked, and joined
on unload. -/
theorem loader_parked_then_joined :
    let slow : PlayParams := { path := "/slow", looped := true, speed := ⟨1, by decide⟩ }
    let s := Machine.run step (init exampleSettings : Sys Solid)
      [.resolve exampleEnv slow 0, .setSettings exampleEnv exampleSettings none 1]
    s.parked 0 = 1 ∧ s.opening 0 + s.parked 0 + s.joins 0 = 1 ∧ s.unload.joins 0 = 1 := by
  intro slow s
  have h := @loaders_owned_or_joined Solid _ exampleSettings
    [.resolve exampleEnv slow 0, .setSettings exampleEnv exampleSettings none 1]
  have hmem : Effect.spawned 0 1 ∈ s.log := by decide +kernel
  exact ⟨by decide +kernel, h.1 0 1 hmem, h.2.2.2.2.2.2 0 1 hmem⟩

end Sys

end NoshareCover
