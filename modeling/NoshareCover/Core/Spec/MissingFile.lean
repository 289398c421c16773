import NoshareCover.Core.Open
import NoshareCover.Core.Spec.BackendError
import NoshareCover.Core.Spec.CoverFile
import NoshareCover.Core.Spec.FrameStable

/-!
# Covers whose file is missing

The file of a missing cover is looked for at most once a second, and its absence is reported once.
An observer of a run notes down what `resolve` finds out about the file of one cover (`openMissing`,
and `pathChecks`, which are read off the history) and what it says (`tells`);
`missing_file_probed_sparsely` is the law that these notes follow in every run.
-/

namespace NoshareCover

namespace Sys

variable {σ : Type} [Source σ]

open Machine

/-! ### What happens to one cover -/

/-- The call of `resolve` that finds the cover `id`. -/
def shows (s : Sys σ) (id : ℕ) : Event σ → Option (Env × Cover σ × Instant)
  | .resolve env play now =>
    if play.path = "" then none
    else ((s.reg.covers.lookup play).filter (·.id = id)).map fun c => (env, c, now)
  | _ => none

/-- The entries that a step adds to the history. -/
def news (s : Sys σ) (e : Event σ) : List Effect :=
  (s.step e).1.log.take ((s.step e).1.log.length - s.log.length)

/-- `resolve` looks for the file: the time, and whether the file is there. -/
def pathChecks (s : Sys σ) (id : ℕ) (e : Event σ) : List (Instant × Bool) :=
  match e with
  | .resolve _ _ now => ((s.news e).filterMap (Effect.probe id)).map (now, ·)
  | _ => []

/-- `resolve` sees that an open ended with a missing file. -/
def openMissing (s : Sys σ) (id : ℕ) (e : Event σ) : Option Instant :=
  (s.shows id e).bind fun (_, c, now) => (s.endedMissing c).map fun _ => now

/-- `resolve` sees that the file is not there, either way. -/
def absent (s : Sys σ) (id : ℕ) (e : Event σ) : List Instant :=
  (s.openMissing id e).toList ++ ((s.pathChecks id e).filter (!·.2)).map Prod.fst

/-- The messages about a file that is not there which `resolve` pushes for the cover `id`. -/
def tells (s : Sys σ) (id : ℕ) (e : Event σ) : List String :=
  match e with
  | .resolve _ play _ =>
    if ((s.step e).1.reg.covers.lookup play).any (·.id = id) then (s.pushed e).filter isNotFound
    else []
  | _ => []

/-- The opens of the cover `id` that ended with a missing file: when the run saw that. -/
def misses (s : Sys σ) (id : ℕ) (es : List (Event σ)) : List Instant :=
  collect step (fun u e => (u.openMissing id e).toList) s es

/-- When the run found the file of the cover `id` absent. -/
def absences (s : Sys σ) (id : ℕ) (es : List (Event σ)) : List Instant :=
  collect step (fun u e => u.absent id e) s es

/-- The messages about the absent file of the cover `id` that the run pushed. -/
def tellings (s : Sys σ) (id : ℕ) (es : List (Event σ)) : List String :=
  collect step (fun u e => u.tells id e) s es

/-- **The file of the cover `id` is probed at most once a second and reported once.** -/
structure ProbedSparsely (s : Sys σ) (id : ℕ) (es : List (Event σ)) : Prop where
  /-- A path check comes a second or more after the file was found absent. -/
  waits : ∀ a e b, es = a ++ e :: b → ∀ now found,
    (now, found) ∈ (run step s a).pathChecks id e →
    ∃ t, (s.absences id a).getLast? = some t ∧ t + missingRetry ≤ now
  /-- A cover that is there is only opened again after a path check. -/
  reopens : ∀ a e b, es = a ++ e :: b → id < (run step s a).reg.nextId →
    (run step s (a ++ [e])).opens id ≠ (run step s a).opens id →
    ∃ now, (now, true) ∈ (run step s a).pathChecks id e
  /-- From the retry time on, a `resolve` that finds the file starts one open, and no other does. -/
  retries : ∀ a e b, es = a ++ e :: b → ∀ env c now retryAt,
    (run step s a).shows id e = some (env, c, now) → c.state = .missing retryAt →
    (∃ t, (s.absences id a).getLast? = some t ∧ retryAt = t + missingRetry) ∧
    (run step s (a ++ [e])).nextThread
      = (run step s a).nextThread + (if retryAt ≤ now ∧ env.pathExists then 1 else 0) ∧
    (run step s (a ++ [e])).opens id
      = (run step s a).opens id
        + (if (retryAt ≤ now ∧ env.pathExists) ∧ env.canSpawn then 1 else 0)
  /-- The message is pushed once, if an open ended with a missing file. -/
  once : (s.tellings id es).length = if s.misses id es = [] then 0 else 1
  /-- A retry does not push it. -/
  silent : ∀ a e b, es = a ++ e :: b → (run step s a).tells id e ≠ [] →
    ∃ env c now, (run step s a).shows id e = some (env, c, now) ∧
      (run step s a).endedMissing c = some false

/-! ### What a step does -/

omit [Source σ] in
theorem shows_eq_some_iff {s : Sys σ} {id : ℕ} {e : Event σ} {env : Env} {c : Cover σ}
    {now : Instant} :
    s.shows id e = some (env, c, now) ↔ ∃ play, e = .resolve env play now ∧ play.path ≠ ""
      ∧ s.reg.covers.lookup play = some c ∧ c.id = id := by
  -- only `resolve` of a cover that is there shows it
  cases e with
  | resolve env' play now' =>
    unfold shows
    dsimp only
    split_ifs with hpath
    · refine ⟨nofun, ?_⟩
      rintro ⟨play', heq, hne, -⟩
      cases heq
      exact absurd hpath hne
    · rw [Option.map_eq_some_iff]
      constructor
      · rintro ⟨c', hc', heq⟩
        cases heq
        obtain ⟨hlookup, hid⟩ := Option.filter_eq_some_iff.1 hc'
        exact ⟨play, rfl, hpath, hlookup, of_decide_eq_true hid⟩
      · rintro ⟨play', heq, -, hlookup, hid⟩
        cases heq
        exact ⟨c, Option.filter_eq_some_iff.2 ⟨hlookup, decide_eq_true hid⟩, rfl⟩
  | _ => exact ⟨nofun, fun ⟨_, h, _⟩ => nomatch h⟩

omit [Source σ] in
/-- A step is a `resolve` that finds a cover, or shows none. -/
theorem shows_cases (s : Sys σ) (e : Event σ) :
    (∃ env play now c, e = .resolve env play now ∧ play.path ≠ "" ∧ s.reg.covers.lookup play = some c)
      ∨ ∀ id, s.shows id e = none := by
  by_cases hshows : ∃ id, s.shows id e ≠ none
  · obtain ⟨id, hid⟩ := hshows
    obtain ⟨⟨env, c, now⟩, hsome⟩ := Option.ne_none_iff_exists'.1 hid
    obtain ⟨play, heq, hpath, hc, -⟩ := shows_eq_some_iff.1 hsome
    exact .inl ⟨env, play, now, c, heq, hpath, hc⟩
  · refine .inr fun id => ?_
    by_contra hne
    exact hshows ⟨id, hne⟩

/-- The cover that `resolve` finds, and the others. -/
theorem step_shows {s : Sys σ} {play : PlayParams} {c : Cover σ} (env : Env) (now : Instant)
    (hpath : play.path ≠ "") (hc : s.reg.covers.lookup play = some c) :
    (s.step (.resolve env play now)).1.reg.covers.lookup play = some (s.advance env play now c).1
      ∧ (s.step (.resolve env play now)).1.reg.nextId = s.reg.nextId
      ∧ (s.step (.resolve env play now)).1.nextThread = (s.advance env play now c).2.nextThread
      ∧ ∀ q, q ≠ play →
        (s.step (.resolve env play now)).1.reg.covers.lookup q = s.reg.covers.lookup q := by
  have heq : s.step (.resolve env play now) = (s.advance env play now c).2.present play
      (s.advance env play now c).1 := resolve_of_lookup env now hpath hc
  refine ⟨?_, ?_, ?_, fun q hq => s.resolve_lookup_ne env now hq⟩
  · rw [heq, present_lookup]
  · rw [heq, present_reg]
    exact (s.advance_sameReg env play now c).nextId
  · rw [heq, present_nextThread]

/-- A cover after any other step was there before, or is new. -/
def Grown (s u : Sys σ) : Prop :=
  s.reg.nextId ≤ u.reg.nextId ∧ ∀ p c, u.reg.covers.lookup p = some c →
    s.reg.covers.lookup p = some c
      ∨ s.reg.nextId ≤ c.id ∧ ((∃ loader, c.state = .opening loader false) ∨ c.state.Over)

omit [Source σ] in
theorem start_grown (s : Sys σ) (play : PlayParams) (settings : Settings) (now : Instant)
    (canSpawn : Bool) : Grown s (s.start play settings now canSpawn) := by
  refine ⟨Nat.le_succ _, fun p c hc => ?_⟩
  by_cases hp : p = play
  · rw [hp] at hc
    cases (setCover_lookup_self _ play _).symm.trans hc
    exact .inr ⟨le_rfl, .inl ⟨_, rfl⟩⟩
  · exact .inl ((setCover_lookup_ne _ hp _).symm.trans hc)

omit [Source σ] in
theorem Grown.refl (s : Sys σ) : Grown s s := ⟨le_rfl, fun _ _ hc => .inl hc⟩

omit [Source σ] in
theorem warm_grown (s : Sys σ) (env : Env) (play : PlayParams) (now : Instant) :
    Grown s (s.warm env play now) := by
  unfold warm
  split_ifs
  · exact .refl s
  · exact s.start_grown play _ now _

omit [Source σ] in
theorem Grown.of_sameReg {s t u : Sys σ} (h : Grown s t) (hu : SameReg t u) : Grown s u := by
  refine ⟨h.1.trans hu.nextId.ge, fun p c hc => h.2 p c ?_⟩
  rw [← hu.covers]
  exact hc

omit [Source σ] in
theorem removeCovers_grown (s : Sys σ) (plays : List PlayParams) :
    Grown s (plays.foldl removeCover s) := by
  constructor
  -- dropping a cover hands out no number
  · refine List.foldlRecOn (motive := fun u : Sys σ => s.reg.nextId ≤ u.reg.nextId) plays _ le_rfl ?_
    intro u hu p _
    refine hu.trans (le_of_eq ?_)
    unfold removeCover
    cases u.reg.covers.lookup p with
    | none => rfl
    | some c =>
      have hretire := retire_behind { u with reg := { u.reg with covers := u.reg.covers.erase p } } c
      exact hretire.reg.nextId.symm
  · intro p c hc
    rw [removeCovers_lookup] at hc
    split_ifs at hc
    exact .inl hc

omit [Source σ] in
/-- The channel of a new cover is empty. -/
theorem start_endedMissing {s : Sys σ} {play : PlayParams} {settings : Settings} {now : Instant}
    {canSpawn : Bool} {c : Cover σ}
    (hc : (s.start play settings now canSpawn).reg.covers.lookup play = some c) :
    (s.start play settings now canSpawn).endedMissing c = none := by
  obtain rfl := Option.some.inj ((setCover_lookup_self _ play _).symm.trans hc)
  have hsent : ((s.start play settings now canSpawn).threads s.nextThread).sent = none := by
    show (Function.update s.threads s.nextThread _ s.nextThread).sent = none
    rw [Function.update_self]
  unfold endedMissing
  dsimp only
  rw [show ((s.start play settings now canSpawn).threads _).sent = none from hsent]

/-- The cover that `resolve` creates is opening, or could not be opened. -/
theorem resolve_grown {s : Sys σ} {play : PlayParams} (env : Env) (now : Instant)
    (hnew : play ∉ s.reg.covers) : Grown s (s.resolve env play now).1 := by
  by_cases hpath : play.path = ""
  · unfold resolve
    rw [if_pos hpath]
    exact .refl s
  obtain ⟨c, hc, hresolve⟩ := s.resolve_eq env now hpath
  have hensure : s.ensure env play now = s.start play (s.settings env) now env.canSpawn :=
    if_neg hnew
  rw [hensure] at hc hresolve
  have hgrown := s.start_grown play (s.settings env) now env.canSpawn
  have hended := start_endedMissing hc
  have hfresh : (∃ loader, c.state = .opening loader false) ∧ c.id = s.reg.nextId := by
    obtain rfl := Option.some.inj ((setCover_lookup_self _ play _).symm.trans hc)
    exact ⟨⟨_, rfl⟩, rfl⟩
  obtain ⟨⟨loader, hstate⟩, hid⟩ := hfresh
  generalize s.start play (s.settings env) now env.canSpawn = u at *
  have hreg := u.advance_sameReg env play now c
  have hid' : (u.advance env play now c).1.id = s.reg.nextId :=
    (advance_id u env play now c).trans hid
  -- after its first frame it is still opening, or over
  have hover : (∃ loader, (u.advance env play now c).1.state = .opening loader false)
      ∨ (u.advance env play now c).1.state.Over := by
    rcases u.advance_state env play now c with
      ⟨_, h, -⟩ | ⟨-, h, -⟩ | ⟨_, h, -⟩ | ⟨-, -, ⟨_, _, h, -⟩ | h⟩
    · cases hended.symm.trans h
    · exact .inl ⟨loader, h.trans hstate⟩
    · cases hstate.symm.trans h
    · cases hstate.symm.trans h
    · exact .inr h
  rw [hresolve]
  refine ⟨?_, fun p d hd => ?_⟩
  · rw [present_reg]
    exact hgrown.1.trans hreg.nextId.ge
  -- the new cover, and the old ones
  · by_cases hp : p = play
    · rw [hp, present_lookup] at hd
      obtain rfl := Option.some.inj hd
      exact .inr ⟨hid'.ge, hover⟩
    · refine hgrown.2 p d ?_
      rw [← hd, ← hreg.covers, present_reg, setCover_lookup_ne _ hp]

/-- **Any other step** keeps the covers, drops some, or creates new ones. -/
theorem step_grown {s : Sys σ} {e : Event σ} (h : ∀ id, s.shows id e = none) :
    Grown s (s.step e).1 := by
  -- only new settings, `warm` and a first `resolve` start a cover
  cases e with
  | setSettings env settings error now =>
    show Grown s (s.setSettings env settings error now)
    unfold setSettings
    -- the reset drops every cover, and then the default is warmed
    split_ifs
    · exact .refl s
    · have hreset : Grown s (s.reset settings error) :=
        (s.removeCovers_grown s.reg.covers.keys).of_sameReg ⟨rfl, rfl, rfl⟩
      have hwarm := (s.reset settings error).warm_grown env
        ((s.reset settings error).settings env).defaultPlay now
      unfold prewarm
      dsimp only
      split_ifs
      · exact hreset
      · refine ⟨hreset.1.trans hwarm.1, fun p c hc => ?_⟩
        rcases hwarm.2 p c hc with hold | ⟨hid, hstate⟩
        · exact hreset.2 p c hold
        · exact .inr ⟨hreset.1.trans hid, hstate⟩
  | warm env play now => exact s.warm_grown env play now
  | beginFrame =>
    have hcount : Grown s { s with reg := { s.reg with frameNo := s.reg.frameNo + 1 } } :=
      ⟨le_rfl, fun _ _ hc => .inl hc⟩
    have hreap := (reap_behind { s with reg := { s.reg with frameNo := s.reg.frameNo + 1 } }).reg
    refine ⟨hreap.nextId.ge, fun p c hc => .inl ?_⟩
    rw [← hc]
    exact congrArg (AList.lookup p) hreap.covers.symm
  | resolve env play now =>
    by_cases hpath : play.path = ""
    · show Grown s (s.resolve env play now).1
      unfold resolve
      rw [if_pos hpath]
      exact .refl s
    · refine resolve_grown env now fun hmem => ?_
      obtain ⟨c, hc⟩ := Option.isSome_iff_exists.1 (AList.lookup_isSome.2 hmem)
      cases (h c.id).symm.trans (shows_eq_some_iff.2 ⟨play, rfl, hpath, hc, rfl⟩)
  | endFrame env now => exact s.removeCovers_grown _
  | deliver t opened polls => exact (Grown.refl s).of_sameReg (send_sameReg s t _)
  | crash t => exact (Grown.refl s).of_sameReg (send_sameReg s t _)
  | finish t => exact (Grown.refl s).of_sameReg (finish_sameReg s t)

/-! #### The notes of a step -/

/-- The looks for a file that a step adds to those before it. -/
theorem news_probes (s : Sys σ) (e : Event σ) (id : ℕ) :
    (s.news e).filterMap (Effect.probe id) ++ s.probes id = (s.step e).1.probes id := by
  have hsuffix := (s.step_log e).1
  have hnews : s.news e ++ s.log = (s.step e).1.log := by
    obtain ⟨es, hes⟩ := hsuffix
    unfold news
    rw [← hes, List.length_append, Nat.add_sub_cancel, List.take_left]
  unfold probes
  rw [← hnews, List.filterMap_append]

/-- `resolve` looks for the file of the cover that it finds, and for no other. -/
theorem resolve_probes {s : Sys σ} {play : PlayParams} {c : Cover σ} (env : Env) (now : Instant)
    (hpath : play.path ≠ "") (hc : s.reg.covers.lookup play = some c) (id : ℕ) :
    (s.resolve env play now).1.probes id
      = (if c.id = id then c.lookedFor env now else []) ++ s.probes id := by
  rw [resolve_of_lookup env now hpath hc, (present_quiet _ play _).probes_eq, advance_probes]

theorem pathChecks_of_shows {s : Sys σ} {id : ℕ} {e : Event σ} {env : Env} {c : Cover σ}
    {now : Instant} (h : s.shows id e = some (env, c, now)) :
    s.pathChecks id e = (c.lookedFor env now).map (now, ·) := by
  obtain ⟨play, rfl, hpath, hc, hid⟩ := shows_eq_some_iff.1 h
  have hnews := List.append_cancel_right
    ((s.news_probes (.resolve env play now) id).trans (s.resolve_probes env now hpath hc id))
  rw [if_pos hid] at hnews
  unfold pathChecks
  dsimp only
  rw [hnews]

/-- The cover that is created is being opened, so that its file is not looked for. -/
theorem pathChecks_of_shows_none {s : Sys σ} {id : ℕ} {e : Event σ} (h : s.shows id e = none) :
    s.pathChecks id e = [] := by
  cases e with
  | resolve env play now =>
    have hsame : (s.resolve env play now).1.probes id = s.probes id := by
      by_cases hpath : play.path = ""
      · unfold resolve
        rw [if_pos hpath]
      obtain ⟨c, hc, hresolve⟩ := s.resolve_eq env now hpath
      by_cases hmem : play ∈ s.reg.covers
      · have hensure : s.ensure env play now = s := if_pos hmem
        rw [hensure] at hc
        have hid : c.id ≠ id := by
          intro hid
          cases h.symm.trans (shows_eq_some_iff.2 ⟨play, rfl, hpath, hc, hid⟩)
        rw [s.resolve_probes env now hpath hc id, if_neg hid, List.nil_append]
      · have hensure : s.ensure env play now = s.start play (s.settings env) now env.canSpawn :=
          if_neg hmem
        rw [hensure] at hc hresolve
        obtain rfl := Option.some.inj ((setCover_lookup_self _ play _).symm.trans hc)
        rw [hresolve, (present_quiet _ play _).probes_eq, advance_probes]
        -- it is opening, so that there is nothing to look for
        exact (congrArg (· ++ _) (ite_self _)).trans (start_probes play _ now _)
    have hnews := List.append_cancel_right
      (((s.news_probes (.resolve env play now) id).trans hsame).trans (List.nil_append _).symm)
    unfold pathChecks
    dsimp only
    rw [hnews, List.map_nil]
  | _ => rfl

/-- A step that does not show the cover leaves no note about its file. -/
theorem absent_of_shows {s : Sys σ} {id : ℕ} {e : Event σ} (h : s.shows id e = none) :
    s.openMissing id e = none ∧ s.absent id e = [] := by
  have hmiss : s.openMissing id e = none := by
    unfold openMissing
    rw [h]
    rfl
  refine ⟨hmiss, ?_⟩
  unfold absent
  rw [hmiss, pathChecks_of_shows_none h]
  rfl

omit [Source σ] in
theorem openMissing_of_shows {s : Sys σ} {id : ℕ} {e : Event σ} {env : Env} {c : Cover σ}
    {now : Instant} (h : s.shows id e = some (env, c, now)) :
    s.openMissing id e = (s.endedMissing c).map fun _ => now := by
  unfold openMissing
  rw [h]
  rfl

theorem absent_of_checks {s : Sys σ} {id : ℕ} {e : Event σ} (hmiss : s.openMissing id e = none)
    (hcheck : s.pathChecks id e = []) : s.absent id e = [] := by
  unfold absent
  rw [hmiss, hcheck]
  rfl

omit [Source σ] in
theorem shows_ne {s : Sys σ} (env : Env) {play : PlayParams} (now : Instant) {c : Cover σ}
    (hc : s.reg.covers.lookup play = some c) {id : ℕ} (hid : c.id ≠ id) :
    s.shows id (.resolve env play now) = none := by
  rw [Option.eq_none_iff_forall_not_mem]
  rintro ⟨env', c', now'⟩ hmem
  obtain ⟨play', heq, -, hc', hid'⟩ := shows_eq_some_iff.1 hmem
  cases heq
  cases hc.symm.trans hc'
  exact hid hid'

/-- What `resolve` pushes about the cover that it finds. -/
theorem tells_shows (hpoll : ∀ (src : σ) now p, (Source.poll src now).1 ≠ .error (.missing p))
    {s : Sys σ} {play : PlayParams} {c : Cover σ} (env : Env) (now : Instant) (id : ℕ)
    (hpath : play.path ≠ "") (hc : s.reg.covers.lookup play = some c) :
    (s.tells id (.resolve env play now)).length
      = if c.id = id ∧ s.endedMissing c = some false then 1 else 0 := by
  obtain ⟨hlookup, -⟩ := s.step_shows env now hpath hc
  unfold tells
  dsimp only
  rw [hlookup]
  have hid := s.advance_id env play now c
  -- the cover itself: a notice when its first open failed
  by_cases heq : c.id = id
  · rw [if_pos (by simp [hid, heq])]
    have hpushed : s.pushed (.resolve env play now)
        = (s.hushed.advance env play now c).2.reg.notifier.queue := by
      show (s.hushed.resolve env play now).1.reg.notifier.queue = _
      rw [s.hushed.resolve_of_lookup env now hpath hc, present_notifier]
    rw [hpushed]
    refine (advance_notFound hpoll rfl).trans ?_
    have hended : s.hushed.endedMissing c = s.endedMissing c := rfl
    rw [hended]
    exact if_congr (and_iff_right heq).symm rfl rfl
  -- another cover has another number
  · rw [if_neg (by simp [hid, heq]), if_neg fun h => heq h.1]
    rfl

/-- A step that shows no cover says nothing about files. -/
theorem tells_of_shows (hpoll : ∀ (src : σ) now p, (Source.poll src now).1 ≠ .error (.missing p))
    {s : Sys σ} {e : Event σ} (h : ∀ id, s.shows id e = none) (id : ℕ) : s.tells id e = [] := by
  cases e with
  | resolve env play now =>
    -- a cover that is new has nothing to tell
    have hpushed : (s.pushed (.resolve env play now)).filter isNotFound = [] := by
      show notFound (s.hushed.resolve env play now).1.reg.notifier = []
      by_cases hpath : play.path = ""
      · unfold resolve
        rw [if_pos hpath]
        rfl
      obtain ⟨c, hc, hresolve⟩ := s.hushed.resolve_eq env now hpath
      have hnew : play ∉ s.hushed.reg.covers := by
        intro hmem
        obtain ⟨c', hc'⟩ := Option.isSome_iff_exists.1 (AList.lookup_isSome.2 hmem)
        cases (h c'.id).symm.trans (shows_eq_some_iff.2 ⟨play, rfl, hpath, hc', rfl⟩)
      have hensure : s.hushed.ensure env play now
          = s.hushed.start play (s.hushed.settings env) now env.canSpawn := if_neg hnew
      rw [hensure] at hc hresolve
      have hended : (s.hushed.start play (s.hushed.settings env) now env.canSpawn).endedMissing c
          = none := start_endedMissing hc
      rw [hresolve, present_notifier, ← List.length_eq_zero_iff, advance_notFound hpoll rfl, hended]
      rfl
    unfold tells
    dsimp only
    rw [hpushed, ite_self]
  | _ => rfl

/-! #### The threads of a step -/

omit [Source σ] in
theorem setSettings_opens {s : Sys σ} {id : ℕ} (hid : id < s.reg.nextId) (env : Env)
    (settings : Settings) (error : Option ConfigError) (now : Instant) :
    (s.setSettings env settings error now).opens id = s.opens id := by
  unfold setSettings
  split_ifs
  · rfl
  have hreset : (s.reset settings error).opens id = s.opens id := (s.removeCovers_quiet _).opens_eq
  unfold prewarm
  dsimp only
  split_ifs
  · exact hreset
  · refine (warm_opens (s := s.reset settings error) ?_ env _ now).trans hreset
    exact hid.trans_le (s.removeCovers_grown s.reg.covers.keys).1

theorem resolve_opens {s : Sys σ} {id : ℕ} (hid : id < s.reg.nextId) {env : Env} {play : PlayParams}
    {now : Instant} (h : (s.resolve env play now).1.opens id ≠ s.opens id) :
    ∃ c t, s.shows id (.resolve env play now) = some (env, c, now) ∧ c.state = .missing t ∧
      t ≤ now ∧ env.pathExists = true := by
  -- without a path nothing happens
  by_cases hpath : play.path = ""
  · refine absurd ?_ h
    unfold resolve
    rw [if_pos hpath]
  obtain ⟨c, hc, hresolve⟩ := s.resolve_eq env now hpath
  rw [hresolve, (present_quiet _ play _).opens_eq] at h
  by_cases hmem : play ∈ s.reg.covers
  · have hensure : s.ensure env play now = s := if_pos hmem
    rw [hensure] at hc h
    -- the thread is for this cover, which was missing
    rcases s.advance_threads env play now c with ⟨t, hstate, hdue, -, hopens⟩ | ⟨-, -, hsame⟩
    · have hcid : c.id = id := by
        by_contra hne
        rw [if_neg fun h => hne h.2] at hopens
        exact h hopens
      exact ⟨c, t, shows_eq_some_iff.2 ⟨play, rfl, hpath, hc, hcid⟩, hstate, hdue⟩
    · exact absurd hsame h
  · -- the cover is new, and it has another number
    have hensure : s.ensure env play now = s.start play (s.settings env) now env.canSpawn :=
      if_neg hmem
    rw [hensure] at hc h
    have hstart := start_opens hid play (s.settings env) now env.canSpawn
    have hopening : ∃ loader, c.state = .opening loader false := by
      obtain rfl := Option.some.inj ((setCover_lookup_self _ play _).symm.trans hc)
      exact ⟨_, rfl⟩
    obtain ⟨loader, hopening⟩ := hopening
    rcases (s.start play (s.settings env) now env.canSpawn).advance_threads env play now c with
      ⟨t, hstate, -⟩ | ⟨-, -, hsame⟩
    · cases hopening.symm.trans hstate
    · exact absurd (hsame.trans hstart) h

/-- **A cover that is there is only opened again after a path check.** -/
theorem step_opens {s : Sys σ} {id : ℕ} (hid : id < s.reg.nextId) {e : Event σ}
    (h : (s.step e).1.opens id ≠ s.opens id) : ∃ now, (now, true) ∈ s.pathChecks id e := by
  cases e with
  | setSettings env settings error now => exact absurd (setSettings_opens hid env settings error now) h
  | warm env play now => exact absurd (warm_opens hid env play now) h
  | beginFrame =>
    exact absurd
      (reap_behind { s with reg := { s.reg with frameNo := s.reg.frameNo + 1 } }).quiet.opens_eq h
  | resolve env play now =>
    -- the one event that opens again
    obtain ⟨c, t, hshows, hstate, hdue, hfile⟩ := resolve_opens hid h
    refine ⟨now, ?_⟩
    rw [pathChecks_of_shows hshows, Cover.lookedFor, hstate]
    dsimp only
    rw [if_pos hdue, hfile]
    exact List.mem_singleton_self _
  | endFrame env now => exact absurd ((s.removeCovers_quiet _).opens_eq) h
  | deliver t opened polls => exact absurd (s.send_quiet t _).opens_eq h
  | crash t => exact absurd (s.send_quiet t _).opens_eq h
  | finish t => exact absurd (s.finish_quiet t).opens_eq h

/-! ### Runs -/

/-- What the state of a cover tells of the notes about it. -/
structure Noted (s : Sys σ) (id : ℕ) (es : List (Event σ)) (state : State σ) : Prop where
  first : ∀ loader, state = .opening loader false → s.misses id es = []
  retry : ∀ loader, state = .opening loader true → s.misses id es ≠ []
  missing : ∀ retryAt, state = .missing retryAt → s.misses id es ≠ []
    ∧ ∃ t, (s.absences id es).getLast? = some t ∧ retryAt = t + missingRetry

/-- The notes fit the state that the run has led to. -/
structure Fits (s : Sys σ) (es : List (Event σ)) : Prop where
  fresh : ∀ id, (run step s es).reg.nextId ≤ id → s.misses id es = [] ∧ s.absences id es = []
  covers : ∀ p c, (run step s es).reg.covers.lookup p = some c → Noted s c.id es c.state
  once : ∀ id, (s.tellings id es).length = if s.misses id es = [] then 0 else 1

section Concat

variable {s : Sys σ} {es : List (Event σ)} {e : Event σ} {id : ℕ}

theorem misses_concat : s.misses id (es ++ [e])
    = s.misses id es ++ ((run step s es).openMissing id e).toList := collect_concat ..

theorem absences_concat : s.absences id (es ++ [e])
    = s.absences id es ++ (run step s es).absent id e := collect_concat ..

theorem tellings_concat : s.tellings id (es ++ [e])
    = s.tellings id es ++ (run step s es).tells id e := collect_concat ..

/-- A step that does not show the cover leaves the notes about it as they are. -/
theorem notes_of_shows (h : (run step s es).shows id e = none) :
    s.misses id (es ++ [e]) = s.misses id es ∧ s.absences id (es ++ [e]) = s.absences id es := by
  obtain ⟨hmiss, habsent⟩ := absent_of_shows h
  rw [misses_concat, absences_concat, hmiss, habsent]
  exact ⟨List.append_nil _, List.append_nil _⟩

/-- A step that finds nothing out about the file leaves the notes about it as they are. -/
theorem Noted.of_silent {state : State σ} (hn : Noted s id es state)
    (hmiss : (run step s es).openMissing id e = none) (habsent : (run step s es).absent id e = []) :
    Noted s id (es ++ [e]) state := by
  have hmisses : s.misses id (es ++ [e]) = s.misses id es := by
    rw [misses_concat, hmiss, Option.toList_none, List.append_nil]
  have habsences : s.absences id (es ++ [e]) = s.absences id es := by
    rw [absences_concat, habsent, List.append_nil]
  refine ⟨fun l hl => hmisses.trans (hn.first l hl), fun l hl => ?_, fun t ht => ?_⟩
  · rw [hmisses]
    exact hn.retry l hl
  · rw [hmisses, habsences]
    exact hn.missing t ht

theorem Noted.of_shows {state : State σ} (hn : Noted s id es state)
    (h : (run step s es).shows id e = none) : Noted s id (es ++ [e]) state :=
  hn.of_silent (absent_of_shows h).1 (absent_of_shows h).2

/-- A cover that is over says nothing about its file. -/
theorem Noted.of_over {state : State σ} (h : state.Over) : Noted s id es state := by
  refine ⟨?_, ?_, ?_⟩
  all_goals
    rintro _ rfl
    exact h.elim

end Concat

/-- The cover that `resolve` finds, with the notes after it. -/
theorem Noted.advance {s : Sys σ} {es : List (Event σ)} {play : PlayParams} {c : Cover σ} (env : Env)
    (now : Instant) (hpath : play.path ≠ "")
    (hc : (run step s es).reg.covers.lookup play = some c) (hn : Noted s c.id es c.state) :
    Noted s c.id (es ++ [.resolve env play now]) ((run step s es).advance env play now c).1.state := by
  have hshows : (run step s es).shows c.id (.resolve env play now) = some (env, c, now) :=
    shows_eq_some_iff.2 ⟨play, rfl, hpath, hc, rfl⟩
  generalize he : Event.resolve env play now = e at *
  have hmiss := openMissing_of_shows hshows
  rcases (run step s es).advance_state env play now c with
    ⟨retry, hended, hd⟩ | ⟨hended, hd, hdue⟩ | ⟨t, hc', hdue, hfile, hd⟩ | ⟨hended, hcheck, hd⟩
  · -- an open ended: its file is missing now
    rw [hended] at hmiss
    have hcheck : (run step s es).pathChecks c.id e = [] := by
      obtain ⟨loader, -, hstate, -⟩ := endedMissing_eq_some_iff.1 hended
      rw [pathChecks_of_shows hshows, Cover.lookedFor, hstate]
      rfl
    have habsent : (run step s es).absent c.id e = [now] := by
      unfold absent
      rw [hmiss, hcheck]
      rfl
    rw [hd]
    refine ⟨nofun, nofun, fun r hr => ?_⟩
    rw [misses_concat, absences_concat, hmiss, habsent]
    exact ⟨by simp, now, by simp, (State.missing.inj hr).symm⟩
  · -- nothing is known that was not known before
    rw [hended] at hmiss
    have hcheck : (run step s es).pathChecks c.id e = [] := by
      rw [pathChecks_of_shows hshows, Cover.lookedFor]
      cases hstate : c.state with
      | missing t =>
        dsimp only
        rw [if_neg (not_le.2 (hdue t hstate)), List.map_nil]
      | _ => rfl
    rw [hd]
    exact hn.of_silent hmiss (absent_of_checks hmiss hcheck)
  · -- the file was looked for, and is still missing
    have hended : (run step s es).endedMissing c = none :=
      endedMissing_eq_none fun _ _ h => nomatch hc'.symm.trans h
    rw [hended] at hmiss
    have hcheck : (run step s es).pathChecks c.id e = [(now, false)] := by
      rw [pathChecks_of_shows hshows, Cover.lookedFor, hc']
      dsimp only
      rw [if_pos hdue, hfile]
      rfl
    have habsent : (run step s es).absent c.id e = [now] := by
      unfold absent
      rw [hmiss, hcheck]
      rfl
    rw [hd]
    refine ⟨nofun, nofun, fun r hr => ?_⟩
    rw [misses_concat, absences_concat, hmiss, habsent]
    refine ⟨?_, now, by simp, (State.missing.inj hr).symm⟩
    rw [Option.map_none, Option.toList_none, List.append_nil]
    exact (hn.missing t hc').1
  · -- the file is opened again, or the cover is over
    rw [hended] at hmiss
    rcases hd with ⟨t, loader, hc', hd⟩ | hover
    · rw [hd]
      refine ⟨nofun, fun _ _ => ?_, nofun⟩
      rw [misses_concat, hmiss, Option.map_none, Option.toList_none, List.append_nil]
      exact (hn.missing t hc').1
    · exact .of_over hover

/-! ### The law of every run -/

section Law

variable {id : ℕ}

/-- The step that shows a cover. -/
theorem Fits.shown (hpoll : ∀ (src : σ) now p, (Source.poll src now).1 ≠ .error (.missing p))
    {s : Sys σ} {es : List (Event σ)} (hsettled : Settled (run step s es)) (h : Fits s es)
    {play : PlayParams} {c : Cover σ} (env : Env) (now : Instant) (hpath : play.path ≠ "")
    (hc : (run step s es).reg.covers.lookup play = some c) :
    Fits s (es ++ [.resolve env play now]) := by
  obtain ⟨hself, hnext, -, hother⟩ := step_shows env now hpath hc
  have hnoted := h.covers play c hc
  have hrun : run step s (es ++ [.resolve env play now])
      = ((run step s es).step (.resolve env play now)).1 := run_concat ..
  refine ⟨fun id hid => ?_, fun p d hd => ?_, fun id => ?_⟩
  · rw [hrun, hnext] at hid
    have hne : c.id ≠ id := ((hsettled.id_lt play c hc).trans_le hid).ne
    obtain ⟨hmiss, habsent⟩ := notes_of_shows (shows_ne env now hc hne)
    rw [hmiss, habsent]
    exact h.fresh id hid
  · rw [hrun] at hd
    -- the shown cover has moved on, the others are as they were
    by_cases hp : p = play
    · rw [hp, hself] at hd
      obtain rfl := Option.some.inj hd
      rw [advance_id]
      exact hnoted.advance env now hpath hc
    · rw [hother p hp] at hd
      have hne : c.id ≠ d.id := fun heq => hp (hsettled.distinct p play d c hd hc heq.symm)
      exact (h.covers p d hd).of_shows (shows_ne env now hc hne)
  · have hlength := tells_shows hpoll env now id hpath hc
    have honce := h.once id
    rw [tellings_concat, List.length_append, hlength]
    by_cases hid : c.id = id
    · have hshows : (run step s es).shows id (.resolve env play now) = some (env, c, now) :=
        shows_eq_some_iff.2 ⟨play, rfl, hpath, hc, hid⟩
      have hmiss := openMissing_of_shows hshows
      rw [misses_concat, hmiss]
      rw [hid] at hnoted
      cases hended : (run step s es).endedMissing c with
      | none => simpa using honce
      | some retry =>
        obtain ⟨loader, p, hstate, -⟩ := endedMissing_eq_some_iff.1 hended
        -- the first open says so, a retry after it stays silent
        cases retry with
        | false =>
          rw [if_pos (hnoted.first loader hstate)] at honce
          simp [hid, honce]
        | true =>
          rw [if_neg (hnoted.retry loader hstate)] at honce
          simp [honce]
    · have hmiss := (notes_of_shows (shows_ne env now hc hid)).1
      rw [if_neg fun h => hid h.1, hmiss]
      exact honce

/-- Any other step. -/
theorem Fits.other (hpoll : ∀ (src : σ) now p, (Source.poll src now).1 ≠ .error (.missing p))
    {s : Sys σ} {es : List (Event σ)} (h : Fits s es) {e : Event σ}
    (hnone : ∀ id, (run step s es).shows id e = none) : Fits s (es ++ [e]) := by
  obtain ⟨hnext, hcovers⟩ := step_grown hnone
  have hrun : run step s (es ++ [e]) = ((run step s es).step e).1 := run_concat ..
  refine ⟨fun id hid => ?_, fun p c hc => ?_, fun id => ?_⟩
  · obtain ⟨hmiss, habsent⟩ := notes_of_shows (hnone id)
    rw [hmiss, habsent]
    rw [hrun] at hid
    exact h.fresh id (hnext.trans hid)
  · rw [hrun] at hc
    rcases hcovers p c hc with hold | ⟨hid, ⟨loader, hstate⟩ | hover⟩
    · exact (h.covers p c hold).of_shows (hnone c.id)
    -- a new cover, of which nothing is noted yet
    · rw [hstate]
      refine ⟨fun _ _ => ?_, nofun, nofun⟩
      exact (notes_of_shows (hnone c.id)).1.trans (h.fresh c.id hid).1
    · exact .of_over hover
  · rw [tellings_concat, tells_of_shows hpoll hnone, List.append_nil, (notes_of_shows (hnone id)).1]
    exact h.once id

theorem fits (hpoll : ∀ (src : σ) now p, (Source.poll src now).1 ≠ .error (.missing p))
    (defaults : Settings) (es : List (Event σ)) : Fits (init defaults : Sys σ) es := by
  induction es using List.reverseRecOn with
  | nil =>
    refine ⟨fun _ _ => ⟨rfl, rfl⟩, fun p c hc => ?_, fun _ => rfl⟩
    cases (AList.lookup_empty p).symm.trans hc
  | append_singleton es e ih =>
    rcases shows_cases (run step (init defaults) es) e with
      ⟨env, play, now, c, rfl, hpath, hc⟩ | hnone
    · exact ih.shown hpoll (Settled.run defaults es) env now hpath hc
    · exact ih.other hpoll hnone

/-- The law, for sources that do not report a missing file when they are polled. -/
theorem probedSparsely (hpoll : ∀ (src : σ) now p, (Source.poll src now).1 ≠ .error (.missing p))
    (defaults : Settings) (es : List (Event σ)) (id : ℕ) :
    ProbedSparsely (init defaults : Sys σ) id es := by
  have hmissing : ∀ a env c now retryAt, ∀ e : Event σ,
      (run step (init defaults) a).shows id e = some (env, c, now) → c.state = .missing retryAt →
      ∃ t, ((init defaults).absences id a).getLast? = some t ∧ retryAt = t + missingRetry := by
    intro a env c now retryAt e hshows hstate
    obtain ⟨play, -, -, hc, rfl⟩ := shows_eq_some_iff.1 hshows
    exact (((fits hpoll defaults a).covers play c hc).missing retryAt hstate).2
  refine ⟨?_, ?_, ?_, (fits hpoll defaults es).once id, ?_⟩
  -- the file is looked for at the deadline, which was set when it was found to be missing
  · intro a e b _ now found hcheck
    cases hshows : (run step (init defaults) a).shows id e with
    | none =>
      rw [pathChecks_of_shows_none hshows] at hcheck
      exact absurd hcheck List.not_mem_nil
    | some shown =>
      obtain ⟨env, c, now'⟩ := shown
      rw [pathChecks_of_shows hshows] at hcheck
      obtain ⟨found', hlooked, heq⟩ := List.mem_map.1 hcheck
      cases heq
      obtain ⟨retryAt, hstate, hdue⟩ := Cover.due_of_lookedFor hlooked
      obtain ⟨t, hlast, rfl⟩ := hmissing a env c now retryAt e hshows hstate
      exact ⟨t, hlast, hdue⟩
  · intro a e b _ hid hopens
    rw [run_concat] at hopens
    exact step_opens hid hopens
  · intro a e b _ env c now retryAt hshows hstate
    refine ⟨hmissing a env c now retryAt e hshows hstate, ?_⟩
    obtain ⟨play, rfl, hpath, hc, hid⟩ := shows_eq_some_iff.1 hshows
    obtain ⟨-, -, hnext, -⟩ := step_shows env now hpath hc
    have hopens : ((run step (init defaults) a).step (.resolve env play now)).1.opens id
        = ((run step (init defaults) a).advance env play now c).2.opens id := by
      show ((run step (init defaults) a).resolve env play now).1.opens id = _
      rw [resolve_of_lookup env now hpath hc, (present_quiet _ play _).opens_eq]
    rw [run_concat, hnext, hopens]
    rcases (run step (init defaults) a).advance_threads env play now c with
      ⟨t, hstate', hdue, hnext', hopens'⟩ | ⟨hno, hnext', hopens'⟩
    · obtain rfl := State.missing.inj (hstate'.symm.trans hstate)
      rw [hnext', hopens', if_pos hdue]
      refine ⟨rfl, congrArg _ (if_congr ?_ rfl rfl)⟩
      rw [and_iff_left hid, and_iff_right hdue]
    · rw [hnext', hopens', if_neg (hno retryAt hstate), if_neg fun h => hno retryAt hstate h.1]
      exact ⟨rfl, rfl⟩
  · intro a e b _ htells
    rcases shows_cases (run step (init defaults) a) e with
      ⟨env, play, now, c, rfl, hpath, hc⟩ | hnone
    · have hlength := tells_shows hpoll env now id hpath hc
      by_cases hended : c.id = id ∧ (run step (init defaults) a).endedMissing c = some false
      · exact ⟨env, c, now, shows_eq_some_iff.2 ⟨play, rfl, hpath, hc, hended.1⟩, hended.2⟩
      · rw [if_neg hended, List.length_eq_zero_iff] at hlength
        exact absurd hlength htells
    · exact absurd (tells_of_shows hpoll hnone id) htells

end Law

end Sys

/-- Only opening a file finds it missing. -/
theorem OpenSource.poll_ne_missing {δ κ : Type} [Demuxer δ] [Decoder κ] (src : OpenSource δ κ)
    (now : Instant) (p : String) : (Source.poll src now).1 ≠ .error (.missing p) := by
  -- no source has that error
  cases src with
  | still s => exact nofun
  | gif s =>
    show (GifSource.poll s now).1 ≠ _
    unfold GifSource.poll
    dsimp only
    split_ifs <;> exact nofun
  | video s =>
    show (VideoSource.poll s now).1 ≠ _
    unfold VideoSource.poll
    dsimp only
    split
    · split_ifs <;> exact nofun
    · exact nofun

/-- **A missing file is probed at most once a second and reported once**, in every run. -/
theorem missing_file_probed_sparsely {δ κ : Type} [Demuxer δ] [Decoder κ] (defaults : Settings)
    (es : List (Sys.Event (OpenSource δ κ))) (id : ℕ) :
    Sys.ProbedSparsely (.init defaults) id es :=
  Sys.probedSparsely OpenSource.poll_ne_missing defaults es id

end NoshareCover
