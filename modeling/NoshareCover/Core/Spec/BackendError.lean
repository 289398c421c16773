import NoshareCover.Core.RawSettings
import NoshareCover.Core.Spec.Failures

/-!
# Reports of an unknown backend

`from_raw` replaces an unknown backend by `auto` and says so, but what it says only gets to the
notifier when the settings change, and they are compared after the replacement.
`backend_reported_iff` says which pushes are reported as they should be.
-/

namespace NoshareCover

open Machine

/-! ### The settings in force -/

namespace Sys

variable {σ : Type}

@[simp] theorem spawn_settings (s : Sys σ) (play : PlayParams) (settings : Settings)
    (canSpawn : Bool) (id : ℕ) :
    (s.spawn play settings canSpawn id).2.reg.settings = s.reg.settings := rfl

theorem retire_pushed (s : Sys σ) (c : Cover σ) :
    (s.retire c).reg.settings = s.reg.settings ∧ (s.retire c).reg.notifier = s.reg.notifier := by
  unfold retire
  cases c.state with
  | opening loader retry =>
    dsimp only
    split_ifs
    · rw [dropLoader_reg]
      exact ⟨rfl, rfl⟩
    · exact ⟨rfl, rfl⟩
  | _ => exact ⟨rfl, rfl⟩

/-- Closing covers changes no settings and reports nothing. -/
theorem removeCovers_pushed (s : Sys σ) (plays : List PlayParams) :
    (plays.foldl removeCover s).reg.settings = s.reg.settings
      ∧ (plays.foldl removeCover s).reg.notifier = s.reg.notifier := by
  induction plays generalizing s with
  | nil => exact ⟨rfl, rfl⟩
  | cons p ps ih =>
    rw [List.foldl_cons]
    have hp : (s.removeCover p).reg.settings = s.reg.settings
        ∧ (s.removeCover p).reg.notifier = s.reg.notifier := by
      unfold removeCover
      cases s.reg.covers.lookup p with
      | none => exact ⟨rfl, rfl⟩
      | some c => exact retire_pushed _ c
    exact ⟨(ih _).1.trans hp.1, (ih _).2.trans hp.2⟩

theorem reap_settings (s : Sys σ) : s.reap.reg.settings = s.reg.settings := by
  unfold reap
  exact List.foldlRecOn (motive := fun u : Sys σ => u.reg.settings = s.reg.settings)
    (s.reg.retired.filter s.finished) _ rfl fun u hu l _ => by rw [dropLoader_reg, hu]

theorem warm_settings (s : Sys σ) (env : Env) (play : PlayParams) (now : Instant) :
    (s.warm env play now).reg.settings = s.reg.settings := by
  unfold warm
  split_ifs <;> rfl

variable [Source σ]

theorem pickUp_settings (s : Sys σ) (now : Instant) (c : Cover σ) :
    (s.pickUp now c).2.reg.settings = s.reg.settings := by
  unfold pickUp
  cases c.state with
  | opening loader retry =>
    -- taking the message out leaves the registry
    have hrecv : (s.tryRecv loader).2.reg = s.reg := by
      unfold tryRecv
      cases (s.threads loader.rx).sent <;> rfl
    dsimp only
    rcases hr : s.tryRecv loader with ⟨r, v⟩
    rw [hr] at hrecv
    have hv : v.reg.settings = s.reg.settings := congrArg Registry.settings hrecv
    -- whatever the message was, the loader is dropped
    rcases r with _ | _ | (e | ⟨src, frame⟩)
    · exact hv
    · rw [dropLoader_reg]
      exact hv
    · cases e with
      | missing p =>
        cases retry with
        | true => exact (congrArg Registry.settings (dropLoader_reg _ _)).trans hv
        | false => exact (congrArg Registry.settings (dropLoader_reg _ _)).trans hv
      | _ => exact (congrArg Registry.settings (dropLoader_reg _ _)).trans hv
    · rw [dropLoader_reg]
      exact hv
  | _ => rfl

theorem pollReady_settings (s : Sys σ) (now : Instant) (c : Cover σ) :
    (s.pollReady now c).2.reg.settings = s.reg.settings := by
  unfold pollReady
  cases c.state with
  | ready src =>
    dsimp only
    split_ifs
    · rcases Source.poll src now with ⟨e | _ | f, src'⟩ <;> rfl
    · rfl
  | _ => rfl

theorem resolve_settings (s : Sys σ) (env : Env) (play : PlayParams) (now : Instant) :
    (s.resolve env play now).1.reg.settings = s.reg.settings := by
  by_cases hpath : play.path = ""
  · unfold resolve
    rw [if_pos hpath]
  obtain ⟨c, -, hresolve⟩ := s.resolve_eq env now hpath
  -- the steps of `resolve`, one by one
  have hpresent : ∀ (u : Sys σ) d, (u.present play d).1.reg.settings = u.reg.settings := by
    intro u d
    rw [present_reg]
    rfl
  have hretry : ∀ (u : Sys σ) d, (u.retryMissing env play now d).2.reg.settings
      = u.reg.settings := by
    intro u d
    unfold retryMissing
    cases d.state with
    | missing retryAt =>
      dsimp only
      split_ifs <;> rfl
    | _ => rfl
  have hensure : (s.ensure env play now).reg.settings = s.reg.settings := by
    unfold ensure
    split_ifs <;> rfl
  rw [hresolve, hpresent]
  unfold advance
  dsimp only
  rw [pollReady_settings, pickUp_settings, hretry, hensure]

/-- Only `set_settings` changes the settings. -/
theorem step_settings (s : Sys σ) {e : Event σ}
    (he : ∀ env settings error now, e ≠ .setSettings env settings error now) :
    (s.step e).1.reg.settings = s.reg.settings := by
  cases e with
  | setSettings env settings error now => exact absurd rfl (he env settings error now)
  | warm env play now => exact s.warm_settings env play now
  | beginFrame => exact reap_settings _
  | resolve env play now => exact s.resolve_settings env play now
  | endFrame env now => exact (s.removeCovers_pushed _).1
  | deliver t opened polls =>
    show (s.send t _).reg.settings = _
    unfold send
    split_ifs <;> rfl
  | crash t =>
    show (s.send t _).reg.settings = _
    unfold send
    split_ifs <;> rfl
  | finish t =>
    show (s.finish t).reg.settings = _
    unfold finish
    split_ifs <;> rfl

omit [Source σ] in
theorem setSettings_settings (s : Sys σ) (env : Env) (settings : Settings)
    (error : Option ConfigError) (now : Instant) :
    (s.setSettings env settings error now).reg.settings = some settings := by
  unfold setSettings
  split_ifs with hsame
  · exact hsame
  · unfold prewarm
    dsimp only
    split_ifs
    · rfl
    · rw [warm_settings]
      rfl

omit [Source σ] in
theorem prewarm_notifier (s : Sys σ) (env : Env) (now : Instant) :
    (s.prewarm env now).reg.notifier = s.reg.notifier := by
  unfold prewarm
  dsimp only
  split_ifs
  · rfl
  · unfold warm
    split_ifs <;> rfl

/-- What a push of settings queues: the error, if the settings change. -/
theorem pushed_setSettings (s : Sys σ) (env : Env) (settings : Settings)
    (error : Option ConfigError) (now : Instant) :
    s.pushed (.setSettings env settings error now)
      = if s.reg.settings = some settings then [] else (error.map ConfigError.toString).toList := by
  show (s.hushed.setSettings env settings error now).reg.notifier.queue = _
  unfold setSettings
  by_cases hsame : s.reg.settings = some settings
  · rw [if_pos hsame, if_pos (show s.hushed.reg.settings = some settings from hsame)]
    rfl
  · rw [if_neg hsame, if_neg (show s.hushed.reg.settings ≠ some settings from hsame), prewarm_notifier]
    unfold reset
    dsimp only
    rw [(removeCovers_pushed _ _).2]
    cases error <;> rfl

end Sys

/-! ### Pushes -/

/-- The push before: the last one among the calls so far. -/
def Ffi.lastPush {σ : Type} (calls : List (Ffi σ)) : Option Push :=
  (calls.filterMap fun
    | .setSettings p _ _ => some p
    | _ => none).getLast?

/-- What the README says of one push after `prev`: an unknown backend that was not
pushed before is reported once, by name, and the same raw settings queue nothing. -/
structure Reported (prev : Option Push) (p : Push) (msgs : List String) : Prop where
  once : Backend.parse p.raw.backend = none →
    (∀ q ∈ prev, q.raw.backend ≠ p.raw.backend) →
      msgs = [(ConfigError.unknownBackend p.raw.backend).toString]
  again : ∀ q ∈ prev, q.raw = p.raw → msgs = []

/-- The settings after sanitising tell the pushes apart: another backend that is unknown gives other
settings than before, and the same raw settings with an unknown backend give the same ones. -/
structure Noticed (prev : Option Push) (p : Push) : Prop where
  new : Backend.parse p.raw.backend = none →
    ∀ q ∈ prev, q.raw.backend ≠ p.raw.backend → q.settings ≠ p.settings
  same : Backend.parse p.raw.backend = none →
    ∀ q ∈ prev, q.raw = p.raw → q.settings = p.settings

section Pushes

variable {σ : Type} [Source σ]

/-- The settings in force are those of the last push. -/
theorem settings_eq_lastPush (defaults : Settings) (calls : List (Ffi σ)) :
    (run Ffi.step (Sys.init defaults) calls).reg.settings
      = (Ffi.lastPush calls).map Push.settings := by
  induction calls using List.reverseRecOn with
  | nil => rfl
  | append_singleton calls c ih =>
    rw [run_append]
    unfold Ffi.lastPush at ih ⊢
    rw [List.filterMap_append]
    cases c with
    | setSettings p env now =>
      -- the one call that changes what was pushed last
      rw [show [Ffi.setSettings p env now].filterMap _ = [p] from rfl, List.getLast?_concat]
      exact Sys.setSettings_settings _ env _ _ now
    | nextNotification =>
      rw [show [Ffi.nextNotification].filterMap _ = ([] : List Push) from rfl, List.append_nil]
      exact ih
    | other e h =>
      rw [show [Ffi.other e h].filterMap _ = ([] : List Push) from rfl, List.append_nil]
      exact (Sys.step_settings _ h).trans ih

theorem pushed_event (defaults : Settings) (past : List (Ffi σ)) (p : Push) (env : Env)
    (now : Instant) :
    (run Ffi.step (Sys.init defaults) past).pushed (p.event env now)
      = if (Ffi.lastPush past).map Push.settings = some p.settings then []
        else if Backend.parse p.raw.backend = none
          then [(ConfigError.unknownBackend p.raw.backend).toString] else [] := by
  unfold Push.event
  rw [Sys.pushed_setSettings, settings_eq_lastPush]
  unfold Push.settings Settings.fromRaw
  dsimp only
  -- only a name that is not known is an error
  by_cases hknown : Backend.parse p.raw.backend = none
  · rw [if_pos hknown, if_pos hknown]
    rfl
  · rw [if_neg hknown, if_neg hknown]
    rfl

/-- **Which pushes report an unknown backend as they should**, after any calls. -/
theorem reported_iff (defaults : Settings) (past : List (Ffi σ)) (p : Push) (env : Env)
    (now : Instant) :
    Reported (Ffi.lastPush past) p
        ((run Ffi.step (Sys.init defaults) past).pushed (p.event env now))
      ↔ Noticed (Ffi.lastPush past) p := by
  rw [pushed_event]
  by_cases hknown : Backend.parse p.raw.backend = none
  swap
  · -- a known backend is never reported
    refine iff_of_true ⟨fun h => absurd h hknown, fun q _ _ => ?_⟩
      ⟨fun h => absurd h hknown, fun h => absurd h hknown⟩
    rw [if_neg hknown]
    exact ite_self _
  rw [if_pos hknown]
  have hmsg : [(ConfigError.unknownBackend p.raw.backend).toString] ≠ [] := List.cons_ne_nil _ _
  cases hprev : Ffi.lastPush past with
  | none =>
    rw [if_neg (by simp)]
    exact iff_of_true ⟨fun _ _ => rfl, fun q hq => absurd hq (Option.not_mem_none q)⟩
      ⟨fun _ q hq => absurd hq (Option.not_mem_none q),
        fun _ q hq => absurd hq (Option.not_mem_none q)⟩
  | some q =>
    have hq : ∀ {P : Push → Prop}, (∀ r ∈ some q, P r) ↔ P q := by simp
    -- the same settings as before: the call returns early
    by_cases hsame : q.settings = p.settings
    · rw [if_pos (show (some q).map Push.settings = some p.settings from congrArg some hsame)]
      constructor
      · rintro ⟨honce, -⟩
        refine ⟨fun _ => hq.2 fun hne => ?_, fun _ => hq.2 fun _ => hsame⟩
        exact absurd (honce hknown (hq.2 hne)) hmsg.symm
      · rintro ⟨hnew, -⟩
        refine ⟨fun _ hne => ?_, fun _ _ _ => rfl⟩
        exact absurd hsame (hq.1 (hnew hknown) (hq.1 hne))
    -- new settings: the error is pushed
    · rw [if_neg (show (some q).map Push.settings ≠ some p.settings from
        fun h => hsame (Option.some.inj h))]
      constructor
      · rintro ⟨-, hagain⟩
        exact ⟨fun _ => hq.2 fun _ => hsame,
          fun _ => hq.2 fun hraw => absurd (hagain q rfl hraw) hmsg⟩
      · rintro ⟨-, hraw⟩
        exact ⟨fun _ _ => rfl, hq.2 fun h => absurd (hq.1 (hraw hknown) h) hsame⟩

/-- **A sequence of pushes reports every unknown backend as it should** if and only if the settings
after sanitising tell each push from the one before. -/
theorem backend_reported_iff (defaults : Settings) (calls : List (Ffi σ)) :
    (∀ past p env now rest, calls = past ++ .setSettings p env now :: rest →
      Reported (Ffi.lastPush past) p
        ((run Ffi.step (Sys.init defaults) past).pushed (p.event env now)))
    ↔ ∀ past p env now rest, calls = past ++ .setSettings p env now :: rest →
      Noticed (Ffi.lastPush past) p :=
  forall₅_congr fun past p env now _ => imp_congr_right fun _ =>
    reported_iff defaults past p env now

end Pushes

/-- The raw settings of a config with a cover and the given backend. -/
def pushBackend (word : String) : Push :=
  { files := { home := some "/home/u", present := fun _ => false }
    raw := { pathCover := "/cover.png", looped := true, speed := some 1, backend := word,
             gpuDevice := "" } }

/-- `vulkan` after `auto` gives the settings that are in force, and nobody hears of it. -/
theorem unknown_backend_unreported :
    let past : List (Ffi Solid) := [.setSettings (pushBackend "auto") exampleEnv 0]
    let s := run Ffi.step (Sys.init exampleSettings) past
    Backend.parse "vulkan" = none
      ∧ s.pushed ((pushBackend "vulkan").event exampleEnv 1) = []
      ∧ ¬ Reported (Ffi.lastPush past) (pushBackend "vulkan")
        (s.pushed ((pushBackend "vulkan").event exampleEnv 1)) := by
  intro past s
  -- "vulkan" is taken for `auto`, so the settings are the same
  have hunknown : Backend.parse "vulkan" = none := by decide +kernel
  have hpushed : s.pushed ((pushBackend "vulkan").event exampleEnv 1) = [] := by decide +kernel
  refine ⟨hunknown, hpushed, fun h => ?_⟩
  have honce := h.once hunknown fun q hq => by
    cases Option.mem_some.1 hq
    decide
  rw [hpushed] at honce
  exact List.cons_ne_nil _ _ honce.symm

end NoshareCover
