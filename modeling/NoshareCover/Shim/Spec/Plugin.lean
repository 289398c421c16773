import Mathlib.Data.List.Perm.Basic
import NoshareCover.Shim.Plugin

/-!
# What the plugin leaves behind

`Plugin.Host.takes` is what Hyprland and the core can be asked for: nothing is registered twice or
taken back that is not there, what calls into the core comes and goes while it runs, and it stops
only when nothing calls into it any more.  The plugin keeps to it
whatever Hyprland answers, also when an answer is an exception in the middle of the loading, and at
the end nothing of it is left (`Plugin.life_leaves_nothing`).
-/

namespace NoshareCover

namespace Plugin

open Calls

/-! ### The contract -/

/-- A rule effect of Hyprland. -/
structure Effect where
  kind : SurfaceKind
  name : String
  id : EffectId
  deriving DecidableEq, Repr

namespace Effect

/-- What it is registered under. -/
def key (e : Effect) : SurfaceKind × String := (e.kind, e.name)

/-- What it is taken back by. -/
def handle (e : Effect) : SurfaceKind × EffectId := (e.kind, e.id)

end Effect

/-- What is registered with Hyprland, which hooks are in place, and whether the core runs. -/
structure Host where
  core : Bool
  effects : List Effect
  listeners : List Listener
  hooks : List Hook
  active : List Hook
  timers : List Timer
  deriving DecidableEq, Repr

namespace Host

def empty : Host :=
  { core := false, effects := [], listeners := [], hooks := [], active := [], timers := [] }

def takes (s : Host) : Call → Option Host
  | .addNotification _ => some s
  | .nscInit ok => if s.core = false then some { s with core := ok } else none
  -- the clients may hook the functions now
  | .nscNotifyGone => if s.hooks = [] then some s else none
  | .nscShutdown =>
    -- these call into the core
    if s.listeners = [] ∧ s.active = [] ∧ s.timers = [] then some { s with core := false } else none
  | .registerEffect kind name id =>
    if s.core ∧ (kind, name) ∉ s.effects.map Effect.key then
      some { s with effects := { kind, name, id } :: s.effects }
    else none
  | .unregisterEffect kind id =>
    -- the rules no longer ask the core
    if s.core = false ∧ (kind, id) ∈ s.effects.map Effect.handle then
      some { s with effects := s.effects.eraseP fun e => (kind, id) == e.handle }
    else none
  | .addConfigValue _ _ => if s.core then some s else none
  | .listen l =>
    if s.core ∧ l ∉ s.listeners then some { s with listeners := l :: s.listeners } else none
  | .unlisten l =>
    if s.core ∧ l ∈ s.listeners then some { s with listeners := s.listeners.erase l } else none
  | .createFunctionHook h ok =>
    if s.core ∧ h ∉ s.hooks then some (if ok then { s with hooks := h :: s.hooks } else s) else none
  | .hook h ok =>
    if s.core ∧ h ∈ s.hooks ∧ h ∉ s.active then
      some (if ok then { s with active := h :: s.active } else s)
    else none
  | .removeFunctionHook h =>
    if s.core ∧ h ∈ s.hooks then
      some { s with hooks := s.hooks.erase h, active := s.active.erase h }
    else none
  | .addTimer t =>
    if s.core ∧ t ∉ s.timers then some { s with timers := t :: s.timers } else none
  | .removeTimer t =>
    if s.core ∧ t ∈ s.timers then some { s with timers := s.timers.erase t } else none

end Host

/-! ### The globals say what is registered -/

/-- The effects that the plugin has to take back. -/
def effects (p : Plugin) : List (SurfaceKind × EffectId) :=
  p.windowEffects.map (.window, ·) ++ p.layerEffects.map (.layer, ·)

structure Fits (p : Plugin) (s : Host) : Prop where
  effects : (s.effects.map Effect.handle).Perm p.effects
  listeners : s.listeners = p.listeners
  hooks : s.hooks = p.hooks
  active : s.active = p.hooks
  timers : s.timers = p.timers
  nodup_listeners : p.listeners.Nodup
  nodup_hooks : p.hooks.Nodup
  nodup_timers : p.timers.Nodup
  /-- Without the core there is nothing that calls into it. -/
  core_or_none : s.core = true ∨ p.listeners = [] ∧ p.hooks = [] ∧ p.timers = []

theorem fits_unloaded : Fits unloaded Host.empty :=
  { effects := .refl _, listeners := rfl, hooks := rfl, active := rfl, timers := rfl,
    nodup_listeners := .nil, nodup_hooks := .nil, nodup_timers := .nil,
    core_or_none := .inr ⟨rfl, rfl, rfl⟩ }

namespace Fits

variable {p : Plugin} {s : Host}

/-- What is there to be taken back calls into a core that runs. -/
theorem core_of_listener (hp : Fits p s) {l : Listener} (hl : l ∈ p.listeners) : s.core = true :=
  hp.core_or_none.resolve_right fun hnone => List.ne_nil_of_mem hl hnone.1

theorem core_of_hook (hp : Fits p s) {h : Hook} (hh : h ∈ p.hooks) : s.core = true :=
  hp.core_or_none.resolve_right fun hnone => List.ne_nil_of_mem hh hnone.2.1

theorem core_of_timer (hp : Fits p s) {t : Timer} (ht : t ∈ p.timers) : s.core = true :=
  hp.core_or_none.resolve_right fun hnone => List.ne_nil_of_mem ht hnone.2.2

end Fits

/-- Also the core runs. -/
structure Running (p : Plugin) (s : Host) : Prop extends Fits p s where
  core : s.core = true

/-- Nothing of the plugin is left. -/
def Gone (p : Plugin) (s : Host) : Prop := p = unloaded ∧ s = Host.empty

section

variable {E : Plugin → Host → Prop}

/-! ### Loading -/

theorem safe_notify {P : Plugin → Host → Prop} (text : String) :
    Throwing.Safe Host.takes E P (notify text) fun _ => P := by
  refine .read fun q => ?_
  split
  · exact .call fun _ s hp => ⟨s, rfl, hp.2⟩
  · exact .pure fun _ _ hp => hp.2

/-- The plugin is about to register these effects and to listen to these events, and has hooked
nothing yet. -/
structure Loading (es : List (SurfaceKind × String)) (ls : List Listener) (p : Plugin) (s : Host) :
    Prop extends Running p s where
  unregistered : ∀ e ∈ es, e ∉ s.effects.map Effect.key
  nodup_effects : es.Nodup
  fresh : ∀ l ∈ ls, l ∉ p.listeners
  nodup : ls.Nodup
  unhooked : p.hooks = []

theorem safe_registerEffect (a : Load) (kind : SurfaceKind) (name : String)
    (es : List (SurfaceKind × String)) {ls : List Listener} :
    Throwing.Safe Host.takes Fits (Loading ((kind, name) :: es) ls) (registerEffect a kind name)
      fun _ => Loading es ls := by
  unfold registerEffect
  split
  -- without an id the load fails, and what is registered so far fits
  · exact .throw fun _ _ hp => hp.toFits
  · rename_i id _
    refine .call fun p s hp => ?_
    have hnew : (kind, name) ∉ s.effects.map Effect.key := hp.unregistered _ (List.mem_cons_self ..)
    have hnodup := List.nodup_cons.mp hp.nodup_effects
    -- what is still to register is not this one, and was not registered before
    have hleft : ∀ e ∈ es, e ∉ ((kind, name) :: s.effects.map Effect.key) := by
      intro e he hmem
      obtain rfl | hmem := List.mem_cons.mp hmem
      · exact hnodup.1 he
      · exact hp.unregistered e (List.mem_cons_of_mem _ he) hmem
    refine ⟨_, if_pos ⟨hp.core, hnew⟩, ?_⟩
    cases kind with
    -- the new id goes behind those of its kind
    | window =>
      refine { hp with
        effects := ?_, core_or_none := .inl hp.core, unregistered := hleft,
        nodup_effects := hnodup.2 }
      have hmove : ((p.windowEffects ++ [id]).map (SurfaceKind.window, ·)
          ++ p.layerEffects.map (SurfaceKind.layer, ·)).Perm ((.window, id) :: p.effects) := by
        rw [List.map_append, List.append_assoc]
        exact List.perm_middle
      exact (hp.effects.cons _).trans hmove.symm
    | layer =>
      refine { hp with
        effects := ?_, core_or_none := .inl hp.core, unregistered := hleft,
        nodup_effects := hnodup.2 }
      have hmove : (p.windowEffects.map (SurfaceKind.window, ·)
          ++ (p.layerEffects ++ [id]).map (SurfaceKind.layer, ·)).Perm
          ((.layer, id) :: p.effects) := by
        rw [List.map_append, ← List.append_assoc]
        exact List.perm_append_singleton _ _
      exact (hp.effects.cons _).trans hmove.symm

/-- Effects of one kind, while others are still left. -/
theorem safe_registerEffects (a : Load) (kind : SurfaceKind) (names : List String)
    (es : List (SurfaceKind × String)) {ls : List Listener} :
    Throwing.Safe Host.takes Fits (Loading (names.map (kind, ·) ++ es) ls)
      (names.forM (registerEffect a kind)) fun _ => Loading es ls :=
  .forM (I := fun names => Loading (names.map (kind, ·) ++ es) ls)
    (fun name names => safe_registerEffect a kind name (names.map (kind, ·) ++ es)) names

theorem safe_makeValue (a : Load) (name : String) {es : List (SurfaceKind × String)}
    {ls : List Listener} :
    Throwing.Safe Host.takes Fits (Loading es ls) (makeValue a name) fun _ => Loading es ls := by
  unfold makeValue
  split
  · exact .throw fun _ _ hp => hp.toFits
  · rename_i ok _
    have hadd : Throwing.Safe Host.takes Fits (Loading es ls) (ask (.addConfigValue name ok))
        fun _ => Loading es ls := .call fun _ s hp => ⟨s, if_pos hp.core, hp⟩
    refine hadd.bind fun _ => ?_
    split
    · exact safe_notify _
    · exact .pure fun _ _ hp => hp

/-- The effects that are to be registered, none of them twice. -/
def allEffects : List (SurfaceKind × String) :=
  effectNames.map (.window, ·) ++ (effectNames.map (.layer, ·) ++ [])

theorem nodup_allEffects : allEffects.Nodup := by decide +kernel

theorem safe_registerConfig (a : Load) {ls : List Listener} :
    Throwing.Safe Host.takes Fits (Loading allEffects ls) (registerConfig a)
      fun _ => Loading [] ls :=
  (safe_registerEffects a .window effectNames _).bind fun _ =>
  (safe_registerEffects a .layer effectNames []).bind fun _ =>
  Throwing.Safe.forM (I := fun _ => Loading [] ls) (fun name _ => safe_makeValue a name) configNames

theorem safe_listen (a : Load) (l : Listener) (ls : List Listener) :
    Throwing.Safe Host.takes Fits (Loading [] (l :: ls)) (listen a l) fun _ => Loading [] ls := by
  unfold listen
  split
  -- the core refused the listener
  · exact .throw fun _ _ hp => hp.toFits
  · refine .call fun p s hp => ?_
    have hnew : l ∉ p.listeners := hp.fresh l (List.mem_cons_self ..)
    have hnodup := List.nodup_cons.mp hp.nodup
    refine ⟨{ s with listeners := l :: s.listeners }, ?_, ?_⟩
    · simp only [Host.takes, hp.core, hp.listeners, hnew, not_false_eq_true, and_self, if_true]
    · refine { hp with
        listeners := ?_, nodup_listeners := ?_, core_or_none := .inl hp.core, fresh := ?_,
        nodup := hnodup.2 }
      · show l :: s.listeners = l :: p.listeners
        rw [hp.listeners]
      · exact List.nodup_cons.mpr ⟨hnew, hp.nodup_listeners⟩
      -- the listeners still to come are others
      · intro l' hl' hmem
        obtain rfl | hmem := List.mem_cons.mp hmem
        · exact hnodup.1 hl'
        · exact hp.fresh l' (List.mem_cons_of_mem l hl') hmem

/-- The hook was created and is not in place. -/
def Created (hook : Hook) (p : Plugin) (s : Host) : Prop :=
  hook ∉ p.hooks ∧ ∃ s₀, Running p s₀ ∧ s = { s₀ with hooks := hook :: s₀.hooks }

theorem safe_tryHook (hook : Hook) (created hooked : Bool) :
    Throwing.Safe Host.takes E (fun p s => hook ∉ p.hooks ∧ Running p s)
      (tryHook hook created hooked) fun _ => Running := by
  have hcreate : Throwing.Safe Host.takes E (fun p s => hook ∉ p.hooks ∧ Running p s)
      (ask (.createFunctionHook hook created))
      fun _ p s => if created then Created hook p s else Running p s := by
    -- the core made the hook, or not; neither is active yet
    refine .call fun p s hp =>
      ⟨if created then { s with hooks := hook :: s.hooks } else s, ?_, ?_⟩
    · simp only [Host.takes, hp.2.core, hp.2.hooks, hp.1, not_false_eq_true, and_self, if_true]
    · split
      · exact ⟨hp.1, s, hp.2, rfl⟩
      · exact hp.2
  refine hcreate.bind fun _ => ?_
  cases created with
  | false => exact .pure fun _ _ hp => hp
  | true =>
    -- a hook is taken when it was made and is not active
    have htaken (p : Plugin) (s : Host) (ok : Bool) (hp : Created hook p s) :
        Host.takes s (.hook hook ok)
          = some (if ok then { s with active := hook :: s.active } else s) := by
      obtain ⟨hnew, s₀, hs₀, rfl⟩ := hp
      simp only [Host.takes, hs₀.core, hs₀.active, hnew, List.mem_cons_self, not_false_eq_true,
        and_self, if_true]
    cases hooked with
    -- now the hook is active, and the plugin keeps it
    | true =>
      refine (Throwing.Safe.call (Q := fun _ => Running) fun p s hp => ?_).bind fun _ =>
        .pure fun _ _ hp => hp
      refine ⟨{ s with active := hook :: s.active }, htaken p s true hp, ?_⟩
      obtain ⟨hnew, s₀, hs₀, rfl⟩ := hp
      refine { hs₀ with
        hooks := ?_, active := ?_, nodup_hooks := ?_, core_or_none := .inl hs₀.core }
      · exact congrArg (hook :: ·) hs₀.hooks
      · exact congrArg (hook :: ·) hs₀.active
      · exact List.nodup_cons.mpr ⟨hnew, hs₀.nodup_hooks⟩
    -- a hook that does not take is removed at once
    | false =>
      refine (Throwing.Safe.call (Q := fun _ => Created hook) fun p s hp =>
        ⟨s, htaken p s false hp, hp⟩).bind fun _ => ?_
      refine (Throwing.Safe.call (Q := fun _ => Running) fun p s hp => ?_).bind fun _ =>
        .pure fun _ _ hp => hp
      obtain ⟨hnew, s₀, hs₀, rfl⟩ := hp
      refine ⟨s₀, ?_, hs₀⟩
      have hinactive : hook ∉ s₀.active := hs₀.active ▸ hnew
      simp only [Host.takes, hs₀.core, List.mem_cons_self, and_self, if_true, List.erase_cons_head,
        List.erase_of_not_mem hinactive]
      rw [← hs₀.core]

theorem safe_tryInstallHook (created hooked : Bool) :
    Throwing.Safe Host.takes E Running (tryInstallHook created hooked) fun _ => Running := by
  refine .read fun q => ?_
  split
  · exact .pure fun _ _ hp => hp.2
  · rename_i hnew
    exact (safe_tryHook .renderMonitor created hooked).mono (fun _ _ hp => ⟨hp.1 ▸ hnew, hp.2⟩)
      fun _ _ _ hp => hp

theorem safe_addTimer (timer : Timer) :
    Throwing.Safe Host.takes E Running (addTimer timer) fun _ => Running := by
  refine .read fun q => ?_
  split
  · exact .pure fun _ _ hp => hp.2
  · rename_i hnew
    refine .call fun p s hp => ?_
    obtain ⟨rfl, hp⟩ := hp
    refine ⟨{ s with timers := timer :: s.timers }, ?_, ?_⟩
    · simp only [Host.takes, hp.core, hp.timers, hnew, not_false_eq_true, and_self, if_true]
    · exact { hp with
        timers := congrArg (timer :: ·) hp.timers
        nodup_timers := List.nodup_cons.mpr ⟨hnew, hp.nodup_timers⟩
        core_or_none := .inl hp.core }

theorem safe_installHooks (a : Load) :
    Throwing.Safe Host.takes Fits (Loading [] []) (installHooks a) fun _ => Running := by
  have hinstall : Throwing.Safe Host.takes Fits Running
      (do if !(← tryInstallHook (a.created .renderMonitor) (a.hooked .renderMonitor)) then
            addTimer .hookRetry) fun _ => Running := by
    -- a hook that is not there yet is tried again by a timer
    refine (safe_tryInstallHook _ _).bind fun installed => ?_
    split
    · exact safe_addTimer .hookRetry
    · exact .pure fun _ _ hp => hp
  unfold installHooks
  split
  · exact .throw fun _ _ hp => hp.toFits
  · exact .throw fun _ _ hp => hp.toFits
  -- the zoom hook may be there or not, the render hook comes behind it
  · split
    · exact .throw fun _ _ hp => hp.toFits
    · rename_i zoom _
      cases zoom with
      | false => exact hinstall.mono (fun _ _ hp => hp.toRunning) fun _ _ _ hp => hp
      | true =>
        refine ((safe_tryHook .applyZoomTransform _ _).mono (fun p s hp => ⟨?_, hp.toRunning⟩)
          fun _ _ _ hp => hp).bind fun _ => hinstall
        rw [hp.unhooked]
        exact List.not_mem_nil

/-- Only the handle is set. -/
def Handled (p : Plugin) (s : Host) : Prop := p = { unloaded with handle := true } ∧ s = Host.empty

theorem Handled.fits {p : Plugin} {s : Host} (hp : Handled p s) : Fits p s := by
  obtain ⟨rfl, rfl⟩ := hp
  exact { fits_unloaded with }

/-- When the core has started, the plugin can register its effects and listen. -/
theorem safe_nscInit (ok : Bool) (es : List (SurfaceKind × String)) (ls : List Listener)
    (hes : es.Nodup) (hls : ls.Nodup) :
    Throwing.Safe Host.takes E Handled (ask (.nscInit ok))
      fun _ p s => Fits p s ∧ (ok = true → Loading es ls p s) := by
  refine .call fun p s hp => ⟨{ s with core := ok }, ?_, ?_, ?_⟩
  · obtain ⟨rfl, rfl⟩ := hp
    rfl
  · obtain ⟨rfl, rfl⟩ := hp
    -- the core did not start: nothing is registered, which fits
    exact { fits_unloaded with core_or_none := .inr ⟨rfl, rfl, rfl⟩ }
  -- it started, with everything still to register
  · rintro rfl
    obtain ⟨rfl, rfl⟩ := hp
    exact { fits_unloaded with
      core := rfl
      core_or_none := .inl rfl
      unregistered := fun _ _ => List.not_mem_nil
      nodup_effects := hes
      fresh := fun _ _ => List.not_mem_nil
      nodup := hls
      unhooked := rfl }

theorem safe_initImpl (a : Load) :
    Throwing.Safe Host.takes Fits Gone (initImpl a) fun _ => Running := by
  unfold initImpl
  -- the handle comes first, as the notifications need it
  refine (Throwing.Safe.modify (Q := fun _ => Handled) fun p s hp => ?_).bind fun _ => ?_
  · exact ⟨by rw [hp.1], hp.2⟩
  dsimp only
  split
  · exact (safe_notify _).bind fun _ => .throw_bind fun _ _ hp => hp.fits
  refine (safe_nscInit a.core allEffects [.windowClose, .layerClose, .windowOpen, .windowRules,
    .layerOpen, .layerRules, .reload] nodup_allEffects (by decide)).bind fun _ => ?_
  -- a core that does not start ends the load
  split
  · exact .throw_bind fun _ _ hp => hp.1
  rename_i hcore
  -- six listeners now, the one for the reload at the end
  have hlisten := Throwing.Safe.forM (I := fun ls => Loading [] (ls ++ [.reload]))
    (fun l ls => safe_listen a l (ls ++ [.reload]))
    [Listener.windowClose, .layerClose, .windowOpen, .windowRules, .layerOpen, .layerRules]
  refine ((safe_registerConfig a).mono ?_ fun _ _ _ hp => hp).bind fun _ =>
    hlisten.bind fun _ => ?_
  · exact fun _ _ hp => hp.2 (by simpa using hcore)
  -- the covers to warm up are read from the configuration
  refine (Throwing.Safe.forM (I := fun _ => Loading [] [.reload]) (fun r _ => ?_) a.prewarm).bind
    fun _ => (safe_listen a .reload []).bind fun _ => safe_installHooks a
  split
  · exact .throw fun _ _ hp => hp.toFits
  · exact .pure fun _ _ hp => hp

/-! ### Unloading -/

theorem erase_subset_of_cons {α : Type} [DecidableEq α] {a : α} {as bs : List α} (hnodup : as.Nodup)
    (hsub : as ⊆ a :: bs) : as.erase a ⊆ bs := by
  intro b hb
  obtain ⟨hne, hmem⟩ := hnodup.mem_erase_iff.mp hb
  exact (List.mem_cons.mp (hsub hmem)).resolve_left hne

theorem subset_of_cons {α : Type} {a : α} {as bs : List α} (ha : a ∉ as) (hsub : as ⊆ a :: bs) :
    as ⊆ bs := by
  intro b hb
  exact (List.mem_cons.mp (hsub hb)).resolve_left fun heq => ha (heq ▸ hb)

/-- What is registered is among these. -/
structure Within (ls : List Listener) (hs : List Hook) (ts : List Timer) (p : Plugin) (s : Host) :
    Prop extends Fits p s where
  listeners_sub : p.listeners ⊆ ls
  hooks_sub : p.hooks ⊆ hs
  timers_sub : p.timers ⊆ ts

variable {ls : List Listener} {hs : List Hook} {ts : List Timer}

theorem safe_unlisten (l : Listener) :
    Throwing.Safe Host.takes E (Within (l :: ls) hs ts) (unlisten l) fun _ => Within ls hs ts := by
  refine .read fun q => ?_
  split
  -- registered: the core takes it back once
  · rename_i hmem
    refine .call fun p s hp => ?_
    obtain ⟨rfl, hp⟩ := hp
    refine ⟨{ s with listeners := s.listeners.erase l }, ?_, ?_⟩
    · simp only [Host.takes, hp.core_of_listener hmem, hp.listeners, hmem, and_self, if_true]
    · exact { hp with
        core_or_none := .inl (hp.core_of_listener hmem)
        listeners := congrArg (·.erase l) hp.listeners
        nodup_listeners := hp.nodup_listeners.erase l
        listeners_sub := erase_subset_of_cons hp.nodup_listeners hp.listeners_sub }
  -- not registered, so nothing is called
  · rename_i hnew
    refine .pure fun p s hp => ?_
    obtain ⟨rfl, hp⟩ := hp
    exact { hp with listeners_sub := subset_of_cons hnew hp.listeners_sub }

theorem safe_stopTimer (timer : Timer) :
    Throwing.Safe Host.takes E (Within ls hs (timer :: ts)) (stopTimer timer)
      fun _ => Within ls hs ts := by
  refine .read fun q => ?_
  split
  -- running: the timer is deleted once
  · rename_i hmem
    refine .call fun p s hp => ?_
    obtain ⟨rfl, hp⟩ := hp
    refine ⟨{ s with timers := s.timers.erase timer }, ?_, ?_⟩
    · simp only [Host.takes, hp.core_of_timer hmem, hp.timers, hmem, and_self, if_true]
    · exact { hp with
        core_or_none := .inl (hp.core_of_timer hmem)
        timers := congrArg (·.erase timer) hp.timers
        nodup_timers := hp.nodup_timers.erase timer
        timers_sub := erase_subset_of_cons hp.nodup_timers hp.timers_sub }
  -- not running, so nothing is called
  · rename_i hnew
    refine .pure fun p s hp => ?_
    obtain ⟨rfl, hp⟩ := hp
    exact { hp with timers_sub := subset_of_cons hnew hp.timers_sub }

theorem safe_removeHook (hook : Hook) :
    Throwing.Safe Host.takes E (Within ls (hook :: hs) ts) (removeHook hook)
      fun _ => Within ls hs ts := by
  refine .read fun q => ?_
  split
  -- the hook is removed once, and is not active behind it
  · rename_i hmem
    refine .call fun p s hp => ?_
    obtain ⟨rfl, hp⟩ := hp
    refine ⟨{ s with hooks := s.hooks.erase hook, active := s.active.erase hook }, ?_, ?_⟩
    · simp only [Host.takes, hp.core_of_hook hmem, hp.hooks, hmem, and_self, if_true]
    · exact { hp with
        core_or_none := .inl (hp.core_of_hook hmem)
        hooks := congrArg (·.erase hook) hp.hooks
        active := congrArg (·.erase hook) hp.active
        nodup_hooks := hp.nodup_hooks.erase hook
        hooks_sub := erase_subset_of_cons hp.nodup_hooks hp.hooks_sub }
  -- no hook, so nothing is called
  · rename_i hnew
    refine .pure fun p s hp => ?_
    obtain ⟨rfl, hp⟩ := hp
    exact { hp with hooks_sub := subset_of_cons hnew hp.hooks_sub }

/-- Everything that can be registered. -/
theorem Fits.within {p : Plugin} {s : Host} (hp : Fits p s) :
    Within [.reload, .windowClose, .layerClose, .windowOpen, .windowRules, .layerOpen, .layerRules]
      [.renderMonitor, .applyZoomTransform] [.hookRetry, .pump, .sceneIdle] p s where
  toFits := hp
  listeners_sub l _ := by cases l <;> decide
  hooks_sub h _ := by cases h <;> decide
  timers_sub t _ := by cases t <;> decide

/-- Only these effects are left. -/
def OnlyEffects (es : List (SurfaceKind × EffectId)) (s : Host) : Prop :=
  ∃ es', (es'.map Effect.handle).Perm es ∧ s = { Host.empty with effects := es' }

theorem map_eraseP_handle (es : List Effect) (h : SurfaceKind × EffectId) :
    (es.eraseP fun e => h == e.handle).map Effect.handle = (es.map Effect.handle).erase h := by
  rw [List.erase_eq_eraseP, List.eraseP_map]
  rfl

theorem safe_unregister (q : Plugin) (kind : SurfaceKind) (ids : List EffectId)
    (rest : List (SurfaceKind × EffectId)) :
    Throwing.Safe Host.takes E (fun p s => p = q ∧ OnlyEffects (ids.map (kind, ·) ++ rest) s)
      (ids.forM fun id => ask (.unregisterEffect kind id))
      fun _ p s => p = q ∧ OnlyEffects rest s := by
  refine .forM (I := fun ids p s => p = q ∧ OnlyEffects (ids.map (kind, ·) ++ rest) s)
    (fun id ids => ?_) ids
  refine .call fun p s hp => ?_
  obtain ⟨hq, es, hperm, rfl⟩ := hp
  have hmem : (kind, id) ∈ es.map Effect.handle := hperm.mem_iff.mpr (List.mem_cons_self ..)
  refine ⟨_, if_pos ⟨rfl, hmem⟩, hq, es.eraseP fun e => (kind, id) == e.handle, ?_, rfl⟩
  have herase := hperm.erase (kind, id)
  rw [List.map_cons, List.cons_append, List.erase_cons_head] at herase
  rwa [map_eraseP_handle]

theorem safe_unregisterConfig (q : Plugin) :
    Throwing.Safe Host.takes E (fun p s => p = q ∧ OnlyEffects q.effects s) unregisterConfig
      fun _ p s => p = { q with windowEffects := [], layerEffects := [] } ∧ OnlyEffects [] s := by
  refine .read_named ((safe_unregister q .window q.windowEffects _).bind fun _ => ?_)
  let q' : Plugin := { q with windowEffects := [] }
  have hlayers := safe_unregister (E := E) q' .layer q.layerEffects []
  rw [List.append_nil] at hlayers
  have hmodify : Throwing.Safe Host.takes E
      (fun p s => p = q ∧ OnlyEffects (q.layerEffects.map (.layer, ·)) s)
      (modify fun p => { p with windowEffects := [] } : Act PUnit)
      fun _ p s => p = q' ∧ OnlyEffects (q.layerEffects.map (.layer, ·)) s :=
    .modify fun p s hp => ⟨by rw [hp.1], hp.2⟩
  refine hmodify.bind fun _ => .read_named (hlayers.bind fun _ => .modify fun p s hp => ⟨?_, hp.2⟩)
  rw [hp.1]

/-- When all else is taken back the core stops, and only effects are left. -/
theorem safe_nscShutdown :
    Throwing.Safe Host.takes E (Within [] [] []) (ask .nscShutdown) fun _ p s =>
      (p.listeners = [] ∧ p.hooks = [] ∧ p.timers = []) ∧ OnlyEffects p.effects s := by
  refine .call fun p s hp => ?_
  have hlisteners := List.subset_nil.mp hp.listeners_sub
  have hhooks := List.subset_nil.mp hp.hooks_sub
  have htimers := List.subset_nil.mp hp.timers_sub
  have hl : s.listeners = [] := hp.listeners.trans hlisteners
  have hh : s.hooks = [] := hp.hooks.trans hhooks
  have ha : s.active = [] := hp.active.trans hhooks
  have ht : s.timers = [] := hp.timers.trans htimers
  refine ⟨{ s with core := false }, if_pos ⟨hl, ha, ht⟩, ⟨hlisteners, hhooks, htimers⟩, s.effects,
    hp.effects, ?_⟩
  rw [hl, hh, ha, ht]
  rfl

theorem safe_cleanupAll : Throwing.Safe Host.takes E Fits cleanupAll fun _ => Gone := by
  -- the order of the calls is the order in which the lists get empty
  have hlisteners := Throwing.Safe.forM (t := Host.takes) (E := E)
    (I := fun ls => Within ls [.renderMonitor, .applyZoomTransform] [.hookRetry, .pump, .sceneIdle])
    (fun l _ => safe_unlisten l)
    [.reload, .windowClose, .layerClose, .windowOpen, .windowRules, .layerOpen, .layerRules]
  refine (hlisteners.mono (fun _ _ hp => hp.within) fun _ _ _ hp => hp).bind fun _ => ?_
  refine ((safe_stopTimer .hookRetry).bind fun _ => (safe_removeHook .renderMonitor).bind fun _ =>
    safe_removeHook .applyZoomTransform).bind fun _ => ?_
  refine (safe_stopTimer .pump).bind fun _ => (safe_stopTimer .sceneIdle).bind fun _ => ?_
  refine (Throwing.Safe.call (Q := fun _ => Within [] [] []) fun _ s hp => ⟨s, ?_, hp⟩).bind
    fun _ => ?_
  -- the hooks are gone when the callbacks are told that the core goes
  · exact if_pos (hp.hooks.trans (List.subset_nil.mp hp.hooks_sub))
  -- the effects are the last to go, when the core has stopped
  refine safe_nscShutdown.bind fun _ => .named fun q => ?_
  intro p s hp
  obtain ⟨rfl, ⟨hlisteners, hhooks, htimers⟩, heffects⟩ := hp
  refine ((safe_unregisterConfig p).bind fun _ => .modify fun p' s hp => ?_) p s ⟨rfl, heffects⟩
  obtain ⟨hp', es, hperm, rfl⟩ := hp
  -- the plugin and the host are both as at the start
  refine ⟨?_, ?_⟩
  · rw [hp', hlisteners, hhooks, htimers]
    rfl
  · rw [List.map_eq_nil_iff.mp hperm.eq_nil]
    rfl

/-! ### Runs -/

theorem safe_step (e : Event) : Throwing.Safe Host.takes E Running (step e) fun _ => Running := by
  cases e with
  | reload messages => exact .forM (I := fun _ => Running) (fun text _ => safe_notify text) messages
  | hookRetry created hooked =>
    refine .read fun q => ?_
    split
    · refine ((safe_tryInstallHook created hooked).mono (fun _ _ hp => hp.2) fun _ _ _ hp => hp).bind
        fun _ => .pure fun _ _ hp => hp
    · exact .pure fun _ _ hp => hp.2
  | startPump => exact safe_addTimer .pump
  | armSceneIdle => exact safe_addTimer .sceneIdle

theorem safe_pluginInit (a : Load) :
    Throwing.Safe Host.takes Gone Gone (pluginInit a) fun _ => Running :=
  (safe_initImpl a).tryCatch fun _ => safe_cleanupAll.bind fun _ => .throw fun _ _ hp => hp

theorem safe_life (a : Load) (es : List Event) :
    Throwing.Safe Host.takes Gone Gone (life a es) fun _ => Gone :=
  (safe_pluginInit a).bind fun _ =>
    (Throwing.Safe.forM (I := fun _ => Running) (fun e _ => safe_step e) es).bind fun _ =>
      safe_cleanupAll.mono (fun _ _ hp => hp.toFits) fun _ _ _ hp => hp

end

/-- Whatever Hyprland answers and wherever the loading is cut short by an exception, the plugin asks
only for what it can ask for; at its end, nothing of it is registered and the core does not run. -/
theorem life_leaves_nothing (a : Load) (es : List Event) :
    let run := (life a es).run.run unloaded
    Contract.take Host.takes .empty run.made = some .empty ∧ run.value.2 = unloaded := by
  intro run
  obtain ⟨s, htake, hs⟩ := safe_life a es unloaded .empty ⟨rfl, rfl⟩
  obtain ⟨hp, rfl⟩ := hs.same
  exact ⟨htake, hp⟩

end Plugin

end NoshareCover
