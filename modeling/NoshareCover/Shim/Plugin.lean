import NoshareCover.Lib.Contract

/-!
# Loading and unloading the plugin

What the plugin registers with Hyprland while it loads and runs, and what it takes back when it is
unloaded, or when loading it fails.  Hyprland's answers come with the operation that asks for them.
-/

namespace NoshareCover

namespace Plugin

inductive SurfaceKind where
  | window
  | layer
  deriving DecidableEq, Repr

/-- The rule effects, of windows and of layers. -/
def effectNames : List String :=
  ["no_screen_share_cover", "no_screen_share_cover_speed", "no_screen_share_cover_loop",
    "no_screen_share_cover_hold", "no_screen_share_show_to", "no_screen_share_hide_from",
    "no_screen_share_cover:path_cover", "no_screen_share_cover:speed", "no_screen_share_cover:loop"]

def configNames : List String :=
  ["path_cover", "loop", "speed", "backend", "gpu_device", "close_hold", "show_to", "hide_from",
    "cursor_over_covers"].map ("plugin:no_screen_share_cover:" ++ ·)

/-- Hyprland's events that the plugin listens to. -/
inductive Listener where
  | reload
  | windowClose
  | layerClose
  | windowOpen
  | windowRules
  | layerOpen
  | layerRules
  deriving DecidableEq, Repr

/-- The functions that are hooked: frames go through the first one, the second one is optional. -/
inductive Hook where
  | renderMonitor
  | applyZoomTransform
  deriving DecidableEq, Repr

inductive Timer where
  | hookRetry
  | pump
  | sceneIdle
  deriving DecidableEq, Repr

/-- The id of an effect that is registered; 0 is none. -/
abbrev EffectId := { id : ℕ // id ≠ 0 }

/-- The calls of Hyprland and of the core. -/
inductive Call where
  | addNotification (text : String)
  | nscInit (ok : Bool)
  | nscShutdown
  | nscNotifyGone
  | registerEffect (kind : SurfaceKind) (name : String) (id : EffectId)
  | unregisterEffect (kind : SurfaceKind) (id : EffectId)
  | addConfigValue (name : String) (ok : Bool)
  | listen (l : Listener)
  | unlisten (l : Listener)
  | createFunctionHook (hook : Hook) (ok : Bool)
  | hook (hook : Hook) (ok : Bool)
  | removeFunctionHook (hook : Hook)
  | addTimer (timer : Timer)
  | removeTimer (timer : Timer)
  deriving DecidableEq, Repr

end Plugin

/-- The globals of the shim that say what is registered. -/
structure Plugin where
  handle : Bool
  windowEffects : List Plugin.EffectId
  layerEffects : List Plugin.EffectId
  listeners : List Plugin.Listener
  hooks : List Plugin.Hook
  timers : List Plugin.Timer
  deriving DecidableEq, Repr

namespace Plugin

open Calls

def unloaded : Plugin :=
  { handle := false, windowEffects := [], layerEffects := [], listeners := [], hooks := [],
    timers := [] }

/-- Programs of the shim; an exception has a text. -/
abbrev Act (α : Type) := Throwing Call Plugin String α

/-- A call that changes no global. -/
def ask (c : Call) : Act Unit := Throwing.call c id

def notify (text : String) : Act Unit := do
  if (← get).handle then ask (.addNotification text)

/-! ### Loading -/

/-- What Hyprland and the core answer while the plugin is loaded.  An `error` is an exception. -/
structure Load where
  running : String
  built : String
  core : Bool
  effect : SurfaceKind → String → Except String EffectId
  configValue : String → Except String Bool
  listen : Listener → Except String Unit
  /-- The windows and layers that are open already. -/
  prewarm : List (Except String Unit)
  /-- Whether the functions are found, and then whether they can be hooked. -/
  found : Hook → Except String Bool
  created : Hook → Bool
  hooked : Hook → Bool

def registerEffect (a : Load) (kind : SurfaceKind) (name : String) : Act Unit :=
  match a.effect kind name with
  | .error e => throw e
  | .ok id => Throwing.call (.registerEffect kind name id) fun p =>
    match kind with
    | .window => { p with windowEffects := p.windowEffects ++ [id] }
    | .layer => { p with layerEffects := p.layerEffects ++ [id] }

def makeValue (a : Load) (name : String) : Act Unit :=
  match a.configValue name with
  | .error e => throw e
  | .ok ok => do
    ask (.addConfigValue name ok)
    if !ok then notify ("noshare-cover: failed to register config value " ++ name)

def registerConfig (a : Load) : Act Unit := do
  effectNames.forM (registerEffect a .window)
  effectNames.forM (registerEffect a .layer)
  configNames.forM (makeValue a)

def listen (a : Load) (l : Listener) : Act Unit :=
  match a.listen l with
  | .error e => throw e
  | .ok () => Throwing.call (.listen l) fun p => { p with listeners := l :: p.listeners }

/-- A function is hooked, or the hook that was created for it is removed again. -/
def tryHook (hook : Hook) (created hooked : Bool) : Act Bool := do
  ask (.createFunctionHook hook created)
  if !created then return false
  else if hooked then
    Throwing.call (.hook hook true) fun p => { p with hooks := hook :: p.hooks }
    return true
  else
    ask (.hook hook false)
    ask (.removeFunctionHook hook)
    return false

def tryInstallHook (created hooked : Bool) : Act Bool := do
  if .renderMonitor ∈ (← get).hooks then return true
  else tryHook .renderMonitor created hooked

def addTimer (timer : Timer) : Act Unit := do
  if timer ∈ (← get).timers then return ()
  else Throwing.call (.addTimer timer) fun p => { p with timers := timer :: p.timers }

def installHooks (a : Load) : Act Unit := do
  match a.found .renderMonitor with
  | .error e => throw e
  | .ok false => throw "noshare-cover: CScreenshareFrame::renderMonitor not found"
  | .ok true =>
    match a.found .applyZoomTransform with
    | .error e => throw e
    | .ok zoom =>
      if zoom then
        let _ ← tryHook .applyZoomTransform (a.created .applyZoomTransform)
          (a.hooked .applyZoomTransform)
      -- hooked by another plugin: wait until it's released
      if !(← tryInstallHook (a.created .renderMonitor) (a.hooked .renderMonitor)) then
        addTimer .hookRetry

/-- The first seven characters of a hash. -/
def shortHash (hash : String) : String := String.ofList (hash.toList.take 7)

def initImpl (a : Load) : Act Unit := do
  modify fun p => { p with handle := true }
  if a.running ≠ a.built then
    let why := "noshare-cover: built for Hyprland " ++ shortHash a.built ++ ", running "
      ++ shortHash a.running ++ ". Rebuild against the running Hyprland (hyprpm update; on Nix use "
      ++ "programs.noshare-cover.enable)"
    notify why
    throw why
  ask (.nscInit a.core)
  if !a.core then throw "noshare-cover: core init failed"
  registerConfig a
  [Listener.windowClose, .layerClose, .windowOpen, .windowRules, .layerOpen, .layerRules].forM
    (listen a)
  a.prewarm.forM fun r =>
    match r with
    | .error e => throw e
    | .ok () => pure ()
  listen a .reload
  -- last: from here on screencast frames go through the plugin
  installHooks a

/-! ### Unloading -/

def unlisten (l : Listener) : Act Unit := do
  if l ∈ (← get).listeners then
    Throwing.call (.unlisten l) fun p => { p with listeners := p.listeners.erase l }

def stopTimer (timer : Timer) : Act Unit := do
  if timer ∈ (← get).timers then
    Throwing.call (.removeTimer timer) fun p => { p with timers := p.timers.erase timer }

def removeHook (hook : Hook) : Act Unit := do
  if hook ∈ (← get).hooks then
    Throwing.call (.removeFunctionHook hook) fun p => { p with hooks := p.hooks.erase hook }

/-- Before anything else on unload: a screencast frame must not land in the unloaded core. -/
def removeHooks : Act Unit := do
  stopTimer .hookRetry
  removeHook .renderMonitor
  removeHook .applyZoomTransform

def unregisterConfig : Act Unit := do
  (← get).windowEffects.forM fun id => ask (.unregisterEffect .window id)
  modify fun p => { p with windowEffects := [] }
  (← get).layerEffects.forM fun id => ask (.unregisterEffect .layer id)
  modify fun p => { p with layerEffects := [] }

/-- Everything that unloading undoes, also when loading has thrown. -/
def cleanupAll : Act Unit := do
  [Listener.reload, .windowClose, .layerClose, .windowOpen, .windowRules, .layerOpen,
    .layerRules].forM unlisten
  removeHooks
  stopTimer .pump
  stopTimer .sceneIdle
  ask .nscNotifyGone
  ask .nscShutdown
  unregisterConfig
  modify fun p => { p with handle := false }

/-! ### Runs -/

/-- What happens while the plugin is loaded. -/
inductive Event where
  /-- The config was reloaded, and these messages were waiting. -/
  | reload (messages : List String)
  /-- The timer of the hook fires, and the function can be hooked by now or not. -/
  | hookRetry (created hooked : Bool)
  /-- A cover is animated, or stays for a closed window. -/
  | startPump
  /-- A capture has drawn the scene. -/
  | armSceneIdle

def step : Event → Act Unit
  | .reload messages => messages.forM notify
  | .hookRetry created hooked => do
    if .hookRetry ∈ (← get).timers then
      let _ ← tryInstallHook created hooked
  | .startPump => addTimer .pump
  | .armSceneIdle => addTimer .sceneIdle

/-- `PLUGIN_INIT`. -/
def pluginInit (a : Load) : Act Unit :=
  tryCatch (initImpl a) fun e => do
    cleanupAll
    throw e

/-- The plugin from its loading to its end; there is no `PLUGIN_EXIT` when loading has failed. -/
def life (a : Load) (es : List Event) : Act Unit := do
  pluginInit a
  es.forM step
  cleanupAll

end Plugin

end NoshareCover
