import NoshareCover.Core.Config
import NoshareCover.Core.Media
import NoshareCover.Core.Notify
import Mathlib.Data.List.AList

/-!
# Cover registry

One source per unique (file, speed, loop), no matter how many windows show it.  Opening never
happens on the render path: a new cover is opened on a loader thread, and `resolve` picks up what
the thread has sent.

The registry and its loader threads are one system, `Sys`: each thread has its channel (`sent`,
`closed`) and its `done` flag, and the events of the system are the calls on the registry and the
steps of the threads.  `log` is a history of what happened to covers and threads, newest first; no
function reads it.
-/

namespace NoshareCover

/-- `Opening` covers retry a missing file after this long. -/
def missingRetry : ℕ := 1000000000

/-- Covers not shown for this long are closed. -/
def evictAfter : ℕ := 30000000000

/-- What a loader thread sends: the source and its first frame, if it already has one. -/
abbrev Loaded (σ : Type) := Except MediaError (σ × Option Frame)

/-- The loop of `load`: poll at each of these times until there is a frame.  The times end at the
deadline or when the loader is cancelled. -/
def firstFrame {σ : Type} [Source σ] : σ → List Instant → Loaded σ
  | src, [] => .ok (src, none)
  | src, now :: polls =>
    match Source.poll src now with
    | (.error e, _) => .error e
    | (.ok (some f), src) => .ok (src, some f)
    | (.ok none, src) => firstFrame src polls

/-- Opens a source and prepares its first frame; `opened` is what the opener answered. -/
def load {σ : Type} [Source σ] (opened : Except MediaError σ) (polls : List Instant) : Loaded σ :=
  match opened with
  | .error e => .error e
  | .ok src => firstFrame src polls

/-- A loader thread and its end of the channel. -/
structure Thread (σ : Type) where
  play : PlayParams
  settings : Settings
  /-- Sent and not received yet. -/
  sent : Option (Loaded σ)
  /-- The sending half is gone. -/
  closed : Bool
  done : Bool
  joined : Bool

/-- The registry's end of a loader: `worker` is `none` when the thread could not be started. -/
structure Loader where
  rx : ℕ
  cancelled : Bool
  worker : Option ℕ
  deriving DecidableEq, Repr

inductive State (σ : Type) where
  /-- Being opened on a loader thread; `retry` marks the reopening of a file that was missing. -/
  | opening (loader : Loader) (retry : Bool)
  | ready (src : σ)
  | missing (retryAt : Instant)
  | failed

structure Cover (σ : Type) where
  id : ℕ
  state : State σ
  current : Option Frame
  polledIn : ℕ
  lastUsed : Instant

/-- The loader of a cover that is still opening. -/
def Cover.loader {σ : Type} (c : Cover σ) : Option Loader :=
  match c.state with
  | .opening loader _ => some loader
  | _ => none

/-- What the shim draws: a stable cover id (the key of its texture cache) and the frame. -/
structure CoverView where
  id : ℕ
  frame : Frame
  deriving DecidableEq, Repr

structure Registry (σ : Type) where
  settings : Option Settings
  epoch : ℕ
  covers : AList fun _ : PlayParams => Cover σ
  nextId : ℕ
  frameNo : ℕ
  notifier : Notifier
  /-- Loaders of covers dropped while still opening, to be joined once they are finished. -/
  retired : List Loader

/-- Something that happened to a cover or to a thread. -/
inductive Effect where
  /-- The cover `id` was created for `play`. -/
  | started (id : ℕ) (play : PlayParams)
  /-- Thread `thread` was started for the cover `id`. -/
  | spawned (thread id : ℕ)
  /-- `resolve` looked for the missing file of the cover `id`. -/
  | probed (id : ℕ) (found : Bool)
  /-- The cover got its source from the loader. -/
  | bound (id : ℕ)
  | polled (id : ℕ)
  | viewed (view : CoverView)
  | dropped (id : ℕ)
  /-- A thread was joined; `done` tells whether it had run to its end. -/
  | joined (thread : ℕ) (done : Bool)
  deriving DecidableEq, Repr

/-- What a call finds outside the registry. -/
structure Env where
  /-- `Settings::default()`, which looks for the default media file. -/
  defaults : Settings
  /-- Whether the file of the cover exists. -/
  pathExists : Bool
  /-- Whether a thread can be started. -/
  canSpawn : Bool

structure Sys (σ : Type) where
  reg : Registry σ
  threads : ℕ → Thread σ
  nextThread : ℕ
  log : List Effect

namespace Sys

variable {σ : Type} [Source σ]

/-! ### Loaders -/

def setThread (s : Sys σ) (t : ℕ) (thread : Thread σ) : Sys σ :=
  { s with threads := Function.update s.threads t thread }

/-- `Loader::spawn`: when no thread can be started, its job goes away and the channel closes. -/
def spawn (s : Sys σ) (play : PlayParams) (settings : Settings) (canSpawn : Bool) (id : ℕ) :
    Loader × Sys σ :=
  let t := s.nextThread
  let thread : Thread σ :=
    { play, settings, sent := none, closed := !canSpawn, done := false, joined := false }
  ({ rx := t, cancelled := false, worker := if canSpawn then some t else none },
    { s.setThread t thread with
        nextThread := t + 1, log := if canSpawn then .spawned t id :: s.log else s.log })

/-- The thread is done, or it never started: dropping the loader now does not wait. -/
def finished (s : Sys σ) (l : Loader) : Bool := l.worker.all fun t => (s.threads t).done

/-- Dropping a loader joins its thread. -/
def dropLoader (s : Sys σ) (l : Loader) : Sys σ :=
  match l.worker with
  | none => s
  | some t =>
    { s.setThread t { s.threads t with joined := true } with
        log := .joined t (s.threads t).done :: s.log }

/-- Parks the loader of a cover that is going away; everything else of the cover is dropped. -/
def retire (s : Sys σ) (cover : Cover σ) : Sys σ :=
  let s := { s with log := .dropped cover.id :: s.log }
  match cover.state with
  | .opening loader _ =>
    if s.finished loader then s.dropLoader loader
    else
      { s with reg := { s.reg with retired := s.reg.retired ++ [{ loader with cancelled := true }] } }
  | _ => s

/-! ### Opening and showing covers -/

def settings (s : Sys σ) (env : Env) : Settings := s.reg.settings.getD env.defaults

def setCover (s : Sys σ) (play : PlayParams) (cover : Cover σ) : Sys σ :=
  { s with reg := { s.reg with covers := s.reg.covers.insert play cover } }

def notify (s : Sys σ) (msg : String) : Sys σ :=
  { s with reg := { s.reg with notifier := s.reg.notifier.push msg } }

/-- A new cover, with its loader. -/
def start (s : Sys σ) (play : PlayParams) (settings : Settings) (now : Instant)
    (canSpawn : Bool) : Sys σ :=
  let id := s.reg.nextId
  let s := { s with reg := { s.reg with nextId := id + 1 }, log := .started id play :: s.log }
  let (loader, s) := s.spawn play settings canSpawn id
  s.setCover play
    { id, state := .opening loader false, current := none, polledIn := 0, lastUsed := now }

/-- Starts opening a cover ahead of time; nothing if the cover exists. -/
def warm (s : Sys σ) (env : Env) (play : PlayParams) (now : Instant) : Sys σ :=
  if play.path = "" ∨ play ∈ s.reg.covers then s
  else s.start play (s.settings env) now env.canSpawn

/-- What `try_recv` finds in the channel. -/
inductive TryRecv (σ : Type) where
  | empty
  | disconnected
  | result (r : Loaded σ)

def tryRecv (s : Sys σ) (loader : Loader) : TryRecv σ × Sys σ :=
  match (s.threads loader.rx).sent with
  | some r =>
    (.result r, s.setThread loader.rx { s.threads loader.rx with sent := none })
  | none => (if (s.threads loader.rx).closed then .disconnected else .empty, s)

/-- `path.exists()`, for the file of the cover `id`. -/
def probe (s : Sys σ) (env : Env) (id : ℕ) : Sys σ :=
  { s with log := .probed id env.pathExists :: s.log }

/-- `resolve` on a missing file: reopen it after the retry time if it is there again. -/
def retryMissing (s : Sys σ) (env : Env) (play : PlayParams) (now : Instant) (cover : Cover σ) :
    Cover σ × Sys σ :=
  match cover.state with
  | .missing retryAt =>
    if retryAt ≤ now then
      let s := s.probe env cover.id
      if env.pathExists then
        let (loader, s) := s.spawn play (s.settings env) env.canSpawn cover.id
        ({ cover with state := .opening loader true }, s)
      else ({ cover with state := .missing (now + missingRetry) }, s)
    else (cover, s)
  | _ => (cover, s)

/-- `resolve` on an opening cover: pick up what the loader has sent, and drop the loader. -/
def pickUp (s : Sys σ) (now : Instant) (cover : Cover σ) : Cover σ × Sys σ :=
  match cover.state with
  | .opening loader retry =>
    match s.tryRecv loader with
    | (.empty, s) => (cover, s)
    | (.result (.ok (src, frame)), s) =>
      -- first time on screen: the timeline restarts, and the poll below starts the clock
      let s := { s with log := .bound cover.id :: s.log }
      ({ cover with state := .ready (Source.shown src), current := frame.or cover.current },
        s.dropLoader loader)
    | (.result (.error (.missing p)), s) =>
      let s := if retry then s else s.notify ("noshare-cover: file not found: " ++ p)
      ({ cover with state := .missing (now + missingRetry) }, s.dropLoader loader)
    | (.result (.error e), s) =>
      let s := s.notify ("noshare-cover: " ++ e.toString)
      ({ cover with state := .failed }, s.dropLoader loader)
    | (.disconnected, s) =>
      let s := s.notify "noshare-cover: failed to start the cover loader"
      ({ cover with state := .failed }, s.dropLoader loader)
  | _ => (cover, s)

/-- `resolve` on a ready cover: a cover shown in several windows is polled once per frame. -/
def pollReady (s : Sys σ) (now : Instant) (cover : Cover σ) : Cover σ × Sys σ :=
  match cover.state with
  | .ready src =>
    if cover.polledIn ≠ s.reg.frameNo then
      let s := { s with log := .polled cover.id :: s.log }
      let cover := { cover with polledIn := s.reg.frameNo }
      match Source.poll src now with
      | (.ok (some f), src) => ({ cover with state := .ready src, current := some f }, s)
      | (.ok none, src) => ({ cover with state := .ready src }, s)
      | (.error e, _) =>
        ({ cover with state := .failed, current := none },
          s.notify ("noshare-cover: " ++ e.toString))
    else (cover, s)
  | _ => (cover, s)

/-- Cover for a window; `none` means nothing to draw (no file, error, no frame yet). -/
def resolve (s : Sys σ) (env : Env) (play : PlayParams) (now : Instant) :
    Sys σ × Option CoverView :=
  if play.path = "" then (s, none)
  else
    let s := if play ∈ s.reg.covers then s else s.start play (s.settings env) now env.canSpawn
    match s.reg.covers.lookup play with
    | none => (s, none)
    | some cover =>
      let (cover, s) := s.retryMissing env play now { cover with lastUsed := now }
      let (cover, s) := s.pickUp now cover
      let (cover, s) := s.pollReady now cover
      let s := s.setCover play cover
      match cover.current with
      | none => (s, none)
      | some frame =>
        let view := { id := cover.id, frame }
        ({ s with log := .viewed view :: s.log }, some view)

/-! ### Frames and settings -/

/-- Joins the parked loaders that are finished. -/
def reap (s : Sys σ) : Sys σ :=
  let s' := { s with reg := { s.reg with retired := s.reg.retired.filter (!s.finished ·) } }
  (s.reg.retired.filter s.finished).foldl dropLoader s'

def beginFrame (s : Sys σ) : Sys σ :=
  reap { s with reg := { s.reg with frameNo := s.reg.frameNo + 1 } }

/-- Removes a cover. -/
def removeCover (s : Sys σ) (play : PlayParams) : Sys σ :=
  match s.reg.covers.lookup play with
  | none => s
  | some cover =>
    retire { s with reg := { s.reg with covers := s.reg.covers.erase play } } cover

/-- The covers nobody has shown for a while; the default cover is never among them. -/
def stale (s : Sys σ) (env : Env) (now : Instant) : List PlayParams :=
  (s.reg.covers.entries.filter fun e =>
    e.1 ≠ (s.settings env).defaultPlay ∧ evictAfter ≤ now - e.2.lastUsed).map Sigma.fst

/-- End of frame: close stale covers. -/
def endFrame (s : Sys σ) (env : Env) (now : Instant) : Sys σ :=
  (s.stale env now).foldl removeCover s

/-- Opens the default cover up front, so that the first screen capture has a frame ready. -/
def prewarm (s : Sys σ) (env : Env) (now : Instant) : Sys σ :=
  let play := (s.settings env).defaultPlay
  if play.path = "" then s else s.warm env play now

/-- Drops every cover and takes over the new settings. -/
def reset (s : Sys σ) (settings : Settings) (error : Option ConfigError) : Sys σ :=
  let s := s.reg.covers.keys.foldl removeCover s
  let notifier := s.reg.notifier.reset
  let notifier := match error with
    | some e => notifier.push e.toString
    | none => notifier
  { s with reg := { s.reg with settings := some settings, epoch := s.reg.epoch + 1, notifier } }

/-- New global settings.  If they changed, everything is reset. -/
def setSettings (s : Sys σ) (env : Env) (settings : Settings) (error : Option ConfigError)
    (now : Instant) : Sys σ :=
  if s.reg.settings = some settings then s else (s.reset settings error).prewarm env now

/-- Whether a live animated cover exists, or one that is still being opened. -/
def animating (s : Sys σ) (now : Instant) : Bool :=
  s.reg.covers.entries.any fun e =>
    (match e.2.state with
      | .opening _ _ => true
      | .ready src => Source.kind src ≠ .still
      | _ => false) && now - e.2.lastUsed < evictAfter

/-- Live cover ids: the shim frees the textures of all others. -/
def liveIds (s : Sys σ) : List ℕ := s.reg.covers.entries.map fun e => e.2.id

/-- Dropping the registry, on unload: the loaders of its covers and the parked ones go with it. -/
def unload (s : Sys σ) : Sys σ :=
  (s.reg.covers.entries.filterMap (·.2.loader) ++ s.reg.retired).foldl dropLoader
    { s with reg := { s.reg with covers := ∅, retired := [] } }

/-! ### Loader threads -/

/-- The thread sends its result, once. -/
def send (s : Sys σ) (t : ℕ) (r : Loaded σ) : Sys σ :=
  if (s.threads t).closed ∨ s.nextThread ≤ t then s
  else s.setThread t { s.threads t with sent := some r, closed := true }

/-- The thread runs to its end after it has sent its result. -/
def finish (s : Sys σ) (t : ℕ) : Sys σ :=
  if (s.threads t).closed then s.setThread t { s.threads t with done := true } else s

/-! ### The system -/

inductive Event (σ : Type) where
  | setSettings (env : Env) (settings : Settings) (error : Option ConfigError) (now : Instant)
  | warm (env : Env) (play : PlayParams) (now : Instant)
  | beginFrame
  | resolve (env : Env) (play : PlayParams) (now : Instant)
  | endFrame (env : Env) (now : Instant)
  /-- A loader thread sends what `load` gave it. -/
  | deliver (thread : ℕ) (opened : Except MediaError σ) (polls : List Instant)
  /-- A panic in a decoder ends the loading with an error. -/
  | crash (thread : ℕ)
  | finish (thread : ℕ)

/-- One step of the registry with its loader threads; the output is what `resolve` returned. -/
def step (s : Sys σ) : Event σ → Sys σ × Option CoverView
  | .setSettings env settings error now => (s.setSettings env settings error now, none)
  | .warm env play now => (s.warm env play now, none)
  | .beginFrame => (s.beginFrame, none)
  | .resolve env play now => s.resolve env play now
  | .endFrame env now => (s.endFrame env now, none)
  | .deliver t opened polls => (s.send t (load opened polls), none)
  | .crash t =>
    (s.send t (.error (.open (s.threads t).play.path "loader crashed")), none)
  | .finish t => (s.finish t, none)

/-- `Registry::with_opener`, with no thread started yet. -/
def init (defaults : Settings) : Sys σ :=
  { reg := { settings := none, epoch := 0, covers := ∅, nextId := 1, frameNo := 0,
             notifier := .empty, retired := [] }
    threads := fun _ =>
      { play := defaults.defaultPlay, settings := defaults, sent := none, closed := true,
        done := true, joined := true }
    nextThread := 0
    log := [] }

end Sys

end NoshareCover
