import NoshareCover.Lib.Run
import NoshareCover.Shim.Paint

/-!
# Capture frames

`render` is the hook around Hyprland's `renderMonitor`: it overrides the variables, lets Hyprland
draw, paints the covers and restores the variables.  Its result also tells what the variables held
while each part ran.  `Shim.step` is the shim over time: capture frames, close events and ticks of
the pump, at times that only grow.
-/

namespace NoshareCover

/-- Hidden surfaces on the monitor with a transparent cover, and whether one of them is closing. -/
structure TransparentOn where
  keys : List Key
  closing : Bool
  deriving DecidableEq, Repr

/-- A hidden window on screen whose cover is transparent. -/
def transparentWindow (fr : CaptureFrame) (vars : Vars) (held : Held) (w : Window) : Bool :=
  w.ruled && noScreenShare vars w.key && (windowGeo w fr.mon fr.capturePos).isSome
    && transparentCover fr.cfg (ruleValuesFor held w.key w.rules)

def transparentLayer (fr : CaptureFrame) (vars : Vars) (held : Held) (l : Layer) : Bool :=
  l.ruled && noScreenShare vars l.key && l.visible && l.monitor = some fr.mon.id
    && transparentCover fr.cfg (ruleValuesFor held l.key l.rules)

def transparentOn (s : Shim) (fr : CaptureFrame) (vars : Vars) (held : Held) (now : Instant) :
    TransparentOn :=
  let keys := (fr.desktop.windows.filter (transparentWindow fr vars held)).map Window.key
    ++ (fr.desktop.layers.filter (transparentLayer fr vars held)).map Layer.key
  let applies := fun rules => transparentCover fr.cfg rules && !fr.client.sees rules
  let closing := s.closing.any (fun c =>
      c.mon = fr.mon.id && c.holdUntil.all (fun t => now < t) && applies c.rules)
    -- gone since the last frame: a closing one only after this check
    || s.lastCovers.entries.any fun e =>
      e.1 ∉ keys && e.2.mon = fr.mon.id && applies e.2.rules
  { keys, closing }

/-- The scene is drawn again without these surfaces, if that can be done. -/
def TransparentOn.leaves (gone : TransparentOn) (fr : CaptureFrame) : Bool :=
  (!gone.keys.isEmpty || gone.closing) && fr.sceneReady

/-- The variables while the parts of one frame run. -/
structure FrameVars where
  /-- While `CSceneSwap` draws, with the surfaces that it leaves out; `none` when it doesn't. -/
  scene : Option (Vars × List Key)
  /-- While the original `renderMonitor` runs. -/
  original : Vars
  /-- While `paintCovers` runs. -/
  paint : Vars
  /-- After the call. -/
  after : Vars

/-- What the passes over the variables leave for the rest of the frame. -/
structure Prepared where
  revealed : List Suppressed
  vars : Vars
  heldSaved : List Suppressed
  held : Held

def Prepared.revealedKeys (p : Prepared) : List Key := p.revealed.map Override.Saved.key

/-- `revealFor`, then `holdUnhidden`. -/
def Shim.prepare (s : Shim) (fr : CaptureFrame) (now : Instant) : Prepared :=
  let (vars, revealed) := revealFor fr.client fr.desktop fr.desktop.vars
  let (vars, heldSaved) := holdUnhidden s fr.cfg fr.client (revealed.map Override.Saved.key) now
    fr.desktop vars
  { revealed, vars, heldSaved, held := heldOf s heldSaved }

structure RenderResult where
  shim : Shim
  vars : FrameVars
  ops : List PaintOp

/-- `renderMonitorWithCovers`. -/
def Shim.render (s : Shim) (fr : CaptureFrame) (now : Instant) : RenderResult :=
  let p := s.prepare fr now
  let gone := transparentOn s fr p.vars p.held now
  let left := gone.leaves fr
  -- the scene is drawn between a suppression of its own and its restoration
  let shown := suppressNoScreenShare gone.keys fr.desktop p.vars
  let swapped := if left then restoreNoScreenShare shown.1 shown.2 else p.vars
  let suppressed := suppressNoScreenShare [] fr.desktop swapped
  let painting := restoreNoScreenShare suppressed.1 suppressed.2
  let (shim, ops) := s.paintCovers fr
    { vars := painting, held := p.held, revealed := p.revealedKeys, left, now }
  { shim, ops
    vars :=
      { scene := if left then some (shown.1, gone.keys) else none
        original := suppressed.1
        paint := painting
        after := restoreNoScreenShare (restoreNoScreenShare painting p.heldSaved) p.revealed } }

/-! ### The shim over time -/

/-- The shim and the clock. -/
structure World where
  shim : Shim
  now : Instant

inductive ShimEvent where
  | wait (d : ℕ)
  | frame (fr : CaptureFrame)
  | windowClose (d : Desktop) (mgr : Screenshare) (w : Window)
  | layerClose (d : Desktop) (mgr : Screenshare) (l : Layer)
  | tick (mgr : Screenshare) (animating : Bool)

/-- One event, with the draws of a capture frame. -/
def World.step (s : World) : ShimEvent → World × List PaintOp
  | .wait d => ({ s with now := s.now + d }, [])
  | .frame fr =>
    let r := s.shim.render fr s.now
    ({ s with shim := r.shim }, r.ops)
  | .windowClose d mgr w => ({ s with shim := s.shim.onWindowClose d mgr s.now w }, [])
  | .layerClose d mgr l => ({ s with shim := s.shim.onLayerClose d mgr s.now l }, [])
  | .tick mgr animating => ({ s with shim := s.shim.pumpTick mgr animating s.now }, [])

def World.init : World := { shim := Shim.init, now := 0 }

end NoshareCover
