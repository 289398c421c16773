import NoshareCover.Core.Media
import NoshareCover.Shim.PaintOp
import Mathlib.Data.List.AList
import Mathlib.Data.List.Sort

/-!
# Covers that outlive what they cover

The covers of the last frames (`lastCovers`), the covers of closed windows and layers (`closing`),
and the pump that keeps them repainted.
-/

namespace NoshareCover

/-- 150 ms. -/
def fadeBindWindow : ℕ := 150000000

/-- Something last covered longer ago than this gets a closing cover only if its fade-out is
found: 1 s. -/
def staleCover : ℕ := 1000000000

/-- What is remembered of a surface that was covered. -/
structure LastCover where
  isLayer : Bool
  mon : MonitorId
  /-- Global logical coordinates. -/
  box : Box ℚ
  rules : RuleValues
  rounding : ℚ
  roundingPower : ℚ
  /-- The frame it was last covered in. -/
  at_ : Instant
  deriving DecidableEq, Repr

/-- The cover of a closed window or layer.  `owner` is the surface that closed, which no function
reads. -/
structure Closing where
  owner : Key
  isLayer : Bool
  mon : MonitorId
  /-- Last known, global logical. -/
  box : Box ℚ
  rules : RuleValues
  rounding : ℚ
  roundingPower : ℚ
  /-- A weak pointer. -/
  fade : Option FadeId
  /-- Give up looking for the fade-out after this. -/
  bindUntil : Instant
  /-- Set once the fade-out is over. -/
  holdUntil : Option Instant
  deriving DecidableEq, Repr

structure AnimBox where
  mon : MonitorId
  box : Box ℚ
  deriving DecidableEq, Repr

/-- The state that the shim keeps between frames. -/
structure Shim where
  lastCovers : AList fun _ : Key => LastCover
  closing : List Closing
  animBoxes : List AnimBox
  /-- The pump's timer is armed. -/
  pumping : Bool

def Shim.init : Shim := { lastCovers := ∅, closing := [], animBoxes := [], pumping := false }

def Shim.startPump (s : Shim) : Shim := { s with pumping := true }

/-! ### Who captures -/

structure Session where
  stopped : Bool
  /-- It shares a whole monitor or a region of one. -/
  ofMonitor : Bool
  monitor : MonitorId
  /-- A frame went out in the last half second. -/
  sharing : Bool
  deriving DecidableEq, Repr

/-- Sessions and pending frames of the screenshare manager. -/
structure Screenshare where
  sessions : List Session
  /-- The sessions of the frames that wait for the next commit. -/
  pending : List Session
  deriving DecidableEq, Repr

def Session.captures (s : Session) (mon : MonitorId) : Bool :=
  !s.stopped && s.ofMonitor && s.monitor = mon

/-- Whether a client captures `mon` right now. -/
def Screenshare.beingCaptured (mgr : Screenshare) (mon : MonitorId) : Bool :=
  mgr.sessions.any (fun s => s.sharing && s.captures mon) || mgr.pending.any (·.captures mon)

/-! ### Fade-outs -/

/-- A fade-out that a closing cover may follow: running, of the same kind, on the monitor and not
taken by another closing cover. -/
def fadeFits (closing : List Closing) (c : Closing) (mon : MonitorId) (f : Fadeout) : Bool :=
  !f.done && (if c.isLayer then isLayerFade f else isWindowFade f) && f.monitor = some mon
    && !closing.any fun o => o.fade = some f.id

/-- The square of the distance between two points. -/
def distSq (p q : Vec) : ℚ := (p.1 - q.1) ^ 2 + (p.2 - q.2) ^ 2

/-- One step of the search; `best` is the fade-out found so far and the square of its distance. -/
def nearerFade (closing : List Closing) (c : Closing) (mon : MonitorId)
    (best : Option Fadeout × ℚ) (f : Fadeout) : Option Fadeout × ℚ :=
  if fadeFits closing c mon f && distSq f.box.middle c.box.middle ≤ best.2 then
    (some f, distSq f.box.middle c.box.middle)
  else best

/-- The fade-out Hyprland created for a closed window or layer: the nearest one to where it was,
at most as far away as it is long. -/
def findFadeFor (d : Desktop) (closing : List Closing) (c : Closing) (mon : MonitorId) :
    Option Fadeout :=
  let reach := max c.box.w c.box.h
  if reach < 0 then none
  else (d.fadeouts.foldl (nearerFade closing c mon) (none, reach ^ 2)).1

/-! ### Close events -/

/-- The closing cover of a surface that closes while its monitor is captured. -/
def Shim.startClosing (s : Shim) (mgr : Screenshare) (c : Closing) : Shim :=
  if !mgr.beingCaptured c.mon then s
  else
    -- don't start it a second time from the next frame
    { s with lastCovers := s.lastCovers.erase c.owner, closing := s.closing ++ [c] }.startPump

def Desktop.hidden (d : Desktop) (sf : Surface) : Bool :=
  sf.ruled && (d.vars sf.key).valueOr false

/-- The closing cover of a window. -/
def Window.closing (w : Window) (mon : MonitorId) (now : Instant) : Closing :=
  { owner := w.key, isLayer := false, mon
    box := { x := (windowPos w).1, y := (windowPos w).2, w := w.size.1, h := w.size.2 }
    rules := w.rules, rounding := w.rounding, roundingPower := w.roundingPower
    fade := none, bindUntil := now + fadeBindWindow, holdUntil := none }

/-- The closing cover of a layer. -/
def Layer.closing (l : Layer) (mon : MonitorId) (now : Instant) : Closing :=
  { owner := l.key, isLayer := true, mon
    box := { x := l.position.1, y := l.position.2, w := l.size.1, h := l.size.2 }
    rules := l.rules, rounding := 0, roundingPower := 2
    fade := none, bindUntil := now + fadeBindWindow, holdUntil := none }

def Shim.onWindowClose (s : Shim) (d : Desktop) (mgr : Screenshare) (now : Instant) (w : Window) :
    Shim :=
  if !d.hidden w.surface then s
  else
    match w.monitor with
    | none => s
    | some mon => s.startClosing mgr (w.closing mon now)

def Shim.onLayerClose (s : Shim) (d : Desktop) (mgr : Screenshare) (now : Instant) (l : Layer) :
    Shim :=
  if !d.hidden l.surface then s
  else
    match l.monitor with
    | none => s
    | some mon => s.startClosing mgr (l.closing mon now)

/-! ### The pump -/

/-- The closing cover stays until the next tick. -/
def keepClosing (mgr : Screenshare) (now : Instant) (c : Closing) : Bool :=
  mgr.beingCaptured c.mon && c.holdUntil.all fun t => now < t

/-- A tick of the timer: closing covers that are over, or that nobody captures, go away; with
nothing left to repaint the pump goes idle. -/
def Shim.pumpTick (s : Shim) (mgr : Screenshare) (animating : Bool) (now : Instant) : Shim :=
  if !s.pumping then s
  else if (animating && s.animBoxes.any fun a => mgr.beingCaptured a.mon)
      || s.closing.any fun c => mgr.beingCaptured c.mon then
    { s with closing := s.closing.filter (keepClosing mgr now) }
  else { s with animBoxes := [], closing := [], pumping := false }

/-! ### Frames -/

/-- The closing cover that a forgotten entry turns into. -/
def LastCover.toClosing (last : LastCover) (k : Key) (mon : MonitorId) (now : Instant) : Closing :=
  { owner := k, isLayer := last.isLayer, mon, box := last.box, rules := last.rules
    rounding := last.rounding, roundingPower := last.roundingPower
    fade := none, bindUntil := now + fadeBindWindow, holdUntil := none }

/-- The entry stays: it is another monitor's, or its surface was seen in this frame. -/
def LastCover.stays (last : LastCover) (d : Desktop) (mon : MonitorId) (seen : List Key)
    (k : Key) : Bool :=
  last.mon ∈ d.monitors && (last.mon ≠ mon || k ∈ seen)

/-- The surface of the entry is not mapped or not visible any more. -/
def LastCover.gone (last : LastCover) (d : Desktop) (k : Key) : Bool :=
  if last.isLayer then d.layerGone k else d.windowGone k

/-- The closing cover of an entry that is forgotten, if its surface closed. -/
def LastCover.closed (last : LastCover) (d : Desktop) (closing : List Closing) (k : Key)
    (mon : MonitorId) (now : Instant) : Option Closing :=
  if last.mon ∈ d.monitors && last.gone d k then
    let c := last.toClosing k mon now
    if now < last.at_ + staleCover then some c
    else
      -- an old entry can still be something closed just now: then its fade-out is running
      (findFadeFor d closing c mon).map fun f => { c with fade := some f.id }
  else none

/-- What becomes of one entry of `lastCovers`. -/
def Shim.trackOne (d : Desktop) (mon : MonitorId) (seen : List Key) (now : Instant) (s : Shim)
    (e : Sigma fun _ : Key => LastCover) : Shim :=
  if e.2.stays d mon seen e.1 then s
  else
    { s with
      lastCovers := s.lastCovers.erase e.1
      closing := s.closing ++ (e.2.closed d s.closing e.1 mon now).toList }

/-- The entries in the order of the hash map. -/
def inOrder (order : Key → ℕ) (entries : List (Sigma fun _ : Key => LastCover)) :
    List (Sigma fun _ : Key => LastCover) :=
  entries.insertionSort fun a b => order a.1 ≤ order b.1

/-- Surfaces of this monitor that disappeared since the last frame: closed ones get a closing
cover, moved or hidden ones are just forgotten. -/
def Shim.trackClosed (s : Shim) (d : Desktop) (mon : MonitorId) (order : Key → ℕ) (seen : List Key)
    (now : Instant) : Shim :=
  (inOrder order s.lastCovers.entries).foldl (Shim.trackOne d mon seen now) s

/-- The first half of the loop of `paintClosing`: follow the fade-out, or look for it, or start the
hold.  `closing` is the list at that moment. -/
def Closing.follow (c : Closing) (cfg : ShimConfig) (d : Desktop) (closing : List Closing)
    (mon : MonitorId) (now : Instant) : Closing :=
  if c.holdUntil.isSome then c
  else
    let bound := c.fade.bind d.fadeout?
    let searching := bound.isNone && now < c.bindUntil
    let fade := if searching then findFadeFor d closing c mon else bound
    let c := if searching then { c with fade := fade.map Fadeout.id } else c
    match fade with
    | some f =>
      if f.done then { c with holdUntil := some (now + holdFor cfg c.rules) }
      else { c with box := f.box }
    | none =>
      -- the hold starts when the search for a fade-out ends, not at the next frame
      if c.bindUntil ≤ now then { c with holdUntil := some (c.bindUntil + holdFor cfg c.rules) }
      else c

/-- The second half: the draws of one closing cover. -/
def Closing.paint (c : Closing) (fr : CaptureFrame) (left : Bool) (now : Instant) :
    List PaintOp :=
  if c.holdUntil.any fun t => t ≤ now then []
  else if fr.client.sees c.rules then []
  else if left && transparentCover fr.cfg c.rules then [.leftOut (.closing c.owner)]
  else
    let box := captureBox fr.mon fr.capturePos (atLeast5 c.box)
    if box.w < 1 ∨ box.h < 1 then []
    else
      let round := if fr.capturePos ≠ 0 then 0
        else lround (c.rounding * fr.mon.scale * zoomScale fr.mon)
      [.cover
        { subject := .closing c.owner, rules := c.rules, box, round
          roundingPower := c.roundingPower, area := coverArea fr.region box .empty }]

/-- The closing covers of the monitor, one after the other; `before` are those already gone
through. -/
def paintClosingLoop (fr : CaptureFrame) (left : Bool) (now : Instant) :
    List Closing → List Closing → List Closing × List PaintOp
  | before, [] => (before, [])
  | before, c :: rest =>
    if c.mon ≠ fr.mon.id then paintClosingLoop fr left now (before ++ [c]) rest
    else
      let c' := c.follow fr.cfg fr.desktop (before ++ c :: rest) fr.mon.id now
      let (closing, ops) := paintClosingLoop fr left now (before ++ [c']) rest
      (closing, c'.paint fr left now ++ ops)

def Shim.paintClosing (s : Shim) (fr : CaptureFrame) (left : Bool) (now : Instant) :
    Shim × List PaintOp :=
  let (closing, ops) := paintClosingLoop fr left now [] s.closing
  ({ s with closing }, ops)

end NoshareCover
