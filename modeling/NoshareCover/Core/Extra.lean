import Mathlib.Algebra.Order.Ring.Unbundled.Rat
import Mathlib.Data.List.Basic
import NoshareCover.Core.Config

/-!
# Extra rects from other plugins

Each plugin gets its own client, and a client replaces its rects on a monitor as a whole.  The old
API is the "legacy" client: it is there from the first call that needs it.
-/

namespace NoshareCover

namespace Extra

/-- How to fill a rect. -/
inductive Fill where
  | black
  /-- The cover of `window`; black if the window doesn't exist or has no cover. -/
  | windowCover
  deriving DecidableEq, Repr

def Fill.fromRaw (v : UInt32) : Fill := if v = 1 then .windowCover else .black

structure CoverRect where
  x : F64
  y : F64
  w : F64
  h : F64
  rounding : F64
  /-- Hyprland's window address; 0 is no window. -/
  window : UInt64
  fill : Fill
  deriving DecidableEq, Repr

/-- A rect without NaN or infinity and with an area, its rounding not below zero. -/
def CoverRect.sane (r : CoverRect) : Option CoverRect :=
  match r.x, r.y, r.w, r.h with
  | some _, some _, some w, some h =>
    if 0 < w ∧ 0 < h then
      some { r with
        rounding := match r.rounding with
          | some rounding => some (max rounding 0)
          | none => some 0 }
    else none
  | _, _, _, _ => none

/-- A rect with its monitor. -/
structure MonitorRect where
  monitor : ℤ
  rect : CoverRect
  deriving DecidableEq, Repr

structure Client where
  id : ℕ
  name : String
  rects : List MonitorRect
  deriving DecidableEq, Repr

structure Clients where
  list : List Client
  nextId : ℕ
  deriving DecidableEq, Repr

/-- Client id for the old API. -/
def legacyClient : ℕ := 1

/-- A client holds at most so many rects. -/
def maxRectsPerClient : ℕ := 4096

/-- A client's rects, those on the monitor replaced. -/
def replaceRects (held : List MonitorRect) (monitor : ℤ) (rects : List CoverRect) :
    List MonitorRect :=
  let others := held.filter (·.monitor ≠ monitor)
  let room := maxRectsPerClient - others.length
  others ++ ((rects.filterMap CoverRect.sane).take room).map (MonitorRect.mk monitor)

/-- One more rect, while there is room. -/
def addRect (held : List MonitorRect) (rect : MonitorRect) : List MonitorRect :=
  if held.length < maxRectsPerClient then held ++ [rect] else held

namespace Clients

def init : Clients := { list := [], nextId := legacyClient + 1 }

/-- `client_mut`: the first client with the id, its rects changed by `f`; `none` if there is none. -/
def clientMut (id : ℕ) (f : List MonitorRect → List MonitorRect) :
    List Client → Option (List Client)
  | [] => none
  | cl :: rest =>
    if cl.id = id then some ({ cl with rects := f cl.rects } :: rest)
    else (clientMut id f rest).map (cl :: ·)

/-- A write by client id; `false` if the client doesn't exist. -/
def write (c : Clients) (id : ℕ) (f : List MonitorRect → List MonitorRect) : Clients × Bool :=
  match clientMut id f c.list with
  | none => (c, false)
  | some list => ({ c with list }, true)

/-- The legacy client is there. -/
def withLegacy (c : Clients) : Clients :=
  if c.list.any (·.id = legacyClient) then c
  else { c with list := c.list ++ [{ id := legacyClient, name := "legacy", rects := [] }] }

/-- `legacy`: a write of the legacy client. -/
def legacy (c : Clients) (f : List MonitorRect → List MonitorRect) : Clients :=
  (c.withLegacy.write legacyClient f).1

/-- New client.  The name is for debugging. -/
def register (c : Clients) (name : String) : Clients × ℕ :=
  ({ list := c.list ++ [{ id := c.nextId, name := String.ofList (name.toList.take 64), rects := [] }],
     nextId := c.nextId + 1 }, c.nextId)

def unregister (c : Clients) (id : ℕ) : Clients :=
  { c with list := c.list.filter (·.id ≠ id) }

/-- Replace all of the client's rects on a monitor; an empty list clears the monitor. -/
def setRects (c : Clients) (id : ℕ) (monitor : ℤ) (rects : List CoverRect) : Clients × Bool :=
  c.write id (replaceRects · monitor rects)

/-- Clear the client's rects on all monitors, keeping it registered. -/
def clearClient (c : Clients) (id : ℕ) : Clients × Bool := c.write id fun _ => []

/-- All rects on a monitor from all clients. -/
def forMonitor (c : Clients) (monitor : ℤ) : List CoverRect :=
  ((c.list.flatMap Client.rects).filter (·.monitor = monitor)).map MonitorRect.rect

def legacyClear (c : Clients) : Clients := c.legacy fun _ => []

def legacyAdd (c : Clients) (monitor : ℤ) (x y w h rounding : F64) : Clients :=
  let rect : CoverRect := { x, y, w, h, rounding, window := 0, fill := .black }
  match rect.sane with
  | none => c
  | some rect => c.legacy (addRect · { monitor, rect })

/-! ### Calls -/

inductive Call where
  | register (name : String)
  | unregister (id : ℕ)
  | setRects (id : ℕ) (monitor : ℤ) (rects : List CoverRect)
  | clearClient (id : ℕ)
  | legacyClear
  | legacyAdd (monitor : ℤ) (x y w h rounding : F64)
  deriving DecidableEq, Repr

/-- What a call returns. -/
inductive Reply where
  | done
  | id (id : ℕ)
  | written (ok : Bool)
  deriving DecidableEq, Repr

def step (c : Clients) : Call → Clients × Reply
  | .register name => ((c.register name).1, .id (c.register name).2)
  | .unregister id => (c.unregister id, .done)
  | .setRects id monitor rects =>
    ((c.setRects id monitor rects).1, .written (c.setRects id monitor rects).2)
  | .clearClient id => ((c.clearClient id).1, .written (c.clearClient id).2)
  | .legacyClear => (c.legacyClear, .done)
  | .legacyAdd monitor x y w h rounding => (c.legacyAdd monitor x y w h rounding, .done)

end Clients

end Extra

end NoshareCover
