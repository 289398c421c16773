import NoshareCover.Shim.Hide
import Mathlib.Data.List.Sort

/-!
# The paint pass

Covers in the capture frame, what is stacked above a hidden window drawn again over its cover, and
the entries that the frame leaves in `lastCovers`.
-/

namespace NoshareCover

/-- What the passes before the paint pass hand to it. -/
structure PaintInput where
  vars : Vars
  held : Held
  /-- Hidden surfaces that this client sees as they are. -/
  revealed : List Key
  /-- Surfaces with a transparent cover were left out of this frame's image. -/
  left : Bool
  now : Instant

def PaintInput.rulesOf (inp : PaintInput) (key : Key) (rules : RuleValues) : RuleValues :=
  ruleValuesFor inp.held key rules

def PaintInput.isHeld (inp : PaintInput) (key : Key) : Bool := (inp.held.lookup key).isSome

/-! ### What is on screen -/

/-- A window on screen, and its index among them. -/
structure Visible where
  w : Window
  geo : WinGeo
  /-- Set for hidden windows. -/
  rules : Option RuleValues
  /-- Left out of the image, as if it wasn't there. -/
  gone : Bool
  index : ℕ

def visibleWindow (fr : CaptureFrame) (inp : PaintInput) (w : Window) :
    Option (ℕ → Visible) :=
  (windowGeo w fr.mon fr.capturePos).map fun geo index =>
    if w.ruled && noScreenShare inp.vars w.key then
      let rules := inp.rulesOf w.key w.rules
      { w, geo, rules := some rules, gone := inp.left && transparentCover fr.cfg rules, index }
    else { w, geo, rules := none, gone := false, index }

def visibleWindows (fr : CaptureFrame) (inp : PaintInput) : List Visible :=
  (fr.desktop.windows.filterMap (visibleWindow fr inp)).zipIdx.map fun v => v.1 v.2

/-- Stacked above, then later in the list. -/
def isAbove (a b : Visible) : Bool :=
  a.index ≠ b.index
    && (b.geo.layer < a.geo.layer || (a.geo.layer = b.geo.layer && b.index < a.index))

/-- The corner squares that `subtractRounded` keeps. -/
def clampRound (b : Box ℚ) (r : ℤ) : ℤ := max 0 (min r ⌊min b.w b.h / 2⌋)

/-- Takes an opaque box out of a region, but keeps its corners: a rounded window is transparent
there, and whatever is below would show through. -/
def subtractRounded (c : RegionCut) (region : Region ℤ) (b : Box ℚ) (r : ℤ) : Region ℤ :=
  let r : ℚ := clampRound b r
  (region.subtractBox (c.cut { x := b.x + r, y := b.y, w := b.w - 2 * r, h := b.h })).subtractBox
    (c.cut { x := b.x, y := b.y + r, w := b.w, h := b.h - 2 * r })

/-- Takes out every opaque window above `v` that is in the image. -/
def subtractAbove (c : RegionCut) (visible : List Visible) (v : Visible) (region : Region ℤ) :
    Region ℤ :=
  visible.foldl
    (fun region o =>
      if isAbove o v && o.geo.opaque_ && !o.gone then subtractRounded c region o.geo.box o.geo.round
      else region)
    region

/-- Where the window shows.  Only opaque windows hide what is below them. -/
def visibleRegion (c : RegionCut) (visible : List Visible) (v : Visible) : Region ℤ :=
  subtractAbove c visible v (Region.ofBox (c.cut v.geo.box))

/-! ### Covers of windows and layers -/

/-- What the loops over hidden windows and layers write. -/
structure Painted where
  lastCovers : AList fun _ : Key => LastCover
  animBoxes : List AnimBox
  seen : List Key
  /-- Windows with a cover, and where it was drawn. -/
  drawn : List (Visible × Region ℤ)
  ops : List PaintOp

/-- Popups of a hidden window or layer: blurred or pixelated like it, otherwise black. -/
def popupOps (fr : CaptureFrame) (key : Key) (base : Vec) (popups : List (Box ℚ))
    (kind : CoverKind) : List PaintOp :=
  popups.filterMap fun p =>
    let box := captureBox fr.mon fr.capturePos (p.translate base)
    if box.w < 1 ∨ box.h < 1 then none else some (.popup key kind box)

/-- A held cover keeps the time and rules it had. -/
def Painted.see (acc : Painted) (inp : PaintInput) (key : Key) (last : LastCover) : Painted :=
  { acc with
    seen := key :: acc.seen
    lastCovers := if inp.isHeld key then acc.lastCovers else acc.lastCovers.insert key last }

/-- What is remembered of a covered window. -/
def Visible.lastCover (v : Visible) (mon : MonitorId) (rules : RuleValues) (now : Instant) :
    LastCover :=
  { isLayer := false, mon
    box := { x := v.geo.pos.1, y := v.geo.pos.2, w := v.geo.size.1, h := v.geo.size.2 }
    rules, rounding := v.w.rounding, roundingPower := v.w.roundingPower, at_ := now }

/-- The cover of a hidden window. -/
def coverWindow (fr : CaptureFrame) (inp : PaintInput) (visible : List Visible) (acc : Painted)
    (v : Visible) : Painted :=
  match v.rules with
  | none => acc
  | some rules =>
    let last := v.lastCover fr.mon.id rules inp.now
    let acc := acc.see inp v.w.key last
    if v.gone then { acc with ops := acc.ops ++ [.leftOut (.window v.w.key)] }
    else
      let anim : AnimBox := { mon := fr.mon.id, box := last.box }
      let acc := { acc with animBoxes := acc.animBoxes ++ [anim] }
      let clip := visibleRegion fr.region visible v
      let popups := if v.w.x11 then []
        else popupOps fr v.w.key (v.geo.pos - v.w.clientPos) v.w.popups (coverKind fr.cfg rules)
      if clip.isEmpty then { acc with ops := acc.ops ++ popups ++ [PaintOp.under v.w.key] }
      else
        let op : CoverOp :=
          { subject := .window v.w.key, rules, box := v.geo.box, round := v.geo.round
            roundingPower := v.geo.roundingPower, area := coverArea fr.region v.geo.box clip }
        { acc with
          drawn := acc.drawn ++ [(v, clip)]
          ops := acc.ops ++ popups ++ [PaintOp.cover op] }

def Layer.box (l : Layer) : Box ℚ :=
  { x := l.position.1, y := l.position.2, w := l.size.1, h := l.size.2 }

/-- What is remembered of a covered layer. -/
def Layer.lastCover (l : Layer) (mon : MonitorId) (rules : RuleValues) (now : Instant) :
    LastCover :=
  { isLayer := true, mon, box := l.box, rules, rounding := 0, roundingPower := 2, at_ := now }

/-- Where the layer's cover goes. -/
def layerBox (fr : CaptureFrame) (l : Layer) : Box ℚ :=
  captureBox fr.mon fr.capturePos (atLeast5 l.box)

/-- A hidden layer that gets a cover: same geometry as Hyprland's black rect. -/
def layerCovered (fr : CaptureFrame) (inp : PaintInput) (l : Layer) : Bool :=
  l.ruled && noScreenShare inp.vars l.key && l.visible
    && !((layerBox fr l).w < 1 || (layerBox fr l).h < 1)

/-- The cover of a hidden layer, no rounding. -/
def coverLayer (fr : CaptureFrame) (inp : PaintInput) (acc : Painted) (l : Layer) : Painted :=
  if !layerCovered fr inp l then acc
  else
    let rules := inp.rulesOf l.key l.rules
    let acc := acc.see inp l.key (l.lastCover fr.mon.id rules inp.now)
    if inp.left && transparentCover fr.cfg rules then
      { acc with ops := acc.ops ++ [.leftOut (.layer l.key)] }
    else
      let op : CoverOp :=
        { subject := .layer l.key, rules, box := layerBox fr l, round := 0, roundingPower := 2
          area := coverArea fr.region (layerBox fr l) .empty }
      { acc with
        animBoxes := acc.animBoxes ++ [{ mon := fr.mon.id, box := l.box }]
        ops := acc.ops
          ++ popupOps fr l.key (l.position - l.geometryPos) l.popups (coverKind fr.cfg rules)
          ++ [.cover op] }

/-! ### What goes back over the covers -/

/-- Where a translucent window is drawn again: over the covers below it, minus whatever is above
it. -/
def redrawRegion (c : RegionCut) (visible : List Visible) (drawn : List (Visible × Region ℤ))
    (v : Visible) : Region ℤ :=
  let under := drawn.foldl
    (fun (region : Region ℤ) d => if isAbove v d.1 then region.add d.2 else region) Region.empty
  let region := subtractAbove c visible v (under.inter (Region.ofBox (c.cut v.geo.box)))
  drawn.foldl (fun region d => if isAbove d.1 v then region.subtract d.2 else region) region

/-- Translucent windows above a hidden one, bottom to top.  A hidden window is never drawn again
from its real content. -/
def redrawWindows (c : RegionCut) (inp : PaintInput) (visible : List Visible)
    (drawn : List (Visible × Region ℤ)) : List PaintOp :=
  (visible.insertionSort fun a b => a.geo.layer ≤ b.geo.layer).filterMap fun v =>
    if v.geo.opaque_ || !v.w.ruled || noScreenShare inp.vars v.w.key then none
    else
      let region := redrawRegion c visible drawn v
      if region.isEmpty then none else some (.redrawWindow v.w.key v.geo region)

/-- Layers above windows, top then overlay, only where a cover was drawn.  Hidden layers never. -/
def redrawLayers (fr : CaptureFrame) (inp : PaintInput) (coverArea : Region ℤ) : List PaintOp :=
  [2, 3].flatMap fun level => fr.desktop.layers.filterMap fun l =>
    if l.level ≠ level || !l.visible || l.monitor ≠ some fr.mon.id then none
    else if !l.ruled || noScreenShare inp.vars l.key then none
    else
      let region :=
        (Region.ofBox (fr.region.cut (captureBox fr.mon fr.capturePos l.box))).inter coverArea
      if region.isEmpty then none else some (.redrawLayer l.key region)

/-- The rules of the cover for another plugin's rect, which shows a window's media or nothing. -/
def coverForWindowAddress (fr : CaptureFrame) (inp : PaintInput) (address : Key) :
    Option RuleValues :=
  (fr.desktop.windows.find? fun w => w.key = address).bind fun w =>
    let rules := inp.rulesOf w.key w.rules
    if (coverKind fr.cfg rules).kind = .media then some rules else none

def extraRectOps (fr : CaptureFrame) (inp : PaintInput) : List PaintOp :=
  fr.extraRects.filterMap fun r =>
    let box := captureBox fr.mon fr.capturePos
      { r.box with w := max r.box.w 1, h := max r.box.h 1 }
    if box.w < 1 ∨ box.h < 1 then none
    else
      let fill := if r.fill then coverForWindowAddress fr inp r.window else none
      some (.extraRect box (lround (r.rounding * fr.mon.scale * zoomScale fr.mon)) fill)

/-- The area that the closing covers were drawn over. -/
def closingArea (c : RegionCut) (ops : List PaintOp) : Region ℤ :=
  { boxes := ops.filterMap fun op =>
      match op with
      | .cover op => some (c.cut op.box)
      | _ => none }

/-! ### The whole pass -/

/-- The loop over the hidden windows. -/
def paintWindows (fr : CaptureFrame) (inp : PaintInput) (acc : Painted) : Painted :=
  (visibleWindows fr inp).foldl (coverWindow fr inp (visibleWindows fr inp)) acc

/-- The loop over the hidden layers. -/
def paintLayers (fr : CaptureFrame) (inp : PaintInput) (acc : Painted) : Painted :=
  fr.desktop.layers.foldl (coverLayer fr inp) acc

/-- This monitor's animated covers are rebuilt, other monitors' are left alone. -/
def Shim.startFrame (s : Shim) (fr : CaptureFrame) : Painted :=
  { lastCovers := s.lastCovers
    animBoxes := s.animBoxes.filter fun a => a.mon ∈ fr.desktop.monitors && a.mon ≠ fr.mon.id
    seen := [], drawn := [], ops := [] }

/-- The loops over windows and layers, one after the other. -/
def Shim.paintHidden (s : Shim) (fr : CaptureFrame) (inp : PaintInput) : Painted × Painted :=
  let windows := paintWindows fr inp (s.startFrame fr)
  let drawn := if windows.drawn.isEmpty then []
    else redrawWindows fr.region inp (visibleWindows fr inp) windows.drawn
  (windows, paintLayers fr inp { windows with ops := windows.ops ++ drawn })

/-- What the pass remembers: surfaces shown to this client as they are are still hidden and on
screen, so their entries stay for the other clients. -/
def Shim.remember (s : Shim) (fr : CaptureFrame) (inp : PaintInput) (painted : Painted) : Shim :=
  ({ s with lastCovers := painted.lastCovers, animBoxes := painted.animBoxes }).trackClosed
    fr.desktop fr.mon.id fr.order (painted.seen ++ inp.revealed) inp.now

def Shim.paintCovers (s : Shim) (fr : CaptureFrame) (inp : PaintInput) : Shim × List PaintOp :=
  let (windows, painted) := s.paintHidden fr inp
  let (s, closingOps) := (s.remember fr inp painted).paintClosing fr inp.left inp.now
  let area := windows.drawn.foldl (fun area c => area.add c.2) (closingArea fr.region closingOps)
  let layerOps := if area.isEmpty then [] else redrawLayers fr inp area
  let s := if (!s.animBoxes.isEmpty && fr.animating) || !s.closing.isEmpty then s.startPump else s
  (s, painted.ops ++ closingOps ++ layerOps ++ extraRectOps fr inp)

end NoshareCover
