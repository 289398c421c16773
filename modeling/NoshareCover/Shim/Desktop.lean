import NoshareCover.Lib.Override
import NoshareCover.Lib.Region
import NoshareCover.Shim.Config
import Mathlib.Data.Rat.Floor

/-!
# The desktop as the shim finds it

Windows, layers and fade-outs of Hyprland at one moment, the `no_screen_share` variable of every
surface, and where a window lands in the capture image.  Coordinates are exact rationals.
-/

namespace NoshareCover

/-- The address of a window or layer. -/
abbrev Key := ℕ

abbrev MonitorId := ℕ

abbrev FadeId := ℕ

abbrev Vec := ℚ × ℚ

/-- The `no_screen_share` variables; the top priority is `PRIORITY_SET_PROP`. -/
abbrev Vars := Key → Override.Slots Bool

/-- Cursor zoom: the zoomed monitor image and the unzoomed monitor size, in monitor pixels. -/
structure Zoom where
  box : Box ℚ
  full : Vec
  deriving DecidableEq, Repr

structure Monitor where
  id : MonitorId
  position : Vec
  scale : ℚ
  /-- The entry of `g_zoom`. -/
  zoom : Option Zoom
  deriving DecidableEq, Repr

/-- Unzoomed monitor pixel box to where it ends up in the screencast image. -/
def zoomed (mon : Monitor) (b : Box ℚ) : Box ℚ :=
  match mon.zoom with
  | none => b
  | some z =>
    if z.full.1 ≤ 0 ∨ z.full.2 ≤ 0 then b
    else
      let sx := z.box.w / z.full.1
      let sy := z.box.h / z.full.2
      { x := z.box.x + b.x * sx, y := z.box.y + b.y * sy, w := b.w * sx, h := b.h * sy }

def zoomScale (mon : Monitor) : ℚ :=
  match mon.zoom with
  | none => 1
  | some z => if z.full.1 ≤ 0 then 1 else z.box.w / z.full.1

/-- A box in global logical coordinates in the pixels of a capture that starts at `capturePos`. -/
def captureBox (mon : Monitor) (capturePos : Vec) (b : Box ℚ) : Box ℚ :=
  (zoomed mon ((b.translate (-mon.position)).scale mon.scale)).translate (-capturePos)

/-- At least 5 logical pixels wide and high. -/
def atLeast5 (b : Box ℚ) : Box ℚ := { b with w := max b.w 5, h := max b.h 5 }

/-- `std::lround`: halves go away from zero. -/
def lround (q : ℚ) : ℤ := if 0 ≤ q then ⌊q + 1 / 2⌋ else -⌊-q + 1 / 2⌋

/-! ### Surfaces -/

structure Window where
  key : Key
  /-- It has a rule applicator, and with it a `no_screen_share` variable. -/
  ruled : Bool
  /-- What `collectRuleValues` finds for it. -/
  rules : RuleValues
  mapped : Bool
  /-- `shouldRenderWindow` on the monitor of the frame. -/
  shouldRender : MonitorId → Bool
  isHidden : Bool
  hasWorkspace : Bool
  alphaFade : ℚ
  alphaFullscreen : ℚ
  alphaLayout : ℚ
  pinned : Bool
  /-- The render offset of its workspace. -/
  renderOffset : Option Vec
  position : Vec
  size : Vec
  rounding : ℚ
  roundingPower : ℚ
  /-- The monitor it is on. -/
  monitor : Option MonitorId
  floating : Bool
  /-- It is the fullscreen or maximized window of its workspace. -/
  fullscreen : Bool
  /-- Its mode is `FSMODE_FULLSCREEN`. -/
  fullscreenMode : Bool
  /-- Its workspace has a fullscreen or maximized window. -/
  fsWorkspace : Bool
  overFullscreen : Bool
  special : Bool
  opaque_ : Bool
  x11 : Bool
  /-- The boxes of its visible popups' surfaces, relative to the client's own origin. -/
  popups : List (Box ℚ)
  /-- Top-left of the client's own geometry inside its surface. -/
  clientPos : Vec

structure Layer where
  key : Key
  ruled : Bool
  rules : RuleValues
  /-- Mapped, accepting input and not fully transparent. -/
  visible : Bool
  monitor : Option MonitorId
  position : Vec
  size : Vec
  /-- The layer-shell level, 0 to 3. -/
  level : ℕ
  popups : List (Box ℚ)
  geometryPos : Vec

/-- What the loops over windows and layers have in common: the surface's address, whether it has a
variable, its rules, and whether it counts as being there. -/
structure Surface where
  key : Key
  ruled : Bool
  rules : RuleValues
  present : Bool
  deriving DecidableEq, Repr

def Window.surface (w : Window) : Surface :=
  { key := w.key, ruled := w.ruled, rules := w.rules, present := w.mapped }

def Layer.surface (l : Layer) : Surface :=
  { key := l.key, ruled := l.ruled, rules := l.rules, present := l.visible }

inductive Plane where
  | windowTiled
  | windowFloating
  | windowOverFullscreen
  | layerBackground
  | layerBottom
  | layerTop
  | layerOverlay
  | other
  deriving DecidableEq, Repr

/-- The snapshot that Hyprland fades out in place of a closed window or layer.  `source` is the
surface it was made for, which no function reads. -/
structure Fadeout where
  id : FadeId
  source : Key
  plane : Plane
  monitor : Option MonitorId
  done : Bool
  /-- Its current box. -/
  box : Box ℚ
  deriving DecidableEq, Repr

def isWindowFade (f : Fadeout) : Bool :=
  f.plane = .windowTiled || f.plane = .windowFloating || f.plane = .windowOverFullscreen

def isLayerFade (f : Fadeout) : Bool :=
  f.plane = .layerBackground || f.plane = .layerBottom || f.plane = .layerTop
    || f.plane = .layerOverlay

/-- The windows and layers in Hyprland's list orders.  Different surfaces have different
addresses. -/
structure Desktop where
  windows : List Window
  layers : List Layer
  fadeouts : List Fadeout
  /-- The monitors that are there. -/
  monitors : List MonitorId
  vars : Vars
  nodup : (windows.map Window.key ++ layers.map Layer.key).Nodup

namespace Desktop

variable (d : Desktop)

/-- The surfaces in the order in which the loops go through them. -/
def surfaces : List Surface := d.windows.map Window.surface ++ d.layers.map Layer.surface

theorem map_key_surfaces :
    d.surfaces.map Surface.key = d.windows.map Window.key ++ d.layers.map Layer.key := by
  simp [surfaces, Function.comp_def, Window.surface, Layer.surface]

theorem surfaces_nodup : (d.surfaces.map Surface.key).Nodup := by
  rw [map_key_surfaces]
  exact d.nodup

theorem surface_ext {sf sf' : Surface} (h : sf ∈ d.surfaces) (h' : sf' ∈ d.surfaces)
    (hk : sf.key = sf'.key) : sf = sf' :=
  List.inj_on_of_nodup_map d.surfaces_nodup h h' hk

theorem window_ext {w w' : Window} (h : w ∈ d.windows) (h' : w' ∈ d.windows)
    (hk : w.key = w'.key) : w = w' :=
  List.inj_on_of_nodup_map (List.nodup_append.1 d.nodup).1 h h' hk

theorem layer_ext {l l' : Layer} (h : l ∈ d.layers) (h' : l' ∈ d.layers) (hk : l.key = l'.key) :
    l = l' :=
  List.inj_on_of_nodup_map (List.nodup_append.1 d.nodup).2.1 h h' hk

variable {d} in
theorem window_surface {w : Window} (hw : w ∈ d.windows) : w.surface ∈ d.surfaces :=
  List.mem_append_left _ (List.mem_map_of_mem hw)

variable {d} in
theorem layer_surface {l : Layer} (hl : l ∈ d.layers) : l.surface ∈ d.surfaces :=
  List.mem_append_right _ (List.mem_map_of_mem hl)

/-- The fade-out behind a weak pointer, while it exists. -/
def fadeout? (id : FadeId) : Option Fadeout := d.fadeouts.find? fun f => f.id = id

def windowGone (k : Key) : Bool := d.windows.all fun w => w.key ≠ k || !w.mapped

def layerGone (k : Key) : Bool := d.layers.all fun l => l.key ≠ k || !l.visible

end Desktop

/-! ### Geometry -/

def windowFade (w : Window) : ℚ := w.alphaFade * w.alphaFullscreen * w.alphaLayout

/-- A window as it lands in the capture image. -/
structure WinGeo where
  /-- Global logical, with the render offset of the workspace. -/
  pos : Vec
  size : Vec
  /-- Capture pixels. -/
  box : Box ℚ
  round : ℤ
  roundingPower : ℚ
  /-- Stacking. -/
  layer : ℕ
  opaque_ : Bool
  deriving DecidableEq, Repr

/-- The position with the offset of a sliding workspace. -/
def windowPos (w : Window) : Vec :=
  w.position + (if w.hasWorkspace && !w.pinned then w.renderOffset.getD 0 else 0)

/-- Tiled, floating, and on a workspace with a fullscreen window that window over both, with the
floating windows that go over it on top; the special workspace the same way over the regular one,
pinned windows over everything. -/
def windowLayer (w : Window) : ℕ :=
  let stack :=
    if w.fsWorkspace && w.fullscreen then 2
    else if w.fsWorkspace && w.floating && w.overFullscreen then 3
    else if w.floating then 1 else 0
  if w.pinned then 8 else (if w.special then 4 else 0) + stack

/-- The rounding of the window's corners in capture pixels. -/
def windowRound (w : Window) (mon : Monitor) : ℤ := lround (w.rounding * mon.scale * zoomScale mon)

/-- Where the window is in the capture image; `none` when nothing of it is on screen. -/
def windowGeo (w : Window) (mon : Monitor) (capturePos : Vec) : Option WinGeo :=
  if !w.shouldRender mon.id || w.isHidden then none
  else if !w.hasWorkspace || windowFade w = 0 then none
  else
    let pos := windowPos w
    let box := captureBox mon capturePos
      (atLeast5 { x := pos.1, y := pos.2, w := w.size.1, h := w.size.2 })
    if box.w < 1 ∨ box.h < 1 then none
    else
      let dontRound := capturePos ≠ 0 ∨ w.fullscreenMode
      some
        { pos, size := w.size, box
          round := if dontRound then 0 else windowRound w mon
          roundingPower := if dontRound then 2 else w.roundingPower
          layer := windowLayer w
          opaque_ := 1 ≤ windowFade w && w.opaque_ }

/-- A window that is found is on the monitor and at least a pixel big, and only rounded if the whole
monitor is captured. -/
theorem windowGeo_spec {w : Window} {mon : Monitor} {capturePos : Vec} {geo : WinGeo}
    (h : windowGeo w mon capturePos = some geo) :
    w.shouldRender mon.id = true ∧ ¬ (geo.box.w < 1 ∨ geo.box.h < 1)
      ∧ geo.round = (if capturePos ≠ 0 ∨ w.fullscreenMode then 0 else windowRound w mon)
      ∧ geo.roundingPower
        = (if capturePos ≠ 0 ∨ w.fullscreenMode then 2 else w.roundingPower) := by
  unfold windowGeo at h
  dsimp only at h
  -- hidden or on another workspace, there is no box
  by_cases hoff : (!w.shouldRender mon.id || w.isHidden) = true
  · rw [if_pos hoff] at h
    cases h
  rw [if_neg hoff] at h
  simp only [Bool.or_eq_true, Bool.not_eq_true', not_or, Bool.not_eq_false] at hoff
  -- the ways to no box are gone, and the rounding is by the capture
  split_ifs at h with hfaded hsmall hround
  all_goals
    rw [Option.some.injEq] at h
    subst h
  · exact ⟨hoff.1, hsmall, (if_pos hround).symm, (if_pos hround).symm⟩
  · exact ⟨hoff.1, hsmall, (if_neg hround).symm, (if_neg hround).symm⟩

end NoshareCover
