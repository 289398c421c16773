import NoshareCover.Shim.Client
import NoshareCover.Shim.Desktop

/-!
# Capture frames and what is drawn into them

A capture frame is what the hook finds when Hyprland renders one: the monitor, the client and the
desktop at that moment.  The paint pass is the list of its draws, in order.
-/

namespace NoshareCover

/-- Another plugin's rectangle, in global logical coordinates. -/
structure ExtraRect where
  box : Box ℚ
  rounding : ℚ
  /-- Filled with the cover of `window`, not black. -/
  fill : Bool
  window : Key
  deriving DecidableEq, Repr

/-- A rectangle that 32-bit coordinates can hold. -/
def FitsInt32 (b : Box ℤ) : Prop :=
  0 ≤ b.w ∧ 0 ≤ b.h ∧ -2 ^ 31 ≤ b.x ∧ b.x + b.w < 2 ^ 31 ∧ -2 ^ 31 ≤ b.y ∧ b.y + b.h < 2 ^ 31

instance (b : Box ℤ) : Decidable (FitsInt32 b) := inferInstanceAs (Decidable (_ ∧ _))

/-- How `CRegion` cuts a box to whole pixels.  The class is not part of the repository; a box that
is one of whole pixels stays what it is. -/
structure RegionCut where
  cut : Box ℚ → Box ℤ
  cut_whole : ∀ b : Box ℤ, FitsInt32 b → cut (b.map (Int.cast : ℤ → ℚ)) = b

/-- One capture frame of a monitor. -/
structure CaptureFrame where
  mon : Monitor
  /-- Top-left of the captured box; zero when the whole monitor is captured. -/
  capturePos : Vec
  proc : ProcInfo
  resolvedPath : Text → Text
  cfg : ShimConfig
  desktop : Desktop
  /-- The monitor can be drawn again without its transparent surfaces: it isn't locked and there
  are buffers for it. -/
  sceneReady : Bool
  /-- The core has a live animation. -/
  animating : Bool
  extraRects : List ExtraRect
  region : RegionCut
  /-- Where the hash map of the last covers has each key, when the frame goes through it. -/
  order : Key → ℕ
  mon_mem : mon.id ∈ desktop.monitors

def CaptureFrame.client (fr : CaptureFrame) : CaptureClient :=
  { globalShow := fr.cfg.showTo, globalHide := fr.cfg.hideFrom, proc := fr.proc
    resolvedPath := fr.resolvedPath }

/-- What a cover stands for. -/
inductive Subject where
  | window (key : Key)
  | layer (key : Key)
  /-- A window or layer that closed, and the surface that it was. -/
  | closing (owner : Key)
  deriving DecidableEq, Repr

/-- One call of `paintCover`: it draws over `box`, only within `area`. -/
structure CoverOp where
  subject : Subject
  rules : RuleValues
  box : Box ℚ
  round : ℤ
  roundingPower : ℚ
  area : Region ℤ
  deriving DecidableEq, Repr

inductive PaintOp where
  | cover (op : CoverOp)
  /-- Not drawn over: the surface was left out of the image. -/
  | leftOut (subject : Subject)
  /-- Not drawn over: the window is fully under other windows. -/
  | under (key : Key)
  /-- A popup of the surface `owner`. -/
  | popup (owner : Key) (kind : CoverKind) (box : Box ℚ)
  /-- A translucent window, again over the covers below it. -/
  | redrawWindow (key : Key) (geo : WinGeo) (clip : Region ℤ)
  | redrawLayer (key : Key) (clip : Region ℤ)
  /-- Another plugin's rectangle, with the rules of the cover that fills it. -/
  | extraRect (box : Box ℚ) (round : ℤ) (fill : Option RuleValues)
  deriving DecidableEq, Repr

/-- `paintCover` with an empty clip draws over the whole box. -/
def coverArea (c : RegionCut) (box : Box ℚ) (clip : Region ℤ) : Region ℤ :=
  if clip.isEmpty then Region.ofBox (c.cut box) else clip

/-- The draw stands for a cover of the surface: the cover itself, or a note that the surface is not
in the image, or that nothing of it shows. -/
def PaintOp.covers (key : Key) : PaintOp → Bool
  | .cover op => op.subject = .window key || op.subject = .layer key
  | .leftOut s => s = .window key || s = .layer key
  | .under k => k = key
  | _ => false

/-- The surface is covered in this list of draws. -/
def coversSurface (ops : List PaintOp) (key : Key) : Bool := ops.any (PaintOp.covers key)

end NoshareCover
