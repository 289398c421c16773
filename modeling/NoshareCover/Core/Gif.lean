import NoshareCover.Core.Clock

/-!
# GIF

Frames are decoded once on open, and the canvas is built step by step: going forward adds frames,
going back (loop) starts over.
-/

namespace NoshareCover

inductive DisposalMethod where
  | any
  | keep
  | background
  | previous
  deriving DecidableEq, Repr

/-- A frame as the GIF decoder reads it, its buffer RGBA. -/
structure GifImage where
  delay : UInt16
  dispose : DisposalMethod
  left : UInt16
  top : UInt16
  width : UInt16
  height : UInt16
  buffer : List UInt8
  buffer_length : buffer.length = width.toNat * height.toNat * 4

/-- What the GIF decoder tells of a file; reading its frames can fail. -/
structure GifFile where
  width : UInt16
  height : UInt16
  bgColor : Option ℕ
  globalPalette : Option (List UInt8)
  frames : Except String (List GifImage)

structure GifFrame where
  delay : ℕ
  dispose : DisposalMethod
  left : ℕ
  top : ℕ
  width : ℕ
  height : ℕ
  /-- Transparent pixels have alpha 0. -/
  rgba : List UInt8
  deriving DecidableEq, Repr

/-- The delay is in centiseconds; 0 and 1 mean 10. -/
def GifFrame.ofImage (f : GifImage) : GifFrame :=
  let cs := if f.delay.toNat ≤ 1 then 10 else f.delay.toNat
  { delay := cs * 10 * 1000000, dispose := f.dispose, left := f.left.toNat, top := f.top.toNat,
    width := f.width.toNat, height := f.height.toNat, rgba := f.buffer }

/-- A canvas pixel. -/
structure Bgra where
  b : UInt8
  g : UInt8
  r : UInt8
  a : UInt8
  deriving DecidableEq, Repr

def Bgra.bytes (px : Bgra) : List UInt8 := [px.b, px.g, px.r, px.a]

/-- The background, or transparent where the file has none. -/
def GifFile.bg (file : GifFile) : Bgra :=
  match file.bgColor, file.globalPalette with
  | some i, some pal =>
    if i * 3 + 2 < pal.length then
      { b := pal.getD (i * 3 + 2) 0, g := pal.getD (i * 3 + 1) 0, r := pal.getD (i * 3) 0, a := 255 }
    else { b := 0, g := 0, r := 0, a := 0 }
  | _, _ => { b := 0, g := 0, r := 0, a := 0 }

/-- The canvas is a list of pixels; its byte offsets are four times their indices. -/
structure GifSource where
  width : ℕ
  height : ℕ
  bg : Bgra
  frames : List GifFrame
  total : ℕ
  canvas : List Bgra
  backup : Option (List Bgra)
  /-- The last composited frame; `none` means a clean canvas. -/
  shown : Option ℕ
  clock : PlaybackClock
  generation : ℕ
  sent : Option ℕ

namespace GifSource

/-! ### Drawing on the canvas -/

def clearCanvas (g : GifSource) : GifSource :=
  { g with canvas := List.replicate (g.width * g.height) g.bg, shown := none, backup := none }

def fillRect (g : GifSource) (left top w h : ℕ) (color : Bgra) (canvas : List Bgra) : List Bgra :=
  let x0 := min left g.width
  let y0 := min top g.height
  let x1 := min (left + w) g.width
  let y1 := min (top + h) g.height
  (List.range' y0 (y1 - y0)).foldl (fun canvas y =>
    (List.range' x0 (x1 - x0)).foldl (fun canvas x => canvas.set (y * g.width + x) color) canvas)
    canvas

/-- Where a pixel is in its buffer: byte offsets of a blit are `u32`. -/
def pixelIndex (n : ℕ) : ℕ := n * 4 % 2 ^ 32 / 4

/-- The alpha of a pixel of the frame. -/
def srcAlpha (f : GifFrame) (y x : ℕ) : UInt8 :=
  f.rgba.getD (pixelIndex (y * f.width + x) * 4 + 3) 0

def blitPixel (g : GifSource) (f : GifFrame) (y x : ℕ) (canvas : List Bgra) : List Bgra :=
  let dy := f.top + y
  let dx := f.left + x
  -- rows and columns only grow, so this is where the loops stop
  if g.height ≤ dy ∨ g.width ≤ dx then canvas
  else if srcAlpha f y x = 0 then canvas
  else
    let s := pixelIndex (y * f.width + x) * 4
    canvas.set (pixelIndex (dy * g.width + dx))
      { b := f.rgba.getD (s + 2) 0, g := f.rgba.getD (s + 1) 0, r := f.rgba.getD s 0, a := 255 }

def blit (g : GifSource) (f : GifFrame) (canvas : List Bgra) : List Bgra :=
  (List.range f.height).foldl (fun canvas y =>
    (List.range f.width).foldl (fun canvas x => blitPixel g f y x canvas) canvas) canvas

/-! ### Compositing -/

/-- Disposes of the frame that was composited last. -/
def disposePrev (g : GifSource) : GifSource :=
  match g.shown.bind (g.frames[·]?) with
  | none => g
  | some f =>
    match f.dispose with
    | .background => { g with canvas := fillRect g f.left f.top f.width f.height g.bg g.canvas }
    | .previous =>
      match g.backup with
      | some b => { g with canvas := b, backup := none }
      | none => g
    | .keep | .any => g

/-- Disposes of the previous frame by its disposal method and composites the next one. -/
def step (g : GifSource) : GifSource :=
  let next := g.shown.elim 0 (· + 1)
  match g.frames[next]? with
  | none => g
  | some f =>
    let g := g.disposePrev
    let g := if f.dispose = .previous then { g with backup := some g.canvas } else g
    { g with canvas := blit g f g.canvas, shown := some next }

def steps (target : ℕ) : ℕ → GifSource → GifSource
  | 0, g => g
  | n + 1, g => if g.shown = some target then g else steps target n g.step

def «show» (g : GifSource) (target : ℕ) : GifSource :=
  if g.shown = some target then g
  else
    let g := if g.shown.any (target < ·) then g.clearCanvas else g
    steps target (g.frames.length + 1) g

/-! ### The source -/

/-- The first frame that ends after `pos`, or the last frame. -/
def frameAtFrom (pos : ℕ) : List GifFrame → ℕ → ℕ → ℕ
  | [], i, _ => i - 1
  | f :: fs, i, acc => if pos < acc + f.delay then i else frameAtFrom pos fs (i + 1) (acc + f.delay)

/-- Which frame is visible at position `pos`. -/
def frameAt (g : GifSource) (pos : ℕ) : ℕ := frameAtFrom pos g.frames 0 0

def «open» (path : String) (speed : Speed) (looped : Bool) (file : Except String GifFile) :
    Except MediaError GifSource :=
  match file with
  | .error e => .error (.open path e)
  | .ok file =>
    if file.width = 0 ∨ file.height = 0 then .error (.open path "empty GIF")
    else
      match file.frames with
      | .error e => .error (.open path e)
      | .ok images =>
        let frames := images.map GifFrame.ofImage
        if frames = [] then .error (.open path "GIF has no frames")
        else .ok (clearCanvas
          { width := file.width.toNat, height := file.height.toNat, bg := file.bg, canvas := [],
            frames, total := (frames.map GifFrame.delay).sum, backup := none, shown := none,
            clock := .new speed looped, generation := 0, sent := none })

def poll (g : GifSource) (now : Instant) : Except MediaError (Option Frame) × GifSource :=
  let (pos, clock) := g.clock.position now (some g.total)
  let target := g.frameAt pos
  let g := { g with clock }.show target
  if g.sent = some target then (.ok none, g)
  else
    let g := { g with sent := some target, generation := g.generation + 1 }
    (.ok (some { generation := g.generation,
                 data := .cpu (.fromBgra g.width g.height (g.canvas.flatMap Bgra.bytes)) }), g)

instance : Source GifSource where
  kind _ := .gif
  poll := poll
  shown g := { g with clock := g.clock.restart }

end GifSource

end NoshareCover
