import Mathlib.Data.List.ProdSigma
import NoshareCover.Core.Gif

/-!
# The bytes of a GIF's canvas

`blit` and `fill_rect` with the offsets that they compute: in `u32`, and in `usize`, which is larger
than any of them.  `none` stands for a panic: a slice out of range, or an overflow in a debug build.
-/

namespace NoshareCover

/-- An overflow is an error in a debug build and wraps in a release build. -/
inductive Build where
  | debug
  | release
  deriving DecidableEq, Repr

namespace Build

/-- The value of a `u32` computation. -/
def u32 : Build → ℕ → Option ℕ
  | debug, n => if n < 2 ^ 32 then some n else none
  | release, n => some (n % 2 ^ 32)

/-- `(y * w + x) * 4`. -/
def offset (build : Build) (y w x : ℕ) : Option ℕ := do
  let row ← build.u32 (y * w)
  let n ← build.u32 (row + x)
  build.u32 (n * 4)

end Build

/-- A canvas of this size in memory. -/
structure CanvasBytes (width height : ℕ) where
  bytes : List UInt8
  length_bytes : bytes.length = width * height * 4

namespace GifBytes

/-- `&data[i..i + 4]`. -/
def slice (data : List UInt8) (i : ℕ) : Option (List UInt8) :=
  if i + 4 ≤ data.length then some ((data.drop i).take 4) else none

def put (data : List UInt8) (i : ℕ) (px : Bgra) : List UInt8 :=
  data.take i ++ px.bytes ++ data.drop (i + 4)

/-- `data[i..i + 4].copy_from_slice(px)`. -/
def copy (data : List UInt8) (i : ℕ) (px : Bgra) : Option (List UInt8) :=
  if i + 4 ≤ data.length then some (put data i px) else none

/-- Row after row. -/
def pixels (rows columns : List ℕ) : List (ℕ × ℕ) := rows ×ˢ columns

section Draw

variable (build : Build) (width height : ℕ)

def fillRect (left top w h : ℕ) (color : Bgra) (canvas : List UInt8) : Option (List UInt8) := do
  let x1 := min (← build.u32 (left + w)) width
  let y1 := min (← build.u32 (top + h)) height
  let x0 := min left width
  let y0 := min top height
  (pixels (List.range' y0 (y1 - y0)) (List.range' x0 (x1 - x0))).foldlM (fun canvas p => do
    let row ← build.u32 (p.1 * width)
    copy canvas (row * 4 + p.2 * 4) color) canvas

/-- One pixel of a blit. -/
def blitPixel (f : GifFrame) (canvas : List UInt8) (p : ℕ × ℕ) : Option (List UInt8) := do
  let dy ← build.u32 (f.top + p.1)
  let dx ← build.u32 (f.left + p.2)
  -- rows and columns only grow, so this is where the loops stop
  if height ≤ dy ∨ width ≤ dx then some canvas
  else
    let src ← slice f.rgba (← build.offset p.1 f.width p.2)
    if src.getD 3 0 = 0 then some canvas
    else
      copy canvas (← build.offset dy width dx)
        { b := src.getD 2 0, g := src.getD 1 0, r := src.getD 0 0, a := 255 }

def blit (f : GifFrame) (canvas : List UInt8) : Option (List UInt8) :=
  (pixels (List.range f.height) (List.range f.width)).foldlM (blitPixel build width height f) canvas

end Draw

end GifBytes

end NoshareCover
