import Mathlib.Data.Rat.Floor
import NoshareCover.Core.Frame

/-!
# YUV → premultiplied BGRA

Video is opaque, so it's plain BGRA with alpha 255.  All decoders convert their pictures here, in
fixed-point arithmetic of 14 bits.
-/

namespace NoshareCover.Yuv

inductive Matrix where
  | bt601
  | bt709
  | bt2020
  deriving DecidableEq, Repr

/-- Coefficients (Kr, Kb). -/
def Matrix.krKb : Matrix → ℚ × ℚ
  | bt601 => (0.299, 0.114)
  | bt709 => (0.2126, 0.0722)
  | bt2020 => (0.2627, 0.0593)

inductive Chroma where
  /-- one chroma sample for 2x2 pixels -/
  | sub420
  /-- one chroma sample for 2x1 -/
  | sub422
  | full
  /-- luma only -/
  | mono
  deriving DecidableEq, Repr

def Chroma.shift : Chroma → ℕ × ℕ
  | sub420 => (1, 1)
  | sub422 => (1, 0)
  | full => (0, 0)
  | mono => (0, 0)

/-- Bytes and the row stride in bytes. -/
structure Plane where
  data : List UInt8
  stride : ℕ
  deriving DecidableEq, Repr

inductive ChromaPlanes where
  /-- separate U and V planes -/
  | planar (u v : Plane)
  /-- interleaved UV (NV12) -/
  | interleaved (uv : Plane)
  | none
  deriving DecidableEq, Repr

structure YuvImage where
  width : ℕ
  height : ℕ
  /-- Above 8, samples are `u16` little-endian. -/
  bitDepth : ℕ
  chroma : Chroma
  matrix : Matrix
  fullRange : Bool
  y : Plane
  uv : ChromaPlanes
  deriving DecidableEq, Repr

def fix : ℕ := 14

/-- Fixed-point coefficients for 8-bit values. -/
structure Coefs where
  yOff : ℤ
  yMul : ℤ
  rv : ℤ
  gu : ℤ
  gv : ℤ
  bu : ℤ
  deriving DecidableEq, Repr

def Coefs.new (matrix : Matrix) (full : Bool) : Coefs :=
  let kr := matrix.krKb.1
  let kb := matrix.krKb.2
  let kg := 1 - kr - kb
  -- luma and chroma scale for limited range
  let ys : ℚ := if full then 1 else 255 / 219
  let cs : ℚ := if full then 1 else 255 / 224
  let r (v : ℚ) : ℤ := ⌊v * 2 ^ fix + 1 / 2⌋
  { yOff := if full then 0 else 16
    yMul := r ys
    rv := r (2 * (1 - kr) * cs)
    gu := r (2 * (1 - kb) * kb / kg * cs)
    gv := r (2 * (1 - kr) * kr / kg * cs)
    bu := r (2 * (1 - kb) * cs) }

/-- From fixed point to a byte, rounded. -/
def clampByte (x : ℤ) : UInt8 := (max 0 (min ((x + 2 ^ (fix - 1)) / 2 ^ fix) 255)).toNat.toUInt8

/-- One pixel, as BGRA. -/
def Coefs.px (c : Coefs) (y u v : ℤ) : List UInt8 :=
  let y := (y - c.yOff) * c.yMul
  let u := u - 128
  let v := v - 128
  let r := clampByte (y + c.rv * v)
  let g := clampByte (y - c.gu * u - c.gv * v)
  let b := clampByte (y + c.bu * u)
  [b, g, r, 255]

def sample (p : Plane) (x y shift : ℕ) : ℤ :=
  if shift = 0 then ((p.data.getD (y * p.stride + x) 0).toNat : ℤ)
  else
    let i := y * p.stride + x * 2
    let word := (p.data.getD i 0).toNat + (p.data.getD (i + 1) 0).toNat * 256
    (min (word / 2 ^ shift) 255 : ℕ)

/-- The planes actually fit the image. -/
def planeOk (p : Plane) (w h bytesPer : ℕ) : Bool :=
  h = 0 || (w * bytesPer ≤ p.stride && p.stride * (h - 1) + w * bytesPer ≤ p.data.length)

def planesOk (img : YuvImage) : Bool :=
  let bpp := if 8 < img.bitDepth then 2 else 1
  let (sx, sy) := img.chroma.shift
  let cw := (img.width + 2 ^ sx - 1) / 2 ^ sx
  let ch := (img.height + 2 ^ sy - 1) / 2 ^ sy
  planeOk img.y img.width img.height bpp
    && (decide (img.chroma = .mono)
      || match img.uv with
        | .planar u v => planeOk u cw ch bpp && planeOk v cw ch bpp
        | .interleaved uv => planeOk uv (cw * 2) ch bpp
        | .none => false)

/-- The pixel at column `x` of a row. -/
def convertPixel (img : YuvImage) (c : Coefs) (row x : ℕ) : List UInt8 :=
  let down := img.bitDepth - 8
  let (sx, sy) := img.chroma.shift
  let cy := row / 2 ^ sy
  let cx := x / 2 ^ sx
  let yv := sample img.y x row down
  if img.chroma = .mono then c.px yv 128 128
  else
    match img.uv with
    | .planar u v => c.px yv (sample u cx cy down) (sample v cx cy down)
    | .interleaved p => c.px yv (sample p (cx * 2) cy down) (sample p (cx * 2 + 1) cy down)
    | .none => c.px yv 128 128

/-- Conversion; `none` means invalid plane sizes. -/
def toBgra (img : YuvImage) : Option CpuFrame :=
  if img.width = 0 ∨ img.height = 0 ∨ img.bitDepth < 8 ∨ 16 < img.bitDepth then none
  else if planesOk img then
    let c := Coefs.new img.matrix img.fullRange
    -- rows are independent, so threads that convert bands of them make the same picture
    let out := (List.range img.height).flatMap fun row =>
      (List.range img.width).flatMap fun x => convertPixel img c row x
    some (.fromBgra img.width img.height out)
  else none

end NoshareCover.Yuv
