import Mathlib.Algebra.Group.Nat.Defs
import Mathlib.Data.Nat.Notation

/-!
# Decoded frames

Pixels are premultiplied BGRA bytes in memory, rows of `stride` bytes.  A frame is either such a
buffer or a dmabuf exported by a GPU decoder.
-/

namespace NoshareCover

/-- `c * a / 255` with rounding. -/
def premul (c a : UInt8) : UInt8 := ((c.toNat * a.toNat + 127) / 255).toUInt8

/-- A frame in memory. -/
structure CpuFrame where
  width : ℕ
  height : ℕ
  /-- Bytes per row, a `u32`. -/
  stride : ℕ
  pixels : List UInt8
  deriving DecidableEq, Repr

namespace CpuFrame

/-- Premultiplies and swizzles whole RGBA pixels; bytes after the last whole pixel are dropped. -/
def premulBgra : List UInt8 → List UInt8
  | r :: g :: b :: a :: rest => premul b a :: premul g a :: premul r a :: a :: premulBgra rest
  | _ => []

/-- From RGBA8, as image decoders return it. -/
def fromRgba (width height : ℕ) (rgba : List UInt8) : CpuFrame :=
  { width, height, stride := width * 4 % 2 ^ 32, pixels := premulBgra rgba }

/-- A ready BGRA buffer. -/
def fromBgra (width height : ℕ) (pixels : List UInt8) : CpuFrame :=
  { width, height, stride := width * 4 % 2 ^ 32, pixels }

end CpuFrame

structure DmaBufPlane where
  fd : ℕ
  offset : ℕ
  stride : ℕ
  deriving DecidableEq, Repr

/-- A frame in video memory, exported by the decoder. -/
structure DmaBufFrame where
  width : ℕ
  height : ℕ
  fourcc : ℕ
  modifier : ℕ
  planes : List DmaBufPlane
  deriving DecidableEq, Repr

inductive FrameData where
  | cpu (f : CpuFrame)
  | dmaBuf (f : DmaBufFrame)
  deriving DecidableEq, Repr

def FrameData.size : FrameData → ℕ × ℕ
  | cpu f => (f.width, f.height)
  | dmaBuf f => (f.width, f.height)

structure Frame where
  /-- Grows with every new source frame: the shim updates its texture only when it changes. -/
  generation : ℕ
  data : FrameData
  deriving DecidableEq, Repr

end NoshareCover
