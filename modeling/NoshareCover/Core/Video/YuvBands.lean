import NoshareCover.Core.Video.Yuv

/-!
# The conversion in bands

How `to_bgra` gets at the samples: rows of planes as slices on the fast path, single samples else,
and bands of rows that threads convert.  `none` stands for a panic, an index out of range.
-/

namespace NoshareCover.Yuv

/-- `&data[start..][..n]`. -/
def slice (data : List UInt8) (start n : ℕ) : Option (List UInt8) :=
  if start + n ≤ data.length then some ((data.drop start).take n) else none

def readSample (p : Plane) (x y shift : ℕ) : Option ℤ :=
  if shift = 0 then (p.data[y * p.stride + x]?).map fun b => (b.toNat : ℤ)
  else
    let i := y * p.stride + x * 2
    match p.data[i]?, p.data[i + 1]? with
    | some lo, some hi => some (min ((lo.toNat + hi.toNat * 256) / 2 ^ shift) 255 : ℕ)
    | _, _ => none

def fastPixel (c : Coefs) (yr ur vr : List UInt8) (x : ℕ) : Option (List UInt8) :=
  match yr[x]?, ur[x / 2]?, vr[x / 2]? with
  | some y, some u, some v => some (c.px y.toNat u.toNat v.toNat)
  | _, _, _ => none

/-- The fast path: 8-bit, 4:2:0, separate planes. -/
def fastRow (img : YuvImage) (u v : Plane) (c : Coefs) (row : ℕ) : Option (List UInt8) := do
  let cw := (img.width + 1) / 2
  let yr ← slice img.y.data (row * img.y.stride) img.width
  let ur ← slice u.data (row / 2 * u.stride) cw
  let vr ← slice v.data (row / 2 * v.stride) cw
  let pixels ← (List.range img.width).mapM (fastPixel c yr ur vr)
  pure pixels.flatten

def readChroma (img : YuvImage) (cx cy : ℕ) : Option (ℤ × ℤ) :=
  let down := img.bitDepth - 8
  if img.chroma = .mono then some (128, 128)
  else
    match img.uv with
    | .planar u v => do
      let uv ← readSample u cx cy down
      let vv ← readSample v cx cy down
      pure (uv, vv)
    | .interleaved p => do
      let uv ← readSample p (cx * 2) cy down
      let vv ← readSample p (cx * 2 + 1) cy down
      pure (uv, vv)
    | .none => some (128, 128)

def readPixel (img : YuvImage) (c : Coefs) (row x : ℕ) : Option (List UInt8) := do
  let yv ← readSample img.y x row (img.bitDepth - 8)
  let (uv, vv) ← readChroma img (x / 2 ^ img.chroma.shift.1) (row / 2 ^ img.chroma.shift.2)
  pure (c.px yv uv vv)

def convertRow (img : YuvImage) (c : Coefs) (row : ℕ) : Option (List UInt8) :=
  match img.bitDepth, img.chroma, img.uv with
  | 8, .sub420, .planar u v => fastRow img u v c row
  | _, _, _ => ((List.range img.width).mapM (readPixel img c row)).map List.flatten

/-- The whole rows of a band, written over; `chunks_exact_mut` leaves the rest. -/
def convertBand (img : YuvImage) (c : Coefs) (firstRow : ℕ) (band : List UInt8) :
    Option (List UInt8) := do
  let rows := band.length / (img.width * 4)
  let converted ← (List.range rows).mapM fun i => convertRow img c (firstRow + i)
  pure (converted.flatten ++ band.drop (rows * (img.width * 4)))

/-- `chunks_mut`: pieces of `n` bytes, the last one shorter. -/
def chunks (n : ℕ) (out : List UInt8) : List (List UInt8) :=
  (List.range ((out.length + n - 1) / n)).map fun i => (out.drop (i * n)).take n

/-- The frame size at which conversion goes multithreaded. -/
def parallelFromPixels : ℕ := 1000000

/-- No more threads than this. -/
def maxThreads : ℕ := 4

/-- `parallelism` is what the platform answers, if it does. -/
def threadCount (parallelism : Option ℕ) (img : YuvImage) : ℕ :=
  if parallelFromPixels ≤ img.width * img.height then
    (parallelism.map fun n => min n maxThreads).getD 1
  else 1

/-- `to_bgra` with its threads; `some none` means invalid plane sizes. -/
def toBgraOn (threads : ℕ) (img : YuvImage) : Option (Option CpuFrame) :=
  if img.width = 0 ∨ img.height = 0 ∨ img.bitDepth < 8 ∨ 16 < img.bitDepth then some none
  else if planesOk img then
    let c := Coefs.new img.matrix img.fullRange
    let out := List.replicate (img.width * img.height * 4) 0
    let converted :=
      if threads ≤ 1 then convertBand img c 0 out
      else
        let rowsPer := (img.height + threads - 1) / threads
        ((chunks (rowsPer * img.width * 4) out).zipIdx.mapM fun (band, i) =>
          convertBand img c (i * rowsPer) band).map List.flatten
    converted.map fun out => some (.fromBgra img.width img.height out)
  else some none

def toBgraWith (parallelism : Option ℕ) (img : YuvImage) : Option (Option CpuFrame) :=
  toBgraOn (threadCount parallelism img) img

end NoshareCover.Yuv
