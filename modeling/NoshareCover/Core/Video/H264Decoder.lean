import NoshareCover.Core.Video.H264
import NoshareCover.Core.Video.Nvdec

/-!
# H.264 on CPU

The decoder hands its packets to openh264, which outputs pictures in display order; pts travels with
the picture.
-/

namespace NoshareCover.H264

/-- What a call leaves in `SBufferInfo` and behind the pointers of `dst`. -/
structure Output where
  /-- 1 when a picture is ready -/
  bufferStatus : ℤ
  outTimestamp : ℕ
  width : ℤ
  height : ℤ
  stride : ℤ × ℤ
  y : Option (List UInt8)
  u : Option (List UInt8)
  v : Option (List UInt8)
  deriving DecidableEq, Repr

/-- The library, by what it answers. -/
class Openh264 (ℓ : Type*) where
  decodeFrameNoDelay : ℓ → List UInt8 → ℕ → BitVec 32 × Output × ℓ
  flushFrame : ℓ → Output × ℓ
  numOfFramesRemaining : ℓ → Option ℤ

structure H264Decoder (ℓ : Type*) where
  dec : ℓ
  /-- Packets in a row that openh264 refused without producing a picture. -/
  refused : ℕ
  lastState : BitVec 32

/-- After this many refused packets in a row, report the stream as undecodable instead of silently
showing nothing. -/
def maxRefused : ℕ := 90

def dsNoParamSets : BitVec 32 := 0x10

def dsBitstreamError : BitVec 32 := 0x04

/-- `convert`: openh264 outputs only 8-bit 4:2:0 and doesn't expose the VUI matrix. -/
def convert (o : Output) : Option DecodedFrame :=
  match o.y, o.u, o.v with
  | some y, some u, some v =>
    if o.bufferStatus ≠ 1 ∨ o.width ≤ 0 ∨ o.height ≤ 0 ∨ o.stride.1 < 0 ∨ o.stride.2 < 0 then none
    else
      let (w, h) := (o.width.toNat, o.height.toNat)
      let (ys, cs) := (o.stride.1.toNat, o.stride.2.toNat)
      let (cw, ch) := ((w + 1) / 2, (h + 1) / 2)
      let plane (p : List UInt8) (stride width rows : ℕ) : Yuv.Plane :=
        { data := p.take (stride * (rows - 1) + width), stride }
      let yuv : Yuv.YuvImage :=
        { width := w
          height := h
          bitDepth := 8
          chroma := .sub420
          matrix := .guess h
          fullRange := false
          y := plane y ys w h
          uv := .planar (plane u cs cw ch) (plane v cs cw ch) }
      (Yuv.toBgra yuv).map fun cpu => { pts := o.outTimestamp * 1000, data := .cpu cpu }
  | _, _, _ => none

def refusalText (state : BitVec 32) : String :=
  let why :=
    if state &&& dsNoParamSets ≠ 0 then
      "it rejected the SPS/PPS (unsupported profile, e.g. High 10 / 4:2:2)"
    else if state &&& dsBitstreamError ≠ 0 then "bitstream error"
    else "no pictures"
  "openh264 can't decode this video: " ++ why ++ ", state 0x"
    ++ String.ofList (Nat.toDigits 16 state.toNat) ++ "; try backend = \"gpu\""

namespace H264Decoder

variable {ℓ : Type*}

/-- `H264Decoder::new`, once openh264 is loaded and set up. -/
def new (dec : ℓ) : H264Decoder ℓ := { dec, refused := 0, lastState := 0 }

variable [Openh264 ℓ]

def remaining (me : H264Decoder ℓ) : ℕ :=
  match Openh264.numOfFramesRemaining me.dec with
  | some n => n.toNat
  | none => 0

/-- Only keyframes carry SPS. -/
def patched (packet : Packet) : List UInt8 :=
  if packet.keyframe then (clampSpsLevel packet.data).getD packet.data else packet.data

/-- The return code is only looked at when there is no picture. -/
def decode (me : H264Decoder ℓ) (packet : Packet) :
    PipeResult (List DecodedFrame) × H264Decoder ℓ :=
  let data := patched packet
  if 2 ^ 31 ≤ data.length then (.ok [], me)
  else
    let (state, out, dec) :=
      Openh264.decodeFrameNoDelay me.dec data (min (packet.pts / 1000) (2 ^ 64 - 1))
    let frames := (convert out).toList
    if frames.isEmpty ∧ state ≠ 0 then
      let refused := me.refused + 1
      if maxRefused ≤ refused then
        (.error (refusalText state), { dec, lastState := state, refused })
      else (.ok frames, { dec, lastState := state, refused })
    else (.ok frames, { dec, lastState := state, refused := 0 })

def flushFrames : ℕ → ℓ → List DecodedFrame × ℓ
  | 0, dec => ([], dec)
  | n + 1, dec =>
    let (out, dec) := Openh264.flushFrame dec
    let (frames, dec) := flushFrames n dec
    ((convert out).toList ++ frames, dec)

def flush (me : H264Decoder ℓ) : PipeResult (List DecodedFrame) × H264Decoder ℓ :=
  let (frames, dec) := flushFrames me.remaining me.dec
  (.ok frames, { me with dec })

/-- The tail of the previous pass is simply dropped. -/
instance : Decoder (H264Decoder ℓ) where
  name _ := "openh264 (CPU)"
  decode := decode
  flush := flush
  reset me := me.flush.2

end H264Decoder

end NoshareCover.H264
