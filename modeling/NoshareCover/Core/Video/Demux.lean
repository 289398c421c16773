import Mathlib.Algebra.Order.Floor.Semiring
import Mathlib.Data.Rat.Floor
import NoshareCover.Core.Video.Bitstream
import NoshareCover.Core.Video.Pipeline

/-!
# The Matroska demuxer

Packets come out in the form decoders expect: H.264/HEVC as Annex-B with the parameter sets before
keyframes, AV1/VP8/VP9 as stored in the container.  The library that reads the blocks of a file is a
type class.
-/

namespace NoshareCover

open Bitstream

/-- How to turn a container sample into a decoder packet. -/
inductive Framing where
  /-- AVCC/HVCC → Annex-B. -/
  | nal (cfg : NalConfig)
  /-- As is (AV1, VP8, VP9). -/
  | raw

namespace Framing

def forCodec (codec : Codec) (config : Option (List UInt8)) : PipeResult Framing :=
  match codec with
  | .h264 =>
    match config.bind parseAvcc with
    | some cfg => .ok (.nal cfg)
    | none => .error "H.264 avcC missing or broken"
  | .hevc =>
    match config.bind parseHvcc with
    | some cfg => .ok (.nal cfg)
    | none => .error "HEVC hvcC missing or broken"
  | _ => .ok .raw

def packet (f : Framing) (data : List UInt8) (pts : ℕ) (keyframe : Bool) : Option Packet :=
  match f with
  | .nal cfg => (toAnnexb data cfg keyframe).map fun data => { pts, keyframe, data }
  | .raw => some { pts, keyframe, data }

end Framing

/-! ### The library -/

/-- A block of a file, in a SimpleBlock or in a BlockGroup. -/
structure Block where
  simple : Bool
  keyframe : Bool
  track : ℕ
  timestamp : ℕ
  invisible : Bool
  data : List UInt8

/-- A frame as the library returns it. -/
structure MkvFrame where
  track : ℕ
  timestamp : ℕ
  /-- Only known for SimpleBlock. -/
  isKeyframe : Option Bool
  isInvisible : Bool
  data : List UInt8

def Block.frame (b : Block) : MkvFrame :=
  { track := b.track, timestamp := b.timestamp,
    isKeyframe := if b.simple then some b.keyframe else none,
    isInvisible := b.invisible, data := b.data }

structure TrackEntry where
  number : ℕ
  isVideo : Bool
  codecId : String
  codecPrivate : Option (List UInt8)
  /-- Width and height in pixels. -/
  video : Option (ℕ × ℕ)

/-- An open Matroska file.  `ahead` is what the next calls of `next_frame` read, one block or error
each, up to the end of the file; `start` is what they read from the start of the file on. -/
class MatroskaFile (μ : Type) where
  tracks : μ → List TrackEntry
  /-- Nanoseconds per Matroska time unit. -/
  timestampScale : μ → ℕ
  duration : μ → Option ℚ
  /-- `none` means end of file. -/
  nextFrame : μ → PipeResult (Option MkvFrame) × μ
  seek : μ → ℕ → PipeResult Unit × μ
  start : μ → List (PipeResult Block)
  ahead : μ → List (PipeResult Block)
  nextFrame_of_nil : ∀ m, ahead m = [] → (nextFrame m).1 = .ok none ∧ ahead (nextFrame m).2 = []
  nextFrame_of_cons : ∀ m block blocks, ahead m = block :: blocks →
    (nextFrame m).1 = block.map (some ∘ Block.frame) ∧ ahead (nextFrame m).2 = blocks
  start_nextFrame : ∀ m, start (nextFrame m).2 = start m
  start_seek : ∀ m timestamp, start (seek m timestamp).2 = start m
  ahead_seek : ∀ m, (seek m 0).1 = .ok () → ahead (seek m 0).2 = start m

/-! ### The demuxer -/

def codecFromMkv (id : String) : Codec :=
  if id = "V_AV1" then .av1
  else if id = "V_MPEG4/ISO/AVC" then .h264
  else if id = "V_MPEGH/ISO/HEVC" then .hevc
  else if id = "V_VP8" then .vp8
  else if id = "V_VP9" then .vp9
  else .other id

structure MkvDemux (μ : Type) where
  mkv : μ
  track : ℕ
  /-- Nanoseconds per Matroska time unit. -/
  scaleNs : ℕ
  info : VideoInfo
  framing : Framing

namespace MkvDemux

variable {μ : Type} [MatroskaFile μ]

/-- `file` comes from the file system, and then from the library. -/
def «open» (file : PipeResult (PipeResult μ)) : PipeResult (MkvDemux μ) :=
  match file with
  | .error e => .error e
  | .ok (.error e) => .error ("MKV: " ++ e)
  | .ok (.ok mkv) =>
    match (MatroskaFile.tracks mkv).find? TrackEntry.isVideo with
    | none => .error "no video track in MKV"
    | some entry =>
      let codec := codecFromMkv entry.codecId
      match Framing.forCodec codec entry.codecPrivate with
      | .error e => .error e
      | .ok framing =>
        let size := (entry.video.map fun v => (v.1 % 2 ^ 32, v.2 % 2 ^ 32)).getD (0, 0)
        let scaleNs := MatroskaFile.timestampScale mkv
        let duration := ((MatroskaFile.duration mkv).filter fun d => 0 < d).map
          fun d : ℚ => ⌊d * scaleNs + 1 / 2⌋₊
        .ok { mkv, framing, scaleNs, track := entry.number,
              info := { width := size.1, height := size.2, duration, codec } }

/-- The packet of a frame, unless it is skipped: one of another track, or invisible, or broken. -/
def accept (d : MkvDemux μ) (f : MkvFrame) : Option Packet :=
  if f.track ≠ d.track ∨ f.isInvisible = true then none
  else
    let pts := min (f.timestamp * d.scaleNs) (2 ^ 64 - 1)
    -- is_keyframe is only known for SimpleBlock
    let key := f.isKeyframe.getD false
    d.framing.packet f.data pts key

theorem ahead_nextFrame_lt {m : μ} {f : MkvFrame} (h : (MatroskaFile.nextFrame m).1 = .ok (some f)) :
    (MatroskaFile.ahead (MatroskaFile.nextFrame m).2).length < (MatroskaFile.ahead m).length := by
  cases hahead : MatroskaFile.ahead m with
  | nil =>
    rw [(MatroskaFile.nextFrame_of_nil m hahead).1] at h
    cases h
  | cons block blocks =>
    rw [(MatroskaFile.nextFrame_of_cons m block blocks hahead).2]
    exact Nat.lt_succ_self _

def nextPacket (d : MkvDemux μ) : PipeResult (Option Packet) × MkvDemux μ :=
  let next := { d with mkv := (MatroskaFile.nextFrame d.mkv).2 }
  match _h : (MatroskaFile.nextFrame d.mkv).1 with
  | .error e => (.error ("MKV: " ++ e), next)
  | .ok none => (.ok none, next)
  | .ok (some f) =>
    match d.accept f with
    | some p => (.ok (some p), next)
    | none => nextPacket next
termination_by (MatroskaFile.ahead d.mkv).length
decreasing_by exact ahead_nextFrame_lt _h

def rewind (d : MkvDemux μ) : PipeResult Unit × MkvDemux μ :=
  ((MatroskaFile.seek d.mkv 0).1.mapError ("MKV seek: " ++ ·),
    { d with mkv := (MatroskaFile.seek d.mkv 0).2 })

/-- Reading on only moves the cursor in the file. -/
theorem nextPacket_keeps (d : MkvDemux μ) : d.nextPacket.2.info = d.info
    ∧ d.nextPacket.2.framing = d.framing ∧ d.nextPacket.2.track = d.track
    ∧ d.nextPacket.2.scaleNs = d.scaleNs
    ∧ MatroskaFile.start d.nextPacket.2.mkv = MatroskaFile.start d.mkv := by
  fun_induction nextPacket d with
  | case1 d next e h => exact ⟨rfl, rfl, rfl, rfl, MatroskaFile.start_nextFrame d.mkv⟩
  | case2 d next h => exact ⟨rfl, rfl, rfl, rfl, MatroskaFile.start_nextFrame d.mkv⟩
  | case3 d next f h p hp => exact ⟨rfl, rfl, rfl, rfl, MatroskaFile.start_nextFrame d.mkv⟩
  | case4 d next f h hp ih =>
    obtain ⟨hinfo, hframing, htrack, hscale, hstart⟩ := ih
    exact ⟨hinfo, hframing, htrack, hscale, hstart.trans (MatroskaFile.start_nextFrame d.mkv)⟩

instance : Demuxer (MkvDemux μ) where
  info := MkvDemux.info
  nextPacket := nextPacket
  rewind := rewind
  info_nextPacket d := (nextPacket_keeps d).1
  info_rewind _ := rfl

end MkvDemux

end NoshareCover
