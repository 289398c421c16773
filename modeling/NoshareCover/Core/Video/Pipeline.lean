import NoshareCover.Core.Frame
import Mathlib.Data.List.Basic

/-!
# Container → packets → decoder → frames

Concrete demuxers and decoders plug in as type classes; looping lives here, once.  A call on a
demuxer or a decoder returns its result together with the object after the call, also when the
result is an error.  Times are `Duration`s in nanoseconds.
-/

namespace NoshareCover

inductive Codec where
  | h264
  | hevc
  | vp8
  | vp9
  | av1
  | other (name : String)
  deriving DecidableEq, Repr

structure VideoInfo where
  width : ℕ
  height : ℕ
  duration : Option ℕ
  codec : Codec
  deriving DecidableEq, Repr

structure Packet where
  pts : ℕ
  keyframe : Bool
  data : List UInt8
  deriving DecidableEq, Repr

structure DecodedFrame where
  pts : ℕ
  data : FrameData
  deriving DecidableEq, Repr

abbrev PipeResult (α : Type) := Except String α

/-- `info` only lends what the demuxer stored when it opened the file, so no call changes it. -/
class Demuxer (δ : Type*) where
  info : δ → VideoInfo
  /-- `none` means end of file. -/
  nextPacket : δ → PipeResult (Option Packet) × δ
  /-- Rewind to the start (for looping). -/
  rewind : δ → PipeResult Unit × δ
  info_nextPacket : ∀ d, info (nextPacket d).2 = info d
  info_rewind : ∀ d, info (rewind d).2 = info d

class Decoder (κ : Type*) where
  name : κ → String
  /-- Feed a packet and collect ready frames (zero or more). -/
  decode : κ → Packet → PipeResult (List DecodedFrame) × κ
  /-- End of stream: everything still buffered. -/
  flush : κ → PipeResult (List DecodedFrame) × κ
  /-- Reset state after a seek. -/
  reset : κ → κ

/-- Demuxer, decoder and the queue of ready frames. -/
structure Pipeline (δ κ : Type*) where
  demux : δ
  decoder : κ
  ready : List DecodedFrame
  flushed : Bool
  looped : Bool
  /-- Added to the pts of every frame after a loop pass. -/
  loopOffset : ℕ

inductive Next where
  | frame (f : DecodedFrame)
  /-- The video ended and looping is off. -/
  | ended
  deriving DecidableEq, Repr

namespace Pipeline

variable {δ κ : Type*}

def new (demux : δ) (decoder : κ) (looped : Bool) : Pipeline δ κ :=
  { demux, decoder, ready := [], flushed := false, looped, loopOffset := 0 }

variable [Demuxer δ] [Decoder κ]

def info (p : Pipeline δ κ) : VideoInfo := Demuxer.info p.demux

def decoderName (p : Pipeline δ κ) : String := Decoder.name p.decoder

/-- The start of the next pass: `next_frame` gets here when everything of a pass was returned. -/
def restart (p : Pipeline δ κ) : Option (PipeResult Next) × Pipeline δ κ :=
  let loopOffset := p.loopOffset + (Demuxer.info p.demux).duration.getD 0
  match Demuxer.rewind p.demux with
  | (.error e, d) => (some (.error e), { p with demux := d, loopOffset })
  | (.ok (), d) =>
    (none, { p with demux := d, decoder := Decoder.reset p.decoder, flushed := false, loopOffset })

/-- One packet, or the end of the file, through the decoder. -/
def feed (p : Pipeline δ κ) : Option (PipeResult Next) × Pipeline δ κ :=
  match Demuxer.nextPacket p.demux with
  | (.error e, d) => (some (.error e), { p with demux := d })
  | (.ok (some pkt), d) =>
    match Decoder.decode p.decoder pkt with
    | (.error e, c) => (some (.error e), { p with demux := d, decoder := c })
    | (.ok fs, c) => (none, { p with demux := d, decoder := c, ready := p.ready ++ fs })
  | (.ok none, d) =>
    match Decoder.flush p.decoder with
    | (.error e, c) => (some (.error e), { p with demux := d, decoder := c })
    | (.ok fs, c) =>
      (none, { p with demux := d, decoder := c, ready := p.ready ++ fs, flushed := true })

/-- One round of the loop in `next_frame`; `some` is what the function returns. -/
def round (p : Pipeline δ κ) : Option (PipeResult Next) × Pipeline δ κ :=
  match p.ready with
  | f :: rest =>
    (some (.ok (.frame { f with pts := f.pts + p.loopOffset })), { p with ready := rest })
  | [] =>
    if p.flushed then
      if !p.looped then (some (.ok .ended), p) else p.restart
    else p.feed

/-- At most `n` rounds of the loop. -/
def rounds : ℕ → Pipeline δ κ → PipeResult Next × Pipeline δ κ
  | 0, p => (.error (p.decoderName ++ " produces no frames"), p)
  | n + 1, p =>
    match p.round with
    | (some r, p) => (r, p)
    | (none, p) => rounds n p

/-- A broken file must not spin the thread forever: 4096 rounds at most. -/
def nextFrame (p : Pipeline δ κ) : PipeResult Next × Pipeline δ κ := rounds 4096 p

end Pipeline

end NoshareCover
