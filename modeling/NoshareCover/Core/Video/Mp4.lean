import NoshareCover.Core.Video.Demux

/-!
# The MP4 demuxer

From MP4 only the index is taken; samples are read from disk by offset.  The library that parses the
index gives the tracks.
-/

namespace NoshareCover

/-- A sample in the index. -/
structure Mp4Sample where
  id : ℕ
  offset : ℕ
  size : ℕ
  compositionTimestamp : ℤ
  timescale : ℕ
  isSync : Bool
  deriving DecidableEq, Repr

inductive StsdBoxContent where
  | av01
  | avc1
  | hev1
  | hvc1
  | vp08
  | vp09
  /-- Anything else, by its debug text. -/
  | other (name : String)
  deriving DecidableEq, Repr

structure Mp4Track where
  isVideo : Bool
  contents : StsdBoxContent
  rawCodecConfig : Option (List UInt8)
  width : ℕ
  height : ℕ
  timescale : ℕ
  duration : ℕ
  samples : List Mp4Sample

/-- A file that is open for reading: a seek, and `read_exact` of so many bytes from there. -/
structure Mp4File where
  seek : ℕ → PipeResult Unit
  readExact : ℕ → ℕ → PipeResult (List UInt8)
  length_readExact : ∀ offset size data, readExact offset size = .ok data → data.length = size

structure Mp4Demux where
  file : Mp4File
  info : VideoInfo
  framing : Framing
  samples : List Mp4Sample
  next : ℕ

def codecFromMp4 : StsdBoxContent → Codec
  | .av01 => .av1
  | .avc1 => .h264
  | .hev1 | .hvc1 => .hevc
  | .vp08 => .vp8
  | .vp09 => .vp9
  | .other name => .other (String.ofList (name.toList.take 16))

/-- The largest sample that is read. -/
def mp4MaxSample : ℕ := 256 * 1024 * 1024

/-- The presentation time, to the nearest nanosecond. -/
def Mp4Sample.pts (s : Mp4Sample) : ℕ :=
  if 0 < s.timescale then
    ⌊((max s.compositionTimestamp 0 : ℤ) : ℚ) * 10 ^ 9 / s.timescale + 1 / 2⌋₊
  else 0

namespace Mp4Demux

/-- `file` comes from the file system; `tracks` from the library. -/
def «open» (file : PipeResult (Mp4File × PipeResult (List Mp4Track))) : PipeResult Mp4Demux :=
  match file with
  | .error e => .error e
  | .ok (_, .error e) => .error ("MP4: " ++ e)
  | .ok (file, .ok tracks) =>
    match tracks.find? Mp4Track.isVideo with
    | none => .error "no video track in MP4"
    | some track =>
      let codec := codecFromMp4 track.contents
      match Framing.forCodec codec track.rawCodecConfig with
      | .error e => .error e
      | .ok framing =>
        let duration :=
          if 0 < track.timescale ∧ 0 < track.duration then
            some ⌊(track.duration : ℚ) * 10 ^ 9 / track.timescale + 1 / 2⌋₊
          else none
        .ok { file, framing, samples := track.samples, next := 0,
              info := { width := track.width, height := track.height, duration, codec } }

/-- What becomes of a sample: it is skipped, or it gives an error or a packet. -/
def sample (d : Mp4Demux) (s : Mp4Sample) : Option (PipeResult Packet) :=
  if s.size = 0 ∨ mp4MaxSample < s.size then none
  else
    match d.file.seek s.offset with
    | .error e => some (.error e)
    | .ok () =>
      match d.file.readExact s.offset s.size with
      | .error e => some (.error ("MP4 sample " ++ toString s.id ++ ": " ++ e))
      | .ok data => (d.framing.packet data s.pts s.isSync).map .ok

/-- Broken samples are skipped. -/
def nextPacket (d : Mp4Demux) : PipeResult (Option Packet) × Mp4Demux :=
  match _h : d.samples[d.next]? with
  | none => (.ok none, d)
  | some s =>
    let d' := { d with next := d.next + 1 }
    match d.sample s with
    | none => nextPacket d'
    | some r => (r.map some, d')
termination_by d.samples.length - d.next
decreasing_by
  have hlt := (List.getElem?_eq_some_iff.1 _h).1
  show d.samples.length - (d.next + 1) < d.samples.length - d.next
  omega

def rewind (d : Mp4Demux) : PipeResult Unit × Mp4Demux := (.ok (), { d with next := 0 })

theorem nextPacket_keeps (d : Mp4Demux) : d.nextPacket.2.info = d.info
    ∧ d.nextPacket.2.file = d.file ∧ d.nextPacket.2.framing = d.framing
    ∧ d.nextPacket.2.samples = d.samples := by
  fun_induction nextPacket d with
  | case1 d h => exact ⟨rfl, rfl, rfl, rfl⟩
  | case2 d s h d' hskip ih => exact ih
  | case3 d s h d' r hr => exact ⟨rfl, rfl, rfl, rfl⟩

instance : Demuxer Mp4Demux where
  info := Mp4Demux.info
  nextPacket := nextPacket
  rewind := rewind
  info_nextPacket d := (nextPacket_keeps d).1
  info_rewind _ := rfl

end Mp4Demux

end NoshareCover
