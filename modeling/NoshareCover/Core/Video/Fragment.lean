import NoshareCover.Core.Video.SampleTable

/-!
# Fragmented MP4 files

In a fragmented file the samples of the tracks come in `moof` boxes, in any order of the tracks.
They go behind the samples that the tables of the tracks have.
-/

namespace NoshareCover

namespace ReMp4

/-- What of the errors of the library can come up behind the parsing of the boxes. -/
inductive ReadError where
  | trakNotFound (trackId : ℕ)
  /-- The `trex` box of a track. -/
  | boxInTrafNotFound (trackId : ℕ)
  /-- An index out of range. -/
  | panic
  deriving DecidableEq, Repr

/-- The text of an error; a panic unwinds the thread. -/
def ReadError.text : ReadError → Option String
  | trakNotFound trackId => some ("trak[" ++ toString trackId ++ "] not found")
  | boxInTrafNotFound trackId => some ("traf[" ++ toString trackId ++ "].trex not found")
  | panic => none

structure TrexBox where
  trackId : ℕ
  defaultSampleDuration : ℕ
  defaultSampleSize : ℕ
  defaultSampleFlags : ℕ
  deriving DecidableEq, Repr

/-- `Default::default()`. -/
def TrexBox.default : TrexBox :=
  { trackId := 0, defaultSampleDuration := 0, defaultSampleSize := 0, defaultSampleFlags := 0 }

structure TfhdBox where
  flags : ℕ
  trackId : ℕ
  baseDataOffset : Option ℕ
  defaultSampleDuration : Option ℕ
  defaultSampleSize : Option ℕ
  defaultSampleFlags : Option ℕ
  deriving DecidableEq, Repr

structure TrunBox where
  flags : ℕ
  sampleCount : ℕ
  dataOffset : Option ℤ
  firstSampleFlags : Option ℕ
  sampleDurations : List ℕ
  sampleSizes : List ℕ
  sampleFlags : List ℕ
  sampleCts : List ℕ
  deriving DecidableEq, Repr

structure TrafBox where
  tfhd : TfhdBox
  /-- `base_media_decode_time` of `tfdt`. -/
  tfdt : Option ℕ
  truns : List TrunBox
  deriving DecidableEq, Repr

structure MoofBox where
  /-- The position of its first byte. -/
  start : ℕ
  trafs : List TrafBox
  deriving DecidableEq, Repr

structure MoovBox where
  traks : List TrakBox
  /-- The `trex` boxes of `mvex`. -/
  mvex : Option (List TrexBox)
  deriving DecidableEq, Repr

structure Track where
  firstTrafMerged : Bool
  trackId : ℕ
  width : ℕ
  height : ℕ
  timescale : ℕ
  duration : ℕ
  contents : StsdBoxContent
  samples : List Sample
  deriving DecidableEq, Repr

namespace TfhdBox

def flagBaseDataOffset : ℕ := 0x01
def flagDefaultBaseIsMoof : ℕ := 0x20000

end TfhdBox

namespace TrunBox

def flagDataOffset : ℕ := 0x01
def flagFirstSampleFlags : ℕ := 0x04
def flagSampleFlags : ℕ := 0x400
def flagSampleCts : ℕ := 0x800

end TrunBox

/-- `flags & flag != 0`. -/
def hasFlag (flags flag : ℕ) : Bool := flags &&& flag != 0

/-- A sum of `i64`, which wraps around. -/
def wrapI64 (n : ℤ) : ℤ := n.bmod (u64Max + 1)

/-- `as i64` of an `u64`. -/
def asI64 (n : ℕ) : ℤ := wrapI64 n

def saturatingAddSigned (n : ℕ) (k : ℤ) : ℕ := (max 0 (min (u64Max : ℤ) (n + k))).toNat

/-! ### The tracks of `moov` -/

/-- In the order of their ids; a track with the id of another replaces it. -/
def insertTrack (t : Track) : List Track → List Track
  | [] => [t]
  | u :: tracks =>
    if t.trackId < u.trackId then t :: u :: tracks
    else if t.trackId = u.trackId then t :: tracks
    else u :: insertTrack t tracks

def TrakBox.track (trak : TrakBox) (samples : List Sample) : Track :=
  { trackId := trak.trackId, width := trak.width, height := trak.height, firstTrafMerged := false,
    timescale := trak.timescale, duration := trak.duration, contents := trak.stbl.contents, samples }

/-- The list of samples is incomplete if the file is fragmented. -/
def buildTracks (moov : MoovBox) : Except ReadError (List Track) :=
  moov.traks.foldlM (fun tracks trak =>
    match buildSamples trak with
    | some samples => .ok (insertTrack (trak.track samples) tracks)
    | none => .error .panic) []

/-! ### The samples of `moof` boxes -/

/-- What the samples of a track fragment have where their run says nothing. -/
structure Defaults where
  sampleDuration : ℕ
  sampleSize : ℕ
  sampleFlags : ℕ
  deriving DecidableEq, Repr

def TfhdBox.defaults (tfhd : TfhdBox) (trex : TrexBox) : Defaults :=
  { sampleDuration := tfhd.defaultSampleDuration.getD trex.defaultSampleDuration,
    sampleSize := tfhd.defaultSampleSize.getD trex.defaultSampleSize,
    sampleFlags := tfhd.defaultSampleFlags.getD trex.defaultSampleFlags }

def TrunBox.flagsOf (trun : TrunBox) (defaults : Defaults) (sampleN : ℕ) : ℕ :=
  if hasFlag trun.flags flagSampleFlags then trun.sampleFlags[sampleN]?.getD defaults.sampleFlags
  else if sampleN = 0 ∧ hasFlag trun.flags flagFirstSampleFlags = true then
    trun.firstSampleFlags.getD defaults.sampleFlags
  else defaults.sampleFlags

def TrunBox.ctsOf (trun : TrunBox) (sampleN : ℕ) : ℤ :=
  if hasFlag trun.flags flagSampleCts then (trun.sampleCts[sampleN]?.getD 0 : ℕ) else 0

def TrunBox.durationOf (trun : TrunBox) (defaults : Defaults) (sampleN : ℕ) : ℕ :=
  trun.sampleDurations[sampleN]?.getD defaults.sampleDuration

def TrunBox.sizeOf (trun : TrunBox) (defaults : Defaults) (sampleN : ℕ) : ℕ :=
  trun.sampleSizes[sampleN]?.getD defaults.sampleSize

/-- Where the data of a run starts, if the run does not go on behind the one before. -/
def TrafBox.baseDataOffset (traf : TrafBox) (moofStart lastRunPosition sampleN : ℕ) : ℕ :=
  if hasFlag traf.tfhd.flags TfhdBox.flagBaseDataOffset = false then
    if hasFlag traf.tfhd.flags TfhdBox.flagDefaultBaseIsMoof = false then
      if sampleN = 0 then moofStart else lastRunPosition
    else moofStart
  else traf.tfhd.baseDataOffset.getD moofStart

/-- One sample of a run.  Kept are the track and where the sample ends. -/
def addSample (timescale moofStart : ℕ) (traf : TrafBox) (defaults : Defaults) (trafIdx : ℕ)
    (trun : TrunBox) (st : Track × ℕ) (sampleN : ℕ) : Except ReadError (Track × ℕ) := do
  let (track, lastRunPosition) := st
  let sampleFlags := trun.flagsOf defaults sampleN
  let (decodeTimestamp, firstTrafMerged) ←
    if track.firstTrafMerged = true ∨ 0 < sampleN then
      match track.samples.getLast? with
      | some prev =>
        .ok (wrapI64 (prev.decodeTimestamp + prev.duration), track.firstTrafMerged)
      | none => .error .panic
    else .ok ((traf.tfdt.map asI64).getD 0, true)
  let baseDataOffset := traf.baseDataOffset moofStart lastRunPosition sampleN
  let sampleSize := trun.sizeOf defaults sampleN
  let sampleOffset :=
    if trafIdx = 0 ∧ sampleN = 0 then
      if hasFlag trun.flags TrunBox.flagDataOffset then
        saturatingAddSigned baseDataOffset (trun.dataOffset.getD 0)
      else baseDataOffset
    else lastRunPosition
  let sample : Sample :=
    { id := track.samples.length, isSync := hasFlag (sampleFlags >>> 16) 1, size := sampleSize,
      offset := sampleOffset, timescale, decodeTimestamp,
      compositionTimestamp := wrapI64 (decodeTimestamp + trun.ctsOf sampleN),
      duration := trun.durationOf defaults sampleN }
  return ({ track with firstTrafMerged, samples := track.samples ++ [sample] },
    wrapU64 (sampleOffset + sampleSize))

def addRun (timescale moofStart : ℕ) (traf : TrafBox) (defaults : Defaults) (st : Track × ℕ)
    (run : TrunBox × ℕ) : Except ReadError (Track × ℕ) :=
  (List.range run.1.sampleCount).foldlM
    (addSample timescale moofStart traf defaults run.2 run.1) st

/-- The runs of a track fragment. -/
def addRuns (timescale moofStart : ℕ) (traf : TrafBox) (defaults : Defaults) (track : Track)
    (lastRunPosition : ℕ) : Except ReadError (Track × ℕ) :=
  traf.truns.zipIdx.foldlM (addRun timescale moofStart traf defaults) (track, lastRunPosition)

def MoovBox.trexOf (moov : MoovBox) (trackId : ℕ) : Except ReadError TrexBox :=
  match moov.mvex with
  | none => .ok TrexBox.default
  | some trexs =>
    match trexs.find? fun trex => trex.trackId == trackId with
    | some trex => .ok trex
    | none => .error (.boxInTrafNotFound trackId)

/-- The track that is found by its id is changed in place. -/
def replaceTrack (t : Track) (tracks : List Track) : List Track :=
  tracks.map fun u => if u.trackId = t.trackId then t else u

/-- A track fragment, of the `moof` box at `moofStart`. -/
def addTraf (moov : MoovBox) (st : List Track × ℕ) (fragment : ℕ × TrafBox) :
    Except ReadError (List Track × ℕ) := do
  let (tracks, lastRunPosition) := st
  let (moofStart, traf) := fragment
  let trackId := traf.tfhd.trackId
  match tracks.find? fun t => t.trackId == trackId with
  | none => throw (.trakNotFound trackId)
  | some track =>
    match moov.traks.find? fun trak => trak.trackId == trackId with
    | none => throw (.trakNotFound trackId)
    | some trak => do
      let trex ← moov.trexOf trackId
      let (track, lastRunPosition) ←
        addRuns trak.timescale moofStart traf (traf.tfhd.defaults trex) track lastRunPosition
      return (replaceTrack track tracks, lastRunPosition)

/-- The track fragments of a file, each with the start of its `moof` box. -/
def fragments (moofs : List MoofBox) : List (ℕ × TrafBox) :=
  moofs.flatMap fun moof => moof.trafs.map fun traf => (moof.start, traf)

def updateSampleList (moov : MoovBox) (moofs : List MoofBox) (tracks : List Track) :
    Except ReadError (List Track) :=
  Prod.fst <$> (fragments moofs).foldlM (addTraf moov) (tracks, 0)

/-- A track without a duration lasts until its last sample ends. -/
def Track.updated (track : Track) : Track :=
  if track.duration = 0 then
    { track with duration := match track.samples.getLast? with
        | some last => saturatingAddSigned last.duration last.compositionTimestamp
        | none => 0 }
  else track

/-- The tracks of a file whose boxes are parsed. -/
def readTracks (moov : MoovBox) (moofs : List MoofBox) : Except ReadError (List Track) := do
  let tracks ← buildTracks moov
  let tracks ← updateSampleList moov moofs tracks
  return tracks.map Track.updated

/-! ### What the demuxer uses -/

/-- `kind == Some(TrackKind::Video)`. -/
def Track.isVideo (track : Track) : Bool :=
  match track.contents with
  | .other _ => false
  | _ => true

def Sample.toMp4 (s : Sample) : Mp4Sample :=
  { id := s.id, offset := s.offset, size := s.size, compositionTimestamp := s.compositionTimestamp,
    timescale := s.timescale, isSync := s.isSync }

/-- A track with the codec of the first `trak` box that has its id. -/
def Track.toMp4 (moov : MoovBox) (track : Track) : Mp4Track :=
  let stbl := (moov.traks.find? fun trak => trak.trackId == track.trackId).map TrakBox.stbl
  { isVideo := track.isVideo, width := track.width, height := track.height,
    contents := (stbl.map StblBox.contents).getD track.contents,
    rawCodecConfig := stbl.bind StblBox.rawCodecConfig,
    timescale := track.timescale, duration := track.duration,
    samples := track.samples.map Sample.toMp4 }

end ReMp4

end NoshareCover
