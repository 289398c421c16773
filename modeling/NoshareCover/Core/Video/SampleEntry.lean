import NoshareCover.Core.Video.Mp4Box

/-!
# The sample description

A `stsd` box has a sample entry for its codec.  The entries of VP8 and VP9 are the same; a box in them
is kept as it is, for the decoder.  Those of AVC and of MPEG-4 audio are searched for the one box that
counts.
-/

namespace NoshareCover

namespace ReMp4

/-- The contents, and the bytes that they were read from. -/
def readRaw {α : Type} (contents : BoxReader α) : BoxReader (α × List UInt8) := fun file => do
  let start ← get
  let a ← contents file
  let stop ← get
  if stop < start then throw .panicked
  else
    set start
    let raw ← readExact (stop - start) file
    return (a, raw)

structure VpccBox where
  profile : ℕ
  level : ℕ
  bitDepth : ℕ
  chromaSubsampling : ℕ
  videoFullRangeFlag : Bool
  transferCharacteristics : ℕ
  matrixCoefficients : ℕ
  codecInitializationDataSize : ℕ
  deriving DecidableEq, Repr

/-- A number of `n` bytes. -/
def readUInt (n : ℕ) : BoxReader ℕ := fun file => BigEndian.value <$> readExact n file

def VpccBox.readFields : BoxReader VpccBox := fun file => do
  let _ext ← readExact 4 file
  let profile ← readUInt 1 file
  let level ← readUInt 1 file
  let b ← readUInt 1 file
  let transferCharacteristics ← readUInt 1 file
  let matrixCoefficients ← readUInt 1 file
  let codecInitializationDataSize ← readUInt 2 file
  return { profile, level, bitDepth := b / 16, chromaSubsampling := b % 16 / 2,
           videoFullRangeFlag := b % 2 = 1, transferCharacteristics, matrixCoefficients,
           codecInitializationDataSize }

def VpccBox.read (size : ℕ) : BoxReader VpccBox := readBox size VpccBox.readFields

/-- The fields in front of the box in an entry of VP8 or VP9; they are not used. -/
def VpBox.readFields : BoxReader Unit := fun file => do
  let _ext ← readExact 4 file
  let _startCode ← readUInt 2 file
  let _dataReferenceIndex ← readUInt 2 file
  let _reserved0 ← readExact 16 file
  let _width ← readUInt 2 file
  let _height ← readUInt 2 file
  let _horizresolution ← readExact 4 file
  let _vertresolution ← readExact 4 file
  let _reserved1 ← readExact 4 file
  let _frameCount ← readUInt 2 file
  let _compressorname ← readExact 32 file
  let _depth ← readUInt 2 file
  let _endCode ← readUInt 2 file

structure VpBox where
  vpcc : VpccBox × List UInt8
  deriving DecidableEq, Repr

def VpBox.readContents (size : ℕ) : BoxReader VpBox := fun file => do
  let _fields ← VpBox.readFields file
  let header ← BoxHeader.read file
  if size < header.size then
    throw (.invalidData "vp09 box contains a box with a larger size than it")
  else
    let vpcc ← readRaw (VpccBox.read header.size) file
    return { vpcc }

def VpBox.read (size : ℕ) : BoxReader VpBox := readBox size (VpBox.readContents size)

/-! ### AVC -/

/-- `skip_bytes`, which can go past the end of the file. -/
def skipBytes (size : ℕ) : StateT ℕ (Except BoxError) Unit := modify (· + size)

/-- The bytes of a NAL unit, behind their number. -/
def NalUnit.read : BoxReader (List UInt8) := fun file => do
  let length ← readUInt 2 file
  readExact length file

/-- What is in `avcC`; the config is used as it is.  With less than nothing left for `ext` its buffer
is too large. -/
def AvcCBox.readFields (size : ℕ) : BoxReader Unit := fun file => do
  let contentStart ← get
  let _configurationVersion ← readUInt 1 file
  let _avcProfileIndication ← readUInt 1 file
  let _profileCompatibility ← readUInt 1 file
  let _avcLevelIndication ← readUInt 1 file
  let _lengthSizeMinusOne ← readUInt 1 file
  let numOfSpss ← readUInt 1 file
  let _sequenceParameterSets ← Reader.readMany (NalUnit.read file) (numOfSpss % 32)
  let numOfPpss ← readUInt 1 file
  let _pictureParameterSets ← Reader.readMany (NalUnit.read file) numOfPpss
  let contentEnd ← get
  if size < 8 + (contentEnd - contentStart) then throw .panicked
  else
    let _ext ← readExact (size - 8 - (contentEnd - contentStart)) file

def AvcCBox.read (size : ℕ) : BoxReader Unit := readBox size (AvcCBox.readFields size)

/-- The fields in front of the boxes in an entry of AVC; they are not used. -/
def Avc1Box.readFields : BoxReader Unit := fun file => do
  let _reserved0 ← readUInt 4 file
  let _reserved1 ← readUInt 2 file
  let _dataReferenceIndex ← readUInt 2 file
  let _reserved2 ← readUInt 4 file
  let _predefined0 ← readUInt 8 file
  let _predefined1 ← readUInt 4 file
  let _width ← readUInt 2 file
  let _height ← readUInt 2 file
  let _horizresolution ← readUInt 4 file
  let _vertresolution ← readUInt 4 file
  let _reserved3 ← readUInt 4 file
  let _frameCount ← readUInt 2 file
  let _compressorname ← skipBytes 32
  let _depth ← readUInt 2 file
  let _predefined2 ← readUInt 2 file

/-- The type of the box with the config. -/
def avcCBox : ℕ := 0x61766343

/-- One round of the loop, in an entry that ends at `stop`: the config, once its box is there. -/
def Avc1Box.round (size stop : ℕ) : BoxReader (Option (List UInt8)) := fun file => do
  let current ← get
  if stop ≤ current then throw (.invalidData "avcc not found")
  else
    let header ← BoxHeader.read file
    if size < header.size then
      throw (.invalidData "avc1 box contains a box with a larger size than it")
    else if header.name.toU32 = avcCBox then
      let avcc ← readRaw (AvcCBox.read header.size) file
      return some avcc.2
    else
      skipBytesTo (current + header.size)
      return none

/-! ### MPEG-4 audio -/

/-- The fields of an entry of MPEG-4 audio. -/
structure Mp4aFields where
  dataReferenceIndex : ℕ
  channelcount : ℕ
  samplesize : ℕ
  samplerate : ℕ
  deriving DecidableEq, Repr

/-- Version 1 has more of them, which are skipped. -/
def Mp4aFields.read : BoxReader Mp4aFields := fun file => do
  let _reserved0 ← readUInt 4 file
  let _reserved1 ← readUInt 2 file
  let dataReferenceIndex ← readUInt 2 file
  let version ← readUInt 2 file
  let _reserved2 ← readUInt 2 file
  let _reserved3 ← readUInt 4 file
  let channelcount ← readUInt 2 file
  let samplesize ← readUInt 2 file
  let _predefined ← readUInt 4 file
  let samplerate ← readUInt 4 file
  if version = 1 then
    let _qtff0 ← readUInt 8 file
    let _qtff1 ← readUInt 8 file
  return { dataReferenceIndex, channelcount, samplesize, samplerate }

def esdsBox : ℕ := 0x65736473

def waveBox : ℕ := 0x77617665

/-- How far the search for `esds` is: the debug text of the box, and whether it is over. -/
structure EsdsSearch where
  esds : Option String
  done : Bool
  deriving DecidableEq, Repr

/-- The readers of what is not read here: `esds`, with its debug text, and the entries of other types.
They have no loop without a bound. -/
structure EntryReaders where
  esds : ℕ → BoxReader String
  entry : BoxHeader → BoxReader Stsd

/-- One round of the loop, in an entry that ends at `stop`.  It goes into a `wave` box. -/
def Mp4aBox.round (readers : EntryReaders) (size stop : ℕ) : BoxReader EsdsSearch := fun file => do
  let current ← get
  if stop ≤ current then return { esds := none, done := true }
  else
    let header ← BoxHeader.read file
    if size < header.size then
      throw (.invalidData "mp4a box contains a box with a larger size than it")
    else if header.name.toU32 = esdsBox then
      let esds ← readers.esds header.size file
      return { esds := some esds, done := true }
    else if header.name.toU32 = waveBox then return { esds := none, done := false }
    else
      skipBytesTo (current + header.size)
      return { esds := none, done := false }

/-- The debug text of an entry. -/
def Mp4aFields.text (fields : Mp4aFields) (esds : Option String) : String :=
  "Mp4a(Mp4aBox \x7b data_reference_index: " ++ toString fields.dataReferenceIndex
    ++ ", channelcount: " ++ toString fields.channelcount
    ++ ", samplesize: " ++ toString fields.samplesize
    ++ ", samplerate: FixedPointU16(Ratio \x7b numer: " ++ toString fields.samplerate
    ++ ", denom: 65536 \x7d), esds: " ++ esds.elim "None" (fun text => "Some(" ++ text ++ ")")
    ++ " \x7d)"

/-! ### Loops in entries -/

/-- `loop`, for at most so many rounds, with what it has found so far. -/
def loopUntil {φ : Type} (done : φ → Bool) (round : BoxReader φ) (fuel : ℕ) (found : φ) :
    LoopReader φ := fun file pos =>
  While.runAll (fun s => !done s.1) (fun _ s => (BoxReader.loop round file).run s.2) fuel (found, pos)

/-- The config in an entry of AVC. -/
def Avc1Box.read (fuel size : ℕ) : LoopReader Stsd := fun file => do
  let start ← BoxReader.loop (fun _ => boxStart) file
  BoxReader.loop Avc1Box.readFields file
  let avcc ← loopUntil Option.isSome (Avc1Box.round size (start + size)) fuel none file
  BoxReader.loop (fun _ => skipBytesTo (start + size)) file
  return (.avc1, avcc)

def Mp4aBox.read (readers : EntryReaders) (fuel size : ℕ) : LoopReader Stsd := fun file => do
  let start ← BoxReader.loop (fun _ => boxStart) file
  let fields ← BoxReader.loop Mp4aFields.read file
  let found ← loopUntil EsdsSearch.done (Mp4aBox.round readers size (start + size)) fuel
    { esds := none, done := false } file
  BoxReader.loop (fun _ => skipBytesTo (start + size)) file
  return (.other (fields.text found.esds), none)

/-! ### The sample description -/

/-- The entry of a codec, and the codec config in it. -/
def readSampleEntry (readers : EntryReaders) (fuel : ℕ) (header : BoxHeader) : LoopReader Stsd :=
  fun file =>
    match header.name.toU32 with
    | 0x61766331 => Avc1Box.read fuel header.size file
    | 0x76703038 =>
      (fun bx => (.vp08, some bx.vpcc.2)) <$> BoxReader.loop (VpBox.read header.size) file
    | 0x76703039 =>
      (fun bx => (.vp09, some bx.vpcc.2)) <$> BoxReader.loop (VpBox.read header.size) file
    | 0x6d703461 => Mp4aBox.read readers fuel header.size file
    | _ => BoxReader.loop (readers.entry header) file

def StsdBox.readContents (readers : EntryReaders) (fuel size : ℕ) : LoopReader Stsd := fun file => do
  let _ext ← BoxReader.loop (readExact 4) file
  let _entryCount ← BoxReader.loop readU32 file
  let header ← BoxReader.loop BoxHeader.read file
  if size < header.size then
    throw (some (.invalidData "stsd box contains a box with a larger size than it"))
  else readSampleEntry readers fuel header file

/-- `StsdBox::read_box`, with so much fuel for the loops in the entries. -/
def StsdBox.read (readers : EntryReaders) (fuel size : ℕ) : LoopReader Stsd := fun file => do
  let start ← BoxReader.loop (fun _ => boxStart) file
  let contents ← StsdBox.readContents readers fuel size file
  BoxReader.loop (fun _ => skipBytesTo (start + size)) file
  return contents

end ReMp4

end NoshareCover
