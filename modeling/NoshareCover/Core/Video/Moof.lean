import NoshareCover.Core.Video.Fragment
import NoshareCover.Core.Video.SampleEntry

/-!
# The boxes of a fragmented file

A file is a row of boxes, and so are its `moof` boxes and the `traf` boxes in them.  A loop over a
row goes on until the reader is at the end of the row or behind it.
-/

namespace NoshareCover

namespace ReMp4

namespace BoxType

@[match_pattern] def ftyp : BoxType := other 0x66747970

@[match_pattern] def free : BoxType := other 0x66726565

@[match_pattern] def mdat : BoxType := other 0x6d646174

@[match_pattern] def moov : BoxType := other 0x6d6f6f76

@[match_pattern] def moof : BoxType := other 0x6d6f6f66

@[match_pattern] def emsg : BoxType := other 0x656d7367

@[match_pattern] def mfhd : BoxType := other 0x6d666864

@[match_pattern] def traf : BoxType := other 0x74726166

@[match_pattern] def tfhd : BoxType := other 0x74666864

@[match_pattern] def tfdt : BoxType := other 0x74666474

@[match_pattern] def trun : BoxType := other 0x7472756E

end BoxType

/-! ### Fields that flags announce -/

/-- Version and flags. -/
def readBoxHeaderExt : BoxReader (ℕ × ℕ) := fun file => do
  let version ← readUInt 1 file
  let flags ← readUInt 3 file
  return (version, flags)

/-- A field that is there if its flag is set. -/
def readIf {α : Type} (flags flag : ℕ) (field : BoxReader α) : BoxReader (Option α) := fun file =>
  if hasFlag flags flag then some <$> field file else return none

namespace TfhdBox

def flagSampleDescriptionIndex : ℕ := 0x02
def flagDefaultSampleDuration : ℕ := 0x08
def flagDefaultSampleSize : ℕ := 0x10
def flagDefaultSampleFlags : ℕ := 0x20

def readFields : BoxReader TfhdBox := fun file => do
  let (_version, flags) ← readBoxHeaderExt file
  let trackId ← readU32 file
  let baseDataOffset ← readIf flags flagBaseDataOffset readU64 file
  let _sampleDescriptionIndex ← readIf flags flagSampleDescriptionIndex readU32 file
  let defaultSampleDuration ← readIf flags flagDefaultSampleDuration readU32 file
  let defaultSampleSize ← readIf flags flagDefaultSampleSize readU32 file
  let defaultSampleFlags ← readIf flags flagDefaultSampleFlags readU32 file
  return { flags, trackId, baseDataOffset, defaultSampleDuration, defaultSampleSize,
           defaultSampleFlags }

end TfhdBox

def readTfhd (size : ℕ) : BoxReader TfhdBox := readBox size TfhdBox.readFields

def readTfdtFields : BoxReader ℕ := fun file => do
  let (version, _flags) ← readBoxHeaderExt file
  if version = 1 then readU64 file
  else if version = 0 then readU32 file
  else throw (.invalidData "version must be 0 or 1")

def readTfdt (size : ℕ) : BoxReader ℕ := readBox size readTfdtFields

namespace TrunBox

def flagSampleDuration : ℕ := 0x100
def flagSampleSize : ℕ := 0x200

/-- What a run says of one sample. -/
structure Row where
  duration : Option ℕ
  size : Option ℕ
  flags : Option ℕ
  cts : Option ℕ
  deriving DecidableEq, Repr

def readRow (flags : ℕ) : BoxReader Row := fun file => do
  let duration ← readIf flags flagSampleDuration readU32 file
  let size ← readIf flags flagSampleSize readU32 file
  let sampleFlags ← readIf flags flagSampleFlags readU32 file
  let cts ← readIf flags flagSampleCts readU32 file
  return { duration, size, flags := sampleFlags, cts }

/-- The bytes of a field of 4 bytes. -/
def fieldSize (flags flag : ℕ) : ℕ := if hasFlag flags flag then 4 else 0

def otherSize (flags : ℕ) : ℕ :=
  4 + fieldSize flags flagDataOffset + fieldSize flags flagFirstSampleFlags

def rowSize (flags : ℕ) : ℕ :=
  fieldSize flags flagSampleDuration + fieldSize flags flagSampleSize
    + fieldSize flags flagSampleFlags + fieldSize flags flagSampleCts

def readFields (size : ℕ) : BoxReader TrunBox := fun file => do
  let (_version, flags) ← readBoxHeaderExt file
  let sampleCount ← readU32 file
  let dataOffset ← readIf flags flagDataOffset readI32 file
  let firstSampleFlags ← readIf flags flagFirstSampleFlags readU32 file
  if size - 12 - otherSize flags < sampleCount * rowSize flags then
    throw (.invalidData "trun sample_count indicates more values than could fit in the box")
  else
    let rows ← Reader.readMany (readRow flags file) sampleCount
    return { flags, sampleCount, dataOffset, firstSampleFlags,
             sampleDurations := rows.filterMap Row.duration
             sampleSizes := rows.filterMap Row.size
             sampleFlags := rows.filterMap Row.flags
             sampleCts := rows.filterMap Row.cts }

end TrunBox

def readTrun (size : ℕ) : BoxReader TrunBox := readBox size (TrunBox.readFields size)

/-! ### Rows of boxes -/

section Row

variable {φ α : Type} (text : String) (child : φ → BoxHeader → LoopReader φ)

/-- One round of the loop, in a box of this size. -/
def rowRound (size : ℕ) (fields : φ) : LoopReader φ := fun file => do
  let header ← BoxReader.loop BoxHeader.read file
  if size < header.size then throw (some (.invalidData text))
  else child fields header file

/-- `while current < end`. -/
def rowCond (stop : ℕ) (s : φ × ℕ) : Bool := s.2 < stop

def rowBody (file : List UInt8) (size : ℕ) (s : φ × ℕ) : Except (Option BoxError) (φ × ℕ) :=
  (rowRound text child size s.1 file).run s.2

/-- A box that is a row of boxes, for at most `fuel` rounds: what is found in it goes into `fields`,
and what the box is made of is decided at its end, by where it starts. -/
def readRowBox (fields : φ) (finish : ℕ → φ → Except BoxError α) (fuel size : ℕ) : LoopReader α :=
  fun file pos =>
    let start := pos - 8
    match While.run (rowCond (start + size)) (rowBody text child file size) fuel (fields, pos) with
    | none => .error none
    | some (.error e) => .error e
    | some (.ok (fields, _)) => ((finish start fields).map (·, start + size)).mapError some

end Row

/-- What of `traf` was found so far. -/
structure TrafFields where
  tfhd : Option TfhdBox
  tfdt : Option ℕ
  truns : List TrunBox
  deriving DecidableEq, Repr

namespace TrafFields

def empty : TrafFields := { tfhd := none, tfdt := none, truns := [] }

def readChild (fields : TrafFields) (header : BoxHeader) : LoopReader TrafFields :=
  BoxReader.loop fun file =>
    match header.name with
    | .tfhd => (fun b => { fields with tfhd := some b }) <$> readTfhd header.size file
    | .tfdt => (fun b => { fields with tfdt := some b }) <$> readTfdt header.size file
    | .trun => (fun b => { fields with truns := fields.truns ++ [b] }) <$> readTrun header.size file
    | _ => (fun _ => fields) <$> skipBox header.size

def finish (fields : TrafFields) : Except BoxError TrafBox :=
  match fields.tfhd with
  | none => .error (.boxNotFound .tfhd)
  | some tfhd => .ok { tfhd, tfdt := fields.tfdt, truns := fields.truns }

end TrafFields

def readTraf (fuel size : ℕ) : LoopReader TrafBox :=
  readRowBox "traf box contains a box with a larger size than it" TrafFields.readChild .empty
    (fun _ fields => fields.finish) fuel size

def readMfhdFields : BoxReader Unit := fun file => do
  let (_version, _flags) ← readBoxHeaderExt file
  let _sequenceNumber ← readU32 file

def readMfhd (size : ℕ) : BoxReader Unit := readBox size readMfhdFields

/-- What of `moof` was found so far. -/
structure MoofFields where
  mfhd : Bool
  trafs : List TrafBox
  deriving DecidableEq, Repr

namespace MoofFields

def empty : MoofFields := { mfhd := false, trafs := [] }

def readChild (fuel : ℕ) (fields : MoofFields) (header : BoxHeader) : LoopReader MoofFields :=
  fun file =>
    match header.name with
    | .mfhd =>
      (fun _ => { fields with mfhd := true }) <$> BoxReader.loop (readMfhd header.size) file
    | .traf =>
      (fun b => { fields with trafs := fields.trafs ++ [b] }) <$> readTraf fuel header.size file
    | _ => (fun _ => fields) <$> BoxReader.loop (fun _ => skipBox header.size) file

def finish (start : ℕ) (fields : MoofFields) : Except BoxError MoofBox :=
  if fields.mfhd then .ok { start, trafs := fields.trafs } else .error (.boxNotFound .mfhd)

end MoofFields

def readMoof (fuel size : ℕ) : LoopReader MoofBox :=
  readRowBox "moof box contains a box with a larger size than it" (MoofFields.readChild fuel) .empty
    MoofFields.finish fuel size

/-! ### `ftyp` and `emsg` -/

structure FtypBox where
  majorBrand : ℕ
  minorVersion : ℕ
  compatibleBrands : List ℕ
  deriving DecidableEq, Repr

def FtypBox.readFields (size : ℕ) : BoxReader FtypBox := fun file =>
  if size < 16 ∨ size % 4 ≠ 0 then throw (.invalidData "ftyp size too small or not aligned")
  else do
    let majorBrand ← readU32 file
    let minorVersion ← readU32 file
    let compatibleBrands ← Reader.readMany (readU32 file) ((size - 16) / 4)
    return { majorBrand, minorVersion, compatibleBrands }

def readFtyp (size : ℕ) : BoxReader FtypBox := readBox size (FtypBox.readFields size)

structure EmsgBox where
  version : ℕ
  flags : ℕ
  timescale : ℕ
  presentationTime : Option ℕ
  presentationTimeDelta : Option ℕ
  eventDuration : ℕ
  id : ℕ
  schemeIdUri : String
  value : String
  messageData : List UInt8
  deriving DecidableEq

/-- The bytes up to the first 0, which is left out. -/
def readNullTerminatedUtf8String : BoxReader String := fun file pos =>
  let bytes := (file.drop pos).takeWhile (· != 0)
  if pos + bytes.length < file.length then
    match String.fromUTF8? bytes.toByteArray with
    | some text => .ok (text, pos + bytes.length + 1)
    | none => .error (.invalidData "invalid utf8")
  else .error .io

namespace EmsgBox

/-- Only versions 0 and 1 are read. -/
def timeSize (version : ℕ) : ℕ := if version = 0 then 12 else 16

def sizeWithoutMessage (b : EmsgBox) : ℕ :=
  8 + 4 + 4 + timeSize b.version + (b.schemeIdUri.utf8ByteSize + 1) + (b.value.utf8ByteSize + 1)

/-- What stands in front of the message. -/
def readHead (version flags : ℕ) : BoxReader EmsgBox := fun file =>
  if version = 0 then do
    let schemeIdUri ← readNullTerminatedUtf8String file
    let value ← readNullTerminatedUtf8String file
    let timescale ← readU32 file
    let delta ← readU32 file
    let eventDuration ← readU32 file
    let id ← readU32 file
    return { version, flags, timescale, presentationTime := none,
             presentationTimeDelta := some delta, eventDuration, id, schemeIdUri, value,
             messageData := [] }
  else if version = 1 then do
    let timescale ← readU32 file
    let time ← readU64 file
    let eventDuration ← readU32 file
    let id ← readU32 file
    let schemeIdUri ← readNullTerminatedUtf8String file
    let value ← readNullTerminatedUtf8String file
    return { version, flags, timescale, presentationTime := some time,
             presentationTimeDelta := none, eventDuration, id, schemeIdUri, value,
             messageData := [] }
  else throw (.invalidData "version must be 0 or 1")

/-- The message takes the rest of the box; with less than nothing left its buffer is too large. -/
def readFields (size : ℕ) : BoxReader EmsgBox := fun file => do
  let (version, flags) ← readBoxHeaderExt file
  let b ← readHead version flags file
  if size < b.sizeWithoutMessage then throw .panicked
  else
    let messageData ← readExact (size - b.sizeWithoutMessage) file
    return { b with messageData }

end EmsgBox

def readEmsg (size : ℕ) : BoxReader EmsgBox := readBox size (EmsgBox.readFields size)

/-! ### The file -/

/-- What is read of a file. -/
structure Mp4 where
  ftyp : FtypBox
  moov : MoovBox
  moofs : List MoofBox
  emsgs : List EmsgBox
  tracks : List Track
  deriving DecidableEq

/-- What of a file was found so far. -/
structure FileFields where
  ftyp : Option FtypBox
  moov : Option MoovBox
  moofs : List MoofBox
  emsgs : List EmsgBox
  /-- A box of size 0 is the last one. -/
  stopped : Bool
  deriving DecidableEq

namespace FileFields

def empty : FileFields := { ftyp := none, moov := none, moofs := [], emsgs := [], stopped := false }

/-- `moov` has a reader of its own. -/
def readChild (readMoov : ℕ → LoopReader MoovBox) (fuel : ℕ) (fields : FileFields)
    (header : BoxHeader) : LoopReader FileFields := fun file =>
  -- a box of size zero can result in a dead loop
  if header.size = 0 then return { fields with stopped := true }
  else
    match header.name with
    | .ftyp =>
      (fun b => { fields with ftyp := some b }) <$> BoxReader.loop (readFtyp header.size) file
    | .free | .mdat => (fun _ => fields) <$> BoxReader.loop (fun _ => skipBox header.size) file
    | .moov => (fun b => { fields with moov := some b }) <$> readMoov header.size file
    | .moof =>
      (fun b => { fields with moofs := fields.moofs ++ [b] }) <$> readMoof fuel header.size file
    | .emsg =>
      (fun b => { fields with emsgs := fields.emsgs ++ [b] }) <$>
        BoxReader.loop (readEmsg header.size) file
    | _ => (fun _ => fields) <$> BoxReader.loop (fun _ => skipBox header.size) file

/-- There are no tracks yet. -/
def finish (fields : FileFields) : Except BoxError Mp4 :=
  match fields.ftyp with
  | none => .error (.boxNotFound .ftyp)
  | some ftyp =>
    match fields.moov with
    | none => .error (.boxNotFound .moov)
    | some moov => .ok { ftyp, moov, moofs := fields.moofs, emsgs := fields.emsgs, tracks := [] }

end FileFields

def fileCond (size : ℕ) (s : FileFields × ℕ) : Bool := s.2 < size && !s.1.stopped

def fileBody (readMoov : ℕ → LoopReader MoovBox) (fuel : ℕ) (file : List UInt8)
    (s : FileFields × ℕ) : Except (Option BoxError) (FileFields × ℕ) :=
  rowBody "file contains a box with a larger size than it" (FileFields.readChild readMoov fuel)
    file file.length s

inductive FileError where
  | box (e : BoxError)
  | tracks (e : ReadError)
  deriving DecidableEq, Repr

/-- `Mp4::read`, for at most `fuel` rounds of its loop and of those in the boxes. -/
def Mp4.read (readMoov : ℕ → LoopReader MoovBox) (fuel : ℕ) (file : List UInt8) :
    Option (Except FileError Mp4) :=
  match While.run (fileCond file.length) (fileBody readMoov fuel file) fuel (.empty, 0) with
  | none | some (.error none) => none
  | some (.error (some e)) => some (.error (.box e))
  | some (.ok (fields, _)) =>
    match fields.finish with
    | .error e => some (.error (.box e))
    | .ok this =>
      match readTracks this.moov this.moofs with
      | .error e => some (.error (.tracks e))
      | .ok tracks => some (.ok { this with tracks })

end ReMp4

end NoshareCover
