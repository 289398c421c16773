import NoshareCover.Core.Video.SampleTable
import NoshareCover.Lib.BigEndian
import NoshareCover.Lib.Reader
import NoshareCover.Lib.While

/-!
# The boxes of the sample tables

Boxes have a size and a type in front, and the box of the sample tables is a row of other boxes.  A
table has a count, which is checked against the size of the box, and after it the reader goes to where
the box says that it ends.
-/

namespace NoshareCover

namespace ReMp4

/-- The boxes that `stbl` knows. -/
inductive BoxType where
  | stsd
  | stts
  | ctts
  | stss
  | stsc
  | stsz
  | stco
  | co64
  | other (t : ℕ)
  deriving DecidableEq, Repr

namespace BoxType

def toU32 : BoxType → ℕ
  | stsd => 0x73747364
  | stts => 0x73747473
  | ctts => 0x63747473
  | stss => 0x73747373
  | stsc => 0x73747363
  | stsz => 0x7374737A
  | stco => 0x7374636F
  | co64 => 0x636F3634
  | other t => t

def ofU32 (t : ℕ) : BoxType :=
  match t with
  | 0x73747364 => stsd
  | 0x73747473 => stts
  | 0x63747473 => ctts
  | 0x73747373 => stss
  | 0x73747363 => stsc
  | 0x7374737A => stsz
  | 0x7374636F => stco
  | 0x636F3634 => co64
  | t => other t

end BoxType

inductive BoxError where
  /-- The file ends too early. -/
  | io
  | invalidData (text : String)
  | boxNotFound (t : BoxType)
  | box2NotFound (t u : BoxType)
  /-- A panic: a buffer of less than no bytes. -/
  | panicked
  deriving DecidableEq, Repr

/-- Readers of the bytes of a file. -/
abbrev BoxReader (α : Type) := Reader.At UInt8 BoxError α

/-- Readers with a loop in them; `none` takes the place of an error while the loop is running. -/
abbrev LoopReader (α : Type) := Reader.At UInt8 (Option BoxError) α

def BoxReader.loop {α : Type} (r : BoxReader α) : LoopReader α := fun file pos =>
  (r file pos).mapError some

/-! ### Bytes and positions -/

def readExact (n : ℕ) : BoxReader (List UInt8) := fun file pos =>
  if pos + n ≤ file.length then .ok ((file.drop pos).take n, pos + n) else .error .io

def readU32 : BoxReader ℕ := fun file => BigEndian.value <$> readExact 4 file

def readU64 : BoxReader ℕ := fun file => BigEndian.value <$> readExact 8 file

def readI32 : BoxReader ℤ := fun file => (fun n : ℕ => (n : ℤ).bmod (2 ^ 32)) <$> readU32 file

/-- Of the whole header, whatever its form, the last 8 bytes count. -/
def boxStart : StateT ℕ (Except BoxError) ℕ := do
  return (← get) - 8

def skipBytesTo (pos : ℕ) : StateT ℕ (Except BoxError) Unit := set pos

def skipBox (size : ℕ) : StateT ℕ (Except BoxError) Unit := do
  let start ← boxStart
  skipBytesTo (start + size)

structure BoxHeader where
  name : BoxType
  size : ℕ
  deriving DecidableEq, Repr

/-- Size and type, and a larger size if it says so; 8 bytes of the header do not count then. -/
def BoxHeader.read : BoxReader BoxHeader := fun file => do
  let size ← readU32 file
  let typ ← readU32 file
  if size = 1 then
    let largesize ← readU64 file
    if largesize = 0 then return { name := .ofU32 typ, size := 0 }
    else if largesize < 16 then throw (.invalidData "64-bit box size too small")
    else return { name := .ofU32 typ, size := largesize - 8 }
  else return { name := .ofU32 typ, size }

/-! ### Tables -/

/-- The contents of a box of this size; then the reader goes to the end of the box. -/
def readBox {α : Type} (size : ℕ) (contents : BoxReader α) : BoxReader α := fun file => do
  let start ← boxStart
  let a ← contents file
  skipBytesTo (start + size)
  return a

/-- The contents of a table with a count: `name` is its name in errors, and `entrySize` the bytes of an
entry.  The `check` of the entries can fail. -/
def readEntries {α : Type} (name : String) (entrySize : ℕ) (entry : BoxReader α)
    (check : List α → Except BoxError Unit) (size : ℕ) : BoxReader (List α) := fun file => do
  let _ext ← readExact 4 file
  let entryCount ← readU32 file
  if (size - 12 - 4) / entrySize < entryCount then
    throw (.invalidData (name ++ " entry_count indicates more entries than could fit in the box"))
  else
    let entries ← Reader.readMany (entry file) entryCount
    check entries
    return entries

def readTable {α : Type} (name : String) (entrySize : ℕ) (entry : BoxReader α)
    (check : List α → Except BoxError Unit) (size : ℕ) : BoxReader (List α) :=
  readBox size (readEntries name entrySize entry check size)

def SttsEntry.read : BoxReader SttsEntry := fun file => do
  let sampleCount ← readU32 file
  let sampleDelta ← readU32 file
  return { sampleCount, sampleDelta }

def CttsEntry.read : BoxReader CttsEntry := fun file => do
  let sampleCount ← readU32 file
  let sampleOffset ← readI32 file
  return { sampleCount, sampleOffset }

def StscEntry.read : BoxReader StscEntry := fun file => do
  let firstChunk ← readU32 file
  let samplesPerChunk ← readU32 file
  let _sampleDescriptionIndex ← readU32 file
  return { firstChunk, samplesPerChunk }

/-- The first sample of each entry, from `sampleId` on, where the numbers fit into 32 bits. -/
def firstSamples : ℕ → List StscEntry → Option (List ℕ)
  | _, [] => some []
  | sampleId, [_] => some [sampleId]
  | sampleId, entry :: next :: rest =>
    if next.firstChunk < entry.firstChunk then none
    else
      let samples := (next.firstChunk - entry.firstChunk) * entry.samplesPerChunk
      if samples < 2 ^ 32 ∧ samples + sampleId < 2 ^ 32 then
        (firstSamples (samples + sampleId) (next :: rest)).map (sampleId :: ·)
      else none

/-- The sample numbers of `stsc` are in range. -/
def checkFirstSamples (entries : List StscEntry) : Except BoxError Unit :=
  match firstSamples 1 entries with
  | none => .error (.invalidData "attempt to calculate stsc sample_id with overflow")
  | some _ => .ok ()

def readStts : ℕ → BoxReader (List SttsEntry) := readTable "stts" 8 SttsEntry.read fun _ => .ok ()

def readCtts : ℕ → BoxReader (List CttsEntry) := readTable "ctts" 8 CttsEntry.read fun _ => .ok ()

def readStss : ℕ → BoxReader (List ℕ) := readTable "stss" 4 readU32 fun _ => .ok ()

def readStsc : ℕ → BoxReader (List StscEntry) := readTable "stsc" 12 StscEntry.read checkFirstSamples

def readStco : ℕ → BoxReader (List ℕ) := readTable "stco" 4 readU32 fun _ => .ok ()

def readCo64 : ℕ → BoxReader (List ℕ) := readTable "co64" 8 readU64 fun _ => .ok ()

/-- A size for all samples, or, where it is 0, one for each of them. -/
def readStsz (size : ℕ) : BoxReader StszBox :=
  readBox size fun file => do
    let _ext ← readExact 4 file
    let sampleSize ← readU32 file
    let sampleCount ← readU32 file
    if sampleSize ≠ 0 then return { sampleSize, sampleCount, sampleSizes := [] }
    else if (size - 12 - 8) / 4 < sampleCount then
      throw (.invalidData "stsz sample_count indicates more values than could fit in the box")
    else
      let sampleSizes ← Reader.readMany (readU32 file) sampleCount
      return { sampleSize, sampleCount, sampleSizes }

/-! ### The box of the tables -/

/-- What is read of `stsd`. -/
abbrev Stsd := StsdBoxContent × Option (List UInt8)

/-- The boxes found so far. -/
structure StblFields where
  stsd : Option Stsd
  stts : Option (List SttsEntry)
  ctts : Option (List CttsEntry)
  stss : Option (List ℕ)
  stsc : Option (List StscEntry)
  stsz : Option StszBox
  stco : Option (List ℕ)
  co64 : Option (List ℕ)
  deriving DecidableEq, Repr

namespace StblFields

def empty : StblFields :=
  { stsd := none, stts := none, ctts := none, stss := none, stsc := none, stsz := none,
    stco := none, co64 := none }

/-- A box of a kind takes the place of the one before. -/
def readTable (fields : StblFields) (header : BoxHeader) : BoxReader StblFields := fun file =>
  match header.name with
  | .stts => (fun b => { fields with stts := some b }) <$> readStts header.size file
  | .ctts => (fun b => { fields with ctts := some b }) <$> readCtts header.size file
  | .stss => (fun b => { fields with stss := some b }) <$> readStss header.size file
  | .stsc => (fun b => { fields with stsc := some b }) <$> readStsc header.size file
  | .stsz => (fun b => { fields with stsz := some b }) <$> readStsz header.size file
  | .stco => (fun b => { fields with stco := some b }) <$> readStco header.size file
  | .co64 => (fun b => { fields with co64 := some b }) <$> readCo64 header.size file
  | .stsd | .other _ => (fun _ => fields) <$> skipBox header.size

/-- The sample description has a reader of its own, with loops in it. -/
def readChild (readStsd : ℕ → LoopReader Stsd) (fields : StblFields) (header : BoxHeader) :
    LoopReader StblFields := fun file =>
  match header.name with
  | .stsd => (fun b => { fields with stsd := some b }) <$> readStsd header.size file
  | _ => BoxReader.loop (fields.readTable header) file

/-- One round of the loop, in a box of this size. -/
def round (readStsd : ℕ → LoopReader Stsd) (size : ℕ) (fields : StblFields) : LoopReader StblFields :=
  fun file => do
    let header ← BoxReader.loop BoxHeader.read file
    if size < header.size then
      throw (some (.invalidData "stbl box contains a box with a larger size than it"))
    fields.readChild readStsd header file

/-- The box, when all that it has to have were found. -/
def finish (fields : StblFields) : Except BoxError StblBox := do
  let stsd ← fields.stsd.elim (throw (.boxNotFound .stsd)) pure
  let stts ← fields.stts.elim (throw (.boxNotFound .stts)) pure
  let stsc ← fields.stsc.elim (throw (.boxNotFound .stsc)) pure
  let stsz ← fields.stsz.elim (throw (.boxNotFound .stsz)) pure
  if fields.stco.isNone ∧ fields.co64.isNone then throw (.box2NotFound .stco .co64)
  return { contents := stsd.1, rawCodecConfig := stsd.2, stts, ctts := fields.ctts,
           stss := fields.stss, stsc, stsz, stco := fields.stco, co64 := fields.co64 }

end StblFields

section Stbl

variable (readStsd : ℕ → ℕ → LoopReader Stsd) (file : List UInt8) (size : ℕ)

/-- `while current < end`, for a box that starts here. -/
def stblCond (start : ℕ) (s : StblFields × ℕ) : Bool := s.2 < start + size

def stblBody : While.Nested (StblFields × ℕ) BoxError := fun fuel s =>
  (s.1.round (readStsd fuel) size file).run s.2

/-- `StblBox::read_box` at a position, for at most `fuel` rounds of its loop and of those of `readStsd`:
the box and the position behind it. -/
def readStbl (fuel pos : ℕ) : Option (Except BoxError (StblBox × ℕ)) :=
  let start := pos - 8
  match While.runAll (stblCond size start) (stblBody readStsd file size) fuel (.empty, pos) with
  | .error none => none
  | .error (some e) => some (.error e)
  | .ok (fields, _) => some (fields.finish.map fun stbl => (stbl, start + size))

end Stbl

end ReMp4

end NoshareCover
