import NoshareCover.Core.Spec.Mp4Box
import NoshareCover.Core.Video.Moof

/-!
# Reading the boxes of a fragmented file

The boxes of a file, of `moof` and of `traf` may come in any order, with other boxes between them
and with headers of either form.
-/

namespace NoshareCover

namespace ReMp4

open Reader BigEndian

/-! ### Fields that flags announce -/

theorem takes_readUInt {k n : ℕ} (h : n < 256 ^ k) : Takes 0 (readUInt k) (encode k n) n := by
  have htakes := (takes_readExact (length_encode k n)).map value
  rwa [value_encode h] at htakes

def encodeExt (version flags : ℕ) : List UInt8 := encode 1 version ++ encode 3 flags

theorem takes_readBoxHeaderExt {version flags : ℕ} (hversion : version < 2 ^ 8)
    (hflags : flags < 2 ^ 24) :
    Takes 0 readBoxHeaderExt (encodeExt version flags) (version, flags) := by
  refine (takes_readUInt (by omega)).bind ?_
  rw [← List.append_nil (encode 3 flags)]
  exact (takes_readUInt (by omega)).bind_zero (Takes.pure _ _)

def encodeIf {α : Type} (encode : α → List UInt8) (o : Option α) : List UInt8 := o.elim [] encode

theorem takes_readIf {α : Type} {flags flag : ℕ} {field : BoxReader α} {encode : α → List UInt8}
    {o : Option α} (hflag : o.isSome = hasFlag flags flag)
    (hfield : ∀ a ∈ o, Takes 0 field (encode a) a) :
    Takes 0 (readIf flags flag field) (encodeIf encode o) o := by
  cases o with
  | none => exact (Takes.pure 0 none).of_eq fun file => by rw [readIf, ← hflag]; rfl
  | some a => exact ((hfield a rfl).map some).of_eq fun file => by rw [readIf, ← hflag]; rfl

/-- An optional number of 32 bits, as its flag says. -/
def Announced (flags flag : ℕ) (o : Option ℕ) : Prop :=
  o.isSome = hasFlag flags flag ∧ ∀ n ∈ o, n < 2 ^ 32

theorem Announced.takes {flags flag : ℕ} {o : Option ℕ} (h : Announced flags flag o) :
    Takes 0 (readIf flags flag readU32) (encodeIf (encode 4) o) o :=
  takes_readIf h.1 fun n hn => takes_readU32 (h.2 n hn)

theorem length_encodeIf {flags flag : ℕ} {α : Type} {encode : α → List UInt8} {o : Option α}
    (h : o.isSome = hasFlag flags flag) (hlength : ∀ a, (encode a).length = 4) :
    (encodeIf encode o).length = TrunBox.fieldSize flags flag := by
  unfold TrunBox.fieldSize
  rw [← h]
  cases o with
  | none => rfl
  | some a => exact hlength a

/-! ### `tfhd` and `tfdt` -/

namespace TfhdBox

/-- `description` is `sample_description_index`. -/
structure Fits (b : TfhdBox) (description : Option ℕ) : Prop where
  flags : b.flags < 2 ^ 24
  trackId : b.trackId < 2 ^ 32
  base : b.baseDataOffset.isSome = hasFlag b.flags flagBaseDataOffset
  baseFits : ∀ n ∈ b.baseDataOffset, n < 2 ^ 64
  description : Announced b.flags flagSampleDescriptionIndex description
  duration : Announced b.flags flagDefaultSampleDuration b.defaultSampleDuration
  size : Announced b.flags flagDefaultSampleSize b.defaultSampleSize
  sampleFlags : Announced b.flags flagDefaultSampleFlags b.defaultSampleFlags

def encodeFields (b : TfhdBox) (version : ℕ) (description : Option ℕ) : List UInt8 :=
  encodeExt version b.flags ++ (encode 4 b.trackId ++ (encodeIf (encode 8) b.baseDataOffset
    ++ (encodeIf (encode 4) description ++ (encodeIf (encode 4) b.defaultSampleDuration
    ++ (encodeIf (encode 4) b.defaultSampleSize
    ++ (encodeIf (encode 4) b.defaultSampleFlags ++ []))))))

theorem takes {b : TfhdBox} {version : ℕ} {description : Option ℕ} (hversion : version < 2 ^ 8)
    (h : b.Fits description) : Takes 0 readFields (b.encodeFields version description) b := by
  refine (takes_readBoxHeaderExt hversion h.flags).bind ?_
  refine (takes_readU32 h.trackId).bind_zero ?_
  refine (takes_readIf h.base fun n hn => takes_readU64 (h.baseFits n hn)).bind_zero ?_
  refine h.description.takes.bind_zero ?_
  refine h.duration.takes.bind_zero ?_
  refine h.size.takes.bind_zero ?_
  refine h.sampleFlags.takes.bind_zero ?_
  exact Takes.pure _ _

end TfhdBox

/-- In 8 bytes or in 4. -/
def encodeTfdt (long : Bool) (flags time : ℕ) : List UInt8 :=
  if long then encodeExt 1 flags ++ encode 8 time else encodeExt 0 flags ++ encode 4 time

def TfdtFits (long : Bool) (flags time : ℕ) : Prop :=
  flags < 2 ^ 24 ∧ if long then time < 2 ^ 64 else time < 2 ^ 32

theorem takes_readTfdtFields {long : Bool} {flags time : ℕ} (h : TfdtFits long flags time) :
    Takes 0 readTfdtFields (encodeTfdt long flags time) time := by
  obtain ⟨hflags, htime⟩ := h
  cases long with
  | true =>
    refine (takes_readBoxHeaderExt (by norm_num) hflags).bind ?_
    exact ((takes_readU64 htime).mono (Nat.zero_le _)).of_eq fun file => rfl
  | false =>
    refine (takes_readBoxHeaderExt (by norm_num) hflags).bind ?_
    exact ((takes_readU32 htime).mono (Nat.zero_le _)).of_eq fun file => rfl

/-! ### `trun` -/

namespace TrunBox

/-- A list with something for every sample, if the flag is set. -/
def Listed (flags flag count : ℕ) (ns : List ℕ) : Prop :=
  ns.length = (if hasFlag flags flag then count else 0) ∧ ∀ n ∈ ns, n < 2 ^ 32

structure Fits (b : TrunBox) : Prop where
  flags : b.flags < 2 ^ 24
  count : b.sampleCount < 2 ^ 32
  offset : b.dataOffset.isSome = hasFlag b.flags flagDataOffset
  offsetFits : ∀ z ∈ b.dataOffset, -2 ^ 31 ≤ z ∧ z < 2 ^ 31
  first : Announced b.flags flagFirstSampleFlags b.firstSampleFlags
  durations : Listed b.flags flagSampleDuration b.sampleCount b.sampleDurations
  sizes : Listed b.flags flagSampleSize b.sampleCount b.sampleSizes
  sampleFlags : Listed b.flags flagSampleFlags b.sampleCount b.sampleFlags
  cts : Listed b.flags flagSampleCts b.sampleCount b.sampleCts

def rowAt (b : TrunBox) (i : ℕ) : Row :=
  { duration := b.sampleDurations[i]?, size := b.sampleSizes[i]?, flags := b.sampleFlags[i]?,
    cts := b.sampleCts[i]? }

def Row.encode (r : Row) : List UInt8 :=
  encodeIf (BigEndian.encode 4) r.duration ++ (encodeIf (BigEndian.encode 4) r.size
    ++ (encodeIf (BigEndian.encode 4) r.flags ++ (encodeIf (BigEndian.encode 4) r.cts ++ [])))

def rows (b : TrunBox) : List Row := (List.range b.sampleCount).map b.rowAt

def encodeFields (b : TrunBox) (version : ℕ) : List UInt8 :=
  encodeExt version b.flags ++ (BigEndian.encode 4 b.sampleCount
    ++ (encodeIf encodeI32 b.dataOffset ++ (encodeIf (BigEndian.encode 4) b.firstSampleFlags
    ++ (b.rows.flatMap Row.encode ++ []))))

theorem Listed.announced {flags flag count i : ℕ} {ns : List ℕ} (h : Listed flags flag count ns)
    (hi : i < count) : Announced flags flag ns[i]? := by
  obtain ⟨hlength, hfits⟩ := h
  refine ⟨?_, fun n hn => hfits n (List.mem_of_getElem? hn)⟩
  cases hflag : hasFlag flags flag with
  | true =>
    rw [hflag, if_pos rfl] at hlength
    rw [List.getElem?_eq_getElem (by omega), Option.isSome_some]
  | false =>
    rw [hflag, if_neg Bool.false_ne_true] at hlength
    rw [List.length_eq_zero_iff.1 hlength]
    rfl

theorem Listed.filterMap {flags flag count : ℕ} {ns : List ℕ} (h : Listed flags flag count ns) :
    (List.range count).filterMap (ns[·]?) = ns := by
  obtain ⟨hlength, -⟩ := h
  split_ifs at hlength
  · have hsome : (List.range count).map (ns[·]?) = ns.map some := by
      refine List.ext_getElem (by rw [List.length_map, List.length_map, List.length_range, hlength])
        fun i hi hi' => ?_
      rw [List.length_map] at hi'
      rw [List.getElem_map, List.getElem_map, List.getElem_range, List.getElem?_eq_getElem hi']
    calc (List.range count).filterMap (ns[·]?)
        = ((List.range count).map (ns[·]?)).filterMap id := by rw [List.filterMap_map]; rfl
      _ = ns := by rw [hsome, List.filterMap_map, Function.id_comp, List.filterMap_some]
  · rw [List.length_eq_zero_iff.1 hlength]
    exact List.filterMap_eq_nil_iff.2 fun _ _ => rfl

theorem takes_readRow {b : TrunBox} (h : b.Fits) {i : ℕ} (hi : i < b.sampleCount) :
    Takes 0 (readRow b.flags) (b.rowAt i).encode (b.rowAt i) := by
  refine ((h.durations.announced hi).takes).bind ?_
  refine (h.sizes.announced hi).takes.bind_zero ?_
  refine (h.sampleFlags.announced hi).takes.bind_zero ?_
  refine (h.cts.announced hi).takes.bind_zero ?_
  exact Takes.pure _ _

theorem length_row {b : TrunBox} (h : b.Fits) {i : ℕ} (hi : i < b.sampleCount) :
    (b.rowAt i).encode.length = rowSize b.flags := by
  have hlength := length_encode 4
  simp only [Row.encode, List.length_append, List.length_nil, rowAt,
    length_encodeIf (h.durations.announced hi).1 hlength,
    length_encodeIf (h.sizes.announced hi).1 hlength,
    length_encodeIf (h.sampleFlags.announced hi).1 hlength,
    length_encodeIf (h.cts.announced hi).1 hlength, rowSize]
  omega

theorem length_rows {b : TrunBox} (h : b.Fits) :
    (b.rows.flatMap Row.encode).length = b.sampleCount * rowSize b.flags := by
  have hrows : ∀ r ∈ b.rows, r.encode.length = rowSize b.flags :=
    List.forall_mem_map.2 fun i hi => length_row h (List.mem_range.1 hi)
  rw [length_flatMap_entries hrows, rows, List.length_map, List.length_range]

theorem takes {b : TrunBox} {version : ℕ} (hversion : version < 2 ^ 8) (h : b.Fits)
    {pad : List UInt8} :
    Takes 8 (readTrun (8 + (b.encodeFields version ++ pad).length)) (b.encodeFields version ++ pad)
      b := by
  generalize hsize : 8 + (b.encodeFields version ++ pad).length = size
  refine takes_readBox ?_ hsize.symm
  refine (takes_readBoxHeaderExt hversion h.flags).bind ?_
  refine (takes_readU32 h.count).bind_zero ?_
  -- each optional field, where its flag is set
  have hoffset : ∀ z ∈ b.dataOffset, Takes 0 readI32 (encodeI32 z) z := by
    intro z hz
    obtain ⟨hlow, hhigh⟩ := h.offsetFits z hz
    exact takes_readI32 hlow hhigh
  refine (takes_readIf h.offset hoffset).bind_zero ?_
  refine h.first.takes.bind_zero ?_
  -- the rows fit into what is left of the box
  have hroom : ¬ size - 12 - otherSize b.flags < b.sampleCount * rowSize b.flags := by
    have hlength : (encodeIf encodeI32 b.dataOffset).length = fieldSize b.flags flagDataOffset :=
      length_encodeIf h.offset fun _ => length_encode 4 _
    rw [← hsize]
    simp only [encodeFields, encodeExt, List.length_append, length_encode, List.length_nil,
      length_rows h, hlength, length_encodeIf h.first.1 (length_encode 4), otherSize]
    omega
  refine Takes.of_eq ?_ fun file => if_neg hroom
  -- as many rows as the count says
  have hrows : Takes 0 (fun file => Reader.readMany (readRow b.flags file) b.sampleCount)
      (b.rows.flatMap Row.encode) b.rows := by
    have hmany : Takes 0 (fun file => Reader.readMany (readRow b.flags file) b.rows.length) _ _ :=
      Takes.readMany (List.forall_mem_map.2 fun i hi => takes_readRow h (List.mem_range.1 hi))
    rwa [rows, List.length_map, List.length_range] at hmany
  refine hrows.bind_zero ?_
  -- the columns of the rows are the vectors of the box
  have hdurations : b.rows.filterMap Row.duration = b.sampleDurations := by
    rw [rows, List.filterMap_map]
    exact h.durations.filterMap
  have hsizes : b.rows.filterMap Row.size = b.sampleSizes := by
    rw [rows, List.filterMap_map]
    exact h.sizes.filterMap
  have hflags : b.rows.filterMap Row.flags = b.sampleFlags := by
    rw [rows, List.filterMap_map]
    exact h.sampleFlags.filterMap
  have hcts : b.rows.filterMap Row.cts = b.sampleCts := by
    rw [rows, List.filterMap_map]
    exact h.cts.filterMap
  refine (Takes.pure _ b).of_eq fun file => ?_
  rw [hdurations, hsizes, hflags, hcts]

end TrunBox

/-! ### `ftyp` and `emsg` -/

namespace FtypBox

structure Fits (b : FtypBox) : Prop where
  majorBrand : b.majorBrand < 2 ^ 32
  minorVersion : b.minorVersion < 2 ^ 32
  compatibleBrands : ∀ n ∈ b.compatibleBrands, n < 2 ^ 32

def encodeFields (b : FtypBox) : List UInt8 :=
  encode 4 b.majorBrand
    ++ (encode 4 b.minorVersion ++ (b.compatibleBrands.flatMap (encode 4) ++ []))

theorem takes {b : FtypBox} (h : b.Fits) :
    Takes 8 (readFtyp (8 + b.encodeFields.length)) b.encodeFields b := by
  have hlength : b.encodeFields.length = 8 + b.compatibleBrands.length * 4 := by
    rw [encodeFields, List.append_nil, List.length_append, List.length_append, length_encode,
      length_encode, length_flatMap_entries fun n _ => length_encode 4 n]
    omega
  rw [← List.append_nil b.encodeFields]
  generalize hsize : 8 + (b.encodeFields ++ []).length = size
  refine takes_readBox ?_ hsize.symm
  rw [List.append_nil, hlength] at hsize
  -- the brands fill the box
  have haligned : ¬ (size < 16 ∨ size % 4 ≠ 0) := by omega
  refine Takes.of_eq ?_ fun file => if_neg haligned
  refine (takes_readU32 h.majorBrand).bind ?_
  refine (takes_readU32 h.minorVersion).bind_zero ?_
  -- one brand for every four bytes
  have hbrands : Takes 0 (fun file => Reader.readMany (readU32 file) ((size - 16) / 4))
      (b.compatibleBrands.flatMap (encode 4)) b.compatibleBrands := by
    rw [show (size - 16) / 4 = b.compatibleBrands.length by omega]
    exact Takes.readMany fun n hn => takes_readU32 (h.compatibleBrands n hn)
  exact hbrands.bind_zero (Takes.pure _ _)

end FtypBox

def encodeText (text : String) : List UInt8 := text.toByteArray.data.toList ++ [0]

theorem length_encodeText (text : String) : (encodeText text).length = text.utf8ByteSize + 1 := by
  rw [encodeText, List.length_append, List.length_singleton]
  rfl

/-- A text without the character 0. -/
def TextFits (text : String) : Prop := ∀ byte ∈ text.toByteArray.data.toList, byte ≠ 0

theorem takes_readText {text : String} (h : TextFits text) :
    Takes 0 readNullTerminatedUtf8String (encodeText text) text := by
  intro front back _
  -- the text ends at its first zero
  have htaken : ((front ++ (encodeText text ++ back)).drop front.length).takeWhile (· != 0)
      = text.toByteArray.data.toList := by
    rw [List.drop_left, encodeText, List.append_assoc,
      List.takeWhile_append_of_pos fun byte hbyte => bne_iff_ne.2 (h byte hbyte)]
    exact List.append_nil _
  have hbytes : text.toByteArray.data.toList.toByteArray = text.toByteArray :=
    ByteArray.ext (by rw [List.data_toByteArray])
  -- the bytes of a string are valid
  have hvalid : String.fromUTF8? text.toByteArray = some text := dif_pos text.isValidUTF8
  have hroom : front.length + text.toByteArray.data.toList.length
      < (front ++ (encodeText text ++ back)).length := by
    rw [List.length_append, List.length_append, encodeText, List.length_append,
      List.length_singleton]
    omega
  show readNullTerminatedUtf8String _ front.length = _
  unfold readNullTerminatedUtf8String
  dsimp only
  rw [htaken, if_pos hroom, hbytes, hvalid, encodeText, List.length_append, List.length_singleton,
    Nat.add_assoc]

namespace EmsgBox

/-- A time in 8 bytes, or a delta in 4. -/
def TimesFit (b : EmsgBox) : Prop :=
  (b.version = 0 ∧ b.presentationTime = none
      ∧ ∃ delta < 2 ^ 32, b.presentationTimeDelta = some delta)
    ∨ (b.version = 1 ∧ b.presentationTimeDelta = none
      ∧ ∃ time < 2 ^ 64, b.presentationTime = some time)

structure Fits (b : EmsgBox) : Prop where
  times : b.TimesFit
  flags : b.flags < 2 ^ 24
  timescale : b.timescale < 2 ^ 32
  eventDuration : b.eventDuration < 2 ^ 32
  id : b.id < 2 ^ 32
  schemeIdUri : TextFits b.schemeIdUri
  value : TextFits b.value

def encodeHead (b : EmsgBox) : List UInt8 :=
  if b.version = 0 then
    encodeText b.schemeIdUri ++ (encodeText b.value ++ (encode 4 b.timescale
      ++ (encode 4 (b.presentationTimeDelta.getD 0) ++ (encode 4 b.eventDuration
      ++ (encode 4 b.id ++ [])))))
  else
    encode 4 b.timescale ++ (encode 8 (b.presentationTime.getD 0) ++ (encode 4 b.eventDuration
      ++ (encode 4 b.id ++ (encodeText b.schemeIdUri ++ (encodeText b.value ++ [])))))

def encodeFields (b : EmsgBox) : List UInt8 :=
  encodeExt b.version b.flags ++ (b.encodeHead ++ (b.messageData ++ []))

theorem length_encodeHead (b : EmsgBox) :
    b.encodeHead.length = timeSize b.version + 4 + (b.schemeIdUri.utf8ByteSize + 1)
      + (b.value.utf8ByteSize + 1) := by
  unfold encodeHead timeSize
  split_ifs
  · simp only [List.length_append, length_encodeText, length_encode, List.length_nil]
    omega
  · simp only [List.length_append, length_encodeText, length_encode, List.length_nil]
    omega

theorem takes_readHead {b : EmsgBox} (h : b.Fits) :
    Takes 0 (readHead b.version b.flags) b.encodeHead { b with messageData := [] } := by
  -- version 0 has its texts first, version 1 last
  obtain ⟨hversion, htime, delta, hdelta, hsome⟩ | ⟨hversion, hnone, time, htime, hsome⟩ := h.times
  · rw [encodeHead, if_pos hversion, hsome, Option.getD_some]
    refine Takes.of_eq ?_ fun file => if_pos hversion
    refine (takes_readText h.schemeIdUri).bind ?_
    refine (takes_readText h.value).bind_zero ?_
    refine (takes_readU32 h.timescale).bind_zero ?_
    refine (takes_readU32 hdelta).bind_zero ?_
    refine (takes_readU32 h.eventDuration).bind_zero ?_
    refine (takes_readU32 h.id).bind_zero ?_
    rw [htime]
    exact Takes.pure _ _
  · have hlong : ¬ b.version = 0 := by omega
    rw [encodeHead, if_neg hlong, hsome, Option.getD_some]
    refine Takes.of_eq ?_ fun file => (if_neg hlong).trans (if_pos hversion)
    refine (takes_readU32 h.timescale).bind ?_
    refine (takes_readU64 htime).bind_zero ?_
    refine (takes_readU32 h.eventDuration).bind_zero ?_
    refine (takes_readU32 h.id).bind_zero ?_
    refine (takes_readText h.schemeIdUri).bind_zero ?_
    refine (takes_readText h.value).bind_zero ?_
    rw [hnone]
    exact Takes.pure _ _

theorem takes {b : EmsgBox} (h : b.Fits) :
    Takes 8 (readEmsg (8 + b.encodeFields.length)) b.encodeFields b := by
  have hversion : b.version < 2 ^ 8 := by
    obtain ⟨hversion, -⟩ | ⟨hversion, -⟩ := h.times <;> omega
  -- the message is what is left of the box
  have hlength : 8 + b.encodeFields.length
      = ({ b with messageData := [] } : EmsgBox).sizeWithoutMessage + b.messageData.length := by
    simp only [encodeFields, encodeExt, sizeWithoutMessage, List.length_append, length_encode,
      length_encodeHead, List.length_nil]
    omega
  rw [← List.append_nil b.encodeFields]
  generalize hsize : 8 + (b.encodeFields ++ []).length = size
  refine takes_readBox ?_ hsize.symm
  rw [List.append_nil, hlength] at hsize
  refine (takes_readBoxHeaderExt hversion h.flags).bind ?_
  refine (takes_readHead h).bind_zero ?_
  have hroom : ¬ size < ({ b with messageData := [] } : EmsgBox).sizeWithoutMessage := by omega
  refine Takes.of_eq ?_ fun file => if_neg hroom
  have hmessage : b.messageData.length
      = size - ({ b with messageData := [] } : EmsgBox).sizeWithoutMessage := by omega
  exact (takes_readExact hmessage).bind_zero (Takes.pure _ _)

end EmsgBox

/-! ### Rows of boxes -/

/-- A round, once the header is read. -/
theorem rowBody_eq {φ : Type} {text : String} {child : φ → BoxHeader → LoopReader φ}
    {file : List UInt8} {size pos pos' : ℕ} {header : BoxHeader}
    (hheader : (BoxHeader.read file).run pos = .ok (header, pos')) (hsize : header.size ≤ size)
    (fields : φ) :
    rowBody text child file size (fields, pos) = (child fields header file).run pos' := by
  have hloop : (BoxReader.loop BoxHeader.read file).run pos = .ok (header, pos') := by
    show ((BoxHeader.read file).run pos).mapError some = _
    rw [hheader]
    rfl
  show ((BoxReader.loop BoxHeader.read file >>= fun header => _) : StateT ℕ _ _).run pos = _
  rw [StateT.run_bind, hloop]
  show (if size < header.size then _ else _ : StateT ℕ _ _).run pos' = _
  rw [if_neg (not_lt.2 hsize)]

/-- A box in a row, with what becomes of the fields; it can depend on where the contents start. -/
structure BoxIn (φ : Type) where
  name : BoxType
  large : Bool
  contents : List UInt8
  put : ℕ → φ → φ

namespace BoxIn

variable {φ α : Type}

def header (b : BoxIn φ) : List UInt8 := encodeHeader b.large b.name b.contents.length

def encode (b : BoxIn φ) : List UInt8 := b.header ++ b.contents

structure Readable (child : φ → BoxHeader → LoopReader φ) (b : BoxIn φ) : Prop where
  name : b.name.Proper
  size : SizeFits b.large b.contents.length
  read : ∀ fields front back, 8 ≤ front.length →
    (child fields { name := b.name, size := 8 + b.contents.length }
      (front ++ (b.contents ++ back))).run front.length
      = .ok (b.put front.length fields, front.length + b.contents.length)

theorem Readable.of_takes {child : φ → BoxHeader → LoopReader φ} {b : BoxIn φ}
    (hname : b.name.Proper) (hsize : SizeFits b.large b.contents.length) {put : φ → φ}
    (hput : b.put = fun _ => put)
    (h : ∀ fields, Takes 8 (child fields { name := b.name, size := 8 + b.contents.length })
      b.contents (put fields)) : b.Readable child where
  name := hname
  size := hsize
  read fields front back hfront := by
    rw [hput]
    exact h fields front back hfront

/-- The fields after these boxes, the first of which starts at `pos`. -/
def putAll (pos : ℕ) : List (BoxIn φ) → φ → φ
  | [], fields => fields
  | b :: boxes, fields =>
    putAll (pos + b.encode.length) boxes (b.put (pos + b.header.length) fields)

theorem length_encode (b : BoxIn φ) : b.encode.length = b.header.length + b.contents.length :=
  List.length_append

theorem le_length_header (b : BoxIn φ) : 8 ≤ b.header.length := StblChild.length_encodeHeader ..

section Loop

variable {child : φ → BoxHeader → LoopReader φ} {size stop : ℕ}

theorem round_eq (text : String) {b : BoxIn φ} (h : b.Readable child)
    (hsize : 8 + b.contents.length ≤ size) (fields : φ) (front back : List UInt8) :
    rowBody text child (front ++ (b.encode ++ back)) size (fields, front.length)
      = .ok (b.put (front.length + b.header.length) fields, front.length + b.encode.length) := by
  have hheader := takes_header h.name h.size front (b.contents ++ back) (Nat.zero_le _)
  have hchild := h.read fields (front ++ b.header) back (by
    rw [List.length_append]
    have := b.le_length_header
    omega)
  rw [List.append_assoc, List.length_append] at hchild
  rw [encode, List.append_assoc, List.length_append, ← Nat.add_assoc]
  exact (rowBody_eq hheader hsize fields).trans hchild

/-- The loop goes through the boxes of a row, as long as nothing but the end of the row stops it. -/
theorem rowLoop_eq (text : String) (fuel : ℕ) {cond : φ × ℕ → Bool} {I : φ → Prop}
    (hcond : ∀ fields pos, I fields → cond (fields, pos) = decide (pos < stop))
    {boxes : List (BoxIn φ)} (hread : ∀ b ∈ boxes, b.Readable child)
    (hsize : ∀ b ∈ boxes, 8 + b.contents.length ≤ size)
    (hkeep : ∀ b ∈ boxes, ∀ pos fields, I fields → I (b.put pos fields)) {fields : φ}
    (hI : I fields) (front back : List UInt8)
    (hstop : front.length + (boxes.flatMap encode).length ≤ stop) :
    While.run cond (rowBody text child (front ++ (boxes.flatMap encode ++ back)) size)
          (boxes.length + fuel) (fields, front.length)
        = While.run cond (rowBody text child (front ++ (boxes.flatMap encode ++ back)) size) fuel
          (putAll front.length boxes fields, front.length + (boxes.flatMap encode).length)
      ∧ I (putAll front.length boxes fields) := by
  induction boxes generalizing fields front with
  | nil =>
    rw [List.length_nil, Nat.zero_add, List.flatMap_nil, List.length_nil, Nat.add_zero]
    exact ⟨rfl, hI⟩
  | cons b boxes ih =>
    have hfirst : b ∈ b :: boxes := List.mem_cons_self ..
    -- the first box, read in one round
    have hmem : ∀ b' ∈ boxes, b' ∈ b :: boxes := fun b' hb' => List.mem_cons_of_mem b hb'
    have hround := round_eq text (hread b hfirst) (hsize b hfirst) fields front
      (boxes.flatMap encode ++ back)
    have hlength := b.length_encode
    -- the loop goes on in front of it
    have hheader := b.le_length_header
    rw [List.flatMap_cons, List.length_append] at hstop
    have hgo : cond (fields, front.length) = true :=
      (hcond _ _ hI).trans (decide_eq_true (by omega))
    have hpos : front.length + b.encode.length = (front ++ b.encode).length :=
      List.length_append.symm
    -- the boxes behind it
    have hrest := ih (fun b' hb' => hread b' (hmem b' hb')) (fun b' hb' => hsize b' (hmem b' hb'))
      (fun b' hb' => hkeep b' (hmem b' hb'))
      (hkeep b hfirst (front.length + b.header.length) fields hI) (front ++ b.encode)
      (by rw [List.length_append]; omega)
    rw [List.length_cons, Nat.add_right_comm, List.flatMap_cons, List.append_assoc,
      While.run_of_ok hgo hround, ← List.append_assoc, putAll, List.length_append, ← Nat.add_assoc,
      hpos]
    exact hrest

theorem contents_le {boxes : List (BoxIn φ)} {b : BoxIn φ} (hb : b ∈ boxes) :
    8 + b.contents.length ≤ (boxes.flatMap encode).length := by
  have hheader := b.le_length_header
  have hlength := b.length_encode
  have hle : b.encode.length ≤ (boxes.flatMap encode).length :=
    (List.sublist_flatten_of_mem (List.mem_map_of_mem hb)).length_le
  omega

theorem length_le (boxes : List (BoxIn φ)) : boxes.length ≤ (boxes.flatMap encode).length := by
  induction boxes with
  | nil => exact Nat.zero_le _
  | cons b boxes ih =>
    have hheader := b.le_length_header
    have hlength := b.length_encode
    rw [List.flatMap_cons, List.length_append, List.length_cons]
    omega

/-- **Reading a row of boxes.** -/
theorem readRowBox_eq {text : String} {fuel : ℕ} {boxes : List (BoxIn φ)}
    (hread : ∀ b ∈ boxes, b.Readable child) (hfuel : (boxes.flatMap encode).length < fuel)
    (fields : φ) (finish : ℕ → φ → Except BoxError α) {front : List UInt8}
    (hfront : 8 ≤ front.length) (back : List UInt8) :
    (readRowBox text child fields finish fuel (8 + (boxes.flatMap encode).length)
        (front ++ (boxes.flatMap encode ++ back))).run front.length
      = ((finish (front.length - 8) (putAll front.length boxes fields)).map
        (·, front.length + (boxes.flatMap encode).length)).mapError some := by
  -- the end that the loop compares with
  have hstop : front.length - 8 + (8 + (boxes.flatMap encode).length)
      = front.length + (boxes.flatMap encode).length := by omega
  have hlength := length_le boxes
  -- a round for each box, and one to stop
  obtain ⟨rest, rfl⟩ := Nat.exists_eq_add_of_le (show boxes.length + 1 ≤ fuel by omega)
  have hcond : ∀ (fields : φ) (pos : ℕ), True →
      rowCond (front.length + (boxes.flatMap encode).length) (fields, pos)
        = decide (pos < front.length + (boxes.flatMap encode).length) := fun _ _ _ => rfl
  obtain ⟨hloop, -⟩ := rowLoop_eq text (1 + rest) hcond hread
    (fun b hb => (contents_le hb).trans (Nat.le_add_left _ 8))
    (fun _ _ _ _ _ => trivial) trivial front back le_rfl
  -- it stops behind the last
  have hdone : rowCond (front.length + (boxes.flatMap encode).length)
      (putAll front.length boxes fields, front.length + (boxes.flatMap encode).length) = false :=
    decide_eq_false (lt_irrefl _)
  show readRowBox text child fields finish _ _ _ front.length = _
  unfold readRowBox
  dsimp only
  rw [hstop, Nat.add_assoc, hloop, Nat.add_comm 1 rest, While.run_of_not hdone]

end Loop

/-- Where the places of boxes do not matter. -/
theorem putAll_of_const {γ : Type} {box : γ → BoxIn φ} {put : γ → φ → φ}
    (h : ∀ c, (box c).put = fun _ => put c) (pos : ℕ) (cs : List γ) (fields : φ) :
    putAll pos (cs.map box) fields = cs.foldl (fun fields c => put c fields) fields := by
  induction cs generalizing pos fields with
  | nil => rfl
  | cons c cs ih =>
    rw [List.map_cons, putAll, ih, h, List.foldl_cons]

end BoxIn

end ReMp4

end NoshareCover
