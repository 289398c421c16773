import NoshareCover.Core.Spec.Moof

/-!
# Reading a fragmented file

The tracks of a file are made from what is found in its boxes, wherever they stand, and each `moof`
box has the position of its first byte.
-/

namespace NoshareCover

namespace ReMp4

open Reader BigEndian

/-- A box type that has no name of its own. -/
theorem proper_other {t : ℕ} (ht : t < 2 ^ 32) (hname : .ofU32 t = BoxType.other t) :
    (BoxType.other t).Proper := ⟨ht, hname⟩

/-! ### `traf` -/

/-- What can be in `traf`. -/
inductive TrafPart where
  /-- `description` is `sample_description_index`. -/
  | tfhd (version : ℕ) (description : Option ℕ) (b : TfhdBox)
  | tfdt (long : Bool) (flags time : ℕ)
  | trun (version : ℕ) (b : TrunBox)
  | other (name : BoxType) (contents : List UInt8)

namespace TrafPart

def name : TrafPart → BoxType
  | tfhd _ _ _ => .tfhd
  | tfdt _ _ _ => .tfdt
  | trun _ _ => .trun
  | other name _ => name

def contents (pad : List UInt8) : TrafPart → List UInt8
  | tfhd version description b => b.encodeFields version description ++ pad
  | tfdt long flags time => encodeTfdt long flags time ++ pad
  | trun version b => b.encodeFields version ++ pad
  | other _ contents => contents

/-- The last `tfhd` and the last `tfdt` count, and every `trun`. -/
def put (fields : TrafFields) : TrafPart → TrafFields
  | tfhd _ _ b => { fields with tfhd := some b }
  | tfdt _ _ time => { fields with tfdt := some time }
  | trun _ b => { fields with truns := fields.truns ++ [b] }
  | other _ _ => fields

def Fits : TrafPart → Prop
  | tfhd version description b => version < 2 ^ 8 ∧ b.Fits description
  | tfdt long flags time => TfdtFits long flags time
  | trun version b => version < 2 ^ 8 ∧ b.Fits
  | other name _ => name.Proper ∧ name ≠ .tfhd ∧ name ≠ .tfdt ∧ name ≠ .trun

theorem proper_name {part : TrafPart} (h : part.Fits) : part.name.Proper := by
  cases part with
  | other name contents => exact h.1
  | _ => exact proper_other (by norm_num) rfl

theorem readChild_other {name : BoxType} (h : name ≠ .tfhd ∧ name ≠ .tfdt ∧ name ≠ .trun)
    (fields : TrafFields) (size : ℕ) :
    fields.readChild { name, size }
      = BoxReader.loop fun _ => (fun _ => fields) <$> skipBox size := by
  obtain ⟨htfhd, htfdt, htrun⟩ := h
  unfold TrafFields.readChild
  funext file
  dsimp only [BoxReader.loop]
  split
  · exact absurd rfl htfhd
  · exact absurd rfl htfdt
  · exact absurd rfl htrun
  · rfl

theorem takes_readChild {part : TrafPart} (h : part.Fits) (pad : List UInt8) (fields : TrafFields) :
    Takes 8 (fields.readChild { name := part.name, size := 8 + (part.contents pad).length })
      (part.contents pad) (part.put fields) := by
  cases part with
  | tfhd version description b =>
    exact takes_loop (Takes.map _ (takes_readBox (TfhdBox.takes h.1 h.2) rfl))
  | tfdt long flags time =>
    exact takes_loop (Takes.map _ (takes_readBox (takes_readTfdtFields h) rfl))
  | trun version b => exact takes_loop (Takes.map _ (TrunBox.takes h.1 h.2))
  | other name contents =>
    rw [TrafPart.name, readChild_other h.2]
    exact takes_loop (Takes.map _ (StblPart.takes_skipBox contents))

end TrafPart

/-- A box in `traf`: the form of its header, and the bytes behind what is read of it. -/
structure TrafChild where
  part : TrafPart
  large : Bool
  pad : List UInt8

namespace TrafChild

def box (c : TrafChild) : BoxIn TrafFields where
  name := c.part.name
  large := c.large
  contents := c.part.contents c.pad
  put := fun _ fields => c.part.put fields

structure Fits (c : TrafChild) : Prop where
  part : c.part.Fits
  size : SizeFits c.large (c.part.contents c.pad).length

theorem Fits.readable {c : TrafChild} (h : c.Fits) : c.box.Readable TrafFields.readChild :=
  .of_takes (TrafPart.proper_name h.part) h.size rfl (TrafPart.takes_readChild h.part c.pad)

end TrafChild

def encodeTraf (children : List TrafChild) : List UInt8 :=
  (children.map TrafChild.box).flatMap BoxIn.encode

/-- What is found in these boxes. -/
def trafOf (children : List TrafChild) : Except BoxError TrafBox :=
  (children.foldl (fun fields c => c.part.put fields) TrafFields.empty).finish

theorem takes_readTraf {children : List TrafChild} (hfits : ∀ c ∈ children, c.Fits) {fuel : ℕ}
    (hfuel : (encodeTraf children).length < fuel) {b : TrafBox} (hb : trafOf children = .ok b) :
    Takes 8 (readTraf fuel (8 + (encodeTraf children).length)) (encodeTraf children) b := by
  intro front back hfront
  have hread : ∀ c ∈ children.map TrafChild.box, c.Readable TrafFields.readChild :=
    List.forall_mem_map.2 fun c hc => (hfits c hc).readable
  refine (BoxIn.readRowBox_eq hread hfuel .empty _ hfront back).trans ?_
  rw [BoxIn.putAll_of_const (fun c => rfl), show TrafFields.finish _ = .ok b from hb]
  rfl

/-! ### `moof` -/

/-- What can be in `moof`. -/
inductive MoofPart where
  | mfhd (version flags sequenceNumber : ℕ) (pad : List UInt8)
  /-- `b` is what is found in the boxes of `traf`. -/
  | traf (children : List TrafChild) (b : TrafBox)
  | other (name : BoxType) (contents : List UInt8)

namespace MoofPart

def name : MoofPart → BoxType
  | mfhd _ _ _ _ => .mfhd
  | traf _ _ => .traf
  | other name _ => name

def contents : MoofPart → List UInt8
  | mfhd version flags sequenceNumber pad =>
    encodeExt version flags ++ encode 4 sequenceNumber ++ pad
  | traf children _ => encodeTraf children
  | other _ contents => contents

def put (fields : MoofFields) : MoofPart → MoofFields
  | mfhd _ _ _ _ => { fields with mfhd := true }
  | traf _ b => { fields with trafs := fields.trafs ++ [b] }
  | other _ _ => fields

def Fits : MoofPart → Prop
  | mfhd version flags sequenceNumber _ =>
    version < 2 ^ 8 ∧ flags < 2 ^ 24 ∧ sequenceNumber < 2 ^ 32
  | traf children b => (∀ c ∈ children, c.Fits) ∧ trafOf children = .ok b
  | other name _ => name.Proper ∧ name ≠ .mfhd ∧ name ≠ .traf

def isMfhd : MoofPart → Bool
  | mfhd _ _ _ _ => true
  | _ => false

def traf? : MoofPart → Option TrafBox
  | traf _ b => some b
  | _ => none

theorem proper_name {part : MoofPart} (h : part.Fits) : part.name.Proper := by
  cases part with
  | other name contents => exact h.1
  | _ => exact proper_other (by norm_num) rfl

theorem readChild_other {name : BoxType} (h : name ≠ .mfhd ∧ name ≠ .traf) (fuel : ℕ)
    (fields : MoofFields) (size : ℕ) :
    fields.readChild fuel { name, size }
      = fun file => (fun _ => fields) <$> BoxReader.loop (fun _ => skipBox size) file := by
  obtain ⟨hmfhd, htraf⟩ := h
  unfold MoofFields.readChild
  funext file
  dsimp only
  split
  · exact absurd rfl hmfhd
  · exact absurd rfl htraf
  · rfl

theorem takes_readMfhdFields {version flags sequenceNumber : ℕ}
    (h : version < 2 ^ 8 ∧ flags < 2 ^ 24 ∧ sequenceNumber < 2 ^ 32) :
    Takes 0 readMfhdFields (encodeExt version flags ++ encode 4 sequenceNumber) () := by
  obtain ⟨hversion, hflags, hnumber⟩ := h
  refine (takes_readBoxHeaderExt hversion hflags).bind ?_
  rw [← List.append_nil (encode 4 sequenceNumber)]
  exact (takes_readU32 hnumber).bind_zero (Takes.pure _ _)

theorem takes_readChild {part : MoofPart} (h : part.Fits) {fuel : ℕ}
    (hfuel : part.contents.length < fuel) (fields : MoofFields) :
    Takes 8 (fields.readChild fuel { name := part.name, size := 8 + part.contents.length })
      part.contents (part.put fields) := by
  cases part with
  | mfhd version flags sequenceNumber pad =>
    exact Takes.map _ (takes_loop (takes_readBox (takes_readMfhdFields h) rfl))
  | traf children b => exact Takes.map _ (takes_readTraf h.1 hfuel h.2)
  | other name contents =>
    rw [MoofPart.name, readChild_other h.2]
    exact Takes.map _ (takes_loop (StblPart.takes_skipBox contents))

end MoofPart

structure MoofChild where
  part : MoofPart
  large : Bool

namespace MoofChild

def box (c : MoofChild) : BoxIn MoofFields where
  name := c.part.name
  large := c.large
  contents := c.part.contents
  put := fun _ fields => c.part.put fields

structure Fits (c : MoofChild) : Prop where
  part : c.part.Fits
  size : SizeFits c.large c.part.contents.length

theorem Fits.readable {c : MoofChild} (h : c.Fits) {fuel : ℕ}
    (hfuel : c.part.contents.length < fuel) : c.box.Readable (MoofFields.readChild fuel) :=
  .of_takes (MoofPart.proper_name h.part) h.size rfl (MoofPart.takes_readChild h.part hfuel)

end MoofChild

def encodeMoof (children : List MoofChild) : List UInt8 :=
  (children.map MoofChild.box).flatMap BoxIn.encode

def trafsOf (children : List MoofChild) : List TrafBox :=
  children.filterMap fun c => c.part.traf?

theorem foldl_put (children : List MoofChild) (fields : MoofFields) :
    children.foldl (fun fields c => c.part.put fields) fields
      = { mfhd := fields.mfhd || children.any fun c => c.part.isMfhd
          trafs := fields.trafs ++ trafsOf children } := by
  induction children generalizing fields with
  | nil =>
    rw [List.foldl_nil, List.any_nil, Bool.or_false, trafsOf, List.filterMap_nil, List.append_nil]
  | cons c children ih =>
    rw [List.foldl_cons, ih, List.any_cons, ← Bool.or_assoc]
    unfold trafsOf
    -- only `traf` adds a fragment, only `mfhd` sets its flag
    cases hpart : c.part with
    | mfhd version flags sequenceNumber pad =>
      rw [List.filterMap_cons_none (by rw [hpart]; rfl)]
      simp [MoofPart.put, MoofPart.isMfhd]
    | traf trafChildren b =>
      rw [List.filterMap_cons_some (by rw [hpart]; rfl)]
      simp [MoofPart.put, MoofPart.isMfhd]
    | other name contents =>
      rw [List.filterMap_cons_none (by rw [hpart]; rfl)]
      simp [MoofPart.put, MoofPart.isMfhd]

theorem readMoof_eq {children : List MoofChild} (hfits : ∀ c ∈ children, c.Fits)
    (hmfhd : (children.any fun c => c.part.isMfhd) = true) {fuel : ℕ}
    (hfuel : (encodeMoof children).length < fuel) {front : List UInt8} (hfront : 8 ≤ front.length)
    (back : List UInt8) :
    (readMoof fuel (8 + (encodeMoof children).length)
        (front ++ (encodeMoof children ++ back))).run front.length
      = .ok ({ start := front.length - 8, trafs := trafsOf children },
        front.length + (encodeMoof children).length) := by
  -- each child is readable with the fuel of the whole
  have hread : ∀ c ∈ children.map MoofChild.box, c.Readable (MoofFields.readChild fuel) :=
    List.forall_mem_map.2 fun c hc => (hfits c hc).readable (by
      have hle := BoxIn.contents_le (List.mem_map_of_mem (f := MoofChild.box) hc)
      show c.box.contents.length < fuel
      rw [encodeMoof] at hfuel
      omega)
  refine (BoxIn.readRowBox_eq hread hfuel .empty _ hfront back).trans ?_
  rw [BoxIn.putAll_of_const (fun c => rfl), foldl_put, MoofFields.finish, hmfhd]
  rfl

/-! ### The file -/

/-- What can be in a file. -/
inductive FilePart where
  | ftyp (b : FtypBox)
  /-- `b` is what is read from the contents. -/
  | moov (contents : List UInt8) (b : MoovBox)
  | moof (children : List MoofChild)
  | emsg (b : EmsgBox)
  | other (name : BoxType) (contents : List UInt8)

namespace FilePart

def name : FilePart → BoxType
  | ftyp _ => .ftyp
  | moov _ _ => .moov
  | moof _ => .moof
  | emsg _ => .emsg
  | other name _ => name

def contents : FilePart → List UInt8
  | ftyp b => b.encodeFields
  | moov contents _ => contents
  | moof children => encodeMoof children
  | emsg b => b.encodeFields
  | other _ contents => contents

/-- The contents start at `pos`, 8 bytes behind what counts as the start of the box. -/
def put (pos : ℕ) (fields : FileFields) : FilePart → FileFields
  | ftyp b => { fields with ftyp := some b }
  | moov _ b => { fields with moov := some b }
  | moof children =>
    { fields with moofs := fields.moofs ++ [{ start := pos - 8, trafs := trafsOf children }] }
  | emsg b => { fields with emsgs := fields.emsgs ++ [b] }
  | other _ _ => fields

def Fits (readMoov : ℕ → LoopReader MoovBox) : FilePart → Prop
  | ftyp b => b.Fits
  | moov contents b => Takes 8 (readMoov (8 + contents.length)) contents b
  | moof children => (∀ c ∈ children, c.Fits) ∧ (children.any fun c => c.part.isMfhd) = true
  | emsg b => b.Fits
  | other name _ =>
    name.Proper ∧ name ≠ .ftyp ∧ name ≠ .moov ∧ name ≠ .moof ∧ name ≠ .emsg

def ftyp? : FilePart → Option FtypBox
  | ftyp b => some b
  | _ => none

def moov? : FilePart → Option MoovBox
  | moov _ b => some b
  | _ => none

/-- The `moof` box whose contents start at `pos`. -/
def moof? (pos : ℕ) : FilePart → Option MoofBox
  | moof children => some { start := pos - 8, trafs := trafsOf children }
  | _ => none

def emsg? : FilePart → Option EmsgBox
  | emsg b => some b
  | _ => none

variable {readMoov : ℕ → LoopReader MoovBox} {fuel : ℕ}

theorem proper_name {part : FilePart} (h : part.Fits readMoov) : part.name.Proper := by
  cases part with
  | other name contents => exact h.1
  | _ => exact proper_other (by norm_num) rfl

theorem readChild_other {name : BoxType}
    (h : name ≠ .ftyp ∧ name ≠ .moov ∧ name ≠ .moof ∧ name ≠ .emsg) (fields : FileFields)
    (length : ℕ) :
    fields.readChild readMoov fuel { name, size := 8 + length }
      = fun file => (fun _ => fields) <$> BoxReader.loop (fun _ => skipBox (8 + length)) file := by
  obtain ⟨hftyp, hmoov, hmoof, hemsg⟩ := h
  have hpos : ¬ 8 + length = 0 := by omega
  unfold FileFields.readChild
  funext file
  dsimp only
  rw [if_neg hpos]
  -- the other types are skipped
  split
  · exact absurd rfl hftyp
  · rfl
  · rfl
  · exact absurd rfl hmoov
  · exact absurd rfl hmoof
  · exact absurd rfl hemsg
  · rfl

/-- Reading the contents of one box of the file. -/
theorem readChild_eq {part : FilePart} (h : part.Fits readMoov)
    (hfuel : part.contents.length < fuel) (fields : FileFields) (front back : List UInt8)
    (hfront : 8 ≤ front.length) :
    (fields.readChild readMoov fuel { name := part.name, size := 8 + part.contents.length }
        (front ++ (part.contents ++ back))).run front.length
      = .ok (part.put front.length fields, front.length + part.contents.length) := by
  have hpos : ¬ 8 + part.contents.length = 0 := by omega
  cases part with
  | ftyp b =>
    exact ((Takes.map _ (takes_loop (FtypBox.takes h))).of_eq fun file => if_neg hpos)
      front back hfront
  | moov contents b =>
    exact ((Takes.map _ h).of_eq fun file => if_neg hpos) front back hfront
  | moof children =>
    -- where the box starts depends on the position, so `Takes` does not say it
    have hread := readMoof_eq h.1 h.2 hfuel hfront back
    show (if 8 + (moof children).contents.length = 0 then _ else _ : StateT ℕ _ _).run _ = _
    rw [if_neg hpos]
    show ((fun b => _) <$> readMoof fuel (8 + (encodeMoof children).length) _).run _ = _
    rw [StateT.run_map]
    exact congrArg (fun x => _ <$> x) hread
  | emsg b =>
    exact ((Takes.map _ (takes_loop (EmsgBox.takes h))).of_eq fun file => if_neg hpos)
      front back hfront
  | other name contents =>
    rw [FilePart.name, readChild_other h.2]
    exact Takes.map _ (takes_loop (StblPart.takes_skipBox contents)) front back hfront

/-- Only a box of size 0 stops the loop. -/
theorem stopped_put (part : FilePart) (pos : ℕ) (fields : FileFields) :
    (part.put pos fields).stopped = fields.stopped := by
  cases part <;> rfl

end FilePart

structure FileChild where
  part : FilePart
  large : Bool

namespace FileChild

def box (c : FileChild) : BoxIn FileFields where
  name := c.part.name
  large := c.large
  contents := c.part.contents
  put := fun pos fields => c.part.put pos fields

structure Fits (readMoov : ℕ → LoopReader MoovBox) (c : FileChild) : Prop where
  part : c.part.Fits readMoov
  size : SizeFits c.large c.part.contents.length

theorem Fits.readable {readMoov : ℕ → LoopReader MoovBox} {c : FileChild} (h : c.Fits readMoov)
    {fuel : ℕ} (hfuel : c.part.contents.length < fuel) :
    c.box.Readable (FileFields.readChild readMoov fuel) where
  name := FilePart.proper_name h.part
  size := h.size
  read fields front back hfront := FilePart.readChild_eq h.part hfuel fields front back hfront

end FileChild

def encodeFile (children : List FileChild) : List UInt8 :=
  (children.map FileChild.box).flatMap BoxIn.encode

/-- The `moof` boxes of a row of boxes that starts at `pos`. -/
def placedMoofs (pos : ℕ) : List FileChild → List MoofBox
  | [] => []
  | c :: children =>
    (c.part.moof? (pos + c.box.header.length)).toList
      ++ placedMoofs (pos + c.box.encode.length) children

def emsgsOf (children : List FileChild) : List EmsgBox :=
  children.filterMap fun c => c.part.emsg?

/-- The last box of a kind. -/
def lastOf {α : Type} (kind : FilePart → Option α) (children : List FileChild) : Option α :=
  (children.filterMap fun c => kind c.part).getLast?

theorem lastOf_cons {α : Type} (kind : FilePart → Option α) (c : FileChild)
    (children : List FileChild) :
    lastOf kind (c :: children) = (lastOf kind children).or (kind c.part) := by
  unfold lastOf
  cases hkind : kind c.part with
  | none => rw [List.filterMap_cons, hkind, Option.or_none]
  | some b =>
    rw [List.filterMap_cons, hkind, List.getLast?_cons]
    cases (children.filterMap fun c => kind c.part).getLast? <;> rfl

theorem emsgsOf_cons (c : FileChild) (children : List FileChild) :
    emsgsOf (c :: children) = c.part.emsg?.toList ++ emsgsOf children := by
  unfold emsgsOf
  rw [List.filterMap_cons]
  cases c.part.emsg? <;> rfl

/-- **What is found in the boxes of a file.** -/
theorem putAll_eq (children : List FileChild) (pos : ℕ) (fields : FileFields) :
    BoxIn.putAll pos (children.map FileChild.box) fields
      = { ftyp := (lastOf FilePart.ftyp? children).or fields.ftyp
          moov := (lastOf FilePart.moov? children).or fields.moov
          moofs := fields.moofs ++ placedMoofs pos children
          emsgs := fields.emsgs ++ emsgsOf children
          stopped := fields.stopped } := by
  induction children generalizing pos fields with
  | nil =>
    rw [placedMoofs, List.append_nil, show emsgsOf [] = [] from rfl, List.append_nil]
    rfl
  | cons c children ih =>
    -- what one box adds
    have hput : c.box.put (pos + c.box.header.length) fields
        = { ftyp := c.part.ftyp?.or fields.ftyp
            moov := c.part.moov?.or fields.moov
            moofs := fields.moofs ++ (c.part.moof? (pos + c.box.header.length)).toList
            emsgs := fields.emsgs ++ c.part.emsg?.toList
            stopped := fields.stopped } := by
      show c.part.put _ fields = _
      generalize pos + c.box.header.length = start
      cases c.part <;>
        simp [FilePart.put, FilePart.ftyp?, FilePart.moov?, FilePart.moof?, FilePart.emsg?]
    rw [List.map_cons, BoxIn.putAll, ih, hput, placedMoofs, lastOf_cons, lastOf_cons, emsgsOf_cons,
      Option.or_assoc, Option.or_assoc, ← List.append_assoc, ← List.append_assoc]

/-! ### A box of size 0 -/

/-- A box of size 0, in either form, and what follows it. -/
structure LastBox where
  name : BoxType
  large : Bool
  rest : List UInt8

def LastBox.header (b : LastBox) : List UInt8 :=
  if b.large then encode 4 1 ++ (encode 4 b.name.toU32 ++ encode 8 0)
  else encode 4 0 ++ encode 4 b.name.toU32

theorem LastBox.le_length_header (b : LastBox) : 8 ≤ b.header.length := by
  unfold LastBox.header
  split_ifs
  · simp
  · simp

def LastBox.encode (b : LastBox) : List UInt8 := b.header ++ b.rest

theorem LastBox.takes_header {b : LastBox} (hname : b.name.Proper) :
    Takes 0 BoxHeader.read b.header { name := b.name, size := 0 } := by
  unfold LastBox.header
  -- the size is 0, in four bytes or in eight
  cases b.large with
  | false =>
    rw [if_neg Bool.false_ne_true]
    refine (takes_readU32 (n := 0) (by norm_num)).bind ?_
    rw [← List.append_nil (BigEndian.encode 4 b.name.toU32)]
    refine (takes_readU32 hname.1).bind_zero ?_
    refine (Takes.pure _ _).of_eq fun file => ?_
    rw [if_neg Nat.zero_ne_one, hname.2]
  | true =>
    rw [if_pos rfl]
    refine (takes_readU32 (n := 1) (by norm_num)).bind ?_
    refine (takes_readU32 hname.1).bind_zero ?_
    refine Takes.of_eq ?_ fun file => if_pos rfl
    rw [← List.append_nil (BigEndian.encode 8 0)]
    refine (takes_readU64 (n := 0) (by norm_num)).bind_zero ?_
    refine (Takes.pure _ _).of_eq fun file => ?_
    rw [if_pos rfl, hname.2]

def encodeLast (last : Option LastBox) : List UInt8 := last.elim [] LastBox.encode

theorem fileBody_last {readMoov : ℕ → LoopReader MoovBox} {fuel : ℕ} {b : LastBox}
    (hname : b.name.Proper) (front : List UInt8) (fields : FileFields) :
    fileBody readMoov fuel (front ++ b.encode) (fields, front.length)
      = .ok ({ fields with stopped := true }, front.length + b.header.length) := by
  have hheader := LastBox.takes_header hname front b.rest (Nat.zero_le _)
  refine (rowBody_eq hheader (Nat.zero_le _) fields).trans ?_
  have hchild : FileFields.readChild readMoov fuel fields { name := b.name, size := 0 }
      = fun _ => pure { fields with stopped := true } := by
    funext file
    exact if_pos rfl
  rw [hchild]
  rfl

section File

variable {readMoov : ℕ → LoopReader MoovBox} {fuel : ℕ} {children : List FileChild}
  {last : Option LastBox}

/-- The loop goes through the boxes and then a box of size 0 stops it, or the end of the file. -/
theorem fileLoop_eq (hfits : ∀ c ∈ children, c.Fits readMoov) (hlast : ∀ b ∈ last, b.name.Proper)
    (hfuel : (encodeFile children ++ encodeLast last).length < fuel) {n : ℕ}
    (hn : (encodeFile children ++ encodeLast last).length < n) :
    ∃ pos, While.run (fileCond (encodeFile children ++ encodeLast last).length)
        (fileBody readMoov fuel (encodeFile children ++ encodeLast last)) n (.empty, 0)
      = some (.ok ({ BoxIn.putAll 0 (children.map FileChild.box) .empty with
        stopped := last.isSome }, pos)) := by
  rw [List.length_append] at hfuel hn
  -- every box is readable with the fuel of the file
  have hread : ∀ b ∈ children.map FileChild.box, b.Readable (FileFields.readChild readMoov fuel) :=
    List.forall_mem_map.2 fun c hc => (hfits c hc).readable (by
      have hle := BoxIn.contents_le (List.mem_map_of_mem (f := FileChild.box) hc)
      show c.box.contents.length < fuel
      rw [encodeFile] at hfuel
      omega)
  have hsize : ∀ b ∈ children.map FileChild.box,
      8 + b.contents.length ≤ (encodeFile children ++ encodeLast last).length := by
    intro b hb
    rw [List.length_append]
    exact (BoxIn.contents_le hb).trans (Nat.le_add_right _ _)
  -- no box but the last stops the loop
  have hkeep : ∀ b ∈ children.map FileChild.box, ∀ pos fields, fields.stopped = false →
      (b.put pos fields).stopped = false :=
    List.forall_mem_map.2 fun c _ pos fields hfields =>
      (c.part.stopped_put pos fields).trans hfields
  have hcond : ∀ fields pos, fields.stopped = false →
      fileCond (encodeFile children ++ encodeLast last).length (fields, pos)
        = decide (pos < (encodeFile children ++ encodeLast last).length) := by
    intro fields pos hfields
    rw [fileCond, hfields, Bool.not_false, Bool.and_true]
  -- a round for each box
  have hcount := BoxIn.length_le (children.map FileChild.box)
  obtain ⟨rest, rfl⟩ := Nat.exists_eq_add_of_le
    (show (children.map FileChild.box).length ≤ n by rw [encodeFile] at hn; omega)
  obtain ⟨hloop, hstopped⟩ := BoxIn.rowLoop_eq
    "file contains a box with a larger size than it" rest hcond hread hsize hkeep
    (rfl : FileFields.empty.stopped = false) [] (encodeLast last) (by
      rw [List.length_append]
      exact (Nat.zero_add _).trans_le (Nat.le_add_right _ _))
  change While.run _ (fileBody readMoov fuel (encodeFile children ++ encodeLast last)) _ (.empty, 0)
    = While.run _ (fileBody readMoov fuel (encodeFile children ++ encodeLast last)) rest
      (BoxIn.putAll 0 (children.map FileChild.box) .empty, 0 + (encodeFile children).length)
    at hloop
  change (BoxIn.putAll 0 (children.map FileChild.box) .empty).stopped = false at hstopped
  generalize BoxIn.putAll 0 (children.map FileChild.box) .empty = fields at *
  rw [hloop, Nat.zero_add]
  -- the loop ends at the end of the file, or at the box without a size
  cases last with
  | none =>
    have hdone : fileCond (encodeFile children ++ encodeLast none).length
        (fields, (encodeFile children).length) = false := by
      rw [hcond _ _ hstopped]
      rw [encodeLast, Option.elim_none, List.append_nil]
      exact decide_eq_false (lt_irrefl _)
    rw [encodeFile] at hn
    obtain ⟨rest, rfl⟩ := Nat.exists_eq_add_of_le (show 1 ≤ rest by omega)
    refine ⟨(encodeFile children).length, ?_⟩
    rw [Nat.add_comm 1 rest, While.run_of_not hdone, Option.isSome_none, ← hstopped]
  | some b =>
    have hlength : 0 < (encodeLast (some b)).length := by
      show 0 < (b.header ++ b.rest).length
      have hheader := b.le_length_header
      rw [List.length_append]
      omega
    rw [encodeFile] at hn
    obtain ⟨rest, rfl⟩ := Nat.exists_eq_add_of_le (show 2 ≤ rest by omega)
    have hgo : fileCond (encodeFile children ++ encodeLast (some b)).length
        (fields, (encodeFile children).length) = true := by
      rw [hcond _ _ hstopped]
      exact decide_eq_true (by rw [List.length_append]; omega)
    have hbody : fileBody readMoov fuel (encodeFile children ++ encodeLast (some b))
        (fields, (encodeFile children).length) = _ := fileBody_last (hlast b rfl) _ fields
    have hdone : fileCond (encodeFile children ++ encodeLast (some b)).length
        ({ fields with stopped := true }, (encodeFile children).length + b.header.length) = false :=
      Bool.and_false _
    rw [Nat.add_comm 2 rest, While.run_of_ok hgo hbody, While.run_of_not hdone]
    exact ⟨_, rfl⟩

/-- **Reading a file**: what is read is the last `ftyp` box, the last `moov` box, and all the `moof`
and `emsg` boxes in their order, each `moof` with its place; the tracks are made of them.  The boxes
come in any order, and a box of size 0 ends the file. -/
theorem read_file {ftyp : FtypBox} {moov : MoovBox} (hfits : ∀ c ∈ children, c.Fits readMoov)
    (hlast : ∀ b ∈ last, b.name.Proper) (hftyp : lastOf FilePart.ftyp? children = some ftyp)
    (hmoov : lastOf FilePart.moov? children = some moov)
    (hfuel : (encodeFile children ++ encodeLast last).length < fuel) :
    Mp4.read readMoov fuel (encodeFile children ++ encodeLast last)
      = some (((readTracks moov (placedMoofs 0 children)).mapError FileError.tracks).map
        fun tracks =>
          { ftyp, moov, moofs := placedMoofs 0 children, emsgs := emsgsOf children, tracks }) := by
  obtain ⟨pos, hloop⟩ := fileLoop_eq hfits hlast hfuel hfuel
  rw [putAll_eq, hmoov, hftyp] at hloop
  unfold Mp4.read
  rw [hloop]
  dsimp only [FileFields.finish, FileFields.empty, Option.some_or, List.nil_append]
  cases readTracks moov (placedMoofs 0 children) <;> rfl

end File

/-! ### A file with one fragment -/

instance (large : Bool) (length : ℕ) : Decidable (SizeFits large length) :=
  inferInstanceAs (Decidable (if large then _ else _))

/-- A box with a short header. -/
def plainBox (name : ℕ) (contents : List UInt8) : List UInt8 :=
  encodeHeader false (.other name) contents.length ++ contents

/-- `mdia`: 1000 units a second, and tables without samples. -/
def oneMdia : List UInt8 :=
  plainBox 0x6d646864 (List.replicate 12 0 ++ encode 4 1000 ++ List.replicate 8 0) ++
  plainBox 0x68646c72 (List.replicate 24 0) ++
  plainBox 0x6d696e66
    (plainBox 0x64696e66 (plainBox 0x64726566 (List.replicate 8 0)) ++
     plainBox 0x7374626c
      (plainBox 0x73747364 (List.replicate 4 0 ++ encode 4 1 ++ plainBox 0x7a7a7a7a []) ++
       plainBox 0x73747473 (List.replicate 8 0) ++ plainBox 0x73747363 (List.replicate 8 0) ++
       plainBox 0x7374737a (List.replicate 12 0) ++ plainBox 0x7374636f (List.replicate 8 0)))

/-- The contents of `moov`: `mvhd`, a track with the id 1, and its `trex` in `mvex`. -/
def oneMoovBytes : List UInt8 :=
  plainBox 0x6d766864 (List.replicate 100 0) ++
  plainBox 0x7472616b
    (plainBox 0x746b6864 (List.replicate 12 0 ++ encode 4 1 ++ List.replicate 68 0) ++
     plainBox 0x6d646961 oneMdia) ++
  plainBox 0x6d766578
    (plainBox 0x74726578 (List.replicate 4 0 ++ encode 4 1 ++ List.replicate 16 0))

def oneMoov : MoovBox :=
  { traks :=
      [{ trackId := 1, width := 0, height := 0, timescale := 1000, duration := 0,
         stbl :=
          { contents := .other "Unknown(zzzz / 0x7A7A7A7A)", rawCodecConfig := none,
            stts := [], ctts := none, stss := none, stsc := [],
            stsz := { sampleSize := 0, sampleCount := 0, sampleSizes := [] },
            stco := some [], co64 := none } }],
    mvex := some [{ trackId := 1, defaultSampleDuration := 0, defaultSampleSize := 0,
                    defaultSampleFlags := 0 }] }

/-- As `moov` is read if it has these contents. -/
def plainMoov (size : ℕ) : LoopReader MoovBox :=
  BoxReader.loop fun _ => (fun _ => oneMoov) <$> skipBox size

def oneFtyp : FtypBox :=
  { majorBrand := 0x69736f6d, minorVersion := 0, compatibleBrands := [0x69736f36] }

def oneEmsg : EmsgBox :=
  { version := 0, flags := 0, timescale := 1000, presentationTime := none,
    presentationTimeDelta := some 5, eventDuration := 0, id := 1, schemeIdUri := "urn", value := "",
    messageData := [1, 2, 3] }

def oneTfhd : TfhdBox :=
  { flags := 0x20000, trackId := 1, baseDataOffset := none, defaultSampleDuration := none,
    defaultSampleSize := none, defaultSampleFlags := none }

def oneTrun : TrunBox :=
  { flags := 0x301, sampleCount := 2, dataOffset := some 561, firstSampleFlags := none,
    sampleDurations := [10, 20], sampleSizes := [3, 4], sampleFlags := [], sampleCts := [] }

def oneTraf : List TrafChild :=
  [⟨.trun 0 oneTrun, false, []⟩, ⟨.tfhd 0 none oneTfhd, true, [0]⟩]

def oneFragmentMoof : List MoofChild :=
  [⟨.traf oneTraf { tfhd := oneTfhd, tfdt := none, truns := [oneTrun] }, false⟩,
    ⟨.mfhd 0 0 1 [], false⟩]

def oneFragment : List FileChild :=
  [⟨.ftyp oneFtyp, false⟩, ⟨.emsg oneEmsg, false⟩, ⟨.moof oneFragmentMoof, true⟩,
    ⟨.moov oneMoovBytes oneMoov, false⟩]

theorem oneTrun_fits : oneTrun.Fits := by
  constructor <;> simp [oneTrun, Announced, TrunBox.Listed] <;> decide

theorem oneTfhd_fits : oneTfhd.Fits none := by
  constructor <;> simp [oneTfhd, Announced] <;> decide

theorem oneTraf_fits : ∀ c ∈ oneTraf, c.Fits :=
  List.forall_mem_cons.2 ⟨⟨⟨by norm_num, oneTrun_fits⟩, by decide⟩,
    List.forall_mem_singleton.2 ⟨⟨by norm_num, oneTfhd_fits⟩, by decide⟩⟩

theorem oneFragmentMoof_fits : ∀ c ∈ oneFragmentMoof, c.Fits :=
  List.forall_mem_cons.2 ⟨⟨⟨oneTraf_fits, rfl⟩, by decide⟩,
    List.forall_mem_singleton.2 ⟨⟨by norm_num, by norm_num, by norm_num⟩, by decide⟩⟩

theorem oneEmsg_fits : oneEmsg.Fits where
  times := .inl ⟨rfl, rfl, 5, by norm_num, rfl⟩
  flags := by decide
  timescale := by decide
  eventDuration := by decide
  id := by decide
  schemeIdUri := by unfold TextFits; decide +kernel
  value := by unfold TextFits; decide +kernel

theorem oneFtyp_fits : oneFtyp.Fits := by
  constructor <;> decide

theorem oneFragment_fits : ∀ c ∈ oneFragment, c.Fits plainMoov :=
  have hmoov : Takes 8 (plainMoov (8 + oneMoovBytes.length)) oneMoovBytes oneMoov :=
    takes_loop (Takes.map (fun _ => oneMoov) (StblPart.takes_skipBox oneMoovBytes))
  List.forall_mem_cons.2 ⟨⟨oneFtyp_fits, by decide⟩,
    List.forall_mem_cons.2 ⟨⟨oneEmsg_fits, by decide⟩,
      List.forall_mem_cons.2 ⟨⟨⟨oneFragmentMoof_fits, rfl⟩, by decide⟩,
        List.forall_mem_singleton.2 ⟨hmoov, by decide +kernel⟩⟩⟩⟩

/-- The two samples are in `mdat`, behind each other. -/
def oneTrack : Track :=
  { firstTrafMerged := true, trackId := 1, width := 0, height := 0, timescale := 1000,
    duration := 30, contents := .other "Unknown(zzzz / 0x7A7A7A7A)",
    samples :=
      [{ id := 0, isSync := false, size := 3, offset := 625, timescale := 1000,
         decodeTimestamp := 0, compositionTimestamp := 0, duration := 10 },
       { id := 1, isSync := false, size := 4, offset := 628, timescale := 1000,
         decodeTimestamp := 10, compositionTimestamp := 10, duration := 20 }] }

theorem read_file_oneFragment :
    Mp4.read plainMoov 1000
        (encodeFile oneFragment ++ encodeLast (some ⟨.mdat, false, [1, 2, 3, 4, 5, 6, 7]⟩))
      = some (.ok { ftyp := oneFtyp, moov := oneMoov, moofs := placedMoofs 0 oneFragment,
                    emsgs := [oneEmsg], tracks := [oneTrack] }) := by
  have htracks : readTracks oneMoov (placedMoofs 0 oneFragment) = .ok [oneTrack] := by
    decide +kernel
  have hftyp : lastOf FilePart.ftyp? oneFragment = some oneFtyp := rfl
  have hmoov : lastOf FilePart.moov? oneFragment = some oneMoov := rfl
  refine (read_file oneFragment_fits (fun b hb => ?_) hftyp hmoov (by decide +kernel)).trans ?_
  · cases hb
    exact proper_other (by norm_num) rfl
  · rw [htracks]
    rfl

end ReMp4

end NoshareCover
