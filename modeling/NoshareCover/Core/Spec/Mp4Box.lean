import NoshareCover.Core.Spec.SampleTable
import NoshareCover.Core.Video.Mp4Box

/-!
# Reading the boxes of the sample tables

A `stbl` box may have its tables in any order, other boxes between them, headers with large sizes, and
bytes behind the entries of a table (`ReMp4.readStbl_eq`).
-/

namespace NoshareCover

namespace ReMp4

open Reader BigEndian

/-! ### Numbers -/

theorem takes_readExact {n : ℕ} {w : List UInt8} (hw : w.length = n) :
    Takes 0 (readExact n) w w := by
  intro front back _
  have hfits : front.length + n ≤ (front ++ (w ++ back)).length := by
    rw [List.length_append, List.length_append]
    omega
  show readExact n _ _ = _
  rw [readExact, if_pos hfits, List.drop_left, ← hw, List.take_left]

/-- A reader among those with loops. -/
theorem takes_loop {α : Type} {n : ℕ} {r : BoxReader α} {w : List UInt8} {a : α}
    (h : Takes n r w a) : Takes n (BoxReader.loop r) w a := by
  intro front back hfront
  show (r (front ++ (w ++ back)) front.length).mapError some = _
  rw [show r (front ++ (w ++ back)) front.length = _ from h front back hfront]
  rfl

theorem takes_readU32 {n : ℕ} (h : n < 2 ^ 32) : Takes 0 readU32 (encode 4 n) n := by
  have htakes := (takes_readExact (length_encode 4 n)).map value
  rwa [value_encode (by omega)] at htakes

theorem takes_readU64 {n : ℕ} (h : n < 2 ^ 64) : Takes 0 readU64 (encode 8 n) n := by
  have htakes := (takes_readExact (length_encode 8 n)).map value
  rwa [value_encode (by omega)] at htakes

/-- The two's complement of a number. -/
def encodeI32 (z : ℤ) : List UInt8 := encode 4 (z % 2 ^ 32).toNat

theorem takes_readI32 {z : ℤ} (hlow : -2 ^ 31 ≤ z) (hhigh : z < 2 ^ 31) :
    Takes 0 readI32 (encodeI32 z) z := by
  have hmod : 0 ≤ z % 2 ^ 32 := Int.emod_nonneg z (by norm_num)
  have hlt : z % 2 ^ 32 < 2 ^ 32 := Int.emod_lt_of_pos z (by norm_num)
  have htakes := (takes_readU32 (n := (z % 2 ^ 32).toNat) (by omega)).map
    fun n : ℕ => (n : ℤ).bmod (2 ^ 32)
  rw [Int.toNat_of_nonneg hmod] at htakes
  have hback : (z % 2 ^ 32).bmod (2 ^ 32) = z := by
    rw [Int.bmod_def]
    split_ifs <;> omega
  rwa [hback] at htakes

/-! ### Headers -/

/-- A header for so many bytes, with the size in it or behind it. -/
def encodeHeader (large : Bool) (name : BoxType) (length : ℕ) : List UInt8 :=
  if large then encode 4 1 ++ (encode 4 name.toU32 ++ encode 8 (16 + length))
  else encode 4 (8 + length) ++ encode 4 name.toU32

/-- The size fits into the header. -/
def SizeFits (large : Bool) (length : ℕ) : Prop :=
  if large then 16 + length < 2 ^ 64 else 8 + length < 2 ^ 32

/-- A box type that is written as it is read. -/
def BoxType.Proper (t : BoxType) : Prop := t.toU32 < 2 ^ 32 ∧ .ofU32 t.toU32 = t

theorem takes_header {large : Bool} {name : BoxType} {length : ℕ} (hname : name.Proper)
    (hsize : SizeFits large length) :
    Takes 0 BoxHeader.read (encodeHeader large name length) { name, size := 8 + length } := by
  unfold encodeHeader SizeFits at *
  -- a size of 1 says that the real one follows
  cases large with
  | false =>
    rw [if_neg Bool.false_ne_true] at hsize ⊢
    refine (takes_readU32 hsize).bind ?_
    rw [← List.append_nil (encode 4 name.toU32)]
    refine ((takes_readU32 hname.1).mono (Nat.zero_le _)).bind ?_
    refine (Takes.pure _ _).of_eq fun file => ?_
    rw [if_neg (by omega), hname.2]
  | true =>
    rw [if_pos rfl] at hsize ⊢
    refine (takes_readU32 (n := 1) (by norm_num)).bind ?_
    refine ((takes_readU32 hname.1).mono (Nat.zero_le _)).bind ?_
    refine Takes.of_eq ?_ fun file => if_pos rfl
    rw [← List.append_nil (encode 8 (16 + length))]
    refine ((takes_readU64 hsize).mono (Nat.zero_le _)).bind ?_
    refine (Takes.pure _ _).of_eq fun file => ?_
    rw [if_neg (by omega), if_neg (by omega), hname.2, show 16 + length - 8 = 8 + length by omega]

/-! ### Tables -/

/-- Version and flags, the count, the entries, and what follows. -/
def encodeTable {α : Type} (ext : List UInt8) (encodeEntry : α → List UInt8) (entries : List α)
    (pad : List UInt8) : List UInt8 :=
  ext ++ (encode 4 entries.length ++ (entries.flatMap encodeEntry ++ pad))

theorem length_flatMap_entries {α : Type} {encodeEntry : α → List UInt8} {entries : List α} {k : ℕ}
    (h : ∀ e ∈ entries, (encodeEntry e).length = k) :
    (entries.flatMap encodeEntry).length = entries.length * k := by
  induction entries with
  | nil => simp
  | cons e entries ih =>
    rw [List.flatMap_cons, List.length_append, h e (List.mem_cons_self ..),
      ih fun e' he' => h e' (List.mem_cons_of_mem e he'), List.length_cons, Nat.succ_mul, Nat.add_comm]

/-- What follows the contents in a box is passed over. -/
theorem takes_readBox {α : Type} {size : ℕ} {r : BoxReader α} {w pad : List UInt8} {a : α}
    (h : Takes 0 r w a) (hsize : size = 8 + (w ++ pad).length) :
    Takes 8 (readBox size r) (w ++ pad) a := by
  intro front back hfront
  have hread := h front (pad ++ back) (Nat.zero_le _)
  show (r _).run front.length >>= _ = _
  rw [List.append_assoc, hread]
  show Except.ok (a, front.length - 8 + size) = _
  rw [hsize, show front.length - 8 + (8 + (w ++ pad).length) = front.length + (w ++ pad).length by omega]

/-- A table reads its entries, however many bytes follow them in the box. -/
theorem takes_readTable {α : Type} {name : String} {k : ℕ} {entry : BoxReader α}
    {check : List α → Except BoxError Unit} {ext pad : List UInt8} {encodeEntry : α → List UInt8}
    {entries : List α} (hk : 0 < k) (hext : ext.length = 4) (hcount : entries.length < 2 ^ 32)
    (hentry : ∀ e ∈ entries, Takes 0 entry (encodeEntry e) e)
    (hlength : ∀ e ∈ entries, (encodeEntry e).length = k) (hcheck : check entries = .ok ()) :
    Takes 8 (readTable name k entry check (8 + (encodeTable ext encodeEntry entries pad).length))
      (encodeTable ext encodeEntry entries pad) entries := by
  have hentries := length_flatMap_entries hlength
  generalize hsize : 8 + (encodeTable ext encodeEntry entries pad).length = size
  -- the count is checked against the size of the box
  have hroom : ¬ (size - 12 - 4) / k < entries.length := by
    rw [← hsize, encodeTable, List.length_append, List.length_append, List.length_append, hentries, hext,
      length_encode, not_lt, Nat.le_div_iff_mul_le hk]
    omega
  -- the entries fill what the padding leaves
  have hread : Takes 0 (readEntries name k entry check size)
      (ext ++ (encode 4 entries.length ++ (entries.flatMap encodeEntry ++ []))) entries := by
    refine (takes_readExact hext).bind ?_
    refine ((takes_readU32 hcount).mono (Nat.zero_le _)).bind ?_
    refine Takes.of_eq ?_ fun file => if_neg hroom
    refine (Takes.readMany fun e he => (hentry e he).mono (Nat.zero_le _)).bind ?_
    refine (Takes.pure _ entries).of_eq fun file => ?_
    rw [hcheck]
    rfl
  -- the padding is skipped
  have hsplit : encodeTable ext encodeEntry entries pad
      = (ext ++ (encode 4 entries.length ++ (entries.flatMap encodeEntry ++ []))) ++ pad := by
    simp only [encodeTable, List.append_assoc, List.append_nil]
  rw [hsplit] at hsize ⊢
  exact takes_readBox hread hsize.symm

/-! ### The entries -/

def SttsEntry.encode (e : SttsEntry) : List UInt8 :=
  BigEndian.encode 4 e.sampleCount ++ BigEndian.encode 4 e.sampleDelta

def CttsEntry.encode (e : CttsEntry) : List UInt8 :=
  BigEndian.encode 4 e.sampleCount ++ encodeI32 e.sampleOffset

/-- All samples have the same description. -/
def StscEntry.encode (e : StscEntry) : List UInt8 :=
  BigEndian.encode 4 e.firstChunk ++ (BigEndian.encode 4 e.samplesPerChunk ++ BigEndian.encode 4 1)

def SttsEntry.Fits (e : SttsEntry) : Prop := e.sampleCount < 2 ^ 32 ∧ e.sampleDelta < 2 ^ 32

def CttsEntry.Fits (e : CttsEntry) : Prop :=
  e.sampleCount < 2 ^ 32 ∧ -2 ^ 31 ≤ e.sampleOffset ∧ e.sampleOffset < 2 ^ 31

def StscEntry.Fits (e : StscEntry) : Prop := e.firstChunk < 2 ^ 32 ∧ e.samplesPerChunk < 2 ^ 32

theorem SttsEntry.takes {e : SttsEntry} (h : e.Fits) : Takes 0 SttsEntry.read e.encode e := by
  refine (takes_readU32 h.1).bind ?_
  rw [← List.append_nil (BigEndian.encode 4 e.sampleDelta)]
  exact ((takes_readU32 h.2).mono (Nat.zero_le _)).bind (Takes.pure _ _)

theorem CttsEntry.takes {e : CttsEntry} (h : e.Fits) : Takes 0 CttsEntry.read e.encode e := by
  refine (takes_readU32 h.1).bind ?_
  rw [← List.append_nil (encodeI32 e.sampleOffset)]
  exact ((takes_readI32 h.2.1 h.2.2).mono (Nat.zero_le _)).bind (Takes.pure _ _)

theorem StscEntry.takes {e : StscEntry} (h : e.Fits) : Takes 0 StscEntry.read e.encode e := by
  refine (takes_readU32 h.1).bind ?_
  refine ((takes_readU32 h.2).mono (Nat.zero_le _)).bind ?_
  rw [← List.append_nil (BigEndian.encode 4 1)]
  exact ((takes_readU32 (by norm_num)).mono (Nat.zero_le _)).bind (Takes.pure _ _)

/-- Sizes in the box, or one size and none in the box. -/
def StszBox.encode (b : StszBox) (ext pad : List UInt8) : List UInt8 :=
  ext ++ (BigEndian.encode 4 b.sampleSize ++ (BigEndian.encode 4 b.sampleCount
    ++ (b.sampleSizes.flatMap (BigEndian.encode 4) ++ pad)))

structure StszBox.Fits (b : StszBox) : Prop where
  size : b.sampleSize < 2 ^ 32
  count : b.sampleCount < 2 ^ 32
  same : b.sampleSize ≠ 0 → b.sampleSizes = []
  each : b.sampleSize = 0 → b.sampleCount = b.sampleSizes.length
  sizes : ∀ n ∈ b.sampleSizes, n < 2 ^ 32

theorem takes_readStsz {b : StszBox} (h : b.Fits) {ext pad : List UInt8} (hext : ext.length = 4) :
    Takes 8 (readStsz (8 + (b.encode ext pad).length)) (b.encode ext pad) b := by
  obtain ⟨sampleSize, sampleCount, sampleSizes⟩ := b
  obtain ⟨hsampleSize, hcount, hsame, heach, hsizes⟩ := h
  dsimp only at *
  have hlength : (sampleSizes.flatMap (BigEndian.encode 4)).length = sampleSizes.length * 4 :=
    length_flatMap_entries fun n _ => length_encode 4 n
  generalize hsize : 8 + (StszBox.encode ⟨sampleSize, sampleCount, sampleSizes⟩ ext pad).length = size
  have hsplit : StszBox.encode ⟨sampleSize, sampleCount, sampleSizes⟩ ext pad
      = (ext ++ (BigEndian.encode 4 sampleSize ++ (BigEndian.encode 4 sampleCount
        ++ (sampleSizes.flatMap (BigEndian.encode 4) ++ [])))) ++ pad := by
    simp only [StszBox.encode, List.append_assoc, List.append_nil]
  rw [hsplit] at hsize ⊢
  refine takes_readBox ?_ hsize.symm
  refine (takes_readExact hext).bind ?_
  refine ((takes_readU32 hsampleSize).mono (Nat.zero_le _)).bind ?_
  refine ((takes_readU32 hcount).mono (Nat.zero_le _)).bind ?_
  -- one size for all, or a table of sizes
  by_cases hzero : sampleSize = 0
  · have hroom : ¬ (size - 12 - 8) / 4 < sampleCount := by
      rw [← hsize, heach hzero]
      simp only [List.length_append, hlength, hext, length_encode, List.length_nil]
      omega
    refine Takes.of_eq ?_ fun file => (if_neg (not_not.2 hzero)).trans (if_neg hroom)
    rw [heach hzero]
    exact (Takes.readMany fun n hn => (takes_readU32 (hsizes n hn)).mono (Nat.zero_le _)).bind
      (Takes.pure _ _)
  · refine Takes.of_eq ?_ fun file => if_pos hzero
    rw [hsame hzero]
    exact Takes.pure _ _

/-! ### The boxes of a box -/

/-- What a box in `stbl` holds.  The contents of `stsd` are given with what is read of them. -/
inductive StblPart where
  | stsd (contents : List UInt8) (b : Stsd)
  | stts (entries : List SttsEntry)
  | ctts (entries : List CttsEntry)
  | stss (entries : List ℕ)
  | stsc (entries : List StscEntry)
  | stsz (b : StszBox)
  | stco (entries : List ℕ)
  | co64 (entries : List ℕ)
  | other (t : ℕ) (contents : List UInt8)

namespace StblPart

def name : StblPart → BoxType
  | stsd _ _ => .stsd
  | stts _ => .stts
  | ctts _ => .ctts
  | stss _ => .stss
  | stsc _ => .stsc
  | stsz _ => .stsz
  | stco _ => .stco
  | co64 _ => .co64
  | other t _ => .other t

def contents (ext pad : List UInt8) : StblPart → List UInt8
  | stsd contents _ => contents
  | stts entries => encodeTable ext SttsEntry.encode entries pad
  | ctts entries => encodeTable ext CttsEntry.encode entries pad
  | stss entries => encodeTable ext (encode 4) entries pad
  | stsc entries => encodeTable ext StscEntry.encode entries pad
  | stsz b => b.encode ext pad
  | stco entries => encodeTable ext (encode 4) entries pad
  | co64 entries => encodeTable ext (encode 8) entries pad
  | other _ contents => contents

/-- A later box of a kind counts. -/
def put (fields : StblFields) : StblPart → StblFields
  | stsd _ b => { fields with stsd := some b }
  | stts entries => { fields with stts := some entries }
  | ctts entries => { fields with ctts := some entries }
  | stss entries => { fields with stss := some entries }
  | stsc entries => { fields with stsc := some entries }
  | stsz b => { fields with stsz := some b }
  | stco entries => { fields with stco := some entries }
  | co64 entries => { fields with co64 := some entries }
  | other _ _ => fields

/-- The numbers fit into their fields. -/
def Fits (readStsd : ℕ → LoopReader Stsd) : StblPart → Prop
  | stsd contents b => Takes 8 (readStsd (8 + contents.length)) contents b
  | stts entries => entries.length < 2 ^ 32 ∧ ∀ e ∈ entries, e.Fits
  | ctts entries => entries.length < 2 ^ 32 ∧ ∀ e ∈ entries, e.Fits
  | stss entries => entries.length < 2 ^ 32 ∧ ∀ n ∈ entries, n < 2 ^ 32
  | stsc entries =>
    entries.length < 2 ^ 32 ∧ (∀ e ∈ entries, e.Fits) ∧ checkFirstSamples entries = .ok ()
  | stsz b => b.Fits
  | stco entries => entries.length < 2 ^ 32 ∧ ∀ n ∈ entries, n < 2 ^ 32
  | co64 entries => entries.length < 2 ^ 32 ∧ ∀ n ∈ entries, n < 2 ^ 64
  | other t _ => (BoxType.other t).Proper

theorem proper_name {readStsd : ℕ → LoopReader Stsd} {part : StblPart} (h : part.Fits readStsd) :
    part.name.Proper := by
  cases part with
  | other t contents => exact h
  | _ => exact ⟨by norm_num [name, BoxType.toU32], rfl⟩

theorem takes_skipBox (contents : List UInt8) :
    Takes (τ := UInt8) 8 (fun _ => skipBox (8 + contents.length)) contents () := by
  intro front back hfront
  show Except.ok ((), front.length - 8 + (8 + contents.length)) = _
  rw [show front.length - 8 + (8 + contents.length) = front.length + contents.length by omega]

/-- **One child**: reading it puts it into its field. -/
theorem takes_readChild {readStsd : ℕ → LoopReader Stsd} {part : StblPart} (h : part.Fits readStsd)
    {ext : List UInt8} (hext : ext.length = 4) (pad : List UInt8) (fields : StblFields) :
    Takes 8 (fields.readChild readStsd
        { name := part.name, size := 8 + (part.contents ext pad).length })
      (part.contents ext pad) (part.put fields) := by
  -- each table by the reader of its entries
  cases part with
  | stsd contents b => exact Takes.map _ h
  | stts entries =>
    exact takes_loop (Takes.map _ (takes_readTable (by norm_num) hext h.1
      (fun e he => SttsEntry.takes (h.2 e he))
      (fun e _ => by simp [SttsEntry.encode]) rfl))
  | ctts entries =>
    exact takes_loop (Takes.map _ (takes_readTable (by norm_num) hext h.1
      (fun e he => CttsEntry.takes (h.2 e he))
      (fun e _ => by simp [CttsEntry.encode, encodeI32]) rfl))
  | stss entries =>
    exact takes_loop (Takes.map _ (takes_readTable (by norm_num) hext h.1
      (fun n hn => takes_readU32 (h.2 n hn))
      (fun n _ => length_encode 4 n) rfl))
  | stsc entries =>
    exact takes_loop (Takes.map _ (takes_readTable (by norm_num) hext h.1
      (fun e he => StscEntry.takes (h.2.1 e he))
      (fun e _ => by simp [StscEntry.encode]) h.2.2))
  | stsz b => exact takes_loop (Takes.map _ (takes_readStsz h hext))
  | stco entries =>
    exact takes_loop (Takes.map _ (takes_readTable (by norm_num) hext h.1
      (fun n hn => takes_readU32 (h.2 n hn))
      (fun n _ => length_encode 4 n) rfl))
  | co64 entries =>
    exact takes_loop (Takes.map _ (takes_readTable (by norm_num) hext h.1
      (fun n hn => takes_readU64 (h.2 n hn))
      (fun n _ => length_encode 8 n) rfl))
  | other t contents => exact takes_loop (Takes.map _ (takes_skipBox contents))

end StblPart

/-- A box in `stbl`: the form of its header, its version and flags, and the bytes behind the entries
of a table. -/
structure StblChild where
  part : StblPart
  large : Bool
  ext : List UInt8
  pad : List UInt8

namespace StblChild

def contents (c : StblChild) : List UInt8 := c.part.contents c.ext c.pad

def encode (c : StblChild) : List UInt8 :=
  encodeHeader c.large c.part.name c.contents.length ++ c.contents

structure Fits (readStsd : ℕ → LoopReader Stsd) (c : StblChild) : Prop where
  part : c.part.Fits readStsd
  size : SizeFits c.large c.contents.length
  ext : c.ext.length = 4

theorem length_encodeHeader (large : Bool) (name : BoxType) (length : ℕ) :
    8 ≤ (encodeHeader large name length).length := by
  unfold encodeHeader
  split_ifs
  · simp
  · simp

/-- **One round of the loop.** -/
theorem takes_round {readStsd : ℕ → LoopReader Stsd} {c : StblChild} (h : c.Fits readStsd) {size : ℕ}
    (hsize : 8 + c.contents.length ≤ size) (fields : StblFields) :
    Takes 0 (fields.round readStsd size) c.encode (c.part.put fields) := by
  refine (takes_loop (takes_header (StblPart.proper_name h.part) h.size)).bind ?_
  have hchild := StblPart.takes_readChild h.part h.ext c.pad fields
  refine (hchild.mono ?_).of_eq fun file => ?_
  · have := length_encodeHeader c.large c.part.name c.contents.length
    omega
  · rw [if_neg (not_lt.2 hsize)]
    rfl

end StblChild

/-- The fields after these boxes. -/
def StblFields.putAll (fields : StblFields) (children : List StblChild) : StblFields :=
  children.foldl (fun fields c => c.part.put fields) fields

section Stbl

variable {readStsd : ℕ → ℕ → LoopReader Stsd}

/-- The loop goes through the boxes. -/
theorem stblLoop_eq {children : List StblChild} {n : ℕ}
    (hfits : ∀ c ∈ children, c.Fits (readStsd n)) {start size fuel : ℕ}
    (hsize : 8 + (children.flatMap StblChild.encode).length ≤ size)
    (hfuel : children.length < fuel) (fields : StblFields) (front back : List UInt8)
    (hend : front.length + (children.flatMap StblChild.encode).length = start + size) :
    While.run (stblCond size start)
        (stblBody readStsd (front ++ (children.flatMap StblChild.encode ++ back)) size n) fuel
        (fields, front.length)
      = some (.ok (fields.putAll children, start + size)) := by
  induction children generalizing fields front fuel with
  | nil =>
    obtain ⟨fuel, rfl⟩ := Nat.exists_eq_add_one.2 hfuel
    rw [List.flatMap_nil, List.length_nil, Nat.add_zero] at hend
    -- at the end of the box the loop stops
    have hcond : stblCond size start (fields, front.length) = false :=
      decide_eq_false (not_lt.2 hend.ge)
    rw [While.run_of_not hcond, hend]
    rfl
  | cons c children ih =>
    obtain ⟨fuel, rfl⟩ := Nat.exists_eq_add_one.2 ((Nat.zero_le _).trans_lt hfuel)
    -- the first child, read in one round
    have hc := hfits c (List.mem_cons_self ..)
    have hheader := StblChild.length_encodeHeader c.large c.part.name c.contents.length
    have hencode : c.encode.length
        = (encodeHeader c.large c.part.name c.contents.length).length + c.contents.length :=
      List.length_append
    rw [List.flatMap_cons, List.length_append] at hsize hend
    have hround : (fields.round (readStsd n) size _).run front.length = _ :=
      c.takes_round hc (by omega) fields front (children.flatMap StblChild.encode ++ back)
        (Nat.zero_le _)
    have hcond : stblCond size start (fields, front.length) = true := decide_eq_true (by omega)
    rw [List.flatMap_cons, List.append_assoc,
      While.run_of_ok hcond (show stblBody readStsd _ size n _ = _ from hround), ← List.append_assoc,
      ← List.length_append]
    -- the others have the rest of the fuel
    rw [List.length_cons] at hfuel
    exact ih (fun c' hc' => hfits c' (List.mem_cons_of_mem c hc')) (by omega) (by omega) _ _
      (by rw [List.length_append]; omega)

/-- **Reading `stbl`**, with its boxes in any order. -/
theorem readStbl_children {children : List StblChild} {fuel : ℕ}
    (hfits : ∀ c ∈ children, c.Fits (readStsd fuel)) {front : List UInt8}
    (hfront : 8 ≤ front.length) (back : List UInt8) (hfuel : children.length < fuel) :
    readStbl readStsd (front ++ (children.flatMap StblChild.encode ++ back))
        (8 + (children.flatMap StblChild.encode).length) fuel front.length
      = some ((StblFields.empty.putAll children).finish.map
        fun b => (b, front.length + (children.flatMap StblChild.encode).length)) := by
  have hend : front.length + (children.flatMap StblChild.encode).length
      = front.length - 8 + (8 + (children.flatMap StblChild.encode).length) := by omega
  -- the loop reads all the children
  have hloop := stblLoop_eq hfits le_rfl hfuel .empty front back hend
  unfold readStbl While.runAll
  dsimp only
  rw [hloop, Option.getD_some]
  dsimp only
  rw [show front.length - 8 + (8 + (children.flatMap StblChild.encode).length)
    = front.length + (children.flatMap StblChild.encode).length by omega]

end Stbl

end ReMp4

end NoshareCover
