import NoshareCover.Core.Video.Bitstream
import NoshareCover.Lib.BigEndian

/-!
# Configuration records

The avcC and hvcC records as they are written: the fields that a player ignores, the length size,
and the counted parameter sets.  Parsing undoes writing a record (`parse_undoes_encode`).
-/

namespace NoshareCover.Bitstream

open Grammar Reader

/-! ### Words of the reader -/

namespace Reader

/-- What is still to be read. -/
def rest (r : Reader) : List UInt8 := r.buf.drop r.pos

theorem rest_new (buf : List UInt8) : (new buf).rest = buf := rfl

theorem reads_bytes (n : ℕ) : Reads rest (bytes n) fun b w => b = w ∧ w.length = n where
  sound := by
    -- what was read are the next `n` bytes
    intro r b r' h
    change (if h : r.pos + n ≤ r.buf.length then _ else none) = _ at h
    split_ifs at h with hle
    cases h
    refine ⟨r.rest.take n, ⟨rfl, ?_⟩, ?_⟩
    · rw [List.length_take, rest, List.length_drop]
      omega
    · show r.rest = r.rest.take n ++ r.buf.drop (r.pos + n)
      rw [← List.drop_drop]
      exact (List.take_append_drop n r.rest).symm
  complete := by
    -- and `n` bytes that are there are read
    rintro r b _ t ⟨rfl, hlen⟩ hrest
    have hle : r.pos + n ≤ r.buf.length := by
      have hsum := congrArg List.length hrest
      rw [rest, List.length_drop, List.length_append] at hsum
      have hpos := r.pos_le
      omega
    refine ⟨{ r with pos := r.pos + n, pos_le := hle }, ?_, ?_⟩
    · show (if h : r.pos + n ≤ r.buf.length then _ else none) = _
      rw [dif_pos hle]
      change r.buf.drop r.pos = b ++ t at hrest
      rw [hrest, List.take_left' hlen]
    · show r.buf.drop (r.pos + n) = t
      change r.buf.drop r.pos = b ++ t at hrest
      rw [← List.drop_drop, hrest, List.drop_left' hlen]

theorem reads_u8 : Reads rest u8 fun b w => w = [b] where
  sound := by
    intro r b r' h
    change (if h : r.pos < r.buf.length then _ else none) = _ at h
    split_ifs at h with hlt
    cases h
    exact ⟨[r.buf[r.pos]], rfl, List.drop_eq_getElem_cons hlt⟩
  complete := by
    rintro r b _ t rfl hrest
    have hlt : r.pos < r.buf.length := by
      have hsum := congrArg List.length hrest
      rw [rest, List.length_drop, List.length_append, List.length_singleton] at hsum
      omega
    have hcons := (List.drop_eq_getElem_cons hlt).symm.trans hrest
    obtain ⟨hb, ht⟩ := List.cons.inj hcons
    refine ⟨{ r with pos := r.pos + 1, pos_le := hlt }, ?_, ht⟩
    -- the byte is there, so the check passes
    show (if h : r.pos < r.buf.length then _ else none) = _
    rw [dif_pos hlt, hb]

theorem reads_u8_bind {α : Type} {q : UInt8 → Read α} {K : UInt8 → α → List UInt8 → Prop}
    (hq : ∀ b, Reads rest (q b) (K b)) :
    Reads rest (u8 >>= q) fun x w => ∃ b v, K b x v ∧ w = b :: v :=
  (reads_u8.bind hq).congr fun x w => by
    constructor
    · rintro ⟨b, _, v, rfl, hv, rfl⟩
      exact ⟨b, v, hv, rfl⟩
    · rintro ⟨b, v, hv, rfl⟩
      exact ⟨b, [b], v, rfl, hv, rfl⟩

theorem reads_skip (n : ℕ) : Reads rest (skip n) fun _ w => w.length = n :=
  ((reads_bytes n).bind fun _ => Reads.pure ()).congr fun _ w => by
    constructor
    · rintro ⟨_, u, _, ⟨-, hlen⟩, ⟨-, rfl⟩, rfl⟩
      rwa [List.append_nil]
    · intro hlen
      exact ⟨w, w, [], ⟨rfl, hlen⟩, ⟨rfl, rfl⟩, (List.append_nil w).symm⟩

/-- A `u16` is read from its two bytes. -/
theorem reads_u16 : Reads rest u16 fun n w => n < 256 ^ 2 ∧ w = BigEndian.encode 2 n := by
  have hvalue : ∀ hi lo : UInt8, BigEndian.value [hi, lo] = hi.toNat * 256 + lo.toNat := by
    intro hi lo
    simp [BigEndian.value]
  refine (reads_u8.bind fun hi => reads_u8.bind fun lo => Reads.pure _).congr fun n w => ⟨?_, ?_⟩
  · rintro ⟨hi, _, _, rfl, ⟨lo, _, _, rfl, ⟨rfl, rfl⟩, rfl⟩, rfl⟩
    rw [← hvalue]
    exact ⟨BigEndian.value_lt [hi, lo], (BigEndian.encode_value [hi, lo]).symm⟩
  · rintro ⟨hn, rfl⟩
    refine ⟨UInt8.ofNat (n / 256), _, _, rfl, ⟨UInt8.ofNat n, _, _, rfl, ⟨?_, rfl⟩, rfl⟩, rfl⟩
    rw [← hvalue]
    exact (BigEndian.value_encode hn).symm

end Reader

/-! ### Parameter sets -/

/-- A unit that its length field can count. -/
abbrev Nal := { unit : List UInt8 // unit.length < 256 ^ 2 }

/-- A counted unit, as it is written. -/
def Nal.encode (nal : Nal) : List UInt8 := BigEndian.encode 2 nal.1.length ++ nal.1

theorem reads_pushUnit (sets : List (List UInt8)) :
    Reads rest (pushUnit sets) fun sets' w => ∃ nal : Nal, sets' = sets ++ [nal.1] ∧ w = nal.encode := by
  refine (reads_u16.bind fun n => (reads_bytes n).bind fun unit => Reads.pure _).congr
    fun sets' w => ⟨?_, ?_⟩
  · rintro ⟨_, _, _, ⟨hn, rfl⟩, ⟨unit, _, _, ⟨rfl, rfl⟩, ⟨rfl, rfl⟩, rfl⟩, rfl⟩
    refine ⟨⟨unit, hn⟩, rfl, ?_⟩
    rw [List.append_nil]
    rfl
  · rintro ⟨nal, rfl, rfl⟩
    exact ⟨nal.1.length, _, nal.1, ⟨nal.2, rfl⟩,
      ⟨nal.1, nal.1, [], ⟨rfl, rfl⟩, ⟨rfl, rfl⟩, (List.append_nil _).symm⟩, rfl⟩

theorem reads_units (n : ℕ) (sets : List (List UInt8)) :
    Reads rest (times pushUnit n sets) fun sets' w => ∃ nals : List Nal, nals.length = n
      ∧ sets' = sets ++ nals.map Subtype.val ∧ w = nals.flatMap Nal.encode := by
  refine (Reads.times reads_pushUnit n sets).congr fun sets' w => ?_
  have hpush : ∀ nals : List Nal, nals.foldl (fun sets nal => sets ++ [nal.1]) sets
      = sets ++ nals.map Subtype.val := by
    intro nals
    induction nals generalizing sets with
    | nil => exact (List.append_nil sets).symm
    | cons nal nals ih => rw [List.foldl_cons, ih, List.map_cons, List.append_assoc]; rfl
  simp only [hpush]

theorem reads_units_bind {α : Type} (n : ℕ) (sets : List (List UInt8))
    {q : List (List UInt8) → Read α} {K : List (List UInt8) → α → List UInt8 → Prop}
    (hq : ∀ sets, Reads rest (q sets) (K sets)) :
    Reads rest (times pushUnit n sets >>= q) fun x w => ∃ (nals : List Nal) (v : List UInt8),
      nals.length = n ∧ K (sets ++ nals.map Subtype.val) x v ∧ w = nals.flatMap Nal.encode ++ v :=
  ((reads_units n sets).bind hq).congr fun x w => by
    constructor
    · rintro ⟨_, _, v, ⟨nals, hlen, rfl, rfl⟩, hv, rfl⟩
      exact ⟨nals, v, hlen, hv, rfl⟩
    · rintro ⟨nals, v, hlen, hv, rfl⟩
      exact ⟨_, _, v, ⟨nals, hlen, rfl, rfl⟩, hv, rfl⟩

/-! ### The length byte -/

/-- Two numbers in one byte, the second in its last `k` bits. -/
def packed (k hi lo : ℕ) : UInt8 := UInt8.ofNat (hi * 2 ^ k + lo)

theorem packed_mask {k hi lo : ℕ} {mask : UInt8} (hmask : mask.toNat = 2 ^ k - 1) (hk : k ≤ 8)
    (hlo : lo < 2 ^ k) : (packed k hi lo &&& mask).toNat = lo := by
  have hdvd : 2 ^ k ∣ 2 ^ 8 := Nat.pow_dvd_pow 2 hk
  rw [UInt8.toNat_and, hmask, Nat.and_two_pow_sub_one_eq_mod, packed, UInt8.toNat_ofNat',
    Nat.mod_mod_of_dvd _ hdvd, Nat.mul_add_mod_self_right, Nat.mod_eq_of_lt hlo]

theorem eq_packed (b : UInt8) {k : ℕ} {mask : UInt8} (hmask : mask.toNat = 2 ^ k - 1) :
    b = packed k (b.toNat / 2 ^ k) (b &&& mask).toNat := by
  apply UInt8.toNat_inj.1
  rw [UInt8.toNat_and, hmask, Nat.and_two_pow_sub_one_eq_mod, packed, Nat.div_add_mod',
    UInt8.toNat_ofNat', Nat.mod_eq_of_lt b.toNat_lt]

/-- The byte with the length size, less one, below six reserved bits. -/
def lengthByte (reserved : Fin 64) (minusOne : Fin 4) : UInt8 := packed 2 reserved minusOne

theorem exists_lengthByte (b : UInt8) : ∃ reserved minusOne, b = lengthByte reserved minusOne := by
  have hb := b.toNat_lt
  have hmask : (b &&& 0b11).toNat < 2 ^ 2 := toNat_and_lt b (by decide)
  exact ⟨⟨b.toNat / 2 ^ 2, by omega⟩, ⟨(b &&& 0b11).toNat, hmask⟩, eq_packed b rfl⟩

/-- The config with length fields of `minusOne + 1` bytes.  There is none for three. -/
def configOf (minusOne : Fin 4) (sets : List (List UInt8)) : Option NalConfig :=
  if h : (minusOne : ℕ) = 2 then none
  else some { lengthSize := minusOne + 1, lengthSize_valid := by omega, parameterSets := sets }

theorem nalConfig_lengthByte (reserved : Fin 64) (minusOne : Fin 4) (sets : List (List UInt8)) :
    nalConfig (lengthByte reserved minusOne) sets = configOf minusOne sets := by
  have hsize : lengthSize (lengthByte reserved minusOne) = minusOne + 1 :=
    congrArg (· + 1) (packed_mask rfl (by decide) minusOne.2)
  unfold nalConfig configOf
  simp only [hsize]
  by_cases h : (minusOne : ℕ) = 2
  · rw [dif_pos h, dif_neg]
    omega
  · rw [dif_neg h, dif_pos]
    omega

/-- A record is undone if its body is read to the length byte and the sets. -/
theorem undoes_of_body {ρ : Type} {body : Read (UInt8 × List (List UInt8))} {encode : ρ → List UInt8}
    {reserved : ρ → Fin 64} {minusOne : ρ → Fin 4} {sets : ρ → List (List UInt8)}
    (hbody : Reads rest body fun x w => ∃ r, x = (lengthByte (reserved r) (minusOne r), sets r)
      ∧ w = encode r) :
    Undoes (fun raw => (body.run (Reader.new raw)).bind fun q => nalConfig q.1.1 q.1.2) encode
      fun r => configOf (minusOne r) (sets r) := by
  have hundoes := Undoes.of_reads (fun q => nalConfig q.1 q.2) rest_new hbody
  simp only [nalConfig_lengthByte] at hundoes
  exact hundoes

/-! ### avcC -/

/-- An `AVCDecoderConfigurationRecord`. -/
structure AvccRecord where
  profile : UInt8
  compat : UInt8
  level : UInt8
  /-- The bits above the length size and above the count of SPS. -/
  reserved : Fin 64 × Fin 8
  lengthSizeMinusOne : Fin 4
  sps : List Nal
  sps_le : sps.length < 2 ^ 5
  pps : List Nal
  pps_le : pps.length < 2 ^ 8

namespace AvccRecord

def encode (r : AvccRecord) : List UInt8 :=
  [1, r.profile, r.compat, r.level, lengthByte r.reserved.1 r.lengthSizeMinusOne,
      packed 5 r.reserved.2 r.sps.length]
    ++ r.sps.flatMap Nal.encode ++ UInt8.ofNat r.pps.length :: r.pps.flatMap Nal.encode

/-- What the fields of the record are read to. -/
def read (r : AvccRecord) : UInt8 × List (List UInt8) :=
  (lengthByte r.reserved.1 r.lengthSizeMinusOne, (r.sps ++ r.pps).map Subtype.val)

def config (r : AvccRecord) : Option NalConfig :=
  configOf r.lengthSizeMinusOne ((r.sps ++ r.pps).map Subtype.val)

end AvccRecord

theorem reads_readAvcc :
    Reads rest readAvcc fun x w => ∃ r : AvccRecord, x = r.read ∧ w = r.encode := by
  refine (reads_u8_bind fun version => Reads.ite .failure <| (reads_skip 3).bind fun _ =>
    reads_u8_bind fun lengthByte => reads_u8_bind fun sps => reads_units_bind _ _ fun _ =>
    reads_u8_bind fun pps => reads_units_bind _ _ fun _ => Reads.pure _).congr fun x w => ⟨?_, ?_⟩
  -- the record that was read
  · rintro ⟨version, v, hv, rfl⟩
    split_ifs at hv with hversion
    obtain ⟨-, u, _, hlen, ⟨b, _, ⟨nsps, _, ⟨sps, _, hsps, ⟨npps, _, ⟨pps, _, hpps, ⟨rfl, rfl⟩, rfl⟩,
      rfl⟩, rfl⟩, rfl⟩, rfl⟩, rfl⟩ := hv
    obtain ⟨profile, compat, level, rfl⟩ := List.length_eq_three.1 hlen
    obtain ⟨reserved, minusOne, rfl⟩ := exists_lengthByte b
    -- the counts are those of the lists
    have hmask : (nsps &&& 0b11111).toNat < 2 ^ 5 := toNat_and_lt nsps (by decide)
    have hnsps : nsps = packed 5 (nsps.toNat / 2 ^ 5) sps.length := by
      rw [hsps]
      exact eq_packed nsps rfl
    have hnpps : npps = UInt8.ofNat pps.length := by rw [hpps, UInt8.ofNat_toNat]
    have hreserved : nsps.toNat / 2 ^ 5 < 8 := by
      have hlt := nsps.toNat_lt
      omega
    refine ⟨⟨profile, compat, level, (reserved, ⟨nsps.toNat / 2 ^ 5, hreserved⟩), minusOne, sps,
      hsps ▸ hmask, pps, hpps ▸ npps.toNat_lt⟩, ?_, ?_⟩
    · rw [AvccRecord.read, List.map_append, List.nil_append]
    · rw [AvccRecord.encode, ← hnsps, ← hnpps, not_not.1 hversion]
      simp
  -- the other way, its bytes are read back
  · rintro ⟨r, rfl, rfl⟩
    have hsps : (packed 5 r.reserved.2 r.sps.length &&& 0b11111).toNat = r.sps.length :=
      packed_mask rfl (by decide) r.sps_le
    have hpps : (UInt8.ofNat r.pps.length).toNat = r.pps.length := by
      rw [UInt8.toNat_ofNat', Nat.mod_eq_of_lt r.pps_le]
    refine ⟨1, _, ?_, rfl⟩
    rw [if_neg (not_not.2 rfl)]
    refine ⟨(), [r.profile, r.compat, r.level], _, rfl,
      ⟨lengthByte r.reserved.1 r.lengthSizeMinusOne, _, ⟨_, _, ⟨r.sps, _, hsps.symm,
        ⟨_, _, ⟨r.pps, [], hpps.symm, ⟨?_, rfl⟩, rfl⟩, rfl⟩, rfl⟩, rfl⟩, rfl⟩, ?_⟩
    · rw [AvccRecord.read, List.map_append, List.nil_append]
    · simp

theorem undoes_avcc : Undoes parseAvcc AvccRecord.encode AvccRecord.config :=
  undoes_of_body reads_readAvcc

/-! ### hvcC -/

/-- Units of one type; the first byte is the type and a flag. -/
structure NalArray where
  kind : UInt8
  units : List Nal
  units_le : units.length < 256 ^ 2

def NalArray.encode (a : NalArray) : List UInt8 :=
  a.kind :: (BigEndian.encode 2 a.units.length ++ a.units.flatMap Nal.encode)

theorem reads_pushArray (sets : List (List UInt8)) :
    Reads rest (pushArray sets) fun sets' w => ∃ a : NalArray,
      sets' = sets ++ a.units.map Subtype.val ∧ w = a.encode := by
  refine (reads_u8_bind fun _ => reads_u16.bind fun count => reads_units count sets).congr
    fun sets' w => ⟨?_, ?_⟩
  · rintro ⟨kind, _, ⟨_, _, _, ⟨hcount, rfl⟩, ⟨nals, rfl, rfl, rfl⟩, rfl⟩, rfl⟩
    exact ⟨⟨kind, nals, hcount⟩, rfl, rfl⟩
  · rintro ⟨a, rfl, rfl⟩
    exact ⟨a.kind, _, ⟨a.units.length, _, _, ⟨a.units_le, rfl⟩, ⟨a.units, rfl, rfl, rfl⟩, rfl⟩, rfl⟩

theorem reads_arrays (n : ℕ) (sets : List (List UInt8)) :
    Reads rest (times pushArray n sets) fun sets' w => ∃ arrays : List NalArray, arrays.length = n
      ∧ sets' = sets ++ (arrays.flatMap NalArray.units).map Subtype.val
      ∧ w = arrays.flatMap NalArray.encode := by
  refine (Reads.times reads_pushArray n sets).congr fun sets' w => ?_
  have hpush : ∀ arrays : List NalArray,
      arrays.foldl (fun sets a => sets ++ a.units.map Subtype.val) sets
        = sets ++ (arrays.flatMap NalArray.units).map Subtype.val := by
    intro arrays
    induction arrays generalizing sets with
    | nil => exact (List.append_nil sets).symm
    | cons a arrays ih =>
      rw [List.foldl_cons, ih, List.flatMap_cons, List.map_append, List.append_assoc]
  simp only [hpush]

/-- An `HEVCDecoderConfigurationRecord`. -/
structure HvccRecord where
  /-- Profile, tier, level and so on. -/
  profile : { bytes : List UInt8 // bytes.length = 20 }
  /-- The bits above the length size. -/
  reserved : Fin 64
  lengthSizeMinusOne : Fin 4
  arrays : List NalArray
  arrays_le : arrays.length < 2 ^ 8

namespace HvccRecord

def encode (r : HvccRecord) : List UInt8 :=
  1 :: r.profile.1 ++ [lengthByte r.reserved r.lengthSizeMinusOne, UInt8.ofNat r.arrays.length]
    ++ r.arrays.flatMap NalArray.encode

/-- What the fields of the record are read to. -/
def read (r : HvccRecord) : UInt8 × List (List UInt8) :=
  (lengthByte r.reserved r.lengthSizeMinusOne, (r.arrays.flatMap NalArray.units).map Subtype.val)

def config (r : HvccRecord) : Option NalConfig :=
  configOf r.lengthSizeMinusOne ((r.arrays.flatMap NalArray.units).map Subtype.val)

end HvccRecord

theorem reads_readHvcc :
    Reads rest readHvcc fun x w => ∃ r : HvccRecord, x = r.read ∧ w = r.encode := by
  refine (reads_u8_bind fun version => Reads.ite .failure <| (reads_skip 20).bind fun _ =>
    reads_u8_bind fun lengthByte => reads_u8_bind fun count => (reads_arrays _ _).bind fun _ =>
    Reads.pure _).congr fun x w => ⟨?_, ?_⟩
  · rintro ⟨version, v, hv, rfl⟩
    split_ifs at hv with hversion
    obtain ⟨-, profile, _, hlen, ⟨b, _, ⟨count, _, ⟨_, _, _, ⟨arrays, hcount, rfl, rfl⟩, ⟨rfl, rfl⟩,
      rfl⟩, rfl⟩, rfl⟩, rfl⟩ := hv
    obtain ⟨reserved, minusOne, rfl⟩ := exists_lengthByte b
    have hbyte : count = UInt8.ofNat arrays.length := by rw [hcount, UInt8.ofNat_toNat]
    refine ⟨⟨⟨profile, hlen⟩, reserved, minusOne, arrays, hcount ▸ count.toNat_lt⟩, ?_, ?_⟩
    · rw [HvccRecord.read, List.nil_append]
    · rw [HvccRecord.encode, ← hbyte, not_not.1 hversion]
      simp
  · rintro ⟨r, rfl, rfl⟩
    have hcount : (UInt8.ofNat r.arrays.length).toNat = r.arrays.length := by
      rw [UInt8.toNat_ofNat', Nat.mod_eq_of_lt r.arrays_le]
    refine ⟨1, _, ?_, rfl⟩
    rw [if_neg (not_not.2 rfl)]
    refine ⟨(), r.profile.1, _, r.profile.2,
      ⟨lengthByte r.reserved r.lengthSizeMinusOne, _, ⟨_, _, ⟨_, _, [],
        ⟨r.arrays, hcount.symm, rfl, rfl⟩, ⟨?_, rfl⟩, rfl⟩, rfl⟩, rfl⟩, ?_⟩
    · rw [HvccRecord.read, List.nil_append]
    · simp

theorem undoes_hvcc : Undoes parseHvcc HvccRecord.encode HvccRecord.config :=
  undoes_of_body reads_readHvcc

/-! ### Both -/

/-- Only version 1 is read. -/
theorem parse_version {raw : List UInt8} (h : raw.head? ≠ some 1) :
    parseAvcc raw = none ∧ parseHvcc raw = none := by
  constructor
  · apply undoes_avcc.eq_none
    rintro r t rfl
    exact h rfl
  · apply undoes_hvcc.eq_none
    rintro r t rfl
    exact h rfl

/-- **Parsing undoes writing**: every record, whatever follows it, is parsed to its length size and
units, or rejected for a length size of three; what is parsed is such a record; and a part of a
record, or another version, is rejected. -/
theorem parse_undoes_encode :
    (Undoes parseAvcc AvccRecord.encode AvccRecord.config
        ∧ Undoes parseHvcc HvccRecord.encode HvccRecord.config)
      ∧ ∀ raw : List UInt8, raw.head? ≠ some 1 → parseAvcc raw = none ∧ parseHvcc raw = none :=
  ⟨⟨undoes_avcc, undoes_hvcc⟩, fun _ => parse_version⟩

end NoshareCover.Bitstream
