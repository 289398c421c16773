import Mathlib.Data.Nat.Bitwise
import NoshareCover.Lib.Grammar

/-!
# H.264/HEVC from container format to Annex-B

MP4 and Matroska store H.264/HEVC as "length + NAL", with the parameter sets kept separately in
avcC/hvcC.  Decoders expect Annex-B: `00 00 00 01` + NAL, with the parameter sets in-stream before
each keyframe.
-/

namespace NoshareCover.Bitstream

def startCode : List UInt8 := [0, 0, 0, 1]

/-- Parsed codec config.  The parsers reject a length field of three bytes, so `to_annexb` never
meets one. -/
structure NalConfig where
  /-- Size of the NAL length prefix in a sample, in bytes. -/
  lengthSize : ℕ
  lengthSize_valid : lengthSize = 1 ∨ lengthSize = 2 ∨ lengthSize = 4
  /-- VPS/SPS/PPS in the order they must be fed to the decoder. -/
  parameterSets : List (List UInt8)
  deriving DecidableEq

/-! ### The reader -/

/-- A cursor that never passes the end of its buffer. -/
structure Reader where
  buf : List UInt8
  pos : ℕ
  pos_le : pos ≤ buf.length

/-- A read gives nothing if the buffer is too short for it. -/
abbrev Read := StateT Reader Option

namespace Reader

def new (buf : List UInt8) : Reader := { buf, pos := 0, pos_le := Nat.zero_le _ }

def u8 : Read UInt8 := fun r =>
  if h : r.pos < r.buf.length then some (r.buf[r.pos], { r with pos := r.pos + 1, pos_le := h })
  else none

def u16 : Read ℕ := do
  let hi ← u8
  let lo ← u8
  pure (hi.toNat * 256 + lo.toNat)

def bytes (n : ℕ) : Read (List UInt8) := fun r =>
  if h : r.pos + n ≤ r.buf.length then
    some ((r.buf.drop r.pos).take n, { r with pos := r.pos + n, pos_le := h })
  else none

def skip (n : ℕ) : Read Unit := do
  let _ ← bytes n
  pure ()

end Reader

open Reader

/-! ### The configuration records -/

/-- A masked byte has the bits of the mask. -/
theorem toNat_and_lt (b : UInt8) {mask : UInt8} {k : ℕ} (h : mask.toNat < 2 ^ k) :
    (b &&& mask).toNat < 2 ^ k := by
  rw [UInt8.toNat_and]
  exact Nat.and_lt_two_pow _ h

/-- The size of a length field from the byte that has it in its last two bits. -/
def lengthSize (b : UInt8) : ℕ := (b &&& 0b11).toNat + 1

theorem lengthSize_valid {b : UInt8} (h : lengthSize b ≠ 3) :
    lengthSize b = 1 ∨ lengthSize b = 2 ∨ lengthSize b = 4 := by
  have hlt : (b &&& 0b11).toNat < 2 ^ 2 := toNat_and_lt b (by decide)
  unfold lengthSize at h ⊢
  omega

/-- The config of a record that was read to its end. -/
def nalConfig (b : UInt8) (sets : List (List UInt8)) : Option NalConfig :=
  if h : lengthSize b ≠ 3 then
    some { lengthSize := lengthSize b, lengthSize_valid := lengthSize_valid h, parameterSets := sets }
  else none

/-- One counted unit. -/
def pushUnit (sets : List (List UInt8)) : Read (List (List UInt8)) := do
  let n ← u16
  let unit ← bytes n
  pure (sets ++ [unit])

/-- The length byte and the parameter sets of an `AVCDecoderConfigurationRecord`. -/
def readAvcc : Read (UInt8 × List (List UInt8)) := do
  let version ← u8
  if version ≠ 1 then failure
  else do
    skip 3 -- profile, compat, level
    let lengthByte ← u8
    let sps ← u8
    let sets ← Grammar.times pushUnit (sps &&& 0b11111).toNat []
    let pps ← u8
    let sets ← Grammar.times pushUnit pps.toNat sets
    pure (lengthByte, sets)

def parseAvcc (raw : List UInt8) : Option NalConfig :=
  (readAvcc.run (Reader.new raw)).bind fun q => nalConfig q.1.1 q.1.2

/-- An array of units of one type. -/
def pushArray (sets : List (List UInt8)) : Read (List (List UInt8)) := do
  let _ ← u8 -- completeness and NAL type
  let count ← u16
  Grammar.times pushUnit count sets

/-- The length byte and the parameter sets of an `HEVCDecoderConfigurationRecord`. -/
def readHvcc : Read (UInt8 × List (List UInt8)) := do
  let version ← u8
  if version ≠ 1 then failure
  else do
    skip 20 -- profile, tier, level and so on up to the length size
    let lengthByte ← u8
    let arrays ← u8
    let sets ← Grammar.times pushArray arrays.toNat []
    pure (lengthByte, sets)

def parseHvcc (raw : List UInt8) : Option NalConfig :=
  (readHvcc.run (Reader.new raw)).bind fun q => nalConfig q.1.1 q.1.2

/-! ### Annex-B -/

/-- One round of the loop in `to_annexb`: an empty unit is left out. -/
def annexbRound (cfg : NalConfig) (out : List UInt8) : Read (List UInt8) := do
  let lenBytes ← bytes cfg.lengthSize
  let n := lenBytes.foldl (fun acc b => acc <<< 8 ||| b.toNat) 0
  if n = 0 then pure out
  else do
    let nal ← bytes n
    pure (out ++ startCode ++ nal)

theorem bytes_advances {n : ℕ} {r r' : Reader} {b : List UInt8} (h : (bytes n).run r = some (b, r')) :
    r'.buf = r.buf ∧ r'.pos = r.pos + n := by
  change (if h : r.pos + n ≤ r.buf.length then _ else none) = _ at h
  split_ifs at h
  cases h
  exact ⟨rfl, rfl⟩

/-- The cursor never stands still: the length field was read. -/
theorem annexbRound_advances {cfg : NalConfig} {out out' : List UInt8} {r r' : Reader}
    (h : (annexbRound cfg out).run r = some (out', r')) : r'.buf = r.buf ∧ r.pos < r'.pos := by
  have hpos : 0 < cfg.lengthSize := by
    -- the length takes one byte at least
    rcases cfg.lengthSize_valid with h | h | h <;> omega
  unfold annexbRound at h
  rw [StateT.run_bind] at h
  obtain ⟨⟨lenBytes, r₁⟩, hlen, h⟩ := Option.bind_eq_some_iff.1 h
  obtain ⟨hbuf, hadd⟩ := bytes_advances hlen
  dsimp only at h
  -- an empty unit is skipped, any other is read
  split_ifs at h with hempty
  · cases h
    exact ⟨hbuf, by omega⟩
  · rw [StateT.run_bind] at h
    obtain ⟨⟨nal, r₂⟩, hnal, h⟩ := Option.bind_eq_some_iff.1 h
    obtain ⟨hbuf', hadd'⟩ := bytes_advances hnal
    cases h
    refine ⟨hbuf'.trans hbuf, ?_⟩
    dsimp only at hadd' ⊢
    omega

/-- The loop in `to_annexb`, up to the end of the sample. -/
def annexbLoop (cfg : NalConfig) (r : Reader) (out : List UInt8) : Option (List UInt8) :=
  if r.pos < r.buf.length then
    match _h : (annexbRound cfg out).run r with
    | some (out', r') => annexbLoop cfg r' out'
    | none => none
  else some out
termination_by r.buf.length - r.pos
decreasing_by
  obtain ⟨hbuf, hlt⟩ := annexbRound_advances _h
  rw [hbuf]
  omega

/-- "Length + NAL" sample → Annex-B.  Keyframes get the parameter sets prepended.  `none`: the
sample is broken (a length runs past the end); drop that frame. -/
def toAnnexb (sample : List UInt8) (cfg : NalConfig) (keyframe : Bool) : Option (List UInt8) :=
  annexbLoop cfg (Reader.new sample)
    (if keyframe then cfg.parameterSets.flatMap fun ps => startCode ++ ps else [])

end NoshareCover.Bitstream
