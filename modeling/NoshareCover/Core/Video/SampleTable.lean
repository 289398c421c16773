import NoshareCover.Core.Video.Mp4

/-!
# The sample tables of an MP4 file

The library turns the tables of a `trak` box, each with a coding of its own, into a list of samples.
One loop over the samples keeps a place in each table.  `none` is a panic: a table is too short.
-/

namespace NoshareCover

namespace ReMp4

/-- A sample of a track.  Timestamps and durations are in time units of `1 / timescale` seconds. -/
structure Sample where
  /-- Sample number. -/
  id : ℕ
  isSync : Bool
  size : ℕ
  /-- Bytes from the start of the file. -/
  offset : ℕ
  timescale : ℕ
  decodeTimestamp : ℤ
  compositionTimestamp : ℤ
  duration : ℕ
  deriving DecidableEq, Repr

structure SttsEntry where
  sampleCount : ℕ
  sampleDelta : ℕ
  deriving DecidableEq, Repr

structure CttsEntry where
  sampleCount : ℕ
  sampleOffset : ℤ
  deriving DecidableEq, Repr

structure StscEntry where
  firstChunk : ℕ
  samplesPerChunk : ℕ
  deriving DecidableEq, Repr

structure StszBox where
  sampleSize : ℕ
  sampleCount : ℕ
  sampleSizes : List ℕ
  deriving DecidableEq, Repr

structure StblBox where
  /-- The contents of `stsd`, and the raw bytes of the codec configuration in it. -/
  contents : StsdBoxContent
  rawCodecConfig : Option (List UInt8)
  stts : List SttsEntry
  ctts : Option (List CttsEntry)
  stss : Option (List ℕ)
  stsc : List StscEntry
  stsz : StszBox
  stco : Option (List ℕ)
  co64 : Option (List ℕ)
  deriving DecidableEq, Repr

/-- What is used of a `trak` box: of `tkhd` the id and the size in pixels, of `mdhd` the timescale and
the duration, and the sample tables. -/
structure TrakBox where
  trackId : ℕ
  width : ℕ
  height : ℕ
  timescale : ℕ
  duration : ℕ
  stbl : StblBox
  deriving DecidableEq, Repr

/-- `u64::MAX`. -/
def u64Max : ℕ := 0xFFFFFFFFFFFFFFFF

/-- `i64::MAX`. -/
def i64Max : ℤ := 0x7FFFFFFFFFFFFFFF

/-- A sum in `u64`. -/
def wrapU64 (n : ℕ) : ℕ := n % (u64Max + 1)

theorem wrapU64_eq {n : ℕ} (h : n ≤ u64Max) : wrapU64 n = n := Nat.mod_eq_of_lt (Nat.lt_succ_of_le h)

/-- The place in `stsc`, and in the chunk. -/
structure ChunkPlace where
  chunkIndex : ℕ
  chunkRunIndex : ℕ
  lastSampleInChunk : ℕ
  offsetInChunk : ℕ
  lastChunkInRun : ℕ
  deriving DecidableEq, Repr

/-- The place in `stts` or in `ctts`. -/
structure RunPlace where
  lastSampleInRun : ℤ
  runIndex : ℤ
  deriving DecidableEq, Repr

/-- The variables of the loop. -/
structure Building where
  chunk : ChunkPlace
  sttsPlace : RunPlace
  lastStssIndex : ℕ
  cttsPlace : RunPlace
  dtsShift : ℤ
  /-- The smallest presentation timestamp observed. -/
  minCompositionTimestamp : ℤ
  samples : List Sample
  deriving DecidableEq, Repr

def Building.start : Building :=
  { chunk := { chunkIndex := 1, chunkRunIndex := 0, lastSampleInChunk := 0, offsetInChunk := 0,
               lastChunkInRun := 0 },
    sttsPlace := { lastSampleInRun := -1, runIndex := -1 },
    lastStssIndex := 0,
    cttsPlace := { lastSampleInRun := -1, runIndex := -1 },
    dtsShift := 0, minCompositionTimestamp := i64Max, samples := [] }

/-- The chunk before the next run of `stsc`; `first_chunk - 1` wraps around at 0. -/
def lastChunkOf (stsc : List StscEntry) (chunkRunIndex : ℕ) : ℕ :=
  match stsc[chunkRunIndex + 1]? with
  | some entry => if entry.firstChunk = 0 then u64Max else entry.firstChunk - 1
  | none => u64Max

/-- The chunk of sample `sampleN`. -/
def ChunkPlace.next (stsc : List StscEntry) (sampleN : ℕ) (p : ChunkPlace) : Option ChunkPlace :=
  if sampleN = 0 then
    stsc[0]?.map fun entry =>
      { chunkIndex := 1, chunkRunIndex := 0, lastSampleInChunk := entry.samplesPerChunk,
        offsetInChunk := 0, lastChunkInRun := lastChunkOf stsc 0 }
  else if sampleN < p.lastSampleInChunk then some p
  else
    let chunkIndex := p.chunkIndex + 1
    let moved := p.lastChunkInRun < chunkIndex
    let chunkRunIndex := if moved then p.chunkRunIndex + 1 else p.chunkRunIndex
    stsc[chunkRunIndex]?.map fun entry =>
      { chunkIndex, chunkRunIndex, offsetInChunk := 0,
        lastSampleInChunk := p.lastSampleInChunk + entry.samplesPerChunk,
        lastChunkInRun :=
          if moved then lastChunkOf stsc chunkRunIndex else p.lastChunkInRun }

/-- On to the next run, with so many samples. -/
def RunPlace.advance (counts : List ℕ) (p : RunPlace) : Option RunPlace :=
  let runIndex := p.runIndex + 1
  let last := if p.lastSampleInRun < 0 then 0 else p.lastSampleInRun
  counts[runIndex.toNat]?.map fun count => { lastSampleInRun := last + count, runIndex }

/-- `sttsPlace` has the run that gives the duration of the sample before `sampleN`. -/
def sttsNext (stts : List SttsEntry) (sampleN : ℕ) (p : RunPlace) : Option RunPlace :=
  if p.lastSampleInRun < sampleN then p.advance (stts.map SttsEntry.sampleCount) else some p

def cttsNext (ctts : List CttsEntry) (sampleN : ℕ) (p : RunPlace) : Option RunPlace :=
  if p.lastSampleInRun ≤ sampleN then p.advance (ctts.map CttsEntry.sampleCount) else some p

def sampleChunkOffset (stbl : StblBox) (chunkIndex : ℕ) : Option ℕ :=
  match stbl.stco, stbl.co64 with
  | some entries, _ => entries[chunkIndex - 1]?
  | none, some entries => entries[chunkIndex - 1]?
  | none, none => none

def StszBox.size (stsz : StszBox) (sampleN : ℕ) : Option ℕ :=
  if stsz.sampleSize = 0 then stsz.sampleSizes[sampleN]? else some stsz.sampleSize

/-- The loop stops behind this many samples. -/
def StszBox.total (stsz : StszBox) : ℕ :=
  if stsz.sampleSize = 0 then max stsz.sampleSizes.length stsz.sampleCount else stsz.sampleCount

/-- The condition of the loop. -/
theorem StszBox.lt_total_iff (stsz : StszBox) (sampleN : ℕ) : sampleN < stsz.total ↔
    (sampleN < stsz.sampleSizes.length ∧ stsz.sampleSize = 0) ∨ sampleN < stsz.sampleCount := by
  rw [total]
  split_ifs with hsize
  · rw [lt_max_iff, and_iff_left hsize]
  · simp [hsize]

/-- The timestamp of a sample in the order of decoding, and the samples with the duration of the one
before filled in. -/
def decodeNext (stts : List SttsEntry) (p : RunPlace) (sampleN : ℕ) (samples : List Sample) :
    Option (ℤ × List Sample) :=
  if sampleN = 0 then some (0, samples)
  else do
    let entry ← stts[p.runIndex.toNat]?
    let prev ← samples[sampleN - 1]?
    return (prev.decodeTimestamp + entry.sampleDelta,
      samples.set (sampleN - 1) { prev with duration := entry.sampleDelta })

/-- The place in `ctts`, the `dts` shift and the timestamp of presentation. -/
def compositionNext (ctts : Option (List CttsEntry)) (sampleN : ℕ) (p : RunPlace) (dtsShift : ℤ)
    (decodeTimestamp : ℤ) : Option (RunPlace × ℤ × ℤ) :=
  match ctts with
  | none => some (p, dtsShift, decodeTimestamp)
  | some entries => do
    let p ← cttsNext entries sampleN p
    let entry ← entries[p.runIndex.toNat]?
    let offset := entry.sampleOffset
    return (p, if offset < 0 then max dtsShift (-offset) else dtsShift, decodeTimestamp + offset)

/-- Whether the sample is a sync sample, and the place in `stss`. -/
def syncNext (stss : Option (List ℕ)) (sampleN lastStssIndex : ℕ) : Bool × ℕ :=
  match stss with
  | none => (true, lastStssIndex)
  | some entries =>
    if entries[lastStssIndex]? = some (sampleN + 1) then (true, lastStssIndex + 1)
    else (false, lastStssIndex)

/-- One round of the loop. -/
def Building.push (trak : TrakBox) (b : Building) (sampleN : ℕ) : Option Building := do
  let stbl := trak.stbl
  let chunk ← b.chunk.next stbl.stsc sampleN
  let sttsPlace ← sttsNext stbl.stts sampleN b.sttsPlace
  let size ← stbl.stsz.size sampleN
  let chunkOffset ← sampleChunkOffset stbl chunk.chunkIndex
  let offset := wrapU64 (chunkOffset + chunk.offsetInChunk)
  let (decodeTimestamp, samples) ← decodeNext stbl.stts sttsPlace sampleN b.samples
  let (cttsPlace, dtsShift, compositionTimestamp) ←
    compositionNext stbl.ctts sampleN b.cttsPlace b.dtsShift decodeTimestamp
  let (isSync, lastStssIndex) := syncNext stbl.stss sampleN b.lastStssIndex
  return { chunk := { chunk with offsetInChunk := chunk.offsetInChunk + size },
           sttsPlace, lastStssIndex, cttsPlace, dtsShift,
           minCompositionTimestamp := min b.minCompositionTimestamp compositionTimestamp,
           samples := samples ++
             [{ id := samples.length, timescale := trak.timescale, size, offset, decodeTimestamp,
                compositionTimestamp, isSync, duration := 0 }] }

/-- The last sample lasts until the end of the track; the subtraction wraps around. -/
def closeLast (duration : ℕ) (samples : List Sample) : List Sample :=
  match samples.getLast? with
  | none => samples
  | some last => samples.dropLast ++
      [{ last with duration := ((duration - last.decodeTimestamp) % (u64Max + 1)).toNat }]

/-- Timestamps earlier by so much. -/
def Sample.shift (dts cts : ℤ) (s : Sample) : Sample :=
  { s with decodeTimestamp := s.decodeTimestamp - dts,
           compositionTimestamp := s.compositionTimestamp - cts }

/-- The samples in the tables of a track. -/
def buildSamples (trak : TrakBox) : Option (List Sample) := do
  let b ← (List.range trak.stbl.stsz.total).foldlM (Building.push trak) Building.start
  let samples := closeLast trak.duration b.samples
  let samples := if 0 < b.dtsShift then samples.map (Sample.shift b.dtsShift 0) else samples
  let least := b.minCompositionTimestamp
  return if least ≠ 0 then samples.map (Sample.shift least least) else samples

end ReMp4

end NoshareCover
