import NoshareCover.Core.Spec.SampleCursor

/-!
# The tables of a layout

For every layout of samples in chunks there are tables that describe it (`ReMp4.describes_mux`).
-/

namespace NoshareCover

namespace ReMp4

open Cursor RunLength

def muxStts (samples : List LaidSample) : List SttsEntry :=
  (compress (samples.map LaidSample.delta)).map fun run => ⟨run.1, run.2⟩

def muxCtts (samples : List LaidSample) : List CttsEntry :=
  (compress (samples.map LaidSample.ctsOffset)).map fun run => ⟨run.1, run.2⟩

/-- An entry for each chunk, from chunk `i` on, that has another number of samples than the one
before. -/
def muxStsc : ℕ → Option ℕ → List ℕ → List StscEntry
  | _, _, [] => []
  | i, before, n :: counts =>
    if before = some n then muxStsc (i + 1) before counts
    else { firstChunk := i, samplesPerChunk := n } :: muxStsc (i + 1) (some n) counts

/-- The numbers of the sync samples. -/
def muxStss (samples : List LaidSample) : List ℕ :=
  (samples.zipIdx.filter fun p => p.1.isSync).map fun p => p.2 + 1

/-- Chunk offsets go to `stco`, and to `co64` if one of them has more than 32 bits. -/
def fitsStco (chunks : List LaidChunk) : Bool := chunks.all fun c => c.offset < 2 ^ 32

def mux (contents : StsdBoxContent) (rawCodecConfig : Option (List UInt8))
    (chunks : List LaidChunk) : StblBox :=
  { contents, rawCodecConfig,
    stts := muxStts (laid chunks), ctts := some (muxCtts (laid chunks)),
    stss := some (muxStss (laid chunks)),
    stsc := muxStsc 1 none (chunks.map fun c => c.samples.length),
    stsz := { sampleSize := 0, sampleCount := (laid chunks).length,
              sampleSizes := (laid chunks).map LaidSample.size },
    stco := if fitsStco chunks then some (chunks.map LaidChunk.offset) else none,
    co64 := if fitsStco chunks then none else some (chunks.map LaidChunk.offset) }

/-- Either table gives the offset of a chunk. -/
theorem sampleChunkOffset_mux (contents : StsdBoxContent) (rawCodecConfig : Option (List UInt8))
    (chunks : List LaidChunk) (i : ℕ) :
    sampleChunkOffset (mux contents rawCodecConfig chunks) (i + 1)
      = (chunks.map LaidChunk.offset)[i]? := by
  cases hfits : fitsStco chunks with
  | true =>
    simp only [sampleChunkOffset, mux, hfits, if_true]
    rfl
  | false =>
    simp only [sampleChunkOffset, mux, hfits, Bool.false_eq_true, if_false]
    rfl

theorem sttsRuns_muxStts (samples : List LaidSample) :
    sttsRuns (muxStts samples) = compress (samples.map LaidSample.delta) := by
  rw [sttsRuns, muxStts, List.map_map]
  exact List.map_id _

theorem cttsRuns_muxCtts (samples : List LaidSample) :
    cttsRuns (muxCtts samples) = compress (samples.map LaidSample.ctsOffset) := by
  rw [cttsRuns, muxCtts, List.map_map]
  exact List.map_id _

theorem le_firstChunk_muxStsc {i : ℕ} {before : Option ℕ} {counts : List ℕ} {e : StscEntry}
    (he : e ∈ muxStsc i before counts) : i ≤ e.firstChunk := by
  induction counts generalizing i before with
  | nil => exact absurd he List.not_mem_nil
  | cons n counts ih =>
    rw [muxStsc] at he
    split_ifs at he with hsame
    · exact i.le_succ.trans (ih he)
    · rcases List.mem_cons.1 he with rfl | he
      · exact le_rfl
      · exact i.le_succ.trans (ih he)

theorem pairwise_muxStsc (i : ℕ) (before : Option ℕ) (counts : List ℕ) :
    (muxStsc i before counts).Pairwise fun a b => a.firstChunk < b.firstChunk := by
  induction counts generalizing i before with
  | nil => exact List.Pairwise.nil
  | cons n counts ih =>
    rw [muxStsc]
    split_ifs with hsame
    · exact ih _ _
    · exact List.pairwise_cons.2 ⟨fun e he => le_firstChunk_muxStsc he, ih _ _⟩

/-- The last entry up to a chunk, or what was in force before, has the number of its samples. -/
theorem lookup_muxStsc {i k n : ℕ} {before : Option ℕ} {counts : List ℕ} (hn : counts[k]? = some n) :
    ((StepTable.lookup StscEntry.firstChunk (muxStsc i before counts) (i + k)).map
      StscEntry.samplesPerChunk).or before = some n := by
  induction counts generalizing i k before with
  | nil => simp at hn
  | cons m counts ih =>
    rw [muxStsc]
    -- the chunk itself, or one behind it
    cases k with
    | zero =>
      rw [List.getElem?_cons_zero, Option.some.injEq] at hn
      subst hn
      -- a chunk like the one before has no entry of its own
      split_ifs with hsame
      · have hnone : (muxStsc (i + 1) before counts).filter
            (fun e => decide (e.firstChunk ≤ i + 0)) = [] := by
          refine List.filter_eq_nil_iff.2 fun e he => ?_
          have := le_firstChunk_muxStsc he
          simp only [decide_eq_true_eq]
          omega
        rw [StepTable.lookup, hnone, hsame]
        rfl
      · have hnone : (muxStsc (i + 1) (some m) counts).filter
            (fun e => decide (e.firstChunk ≤ i + 0)) = [] := by
          refine List.filter_eq_nil_iff.2 fun e he => ?_
          have := le_firstChunk_muxStsc he
          simp only [decide_eq_true_eq]
          omega
        rw [StepTable.lookup, List.filter_cons_of_pos (by simp), hnone]
        rfl
    | succ k =>
      rw [List.getElem?_cons_succ] at hn
      have hindex : i + (k + 1) = i + 1 + k := by omega
      split_ifs with hsame
      · rw [hindex]
        -- the entry is the last one that begins at or before the chunk
        exact ih hn
      · have hrest : ((StepTable.lookup StscEntry.firstChunk (muxStsc (i + 1) (some m) counts)
            (i + 1 + k)).map StscEntry.samplesPerChunk).or (some m) = some n := ih hn
        rw [StepTable.lookup, List.filter_cons_of_pos (by simp), hindex]
        rw [StepTable.lookup] at hrest
        rcases hlast : ((muxStsc (i + 1) (some m) counts).filter
            fun e => decide (e.firstChunk ≤ i + 1 + k)).getLast? with _ | e
        · rw [hlast] at hrest
          rw [List.getLast?_cons, hlast]
          exact hrest
        · rw [hlast] at hrest
          rw [List.getLast?_cons, hlast]
          exact hrest

theorem mem_muxStss {samples : List LaidSample} {n : ℕ} {s : LaidSample}
    (hs : samples[n]? = some s) : s.isSync = true ↔ n + 1 ∈ muxStss samples := by
  rw [muxStss, List.mem_map]
  constructor
  · intro hsync
    exact ⟨(s, n), List.mem_filter.2 ⟨List.mk_mem_zipIdx_iff_getElem?.2 hs, hsync⟩, rfl⟩
  · rintro ⟨⟨t, m⟩, ht, hm⟩
    obtain ⟨hmem, hsync⟩ := List.mem_filter.1 ht
    obtain rfl : m = n := Nat.succ.inj hm
    have hsame := (List.mk_mem_zipIdx_iff_getElem?.1 hmem).symm.trans hs
    cases hsame
    exact hsync

theorem muxStss_sorted (samples : List LaidSample) :
    (muxStss samples).Pairwise (· < ·) ∧ ∀ number ∈ muxStss samples, 0 < number := by
  constructor
  · have hindex : (samples.zipIdx.map Prod.snd).Pairwise (· < ·) := by
      rw [List.zipIdx_map_snd]
      exact List.pairwise_lt_range' ..
    rw [List.pairwise_map] at hindex
    rw [muxStss, List.pairwise_map]
    exact (hindex.sublist List.filter_sublist).imp Nat.succ_lt_succ
  · intro number hnumber
    obtain ⟨p, -, rfl⟩ := List.mem_map.1 hnumber
    exact p.2.succ_pos

/-- The tables of a muxer describe the chunks. -/
theorem describes_mux (contents : StsdBoxContent) (rawCodecConfig : Option (List UInt8))
    {chunks : List LaidChunk} (hne : ∀ c ∈ chunks, c.samples ≠ []) (hcount : chunks.length ≤ u64Max)
    (hfits : ∀ p ∈ placed chunks, p.1 ≤ u64Max) :
    Describes (mux contents rawCodecConfig chunks) chunks where
  -- every table of the box, as it was written
  samples_ne_nil := hne
  total := by
    show max ((laid chunks).map LaidSample.size).length (laid chunks).length = _
    rw [List.length_map, max_self]
  size n s hs := by
    show ((laid chunks).map LaidSample.size)[n]? = _
    rw [List.getElem?_map, hs]
    rfl
  sttsPos := by
    rw [mux, sttsRuns_muxStts]
    exact pos_compress _
  stts := by rw [mux, sttsRuns_muxStts, expand_compress]
  noCtts := nofun
  cttsPos := by
    rintro _ ⟨⟩
    rw [cttsRuns_muxCtts]
    exact pos_compress _
  ctts := by
    rintro _ ⟨⟩
    rw [cttsRuns_muxCtts, expand_compress]
  noStss := nofun
  stssSorted := by
    rintro _ ⟨⟩
    exact muxStss_sorted _
  stss := by
    rintro _ ⟨⟩ n s hs
    exact mem_muxStss hs
  count := hcount
  stscFirst hchunks := by
    obtain ⟨c, rest, rfl⟩ := List.exists_cons_of_ne_nil hchunks
    exact ⟨⟨1, c.samples.length⟩, rfl, rfl⟩
  stscSorted := pairwise_muxStsc _ _ _
  stsc i c hc := by
    have hn : (chunks.map fun c => c.samples.length)[i]? = some c.samples.length := by
      rw [List.getElem?_map, hc]
      rfl
    have hlookup : ((StepTable.lookup StscEntry.firstChunk (mux contents rawCodecConfig chunks).stsc
        (1 + i)).map StscEntry.samplesPerChunk).or none = some c.samples.length := lookup_muxStsc hn
    rw [Option.or_none, Nat.add_comm] at hlookup
    exact hlookup
  stco i c hc := by
    rw [sampleChunkOffset_mux, List.getElem?_map, hc]
    rfl
  fits := hfits

end ReMp4

end NoshareCover
