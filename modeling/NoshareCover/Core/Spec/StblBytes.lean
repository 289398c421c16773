import Mathlib.Algebra.Order.BigOperators.Group.List
import NoshareCover.Core.Spec.SampleEntry

/-!
# From the bytes of the sample tables to the samples

The tables of a layout fit into their boxes when its numbers do, and what is read of the boxes are the
samples of the layout (`ReMp4.samples_of_bytes`).
-/

namespace NoshareCover

namespace ReMp4

open Reader BigEndian Cursor RunLength

/-! ### The numbers of a layout -/

/-- Numbers of 32 bits, and so few samples that each table fits into a box. -/
structure LayoutFits (chunks : List LaidChunk) : Prop where
  count : (laid chunks).length < 2 ^ 28
  nonempty : ∀ c ∈ chunks, c.samples ≠ []
  offset : ∀ c ∈ chunks, c.offset < 2 ^ 32
  size : ∀ s ∈ laid chunks, s.size < 2 ^ 32
  delta : ∀ s ∈ laid chunks, s.delta < 2 ^ 32
  ctsOffset : ∀ s ∈ laid chunks, -2 ^ 31 ≤ s.ctsOffset ∧ s.ctsOffset < 2 ^ 31

theorem length_le_laid {chunks : List LaidChunk} (h : ∀ c ∈ chunks, c.samples ≠ []) :
    chunks.length ≤ (laid chunks).length := by
  induction chunks with
  | nil => exact le_rfl
  | cons c chunks ih =>
    have hrest := ih fun c' hc' => h c' (List.mem_cons_of_mem c hc')
    have hfirst := List.length_pos_of_ne_nil (h c (List.mem_cons_self ..))
    rw [laid, List.flatMap_cons, List.length_append, List.length_cons]
    rw [laid] at hrest
    omega

theorem sum_counts (chunks : List LaidChunk) :
    (chunks.map fun c => c.samples.length).sum = (laid chunks).length := by
  rw [laid, List.length_flatMap]

theorem place_le {offset bound : ℕ} {samples : List LaidSample} (h : ∀ s ∈ samples, s.size ≤ bound) :
    ∀ p ∈ place offset samples, p.1 ≤ offset + samples.length * bound := by
  induction samples generalizing offset with
  | nil => exact fun p hp => absurd hp List.not_mem_nil
  | cons s samples ih =>
    intro p hp
    rw [List.length_cons, Nat.succ_mul]
    rcases List.mem_cons.1 hp with rfl | hp
    · exact Nat.le_add_right _ _
    · have hrest := ih (fun s' hs' => h s' (List.mem_cons_of_mem s hs')) p hp
      have hfirst := h s (List.mem_cons_self ..)
      omega

/-- Every sample starts at an offset of 64 bits. -/
theorem LayoutFits.placed_le {chunks : List LaidChunk} (h : LayoutFits chunks) :
    ∀ p ∈ placed chunks, p.1 ≤ u64Max := by
  intro p hp
  obtain ⟨c, hc, hp⟩ := List.mem_flatMap.1 hp
  have hsub : c.samples.length ≤ (laid chunks).length := by
    rw [← sum_counts]
    exact List.le_sum_of_mem (List.mem_map_of_mem hc)
  have hplace : p.1 ≤ c.offset + c.samples.length * 2 ^ 32 :=
    place_le (fun s hs => (h.size s (List.mem_flatMap.2 ⟨c, hc, hs⟩)).le) p hp
  have hoffset := h.offset c hc
  have hcount := h.count
  have hmul : c.samples.length * 2 ^ 32 ≤ 2 ^ 28 * 2 ^ 32 := Nat.mul_le_mul_right _ (by omega)
  unfold u64Max
  omega

theorem muxStts_fits {chunks : List LaidChunk} (h : LayoutFits chunks) :
    (muxStts (laid chunks)).length ≤ (laid chunks).length
      ∧ ∀ e ∈ muxStts (laid chunks), e.Fits := by
  have hexpand := expand_compress ((laid chunks).map LaidSample.delta)
  have hpos := pos_compress ((laid chunks).map LaidSample.delta)
  have hlength := congrArg List.length hexpand
  rw [List.length_map] at hlength
  -- not more runs than samples
  constructor
  · have := length_le_expand hpos
    rw [muxStts, List.length_map]
    omega
  -- each with a count and a value of the layout
  · intro e he
    obtain ⟨run, hrun, rfl⟩ := List.mem_map.1 he
    have hcount := length_run_le hrun
    have hvalue := mem_expand hrun (hpos run hrun)
    rw [hexpand] at hvalue
    obtain ⟨s, hs, hdelta⟩ := List.mem_map.1 hvalue
    have := h.count
    exact ⟨by dsimp only; omega, hdelta ▸ h.delta s hs⟩

theorem muxCtts_fits {chunks : List LaidChunk} (h : LayoutFits chunks) :
    (muxCtts (laid chunks)).length ≤ (laid chunks).length
      ∧ ∀ e ∈ muxCtts (laid chunks), e.Fits := by
  have hexpand := expand_compress ((laid chunks).map LaidSample.ctsOffset)
  have hpos := pos_compress ((laid chunks).map LaidSample.ctsOffset)
  have hlength := congrArg List.length hexpand
  rw [List.length_map] at hlength
  -- not more runs than samples
  constructor
  · have := length_le_expand hpos
    rw [muxCtts, List.length_map]
    omega
  -- each with a count and a value of the layout
  · intro e he
    obtain ⟨run, hrun, rfl⟩ := List.mem_map.1 he
    have hcount := length_run_le hrun
    have hvalue := mem_expand hrun (hpos run hrun)
    rw [hexpand] at hvalue
    obtain ⟨s, hs, hoffset⟩ := List.mem_map.1 hvalue
    have := h.count
    exact ⟨by dsimp only; omega, hoffset ▸ h.ctsOffset s hs⟩

theorem muxStss_fits {chunks : List LaidChunk} (h : LayoutFits chunks) :
    (muxStss (laid chunks)).length ≤ (laid chunks).length
      ∧ ∀ n ∈ muxStss (laid chunks), n < 2 ^ 32 := by
  constructor
  · rw [muxStss, List.length_map]
    exact (List.length_filter_le ..).trans_eq List.length_zipIdx
  · intro n hn
    obtain ⟨⟨s, m⟩, hm, rfl⟩ := List.mem_map.1 hn
    have hlt := List.snd_lt_of_mem_zipIdx (List.mem_filter.1 hm).1
    have := h.count
    dsimp only at *
    omega

theorem length_muxStsc_le (i : ℕ) (before : Option ℕ) (counts : List ℕ) :
    (muxStsc i before counts).length ≤ counts.length := by
  induction counts generalizing i before with
  | nil => exact le_rfl
  | cons n counts ih =>
    rw [muxStsc]
    split_ifs
    · exact (ih _ _).trans (Nat.le_succ _)
    · exact Nat.succ_le_succ (ih _ _)

theorem mem_muxStsc {i : ℕ} {before : Option ℕ} {counts : List ℕ} {e : StscEntry}
    (he : e ∈ muxStsc i before counts) :
    e.firstChunk < i + counts.length ∧ e.samplesPerChunk ∈ counts := by
  induction counts generalizing i before with
  | nil => exact absurd he List.not_mem_nil
  | cons n counts ih =>
    rw [muxStsc] at he
    rw [List.length_cons]
    split_ifs at he with hsame
    · obtain ⟨hchunk, hmem⟩ := ih he
      exact ⟨by omega, List.mem_cons_of_mem n hmem⟩
    · rcases List.mem_cons.1 he with rfl | he
      · exact ⟨by dsimp only; omega, List.mem_cons_self ..⟩
      · obtain ⟨hchunk, hmem⟩ := ih he
        exact ⟨by omega, List.mem_cons_of_mem n hmem⟩

/-- The numbers of the first samples of the entries, behind chunks `j` to `i` of `n` samples each. -/
theorem firstSamples_muxStsc {counts : List ℕ} {i j n sampleId : ℕ} (hji : j ≤ i)
    (hfits : sampleId + (i - j) * n + counts.sum < 2 ^ 32) :
    (firstSamples sampleId ({ firstChunk := j, samplesPerChunk := n }
      :: muxStsc i (some n) counts)).isSome := by
  induction counts generalizing i j n sampleId with
  | nil => rfl
  | cons m counts ih =>
    rw [List.sum_cons] at hfits
    rw [muxStsc]
    -- a chunk like the one before adds to its samples
    split_ifs with hsame
    · cases hsame
      refine ih (by omega) ?_
      rw [Nat.succ_sub hji, Nat.succ_mul]
      omega
    -- another one has an entry, at its first sample
    · have hrest : (firstSamples ((i - j) * n + sampleId) ({ firstChunk := i, samplesPerChunk := m }
          :: muxStsc (i + 1) (some m) counts)).isSome :=
        ih (by omega) (by rw [Nat.add_sub_cancel_left, Nat.one_mul]; omega)
      rw [firstSamples, if_neg (by dsimp only; omega)]
      dsimp only
      rw [if_pos (by omega), Option.isSome_map]
      exact hrest

theorem muxStsc_fits {chunks : List LaidChunk} (h : LayoutFits chunks) :
    let entries := muxStsc 1 none (chunks.map fun c => c.samples.length)
    entries.length ≤ (laid chunks).length ∧ (∀ e ∈ entries, e.Fits)
      ∧ checkFirstSamples entries = .ok () := by
  intro entries
  have hcount := h.count
  have hchunks := length_le_laid h.nonempty
  have hlength := length_muxStsc_le 1 none (chunks.map fun c => c.samples.length)
  rw [List.length_map] at hlength
  refine ⟨hlength.trans hchunks, fun e he => ?_, ?_⟩
  · obtain ⟨hchunk, hmem⟩ := mem_muxStsc he
    rw [List.length_map] at hchunk
    have hsum := List.le_sum_of_mem hmem
    rw [sum_counts] at hsum
    exact ⟨by omega, by omega⟩
  -- the first samples count up to the samples of the layout
  · have hsome : (firstSamples 1 entries).isSome := by
      cases hcounts : chunks.map fun c => c.samples.length with
      | nil =>
        show (firstSamples 1 (muxStsc 1 none _)).isSome
        rw [hcounts]
        rfl
      | cons n counts =>
        have hsum := sum_counts chunks
        show (firstSamples 1 (muxStsc 1 none _)).isSome
        rw [hcounts] at hsum ⊢
        rw [List.sum_cons] at hsum
        rw [muxStsc, if_neg (by simp)]
        exact firstSamples_muxStsc (i := 2) (by omega) (by omega)
    obtain ⟨firsts, hfirsts⟩ := Option.isSome_iff_exists.1 hsome
    rw [checkFirstSamples, hfirsts]

/-! ### The bytes of a muxer -/

/-- The tables of a layout, behind an `stsd` box. -/
def muxParts (stsdContents : List UInt8) (stsd : Stsd) (chunks : List LaidChunk) : List StblPart :=
  [.stsd stsdContents stsd, .stts (muxStts (laid chunks)), .ctts (muxCtts (laid chunks)),
    .stss (muxStss (laid chunks)), .stsc (muxStsc 1 none (chunks.map fun c => c.samples.length)),
    .stsz { sampleSize := 0, sampleCount := (laid chunks).length,
            sampleSizes := (laid chunks).map LaidSample.size },
    .stco (chunks.map LaidChunk.offset)]

/-- A box with a short header, version 0 and no flags. -/
def StblPart.child (part : StblPart) : StblChild :=
  { part, large := false, ext := [0, 0, 0, 0], pad := [] }

/-- The bytes of the `stbl` box, behind its header. -/
def muxBytes (stsdContents : List UInt8) (stsd : Stsd) (chunks : List LaidChunk) : List UInt8 :=
  ((muxParts stsdContents stsd chunks).map StblPart.child).flatMap StblChild.encode

theorem sizeFits_table {α : Type} {encodeEntry : α → List UInt8} {entries : List α} {k : ℕ}
    (hlength : ∀ e ∈ entries, (encodeEntry e).length = k) (hk : k ≤ 12)
    (hentries : entries.length < 2 ^ 28) :
    SizeFits false (encodeTable [0, 0, 0, 0] encodeEntry entries []).length := by
  have hflat := length_flatMap_entries hlength
  have hmul := Nat.mul_le_mul_left entries.length hk
  unfold SizeFits encodeTable
  rw [if_neg Bool.false_ne_true]
  simp only [List.length_append, hflat, length_encode, List.length_cons, List.length_nil]
  omega

section Mux

variable {readStsd : ℕ → ℕ → LoopReader Stsd} {fuel : ℕ} {stsdContents : List UInt8} {stsd : Stsd}
  {chunks : List LaidChunk}

theorem fits_muxParts (h : LayoutFits chunks)
    (hstsd : Takes 8 (readStsd fuel (8 + stsdContents.length)) stsdContents stsd)
    (hlength : stsdContents.length < 2 ^ 31) :
    ∀ c ∈ (muxParts stsdContents stsd chunks).map StblPart.child, c.Fits (readStsd fuel) := by
  have hcount := h.count
  have hchunks := length_le_laid h.nonempty
  obtain ⟨hsttsLength, hstts⟩ := muxStts_fits h
  obtain ⟨hcttsLength, hctts⟩ := muxCtts_fits h
  obtain ⟨hstssLength, hstss⟩ := muxStss_fits h
  obtain ⟨hstscLength, hstsc, hcheck⟩ := muxStsc_fits h
  refine List.forall_mem_map.2 ?_
  simp only [muxParts, List.forall_mem_cons]
  -- every table fits, and its size into 32 bits
  refine ⟨⟨hstsd, ?_, rfl⟩, ⟨⟨by omega, hstts⟩, ?_, rfl⟩, ⟨⟨by omega, hctts⟩, ?_, rfl⟩,
    ⟨⟨by omega, hstss⟩, ?_, rfl⟩, ⟨⟨by omega, hstsc, hcheck⟩, ?_, rfl⟩, ⟨⟨?_, ?_, ?_, ?_, ?_⟩, ?_, rfl⟩,
    ⟨⟨?_, ?_⟩, ?_, rfl⟩, nofun⟩
  · show SizeFits false stsdContents.length
    unfold SizeFits
    rw [if_neg Bool.false_ne_true]
    omega
  · exact sizeFits_table (k := 8) (fun e _ => by simp [SttsEntry.encode]) (by omega) (by omega)
  · exact sizeFits_table (k := 8) (fun e _ => by simp [CttsEntry.encode, encodeI32]) (by omega)
      (by omega)
  · exact sizeFits_table (fun n _ => length_encode 4 n) (by omega) (by omega)
  · exact sizeFits_table (k := 12) (fun e _ => by simp [StscEntry.encode]) (by omega) (by omega)
  · exact Nat.two_pow_pos 32
  · exact hcount.trans (by norm_num)
  · exact fun hzero => absurd rfl hzero
  · exact fun _ => (List.length_map LaidSample.size).symm
  · exact List.forall_mem_map.2 h.size
  · have hflat : (((laid chunks).map LaidSample.size).flatMap (encode 4)).length = _ :=
      length_flatMap_entries fun n _ => length_encode 4 n
    show SizeFits false (StszBox.encode _ _ _).length
    unfold SizeFits StszBox.encode
    rw [if_neg Bool.false_ne_true]
    simp only [StblPart.child, List.length_append, hflat, length_encode, List.length_cons,
      List.length_nil, List.length_map]
    omega
  · rw [List.length_map]
    omega
  · exact List.forall_mem_map.2 h.offset
  · refine sizeFits_table (fun n _ => length_encode 4 n) (by omega) ?_
    rw [List.length_map]
    omega

/-- **From bytes to samples**: the reader finds the tables in the bytes of a muxer, and makes of them
the samples of the layout. -/
theorem samples_of_bytes (h : LayoutFits chunks)
    (hstsd : Takes 8 (readStsd fuel (8 + stsdContents.length)) stsdContents stsd)
    (hlength : stsdContents.length < 2 ^ 31) {front : List UInt8} (hfront : 8 ≤ front.length)
    (back : List UInt8) (hfuel : 7 < fuel)
    (trackId width height timescale duration : ℕ) :
    let bytes := muxBytes stsdContents stsd chunks
    let refs := reference timescale 0 0 (placed chunks)
    ∃ stbl, readStbl readStsd (front ++ (bytes ++ back)) (8 + bytes.length) fuel front.length
        = some (.ok (stbl, front.length + bytes.length))
      ∧ buildSamples { trackId, width, height, timescale, duration, stbl }
        = some ((closeLast duration refs).map
          (Sample.shift (decodeLead (laid chunks) + leastShown refs) (leastShown refs))) := by
  intro bytes refs
  have hread := readStbl_children (fits_muxParts h hstsd hlength) hfront back hfuel
  have hstco : fitsStco chunks = true :=
    List.all_eq_true.2 fun c hc => decide_eq_true (h.offset c hc)
  refine ⟨mux stsd.1 stsd.2 chunks, ?_, ?_⟩
  -- the tables are those of `mux`, read back
  · rw [mux, hstco]
    exact hread
  -- and `mux` describes the layout
  have hchunks := (length_le_laid h.nonempty).trans h.count.le
  exact buildSamples_eq
    (describes_mux stsd.1 stsd.2 h.nonempty (hchunks.trans (by norm_num [u64Max])) h.placed_le)

end Mux

theorem layoutFits_clipChunks : LayoutFits clipChunks where
  count := by decide
  nonempty := by decide
  offset := by decide
  size := by decide
  delta := by decide
  ctsOffset := by decide

/-- The config of a clip in VP9, and the sample description with it. -/
def vpConfig : List UInt8 := [1, 0, 0, 0, 0, 10, 0x82, 2, 2, 2, 0, 0]

def vpStsd : List UInt8 := encodeStsd true [0, 0, 0, 0] (List.replicate 78 0) vpConfig

/-- The entries of other codecs are not read here. -/
def noEntry : EntryReaders := { esds := fun _ _ => throw .io, entry := fun _ _ => throw .io }

theorem length_vpStsd : vpStsd.length = 114 :=
  length_encodeStsd true rfl List.length_replicate vpConfig

theorem takes_vpStsd (fuel : ℕ) :
    Takes 8 (StsdBox.read noEntry fuel (8 + vpStsd.length)) vpStsd (.vp09, some vpConfig) :=
  takes_stsd noEntry fuel true rfl List.length_replicate (by decide) (by decide)

theorem samples_of_bytes_clip :
    let front := List.replicate 8 0
    let bytes := muxBytes vpStsd (.vp09, some vpConfig) clipChunks
    let refs := reference 1000 0 0 (placed clipChunks)
    ∃ stbl, readStbl (StsdBox.read noEntry) (front ++ (bytes ++ [])) (8 + bytes.length) 8 front.length
        = some (.ok (stbl, front.length + bytes.length))
      ∧ buildSamples { trackId := 1, width := 64, height := 48, timescale := 1000, duration := 100,
                       stbl }
        = some ((closeLast 100 refs).map
          (Sample.shift (decodeLead (laid clipChunks) + leastShown refs) (leastShown refs))) :=
  samples_of_bytes layoutFits_clipChunks (takes_vpStsd 8) (length_vpStsd.trans_lt (by norm_num))
    List.length_replicate.ge [] (Nat.lt_succ_self 7) 1 64 48 1000 100

end ReMp4

end NoshareCover
