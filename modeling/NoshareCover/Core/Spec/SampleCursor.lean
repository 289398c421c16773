import NoshareCover.Core.Spec.SampleLayout
import NoshareCover.Lib.Cursor

/-!
# The places in the sample tables

If the tables of a track describe the chunks of its samples (`ReMp4.Describes`), each in a coding of
its own, then the place that the loop over the samples keeps in a table is the right one, from sample
to sample.
-/

namespace NoshareCover

namespace ReMp4

open Cursor RunLength

/-! ### The tables -/

def sttsRuns (stts : List SttsEntry) : List (ℕ × ℕ) :=
  stts.map fun e => (e.sampleCount, e.sampleDelta)

def cttsRuns (ctts : List CttsEntry) : List (ℕ × ℤ) :=
  ctts.map fun e => (e.sampleCount, e.sampleOffset)

/-- The tables describe the chunks.  A table may go on behind the last sample. -/
structure Describes (stbl : StblBox) (chunks : List LaidChunk) : Prop where
  samples_ne_nil : ∀ c ∈ chunks, c.samples ≠ []
  total : stbl.stsz.total = (laid chunks).length
  size : ∀ n s, (laid chunks)[n]? = some s → stbl.stsz.size n = some s.size
  sttsPos : ∀ run ∈ sttsRuns stbl.stts, 0 < run.1
  stts : (laid chunks).map LaidSample.delta <+: expand (sttsRuns stbl.stts)
  noCtts : stbl.ctts = none → ∀ s ∈ laid chunks, s.ctsOffset = 0
  cttsPos : ∀ ctts, stbl.ctts = some ctts → ∀ run ∈ cttsRuns ctts, 0 < run.1
  ctts : ∀ ctts, stbl.ctts = some ctts →
    (laid chunks).map LaidSample.ctsOffset <+: expand (cttsRuns ctts)
  noStss : stbl.stss = none → ∀ s ∈ laid chunks, s.isSync = true
  stssSorted : ∀ stss, stbl.stss = some stss → stss.Pairwise (· < ·) ∧ ∀ number ∈ stss, 0 < number
  stss : ∀ stss, stbl.stss = some stss →
    ∀ n s, (laid chunks)[n]? = some s → (s.isSync = true ↔ n + 1 ∈ stss)
  count : chunks.length ≤ u64Max
  stscFirst : chunks ≠ [] → ∃ e, stbl.stsc[0]? = some e ∧ e.firstChunk = 1
  stscSorted : stbl.stsc.Pairwise fun a b => a.firstChunk < b.firstChunk
  stsc : ∀ i c, chunks[i]? = some c →
    (StepTable.lookup StscEntry.firstChunk stbl.stsc (i + 1)).map StscEntry.samplesPerChunk
      = some c.samples.length
  stco : ∀ i c, chunks[i]? = some c → sampleChunkOffset stbl (i + 1) = some c.offset
  fits : ∀ p ∈ placed chunks, p.1 ≤ u64Max

/-! ### The place in a chunk -/

variable {trak : TrakBox} {stbl : StblBox} {chunks : List LaidChunk} {n i : ℕ}

/-- The place in `stsc` and in chunk `i`, before the bytes of sample `n`. -/
structure ChunkAt (stbl : StblBox) (chunks : List LaidChunk) (n i : ℕ) (p : ChunkPlace) : Prop where
  position : At LaidChunk.placed chunks i n
  chunkIndex : p.chunkIndex = i + 1
  last : p.lastSampleInChunk = covered LaidChunk.placed chunks (i + 1)
  inForce : StepTable.InForce StscEntry.firstChunk stbl.stsc p.chunkRunIndex (i + 1)
  lastChunk : p.lastChunkInRun = lastChunkOf stbl.stsc p.chunkRunIndex
  offset : ∀ c o s, chunks[i]? = some c → (placed chunks)[n]? = some (o, s) →
    o = c.offset + p.offsetInChunk

namespace Describes

theorem placed_ne_nil (h : Describes stbl chunks) : ∀ c ∈ chunks, c.placed ≠ [] := fun c hc =>
  LaidChunk.placed_ne_nil (h.samples_ne_nil c hc)

/-- The entry in force at a chunk has the number of its samples. -/
theorem samplesPerChunk (h : Describes stbl chunks) {c : LaidChunk} (hc : chunks[i]? = some c)
    {r : ℕ} (hr : StepTable.InForce StscEntry.firstChunk stbl.stsc r (i + 1)) :
    ∃ e, stbl.stsc[r]? = some e ∧ e.samplesPerChunk = c.placed.length := by
  have hlookup := h.stsc i c hc
  rw [hr.lookup_eq h.stscSorted, Option.map_eq_some_iff] at hlookup
  obtain ⟨e, he, hlen⟩ := hlookup
  refine ⟨e, he, ?_⟩
  rw [hlen, LaidChunk.placed, length_place]

/-- The first sample of a chunk is at the offset of the chunk. -/
theorem offset_first {c : LaidChunk} (hc : chunks[i]? = some c) (hat : At LaidChunk.placed chunks i n)
    (hn : covered LaidChunk.placed chunks i = n) {o : ℕ} {s : LaidSample}
    (hs : (placed chunks)[n]? = some (o, s)) : o = c.offset := by
  rw [placed, hat.getElem?_flatMap hc, hn, Nat.sub_self, LaidChunk.placed, getElem?_place_zero,
    Option.map_eq_some_iff] at hs
  obtain ⟨t, -, heq⟩ := hs
  cases heq
  rfl

theorem chunk_start (h : Describes stbl chunks) (hne : chunks ≠ []) (p : ChunkPlace) :
    ∃ p', p.next stbl.stsc 0 = some p' ∧ ChunkAt stbl chunks 0 0 p' := by
  have hat : At LaidChunk.placed chunks 0 0 := At.start h.placed_ne_nil hne
  obtain ⟨c, hc⟩ := hat.exists_item
  obtain ⟨first, hfirst, hone⟩ := h.stscFirst hne
  -- the first entry of `stsc` is for chunk 1
  have hforce : StepTable.InForce StscEntry.firstChunk stbl.stsc 0 1 := by
    refine ⟨⟨first, hfirst, hone.le⟩, fun e he => ?_⟩
    obtain ⟨h0, hfirst'⟩ := List.getElem?_eq_some_iff.1 hfirst
    obtain ⟨h1, he'⟩ := List.getElem?_eq_some_iff.1 he
    have hlt := List.pairwise_iff_getElem.1 h.stscSorted _ _ h0 h1 Nat.one_pos
    rw [hfirst', he', hone] at hlt
    exact hlt
  -- and it says how many samples are in it
  obtain ⟨e, he, hlen⟩ := h.samplesPerChunk hc hforce
  refine ⟨_, by rw [ChunkPlace.next, if_pos rfl, he]; rfl, hat, rfl, ?_, hforce, rfl, ?_⟩
  · rw [covered_succ hc, covered_zero, Nat.zero_add]
    exact hlen
  · intro c' o s hc' hs
    exact offset_first hc' hat covered_zero hs

/-- The run of `stsc` ends before chunk `i + 2` just if the next entry is for that chunk. -/
theorem lastChunkOf_lt_iff {stsc : List StscEntry} {r : ℕ} (hi : i + 2 ≤ u64Max)
    (hforce : StepTable.InForce StscEntry.firstChunk stsc r (i + 1)) :
    lastChunkOf stsc r < i + 2 ↔ ∃ e, stsc[r + 1]? = some e ∧ e.firstChunk ≤ i + 2 := by
  rw [lastChunkOf]
  rcases hr : stsc[r + 1]? with _ | e
  · exact iff_of_false hi.not_gt (by simp)
  · have hlt := hforce.lt e hr
    have hne : e.firstChunk ≠ 0 := (Nat.zero_lt_of_lt hlt).ne'
    simp only [if_neg hne, Option.some.injEq, exists_eq_left']
    omega

theorem chunk_next (h : Describes stbl chunks) {p : ChunkPlace} (hp : ChunkAt stbl chunks n i p)
    (hn : n + 1 < (placed chunks).length) {o : ℕ} {s : LaidSample}
    (hs : (placed chunks)[n]? = some (o, s)) :
    ∃ p' i', ChunkPlace.next stbl.stsc (n + 1)
        { p with offsetInChunk := p.offsetInChunk + s.size } = some p'
      ∧ ChunkAt stbl chunks (n + 1) i' p' := by
  obtain ⟨c, hc⟩ := hp.position.exists_item
  obtain ⟨⟨o', s'⟩, hs'⟩ : ∃ p, (placed chunks)[n + 1]? = some p := ⟨_, List.getElem?_eq_getElem hn⟩
  have hle := hp.position.le
  rw [ChunkPlace.next, if_neg n.succ_ne_zero]
  by_cases hlt : n + 1 < covered LaidChunk.placed chunks (i + 1)
  · -- the sample is in the same chunk, behind the one before
    have hat := hp.position.stay hlt
    have hcond : n + 1 < p.lastSampleInChunk := by
      rw [hp.last]
      exact hlt
    refine ⟨{ p with offsetInChunk := p.offsetInChunk + s.size }, i, if_pos hcond, hat,
      hp.chunkIndex, hp.last, hp.inForce, hp.lastChunk, ?_⟩
    intro c' o'' s'' hc' hs''
    have hcur := hs
    rw [placed, hp.position.getElem?_flatMap hc, LaidChunk.placed] at hcur
    have hsub : n + 1 - covered LaidChunk.placed chunks i
        = n - covered LaidChunk.placed chunks i + 1 := by omega
    have hnext := hs'
    rw [placed, hat.getElem?_flatMap hc, LaidChunk.placed, hsub] at hnext
    have hsample : c.samples[n - covered LaidChunk.placed chunks i + 1]? = some s' := by
      rw [← map_snd_place c.offset c.samples, List.getElem?_map, hnext]
      rfl
    rw [getElem?_place_succ hcur hsample] at hnext
    rw [hs'] at hs''
    cases hs''
    cases hnext
    cases hc.symm.trans hc'
    show o + s.size = c.offset + (p.offsetInChunk + s.size)
    rw [hp.offset c o s hc hs, Nat.add_assoc]
  · -- the sample opens the next chunk
    have hge := not_lt.1 hlt
    have hat := hp.position.next h.placed_ne_nil hn hge
    obtain ⟨c', hc'⟩ := hat.exists_item
    have hi : i + 2 ≤ u64Max := by
      have hlen := (List.getElem?_eq_some_iff.1 hc').1
      exact (Nat.succ_le_of_lt hlen).trans h.count
    have hmoved : p.lastChunkInRun < p.chunkIndex + 1
        -- the run ends when the next one begins at or before this chunk
        ↔ ∃ e, stbl.stsc[p.chunkRunIndex + 1]? = some e ∧ e.firstChunk ≤ i + 2 := by
      rw [hp.lastChunk, hp.chunkIndex]
      exact lastChunkOf_lt_iff hi hp.inForce
    have hcond : ¬ n + 1 < p.lastSampleInChunk := by
      rw [hp.last]
      exact hlt
    rw [if_neg hcond]
    have hstarts : ∀ c'' o'' s'', chunks[i + 1]? = some c'' →
        (placed chunks)[n + 1]? = some (o'', s'') → o'' = c''.offset + 0 := fun c'' o'' s'' hc'' hs'' =>
      offset_first hc'' hat (hp.position.next_eq hge) hs''
    by_cases hmove : p.lastChunkInRun < p.chunkIndex + 1
    · -- and the chunk opens the next run of `stsc`
      obtain ⟨next, hnext, hnextLe⟩ := hmoved.1 hmove
      have hforce := hp.inForce.next h.stscSorted hnext hnextLe
      obtain ⟨e, he, hlen⟩ := h.samplesPerChunk hc' hforce
      simp only [if_pos hmove, he, Option.map_some]
      refine ⟨_, i + 1, rfl, hat, congrArg (· + 1) hp.chunkIndex, ?_, hforce, rfl, hstarts⟩
      rw [covered_succ hc', hlen, hp.last]
    · have hforce := hp.inForce.stay fun e he =>
        not_le.1 fun hle => hmove (hmoved.2 ⟨e, he, hle⟩)
      obtain ⟨e, he, hlen⟩ := h.samplesPerChunk hc' hforce
      simp only [if_neg hmove, he, Option.map_some]
      refine ⟨_, i + 1, rfl, hat, congrArg (· + 1) hp.chunkIndex, ?_, hforce, hp.lastChunk, hstarts⟩
      rw [covered_succ hc', hlen, hp.last]

end Describes

/-! ### The place in a run -/

section Runs

variable {α : Type} {runs : List (ℕ × α)} {j : ℕ} {p : RunPlace}

/-- The place in run `j`, which sample `n` lies in. -/
structure RunAt (runs : List (ℕ × α)) (n j : ℕ) (p : RunPlace) : Prop where
  position : At copies runs j n
  runIndex : p.runIndex = j
  last : p.lastSampleInRun = covered copies runs (j + 1)

theorem copies_ne_nil_of_pos (hpos : ∀ run ∈ runs, 0 < run.1) : ∀ run ∈ runs, copies run ≠ [] :=
  fun run hrun => copies_ne_nil (hpos run hrun)

/-- The first advance opens the first run. -/
theorem RunAt.start (hpos : ∀ run ∈ runs, 0 < run.1) (hne : runs ≠ []) :
    ∃ p', RunPlace.advance (runs.map Prod.fst) { lastSampleInRun := -1, runIndex := -1 } = some p'
      ∧ RunAt runs 0 0 p' := by
  have hat := At.start (copies_ne_nil_of_pos hpos) hne
  obtain ⟨run, hrun⟩ := hat.exists_item
  have hcount : (runs.map Prod.fst)[0]? = some run.1 := by
    rw [List.getElem?_map, hrun]
    rfl
  refine ⟨{ lastSampleInRun := 0 + run.1, runIndex := 0 }, ?_, hat, rfl, ?_⟩
  · rw [RunPlace.advance, show ((-1 : ℤ) + 1).toNat = 0 from rfl, hcount]
    rfl
  · rw [covered_succ hrun, covered_zero, copies, List.length_replicate, Nat.zero_add, zero_add]

theorem RunAt.advance (hpos : ∀ run ∈ runs, 0 < run.1) (hp : RunAt runs n j p)
    (hn : n + 1 < (expand runs).length) (hend : p.lastSampleInRun ≤ n + 1) :
    ∃ p', p.advance (runs.map Prod.fst) = some p' ∧ RunAt runs (n + 1) (j + 1) p' := by
  -- the run is over, so the next one starts here
  have hge : covered copies runs (j + 1) ≤ n + 1 := by
    have hlast := hp.last
    omega
  have hat := hp.position.next (copies_ne_nil_of_pos hpos) hn hge
  obtain ⟨run, hrun⟩ := hat.exists_item
  have hindex : (p.runIndex + 1).toNat = j + 1 := by
    have := hp.runIndex
    omega
  have hcount : (runs.map Prod.fst)[(p.runIndex + 1).toNat]? = some run.1 := by
    rw [hindex, List.getElem?_map, hrun]
    rfl
  -- the count is not negative, which the code checks
  have hnonneg : ¬ p.lastSampleInRun < 0 := by
    have hlast := hp.last
    omega
  refine ⟨{ lastSampleInRun := p.lastSampleInRun + run.1, runIndex := p.runIndex + 1 }, ?_, hat, ?_, ?_⟩
  · rw [RunPlace.advance, hcount, if_neg hnonneg]
    rfl
  · show p.runIndex + 1 = _
    rw [hp.runIndex]
    rfl
  · rw [covered_succ hrun, copies, List.length_replicate, hp.last]
    rfl

theorem RunAt.stay (hp : RunAt runs n j p) (hend : ¬ p.lastSampleInRun ≤ n + 1) :
    RunAt runs (n + 1) j p := by
  refine ⟨hp.position.stay ?_, hp.runIndex, hp.last⟩
  have hlast := hp.last
  omega

/-- The run has the value of the sample. -/
theorem RunAt.value {values : List α} (hvalues : values <+: expand runs) (hp : RunAt runs n j p)
    {v : α} (hv : values[n]? = some v) : ∃ run, runs[p.runIndex.toNat]? = some run ∧ run.2 = v := by
  obtain ⟨run, hrun⟩ := hp.position.exists_item
  have hindex : p.runIndex.toNat = j := by
    have := hp.runIndex
    omega
  refine ⟨run, by rw [hindex, hrun], ?_⟩
  have hlt := (List.getElem?_eq_some_iff.1 hv).1
  have heq := hvalues.getElem hlt
  have hget := getElem?_expand hp.position hrun
  obtain ⟨hlt', hget'⟩ := List.getElem?_eq_some_iff.1 hget
  rw [List.getElem?_eq_getElem hlt, heq, hget', Option.some.injEq] at hv
  exact hv

end Runs

theorem map_fst_sttsRuns (stts : List SttsEntry) :
    (sttsRuns stts).map Prod.fst = stts.map SttsEntry.sampleCount := by
  rw [sttsRuns, List.map_map]
  rfl

theorem map_fst_cttsRuns (ctts : List CttsEntry) :
    (cttsRuns ctts).map Prod.fst = ctts.map CttsEntry.sampleCount := by
  rw [cttsRuns, List.map_map]
  rfl

namespace Describes

theorem lt_stts (h : Describes stbl chunks) (hn : n < (placed chunks).length) :
    n < (expand (sttsRuns stbl.stts)).length := by
  have hle := h.stts.length_le
  rw [List.length_map, ← length_placed] at hle
  exact hn.trans_le hle

theorem lt_ctts (h : Describes stbl chunks) {ctts : List CttsEntry} (hctts : stbl.ctts = some ctts)
    (hn : n < (placed chunks).length) : n < (expand (cttsRuns ctts)).length := by
  have hle := (h.ctts ctts hctts).length_le
  rw [List.length_map, ← length_placed] at hle
  exact hn.trans_le hle

theorem runs_ne_nil {α : Type} {runs : List (ℕ × α)} (hn : n < (expand runs).length) : runs ≠ [] := by
  rintro rfl
  exact absurd hn (Nat.not_lt_zero n)

theorem stts_start (h : Describes stbl chunks) (hn : 0 < (placed chunks).length) :
    ∃ p', sttsNext stbl.stts 0 { lastSampleInRun := -1, runIndex := -1 } = some p'
      ∧ RunAt (sttsRuns stbl.stts) 0 0 p' := by
  rw [sttsNext, if_pos (by decide), ← map_fst_sttsRuns]
  exact RunAt.start h.sttsPos (runs_ne_nil (h.lt_stts hn))

/-- At sample `n + 1` the place is in the run of sample `n`. -/
theorem stts_next (h : Describes stbl chunks) {j : ℕ} {p : RunPlace}
    (hp : RunAt (sttsRuns stbl.stts) (n - 1) j p) (hn : n + 1 < (placed chunks).length) :
    ∃ p' j', sttsNext stbl.stts (n + 1) p = some p' ∧ RunAt (sttsRuns stbl.stts) n j' p' := by
  rw [sttsNext, ← map_fst_sttsRuns]
  cases n with
  | zero =>
    -- the first run is not empty, so that sample 1 still asks for the duration of sample 0 in it
    have hlast := hp.last
    have hlt := hp.position.lt
    refine ⟨p, j, if_neg ?_, hp⟩
    omega
  | succ n =>
    by_cases hend : p.lastSampleInRun ≤ n + 1
    · obtain ⟨p', hadv, hp'⟩ := hp.advance h.sttsPos (h.lt_stts (by omega)) hend
      refine ⟨p', j + 1, ?_, hp'⟩
      rw [if_pos (by push_cast; omega), hadv]
    · exact ⟨p, j, if_neg (by push_cast; omega), hp.stay hend⟩

theorem ctts_start (h : Describes stbl chunks) {ctts : List CttsEntry} (hctts : stbl.ctts = some ctts)
    (hn : 0 < (placed chunks).length) :
    ∃ p', cttsNext ctts 0 { lastSampleInRun := -1, runIndex := -1 } = some p'
      ∧ RunAt (cttsRuns ctts) 0 0 p' := by
  rw [cttsNext, if_pos (by decide), ← map_fst_cttsRuns]
  exact RunAt.start (h.cttsPos ctts hctts) (runs_ne_nil (h.lt_ctts hctts hn))

theorem ctts_next (h : Describes stbl chunks) {ctts : List CttsEntry} (hctts : stbl.ctts = some ctts)
    {j : ℕ} {p : RunPlace} (hp : RunAt (cttsRuns ctts) n j p) (hn : n + 1 < (placed chunks).length) :
    ∃ p' j', cttsNext ctts (n + 1) p = some p' ∧ RunAt (cttsRuns ctts) (n + 1) j' p' := by
  rw [cttsNext, ← map_fst_cttsRuns]
  by_cases hend : p.lastSampleInRun ≤ n + 1
  · obtain ⟨p', hadv, hp'⟩ := hp.advance (h.cttsPos ctts hctts) (h.lt_ctts hctts hn) hend
    refine ⟨p', j + 1, ?_, hp'⟩
    rw [if_pos (by push_cast; omega), hadv]
  · exact ⟨p, j, if_neg (by push_cast; omega), hp.stay hend⟩

/-! ### The place in `stss` -/

/-- The entries before the place are those for the first `n` samples. -/
def StssAt (stss : Option (List ℕ)) (n k : ℕ) : Prop :=
  ∀ entries, stss = some entries → ∀ j number, entries[j]? = some number → (j < k ↔ number ≤ n)

theorem stss_start (h : Describes stbl chunks) : StssAt stbl.stss 0 0 := by
  intro entries hentries j number hnumber
  have hpos := (h.stssSorted entries hentries).2 number (List.mem_of_getElem? hnumber)
  omega

theorem stss_next (h : Describes stbl chunks) {k o : ℕ} {s : LaidSample}
    (hk : StssAt stbl.stss n k) (hs : (placed chunks)[n]? = some (o, s)) :
    (syncNext stbl.stss n k).1 = s.isSync ∧ StssAt stbl.stss (n + 1) (syncNext stbl.stss n k).2 := by
  have hlaid := getElem?_laid hs
  rcases hstss : stbl.stss with _ | entries
  · exact ⟨(h.noStss hstss s (List.mem_of_getElem? hlaid)).symm, nofun⟩
  · have hsync := h.stss entries hstss n s hlaid
    have hsorted := (h.stssSorted entries hstss).1
    have hplace := hk entries hstss
    -- the number is in the table just if it is at the place
    have hmem : n + 1 ∈ entries ↔ entries[k]? = some (n + 1) := by
      refine ⟨fun hmem => ?_, List.mem_of_getElem?⟩
      obtain ⟨j, hj⟩ := List.getElem?_of_mem hmem
      have hnot : ¬ j < k := fun hlt => absurd ((hplace j _ hj).1 hlt) (by omega)
      rcases Nat.eq_or_lt_of_le (not_lt.1 hnot) with rfl | hlt
      · exact hj
      · obtain ⟨hjlt, hjeq⟩ := List.getElem?_eq_some_iff.1 hj
        have hk' : entries[k]? = some entries[k] := List.getElem?_eq_getElem (hlt.trans hjlt)
        have hrise : entries[k] < entries[j] :=
          List.pairwise_iff_getElem.1 hsorted k j (hlt.trans hjlt) hjlt hlt
        have hbehind := mt (hplace k _ hk').2 (lt_irrefl k)
        omega
    rw [syncNext]
    split_ifs with hat
    · refine ⟨(hsync.2 (hmem.2 hat)).symm, ?_⟩
      rintro _ ⟨⟩ j number hnumber
      obtain ⟨hklt, hkeq⟩ := List.getElem?_eq_some_iff.1 hat
      obtain ⟨hjlt, hjeq⟩ := List.getElem?_eq_some_iff.1 hnumber
      have hold := hplace j number hnumber
      rcases lt_trichotomy j k with hlt | rfl | hgt
      · have := hold.1 hlt
        show j < k + 1 ↔ _
        omega
      · show j < j + 1 ↔ _
        omega
      · have hrise : entries[k] < entries[j] :=
          List.pairwise_iff_getElem.1 hsorted k j hklt hjlt hgt
        show j < k + 1 ↔ _
        omega
    · have hnot : s.isSync = false := by
        rw [← Bool.not_eq_true]
        exact fun htrue => hat (hmem.1 (hsync.1 htrue))
      refine ⟨hnot.symm, ?_⟩
      rintro _ ⟨⟩ j number hnumber
      have hne : number ≠ n + 1 := by
        rintro rfl
        exact hat (hmem.1 (List.mem_of_getElem? hnumber))
      have hold := hplace j number hnumber
      show j < k ↔ _
      omega

end Describes

end ReMp4

end NoshareCover
