import NoshareCover.Core.Spec.Mux

/-!
# The loop over the sample tables

If the tables of a track describe the chunks of its samples, the loop gives every sample once, in
order, with the bytes that the chunks put it at (`ReMp4.buildSamples_eq`).  Presentation starts at
zero, and no sample is presented before it is decoded.
-/

namespace NoshareCover

namespace ReMp4

open Cursor RunLength

variable {trak : TrakBox} {stbl : StblBox} {chunks : List LaidChunk} {n : ℕ}

/-! ### One sample -/

/-- By how much the decoding runs ahead, so that no sample is presented before it is decoded. -/
def decodeLead (samples : List LaidSample) : ℤ :=
  samples.foldl (fun lead s => max lead (-s.ctsOffset)) 0

/-- The smallest timestamp of presentation. -/
def leastShown (samples : List Sample) : ℤ :=
  samples.foldl (fun least s => min least s.compositionTimestamp) i64Max

theorem foldl_take_succ {α β : Type} {f : β → α → β} {b : β} {l : List α} {a : α}
    (ha : l[n]? = some a) : (l.take (n + 1)).foldl f b = f ((l.take n).foldl f b) a := by
  rw [List.take_add_one, ha, List.foldl_append]
  rfl

theorem le_decodeLead_fold (samples : List LaidSample) (lead : ℤ) :
    lead ≤ samples.foldl (fun lead s => max lead (-s.ctsOffset)) lead := by
  induction samples generalizing lead with
  | nil => exact le_rfl
  | cons s samples ih => exact (le_max_left _ _).trans (ih _)

theorem decodeLead_nonneg (samples : List LaidSample) : 0 ≤ decodeLead samples :=
  le_decodeLead_fold samples 0

namespace Describes

theorem stts_value (h : Describes stbl chunks) {j o : ℕ} {p : RunPlace} {s : LaidSample}
    (hp : RunAt (sttsRuns stbl.stts) n j p) (hs : (placed chunks)[n]? = some (o, s)) :
    ∃ e, stbl.stts[p.runIndex.toNat]? = some e ∧ e.sampleDelta = s.delta := by
  have hdelta : ((laid chunks).map LaidSample.delta)[n]? = some s.delta := by
    rw [List.getElem?_map, getElem?_laid hs]
    rfl
  obtain ⟨run, hrun, hval⟩ := hp.value h.stts hdelta
  rw [sttsRuns, List.getElem?_map, Option.map_eq_some_iff] at hrun
  obtain ⟨e, he, rfl⟩ := hrun
  exact ⟨e, he, hval⟩

theorem ctts_value (h : Describes stbl chunks) {ctts : List CttsEntry}
    (hctts : stbl.ctts = some ctts) {j o : ℕ} {p : RunPlace} {s : LaidSample}
    (hp : RunAt (cttsRuns ctts) n j p) (hs : (placed chunks)[n]? = some (o, s)) :
    ∃ e, ctts[p.runIndex.toNat]? = some e ∧ e.sampleOffset = s.ctsOffset := by
  have hoffset : ((laid chunks).map LaidSample.ctsOffset)[n]? = some s.ctsOffset := by
    rw [List.getElem?_map, getElem?_laid hs]
    rfl
  obtain ⟨run, hrun, hval⟩ := hp.value (h.ctts ctts hctts) hoffset
  rw [cttsRuns, List.getElem?_map, Option.map_eq_some_iff] at hrun
  obtain ⟨e, he, rfl⟩ := hrun
  exact ⟨e, he, hval⟩

/-- What `compositionNext` gives, once `ctts` is at the sample. -/
theorem compositionNext_eq (h : Describes stbl chunks) {o : ℕ} {s : LaidSample} (p : RunPlace)
    {lead : ℤ} (dts : ℤ) (hs : (placed chunks)[n]? = some (o, s)) (hlead : 0 ≤ lead)
    (hp : ∀ ctts, stbl.ctts = some ctts →
      ∃ p' j, cttsNext ctts n p = some p' ∧ RunAt (cttsRuns ctts) n j p') :
    ∃ p', compositionNext stbl.ctts n p lead dts
        = some (p', max lead (-s.ctsOffset), dts + s.ctsOffset)
      ∧ ∀ ctts, stbl.ctts = some ctts → ∃ j, RunAt (cttsRuns ctts) n j p' := by
  -- without `ctts` every offset is 0
  rcases hctts : stbl.ctts with _ | ctts
  · have hzero := h.noCtts hctts s (List.mem_of_getElem? (getElem?_laid hs))
    refine ⟨p, ?_, nofun⟩
    rw [hzero, neg_zero, max_eq_left hlead, add_zero]
    rfl
  · obtain ⟨p', j, hnext, hp'⟩ := hp ctts hctts
    obtain ⟨e, he, hoffset⟩ := h.ctts_value hctts hp' hs
    refine ⟨p', ?_, ?_⟩
    -- the shift is the largest that a negative offset asks for
    · have hshift : (if s.ctsOffset < 0 then max lead (-s.ctsOffset) else lead)
          = max lead (-s.ctsOffset) := by
        split_ifs with hneg
        · rfl
        · rw [max_eq_left]
          omega
      simp only [compositionNext, hnext, he, Option.bind_eq_bind, Option.bind_some, hoffset, hshift]
      rfl
    · rintro _ ⟨⟩
      exact ⟨j, hp'⟩

end Describes

/-! ### The loop -/

/-- The samples of the chunks. -/
def TrakBox.reference (trak : TrakBox) (chunks : List LaidChunk) : List Sample :=
  ReMp4.reference trak.timescale 0 0 (placed chunks)

/-- What the loop has built up to sample `n`.  The duration of that sample is not yet known. -/
structure Built (trak : TrakBox) (chunks : List LaidChunk) (n : ℕ) (b : Building) : Prop where
  chunk : ∃ i p o s, ChunkAt trak.stbl chunks n i p ∧ (placed chunks)[n]? = some (o, s)
    ∧ b.chunk = { p with offsetInChunk := p.offsetInChunk + s.size }
  stts : ∃ j, RunAt (sttsRuns trak.stbl.stts) (n - 1) j b.sttsPlace
  ctts : ∀ ctts, trak.stbl.ctts = some ctts → ∃ j, RunAt (cttsRuns ctts) n j b.cttsPlace
  stss : Describes.StssAt trak.stbl.stss (n + 1) b.lastStssIndex
  samples : ∃ r, (trak.reference chunks)[n]? = some r
    ∧ b.samples = (trak.reference chunks).take n ++ [{ r with duration := 0 }]
  lead : b.dtsShift = decodeLead ((laid chunks).take (n + 1))
  least : b.minCompositionTimestamp = leastShown ((trak.reference chunks).take (n + 1))

namespace Describes

/-- A round with its parts. -/
theorem push_eq {b : Building} {chunk : ChunkPlace} {sttsPlace cttsPlace : RunPlace}
    {size chunkOffset : ℕ} {dts dtsShift cts : ℤ} {samples : List Sample}
    (hchunk : b.chunk.next trak.stbl.stsc n = some chunk)
    (hstts : sttsNext trak.stbl.stts n b.sttsPlace = some sttsPlace)
    (hsize : trak.stbl.stsz.size n = some size)
    (hoffset : sampleChunkOffset trak.stbl chunk.chunkIndex = some chunkOffset)
    (hdecode : decodeNext trak.stbl.stts sttsPlace n b.samples = some (dts, samples))
    (hcts : compositionNext trak.stbl.ctts n b.cttsPlace b.dtsShift dts
      = some (cttsPlace, dtsShift, cts)) :
    b.push trak n = some
      { chunk := { chunk with offsetInChunk := chunk.offsetInChunk + size }, sttsPlace,
        lastStssIndex := (syncNext trak.stbl.stss n b.lastStssIndex).2, cttsPlace, dtsShift,
        minCompositionTimestamp := min b.minCompositionTimestamp cts,
        samples := samples ++
          [{ id := samples.length, timescale := trak.timescale, size,
             offset := wrapU64 (chunkOffset + chunk.offsetInChunk), decodeTimestamp := dts,
             compositionTimestamp := cts,
             isSync := (syncNext trak.stbl.stss n b.lastStssIndex).1, duration := 0 }] } := by
  -- every lookup of the sample succeeds
  simp only [Building.push, hchunk, hstts, hsize, hoffset, hdecode, hcts, Option.bind_eq_bind,
    Option.bind_some]
  rfl

theorem push_start (h : Describes trak.stbl chunks) (hn : 0 < (placed chunks).length) :
    ∃ b, Building.start.push trak 0 = some b ∧ Built trak chunks 0 b := by
  obtain ⟨⟨o, s⟩, hs⟩ : ∃ p, (placed chunks)[0]? = some p := ⟨_, List.getElem?_eq_getElem hn⟩
  have hlaid := getElem?_laid hs
  have hne : chunks ≠ [] := by
    rintro rfl
    exact absurd hn (Nat.not_lt_zero 0)
  -- every cursor at its first entry, one table after the other
  obtain ⟨p, hp, hchunk⟩ := h.chunk_start hne Building.start.chunk
  obtain ⟨q, hq, hstts⟩ := h.stts_start hn
  obtain ⟨cq, hcq, hctts⟩ := h.compositionNext_eq Building.start.cttsPlace 0 hs le_rfl
    fun ctts hctts => by
      obtain ⟨p', hnext, hp'⟩ := h.ctts_start hctts hn
      exact ⟨p', 0, hnext, hp'⟩
  obtain ⟨hsync, hstss⟩ := h.stss_next h.stss_start hs
  obtain ⟨c, hc⟩ := hchunk.position.exists_item
  have hoffset := h.stco 0 c hc
  rw [← hchunk.chunkIndex] at hoffset
  have hpush := push_eq (b := Building.start) hp hq (h.size 0 s hlaid) hoffset
    (if_pos rfl : decodeNext _ q 0 _ = some (0, [])) hcq
  -- the sample of the reference, field by field
  have href : (trak.reference chunks)[0]? = some (sampleAt trak.timescale 0 0 (o, s)) := by
    obtain ⟨first, rest, hcons⟩ := List.exists_cons_of_length_pos hn
    rw [hcons] at hs
    cases hs
    rw [TrakBox.reference, hcons]
    rfl
  refine ⟨_, hpush, ⟨0, p, o, s, hchunk, hs, rfl⟩, ⟨0, hstts⟩, hctts, hstss, ⟨_, href, ?_⟩, ?_, ?_⟩
  -- the offset fits, so it does not wrap
  · have ho : wrapU64 (c.offset + p.offsetInChunk) = o := by
      rw [← hchunk.offset c o s hc hs]
      exact wrapU64_eq (h.fits _ (List.mem_of_getElem? hs))
    simp only [List.take_zero, List.nil_append, List.length_nil, ho]
    rw [show (syncNext trak.stbl.stss 0 Building.start.lastStssIndex).1 = s.isSync from hsync]
    rfl
  · rw [decodeLead, foldl_take_succ hlaid]
    rfl
  · rw [leastShown, foldl_take_succ href]
    rfl

theorem push_next (h : Describes trak.stbl chunks) {b : Building} (hb : Built trak chunks n b)
    (hn : n + 1 < (placed chunks).length) :
    ∃ b', b.push trak (n + 1) = some b' ∧ Built trak chunks (n + 1) b' := by
  obtain ⟨i, p, o, s, hchunk, hs, hbchunk⟩ := hb.chunk
  obtain ⟨j, hstts⟩ := hb.stts
  obtain ⟨r, hr, hsamples⟩ := hb.samples
  obtain ⟨⟨o', s'⟩, hs'⟩ : ∃ p, (placed chunks)[n + 1]? = some p := ⟨_, List.getElem?_eq_getElem hn⟩
  have hlaid' := getElem?_laid hs'
  obtain ⟨p', i', hp', hchunk'⟩ := h.chunk_next hchunk hn hs
  rw [← hbchunk] at hp'
  obtain ⟨q', j', hq', hstts'⟩ := h.stts_next hstts hn
  obtain ⟨e, he, hdelta⟩ := h.stts_value hstts' hs
  -- sample `n` has the number and the duration of the reference
  obtain ⟨dts, hrdts⟩ : ∃ dts, (trak.reference chunks)[n]?
      = some (sampleAt trak.timescale (0 + n) dts (o, s)) := getElem?_reference hs
  have hreq : r = sampleAt trak.timescale (0 + n) dts (o, s) := Option.some.inj (hr.symm.trans hrdts)
  have hrdur : r.duration = e.sampleDelta := by rw [hreq, hdelta]; rfl
  have hrlen : ((trak.reference chunks).take n).length = n := by
    have hlt := (List.getElem?_eq_some_iff.1 hr).1
    rw [List.length_take, min_eq_left hlt.le]
  have htake : (trak.reference chunks).take (n + 1) = (trak.reference chunks).take n ++ [r] := by
    rw [List.take_add_one, hr]
    rfl
  have hprev : b.samples[n + 1 - 1]? = some { r with duration := 0 } := by
    rw [Nat.add_sub_cancel, hsamples, List.getElem?_append_right hrlen.le, hrlen, Nat.sub_self]
    rfl
  have hset : b.samples.set (n + 1 - 1) { r with duration := e.sampleDelta }
      = (trak.reference chunks).take (n + 1) := by
    rw [Nat.add_sub_cancel, hsamples, List.set_append_right _ _ hrlen.le, hrlen, Nat.sub_self, htake,
      List.set_cons_zero, ← hrdur]
  have hdecode : decodeNext trak.stbl.stts q' (n + 1) b.samples
      = some (r.decodeTimestamp + r.duration, (trak.reference chunks).take (n + 1)) := by
    simp only [decodeNext, if_neg n.succ_ne_zero, he, hprev, Option.bind_eq_bind, Option.bind_some,
      hset, hrdur]
    rfl
  have hlead : 0 ≤ b.dtsShift := by
    rw [hb.lead]
    exact decodeLead_nonneg _
  obtain ⟨cq, hcq, hctts⟩ := h.compositionNext_eq b.cttsPlace (r.decodeTimestamp + r.duration)
    hs' hlead fun ctts hctts => by
      obtain ⟨j, hp⟩ := hb.ctts ctts hctts
      exact h.ctts_next hctts hp hn
  obtain ⟨hsync, hstss⟩ := h.stss_next hb.stss hs'
  obtain ⟨c', hc'⟩ := hchunk'.position.exists_item
  have hoffset := h.stco i' c' hc'
  rw [← hchunk'.chunkIndex] at hoffset
  have hpush := push_eq hp' hq' (h.size (n + 1) s' hlaid') hoffset hdecode hcq
  have href : (trak.reference chunks)[n + 1]?
      = some (sampleAt trak.timescale (0 + (n + 1)) (r.decodeTimestamp + r.duration) (o', s')) :=
    getElem?_reference_succ hr hs'
  refine ⟨_, hpush, ⟨i', p', o', s', hchunk', hs', rfl⟩, ⟨j', hstts'⟩, hctts, hstss,
    ⟨_, href, ?_⟩, ?_, ?_⟩
  · have ho : wrapU64 (c'.offset + p'.offsetInChunk) = o' := by
      rw [← hchunk'.offset c' o' s' hc' hs']
      exact wrapU64_eq (h.fits _ (List.mem_of_getElem? hs'))
    have hlen : ((trak.reference chunks).take (n + 1)).length = 0 + (n + 1) := by
      rw [htake, List.length_append, hrlen, Nat.zero_add]
      rfl
    simp only [hlen, hsync, ho]
    rfl
  · rw [decodeLead, foldl_take_succ hlaid', hb.lead]
    rfl
  · rw [leastShown, foldl_take_succ href, hb.least]
    rfl

/-- The loop goes through. -/
theorem foldlM_push (h : Describes trak.stbl chunks) (hn : n < (placed chunks).length) :
    ∃ b, (List.range (n + 1)).foldlM (Building.push trak) Building.start = some b
      ∧ Built trak chunks n b := by
  -- one push a sample
  induction n with
  | zero =>
    obtain ⟨b, hpush, hb⟩ := h.push_start hn
    refine ⟨b, ?_, hb⟩
    show (Building.start.push trak 0).bind _ = _
    rw [hpush]
    rfl
  | succ n ih =>
    obtain ⟨b, hrun, hb⟩ := ih (Nat.lt_of_succ_lt hn)
    obtain ⟨b', hpush, hb'⟩ := h.push_next hb hn
    refine ⟨b', ?_, hb'⟩
    rw [List.range_succ, List.foldlM_append, hrun, Option.bind_eq_bind, Option.bind_some]
    show (b.push trak (n + 1)).bind _ = _
    rw [hpush]
    rfl

end Describes

/-! ### The result -/

theorem closeLast_concat (duration : ℕ) (samples : List Sample) (last : Sample) :
    closeLast duration (samples ++ [last]) = samples ++
      [{ last with duration := ((duration - last.decodeTimestamp) % (u64Max + 1)).toNat }] := by
  rw [closeLast, List.getLast?_concat, List.dropLast_concat]

theorem shift_comp_shift (lead least : ℤ) :
    Sample.shift least least ∘ Sample.shift lead 0 = Sample.shift (lead + least) least := by
  funext s
  simp only [Function.comp_apply, Sample.shift, sub_zero, sub_sub]

theorem shift_zero : Sample.shift 0 0 = id := by
  funext s
  simp only [Sample.shift, sub_zero, id]

/-- The two shifts of all timestamps. -/
theorem shifted_eq (samples : List Sample) {lead : ℤ} (hlead : 0 ≤ lead) (least : ℤ) :
    (let samples := if 0 < lead then samples.map (Sample.shift lead 0) else samples
     if least ≠ 0 then samples.map (Sample.shift least least) else samples)
      = samples.map (Sample.shift (lead + least) least) := by
  have hfirst : (if 0 < lead then samples.map (Sample.shift lead 0) else samples)
      = samples.map (Sample.shift lead 0) := by
    split_ifs with hpos
    · rfl
    · rw [le_antisymm (not_lt.1 hpos) hlead, shift_zero, List.map_id]
  rw [hfirst, ← shift_comp_shift, ← List.map_map]
  split_ifs with hzero
  · rfl
  · rw [not_not.1 hzero, shift_zero, List.map_id]

/-- The tables give the samples of the chunks, each once and in order.  The last one lasts until the
end of the track, and all timestamps are shifted so that presentation starts at zero. -/
theorem buildSamples_eq (h : Describes trak.stbl chunks) :
    buildSamples trak = some ((closeLast trak.duration (trak.reference chunks)).map
      (Sample.shift (decodeLead (laid chunks) + leastShown (trak.reference chunks))
        (leastShown (trak.reference chunks)))) := by
  have htotal := h.total
  rw [← length_placed] at htotal
  -- no samples at all
  rcases hlen : (placed chunks).length with _ | n
  · have hnil : placed chunks = [] := List.length_eq_zero_iff.1 hlen
    rw [buildSamples, htotal, hlen, TrakBox.reference, hnil]
    rfl
  · have hn : n < (placed chunks).length := hlen.ge
    obtain ⟨b, hrun, hb⟩ := h.foldlM_push hn
    obtain ⟨r, hr, hsamples⟩ := hb.samples
    -- the loop has pushed every sample of the reference
    have hrlen : (trak.reference chunks).length = n + 1 := by
      rw [TrakBox.reference, length_reference, hlen]
    have hrefs : trak.reference chunks = (trak.reference chunks).take n ++ [r] := by
      conv_lhs => rw [← List.take_of_length_le hrlen.le, List.take_add_one, hr]
      rfl
    have hlaid : (laid chunks).take (n + 1) = laid chunks := by
      rw [List.take_of_length_le]
      rw [← length_placed, hlen]
    -- the last duration is what the track leaves
    have hclose : closeLast trak.duration b.samples
        = closeLast trak.duration (trak.reference chunks) := by
      rw [hsamples, closeLast_concat]
      conv_rhs => rw [hrefs, closeLast_concat]
    -- and the shifts are those of all the samples
    have hlead : b.dtsShift = decodeLead (laid chunks) := by rw [hb.lead, hlaid]
    have hleast : b.minCompositionTimestamp = leastShown (trak.reference chunks) := by
      rw [hb.least, List.take_of_length_le hrlen.le]
    rw [buildSamples, htotal, hlen, hrun, Option.bind_eq_bind, Option.bind_some, hclose, hlead,
      hleast]
    exact congrArg some (shifted_eq _ (decodeLead_nonneg _) _)

/-- Two samples in a chunk and one in the next; the last one is presented before the second. -/
def clipChunks : List LaidChunk :=
  [⟨48, [⟨700, 40, 0, true⟩, ⟨90, 40, 40, false⟩]⟩, ⟨1000, [⟨80, 20, -20, false⟩]⟩]

def clipTrak : TrakBox :=
  { trackId := 1, width := 64, height := 48, timescale := 1000, duration := 100,
    stbl := mux .av01 none clipChunks }

theorem describes_clipChunks : Describes clipTrak.stbl clipChunks :=
  describes_mux .av01 none (by decide) (by decide) (by decide)

/-- Reading the tables of a layout gives its samples back. -/
theorem buildSamples_mux {chunks : List LaidChunk} (hne : ∀ c ∈ chunks, c.samples ≠ [])
    (hcount : chunks.length ≤ u64Max) (hfits : ∀ p ∈ placed chunks, p.1 ≤ u64Max)
    (contents : StsdBoxContent) (rawCodecConfig : Option (List UInt8))
    (trackId width height timescale duration : ℕ) :
    let refs := reference timescale 0 0 (placed chunks)
    buildSamples { trackId, width, height, timescale, duration,
                   stbl := mux contents rawCodecConfig chunks }
      = some ((closeLast duration refs).map
        (Sample.shift (decodeLead (laid chunks) + leastShown refs) (leastShown refs))) :=
  buildSamples_eq (describes_mux contents rawCodecConfig hne hcount hfits)

theorem buildSamples_mux_clip : buildSamples clipTrak = some
    ((closeLast 100 (reference 1000 0 0 (placed clipChunks))).map (Sample.shift 20 0)) :=
  buildSamples_mux (by decide) (by decide) (by decide) .av01 none 1 64 48 1000 100

/-! ### Timestamps -/

theorem neg_ctsOffset_le_decodeLead {samples : List LaidSample} {s : LaidSample} (hs : s ∈ samples) :
    -s.ctsOffset ≤ decodeLead samples := by
  have hfold : ∀ lead : ℤ, -s.ctsOffset
      ≤ samples.foldl (fun lead s => max lead (-s.ctsOffset)) lead := by
    induction samples with
    | nil => exact absurd hs List.not_mem_nil
    | cons t samples ih =>
      intro lead
      rw [List.foldl_cons]
      rcases List.mem_cons.1 hs with rfl | hs
      · exact (le_max_right _ _).trans (le_decodeLead_fold samples _)
      · exact ih hs _
  exact hfold 0

theorem leastShown_cons (s : Sample) (samples : List Sample) :
    leastShown (s :: samples) = min (leastShown samples) s.compositionTimestamp := by
  have hfold : ∀ least : ℤ, samples.foldl (fun least s => min least s.compositionTimestamp)
      (min least s.compositionTimestamp) =
        min (samples.foldl (fun least s => min least s.compositionTimestamp) least)
          s.compositionTimestamp := by
    induction samples with
    | nil => exact fun _ => rfl
    | cons t samples ih =>
      intro least
      rw [List.foldl_cons, min_right_comm, ih, List.foldl_cons]
  exact hfold i64Max

theorem leastShown_le {samples : List Sample} {s : Sample} (hs : s ∈ samples) :
    leastShown samples ≤ s.compositionTimestamp := by
  induction samples with
  | nil => exact absurd hs List.not_mem_nil
  | cons t samples ih =>
    rw [leastShown_cons]
    rcases List.mem_cons.1 hs with rfl | hs
    · exact min_le_right _ _
    · exact (min_le_left _ _).trans (ih hs)

/-- The smallest timestamp is that of some sample. -/
theorem exists_eq_leastShown {samples : List Sample} (hne : samples ≠ [])
    (hfits : ∀ s ∈ samples, s.compositionTimestamp ≤ i64Max) :
    ∃ s ∈ samples, s.compositionTimestamp = leastShown samples := by
  induction samples with
  | nil => exact absurd rfl hne
  | cons t samples ih =>
    rw [leastShown_cons]
    rw [List.forall_mem_cons] at hfits
    -- the smallest is the first, or in the rest
    rcases le_total t.compositionTimestamp (leastShown samples) with hle | hle
    · exact ⟨t, List.mem_cons_self .., (min_eq_right hle).symm⟩
    · rw [min_eq_left hle]
      by_cases hnil : samples = []
      · subst hnil
        exact ⟨t, List.mem_cons_self .., le_antisymm hfits.1 hle⟩
      · obtain ⟨s, hs, heq⟩ := ih hnil hfits.2
        exact ⟨s, List.mem_cons_of_mem t hs, heq⟩

@[simp] theorem length_closeLast (duration : ℕ) (samples : List Sample) :
    (closeLast duration samples).length = samples.length := by
  rcases List.eq_nil_or_concat samples with rfl | ⟨front, last, rfl⟩
  · rfl
  · rw [List.concat_eq_append, closeLast_concat, List.length_append, List.length_append]
    rfl

/-- Only the duration of the last sample changes. -/
theorem getElem?_closeLast {duration : ℕ} {samples : List Sample} {s : Sample}
    (hs : (closeLast duration samples)[n]? = some s) :
    ∃ r, samples[n]? = some r ∧ s.decodeTimestamp = r.decodeTimestamp
      ∧ s.compositionTimestamp = r.compositionTimestamp
      ∧ (n + 1 < samples.length → s.duration = r.duration) := by
  -- only the last sample is changed
  rcases List.eq_nil_or_concat samples with rfl | ⟨front, last, rfl⟩
  · exact absurd hs (by simp [closeLast])
  · rw [List.concat_eq_append] at hs ⊢
    rw [closeLast_concat] at hs
    rcases Nat.lt_or_ge n front.length with hlt | hge
    · rw [List.getElem?_append_left hlt] at hs
      -- one in front of it
      exact ⟨s, by rw [List.getElem?_append_left hlt, hs], rfl, rfl, fun _ => rfl⟩
    · rw [List.getElem?_append_right hge] at hs
      have hn : n - front.length = 0 := by
        have hlt := (List.getElem?_eq_some_iff.1 hs).1
        rw [List.length_singleton] at hlt
        omega
      -- the last itself
      rw [hn, List.getElem?_cons_zero, Option.some.injEq] at hs
      subst hs
      refine ⟨last, ?_, rfl, rfl, fun hlast => ?_⟩
      · rw [List.getElem?_append_right hge, hn, List.getElem?_cons_zero]
      · rw [List.length_append, List.length_singleton] at hlast
        omega

/-- Sample `n` of the tables, by that of the chunks. -/
theorem getElem?_buildSamples (h : Describes trak.stbl chunks) {samples : List Sample}
    (hbuild : buildSamples trak = some samples) : samples.length = (trak.reference chunks).length ∧
    ∀ n s, samples[n]? = some s → ∃ r, (trak.reference chunks)[n]? = some r
      ∧ s.decodeTimestamp = r.decodeTimestamp
        - (decodeLead (laid chunks) + leastShown (trak.reference chunks))
      ∧ s.compositionTimestamp = r.compositionTimestamp - leastShown (trak.reference chunks)
      ∧ (n + 1 < samples.length → s.duration = r.duration) := by
  rw [buildSamples_eq h, Option.some.injEq] at hbuild
  -- shifted, and closed, the samples are those of the reference
  have hlen : samples.length = (trak.reference chunks).length := by
    rw [← hbuild, List.length_map, length_closeLast]
  refine ⟨hlen, fun n s hs => ?_⟩
  rw [← hbuild, List.getElem?_map, Option.map_eq_some_iff] at hs
  obtain ⟨t, ht, rfl⟩ := hs
  obtain ⟨r, hr, hdts, hcts, hdur⟩ := getElem?_closeLast ht
  refine ⟨r, hr, congrArg (· - _) hdts, congrArg (· - _) hcts, fun hn => ?_⟩
  rw [hlen] at hn
  exact hdur hn

/-- Presentation starts at zero, decoding goes on without gaps, and no sample is presented before it
is decoded. -/
theorem timestamps_of_buildSamples (h : Describes trak.stbl chunks)
    (hfits : ∀ r ∈ trak.reference chunks, r.compositionTimestamp ≤ i64Max) {samples : List Sample}
    (hbuild : buildSamples trak = some samples) :
    (∀ s ∈ samples, 0 ≤ s.compositionTimestamp ∧ s.decodeTimestamp ≤ s.compositionTimestamp)
    ∧ (samples ≠ [] → ∃ s ∈ samples, s.compositionTimestamp = 0)
    ∧ ∀ n (s t : Sample), samples[n]? = some s → samples[n + 1]? = some t →
      t.decodeTimestamp = s.decodeTimestamp + s.duration := by
  obtain ⟨hlen, hget⟩ := getElem?_buildSamples h hbuild
  refine ⟨fun s hs => ?_, fun hne => ?_, fun n s t hs ht => ?_⟩
  -- shown at 0 or later, and not before it is decoded
  · obtain ⟨n, hn⟩ := List.getElem?_of_mem hs
    obtain ⟨r, hr, hdts, hcts, -⟩ := hget n s hn
    have hleast := leastShown_le (List.mem_of_getElem? hr)
    have hlt : n < (placed chunks).length := by
      have := (List.getElem?_eq_some_iff.1 hr).1
      rwa [TrakBox.reference, length_reference] at this
    obtain ⟨dts, href⟩ : ∃ dts, (trak.reference chunks)[n]?
      = some (sampleAt trak.timescale (0 + n) dts (placed chunks)[n]) :=
        getElem?_reference (List.getElem?_eq_getElem hlt)
    have hlead := neg_ctsOffset_le_decodeLead
      (List.mem_of_getElem? (getElem?_laid (List.getElem?_eq_getElem hlt)))
    rw [hr, Option.some.injEq] at href
    have hoffset : r.compositionTimestamp = r.decodeTimestamp + (placed chunks)[n].2.ctsOffset := by
      rw [href]
      rfl
    omega
  -- the one that is shown first
  · have hrefs : trak.reference chunks ≠ [] := by
      rw [← List.length_pos_iff, ← hlen]
      exact List.length_pos_iff.2 hne
    obtain ⟨r, hr, heq⟩ := exists_eq_leastShown hrefs hfits
    obtain ⟨n, hn⟩ := List.getElem?_of_mem hr
    have hlt : n < samples.length := by
      rw [hlen]
      exact (List.getElem?_eq_some_iff.1 hn).1
    obtain ⟨r', hr', -, hcts, -⟩ := hget n _ (List.getElem?_eq_getElem hlt)
    cases hn.symm.trans hr'
    refine ⟨_, List.getElem_mem hlt, ?_⟩
    rw [hcts, heq, sub_self]
  -- each begins where the one before ends
  · obtain ⟨r, hr, hdts, -, hdur⟩ := hget n s hs
    obtain ⟨r', hr', hdts', -, -⟩ := hget (n + 1) t ht
    have hlt : n + 1 < (placed chunks).length := by
      have := (List.getElem?_eq_some_iff.1 hr').1
      rwa [TrakBox.reference, length_reference] at this
    have hnext : (trak.reference chunks)[n + 1]? = some (sampleAt trak.timescale (0 + (n + 1))
        (r.decodeTimestamp + r.duration) (placed chunks)[n + 1]) :=
      getElem?_reference_succ hr (List.getElem?_eq_getElem hlt)
    rw [hr', Option.some.injEq] at hnext
    have hdts'' : r'.decodeTimestamp = r.decodeTimestamp + r.duration := by
      rw [hnext]
      rfl
    rw [hdts', hdts'', hdts, hdur (List.getElem?_eq_some_iff.1 ht).1]
    omega

theorem timestamps_of_clip : (buildSamples clipTrak).any (fun samples => samples.all fun s =>
    decide (0 ≤ s.compositionTimestamp ∧ s.decodeTimestamp ≤ s.compositionTimestamp)) = true := by
  have hbuild := buildSamples_eq describes_clipChunks
  obtain ⟨hcts, -, -⟩ := timestamps_of_buildSamples describes_clipChunks (by decide) hbuild
  rw [hbuild, Option.any_some, List.all_eq_true]
  exact fun s hs => decide_eq_true (hcts s hs)

end ReMp4

end NoshareCover
