import Mathlib.Data.List.Nodup
import NoshareCover.Core.Spec.SampleLayout
import NoshareCover.Core.Video.Fragment
import NoshareCover.Lib.Loop

/-!
# The samples of a fragmented file

Each track fragment is a chunk of its own.  However the fragments of the tracks alternate in the file,
a track gets the samples of its own fragments, each once and in order (`ReMp4.updateSampleList_eq`):
the data of a fragment lies behind its base without gaps, and decoding goes on from fragment to
fragment.  The times wrap around in `i64`, as the sums of the library do.
-/

namespace NoshareCover

namespace ReMp4

/-! ### The layout of a fragment -/

/-- Sample `sampleN` of a run. -/
def TrunBox.laidAt (trun : TrunBox) (defaults : Defaults) (sampleN : ℕ) : LaidSample :=
  { size := trun.sizeOf defaults sampleN, delta := trun.durationOf defaults sampleN,
    ctsOffset := trun.ctsOf sampleN,
    isSync := hasFlag (trun.flagsOf defaults sampleN >>> 16) 1 }

def TrunBox.laid (trun : TrunBox) (defaults : Defaults) : List LaidSample :=
  (List.range trun.sampleCount).map (trun.laidAt defaults)

/-- Where the data of a fragment starts. -/
def TrafBox.dataStart (traf : TrafBox) (moofStart : ℕ) : ℕ :=
  let base := traf.baseDataOffset moofStart 0 0
  match traf.truns with
  | [] => base
  | trun :: _ =>
    if hasFlag trun.flags TrunBox.flagDataOffset then
      saturatingAddSigned base (trun.dataOffset.getD 0)
    else base

/-- The samples of a fragment, in one chunk. -/
def TrafBox.chunk (traf : TrafBox) (moofStart : ℕ) (defaults : Defaults) : LaidChunk :=
  { offset := traf.dataStart moofStart,
    samples := traf.truns.flatMap fun trun => trun.laid defaults }

/-- The first run of a fragment has a sample, and the data of the fragment ends within `u64`. -/
structure TrafBox.Regular (traf : TrafBox) (moofStart : ℕ) (defaults : Defaults) : Prop where
  first : ∀ trun, traf.truns.head? = some trun → 0 < trun.sampleCount
  fits : traf.dataStart moofStart + bytesOf (traf.chunk moofStart defaults).samples ≤ u64Max

/-- When the last sample has passed. -/
def endTime (samples : List Sample) : ℤ :=
  match samples.getLast? with
  | some last => last.decodeTimestamp + last.duration
  | none => 0

/-- When the first sample of the next fragment of a track is decoded: the fragment says so only if it
is the first. -/
def Track.nextTime (track : Track) (traf : TrafBox) : ℤ :=
  if track.firstTrafMerged = true then endTime track.samples else (traf.tfdt.map asI64).getD 0

/-- A sample with its times in `i64`. -/
def Sample.wrapTimes (s : Sample) : Sample :=
  { s with decodeTimestamp := wrapI64 s.decodeTimestamp,
           compositionTimestamp := wrapI64 s.compositionTimestamp }

/-- A track with the samples of some chunk. -/
def Track.append (track : Track) (timescale : ℕ) (dts : ℤ) (ps : List (ℕ × LaidSample)) : Track :=
  { track with
    samples := track.samples
      ++ (reference timescale track.samples.length dts ps).map Sample.wrapTimes }

/-- A track that has got a fragment has a sample. -/
def Track.Sound (track : Track) : Prop := track.firstTrafMerged = true → track.samples ≠ []

variable {timescale moofStart trafIdx sampleN : ℕ} {traf : TrafBox} {defaults : Defaults}
  {trun : TrunBox} {track : Track} {lastRunPosition : ℕ}

/-! ### Times that wrap around -/

theorem wrapI64_wrapI64 (a : ℤ) : wrapI64 (wrapI64 a) = wrapI64 a := Int.bmod_bmod

theorem wrapI64_add_wrapI64 (a b : ℤ) : wrapI64 (wrapI64 a + b) = wrapI64 (a + b) :=
  Int.bmod_add_bmod

/-- What is added to times that are the same in `i64` leaves them the same. -/
theorem wrapI64_add_congr {a a' : ℤ} (h : wrapI64 a = wrapI64 a') (b : ℤ) :
    wrapI64 (a + b) = wrapI64 (a' + b) := by
  rw [← wrapI64_add_wrapI64, h, wrapI64_add_wrapI64]

/-- The samples of a chunk depend on the time of its first one in `i64` only. -/
theorem map_wrapTimes_congr {dts dts' : ℤ} (h : wrapI64 dts = wrapI64 dts') (n : ℕ)
    (ps : List (ℕ × LaidSample)) : (reference timescale n dts ps).map Sample.wrapTimes
      = (reference timescale n dts' ps).map Sample.wrapTimes := by
  induction ps generalizing n dts dts' with
  | nil => rfl
  | cons p ps ih =>
    rw [reference, reference, List.map_cons, List.map_cons, ih (wrapI64_add_congr h _)]
    congr 1
    simp only [Sample.wrapTimes, sampleAt, h, wrapI64_add_congr h]

theorem append_singleton (track : Track) (dts : ℤ) (p : ℕ × LaidSample) :
    track.append timescale dts [p] = { track with
      samples := track.samples ++ [{ sampleAt timescale track.samples.length dts p with
        decodeTimestamp := wrapI64 dts
        compositionTimestamp := wrapI64 (wrapI64 dts + p.2.ctsOffset) }] } := by
  rw [wrapI64_add_wrapI64]
  rfl

theorem append_congr (track : Track) {dts dts' : ℤ} (h : wrapI64 dts = wrapI64 dts')
    (ps : List (ℕ × LaidSample)) :
    track.append timescale dts ps = track.append timescale dts' ps := by
  rw [Track.append, Track.append, map_wrapTimes_congr h]

theorem wrapI64_endTime_append_of_ne_nil (samples : List Sample) (m : ℕ) (dts : ℤ)
    {ps : List (ℕ × LaidSample)} (hne : ps ≠ []) :
    wrapI64 (endTime (samples ++ (reference timescale m dts ps).map Sample.wrapTimes))
      = wrapI64 (dts + passed ps) := by
  rcases List.eq_nil_or_concat ps with rfl | ⟨front, p, rfl⟩
  · exact absurd rfl hne
  · rw [List.concat_eq_append, reference_append, List.map_append, ← List.append_assoc, endTime,
      reference, reference, List.map_singleton, List.getLast?_concat, passed_append, passed, passed,
      add_zero, ← add_assoc]
    exact wrapI64_add_wrapI64 _ _

theorem wrapI64_endTime_append (track : Track) (ps : List (ℕ × LaidSample)) :
    wrapI64 (endTime (track.append timescale (endTime track.samples) ps).samples)
      = wrapI64 (endTime track.samples + passed ps) := by
  by_cases hnil : ps = []
  · rw [hnil, Track.append, reference, List.map_nil, List.append_nil, passed, add_zero]
  · exact wrapI64_endTime_append_of_ne_nil _ _ _ hnil

theorem append_append (track : Track) (dts : ℤ) (ps qs : List (ℕ × LaidSample)) :
    (track.append timescale dts ps).append timescale (dts + passed ps) qs
      = track.append timescale dts (ps ++ qs) := by
  simp only [Track.append, reference_append, List.length_append, List.length_map, length_reference,
    List.append_assoc, List.map_append]

theorem append_ne_nil (hne : track.samples ≠ []) (dts : ℤ) (ps : List (ℕ × LaidSample)) :
    (track.append timescale dts ps).samples ≠ [] := by simp [Track.append, hne]

/-! ### One sample -/

/-- Behind the first sample of a fragment each sample goes on where the one before ends. -/
theorem addSample_next (hmerged : track.firstTrafMerged = true) (hne : track.samples ≠ [])
    (hnext : ¬ (trafIdx = 0 ∧ sampleN = 0)) :
    addSample timescale moofStart traf defaults trafIdx trun (track, lastRunPosition) sampleN
      = .ok (track.append timescale (endTime track.samples)
          [(lastRunPosition, trun.laidAt defaults sampleN)],
        wrapU64 (lastRunPosition + trun.sizeOf defaults sampleN)) := by
  obtain ⟨last, hlast⟩ : ∃ last, track.samples.getLast? = some last :=
    ⟨_, List.getLast?_eq_some_getLast hne⟩
  simp only [addSample, hmerged, true_or, if_true, hlast, if_neg hnext, append_singleton, endTime]
  rfl

theorem addSample_first (hsound : track.Sound) (hfirst : traf.truns.head? = some trun) :
    addSample timescale moofStart traf defaults 0 trun (track, lastRunPosition) 0
      = .ok ({ track.append timescale (track.nextTime traf)
            [(traf.dataStart moofStart, trun.laidAt defaults 0)] with firstTrafMerged := true },
        wrapU64 (traf.dataStart moofStart + trun.sizeOf defaults 0)) := by
  obtain ⟨rest, hruns⟩ : ∃ rest, traf.truns = trun :: rest := List.head?_eq_some_iff.1 hfirst
  -- the first run of a track fragment begins where its offset says
  have hbase : (if hasFlag trun.flags TrunBox.flagDataOffset = true then
        saturatingAddSigned (traf.baseDataOffset moofStart lastRunPosition 0)
          (trun.dataOffset.getD 0)
      else traf.baseDataOffset moofStart lastRunPosition 0) = traf.dataStart moofStart := by
    rw [TrafBox.dataStart, hruns]
    rfl
  -- after other samples the time goes on, and `tfdt` counts otherwise
  by_cases hmerged : track.firstTrafMerged = true
  · obtain ⟨last, hlast⟩ : ∃ last, track.samples.getLast? = some last :=
      ⟨_, List.getLast?_eq_some_getLast (hsound hmerged)⟩
    simp only [addSample, hmerged, true_or, if_true, hlast, and_self, hbase, append_singleton,
      Track.nextTime, endTime]
    rfl
  · have htime : wrapI64 (track.nextTime traf) = (traf.tfdt.map asI64).getD 0 := by
      rw [Track.nextTime, if_neg hmerged]
      cases traf.tfdt with
      | none => rfl
      | some time => rw [Option.map_some, Option.getD_some, asI64, wrapI64_wrapI64]
    simp only [addSample, hmerged, Nat.lt_irrefl, and_self, if_true, hbase, append_singleton, htime]
    rfl

/-! ### The runs of a fragment -/

/-- Samples one behind the other. -/
theorem foldlM_addSample (hmerged : track.firstTrafMerged = true) (hne : track.samples ≠ [])
    {ns : List ℕ} (hnext : ∀ n ∈ ns, ¬ (trafIdx = 0 ∧ n = 0))
    (hfits : lastRunPosition + bytesOf (ns.map (trun.laidAt defaults)) ≤ u64Max) :
    ns.foldlM (addSample timescale moofStart traf defaults trafIdx trun) (track, lastRunPosition)
      = .ok (track.append timescale (endTime track.samples)
          (place lastRunPosition (ns.map (trun.laidAt defaults))),
        lastRunPosition + bytesOf (ns.map (trun.laidAt defaults))) := by
  induction ns generalizing track lastRunPosition with
  | nil =>
    rw [List.foldlM_nil, List.map_nil, bytesOf, Nat.add_zero, place, Track.append, reference,
      List.map_nil, List.append_nil]
    rfl
  | cons n ns ih =>
    rw [List.forall_mem_cons] at hnext
    rw [List.map_cons, bytesOf, ← Nat.add_assoc] at hfits
    -- the end of this sample is the place of the next
    have hwrap : wrapU64 (lastRunPosition + trun.sizeOf defaults n)
        = lastRunPosition + (trun.laidAt defaults n).size :=
      wrapU64_eq ((Nat.le_add_right _ _).trans hfits)
    rw [List.foldlM_cons, addSample_next hmerged hne hnext.1, hwrap]
    show List.foldlM _ (_, _) ns = _
    have hstill : (track.append timescale (endTime track.samples)
        [(lastRunPosition, trun.laidAt defaults n)]).firstTrafMerged = true := hmerged
    -- the time wraps at each sample, which is as good as once
    rw [ih hstill (append_ne_nil hne _ _) hnext.2 hfits,
      append_congr _ (wrapI64_endTime_append _ _), append_append, List.map_cons, bytesOf,
      ← Nat.add_assoc, place]
    rfl

/-- The runs behind the first one. -/
theorem foldlM_addRun (hmerged : track.firstTrafMerged = true) (hne : track.samples ≠ [])
    {runs : List (TrunBox × ℕ)} (hnext : ∀ run ∈ runs, run.2 ≠ 0)
    (hfits : lastRunPosition + bytesOf (runs.flatMap fun run => run.1.laid defaults) ≤ u64Max) :
    runs.foldlM (addRun timescale moofStart traf defaults) (track, lastRunPosition)
      = .ok (track.append timescale (endTime track.samples)
          (place lastRunPosition (runs.flatMap fun run => run.1.laid defaults)),
        lastRunPosition + bytesOf (runs.flatMap fun run => run.1.laid defaults)) := by
  induction runs generalizing track lastRunPosition with
  | nil =>
    rw [List.foldlM_nil, List.flatMap_nil, bytesOf, Nat.add_zero, place, Track.append, reference,
      List.map_nil, List.append_nil]
    rfl
  | cons run runs ih =>
    rw [List.forall_mem_cons] at hnext
    rw [List.flatMap_cons, bytesOf_append, ← Nat.add_assoc] at hfits
    -- a run is its samples
    have hrun : addRun timescale moofStart traf defaults (track, lastRunPosition) run
        = .ok (track.append timescale (endTime track.samples)
            (place lastRunPosition (run.1.laid defaults)),
          lastRunPosition + bytesOf (run.1.laid defaults)) :=
      foldlM_addSample hmerged hne (fun n _ hzero => hnext.1 hzero.1)
        ((Nat.le_add_right _ _).trans hfits)
    have hstill : (track.append timescale (endTime track.samples)
        (place lastRunPosition (run.1.laid defaults))).firstTrafMerged = true := hmerged
    rw [List.foldlM_cons, hrun]
    show List.foldlM _ (_, _) runs = _
    rw [ih hstill (append_ne_nil hne _ _) hnext.2 hfits,
      append_congr _ (wrapI64_endTime_append _ _), append_append, List.flatMap_cons, bytesOf_append,
      ← Nat.add_assoc, place_append]

/-- Where the next run would go on. -/
def TrafBox.nextPosition (traf : TrafBox) (moofStart : ℕ) (defaults : Defaults)
    (lastRunPosition : ℕ) : ℕ :=
  if traf.truns = [] then lastRunPosition
  else traf.dataStart moofStart + bytesOf (traf.chunk moofStart defaults).samples

/-- A track with the samples of a fragment. -/
def Track.add (timescale : ℕ) (defaults : Defaults) (track : Track) (fragment : ℕ × TrafBox) :
    Track :=
  { track.append timescale (track.nextTime fragment.2) (fragment.2.chunk fragment.1 defaults).placed
      with firstTrafMerged := track.firstTrafMerged || !fragment.2.truns.isEmpty }

/-- The samples of a run behind its first one. -/
def TrunBox.others (trun : TrunBox) (defaults : Defaults) : List LaidSample :=
  ((List.range (trun.sampleCount - 1)).map Nat.succ).map (trun.laidAt defaults)

theorem TrunBox.laid_eq_cons (hpos : 0 < trun.sampleCount) :
    trun.laid defaults = trun.laidAt defaults 0 :: trun.others defaults := by
  have hcount : trun.sampleCount = trun.sampleCount - 1 + 1 := (Nat.succ_pred_eq_of_pos hpos).symm
  rw [laid, others, hcount, List.range_succ_eq_map, List.map_cons]
  rfl

/-- The samples of a fragment: the first one, the rest of its run, and the other runs. -/
theorem TrafBox.samples_eq_cons {rest : List TrunBox} (hruns : traf.truns = trun :: rest)
    (hpos : 0 < trun.sampleCount) :
    (traf.chunk moofStart defaults).samples = trun.laidAt defaults 0 ::
      (trun.others defaults ++ (rest.zipIdx 1).flatMap fun run => run.1.laid defaults) := by
  have hrest : (rest.zipIdx 1).flatMap (fun run => run.1.laid defaults)
      = rest.flatMap fun trun => trun.laid defaults := by
    conv_rhs => rw [← List.zipIdx_map_fst 1 rest, List.flatMap_map]
  rw [chunk, hruns, List.flatMap_cons, TrunBox.laid_eq_cons hpos, hrest]
  rfl

/-- The track once the first sample of a fragment was added. -/
def Track.addFirst (timescale moofStart : ℕ) (traf : TrafBox) (defaults : Defaults) (trun : TrunBox)
    (track : Track) : Track :=
  { track.append timescale (track.nextTime traf)
      [(traf.dataStart moofStart, trun.laidAt defaults 0)] with firstTrafMerged := true }

theorem Track.addFirst_ne_nil : (track.addFirst timescale moofStart traf defaults trun).samples ≠ [] := by
  simp [addFirst, append, reference]

/-- The first run of a fragment. -/
theorem addRun_first (hsound : track.Sound) (hfirst : traf.truns.head? = some trun)
    (hpos : 0 < trun.sampleCount)
    (hfits : traf.dataStart moofStart + (trun.laidAt defaults 0).size
      + bytesOf (trun.others defaults) ≤ u64Max) :
    addRun timescale moofStart traf defaults (track, lastRunPosition) (trun, 0)
      = .ok ((track.addFirst timescale moofStart traf defaults trun).append timescale
          (endTime (track.addFirst timescale moofStart traf defaults trun).samples)
          (place (traf.dataStart moofStart + (trun.laidAt defaults 0).size) (trun.others defaults)),
        traf.dataStart moofStart + (trun.laidAt defaults 0).size + bytesOf (trun.others defaults)) := by
  have hcount : trun.sampleCount = trun.sampleCount - 1 + 1 := (Nat.succ_pred_eq_of_pos hpos).symm
  have hwrap : wrapU64 (traf.dataStart moofStart + trun.sizeOf defaults 0)
      = traf.dataStart moofStart + (trun.laidAt defaults 0).size :=
    wrapU64_eq ((Nat.le_add_right _ _).trans hfits)
  have hstart : addSample timescale moofStart traf defaults 0 trun (track, lastRunPosition) 0
      = .ok (track.addFirst timescale moofStart traf defaults trun,
        traf.dataStart moofStart + (trun.laidAt defaults 0).size) := by
    rw [addSample_first hsound hfirst, hwrap]
    rfl
  rw [addRun]
  dsimp only
  rw [hcount, List.range_succ_eq_map, List.foldlM_cons, hstart]
  -- the samples behind the first one go on where it ends
  refine foldlM_addSample rfl Track.addFirst_ne_nil (fun n hn hzero => ?_) hfits
  obtain ⟨m, -, rfl⟩ := List.mem_map.1 hn
  exact m.succ_ne_zero hzero.2

/-- All runs of a fragment whose first one has a sample. -/
theorem addRuns_cons (hsound : track.Sound) {rest : List TrunBox}
    (hruns : traf.truns = trun :: rest) (hpos : 0 < trun.sampleCount)
    (hfits : traf.dataStart moofStart + bytesOf (traf.chunk moofStart defaults).samples ≤ u64Max) :
    addRuns timescale moofStart traf defaults track lastRunPosition
      = .ok ((track.addFirst timescale moofStart traf defaults trun).append timescale
          (endTime (track.addFirst timescale moofStart traf defaults trun).samples)
          (place (traf.dataStart moofStart + (trun.laidAt defaults 0).size) (trun.others defaults
            ++ (rest.zipIdx 1).flatMap fun run => run.1.laid defaults)),
        traf.dataStart moofStart + bytesOf (traf.chunk moofStart defaults).samples) := by
  rw [TrafBox.samples_eq_cons hruns hpos, bytesOf, bytesOf_append, ← Nat.add_assoc,
    ← Nat.add_assoc] at hfits ⊢
  have hfirst : traf.truns.head? = some trun := by rw [hruns, List.head?_cons]
  have hnext : ∀ run ∈ rest.zipIdx 1, run.2 ≠ 0 := fun run hmem => by
    have := List.le_snd_of_mem_zipIdx hmem
    omega
  rw [addRuns, hruns, List.zipIdx_cons, List.foldlM_cons,
    addRun_first hsound hfirst hpos ((Nat.le_add_right _ _).trans hfits)]
  show List.foldlM _ (_, _) (rest.zipIdx 1) = _
  rw [foldlM_addRun rfl (append_ne_nil Track.addFirst_ne_nil _ _) hnext hfits,
    append_congr _ (wrapI64_endTime_append _ _), append_append, place_append]

/-- A fragment puts its samples behind those of the track. -/
theorem addRuns_eq (hsound : track.Sound) (hregular : traf.Regular moofStart defaults) :
    addRuns timescale moofStart traf defaults track lastRunPosition
      = .ok (track.add timescale defaults (moofStart, traf),
        traf.nextPosition moofStart defaults lastRunPosition) := by
  rw [Track.add]
  rcases hruns : traf.truns with _ | ⟨trun, rest⟩
  · -- no run, so nothing is added
    have hsamples : (traf.chunk moofStart defaults).samples = [] := by
      rw [TrafBox.chunk, hruns]
      rfl
    rw [addRuns, hruns, LaidChunk.placed, hsamples, place, Track.append, reference, List.map_nil,
      List.append_nil, TrafBox.nextPosition, if_pos hruns]
    simp only [List.isEmpty_nil, Bool.not_true, Bool.or_false]
    rfl
  · have hpos := hregular.first trun (by rw [hruns, List.head?_cons])
    set others := trun.others defaults ++ (rest.zipIdx 1).flatMap fun run => run.1.laid defaults
      with hothers
    have hplaced : (traf.chunk moofStart defaults).placed
        = (traf.dataStart moofStart, trun.laidAt defaults 0)
          :: place (traf.dataStart moofStart + (trun.laidAt defaults 0).size) others := by
      rw [LaidChunk.placed, TrafBox.samples_eq_cons hruns hpos]
      rfl
    -- the others go on at the time of the first one, as if all were added at once
    have hend : wrapI64 (endTime (track.addFirst timescale moofStart traf defaults trun).samples)
        = wrapI64 (track.nextTime traf
          + passed [(traf.dataStart moofStart, trun.laidAt defaults 0)]) :=
      wrapI64_endTime_append_of_ne_nil _ _ _ (List.cons_ne_nil _ _)
    have hjoin : (track.append timescale (track.nextTime traf)
        [(traf.dataStart moofStart, trun.laidAt defaults 0)]).append timescale (track.nextTime traf
          + passed [(traf.dataStart moofStart, trun.laidAt defaults 0)])
          (place (traf.dataStart moofStart + (trun.laidAt defaults 0).size) others)
        = track.append timescale (track.nextTime traf)
          ((traf.dataStart moofStart, trun.laidAt defaults 0)
            :: place (traf.dataStart moofStart + (trun.laidAt defaults 0).size) others) :=
      append_append track _ _ _
    have hflag : (track.firstTrafMerged || !(trun :: rest).isEmpty) = true := by simp
    rw [addRuns_cons hsound hruns hpos hregular.fits, ← hothers, append_congr _ hend,
      TrafBox.nextPosition, hruns, if_neg (List.cons_ne_nil _ _), hflag, hplaced, ← hjoin]
    rfl

theorem TrafBox.Regular.placed_ne_nil (hregular : traf.Regular moofStart defaults)
    (hne : traf.truns ≠ []) : (traf.chunk moofStart defaults).placed ≠ [] := by
  obtain ⟨trun, rest, hruns⟩ := List.exists_cons_of_ne_nil hne
  have hpos := hregular.first trun (by rw [hruns, List.head?_cons])
  refine LaidChunk.placed_ne_nil fun hnil => ?_
  rw [TrafBox.chunk, hruns, List.flatMap_cons, List.append_eq_nil_iff, TrunBox.laid,
    List.map_eq_nil_iff, List.range_eq_nil] at hnil
  exact hpos.ne' hnil.1

theorem placed_of_truns_eq_nil (hnil : traf.truns = []) :
    (traf.chunk moofStart defaults).placed = [] := by
  rw [LaidChunk.placed, TrafBox.chunk, hnil]
  rfl

theorem Track.Sound.add (hsound : track.Sound) (hregular : traf.Regular moofStart defaults) :
    (track.add timescale defaults (moofStart, traf)).Sound := by
  intro hmerged hnil
  rw [Track.add, Track.append, List.append_eq_nil_iff] at hnil
  by_cases hruns : traf.truns = []
  · rw [Track.add, hruns] at hmerged
    simp only [List.isEmpty_nil, Bool.not_true, Bool.or_false] at hmerged
    exact hsound hmerged hnil.1
  · have hlen : (reference timescale track.samples.length (track.nextTime traf)
        (traf.chunk moofStart defaults).placed).length = _ := length_reference
    rw [List.map_eq_nil_iff.1 hnil.2] at hlen
    exact hregular.placed_ne_nil hruns (List.length_eq_zero_iff.1 hlen.symm)

/-! ### The fragments of a track -/

/-- When the first sample of the fragments of a track is decoded. -/
def Track.startTime (track : Track) (own : List (ℕ × TrafBox)) : ℤ :=
  if track.firstTrafMerged = true then endTime track.samples
  else ((own.find? fun f => !f.2.truns.isEmpty).bind fun f => f.2.tfdt.map asI64).getD 0

/-- A fragment without runs changes nothing. -/
theorem Track.add_of_truns_eq_nil (hnil : traf.truns = []) :
    track.add timescale defaults (moofStart, traf) = track := by
  rw [Track.add, placed_of_truns_eq_nil hnil, Track.append, reference, List.map_nil, List.append_nil,
    hnil, List.isEmpty_nil, Bool.not_true, Bool.or_false]

theorem Track.startTime_of_truns_eq_nil (hnil : traf.truns = []) (own : List (ℕ × TrafBox)) :
    track.startTime ((moofStart, traf) :: own) = track.startTime own := by
  rw [startTime, startTime, List.find?_cons_of_neg (by simp [hnil])]

theorem Track.startTime_of_truns_ne_nil (hne : traf.truns ≠ []) (own : List (ℕ × TrafBox)) :
    track.startTime ((moofStart, traf) :: own) = track.nextTime traf := by
  rw [startTime, nextTime, List.find?_cons_of_pos (by simpa using hne)]
  rfl

/-- Behind a fragment with samples the track goes on where they have passed. -/
theorem Track.startTime_add (hregular : traf.Regular moofStart defaults) (hne : traf.truns ≠ [])
    (own : List (ℕ × TrafBox)) :
    wrapI64 ((track.add timescale defaults (moofStart, traf)).startTime own)
      = wrapI64 (track.nextTime traf + passed (traf.chunk moofStart defaults).placed) := by
  have hmerged : (track.add timescale defaults (moofStart, traf)).firstTrafMerged = true := by
    simp [Track.add, hne]
  rw [startTime, if_pos hmerged]
  exact wrapI64_endTime_append_of_ne_nil _ _ _ (hregular.placed_ne_nil hne)

/-- The fragments of a track give its further samples, in the order of the fragments. -/
theorem samples_foldl_add (defaultsOf : TrafBox → Defaults) {own : List (ℕ × TrafBox)}
    (hregular : ∀ f ∈ own, f.2.Regular f.1 (defaultsOf f.2)) :
    (own.foldl (fun track f => track.add timescale (defaultsOf f.2) f) track).samples
      = track.samples ++ (reference timescale track.samples.length (track.startTime own)
          (placed (own.map fun f => f.2.chunk f.1 (defaultsOf f.2)))).map Sample.wrapTimes := by
  induction own generalizing track with
  | nil => rw [List.map_nil, placed_nil, reference, List.map_nil, List.append_nil, List.foldl_nil]
  | cons f own ih =>
    obtain ⟨moofStart, traf⟩ := f
    rw [List.forall_mem_cons] at hregular
    rw [List.foldl_cons, ih hregular.2, List.map_cons, placed_cons, reference_append, List.map_append]
    -- a fragment without a run adds nothing
    by_cases hruns : traf.truns = []
    · rw [Track.add_of_truns_eq_nil hruns, Track.startTime_of_truns_eq_nil hruns,
        placed_of_truns_eq_nil hruns, passed, add_zero]
      rfl
    · rw [map_wrapTimes_congr (Track.startTime_add hregular.1 hruns own),
        Track.startTime_of_truns_ne_nil hruns, Track.add, Track.append, List.length_append,
        List.length_map, length_reference, List.append_assoc]

/-! ### The fragments of a file -/

def MoovBox.timescaleOf (moov : MoovBox) (trackId : ℕ) : ℕ :=
  ((moov.traks.find? fun trak => trak.trackId == trackId).map TrakBox.timescale).getD 0

def MoovBox.defaultsOf (moov : MoovBox) (traf : TrafBox) : Defaults :=
  match moov.trexOf traf.tfhd.trackId with
  | .ok trex => traf.tfhd.defaults trex
  | .error _ => traf.tfhd.defaults TrexBox.default

/-- What is wrong with a fragment, if anything is. -/
def MoovBox.fragmentError (moov : MoovBox) (ids : List ℕ) (fragment : ℕ × TrafBox) :
    Option ReadError :=
  let trackId := fragment.2.tfhd.trackId
  if trackId ∉ ids then some (.trakNotFound trackId)
  else if trackId ∉ moov.traks.map TrakBox.trackId then some (.trakNotFound trackId)
  else
    match moov.trexOf trackId with
    | .ok _ => none
    | .error e => some e

/-- The fragments of a track. -/
def ownFragments (trackId : ℕ) (fragments : List (ℕ × TrafBox)) : List (ℕ × TrafBox) :=
  fragments.filter fun f => f.2.tfhd.trackId == trackId

/-- A track with all its fragments. -/
def Track.withFragments (track : Track) (moov : MoovBox) (fragments : List (ℕ × TrafBox)) : Track :=
  (ownFragments track.trackId fragments).foldl
    (fun t f => t.add (moov.timescaleOf track.trackId) (moov.defaultsOf f.2) f) track

theorem Track.withFragments_cons (track : Track) (moov : MoovBox) (f : ℕ × TrafBox)
    (fragments : List (ℕ × TrafBox)) : track.withFragments moov (f :: fragments) =
      (if f.2.tfhd.trackId = track.trackId then
        track.add (moov.timescaleOf track.trackId) (moov.defaultsOf f.2) f
      else track).withFragments moov fragments := by
  rw [withFragments, ownFragments, List.filter_cons]
  by_cases hid : f.2.tfhd.trackId = track.trackId
  · rw [if_pos (by simpa using hid), if_pos hid, List.foldl_cons]
    rfl
  · rw [if_neg (by simpa using hid), if_neg hid]
    rfl

theorem find?_key_eq_none_iff {α : Type} {key : α → ℕ} {l : List α} {id : ℕ} :
    l.find? (fun a => key a == id) = none ↔ id ∉ l.map key := by
  rw [List.find?_eq_none, List.mem_map, not_exists]
  refine forall_congr' fun a => ?_
  rw [not_and, beq_iff_eq]

theorem exists_find?_key {α : Type} {key : α → ℕ} {l : List α} {id : ℕ} (h : id ∈ l.map key) :
    ∃ a ∈ l, l.find? (fun a => key a == id) = some a ∧ key a = id := by
  rcases hfind : l.find? (fun a => key a == id) with _ | a
  · exact absurd h (find?_key_eq_none_iff.1 hfind)
  · have hkey := List.find?_some hfind
    exact ⟨a, List.mem_of_find?_eq_some hfind, rfl, beq_iff_eq.1 hkey⟩

/-- One fragment. -/
theorem addTraf_eq (lastRunPosition : ℕ) {moov : MoovBox} {tracks : List Track} {f : ℕ × TrafBox}
    (hids : (tracks.map Track.trackId).Nodup) (hsound : ∀ t ∈ tracks, t.Sound)
    (hregular : f.2.Regular f.1 (moov.defaultsOf f.2)) :
    match moov.fragmentError (tracks.map Track.trackId) f with
    | some e => addTraf moov (tracks, lastRunPosition) f = .error e
    | none => ∃ last, addTraf moov (tracks, lastRunPosition) f = .ok
        (tracks.map fun t => if f.2.tfhd.trackId = t.trackId then
          t.add (moov.timescaleOf t.trackId) (moov.defaultsOf f.2) f else t, last) := by
  obtain ⟨moofStart, traf⟩ := f
  rw [MoovBox.fragmentError]
  -- the errors in the order of the code: no track, no trak, no trex
  by_cases htrack : traf.tfhd.trackId ∈ tracks.map Track.trackId
  · rw [if_neg (not_not.2 htrack)]
    obtain ⟨t, ht, hfind, hid⟩ := exists_find?_key htrack
    by_cases htrak : traf.tfhd.trackId ∈ moov.traks.map TrakBox.trackId
    · rw [if_neg (not_not.2 htrak)]
      obtain ⟨trak, -, hfind', -⟩ := exists_find?_key htrak
      rcases htrex : moov.trexOf traf.tfhd.trackId with e | trex
      · simp only [addTraf, hfind, hfind', htrex]
        rfl
      · have hdefaults : moov.defaultsOf traf = traf.tfhd.defaults trex := by
          rw [MoovBox.defaultsOf, htrex]
        have htimescale : moov.timescaleOf t.trackId = trak.timescale := by
          rw [MoovBox.timescaleOf, hid, hfind']
          rfl
        rw [hdefaults] at hregular
        simp only [addTraf, hfind, hfind', htrex]
        refine ⟨traf.nextPosition moofStart (traf.tfhd.defaults trex) lastRunPosition, ?_⟩
        show (addRuns trak.timescale moofStart traf (traf.tfhd.defaults trex) t lastRunPosition
          >>= fun st => Except.ok (replaceTrack st.1 tracks, st.2)) = _
        -- the runs of the fragment are added to the one track with its id
        rw [addRuns_eq (hsound t ht) hregular]
        refine congrArg Except.ok (Prod.ext (List.map_congr_left fun u hu => ?_) rfl)
        rw [← hid]
        show (if u.trackId = t.trackId then _ else u) = _
        split_ifs with heq hne hne
        · obtain rfl := List.inj_on_of_nodup_map hids hu ht heq
          rw [htimescale, hdefaults]
        · exact absurd heq.symm hne
        · exact absurd hne.symm heq
        · rfl
    · rw [if_pos htrak]
      simp only [addTraf, hfind, find?_key_eq_none_iff.2 htrak]
      rfl
  · rw [if_pos htrack]
    simp only [addTraf, find?_key_eq_none_iff.2 htrack]
    rfl

/-- What is wrong with the first bad fragment of a file is the error; otherwise every track gets its
own fragments, in whatever way those of the tracks alternate. -/
theorem foldlM_addTraf (lastRunPosition : ℕ) {moov : MoovBox} {fragments : List (ℕ × TrafBox)}
    {tracks : List Track} (hids : (tracks.map Track.trackId).Nodup)
    (hsound : ∀ t ∈ tracks, t.Sound)
    (hregular : ∀ f ∈ fragments, f.2.Regular f.1 (moov.defaultsOf f.2)) :
    Prod.fst <$> fragments.foldlM (addTraf moov) (tracks, lastRunPosition)
      = match fragments.findSome? (moov.fragmentError (tracks.map Track.trackId)) with
        | some e => .error e
        | none => .ok (tracks.map fun t => t.withFragments moov fragments) := by
  induction fragments generalizing tracks lastRunPosition with
  | nil =>
    have hsame : tracks.map (fun t => t.withFragments moov []) = tracks := List.map_id tracks
    rw [List.findSome?_nil, hsame]
    rfl
  | cons f fragments ih =>
    rw [List.forall_mem_cons] at hregular
    have hone := addTraf_eq lastRunPosition hids hsound hregular.1
    rw [List.foldlM_cons, List.findSome?_cons]
    -- the first fragment that fails ends the loop
    rcases herror : moov.fragmentError (tracks.map Track.trackId) f with _ | e
    · rw [herror] at hone
      obtain ⟨last, hone⟩ := hone
      set tracks' := tracks.map fun t => if f.2.tfhd.trackId = t.trackId then
        t.add (moov.timescaleOf t.trackId) (moov.defaultsOf f.2) f else t with htracks'
      -- the tracks keep their ids, so the errors of the rest are the same
      have hsame : tracks'.map Track.trackId = tracks.map Track.trackId := by
        rw [htracks', List.map_map]
        refine List.map_congr_left fun t _ => ?_
        simp only [Function.comp_apply]
        split_ifs with hid
        · rfl
        · rfl
      have hsound' : ∀ t ∈ tracks', t.Sound := by
        intro t ht
        obtain ⟨u, hu, rfl⟩ := List.mem_map.1 ht
        split_ifs with hid
        · exact (hsound u hu).add hregular.1
        · exact hsound u hu
      have hrest := ih last (hsame ▸ hids) hsound' hregular.2
      rw [hone]
      show Prod.fst <$> fragments.foldlM (addTraf moov) (tracks', last) = _
      rw [hrest, hsame, htracks', List.map_map]
      have hall : (fun t : Track => t.withFragments moov fragments) ∘ (fun t : Track =>
          if f.2.tfhd.trackId = t.trackId then
            t.add (moov.timescaleOf t.trackId) (moov.defaultsOf f.2) f else t)
            = fun t => t.withFragments moov (f :: fragments) :=
        funext fun t => (t.withFragments_cons moov f fragments).symm
      rw [hall]
    · rw [herror] at hone
      simp only at hone
      rw [hone]
      rfl

/-! ### The tracks of a file -/

theorem mem_insertTrack {t u : Track} {tracks : List Track} (h : u ∈ insertTrack t tracks) :
    u = t ∨ u ∈ tracks := by
  induction tracks with
  | nil => exact .inl (List.mem_singleton.1 h)
  | cons v tracks ih =>
    rw [insertTrack] at h
    split_ifs at h with hlt heq
    · exact List.mem_cons.1 h
    · exact (List.mem_cons.1 h).imp id (List.mem_cons_of_mem v)
    · rcases List.mem_cons.1 h with rfl | h
      · exact .inr (List.mem_cons_self ..)
      · exact (ih h).imp id (List.mem_cons_of_mem v)

/-- The tracks stay in the order of their ids. -/
theorem pairwise_insertTrack (t : Track) {tracks : List Track}
    (h : tracks.Pairwise fun a b => a.trackId < b.trackId) :
    (insertTrack t tracks).Pairwise fun a b => a.trackId < b.trackId := by
  induction tracks with
  | nil => exact List.pairwise_singleton _ _
  | cons u tracks ih =>
    obtain ⟨hu, htracks⟩ := List.pairwise_cons.1 h
    -- in front, over the one of this id, or further back
    rw [insertTrack]
    split_ifs with hlt heq
    · exact List.pairwise_cons.2 ⟨List.forall_mem_cons.2
        ⟨hlt, fun v hv => hlt.trans (hu v hv)⟩, h⟩
    · exact List.pairwise_cons.2 ⟨fun v hv => heq ▸ hu v hv, htracks⟩
    · refine List.pairwise_cons.2 ⟨fun v hv => ?_, ih htracks⟩
      rcases mem_insertTrack hv with rfl | hv
      · omega
      · exact hu v hv

/-- The tables give tracks with ids of their own, and without fragments. -/
theorem buildTracks_spec {moov : MoovBox} {tracks : List Track}
    (h : buildTracks moov = .ok tracks) : (tracks.Pairwise fun a b => a.trackId < b.trackId)
      ∧ ∀ t ∈ tracks, t.firstTrafMerged = false := by
  -- `buildTracks` inserts one track a round
  unfold buildTracks at h
  refine Loop.foldlM_keeps (I := fun tracks => (tracks.Pairwise fun a b => a.trackId < b.trackId)
    ∧ ∀ t ∈ tracks, t.firstTrafMerged = false) (fun start trak next hstart hround => ?_)
    ⟨List.Pairwise.nil, nofun⟩ h
  cases hsamples : buildSamples trak with
  | none =>
    rw [hsamples] at hround
    cases hround
  | some samples =>
    rw [hsamples] at hround
    obtain rfl := Except.ok.inj hround
    refine ⟨pairwise_insertTrack _ hstart.1, fun t ht => ?_⟩
    obtain rfl | ht := mem_insertTrack ht
    · rfl
    · exact hstart.2 t ht

/-- Only the samples of a track change, and whether it has got a fragment. -/
theorem foldl_add_eq (defaultsOf : TrafBox → Defaults) (own : List (ℕ × TrafBox)) (track : Track) :
    own.foldl (fun track f => track.add timescale (defaultsOf f.2) f) track
      = { track with
          firstTrafMerged := track.firstTrafMerged || own.any fun f => !f.2.truns.isEmpty
          samples :=
            (own.foldl (fun track f => track.add timescale (defaultsOf f.2) f) track).samples } := by
  induction own generalizing track with
  | nil => rw [List.any_nil, Bool.or_false, List.foldl_nil]
  | cons f own ih =>
    rw [List.foldl_cons, ih, List.any_cons, ← Bool.or_assoc]
    rfl

/-- The fragments of a file: what is wrong with the first bad one is the error.  Otherwise every track
has the samples of its tables and then those of its own fragments, each once and in order, in
whatever way the fragments of the tracks alternate. -/
theorem updateSampleList_eq {moov : MoovBox} {moofs : List MoofBox} {tracks : List Track}
    (hbuild : buildTracks moov = .ok tracks)
    (hregular : ∀ f ∈ fragments moofs, f.2.Regular f.1 (moov.defaultsOf f.2)) :
    updateSampleList moov moofs tracks =
      match (fragments moofs).findSome? (moov.fragmentError (tracks.map Track.trackId)) with
      | some e => .error e
      | none => .ok (tracks.map fun t =>
        let own := ownFragments t.trackId (fragments moofs)
        { t with
          firstTrafMerged := own.any fun f => !f.2.truns.isEmpty
          samples := t.samples ++ (reference (moov.timescaleOf t.trackId) t.samples.length
            (t.startTime own) (placed (own.map fun f => f.2.chunk f.1 (moov.defaultsOf f.2)))).map
              Sample.wrapTimes }) := by
  -- ids in order, and no track with fragments yet
  obtain ⟨hsorted, hfresh⟩ := buildTracks_spec hbuild
  have hids : (tracks.map Track.trackId).Nodup :=
    List.pairwise_map.2 (hsorted.imp fun hlt => hlt.ne)
  have hsound : ∀ t ∈ tracks, t.Sound := fun t ht hmerged => by
    rw [hfresh t ht] at hmerged
    cases hmerged
  rw [updateSampleList, foldlM_addTraf 0 hids hsound hregular]
  -- the error of the first fragment, or the samples of each track
  rcases (fragments moofs).findSome? (moov.fragmentError (tracks.map Track.trackId)) with _ | e
  · refine congrArg Except.ok (List.map_congr_left fun t ht => ?_)
    rw [Track.withFragments, foldl_add_eq, samples_foldl_add, hfresh t ht, Bool.false_or]
    exact fun f hf => hregular f (List.mem_of_mem_filter hf)
  · rfl

/-- Two tracks without samples in their tables. -/
def twoTracks : MoovBox :=
  let trak (trackId : ℕ) : TrakBox :=
    { trackId, width := 64, height := 48, timescale := 1000, duration := 0,
      stbl := { contents := .av01, rawCodecConfig := none, stts := [], ctts := none, stss := none,
                stsc := [], stsz := ⟨0, 0, []⟩, stco := some [], co64 := none } }
  { traks := [trak 1, trak 2], mvex := some [⟨1, 40, 0, 0⟩, ⟨2, 20, 0, 0⟩] }

/-- A fragment of the first track, one of the second, and another one of the first. -/
def alternating : List MoofBox :=
  let traf (trackId time : ℕ) (sizes : List ℕ) : TrafBox :=
    { tfhd := ⟨TfhdBox.flagDefaultBaseIsMoof, trackId, none, none, none, none⟩, tfdt := some time,
      truns := [{ flags := TrunBox.flagDataOffset, sampleCount := sizes.length,
                  dataOffset := some 100, firstSampleFlags := none, sampleDurations := [],
                  sampleSizes := sizes, sampleFlags := [], sampleCts := [] }] }
  [⟨1000, [traf 1 0 [10, 20], traf 2 0 [5]]⟩, ⟨2000, [traf 1 80 [30]]⟩]

theorem updateSampleList_alternating :
    (match updateSampleList twoTracks alternating ((buildTracks twoTracks).toOption.getD []) with
      | .ok tracks => tracks.map fun t => t.samples.map fun s => (s.offset, s.decodeTimestamp)
      | .error _ => []) = [[(1100, 0), (1110, 40), (2100, 80)], [(1100, 0)]] := by
  have hregular : ∀ f ∈ fragments alternating, f.2.Regular f.1 (twoTracks.defaultsOf f.2) := by
    intro f hf
    have hmem : f = (fragments alternating)[0] ∨ f = (fragments alternating)[1]
        ∨ f = (fragments alternating)[2] := by simpa [fragments, alternating] using hf
    obtain rfl | rfl | rfl := hmem
    · exact ⟨by decide, by decide⟩
    · exact ⟨by decide, by decide⟩
    · exact ⟨by decide, by decide⟩
  have hbuild : buildTracks twoTracks = .ok ((buildTracks twoTracks).toOption.getD []) := rfl
  rw [updateSampleList_eq hbuild hregular]
  rfl

end ReMp4

end NoshareCover
