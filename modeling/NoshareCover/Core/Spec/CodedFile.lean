import NoshareCover.Core.Spec.EmptyPacket
import NoshareCover.Core.Spec.SampleTable
import NoshareCover.Core.Video.Fragment

/-!
# Files that hold the data of their samples

If a file holds the data of the samples where its tables say, the demuxer gives the packets of the
samples, each once and in order (`ReMp4.demux_mux`).
-/

namespace NoshareCover

namespace ReMp4

/-! ### The packets -/

/-- A sample with its data. -/
structure Coded where
  data : List UInt8
  delta : ℕ
  ctsOffset : ℤ
  isSync : Bool
  deriving DecidableEq, Repr

structure CodedChunk where
  offset : ℕ
  samples : List Coded
  deriving DecidableEq, Repr

def Coded.laid (c : Coded) : LaidSample :=
  { size := c.data.length, delta := c.delta, ctsOffset := c.ctsOffset, isSync := c.isSync }

def CodedChunk.laid (c : CodedChunk) : LaidChunk :=
  { offset := c.offset, samples := c.samples.map Coded.laid }

/-- The bytes hold the data of the chunk where it says. -/
def CodedChunk.In (c : CodedChunk) (bytes : List UInt8) : Prop :=
  c.samples.flatMap Coded.data <+: bytes.drop c.offset

instance (c : CodedChunk) (bytes : List UInt8) : Decidable (c.In bytes) :=
  inferInstanceAs (Decidable (_ <+: _))

/-- A file with these bytes. -/
def fileOf (bytes : List UInt8) : Mp4File where
  seek _ := .ok ()
  readExact offset size :=
    if offset + size ≤ bytes.length then .ok ((bytes.drop offset).take size)
    else .error "failed to fill whole buffer"
  length_readExact offset size data hread := by
    split_ifs at hread with hle
    cases hread
    rw [List.length_take, List.length_drop]
    omega

/-- The packet of a sample, if it is neither empty nor too large. -/
def Coded.packet (c : Coded) (framing : Framing) (pts : ℕ) : Option Packet :=
  if c.data = [] ∨ mp4MaxSample < c.data.length then none
  else framing.packet c.data pts c.isSync

theorem readExact_of_prefix {bytes data : List UInt8} {offset : ℕ} (hne : data ≠ [])
    (h : data <+: bytes.drop offset) :
    (fileOf bytes).readExact offset data.length = .ok data := by
  have hle := h.length_le
  have hpos := List.length_pos_iff.2 hne
  rw [List.length_drop] at hle
  show (if offset + data.length ≤ bytes.length then _ else _) = _
  rw [if_pos (by omega), ← List.prefix_iff_eq_take.1 h]

/-- What a file gives for a placed sample. -/
def ReadsAs (bytes : List UInt8) (p : ℕ × LaidSample) (c : Coded) : Prop :=
  p.2 = c.laid ∧ (c.data ≠ [] → (fileOf bytes).readExact p.1 c.data.length = .ok c.data)

theorem forall₂_place {bytes : List UInt8} {samples : List Coded} {offset : ℕ}
    (h : samples.flatMap Coded.data <+: bytes.drop offset) :
    List.Forall₂ (ReadsAs bytes) (place offset (samples.map Coded.laid)) samples := by
  induction samples generalizing offset with
  | nil => exact .nil
  | cons c samples ih =>
    rw [List.flatMap_cons] at h
    refine .cons ⟨rfl, fun hne => readExact_of_prefix hne ((List.prefix_append _ _).trans h)⟩ (ih ?_)
    obtain ⟨rest, hrest⟩ := h
    refine ⟨rest, ?_⟩
    show _ = bytes.drop (offset + c.data.length)
    rw [← List.drop_drop, ← hrest, List.append_assoc, List.drop_left]

theorem forall₂_placed {bytes : List UInt8} {coded : List CodedChunk} (h : ∀ c ∈ coded, c.In bytes) :
    List.Forall₂ (ReadsAs bytes) (placed (coded.map CodedChunk.laid))
      (coded.flatMap CodedChunk.samples) := by
  induction coded with
  | nil => exact .nil
  | cons c coded ih =>
    rw [List.forall_mem_cons] at h
    exact List.rel_append (forall₂_place h.1) (ih h.2)

variable {trak : TrakBox} {timescale : ℕ}

/-- What becomes of a sample in the index. -/
theorem sample_of_readsAs {d : Mp4Demux} {bytes : List UInt8} (hfile : d.file = fileOf bytes)
    {c : Coded} {s : Mp4Sample} (hsize : s.size = c.data.length) (hsync : s.isSync = c.isSync)
    (hread : c.data ≠ [] → (fileOf bytes).readExact s.offset c.data.length = .ok c.data) :
    d.sample s = (c.packet d.framing s.pts).map .ok := by
  have hzero : (c.data.length = 0 ∨ mp4MaxSample < c.data.length)
      ↔ (c.data = [] ∨ mp4MaxSample < c.data.length) := or_congr_left List.length_eq_zero_iff
  rw [Mp4Demux.sample, Coded.packet, hsize, hsync, hfile]
  by_cases hskip : c.data = [] ∨ mp4MaxSample < c.data.length
  · rw [if_pos (hzero.2 hskip), if_pos hskip]
    rfl
  · rw [if_neg (mt hzero.1 hskip), if_neg hskip, hread (not_or.1 hskip).1]
    rfl

theorem map_sample_reference {d : Mp4Demux} {bytes : List UInt8} (hfile : d.file = fileOf bytes)
    {ps : List (ℕ × LaidSample)} {cs : List Coded} (h : List.Forall₂ (ReadsAs bytes) ps cs)
    (lead least : ℤ) (m : ℕ) (dts : ℤ) :
    (reference timescale m dts ps).map (fun r => d.sample (r.shift lead least).toMp4)
      = ((reference timescale m dts ps).zip cs).map fun q =>
        (q.2.packet d.framing (q.1.shift lead least).toMp4.pts).map .ok := by
  induction h generalizing m dts with
  | nil => rfl
  | @cons p c ps cs hread hrest ih =>
    rw [reference, List.map_cons, List.zip_cons_cons, List.map_cons, ih]
    refine congrArg (· :: _) (sample_of_readsAs hfile ?_ ?_ hread.2)
    · exact congrArg LaidSample.size hread.1
    · exact congrArg LaidSample.isSync hread.1

/-- The demuxer does not look at the durations. -/
theorem map_closeLast {α : Type} {f : Sample → α}
    (hf : ∀ s duration, f { s with duration } = f s) (duration : ℕ) (samples : List Sample) :
    (closeLast duration samples).map f = samples.map f := by
  rcases List.eq_nil_or_concat samples with rfl | ⟨front, last, rfl⟩
  · rfl
  · rw [List.concat_eq_append, closeLast_concat, List.map_append, List.map_append, List.map_singleton,
      List.map_singleton, hf]

/-- A file that holds the data of chunks where tables describe them: call `n` of the demuxer gives
packet `n` of those that the samples have, the end of the file comes behind the last one, and
presentation starts at zero. -/
theorem demux_mux {bytes : List UInt8} {coded : List CodedChunk} (hin : ∀ c ∈ coded, c.In bytes)
    (hdescribes : Describes trak.stbl (coded.map CodedChunk.laid)) {samples : List Sample}
    (hbuild : buildSamples trak = some samples) {d : Mp4Demux} (hfile : d.file = fileOf bytes)
    (hsamples : d.samples = samples.map Sample.toMp4) (hnext : d.next = 0) (n : ℕ) :
    heard (((fun d : Mp4Demux => d.nextPacket.2)^[n] d).nextPacket).1
      = ((((trak.reference (coded.map CodedChunk.laid)).zip
          (coded.flatMap CodedChunk.samples)).filterMap fun q =>
            q.2.packet d.framing (q.1.shift 0
              (leastShown (trak.reference (coded.map CodedChunk.laid)))).toMp4.pts)[n]?).map .ok := by
  set refs := trak.reference (coded.map CodedChunk.laid) with hrefs
  set lead := decodeLead (laid (coded.map CodedChunk.laid)) + leastShown refs with hlead
  have hcall := Mp4Demux.follows.answer_iterate d n
  -- the n-th answer is the n-th packet of the samples that are left
  rw [hnext, List.drop_zero, hsamples, List.map_map] at hcall
  rw [buildSamples_eq hdescribes, Option.some.injEq] at hbuild
  -- each sample reads the bytes of its own chunk
  have hitems : samples.map (d.sample ∘ Sample.toMp4)
      = (refs.zip (coded.flatMap CodedChunk.samples)).map fun q =>
        (q.2.packet d.framing (q.1.shift 0 (leastShown refs)).toMp4.pts).map .ok := by
    rw [← hbuild, List.map_map, map_closeLast (fun _ _ => rfl)]
    exact map_sample_reference hfile (forall₂_placed hin) lead _ _ _
  -- so the answers are those of the reference
  rw [hitems, List.filterMap_map] at hcall
  show heard (Demuxer.nextPacket _).1 = _
  refine hcall.trans ?_
  rw [← List.getElem?_map, List.map_filterMap]
  rfl

/-- A file with a chunk of two samples behind four other bytes. -/
def clipBytes : List UInt8 := [9, 9, 9, 9, 1, 2, 3, 4, 5]

def clipCoded : List CodedChunk := [⟨4, [⟨[1, 2, 3], 40, 0, true⟩, ⟨[4, 5], 40, 0, false⟩]⟩]

def clipCodedTrak : TrakBox :=
  { trackId := 1, width := 64, height := 48, timescale := 1000, duration := 80,
    stbl := mux .av01 none (clipCoded.map CodedChunk.laid) }

def clipDemux : Mp4Demux :=
  { file := fileOf clipBytes, framing := .raw, next := 0,
    info := { width := 64, height := 48, duration := none, codec := .av1 },
    samples := ((buildSamples clipCodedTrak).getD []).map Sample.toMp4 }

theorem describes_clipCoded : Describes clipCodedTrak.stbl (clipCoded.map CodedChunk.laid) :=
  describes_mux .av01 none (by decide) (by decide) (by decide)

theorem demux_mux_clip :
    heard (((fun d : Mp4Demux => d.nextPacket.2)^[1] clipDemux).nextPacket).1
      = some (.ok { pts := 40000000, keyframe := false, data := [4, 5] }) := by
  have hbuild : buildSamples clipCodedTrak = some ((buildSamples clipCodedTrak).getD []) := by
    rw [buildSamples_eq describes_clipCoded]
    rfl
  have hin : ∀ c ∈ clipCoded, c.In clipBytes := by decide
  refine (demux_mux hin describes_clipCoded hbuild (d := clipDemux) rfl rfl rfl 1).trans ?_
  have hpts : Mp4Sample.pts ⟨1, 7, 2, 40, 1000, false⟩ = 40000000 := by
    norm_num [Mp4Sample.pts, Nat.floor_eq_iff]
  rw [← hpts]
  rfl

end ReMp4

end NoshareCover
