import NoshareCover.Core.Spec.NalConfig

/-!
# Samples and Annex-B

A sample is a concatenation of records, each a length and that many bytes.  Exactly these samples
are converted, and nothing but the empty records is left out (`toAnnexb_eq_some_iff`).
-/

namespace NoshareCover.Bitstream

open Grammar Reader

/-- A unit in a sample. -/
def sampleRecord (lengthSize : ℕ) (nal : List UInt8) : List UInt8 :=
  BigEndian.encode lengthSize nal.length ++ nal

/-- A unit in Annex-B. -/
def annexb (nal : List UInt8) : List UInt8 := startCode ++ nal

/-- What a unit of a sample becomes: nothing, if it is empty. -/
def converted (nal : List UInt8) : List UInt8 := if nal = [] then [] else annexb nal

theorem flatMap_converted (nals : List (List UInt8)) :
    nals.flatMap converted = (nals.filter fun nal => nal ≠ []).flatMap annexb := by
  induction nals with
  | nil => rfl
  | cons nal nals ih =>
    rw [List.flatMap_cons, ih, converted]
    by_cases h : nal = []
    · rw [if_pos h, List.filter_cons_of_neg (by simpa using h), List.nil_append]
    · rw [if_neg h, List.filter_cons_of_pos (by simpa using h), List.flatMap_cons]

variable {cfg : NalConfig} {out out' : List UInt8} {r : Reader}

theorem lengthSize_pos (cfg : NalConfig) : 0 < cfg.lengthSize := by
  rcases cfg.lengthSize_valid with h | h | h <;> omega

/-- One round takes one record. -/
theorem reads_annexbRound (cfg : NalConfig) (out : List UInt8) :
    Reads rest (annexbRound cfg out) fun out' w => ∃ nal : List UInt8,
      nal.length < 256 ^ cfg.lengthSize ∧ out' = out ++ converted nal
        ∧ w = sampleRecord cfg.lengthSize nal := by
  refine ((reads_bytes _).bind fun lenBytes => Reads.ite (Reads.pure out) <|
    (reads_bytes _).bind fun nal => Reads.pure (out ++ startCode ++ nal)).congr
      fun out' w => ⟨?_, ?_⟩
  -- what was read: the length, then the NAL unit unless it is empty
  · rintro ⟨lenBytes, _, v, ⟨rfl, hlen⟩, hv, rfl⟩
    have hlt := BigEndian.value_lt lenBytes
    have hencode := BigEndian.encode_value lenBytes
    rw [BigEndian.foldl_shiftLeft_or] at hv
    rw [hlen] at hlt hencode
    -- a length of 0 is skipped
    split_ifs at hv with hzero
    · obtain ⟨rfl, rfl⟩ := hv
      rw [hzero] at hlt hencode
      refine ⟨[], hlt, (List.append_nil _).symm, ?_⟩
      rw [← hencode]
      rfl
    · obtain ⟨nal, _, _, ⟨rfl, hnal⟩, ⟨rfl, rfl⟩, rfl⟩ := hv
      have hne : nal ≠ [] := by
        rintro rfl
        exact hzero hnal.symm
      refine ⟨nal, hnal ▸ hlt, ?_, ?_⟩
      · rw [converted, if_neg hne, annexb, List.append_assoc]
      · rw [sampleRecord, hnal, hencode, List.append_nil]
  -- and the other way, from the unit to its record
  · rintro ⟨nal, hlt, rfl, rfl⟩
    have hvalue := BigEndian.value_encode hlt
    refine ⟨BigEndian.encode cfg.lengthSize nal.length, _, nal,
      ⟨rfl, BigEndian.length_encode _ _⟩, ?_, rfl⟩
    rw [BigEndian.foldl_shiftLeft_or, hvalue]
    -- nothing is written for an empty unit
    by_cases hne : nal = []
    · rw [if_pos (by rw [hne]; rfl), converted, if_pos hne, List.append_nil]
      exact ⟨rfl, hne⟩
    · rw [if_neg (by rwa [List.length_eq_zero_iff]), converted, if_neg hne]
      refine ⟨nal, nal, [], ⟨rfl, rfl⟩, ⟨?_, rfl⟩, (List.append_nil nal).symm⟩
      rw [annexb, List.append_assoc]

/-- At the end of the sample the loop is done. -/
theorem annexbLoop_of_nil (h : r.rest = []) : annexbLoop cfg r out = some out := by
  have hend : ¬ r.pos < r.buf.length := by
    rw [rest, List.drop_eq_nil_iff] at h
    omega
  rw [annexbLoop, if_neg hend]

/-- Before the end it goes on after one record. -/
theorem annexbLoop_of_ne_nil (h : r.rest ≠ []) :
    annexbLoop cfg r out
      = ((annexbRound cfg out).run r).bind fun q => annexbLoop cfg q.2 q.1 := by
  have hlt : r.pos < r.buf.length := by
    rw [rest, ne_eq, List.drop_eq_nil_iff] at h
    omega
  rw [annexbLoop, if_pos hlt]
  split <;> rename_i hround <;> rw [hround] <;> rfl

theorem length_sampleRecord (cfg : NalConfig) (nal : List UInt8) :
    0 < (sampleRecord cfg.lengthSize nal).length := by
  rw [sampleRecord, List.length_append, BigEndian.length_encode]
  exact Nat.add_pos_left (lengthSize_pos cfg) _

/-- **The loop** converts the records that are left, and fails if there is anything else. -/
theorem annexbLoop_eq_some_iff (r : Reader) (out out' : List UInt8) :
    annexbLoop cfg r out = some out' ↔ ∃ nals : List (List UInt8),
      (∀ nal ∈ nals, nal.length < 256 ^ cfg.lengthSize)
        ∧ r.rest = nals.flatMap (sampleRecord cfg.lengthSize)
        ∧ out' = out ++ nals.flatMap converted := by
  -- by the length of what is left, which every round makes shorter
  induction hn : r.rest.length using Nat.strong_induction_on generalizing r out with
  | _ n ih =>
  by_cases hnil : r.rest = []
  · rw [annexbLoop_of_nil hnil, Option.some_inj, hnil]
    constructor
    · rintro rfl
      exact ⟨[], by simp, rfl, (List.append_nil out).symm⟩
    · rintro ⟨nals, -, hrest, rfl⟩
      cases nals with
      | nil => exact (List.append_nil out).symm
      | cons nal nals =>
        have hpos := length_sampleRecord cfg nal
        rw [(List.append_eq_nil_iff.1 hrest.symm).1] at hpos
        exact absurd hpos (lt_irrefl 0)
  · rw [annexbLoop_of_ne_nil hnil]
    constructor
    · intro hloop
      obtain ⟨⟨out₁, r₁⟩, hround, hloop⟩ := Option.bind_eq_some_iff.1 hloop
      obtain ⟨_, ⟨nal, hnal, rfl, rfl⟩, hrest⟩ := (reads_annexbRound cfg out).sound hround
      have hshorter : r₁.rest.length < n := by
        have hpos := length_sampleRecord cfg nal
        rw [← hn, hrest, List.length_append]
        omega
      obtain ⟨nals, hnals, hrest₁, rfl⟩ := (ih _ hshorter r₁ _ rfl).1 hloop
      refine ⟨nal :: nals, List.forall_mem_cons.2 ⟨hnal, hnals⟩, ?_, ?_⟩
      · rw [hrest, hrest₁, List.flatMap_cons]
      · rw [List.flatMap_cons, List.append_assoc]
    · rintro ⟨nals, hnals, hrest, rfl⟩
      cases nals with
      | nil => exact absurd hrest hnil
      | cons nal nals =>
        obtain ⟨hnal, hnals⟩ := List.forall_mem_cons.1 hnals
        rw [List.flatMap_cons] at hrest
        obtain ⟨r₁, hround, hrest₁⟩ := (reads_annexbRound cfg out).complete ⟨nal, hnal, rfl, rfl⟩ hrest
        have hshorter : r₁.rest.length < n := by
          have hpos := length_sampleRecord cfg nal
          rw [← hn, hrest, hrest₁, List.length_append]
          omega
        rw [hround, Option.bind_some]
        refine (ih _ hshorter r₁ _ rfl).2 ⟨nals, hnals, hrest₁, ?_⟩
        rw [List.flatMap_cons, List.append_assoc]

/-- **A sample is converted** if and only if it is a concatenation of records, and then it becomes
the parameter sets, if it is a keyframe, and all units of its records that are not empty. -/
theorem toAnnexb_eq_some_iff (sample : List UInt8) (cfg : NalConfig) (keyframe : Bool)
    (out : List UInt8) :
    toAnnexb sample cfg keyframe = some out ↔ ∃ nals : List (List UInt8),
      (∀ nal ∈ nals, nal.length < 256 ^ cfg.lengthSize)
        ∧ sample = nals.flatMap (sampleRecord cfg.lengthSize)
        ∧ out = (if keyframe then cfg.parameterSets.flatMap annexb else [])
            ++ (nals.filter fun nal => nal ≠ []).flatMap annexb := by
  simp only [← flatMap_converted]
  exact annexbLoop_eq_some_iff _ _ _

end NoshareCover.Bitstream
