import NoshareCover.Core.Video.SampleTable

/-!
# Samples as they lie in a file

A file holds the samples of a track in chunks.  From the chunks come the offsets of the samples
(`ReMp4.placed`) and the samples with their numbers and timestamps (`ReMp4.reference`).
-/

namespace NoshareCover

namespace ReMp4

/-! ### The layout -/

/-- A sample as the writer of the file has it. -/
structure LaidSample where
  size : ℕ
  /-- How much later the next sample is decoded. -/
  delta : ℕ
  /-- How much later it is presented than decoded. -/
  ctsOffset : ℤ
  isSync : Bool
  deriving DecidableEq, Repr

/-- Samples one behind the other, from an offset in the file on. -/
structure LaidChunk where
  offset : ℕ
  samples : List LaidSample
  deriving DecidableEq, Repr

/-- Samples with their offsets. -/
def place : ℕ → List LaidSample → List (ℕ × LaidSample)
  | _, [] => []
  | offset, s :: samples => (offset, s) :: place (offset + s.size) samples

def LaidChunk.placed (c : LaidChunk) : List (ℕ × LaidSample) := place c.offset c.samples

def placed (chunks : List LaidChunk) : List (ℕ × LaidSample) := chunks.flatMap LaidChunk.placed

def laid (chunks : List LaidChunk) : List LaidSample := chunks.flatMap LaidChunk.samples

/-- Sample number `n`, at its place, decoded at `dts`. -/
def sampleAt (timescale n : ℕ) (dts : ℤ) (p : ℕ × LaidSample) : Sample :=
  { id := n, isSync := p.2.isSync, size := p.2.size, offset := p.1, timescale,
    decodeTimestamp := dts, compositionTimestamp := dts + p.2.ctsOffset, duration := p.2.delta }

/-- The samples of a track whose first one has number `n` and is decoded at `dts`. -/
def reference (timescale : ℕ) : ℕ → ℤ → List (ℕ × LaidSample) → List Sample
  | _, _, [] => []
  | n, dts, p :: rest =>
    sampleAt timescale n dts p :: reference timescale (n + 1) (dts + p.2.delta) rest


/-! ### Places -/

@[simp] theorem length_place (offset : ℕ) (samples : List LaidSample) :
    (place offset samples).length = samples.length := by
  induction samples generalizing offset with
  | nil => rfl
  | cons s samples ih => rw [place, List.length_cons, List.length_cons, ih]

@[simp] theorem map_snd_place (offset : ℕ) (samples : List LaidSample) :
    (place offset samples).map Prod.snd = samples := by
  induction samples generalizing offset with
  | nil => rfl
  | cons s samples ih => rw [place, List.map_cons, ih]

theorem getElem?_place_zero (offset : ℕ) (samples : List LaidSample) :
    (place offset samples)[0]? = samples[0]?.map (offset, ·) := by
  cases samples with
  | nil => rfl
  | cons s samples => rfl

/-- Each sample starts where the one before ends. -/
theorem getElem?_place_succ {offset k o : ℕ} {samples : List LaidSample} {s s' : LaidSample}
    (hk : (place offset samples)[k]? = some (o, s)) (hs : samples[k + 1]? = some s') :
    (place offset samples)[k + 1]? = some (o + s.size, s') := by
  induction samples generalizing offset k with
  | nil => simp at hs
  | cons t samples ih =>
    rw [List.getElem?_cons_succ] at hs
    rw [place, List.getElem?_cons_succ]
    -- right behind, or further on
    cases k with
    | zero =>
      rw [place, List.getElem?_cons_zero] at hk
      cases hk
      rw [getElem?_place_zero, hs]
      rfl
    | succ k =>
      rw [place, List.getElem?_cons_succ] at hk
      exact ih hk hs

/-- The bytes of samples. -/
def bytesOf : List LaidSample → ℕ
  | [] => 0
  | s :: samples => s.size + bytesOf samples

theorem place_append (offset : ℕ) (samples more : List LaidSample) :
    place offset (samples ++ more) = place offset samples ++ place (offset + bytesOf samples) more := by
  induction samples generalizing offset with
  | nil => rfl
  | cons s samples ih =>
    rw [List.cons_append, place, place, List.cons_append, ih, bytesOf, Nat.add_assoc]

theorem bytesOf_append (samples more : List LaidSample) :
    bytesOf (samples ++ more) = bytesOf samples + bytesOf more := by
  induction samples with
  | nil => rw [List.nil_append, bytesOf, Nat.zero_add]
  | cons s samples ih => rw [List.cons_append, bytesOf, ih, bytesOf, Nat.add_assoc]

@[simp] theorem placed_nil : placed [] = [] := rfl

@[simp] theorem placed_cons (c : LaidChunk) (chunks : List LaidChunk) :
    placed (c :: chunks) = c.placed ++ placed chunks := rfl

theorem map_snd_placed (chunks : List LaidChunk) : (placed chunks).map Prod.snd = laid chunks := by
  rw [placed, laid, List.map_flatMap]
  exact congrArg (chunks.flatMap ·) (funext fun c => map_snd_place c.offset c.samples)

theorem length_placed (chunks : List LaidChunk) : (placed chunks).length = (laid chunks).length := by
  rw [← map_snd_placed, List.length_map]

theorem getElem?_laid {chunks : List LaidChunk} {n : ℕ} {p : ℕ × LaidSample}
    (h : (placed chunks)[n]? = some p) : (laid chunks)[n]? = some p.2 := by
  rw [← map_snd_placed, List.getElem?_map, h]
  rfl

theorem LaidChunk.placed_ne_nil {c : LaidChunk} (h : c.samples ≠ []) : c.placed ≠ [] := by
  intro hnil
  have hlen := length_place c.offset c.samples
  rw [← LaidChunk.placed, hnil] at hlen
  exact h (List.length_eq_zero_iff.1 hlen.symm)

/-! ### The samples -/

section Reference

variable {timescale m k : ℕ} {dts : ℤ} {ps : List (ℕ × LaidSample)}

@[simp] theorem length_reference : (reference timescale m dts ps).length = ps.length := by
  induction ps generalizing m dts with
  | nil => rfl
  | cons p ps ih => rw [reference, List.length_cons, List.length_cons, ih]

theorem getElem?_reference {p : ℕ × LaidSample} (hp : ps[k]? = some p) :
    ∃ dts', (reference timescale m dts ps)[k]? = some (sampleAt timescale (m + k) dts' p) := by
  induction ps generalizing m dts k with
  | nil => simp at hp
  | cons q ps ih =>
    cases k with
    | zero =>
      cases hp
      exact ⟨dts, rfl⟩
    | succ k =>
      rw [List.getElem?_cons_succ] at hp
      rw [reference, List.getElem?_cons_succ, show m + (k + 1) = m + 1 + k by omega]
      exact ih hp

/-- Each sample is decoded when the one before has passed. -/
theorem getElem?_reference_succ {r : Sample} {p : ℕ × LaidSample}
    (hr : (reference timescale m dts ps)[k]? = some r) (hp : ps[k + 1]? = some p) :
    (reference timescale m dts ps)[k + 1]?
      = some (sampleAt timescale (m + (k + 1)) (r.decodeTimestamp + r.duration) p) := by
  induction ps generalizing m dts k with
  | nil => simp at hp
  | cons q ps ih =>
    rw [List.getElem?_cons_succ] at hp
    rw [reference, List.getElem?_cons_succ]
    -- the next one begins where this one ends
    cases k with
    | zero =>
      rw [reference, List.getElem?_cons_zero] at hr
      cases hr
      obtain ⟨first, rest, rfl⟩ : ∃ first rest, ps = first :: rest :=
        List.exists_cons_of_ne_nil (by rintro rfl; simp at hp)
      cases hp
      rfl
    | succ k =>
      rw [reference, List.getElem?_cons_succ] at hr
      rw [ih hr hp, Nat.succ_add_eq_add_succ]

/-- The time that samples take. -/
def passed : List (ℕ × LaidSample) → ℤ
  | [] => 0
  | p :: ps => p.2.delta + passed ps

theorem passed_append (qs : List (ℕ × LaidSample)) : passed (ps ++ qs) = passed ps + passed qs := by
  induction ps with
  | nil => rw [List.nil_append, passed, zero_add]
  | cons p ps ih => rw [List.cons_append, passed, ih, passed, add_assoc]

theorem reference_append (qs : List (ℕ × LaidSample)) : reference timescale m dts (ps ++ qs)
    = reference timescale m dts ps ++ reference timescale (m + ps.length) (dts + passed ps) qs := by
  induction ps generalizing m dts with
  | nil => rw [List.nil_append, reference, passed, add_zero]; rfl
  | cons p ps ih =>
    rw [List.cons_append, reference, ih, reference, List.cons_append, passed, List.length_cons,
      ← add_assoc dts, show m + 1 + ps.length = m + (ps.length + 1) by omega]

end Reference

end ReMp4

end NoshareCover
