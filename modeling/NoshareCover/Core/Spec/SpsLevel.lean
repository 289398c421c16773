import Mathlib.Data.List.Infix
import NoshareCover.Core.Video.H264

/-!
# Lowering the level of parameter sets

The scan goes over the flat bytes of a packet, where start codes can overlap and a short unit is
followed by the next start code.  Over the units the scan does what it should: every SPS of too high
a level gets the highest one, and nothing else changes (`clampSpsLevel_annexb`).
-/

namespace NoshareCover.H264

/-! ### Units -/

/-- What ends a unit: three bytes that never occur inside one. -/
def code : List UInt8 := [0, 0, 1]

/-- Units behind their start codes, of four bytes or three. -/
def annexb (units : List (Bool × List UInt8)) : List UInt8 :=
  units.flatMap fun u => (if u.1 then Bitstream.startCode else code) ++ u.2

/-- An SPS with its level byte, above the highest level. -/
def needsClamp (u : List UInt8) : Bool :=
  4 ≤ u.length ∧ u.getD 0 0 &&& 0x1f = 7 ∧ openh264MaxLevel < u.getD 3 0

def clampUnit (u : List UInt8) : List UInt8 := if needsClamp u then u.set 3 openh264MaxLevel else u

theorem length_clampUnit (u : List UInt8) : (clampUnit u).length = u.length := by
  unfold clampUnit
  split_ifs
  · exact List.length_set
  · rfl

/-- What follows a unit is nothing or a start code, whose bytes are small. -/
theorem annexb_head (units : List (Bool × List UInt8)) :
    annexb units = [] ∨ ∃ b rest, annexb units = 0 :: 0 :: b :: rest ∧ b ≤ 1 := by
  cases units with
  | nil => exact .inl rfl
  | cons u units =>
    right
    obtain ⟨four, u⟩ := u
    cases four with
    | true => exact ⟨0, 1 :: (u ++ annexb units), rfl, by decide⟩
    | false => exact ⟨1, u ++ annexb units, rfl, by decide⟩

/-! ### The scan -/

theorem startsAt_iff {data : List UInt8} {i : ℕ} (h : i + 3 ≤ data.length) :
    startsAt data i ↔ code <+: data.drop i := by
  have hdrop : data.drop i = data[i] :: data[i + 1] :: data[i + 2] :: data.drop (i + 3) := by
    rw [List.drop_eq_getElem_cons (by omega), List.drop_eq_getElem_cons (by omega),
      List.drop_eq_getElem_cons (by omega)]
  unfold startsAt
  rw [hdrop, List.getD_eq_getElem _ _ (by omega), List.getD_eq_getElem _ _ (by omega),
    List.getD_eq_getElem _ _ (by omega)]
  simp only [code, List.cons_prefix_cons, List.nil_prefix, and_true]
  constructor
  · rintro ⟨h₀, h₁, h₂⟩
    exact ⟨h₀.symm, h₁.symm, h₂.symm⟩
  · rintro ⟨h₀, h₁, h₂⟩
    exact ⟨h₀.symm, h₁.symm, h₂.symm⟩

theorem clampFrom_end {data : List UInt8} {i : ℕ} (h : data.length ≤ i + 3)
    (out : Option (List UInt8)) : clampFrom data i out = out := by
  rw [clampFrom, if_neg (by omega)]

/-- The scan passes bytes where no start code is. -/
theorem clampFrom_skip {data : List UInt8} {out : Option (List UInt8)} (n : ℕ) : ∀ i,
    (∀ j < n, ¬ code <+: data.drop (i + j)) → clampFrom data i out = clampFrom data (i + n) out := by
  induction n with
  | zero => exact fun _ _ => rfl
  | succ n ih =>
    intro i h
    -- the scan stops three bytes before the end, where no start code fits
    by_cases hend : data.length ≤ i + 3
    · rw [clampFrom_end hend, clampFrom_end (by omega)]
    · have hno : ¬ startsAt data i := by
        rw [startsAt_iff (by omega)]
        exact h 0 (Nat.succ_pos n)
      rw [clampFrom, if_pos (by omega), if_neg hno, ih (i + 1) fun j hj => ?_]
      · congr 1
        omega
      · rw [Nat.add_right_comm, Nat.add_assoc]
        exact h (j + 1) (by omega)

/-- At a start code the unit behind it is looked at. -/
theorem clampFrom_code {data : List UInt8} {i : ℕ} (h : code <+: data.drop i)
    (out : Option (List UInt8)) :
    clampFrom data i out = clampFrom data (i + 3)
      (if levelAbove data (i + 3) then
        some ((out.getD data).set (i + 3 + 3) openh264MaxLevel) else out) := by
  have hlen : i + 3 ≤ data.length := by
    have hle := h.length_le
    rw [List.length_drop] at hle
    have : code.length = 3 := rfl
    omega
  -- the code at the end of the data, or with a byte behind it
  by_cases hend : data.length ≤ i + 3
  · have hno : ¬ levelAbove data (i + 3) := fun habove => by
      have := habove.1
      omega
    rw [clampFrom_end hend, if_neg hno, clampFrom_end (by omega)]
  · rw [clampFrom, if_pos (by omega), if_pos ((startsAt_iff hlen).2 h)]

/-! ### One unit -/

/-- No start code begins inside a unit: its end does not meet the next one halfway. -/
theorem code_not_inside {u rest : List UInt8} (h : ¬ code <:+: u)
    (hrest : rest = [] ∨ ∃ b tail, rest = 0 :: 0 :: b :: tail ∧ b ≤ 1) {j : ℕ} (hj : j < u.length) :
    ¬ code <+: (u ++ rest).drop j := by
  rw [List.drop_append_of_le_length hj.le]
  intro hprefix
  have hsuffix := List.drop_suffix j u
  have hpos : 0 < (u.drop j).length := by
    rw [List.length_drop]
    omega
  generalize u.drop j = v at hprefix hsuffix hpos
  unfold code at hprefix
  -- with one or two bytes of the unit left, the zeros behind them would have to be the code's one
  match v with
  | [a] =>
    rcases hrest with rfl | ⟨b, tail, rfl, -⟩
    · simp at hprefix
    · simp at hprefix
  | [a, b] =>
    rcases hrest with rfl | ⟨b', tail, rfl, -⟩
    · simp at hprefix
    · simp at hprefix
  | a :: b :: c :: v =>
    simp only [List.cons_append, List.cons_prefix_cons, List.nil_prefix, and_true] at hprefix
    obtain ⟨rfl, rfl, rfl⟩ := hprefix
    exact h ((List.prefix_append code v).isInfix.trans hsuffix.isInfix)

/-- Of a short unit the scan sees a byte of the next start code instead of the level. -/
theorem levelAbove_iff {pre u rest : List UInt8}
    (hrest : rest = [] ∨ ∃ b tail, rest = 0 :: 0 :: b :: tail ∧ b ≤ 1) :
    levelAbove (pre ++ u ++ rest) pre.length ↔ needsClamp u = true := by
  have hget : ∀ k, (pre ++ u ++ rest).getD (pre.length + k) 0 = (u ++ rest).getD k 0 := by
    intro k
    rw [List.append_assoc, List.getD_append_right _ _ _ _ (Nat.le_add_right _ _),
      Nat.add_sub_cancel_left]
  have hzero : (pre ++ u ++ rest).getD pre.length 0 = (u ++ rest).getD 0 0 := hget 0
  unfold levelAbove needsClamp
  rw [hget, hzero, decide_eq_true_eq]
  -- the type byte and the level byte both lie in the unit, or the level is one of `rest`
  by_cases hlen : 4 ≤ u.length
  · rw [List.getD_append _ _ _ _ (by omega), List.getD_append _ _ _ _ (by omega)]
    have hlong : pre.length + 3 < (pre ++ u ++ rest).length := by
      simp only [List.length_append]
      omega
    exact and_congr_left fun _ => iff_of_true hlong hlen
  · refine iff_of_false ?_ fun h => hlen h.1
    rintro ⟨-, htype, hlevel⟩
    have hsmall : ¬ openh264MaxLevel < (u ++ rest).getD 3 0 := by
      rcases hrest with rfl | ⟨b, tail, rfl, hb⟩
      · rw [List.append_nil, List.getD_eq_default _ _ (by omega)]
        decide
      · match u with
        | [] => simp at htype
        | [x] =>
          show ¬ (52 : UInt8) < b
          rw [UInt8.lt_iff_toNat_lt, UInt8.le_iff_toNat_le] at *
          have : (52 : UInt8).toNat = 52 := rfl
          have : (1 : UInt8).toNat = 1 := rfl
          omega
        | [x, y] => exact (by decide : ¬ (52 : UInt8) < 0)
        | [x, y, z] => exact (by decide : ¬ (52 : UInt8) < 0)
        | x :: y :: z :: w :: u => simp at hlen
    exact hsmall hlevel

theorem set_append_mid (pre u rest : List UInt8) (k : ℕ) (b : UInt8) (hk : k < u.length) :
    (pre ++ u ++ rest).set (pre.length + k) b = pre ++ u.set k b ++ rest := by
  rw [List.append_assoc, List.append_assoc, List.set_append_right _ _ (Nat.le_add_right _ _),
    Nat.add_sub_cancel_left, List.set_append_left _ _ hk]

/-! ### The packet -/

/-- A start code and its unit, from the code on; `done` is what `pre` has become. -/
theorem clampFrom_unit {pre done u rest : List UInt8} {four : Bool} {out : Option (List UInt8)}
    (hu : ¬ code <:+: u) (hrest : rest = [] ∨ ∃ b tail, rest = 0 :: 0 :: b :: tail ∧ b ≤ 1)
    (hlen : done.length = pre.length) (start : List UInt8)
    (hstart : start = if four then Bitstream.startCode else code)
    (hout : out.getD (pre ++ start ++ u ++ rest) = done ++ start ++ u ++ rest) :
    clampFrom (pre ++ start ++ u ++ rest) pre.length out
      = clampFrom (pre ++ start ++ u ++ rest) (pre ++ start ++ u).length
        (if needsClamp u then some (done ++ start ++ clampUnit u ++ rest) else out) := by
  -- the code of four bytes is passed up to its last three
  have hcode : ∃ zeros, start = zeros ++ code ∧ (zeros = [] ∨ zeros = [0]) := by
    cases four with
    | true => exact ⟨[0], hstart, .inr rfl⟩
    | false => exact ⟨[], hstart, .inl rfl⟩
  obtain ⟨zeros, rfl, hzeros⟩ := hcode
  have hzero : clampFrom (pre ++ (zeros ++ code) ++ u ++ rest) pre.length out
      = clampFrom (pre ++ (zeros ++ code) ++ u ++ rest) (pre.length + zeros.length) out := by
    refine clampFrom_skip _ _ fun j hj => ?_
    rw [List.append_assoc, List.append_assoc, List.drop_length_add_append]
    rcases hzeros with rfl | rfl
    · cases hj
    · obtain rfl : j = 0 := Nat.lt_one_iff.1 hj
      simp [code]
  have hfound : code <+: (pre ++ (zeros ++ code) ++ u ++ rest).drop (pre.length + zeros.length) := by
    rw [List.append_assoc, List.append_assoc, List.drop_length_add_append, List.append_assoc,
      List.drop_left]
    exact List.prefix_append _ _
  have hnal : pre.length + zeros.length + 3 = (pre ++ (zeros ++ code)).length := by
    simp only [List.length_append, code, List.length_cons, List.length_nil]
    omega
  -- in the unit itself no start code is found
  have hbody : ∀ out', clampFrom (pre ++ (zeros ++ code) ++ u ++ rest)
        (pre ++ (zeros ++ code)).length out'
      = clampFrom (pre ++ (zeros ++ code) ++ u ++ rest)
        ((pre ++ (zeros ++ code)).length + u.length) out' := by
    refine fun out' => clampFrom_skip _ _ fun j hj => ?_
    rw [List.append_assoc, List.drop_length_add_append]
    exact code_not_inside hu hrest hj
  rw [hzero, clampFrom_code hfound, hnal, hbody, ← List.length_append]
  congr 1
  by_cases hneeds : needsClamp u = true
  · have hfour : 3 < u.length := by
      unfold needsClamp at hneeds
      have := (of_decide_eq_true hneeds).1
      omega
    have hsame : (done ++ (zeros ++ code)).length = (pre ++ (zeros ++ code)).length := by
      simp only [List.length_append, hlen]
    rw [if_pos ((levelAbove_iff hrest).2 hneeds), if_pos hneeds, hout, clampUnit, if_pos hneeds,
      ← hsame, set_append_mid _ _ _ _ _ hfour]
  · rw [if_neg fun h => hneeds ((levelAbove_iff hrest).1 h), if_neg hneeds]

/-- Where no unit needs it, clamping changes nothing. -/
theorem map_clampUnit {units : List (Bool × List UInt8)} (h : units.any (needsClamp ·.2) = false) :
    units.map (fun u => (u.1, clampUnit u.2)) = units := by
  have hid : units.map (fun u => (u.1, clampUnit u.2)) = units.map id := by
    refine List.map_congr_left fun u hu => ?_
    have hu' := List.any_eq_false.1 h u hu
    rw [clampUnit, if_neg hu']
    rfl
  rw [hid, List.map_id]

theorem clampFrom_annexb (units : List (Bool × List UInt8)) : ∀ (pre done : List UInt8)
    (out : Option (List UInt8)), (∀ u ∈ units, ¬ code <:+: u.2) → done.length = pre.length →
    out.getD (pre ++ annexb units) = done ++ annexb units →
    clampFrom (pre ++ annexb units) pre.length out
      = if units.any (needsClamp ·.2) then
          some (done ++ annexb (units.map fun u => (u.1, clampUnit u.2)))
        else out := by
  induction units with
  | nil =>
    intro pre done out _ _ _
    rw [clampFrom_end (by simp [annexb])]
    rfl
  | cons u units ih =>
    intro pre done out hunits hlen hout
    obtain ⟨four, u⟩ := u
    have hu : ¬ code <:+: u := hunits (four, u) List.mem_cons_self
    have hunits' : ∀ u ∈ units, ¬ code <:+: u.2 := fun v hv => hunits v (List.mem_cons_of_mem _ hv)
    have hcons : ∀ us : List (Bool × List UInt8), ∀ w, annexb ((four, w) :: us)
        = (if four then Bitstream.startCode else code) ++ w ++ annexb us := fun _ _ => rfl
    rw [hcons] at hout ⊢
    generalize hstart : (if four then Bitstream.startCode else code) = start at *
    simp only [← List.append_assoc] at hout ⊢
    have hrest := annexb_head units
    rw [clampFrom_unit hu hrest hlen start hstart.symm hout]
    have hlen' : (done ++ start ++ clampUnit u).length = (pre ++ start ++ u).length := by
      simp only [List.length_append, hlen, length_clampUnit]
    rw [ih (pre ++ start ++ u) (done ++ start ++ clampUnit u) _ hunits' hlen' ?_]
    -- the copy is made at the first unit that needs it; from there on it is changed in place
    · simp only [List.any_cons, List.map_cons, hcons, ← List.append_assoc]
      cases hany : units.any (needsClamp ·.2) with
      | true => rw [if_pos rfl, Bool.or_true, if_pos rfl]
      | false => rw [if_neg Bool.false_ne_true, Bool.or_false, map_clampUnit hany]
    · by_cases hneeds : needsClamp u = true
      · rw [if_pos hneeds, Option.getD_some]
      · rw [if_neg hneeds, hout, clampUnit, if_neg hneeds]

/-! ### Once is enough -/

/-- The level byte is none of those that start codes are made of. -/
theorem code_clampUnit {u : List UInt8} (h : ¬ code <:+: u) : ¬ code <:+: clampUnit u := by
  unfold clampUnit
  split_ifs with hneeds
  · have hlen : 3 < u.length := (of_decide_eq_true hneeds).1
    rintro ⟨a, b, hab⟩
    -- undo the change
    have hu : (a ++ code ++ b).set 3 u[3] = u := by
      rw [hab, List.set_set, List.set_getElem_self]
    have hbyte : (a ++ code ++ b)[3]? = some openh264MaxLevel := by
      rw [hab, List.getElem?_set_self hlen]
    -- the level stands before the code, in it or behind it
    rcases Nat.lt_or_ge 3 a.length with hbefore | hle
    · refine h ⟨a.set 3 u[3], b, ?_⟩
      rw [List.append_assoc, ← List.set_append_left _ _ hbefore, ← List.append_assoc]
      exact hu
    rcases Nat.lt_or_ge 3 (a ++ code).length with hin | hafter
    · rw [List.getElem?_append_left hin, List.getElem?_append_right hle] at hbyte
      have hmem := List.mem_of_getElem? hbyte
      revert hmem
      decide
    · refine h ⟨a, b.set (3 - (a ++ code).length) u[3], ?_⟩
      rw [← List.set_append_right _ _ hafter]
      exact hu
  · exact h

theorem needsClamp_clampUnit (u : List UInt8) : needsClamp (clampUnit u) = false := by
  unfold clampUnit
  split_ifs with hneeds
  · unfold needsClamp
    rw [decide_eq_false_iff_not]
    rintro ⟨hlen, -, hlevel⟩
    rw [List.length_set] at hlen
    rw [List.getD_eq_getElem _ _ (by rw [List.length_set]; omega), List.getElem_set_self] at hlevel
    exact absurd hlevel (by decide)
  · exact Bool.eq_false_iff.2 hneeds

/-- **Only the levels of parameter sets change.**  Of units without start codes inside, behind start
codes of any kind, every SPS above the highest level gets that level; where there is none, nothing is
copied; and once is enough. -/
theorem clampSpsLevel_annexb (units : List (Bool × List UInt8))
    (h : ∀ u ∈ units, ¬ code <:+: u.2) :
    clampSpsLevel (annexb units)
        = (if units.any (needsClamp ·.2) then
            some (annexb (units.map fun u => (u.1, clampUnit u.2)))
          else none)
      ∧ (clampSpsLevel (annexb units)).bind clampSpsLevel = none := by
  -- once, for any units
  have hclamp : ∀ us : List (Bool × List UInt8), (∀ u ∈ us, ¬ code <:+: u.2) →
      clampSpsLevel (annexb us) = if us.any (needsClamp ·.2) then
        some (annexb (us.map fun u => (u.1, clampUnit u.2))) else none :=
    fun us hus => clampFrom_annexb us [] [] none hus rfl rfl
  refine ⟨hclamp units h, ?_⟩
  rw [hclamp units h]
  split_ifs with hany
  -- a clamped unit needs no second clamp
  · rw [Option.bind_some, hclamp]
    · rw [if_neg]
      rw [List.any_map, List.any_eq_true]
      rintro ⟨u, -, hu⟩
      exact absurd hu (by simp [needsClamp_clampUnit])
    -- and has no start code in it
    · intro v hv
      obtain ⟨u, hu, rfl⟩ := List.mem_map.1 hv
      exact code_clampUnit (h u hu)
  · rfl

/-- An SPS of level 6.2 and a slice; the short SPS between them has no level. -/
theorem clampSpsLevel_sample :
    clampSpsLevel (annexb [(true, [0x67, 0x64, 0x00, 0x3e, 0xac]), (false, [0x67, 0x64]),
        (true, [0x65, 0x88])])
        = some (annexb [(true, [0x67, 0x64, 0x00, 52, 0xac]), (false, [0x67, 0x64]),
          (true, [0x65, 0x88])])
      ∧ (clampSpsLevel (annexb [(true, [0x67, 0x64, 0x00, 0x3e, 0xac]), (false, [0x67, 0x64]),
        (true, [0x65, 0x88])])).bind clampSpsLevel = none :=
  clampSpsLevel_annexb _ (by decide)

end NoshareCover.H264
