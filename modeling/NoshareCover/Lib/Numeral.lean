import Mathlib.Data.Nat.Digits.Lemmas

/-!
# Numerals

The digits of a number in a base up to 16, at least so many of them.  Which numeral is the end of
which is a fact about remainders (`suffix_iff`).
-/

namespace Numeral

/-- The last `k` digits. -/
def lowDigits (b : ℕ) : ℕ → ℕ → List Char
  | 0, _ => []
  | k + 1, n => lowDigits b k (n / b) ++ [Nat.digitChar (n % b)]

/-- How many digits the number has; 0 has none. -/
def size (b n : ℕ) : ℕ := (Nat.digits b n).length

/-- The number with at least `w` digits. -/
def numeral (b w n : ℕ) : List Char := lowDigits b (max w (size b n)) n

variable {b : ℕ}

/-! ### Digits -/

theorem length_lowDigits (k n : ℕ) : (lowDigits b k n).length = k := by
  induction k generalizing n with
  | zero => rfl
  | succ k ih => rw [lowDigits, List.length_append, ih, List.length_singleton]

theorem lowDigits_add (j k n : ℕ) :
    lowDigits b (j + k) n = lowDigits b j (n / b ^ k) ++ lowDigits b k n := by
  induction k generalizing n with
  | zero => rw [Nat.add_zero, Nat.pow_zero, Nat.div_one, lowDigits, List.append_nil]
  | succ k ih =>
    have hdiv : n / b / b ^ k = n / b ^ (k + 1) := by rw [Nat.div_div_eq_div_mul, Nat.pow_succ']
    show lowDigits b (j + k) (n / b) ++ [Nat.digitChar (n % b)]
      = lowDigits b j (n / b ^ (k + 1)) ++ lowDigits b (k + 1) n
    rw [ih, hdiv, List.append_assoc, lowDigits]

theorem lowDigits_zero (k : ℕ) : lowDigits b k 0 = List.replicate k '0' := by
  induction k with
  | zero => rfl
  | succ k ih =>
    rw [lowDigits, Nat.zero_div, Nat.zero_mod, ih, List.replicate_succ']
    rfl

theorem digitChar_inj {d e : ℕ} (hd : d < 16) (he : e < 16) (h : d.digitChar = e.digitChar) :
    d = e := by
  have hinj : ∀ d < 16, ∀ e < 16, Nat.digitChar d = Nat.digitChar e → d = e := by decide
  exact hinj d hd e he h

theorem lowDigits_eq_iff (hb : 1 < b) (hb' : b ≤ 16) (k n m : ℕ) :
    lowDigits b k n = lowDigits b k m ↔ n % b ^ k = m % b ^ k := by
  induction k generalizing n m with
  | zero =>
    rw [Nat.pow_zero, Nat.mod_one, Nat.mod_one]
    exact iff_of_true rfl rfl
  | succ k ih =>
    have hpos : 0 < b := by omega
    have hdigit : ∀ x, x % b < 16 := fun x => (Nat.mod_lt x hpos).trans_le hb'
    rw [lowDigits, lowDigits, Nat.pow_succ']
    -- equal digits are equal remainders, digit by digit from the low end
    constructor
    · intro h
      obtain ⟨hinit, hlast⟩ := List.append_inj' h rfl
      have hmod : n % b = m % b :=
        digitChar_inj (hdigit n) (hdigit m) (List.singleton_injective hlast)
      rw [Nat.mod_mul, Nat.mod_mul, hmod, (ih _ _).1 hinit]
    · intro h
      have hmod : n % b = m % b := by
        rw [← Nat.mod_mul_right_mod n b (b ^ k), h, Nat.mod_mul_right_mod]
      have hdiv : n / b % b ^ k = m / b % b ^ k := by
        rw [← Nat.mod_mul_right_div_self, h, Nat.mod_mul_right_div_self]
      rw [hmod, (ih _ _).2 hdiv]

/-- The ends of a row of digits. -/
theorem lowDigits_suffix_iff (hb : 1 < b) (hb' : b ≤ 16) (j k n m : ℕ) :
    lowDigits b k n <:+ lowDigits b j m ↔ k ≤ j ∧ n % b ^ k = m % b ^ k := by
  constructor
  · intro h
    -- a suffix is not longer than the whole
    have hle : k ≤ j := by
      have hlength := h.length_le
      rwa [length_lowDigits, length_lowDigits] at hlength
    -- so the low digits of the longer numeral are compared with the shorter one
    obtain ⟨i, rfl⟩ := Nat.exists_eq_add_of_le' hle
    refine ⟨hle, (lowDigits_eq_iff hb hb' k n m).1 ?_⟩
    rw [lowDigits_add] at h
    refine (List.suffix_of_suffix_length_le h (List.suffix_append _ _) ?_).eq_of_length ?_
    · rw [length_lowDigits, length_lowDigits]
    · rw [length_lowDigits, length_lowDigits]
  · rintro ⟨hle, hmod⟩
    obtain ⟨i, rfl⟩ := Nat.exists_eq_add_of_le' hle
    rw [(lowDigits_eq_iff hb hb' k n m).2 hmod, lowDigits_add]
    exact List.suffix_append _ _

/-! ### Numerals -/

theorem length_numeral (w n : ℕ) : (numeral b w n).length = max w (size b n) := length_lowDigits _ _

theorem lt_pow_size (hb : 1 < b) (n : ℕ) : n < b ^ size b n := Nat.lt_base_pow_length_digits hb

theorem size_le_iff (hb : 1 < b) {n k : ℕ} : size b n ≤ k ↔ n < b ^ k :=
  Nat.digits_length_le_iff hb n

theorem lt_pow_max (hb : 1 < b) (w n : ℕ) : n < b ^ max w (size b n) :=
  (size_le_iff hb).1 (le_max_right ..)

theorem length_numeral_of_lt (hb : 1 < b) {w n : ℕ} (h : n < b ^ w) :
    (numeral b w n).length = w := by
  rw [length_numeral, max_eq_left ((size_le_iff hb).2 h)]

theorem numeral_inj (hb : 1 < b) (hb' : b ≤ 16) {w v n m : ℕ} (h : numeral b w n = numeral b v m) :
    n = m := by
  have hlength : max w (size b n) = max v (size b m) := by
    rw [← length_numeral, h, length_numeral]
  unfold numeral at h
  rw [hlength, lowDigits_eq_iff hb hb'] at h
  rwa [Nat.mod_eq_of_lt (hlength ▸ lt_pow_max hb w n), Nat.mod_eq_of_lt (lt_pow_max hb v m)] at h

/-- **The ends of a numeral** that are numerals of at most that width. -/
theorem suffix_iff (hb : 1 < b) (hb' : b ≤ 16) {w v : ℕ} (hwv : w ≤ v) (n m : ℕ) :
    numeral b w n <:+ numeral b v m ↔ m % b ^ max w (size b n) = n := by
  unfold numeral
  rw [lowDigits_suffix_iff hb hb', Nat.mod_eq_of_lt (lt_pow_max hb w n)]
  refine ⟨fun h => h.2.symm, fun h => ⟨?_, h.symm⟩⟩
  -- the end is no longer, because it is the rest of the other
  have hle : n ≤ m := h ▸ Nat.mod_le ..
  have hsize : size b n ≤ size b m := (size_le_iff hb).2 (hle.trans_lt (lt_pow_size hb m))
  omega

/-! ### Printed numbers -/

theorem size_eq_zero_iff {n : ℕ} : size b n = 0 ↔ n = 0 :=
  List.length_eq_zero_iff.trans Nat.digits_eq_nil_iff_eq_zero

theorem size_of_pos (hb : 1 < b) {n : ℕ} (hn : 0 < n) : size b n = size b (n / b) + 1 := by
  unfold size
  rw [Nat.digits_def' hb hn, List.length_cons]

theorem toDigits_eq_numeral (hb : 1 < b) (n : ℕ) : Nat.toDigits b n = numeral b 1 n := by
  induction n using Nat.strongRecOn with
  | ind n ih =>
    unfold numeral at ih ⊢
    rw [Nat.toDigits_eq_if hb]
    by_cases hn : n < b
    · have hsize : size b n ≤ 1 := (size_le_iff hb).2 (by rwa [Nat.pow_one])
      rw [if_pos hn, max_eq_left hsize, lowDigits, lowDigits, Nat.mod_eq_of_lt hn, List.nil_append]
    · have hdiv : 0 < n / b := Nat.div_pos (by omega) (by omega)
      have hsize : 1 ≤ size b (n / b) :=
        Nat.one_le_iff_ne_zero.2 fun h => hdiv.ne' (size_eq_zero_iff.1 h)
      have hstep : size b n = size b (n / b) + 1 := size_of_pos hb (by omega)
      rw [if_neg hn, ih (n / b) (Nat.div_lt_self (by omega) hb), max_eq_right hsize,
        max_eq_right (by omega), hstep, lowDigits]

/-- The number as it is printed, with zeros in front of it up to a width. -/
theorem leftpad_toDigits (hb : 1 < b) {w : ℕ} (hw : 0 < w) (n : ℕ) :
    (Nat.toDigits b n).leftpad w '0' = numeral b w n := by
  have hzero : n / b ^ max 1 (size b n) = 0 := Nat.div_eq_of_lt (lt_pow_max hb 1 n)
  have hwidth : w - max 1 (size b n) + max 1 (size b n) = max w (size b n) := by omega
  rw [toDigits_eq_numeral hb, List.leftpad, length_numeral]
  unfold numeral
  rw [← hwidth, lowDigits_add, hzero, lowDigits_zero]

/-- The numeral without the zeros in front. -/
theorem dropWhile_lowDigits (hb : 1 < b) (hb' : b ≤ 16) {k n : ℕ} (h : n < b ^ k) :
    (lowDigits b k n).dropWhile (· == '0') = numeral b 0 n := by
  unfold numeral
  rw [Nat.zero_max]
  induction k generalizing n with
  | zero =>
    -- no digits: the number is 0
    have hn : n = 0 := Nat.lt_one_iff.1 h
    rw [hn, size_eq_zero_iff.2 rfl]
    rfl
  | succ k ih =>
    have hdiv : n / b < b ^ k := Nat.div_lt_of_lt_mul (by rwa [← Nat.pow_succ'])
    rw [lowDigits, List.dropWhile_append, ih hdiv]
    -- the high digits are all 0, or they are not and stay in front
    by_cases hlow : n / b = 0
    · have hn : n < b := (Nat.div_eq_zero_iff.1 hlow).resolve_left (by omega)
      have hsize : size b (n / b) = 0 := size_eq_zero_iff.2 hlow
      rw [hsize, lowDigits, List.isEmpty_nil, if_pos rfl, Nat.mod_eq_of_lt hn]
      by_cases hzero : n = 0
      · rw [hzero, size_eq_zero_iff.2 rfl]
        rfl
      · have hchar : (Nat.digitChar n == '0') = false := by
          rw [beq_eq_false_iff_ne, ne_eq, Nat.digitChar_eq_zero]
          exact hzero
        rw [List.dropWhile_cons, hchar, if_neg Bool.false_ne_true, size_of_pos hb (by omega), hsize,
          lowDigits, lowDigits, List.nil_append, Nat.mod_eq_of_lt hn]
    · have hsize : size b (n / b) ≠ 0 := fun hzero => hlow (size_eq_zero_iff.1 hzero)
      have hempty : (lowDigits b (size b (n / b)) (n / b)).isEmpty = false := by
        rw [List.isEmpty_eq_false_iff, ← List.length_pos_iff, length_lowDigits]
        omega
      have hpos : 0 < n := Nat.pos_of_ne_zero fun hzero => hlow (by rw [hzero, Nat.zero_div])
      rw [hempty, if_neg Bool.false_ne_true, size_of_pos hb hpos, lowDigits]

theorem dropWhile_numeral (hb : 1 < b) (hb' : b ≤ 16) (w n : ℕ) :
    (numeral b w n).dropWhile (· == '0') = numeral b 0 n :=
  dropWhile_lowDigits hb hb' (lt_pow_max hb w n)

end Numeral
