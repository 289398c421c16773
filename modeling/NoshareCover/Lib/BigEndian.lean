import Mathlib.Data.Nat.Bitwise
import Mathlib.Data.List.Induction

/-!
# Big-endian numbers

A number in a fixed count of bytes, the most significant byte first.
-/

namespace BigEndian

/-- The number that the bytes spell. -/
def value (bytes : List UInt8) : ℕ := bytes.foldl (fun acc b => acc * 256 + b.toNat) 0

/-- The number `n` in `k` bytes. -/
def encode : ℕ → ℕ → List UInt8
  | 0, _ => []
  | k + 1, n => encode k (n / 256) ++ [UInt8.ofNat n]

@[simp] theorem length_encode (k n : ℕ) : (encode k n).length = k := by
  induction k generalizing n with
  | zero => rfl
  | succ k ih => rw [encode, List.length_append, ih, List.length_singleton]

theorem value_append_singleton (bytes : List UInt8) (b : UInt8) :
    value (bytes ++ [b]) = value bytes * 256 + b.toNat := by
  rw [value, List.foldl_append]
  rfl

theorem value_encode {k n : ℕ} (h : n < 256 ^ k) : value (encode k n) = n := by
  induction k generalizing n with
  | zero =>
    rw [pow_zero, Nat.lt_one_iff] at h
    rw [h]
    rfl
  | succ k ih =>
    have hdiv : n / 256 < 256 ^ k := Nat.div_lt_of_lt_mul (by rwa [pow_succ'] at h)
    rw [encode, value_append_singleton, ih hdiv, UInt8.toNat_ofNat']
    exact Nat.div_add_mod' n 256

theorem value_lt (bytes : List UInt8) : value bytes < 256 ^ bytes.length := by
  induction bytes using List.reverseRecOn with
  | nil => exact Nat.one_pos
  | append_singleton bytes b ih =>
    have hb := b.toNat_lt
    rw [value_append_singleton, List.length_append, List.length_singleton, pow_succ]
    omega

theorem encode_value (bytes : List UInt8) : encode bytes.length (value bytes) = bytes := by
  induction bytes using List.reverseRecOn with
  | nil => rfl
  | append_singleton bytes b ih =>
    have hb := b.toNat_lt
    have hdiv : (value bytes * 256 + b.toNat) / 256 = value bytes := by omega
    have hbyte : UInt8.ofNat (value bytes * 256 + b.toNat) = b := by
      apply UInt8.toNat_inj.1
      rw [UInt8.toNat_ofNat']
      omega
    rw [value_append_singleton, List.length_append, List.length_singleton, encode, hdiv, ih, hbyte]

theorem encode_zero (k : ℕ) : encode k 0 = List.replicate k 0 := by
  induction k with
  | zero => rfl
  | succ k ih =>
    rw [encode, Nat.zero_div, ih, List.replicate_succ']
    rfl

/-- Shifting and adding bits is counting in bytes. -/
theorem foldl_shiftLeft_or (bytes : List UInt8) :
    bytes.foldl (fun acc b => acc <<< 8 ||| b.toNat) 0 = value bytes := by
  have hstep : ∀ (acc : ℕ) (b : UInt8), acc <<< 8 ||| b.toNat = acc * 256 + b.toNat := by
    intro acc b
    rw [← Nat.shiftLeft_add_eq_or_of_lt b.toNat_lt, Nat.shiftLeft_eq]
  simp only [hstep]
  rfl

end BigEndian
