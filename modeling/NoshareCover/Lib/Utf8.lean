import Mathlib.Data.List.Basic

/-!
# Cutting a text to a number of bytes

`Utf8.fitting room cs` are the first characters of `cs` that take at most `room` bytes of UTF-8
together.  Their end is the last place in the text, up to `room`, that does not split a character
(`Utf8.isValid_fitting` and `Utf8.le_fitting_of_isValid`).
-/

namespace Utf8

/-- The bytes of a text. -/
def bytes (cs : List Char) : List UInt8 := cs.flatMap String.utf8EncodeChar

/-- The longest beginning of the text that takes at most `room` bytes. -/
def fitting : ℕ → List Char → List Char
  | _, [] => []
  | room, c :: cs => if c.utf8Size ≤ room then c :: fitting (room - c.utf8Size) cs else []

@[simp] theorem bytes_nil : bytes [] = [] := rfl

@[simp] theorem bytes_cons (c : Char) (cs : List Char) :
    bytes (c :: cs) = String.utf8EncodeChar c ++ bytes cs := rfl

theorem bytes_append (cs ds : List Char) : bytes (cs ++ ds) = bytes cs ++ bytes ds :=
  List.flatMap_append

theorem length_bytes (cs : List Char) : (bytes cs).length = (String.ofList cs).utf8ByteSize := by
  rw [← String.size_toByteArray, String.toByteArray_ofList, List.utf8Encode, List.size_toByteArray]
  rfl

/-- The bytes of a string, as Lean stores them. -/
theorem toByteArray_toList (s : String) : s.toByteArray.data.toList = bytes s.toList := by
  rw [← String.ofList_toList (s := s), String.toByteArray_ofList, List.utf8Encode,
    List.data_toByteArray, String.toList_ofList]
  rfl

theorem fitting_isPrefix (room : ℕ) (cs : List Char) : fitting room cs <+: cs := by
  induction cs generalizing room with
  | nil => exact List.prefix_rfl
  | cons c cs ih =>
    unfold fitting
    split_ifs
    · exact List.cons_prefix_cons.2 ⟨rfl, ih _⟩
    · exact List.nil_prefix

theorem length_bytes_fitting_le (room : ℕ) (cs : List Char) :
    (bytes (fitting room cs)).length ≤ room := by
  induction cs generalizing room with
  | nil => exact Nat.zero_le _
  | cons c cs ih =>
    unfold fitting
    split_ifs with hroom
    · have hrest := ih (room - c.utf8Size)
      rw [bytes_cons, List.length_append, String.length_utf8EncodeChar]
      omega
    · exact Nat.zero_le _

/-- A beginning of the text that takes at most `room` bytes is no longer. -/
theorem length_bytes_take_le (room : ℕ) (cs : List Char) (i : ℕ)
    (h : (bytes (cs.take i)).length ≤ room) :
    (bytes (cs.take i)).length ≤ (bytes (fitting room cs)).length := by
  induction cs generalizing room i with
  | nil =>
    rw [List.take_nil]
    exact Nat.zero_le _
  | cons c cs ih =>
    -- no character, or the first one and what fits behind it
    cases i with
    | zero => exact Nat.zero_le _
    | succ i =>
      rw [List.take_succ_cons, bytes_cons, List.length_append, String.length_utf8EncodeChar] at h ⊢
      have hrest := ih (room - c.utf8Size) i (by omega)
      unfold fitting
      rw [if_pos (by omega), bytes_cons, List.length_append, String.length_utf8EncodeChar]
      omega

theorem isValid_iff (cs : List Char) (n : ℕ) :
    (String.Pos.Raw.mk n).IsValid (String.ofList cs) ↔ ∃ i, n = (bytes (cs.take i)).length := by
  rw [String.Pos.Raw.isValid_ofList]
  exact exists_congr fun i => by rw [length_bytes]

theorem isValid_fitting (room : ℕ) (cs : List Char) :
    (String.Pos.Raw.mk (bytes (fitting room cs)).length).IsValid (String.ofList cs) :=
  (isValid_iff cs _).2 ⟨_, by rw [← List.prefix_iff_eq_take.1 (fitting_isPrefix room cs)]⟩

theorem le_fitting_of_isValid {room n : ℕ} {cs : List Char} (hn : n ≤ room)
    (h : (String.Pos.Raw.mk n).IsValid (String.ofList cs)) :
    n ≤ (bytes (fitting room cs)).length := by
  obtain ⟨i, rfl⟩ := (isValid_iff cs n).1 h
  exact length_bytes_take_le room cs i hn

theorem take_bytes_fitting (room : ℕ) (cs : List Char) :
    (bytes cs).take (bytes (fitting room cs)).length = bytes (fitting room cs) := by
  obtain ⟨rest, hrest⟩ := fitting_isPrefix room cs
  conv_lhs => rw [← hrest]
  rw [bytes_append, hrest, List.take_left]

/-- With room for one character of any size, only the empty text is cut to nothing. -/
theorem bytes_fitting_ne_nil {room : ℕ} (hroom : 4 ≤ room) {cs : List Char} (h : cs ≠ []) :
    bytes (fitting room cs) ≠ [] := by
  cases cs with
  | nil => exact absurd rfl h
  | cons c cs =>
    unfold fitting
    rw [if_pos (Nat.le_trans c.utf8Size_le_four hroom), bytes_cons]
    intro hnil
    have hlength := congrArg List.length (List.append_eq_nil_iff.1 hnil).1
    rw [String.length_utf8EncodeChar, List.length_nil] at hlength
    exact absurd c.utf8Size_pos (by omega)

end Utf8
