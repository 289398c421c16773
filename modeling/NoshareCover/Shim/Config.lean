import Mathlib.Algebra.Order.Group.Unbundled.Int
import Mathlib.Data.List.DropRight
import Mathlib.Order.Lattice

/-!
# What a surface's rules ask for

The values of the rule effects of a window or layer, the kind of cover they name and how long a
cover is held.  Texts are C++ strings, one character for each byte.
-/

namespace NoshareCover

abbrev Text := List Char

/-- The plugin's config values that the shim reads. -/
structure ShimConfig where
  pathCover : Text
  /-- In milliseconds. -/
  closeHold : ℤ
  showTo : Text
  hideFrom : Text
  deriving DecidableEq, Repr

/-- The rule effects of a surface; the last matching rule wins. -/
structure RuleValues where
  path : Option Text
  speed : Option Text
  loop : Option Text
  hold : Option Text
  /-- Per-rule client lists, they override the global ones. -/
  showTo : Option Text
  hideFrom : Option Text
  deriving DecidableEq, Repr

inductive StandIn where
  | media
  /-- Left out of the capture as if it wasn't there. -/
  | transparent
  | blur
  | pixelate
  deriving DecidableEq, Repr

/-- What stands in for a hidden surface; `amount` is in capture pixels. -/
structure CoverKind where
  kind : StandIn
  amount : ℤ
  deriving DecidableEq, Repr

/-! ### Reading texts -/

def isBlank (c : Char) : Bool := c = ' ' || c = '\t'

/-- `std::isspace`. -/
def isSpace (c : Char) : Bool := c = ' ' || (9 ≤ c.toNat && c.toNat ≤ 13)

def trim (v : Text) : Text := (v.dropWhile isBlank).rdropWhile isBlank

/-- The number written in decimal, if the text is digits only and not empty. -/
def digits? (s : Text) : Option ℕ :=
  if s ≠ [] ∧ s.all Char.isDigit then some (s.foldl (fun n c => 10 * n + (c.toNat - 48)) 0)
  else none

/-- `n` if it fits into a signed type of `bits + 1` bits. -/
def inRange (bits : ℕ) (n : ℤ) : Option ℤ := if -2 ^ bits ≤ n ∧ n < 2 ^ bits then some n else none

/-- `std::from_chars` for an `int`, where it reads the whole text. -/
def fromChars (s : Text) : Option ℤ :=
  match s with
  | '-' :: s => (digits? s).bind fun n => inRange 31 (-n)
  | s => (digits? s).bind fun n => inRange 31 n

/-- `std::stoll`: white space, a sign and digits; what follows them is not looked at. -/
def stoll (s : Text) : Option ℤ :=
  let s := s.dropWhile isSpace
  match s with
  | '-' :: s => (digits? (s.takeWhile Char.isDigit)).bind fun n => inRange 63 (-n)
  | '+' :: s => (digits? (s.takeWhile Char.isDigit)).bind fun n => inRange 63 n
  | s => (digits? (s.takeWhile Char.isDigit)).bind fun n => inRange 63 n

/-! ### Covers and holds -/

/-- The words that stand for a cover without a file, with their default amounts. -/
def coverWords : List (Text × StandIn × ℤ) :=
  [("transparent".toList, .transparent, 0), ("blur".toList, .blur, 24),
    ("pixelate".toList, .pixelate, 20)]

/-- What the word `entry` makes of a value with the lower-case first word `word` and the rest
`rest`. -/
def wordKind (word rest : Text) (entry : Text × StandIn × ℤ) : Option CoverKind :=
  if word ≠ entry.1 then none
  else if rest = [] then some { kind := entry.2.1, amount := entry.2.2 }
  else if entry.2.1 = .transparent then none
  else (fromChars rest).map fun n => { kind := entry.2.1, amount := max 2 (min n 512) }

/-- Reads `no_screen_share_cover`; a file, even if it happens to be called "blur x". -/
def coverKindOf (value : Text) : CoverKind :=
  let value := trim value
  let word := (value.takeWhile fun c => !isBlank c).map Char.toLower
  let rest := trim (value.dropWhile fun c => !isBlank c)
  (coverWords.findSome? (wordKind word rest)).getD { kind := .media, amount := 0 }

def coverKind (cfg : ShimConfig) (rules : RuleValues) : CoverKind :=
  coverKindOf (rules.path.getD cfg.pathCover)

def transparentCover (cfg : ShimConfig) (rules : RuleValues) : Bool :=
  (coverKind cfg rules).kind = .transparent

/-- In nanoseconds. -/
def holdFor (cfg : ShimConfig) (rules : RuleValues) : ℕ :=
  let ms := (rules.hold.bind stoll).getD cfg.closeHold
  1000000 * (max 0 (min ms 60000)).toNat

end NoshareCover
