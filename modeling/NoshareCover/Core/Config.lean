import Mathlib.Data.Rat.Defs

/-!
# Settings and playback parameters

Global values live in the plugin's settings; a window rule can override the file, the speed and
the loop flag.  Every speed went through `sanitizeSpeed` and is kept as an exact rational.
-/

namespace NoshareCover

/-- A value of `f64`; `none` stands for NaN and the infinities. -/
abbrev F64 := Option ℚ

/-- A finite speed above zero. -/
abbrev Speed := { speed : ℚ // 0 < speed }

theorem Speed.one_pos : (0 : ℚ) < 1 := by decide

/-- Speed ≤ 0, NaN and infinity become 1. -/
def sanitizeSpeed : F64 → Speed
  | some speed => if h : 0 < speed then ⟨speed, h⟩ else ⟨1, Speed.one_pos⟩
  | none => ⟨1, Speed.one_pos⟩

/-- Where to decode video. -/
inductive Backend where
  /-- GPU if present and it supports the codec, otherwise CPU. -/
  | auto
  /-- GPU only: on failure an error, no silent fallback. -/
  | gpu
  | cpu
  deriving DecidableEq, Repr

/-- What to play in a given window and how.  Identical parameters share one decoder and one
texture, no matter how many windows show them. -/
structure PlayParams where
  path : String
  speed : Speed
  looped : Bool
  deriving DecidableEq, Repr

/-- Global plugin settings, already parsed and validated. -/
structure Settings where
  /-- Default media for windows without their own rule. -/
  pathCover : String
  looped : Bool
  speed : Speed
  backend : Backend
  /-- `none` picks a render node automatically. -/
  gpuDevice : Option String
  deriving DecidableEq, Repr

/-- Default playback parameters (no window rules applied). -/
def Settings.defaultPlay (s : Settings) : PlayParams :=
  { path := s.pathCover, speed := s.speed, looped := s.looped }

/-- A config error is shown to the user, and defaults are used instead. -/
inductive ConfigError where
  | unknownBackend (word : String)
  deriving DecidableEq, Repr

def ConfigError.toString : ConfigError → String
  | unknownBackend word =>
    "noshare-cover: unknown backend \"" ++ word ++ "\", expected auto, gpu or cpu"

end NoshareCover
