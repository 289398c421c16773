import NoshareCover.Core.Frame

/-!
# Media sources

Image, GIF and video look the same from the registry: "give me the frame for this position if it
changed".  An `Instant` is a number of nanoseconds.
-/

namespace NoshareCover

abbrev Instant := ℕ

inductive Kind where
  | still
  | gif
  | video
  deriving DecidableEq, Repr

inductive MediaError where
  | missing (path : String)
  | unknownFormat (ext : String)
  | open (path reason : String)
  | video (path reason : String)
  deriving DecidableEq, Repr

def MediaError.toString : MediaError → String
  | missing path => "file not found: " ++ path
  | unknownFormat ext => "unsupported format " ++ ext
  | .open path reason => "failed to open " ++ path ++ ": " ++ reason
  | video path reason => "video " ++ path ++ ": " ++ reason

/-- The common source interface.  What happens to a source between two calls (a video's own thread
goes on decoding) is part of its state: the state knows every later answer. -/
class Source (σ : Type*) where
  kind : σ → Kind
  /-- The frame current at `now`; `none` when the image has not changed since the last call. -/
  poll : σ → Instant → Except MediaError (Option Frame) × σ
  /-- The cover reaches the screen for the first time: a timeline that started on the loader
  thread restarts. -/
  shown : σ → σ

/-- A call the registry makes on a source. -/
inductive SourceCall where
  | poll (now : Instant)
  | shown

namespace Source

variable {σ : Type*} [Source σ]

/-- The frames a source hands out over a sequence of calls. -/
def frames : σ → List SourceCall → List Frame
  | _, [] => []
  | s, .shown :: cs => frames (shown s) cs
  | s, .poll now :: cs =>
    match poll s now with
    | (.ok (some f), s) => f :: frames s cs
    | (_, s) => frames s cs

end Source

end NoshareCover
