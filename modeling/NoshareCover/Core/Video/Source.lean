import NoshareCover.Core.Config
import NoshareCover.Core.Media
import NoshareCover.Core.Video.Pipeline
import NoshareCover.Core.Video.Yuv

/-!
# Video

Decoding runs on its own thread; only the latest ready frame is exposed.  What the thread gets done
before each poll is a schedule that the source carries.
-/

namespace NoshareCover

/-! ### Decoders -/

/-- A picture from a decoder library. -/
structure Picture where
  pts : ℕ
  img : Yuv.YuvImage
  deriving DecidableEq, Repr

/-- A decoder library: every backend turns its pictures into frames in the same way. -/
class PictureDecoder (κ : Type*) where
  name : κ → String
  decode : κ → Packet → PipeResult (List Picture) × κ
  flush : κ → PipeResult (List Picture) × κ
  reset : κ → κ

/-- A picture whose planes don't fit is skipped. -/
def convert (pic : Picture) : Option DecodedFrame :=
  (Yuv.toBgra pic.img).map fun cpu => { pts := pic.pts, data := .cpu cpu }

instance {κ : Type*} [PictureDecoder κ] : Decoder κ where
  name := PictureDecoder.name
  decode k pkt :=
    let (r, k) := PictureDecoder.decode k pkt
    (r.map (List.filterMap convert), k)
  flush k :=
    let (r, k) := PictureDecoder.flush k
    (r.map (List.filterMap convert), k)
  reset := PictureDecoder.reset

/-! ### The thread -/

/-- What the thread and the polls share. -/
structure Shared where
  latest : Option Frame
  generation : ℕ
  watched : Option Instant
  /-- A fatal thread error, shown to the user. -/
  error : Option String
  ended : Bool

/-- How one round of the thread goes, once it has a frame. -/
inductive Turn where
  | onTime
  /-- The frame is late and dropped. -/
  | late
  /-- The decoder panics. -/
  | crash
  deriving DecidableEq, Repr

structure VideoSource (δ κ : Type*) where
  pipe : Pipeline δ κ
  shared : Shared
  /-- The thread has returned. -/
  stopped : Bool
  sent : ℕ
  path : String
  /-- The rounds of the thread before each poll. -/
  schedule : ℕ → List Turn

namespace VideoSource

variable {δ κ : Type*}

def spawn (pipe : Pipeline δ κ) (path : String) (schedule : ℕ → List Turn) : VideoSource δ κ :=
  { pipe, path, schedule, stopped := false, sent := 0,
    shared := { latest := none, generation := 0, watched := none, error := none, ended := false } }

/-- The pipeline comes from `open_pipeline`. -/
def «open» (path : String) (pipe : Except String (Pipeline δ κ)) (schedule : ℕ → List Turn) :
    Except MediaError (VideoSource δ κ) :=
  match pipe with
  | .error reason => .error (.video path reason)
  | .ok pipe => .ok (spawn pipe path schedule)

variable [Demuxer δ] [Decoder κ]

/-- One round of the thread: it sleeps until somebody watches, and a video that ended without
looping keeps its last frame. -/
def round (v : VideoSource δ κ) (t : Turn) : VideoSource δ κ :=
  if v.stopped ∨ v.shared.watched = none then v
  else if t = .crash then
    { v with stopped := true,
             shared := { v.shared with error := v.shared.error.orElse fun _ => "decoder crashed" } }
  else
    match v.pipe.nextFrame with
    | (.error e, pipe) =>
      { v with pipe, stopped := true, shared := { v.shared with error := some e } }
    | (.ok .ended, pipe) => { v with pipe, stopped := true, shared := { v.shared with ended := true } }
    | (.ok (.frame f), pipe) =>
      if t = .late then { v with pipe }
      else
        let generation := v.shared.generation + 1
        { v with pipe, shared := { v.shared with
                                    generation, latest := some { generation, data := f.data } } }

/-- The latest frame, unless it was taken before. -/
def take (v : VideoSource δ κ) : Option Frame × VideoSource δ κ :=
  if v.shared.generation = v.sent then (none, v)
  else
    (v.shared.latest,
      { v with sent := v.shared.generation, shared := { v.shared with latest := none } })

/-- The source once the lock is taken: the thread had its rounds, and a poll is watching. -/
def watch (v : VideoSource δ κ) (now : Instant) : VideoSource δ κ :=
  let v := (v.schedule 0).foldl round v
  { v with schedule := fun n => v.schedule (n + 1),
           shared := { v.shared with watched := some now } }

def poll (v : VideoSource δ κ) (now : Instant) :
    Except MediaError (Option Frame) × VideoSource δ κ :=
  let v := v.watch now
  match v.shared.error with
  | some e =>
    -- an error after the first frame leaves that frame on screen
    if v.shared.generation = 0 then (.error (.video v.path e), v)
    else (.ok v.take.1, v.take.2)
  | none => (.ok v.take.1, v.take.2)

instance : Source (VideoSource δ κ) where
  kind _ := .video
  poll := poll
  shown v := v

end VideoSource

end NoshareCover
