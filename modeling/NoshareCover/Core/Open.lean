import NoshareCover.Core.Gif
import NoshareCover.Core.Still
import NoshareCover.Core.Video.Source

/-!
# Opening a cover's file

The extension decides between image, GIF and video.
-/

namespace NoshareCover

/-- `Path::file_name`: the last component, which `..` is not. -/
def Path.fileName (path : String) : Option (List Char) :=
  match ((path.toList.splitOn '/').filter fun c => c ≠ [] ∧ c ≠ ['.']).getLast? with
  | some ['.', '.'] => none
  | name => name

/-- `Path::extension`: what follows the last dot, unless the name begins with that. -/
def Path.extension (path : String) : Option String :=
  match fileName path with
  | none => none
  | some name =>
    match name.reverse.dropWhile (· ≠ '.') with
    | [] => none
    | [_] => none
    | _ :: _ :: _ => some (String.ofList (name.reverse.takeWhile (· ≠ '.')).reverse)

/-- Supported extensions, case-insensitive. -/
def kindFor (path : String) : Option Kind :=
  match Path.extension path with
  | none => none
  | some ext =>
    let ext := String.ofList (ext.toList.map Char.toLower)
    if ext ∈ ["png", "jpg", "jpeg"] then some .still
    else if ext = "gif" then some .gif
    else if ext ∈ ["mp4", "m4v", "mov", "webm", "mkv"] then some .video
    else none

/-- The files and their decoders: what is read from a path. -/
structure Files (δ κ : Type*) where
  present : String → Bool
  read : String → Except String (List UInt8)
  images : ImageDecoders
  gif : String → Except String GifFile
  openDemuxer : String → Except String δ
  /-- The GPU or the software decoder, by the settings. -/
  openDecoder : Codec → Settings → Except String κ

def openPipeline {δ κ : Type*} [Demuxer δ] (files : Files δ κ) (path : String) (looped : Bool)
    (settings : Settings) : Except String (Pipeline δ κ) :=
  match files.openDemuxer path with
  | .error e => .error e
  | .ok demux =>
    match files.openDecoder (Demuxer.info demux).codec settings with
    | .error e => .error e
    | .ok decoder => .ok (.new demux decoder looped)

/-- A source of any kind. -/
inductive OpenSource (δ κ : Type*) where
  | still (s : StillSource)
  | gif (s : GifSource)
  | video (s : VideoSource δ κ)

namespace OpenSource

variable {δ κ : Type*} [Demuxer δ] [Decoder κ]

instance : Source (OpenSource δ κ) where
  kind
    | still s => Source.kind s
    | gif s => Source.kind s
    | video s => Source.kind s
  poll
    | still s, now => ((Source.poll s now).1, still (Source.poll s now).2)
    | gif s, now => ((Source.poll s now).1, gif (Source.poll s now).2)
    | video s, now => ((Source.poll s now).1, video (Source.poll s now).2)
  shown
    | still s => still (Source.shown s)
    | gif s => gif (Source.shown s)
    | video s => video (Source.shown s)

end OpenSource

/-- Opens a source by path; `schedule` is when the thread of a video gets to run. -/
def openMedia {δ κ : Type*} [Demuxer δ] (files : Files δ κ) (play : PlayParams) (settings : Settings)
    (schedule : ℕ → List Turn) : Except MediaError (OpenSource δ κ) :=
  let path := play.path
  if !files.present path then .error (.missing path)
  else
    match kindFor path with
    | none => .error (.unknownFormat ((Path.extension path).elim path ("." ++ ·)))
    | some .still => (StillSource.open files.images path (files.read path)).map .still
    | some .gif => (GifSource.open path play.speed play.looped (files.gif path)).map .gif
    | some .video =>
      (VideoSource.open path (openPipeline files path play.looped settings) schedule).map .video

end NoshareCover
