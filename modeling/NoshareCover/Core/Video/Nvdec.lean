import NoshareCover.Core.Video.Pipeline
import NoshareCover.Core.Video.Yuv

/-!
# NVDEC

The driver's parser calls back with the sequence headers and the pictures of the stream.  A header
creates a decoder, and a picture to display is mapped, copied to memory and converted.  What the
driver answers comes with the call.
-/

namespace NoshareCover

/-- Heuristic when the stream doesn't say: HD and up is 709, everything else 601. -/
def Yuv.Matrix.guess (height : ℕ) : Matrix := if 720 ≤ height then .bt709 else .bt601

namespace Nvdec

def chromaMono : ℤ := 0

def chroma420 : ℤ := 1

/-- The NV12 and P016 formats of a surface. -/
def surfaceNv12 : ℕ := 0

def surfaceP016 : ℕ := 1

def createPreferCuvid : ℕ := 4

def deinterlaceWeave : ℕ := 0

def deinterlaceAdaptive : ℕ := 2

structure Rect where
  left : ℤ
  top : ℤ
  right : ℤ
  bottom : ℤ
  deriving DecidableEq, Repr

/-- Each number to 16 bits. -/
def Rect.to16 (r : Rect) : Rect :=
  { left := r.left.bmod (2 ^ 16), top := r.top.bmod (2 ^ 16),
    right := r.right.bmod (2 ^ 16), bottom := r.bottom.bmod (2 ^ 16) }

/-- The four bytes of `video_signal_description`; the full range flag is bit 3 of the first. -/
structure SignalDescription where
  flags : UInt8
  primaries : UInt8
  transfer : UInt8
  matrix : UInt8
  deriving DecidableEq, Repr

/-- A sequence header, as the parser hands it over. -/
structure VideoFormat where
  codec : ℤ
  progressiveSequence : ℕ
  bitDepthLumaMinus8 : ℕ
  minNumDecodeSurfaces : ℕ
  codedWidth : ℕ
  codedHeight : ℕ
  displayArea : Rect
  chromaFormat : ℤ
  videoSignalDescription : SignalDescription
  deriving DecidableEq, Repr

structure DecodeCreateInfo where
  width : ℕ
  height : ℕ
  numDecodeSurfaces : ℕ
  codecType : ℤ
  chromaFormat : ℤ
  creationFlags : ℕ
  bitDepthMinus8 : ℕ
  intraDecodeOnly : ℕ
  maxWidth : ℕ
  maxHeight : ℕ
  displayArea : Rect
  outputFormat : ℕ
  deinterlaceMode : ℕ
  targetWidth : ℕ
  targetHeight : ℕ
  numOutputSurfaces : ℕ
  deriving DecidableEq, Repr

structure ParserDispInfo where
  pictureIndex : ℤ
  progressiveFrame : ℤ
  topFieldFirst : ℤ
  repeatFirstField : ℤ
  timestamp : ℤ
  deriving DecidableEq, Repr

structure ProcParams where
  progressiveFrame : ℤ
  secondField : ℤ
  topFieldFirst : ℤ
  unpairedField : Bool
  deriving DecidableEq, Repr

/-- A picture that the driver has mapped, with the video memory it is in; a copy can fail. -/
structure Mapped where
  dptr : ℕ
  pitch : ℕ
  memory : ℕ → UInt8
  copyError : ℕ → Option String

/-- `cuMemcpy2D` of rows of bytes, without what lies between them. -/
def Mapped.memcpy2D (m : Mapped) (src widthInBytes rows : ℕ) : Except String (List UInt8) :=
  match m.copyError src with
  | some e => .error e
  | none => .ok ((List.range rows).flatMap fun y =>
      (List.range widthInBytes).map fun x => m.memory (src + y * m.pitch + x))

/-- The driver's answers to `cuvidCreateDecoder` and `cuvidMapVideoFrame`. -/
abbrev Create := DecodeCreateInfo → Except String ℕ

abbrev MapFrame := Option ℕ → ℤ → ProcParams → Except String Mapped

structure State where
  /-- The handle of the decoder. -/
  decoder : Option ℕ
  fmt : Option VideoFormat
  outW : ℕ
  outH : ℕ
  surfaceH : ℕ
  highDepth : Bool
  ready : List DecodedFrame
  error : Option String

namespace State

def init : State :=
  { decoder := none, fmt := none, outW := 0, outH := 0, surfaceH := 0, highDepth := false,
    ready := [], error := none }

def destroyDecoder (s : State) : State :=
  if s.decoder.isSome then { s with decoder := none, fmt := none } else s

end State

/-! ### The sequence callback -/

namespace VideoFormat

def surfaces (f : VideoFormat) : ℕ := max f.minNumDecodeSurfaces 1 + 2

/-- The two headers agree in what `sequence` compares. -/
def SameDecoder (old f : VideoFormat) : Prop :=
  old.codedWidth = f.codedWidth ∧ old.codedHeight = f.codedHeight
    ∧ old.chromaFormat = f.chromaFormat ∧ old.bitDepthLumaMinus8 = f.bitDepthLumaMinus8

instance (old f : VideoFormat) : Decidable (SameDecoder old f) :=
  inferInstanceAs (Decidable (_ ∧ _ ∧ _ ∧ _))

/-- The sizes that frames get: differences of `i32`, and at least 1. -/
def outWidth (f : VideoFormat) : ℕ :=
  (max ((f.displayArea.right - f.displayArea.left).bmod (2 ^ 32)) 1).toNat

def outHeight (f : VideoFormat) : ℕ :=
  (max ((f.displayArea.bottom - f.displayArea.top).bmod (2 ^ 32)) 1).toNat

def high (f : VideoFormat) : Bool := 0 < f.bitDepthLumaMinus8

def createInfo (f : VideoFormat) : DecodeCreateInfo :=
  { width := f.codedWidth
    height := f.codedHeight
    numDecodeSurfaces := f.surfaces
    codecType := f.codec
    chromaFormat := f.chromaFormat
    creationFlags := createPreferCuvid
    bitDepthMinus8 := f.bitDepthLumaMinus8
    intraDecodeOnly := 0
    maxWidth := f.codedWidth
    maxHeight := f.codedHeight
    displayArea := f.displayArea.to16
    outputFormat := if f.high then surfaceP016 else surfaceNv12
    deinterlaceMode := if f.progressiveSequence ≠ 0 then deinterlaceWeave else deinterlaceAdaptive
    targetWidth := f.outWidth
    targetHeight := f.outHeight
    numOutputSurfaces := 2 }

end VideoFormat

/-- The callback for a sequence header returns how many surfaces the parser should use. -/
def State.sequence (s : State) (create : Create) (f : VideoFormat) : Except String ℕ × State :=
  if s.fmt.any (·.SameDecoder f) then (.ok f.surfaces, s)
  else if f.chromaFormat ≠ chroma420 ∧ f.chromaFormat ≠ chromaMono then
    (.error "the plugin's NVDEC path supports 4:2:0 only", s)
  else
    let s := s.destroyDecoder
    match create f.createInfo with
    | .error e => (.error e, s)
    | .ok dec =>
      (.ok f.surfaces,
        { s with decoder := some dec, fmt := some f, outW := f.outWidth, outH := f.outHeight,
                 surfaceH := f.outHeight, highDepth := f.high })

/-! ### The display callback -/

def ParserDispInfo.procParams (d : ParserDispInfo) : ProcParams :=
  { progressiveFrame := d.progressiveFrame, secondField := 0, topFieldFirst := d.topFieldFirst,
    unpairedField := d.repeatFirstField < 0 }

/-- The colour matrix, for pictures of this height. -/
def VideoFormat.matrix (f : VideoFormat) (height : ℕ) : Yuv.Matrix :=
  match f.videoSignalDescription.matrix.toNat with
  | 1 => .bt709
  | 9 | 10 => .bt2020
  | 5 | 6 => .bt601
  | _ => .guess height

def VideoFormat.fullRange (f : VideoFormat) : Bool :=
  f.videoSignalDescription.flags &&& 0b1000 ≠ 0

/-- What `display` copies out of video memory and hands over for conversion. -/
def State.image (s : State) (mapFrame : MapFrame) (d : ParserDispInfo) :
    Except String Yuv.YuvImage := do
  let m ← mapFrame s.decoder d.pictureIndex d.procParams
  let bpp := if s.highDepth then 2 else 1
  let row := s.outW * bpp
  let ch := (s.outH + 1) / 2
  -- Y, then UV: in video memory UV immediately follows an even number of luma rows
  let chromaOff := m.pitch * ((s.surfaceH + 1) / 2 * 2)
  let y ← m.memcpy2D m.dptr row s.outH
  let uv ← m.memcpy2D (m.dptr + chromaOff) row ch
  match s.fmt with
  | none => .error "frame without a format"
  | some fmt =>
    return { width := s.outW
             height := s.outH
             -- P016: samples sit in the high bits of a 16-bit word
             bitDepth := if s.highDepth then 16 else 8
             chroma := if fmt.chromaFormat = chromaMono then .mono else .sub420
             matrix := fmt.matrix s.outH
             fullRange := fmt.fullRange
             y := { data := y, stride := row }
             uv := .interleaved { data := uv, stride := row } }

/-- The time of a picture, in nanoseconds. -/
def ParserDispInfo.pts (d : ParserDispInfo) : ℕ := d.timestamp.toNat * 1000

def State.display (s : State) (mapFrame : MapFrame) (d : ParserDispInfo) :
    Except String (Option DecodedFrame) × State :=
  match s.image mapFrame d with
  | .error e => (.error e, s)
  | .ok img =>
    match Yuv.toBgra img with
    | none => (.ok none, s)
    | some cpu =>
      let frame := { pts := d.pts, data := .cpu cpu }
      (.ok (some frame), { s with ready := s.ready ++ [frame] })

/-! ### The decoder between packets -/

/-- What happens to the state: the parser's callbacks, and what `feed` and `reset` do around
them. -/
inductive Event where
  | sequence (create : Create) (f : VideoFormat)
  /-- A picture goes to the decoder with this handle, which can fail. -/
  | decode (picture : ℕ → Except String Unit)
  | display (mapFrame : MapFrame) (d : ParserDispInfo)
  /-- The parser is done with a packet: `feed` hands out the frames, or an error. -/
  | parsed (r : Except String Unit)
  /-- `reset` makes a new parser, which can fail. -/
  | reset (parser : Except String Unit)

inductive Answer where
  /-- The header was accepted. -/
  | accepted (f : VideoFormat)
  | refused (e : String)
  | displayed (frame : DecodedFrame)
  | nothing

/-- The error of a callback goes into the state, for `feed` to pass on. -/
def callback {α : Type} (answer : α → Answer) : Except String α × State → State × Answer
  | (.ok v, s) => (s, answer v)
  | (.error e, s) => ({ s with error := some e }, .refused e)

def State.step (s : State) : Event → State × Answer
  | .sequence create f => callback (fun _ => .accepted f) (s.sequence create f)
  | .decode picture =>
    match s.decoder with
    | none => (s, .nothing)
    | some dec => callback (fun _ => .nothing) (picture dec, s)
  | .display mapFrame d => callback (·.elim .nothing .displayed) (s.display mapFrame d)
  | .parsed r =>
    match s.error, r with
    | some _, _ => ({ s with error := none }, .nothing)
    | none, .error _ => (s, .nothing)
    | none, .ok () => ({ s with ready := [] }, .nothing)
  | .reset parser =>
    ({ s with ready := [],
              error := match parser with
                | .ok () => none
                | .error e => some e }, .nothing)

end Nvdec

end NoshareCover
