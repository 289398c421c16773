import NoshareCover.Core.Video.PickDevice
import NoshareCover.Lib.Contract

/-!
# The calls of NVDEC

What the decoder asks of CUDA and of the parser, call by call, from the context to the end of the
decoder.  The driver's answers come with the operation that asks for them.
-/

namespace NoshareCover

namespace Nvdec

def cudaCodec : Codec → Option ℤ
  | .h264 => some 4
  | .hevc => some 8
  | .vp8 => some 9
  | .vp9 => some 10
  | .av1 => some 11
  | .other _ => none

def pktEndOfStream : ℕ := 1

def pktTimestamp : ℕ := 2

def clockRate : ℕ := 1000000

structure ParserParams where
  codecType : ℤ
  maxNumDecodeSurfaces : ℕ
  clockRate : ℕ
  errorThreshold : ℕ
  maxDisplayDelay : ℕ
  flags : ℕ
  deriving DecidableEq, Repr

structure SourceDataPacket where
  flags : ℕ
  payload : List UInt8
  timestamp : ℤ
  deriving DecidableEq, Repr

/-- A call, with the handle that it gives, if it gives one, and for a push whether it succeeds. -/
inductive Call where
  | ctxCreate (ok : Bool)
  | ctxPush (ok : Bool)
  | ctxPop
  | ctxDestroy
  | getDecoderCaps
  | ctxLockCreate (lock : Option ℕ)
  | ctxLockDestroy (lock : ℕ)
  | createVideoParser (params : ParserParams) (parser : Option ℕ)
  | parseVideoData (parser : Option ℕ) (packet : SourceDataPacket)
  | destroyVideoParser (parser : ℕ)
  | createDecoder (info : DecodeCreateInfo) (decoder : Option ℕ)
  | decodePicture (decoder : ℕ)
  | mapVideoFrame (decoder : Option ℕ) (dptr : Option ℕ)
  | memcpy2D (src : ℕ)
  | unmapVideoFrame (decoder : Option ℕ) (dptr : ℕ)
  | destroyDecoder (decoder : ℕ)

open Calls

/-! ### The state behind the callbacks -/

/-- Make the CUDA context current for the duration of `f`. -/
def withCtx {α β : Type} (push : Except String Unit) (f : β → Calls Call (Except String α × β))
    (s : β) : Calls Call (Except String α × β) :=
  match push with
  | .error e => do
    call (.ctxPush false)
    return (.error e, s)
  | .ok () => do
    call (.ctxPush true)
    let r ← f s
    call .ctxPop
    return r

namespace State

/-- The decoder is forgotten, also when the context cannot be made current to destroy it. -/
def dropDecoder (push : Except String Unit) (s : State) : Calls Call State :=
  match s.decoder with
  | none => return s
  | some dec => do
    let (_, s) ← withCtx push (fun s => do
      call (.destroyDecoder dec)
      return (.ok (), s)) s
    return { s with decoder := none, fmt := none }

/-- `State::sequence`. -/
def onSequence (push : Except String Unit) (create : Create) (f : VideoFormat) (s : State) :
    Calls Call (Except String ℕ × State) :=
  if s.fmt.any (·.SameDecoder f) then return (.ok f.surfaces, s)
  else if f.chromaFormat ≠ chroma420 ∧ f.chromaFormat ≠ chromaMono then
    return (.error "the plugin's NVDEC path supports 4:2:0 only", s)
  else do
    let s ← s.dropDecoder push
    match create f.createInfo with
    | .error e =>
      call (.createDecoder f.createInfo none)
      return (.error e, s)
    | .ok dec =>
      call (.createDecoder f.createInfo (some dec))
      return (.ok f.surfaces,
        { s with decoder := some dec, fmt := some f, outW := f.outWidth, outH := f.outHeight,
                 surfaceH := f.outHeight, highDepth := f.high })

/-- The two copies of a mapped picture; the second one only after the first. -/
def copies (s : State) (m : Mapped) : Calls Call (Except String (List UInt8 × List UInt8)) := do
  let row := s.outW * if s.highDepth then 2 else 1
  let chroma := m.dptr + m.pitch * ((s.surfaceH + 1) / 2 * 2)
  call (.memcpy2D m.dptr)
  match m.memcpy2D m.dptr row s.outH with
  | .error e => return .error e
  | .ok y =>
    call (.memcpy2D chroma)
    return (m.memcpy2D chroma row ((s.outH + 1) / 2)).map (y, ·)

/-- The frame of a picture that has been copied. -/
def convert (d : ParserDispInfo) (y uv : List UInt8) (s : State) :
    Except String (Option DecodedFrame) × State :=
  match s.fmt with
  | none => (.error "frame without a format", s)
  | some fmt =>
    let row := s.outW * if s.highDepth then 2 else 1
    let img : Yuv.YuvImage :=
      { width := s.outW
        height := s.outH
        bitDepth := if s.highDepth then 16 else 8
        chroma := if fmt.chromaFormat = chromaMono then .mono else .sub420
        matrix := fmt.matrix s.outH
        fullRange := fmt.fullRange
        y := { data := y, stride := row }
        uv := .interleaved { data := uv, stride := row } }
    match Yuv.toBgra img with
    | none => (.ok none, s)
    | some cpu =>
      let frame := { pts := d.pts, data := .cpu cpu }
      (.ok (some frame), { s with ready := s.ready ++ [frame] })

/-- `State::display`: the frame is unmapped right after the copy. -/
def onDisplay (mapFrame : MapFrame) (d : ParserDispInfo) (s : State) :
    Calls Call (Except String (Option DecodedFrame) × State) :=
  match mapFrame s.decoder d.pictureIndex d.procParams with
  | .error e => do
    call (.mapVideoFrame s.decoder none)
    return (.error e, s)
  | .ok m => do
    call (.mapVideoFrame s.decoder (some m.dptr))
    let res ← s.copies m
    call (.unmapVideoFrame s.decoder m.dptr)
    match res with
    | .error e => return (.error e, s)
    | .ok (y, uv) => return s.convert d y uv

end State

def destroyLock : Option ℕ → Calls Call Unit
  | none => pure ()
  | some lock => call (.ctxLockDestroy lock)

/-- Released in reverse creation order. -/
def State.destroy (push : Except String Unit) (lock : Option ℕ) (s : State) : Calls Call Unit := do
  let _ ← s.dropDecoder push
  destroyLock lock
  call .ctxDestroy

/-! ### The callbacks -/

/-- The parser calls back, and the driver answers to what the callback asks. -/
inductive Callback where
  | onSequence (push : Except String Unit) (create : Create) (f : VideoFormat)
  | onDecode (picture : ℕ → Except String Unit)
  | onDisplay (mapFrame : MapFrame) (d : ParserDispInfo)
  /-- The end of the stream. -/
  | onEnd

/-- An error is left in the state. -/
def stored {α : Type} : Except String α × State → State
  | (.ok _, s) => s
  | (.error e, s) => { s with error := some e }

def Callback.run (s : State) : Callback → Calls Call State
  | onSequence push create f => stored <$> s.onSequence push create f
  | onDecode picture =>
    match s.decoder with
    | none => return s
    | some dec => do
      call (.decodePicture dec)
      return stored (picture dec, s)
  | onDisplay mapFrame d => stored <$> s.onDisplay mapFrame d
  | onEnd => return s

/-! ### The decoder -/

/-- It has a context of its own; the lock is part of it. -/
structure NvdecDecoder where
  state : State
  lock : Option ℕ
  parser : Option ℕ
  codec : ℤ

abbrev CreateParser := ParserParams → Except String ℕ

/-- What goes on inside `cuvidParseVideoData`, if the context can be made current. -/
structure Parse where
  push : Except String Unit
  callbacks : List Callback
  result : Except String Unit

namespace NvdecDecoder

def parserParams (me : NvdecDecoder) : ParserParams :=
  { codecType := me.codec, maxNumDecodeSurfaces := 1, clockRate, errorThreshold := 100,
    maxDisplayDelay := 0, flags := 0 }

def newParser (create : CreateParser) (me : NvdecDecoder) :
    Calls Call (Except String Unit × NvdecDecoder) :=
  match create me.parserParams with
  | .error e => do
    call (.createVideoParser me.parserParams none)
    return (.error e, me)
  | .ok parser => do
    call (.createVideoParser me.parserParams (some parser))
    return (.ok (), { me with parser := some parser })

def dropParser (me : NvdecDecoder) : Calls Call NvdecDecoder :=
  match me.parser with
  | none => return me
  | some parser => do
    call (.destroyVideoParser parser)
    return { me with parser := none }

/-- What `feed` returns after parse: an error of a callback, of parse itself, or the frames. -/
def handOut (me : NvdecDecoder) (r : Except String Unit) (state : State) :
    Except String (List DecodedFrame) × NvdecDecoder :=
  match state.error, r with
  | some e, _ => (.error e, { me with state := { state with error := none } })
  | none, .error e => (.error e, { me with state })
  | none, .ok () => (.ok state.ready, { me with state := { state with ready := [] } })

/-- Callbacks are invoked inside parse and write into the state. -/
def feed (parse : Parse) (data : List UInt8) (flags pts : ℕ) (me : NvdecDecoder) :
    Calls Call (Except String (List DecodedFrame) × NvdecDecoder) := do
  let pkt : SourceDataPacket :=
    { flags, payload := data, timestamp := min (pts / 1000) (2 ^ 63 - 1) }
  let (r, state) ← withCtx parse.push (fun state => do
    call (.parseVideoData me.parser pkt)
    let state ← parse.callbacks.foldlM Callback.run state
    return (parse.result, state)) me.state
  return me.handOut r state

def decode (parse : Parse) (packet : Packet) (me : NvdecDecoder) :
    Calls Call (Except String (List DecodedFrame) × NvdecDecoder) :=
  if packet.data.isEmpty then return (.ok [], me)
  else me.feed parse packet.data pktTimestamp packet.pts

/-- After the end of stream the parser accepts no new data. -/
def flush (parse : Parse) (create : CreateParser) (me : NvdecDecoder) :
    Calls Call (Except String (List DecodedFrame) × NvdecDecoder) := do
  let (out, me) ← me.feed parse [] pktEndOfStream 0
  let me ← me.dropParser
  let (r, me) ← me.newParser create
  match r with
  | .error e => return (.error e, me)
  | .ok () => return (out, me)

def reset (create : CreateParser) (me : NvdecDecoder) : Calls Call NvdecDecoder := do
  let me ← me.dropParser
  let (r, me) ← newParser create { me with state := { me.state with ready := [], error := none } }
  match r with
  | .error e => return { me with state := { me.state with error := some e } }
  | .ok () => return me

/-- `Drop`. -/
def drop (push : Except String Unit) (me : NvdecDecoder) : Calls Call Unit := do
  let me ← me.dropParser
  me.state.destroy push me.lock

/-- The driver's answers while a decoder is made. -/
structure Setup where
  init : Except String Unit
  device : Except String CuDevice
  ctxCreate : Except String Unit
  push : Except String Unit
  /-- Whether the codec is supported. -/
  caps : Except String Bool
  lock : Except String ℕ
  createParser : CreateParser
  /-- When the decoder without a parser is dropped again. -/
  pushDrop : Except String Unit

/-- The context, its lock and a parser; what there is by then is destroyed again when one fails. -/
def create (codec : ℤ) (debug : String) (setup : Setup) : Calls Call (Except String NvdecDecoder) :=
  match setup.ctxCreate with
  | .error e => do
    call (.ctxCreate false)
    return .error e
  | .ok () => do
    -- creating a context makes it current
    call (.ctxCreate true)
    call .ctxPop
    let (supported, state) ← withCtx setup.push (fun state => do
      call .getDecoderCaps
      return (setup.caps, state)) State.init
    match supported, setup.lock with
    | .ok false, _ =>
      state.destroy setup.pushDrop none
      return .error ("this GPU can't decode " ++ debug ++ " via NVDEC")
    | .error e, _ =>
      state.destroy setup.pushDrop none
      return .error e
    | .ok true, .error e =>
      call (.ctxLockCreate none)
      state.destroy setup.pushDrop none
      return .error e
    | .ok true, .ok lock =>
      call (.ctxLockCreate (some lock))
      let (r, me) ← newParser setup.createParser { state, lock := some lock, parser := none, codec }
      match r with
      | .ok () => return .ok me
      | .error e =>
        me.drop setup.pushDrop
        return .error e

/-- `NvdecDecoder::new`, once the libraries are loaded; `debug` is the codec's debug text. -/
def new (codec : Codec) (debug : String) (setup : Setup) : Calls Call (Except String NvdecDecoder) :=
  match cudaCodec codec, setup.init, setup.device with
  | none, _, _ => return .error ("NVDEC doesn't support " ++ debug)
  | some _, .error e, _ => return .error e
  | some _, .ok (), .error e => return .error e
  | some codec, .ok (), .ok _ => create codec debug setup

end NvdecDecoder

/-! ### Runs -/

inductive Operation where
  | decode (parse : Parse) (packet : Packet)
  | flush (parse : Parse) (create : CreateParser)
  | reset (create : CreateParser)

def NvdecDecoder.step (me : NvdecDecoder) : Operation → Calls Call NvdecDecoder
  | .decode parse packet => Prod.snd <$> me.decode parse packet
  | .flush parse create => Prod.snd <$> me.flush parse create
  | .reset create => me.reset create

/-- A decoder from its creation to its end. -/
def life (codec : Codec) (debug : String) (setup : NvdecDecoder.Setup) (ops : List Operation)
    (push : Except String Unit) : Calls Call Unit := do
  match ← NvdecDecoder.new codec debug setup with
  | .error _ => pure ()
  | .ok me =>
    let me ← ops.foldlM NvdecDecoder.step me
    me.drop push

end Nvdec

end NoshareCover
