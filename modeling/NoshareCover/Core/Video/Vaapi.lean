import NoshareCover.Core.Video.Nvdec
import NoshareCover.Lib.Utf8

/-!
# VA-API

A helper library decodes with cros-codecs on top of libva; the decoder of the plugin gets its frames
by a callback.  The answers of cros-codecs come with the operation that asks for them.
-/

namespace NoshareCover

namespace Vaapi

/-! ### Between the helper and the plugin -/

/-- The planes are those that the pointers point to. -/
structure NscVaFrame where
  width : ℕ
  height : ℕ
  y : List UInt8
  yStride : ℕ
  uv : List UInt8
  uvStride : ℕ
  ptsNs : ℕ
  deriving DecidableEq, Repr

def codecH264 : ℕ := 1

def codecHevc : ℕ := 2

def codecVp8 : ℕ := 3

def codecVp9 : ℕ := 4

def codecAv1 : ℕ := 5

def helperCodec : Codec → Option ℕ
  | .h264 => some 1
  | .hevc => some 2
  | .vp8 => some 3
  | .vp9 => some 4
  | .av1 => some 5
  | .other _ => none

/-- `write_err` and `to_string_lossy` of the buffer: the text ends at a NUL, or where the buffer is
full; a character that is cut there is replaced. -/
def throughBuffer (len : ℕ) (msg : String) : String :=
  let text := msg.toList.takeWhile (· ≠ '\x00')
  let written := Utf8.fitting (len - 1) text
  if written.length = text.length ∨ (Utf8.bytes written).length = len - 1 then .ofList written
  else .ofList (written ++ ['\uFFFD'])

/-- `panic_error`. -/
def panicError (text : String) : String := "VA-API helper panicked: " ++ text

/-! ### What cros-codecs answers -/

structure Resolution where
  width : ℕ
  height : ℕ
  deriving DecidableEq, Repr

structure StreamInfo where
  codedResolution : Resolution
  displayResolution : Resolution
  minNumFrames : ℕ
  deriving DecidableEq, Repr

/-- A picture, with what its handle answers. -/
structure DecodedHandle where
  sync : Except String Unit
  timestamp : ℕ
  displayResolution : Resolution
  planePitch : List ℕ
  map : Except String (List (List UInt8))

inductive DecoderEvent where
  /-- With what `stream_info` gives by then. -/
  | formatChanged (streamInfo : Option StreamInfo)
  | frameReady (h : DecodedHandle)

inductive DecodeError where
  | checkEvents
  | notEnoughOutputBuffers (n : ℕ)
  /-- Anything else, by its text. -/
  | other (text : String)
  deriving DecidableEq, Repr

/-- A call returns, or it panics. -/
inductive Outcome (α : Type) where
  | returned (a : α)
  | panicked (text : String)

structure Answer (α : Type) where
  outcome : Outcome α
  /-- The events that there are since. -/
  queued : List DecoderEvent

abbrev DecodeAnswer := Answer (Except DecodeError ℕ)

abbrev FlushAnswer := Answer (Except String Unit)

/-! ### The helper -/

inductive Failure where
  | error (text : String)
  | panic (text : String)
  deriving DecidableEq, Repr

structure Dec where
  /-- What `next_event` has left. -/
  events : List DecoderEvent
  /-- What the pool was last resized to. -/
  pool : Option StreamInfo
  y : List UInt8
  uv : List UInt8
  reorders : Bool
  err : String

def poolHeadroom : ℕ := 2

/-- The VA drivers of a GPU, from its kernel driver. -/
def nodeDrivers : Option String → List String
  | some "amdgpu" => ["radeonsi"]
  | some "radeon" => ["r600", "radeonsi"]
  | some "i915" => ["iHD", "i965"]
  | some "xe" => ["iHD"]
  | some "nouveau" => ["nouveau"]
  | some "nvidia" => ["nvidia"]
  | _ => []

/-- `wanted` is `LIBVA_DRIVER_NAME`. -/
def driverFor (wanted kernel : Option String) : Option String :=
  match wanted, nodeDrivers kernel with
  | none, _ | some _, [] => none
  | some wanted, own :: others => if wanted ∈ own :: others then none else some own

/-- What there is to answer while a decoder is opened. -/
structure Opening where
  /-- `LIBVA_DRIVER_NAME`. -/
  driverName : Option String
  kernelDriver : Option String
  display : Option String → Except String Unit
  allocator : Except String Unit
  newVaapi : ℕ → Except String Unit

/-- `open` of the helper. -/
def openDec (o : Opening) (node : String) (codec : ℕ) : Except String Dec :=
  let driver := driverFor o.driverName o.kernelDriver
  match o.display driver with
  | .error e =>
    match driver with
    | some d => .error ("VA-API on " ++ node ++ " (" ++ d ++ "): " ++ e)
    | none => .error ("VA-API on " ++ node ++ ": " ++ e)
  | .ok () =>
    match o.allocator with
    | .error e => .error e
    | .ok () =>
      if codec ∈ [codecH264, codecHevc, codecVp8, codecVp9, codecAv1] then
        match o.newVaapi codec with
        | .error e => .error ("VA-API can't decode this codec on " ++ node ++ ": " ++ e)
        | .ok () =>
          .ok { events := [], pool := none, y := [], uv := [],
                reorders := codec = codecH264 ∨ codec = codecHevc, err := "" }
      else .error ("unknown codec " ++ toString codec)

namespace Dec

variable {υ : Type}

/-- A frame is shown at the packet showing it, if the codec doesn't reorder. -/
def ptsNs (reorders : Bool) (packetPts : Option ℕ) (h : DecodedHandle) : ℕ :=
  match packetPts with
  | some pts => if !reorders then pts else h.timestamp
  | none => h.timestamp

/-- One event of `drain`, and the frame for the callback. -/
def handle (packetPts : Option ℕ) (d : Dec) :
    DecoderEvent → Except String (Option NscVaFrame) × Dec
  | .formatChanged none => (.error "format change without stream_info", d)
  | .formatChanged (some si) =>
    (.ok none, { d with pool := some { si with minNumFrames := si.minNumFrames + poolHeadroom } })
  | .frameReady h =>
    match h.sync with
    | .error e => (.error ("frame sync: " ++ e), d)
    | .ok () =>
      match h.map with
      | .error e => (.error ("frame mapping: " ++ e), d)
      | .ok planes =>
        match planes, h.planePitch with
        | y :: uv :: _, yStride :: uvStride :: _ =>
          (.ok (some { width := h.displayResolution.width
                       height := h.displayResolution.height
                       y, yStride, uv, uvStride
                       ptsNs := ptsNs d.reorders packetPts h }), { d with y, uv })
        | _, _ => (.error "frame lacks the two NV12 planes", d)

/-- The loop of `drain`, with what it has left of the events. -/
def drainEvents (cb : υ → NscVaFrame → υ) (packetPts : Option ℕ) :
    List DecoderEvent → Bool → Dec → υ → Except String Bool × Dec × υ
  | [], progress, d, user => (.ok progress, { d with events := [] }, user)
  | ev :: events, _, d, user =>
    match d.handle packetPts ev with
    | (.error e, d) => (.error e, { d with events }, user)
    | (.ok none, d) => drainEvents cb packetPts events true d user
    | (.ok (some f), d) => drainEvents cb packetPts events true d (cb user f)

/-- `true` if anything made progress. -/
def drain (cb : υ → NscVaFrame → υ) (packetPts : Option ℕ) (d : Dec) (user : υ) :
    Except String Bool × Dec × υ :=
  drainEvents cb packetPts d.events false d user

/-- The events that come with an answer. -/
def queue (d : Dec) (queued : List DecoderEvent) : Dec := { d with events := d.events ++ queued }

/-- How the loop of `decode` goes on. -/
inductive Flow where
  /-- With so many bytes consumed and so many rounds without progress. -/
  | next (off stalls : ℕ)
  | leave
  | fail (f : Failure)

/-- One round of `decode`. -/
def round (cb : υ → NscVaFrame → υ) (ptsNs off stalls : ℕ) (a : DecodeAnswer) (d : Dec) (user : υ) :
    Flow × Dec × υ :=
  let d := d.queue a.queued
  match a.outcome with
  | .panicked text => (.fail (.panic text), d, user)
  -- decoder consumed nothing; don't spin forever
  | .returned (.ok 0) => (.leave, d, user)
  | .returned (.ok n) => (.next (off + n) 0, d, user)
  | .returned (.error (.other e)) => (.fail (.error ("VA-API: " ++ e)), d, user)
  | .returned (.error _) =>
    match d.drain cb (some ptsNs) user with
    | (.error e, d, user) => (.fail (.error e), d, user)
    | (.ok true, d, user) => (.next off stalls, d, user)
    | (.ok false, d, user) =>
      if 3 < stalls + 1 then (.fail (.error "VA-API: decoder is out of output frames"), d, user)
      else (.next off (stalls + 1), d, user)

/-- The last drain of `decode` and the one of `flush`. -/
def finish (cb : υ → NscVaFrame → υ) (packetPts : Option ℕ) (d : Dec) (user : υ) :
    Except Failure Unit × Dec × υ :=
  match d.drain cb packetPts user with
  | (.error e, d, user) => (.error (.error e), d, user)
  | (.ok _, d, user) => (.ok (), d, user)

/-- The loop of `decode` over a packet of `len` bytes; `none` when there is no answer to a call, or
an answer to none. -/
def decodeLoop (cb : υ → NscVaFrame → υ) (ptsNs len : ℕ) :
    List DecodeAnswer → ℕ → ℕ → Dec → υ → Option (Except Failure Unit × Dec × υ)
  | [], off, _, d, user => if off < len then none else some (d.finish cb (some ptsNs) user)
  | a :: answers, off, stalls, d, user =>
    if off < len then
      match d.round cb ptsNs off stalls a user with
      | (.next off stalls, d, user) => decodeLoop cb ptsNs len answers off stalls d user
      | (.leave, d, user) =>
        if answers.isEmpty then some (d.finish cb (some ptsNs) user) else none
      | (.fail f, d, user) => if answers.isEmpty then some (.error f, d, user) else none
    else none

def decode (answers : List DecodeAnswer) (data : List UInt8) (ptsNs : ℕ)
    (cb : υ → NscVaFrame → υ) (user : υ) (d : Dec) : Option (Except Failure Unit × Dec × υ) :=
  decodeLoop cb ptsNs data.length answers 0 0 d user

def flush (answer : FlushAnswer) (cb : υ → NscVaFrame → υ) (user : υ) (d : Dec) :
    Except Failure Unit × Dec × υ :=
  let d := d.queue answer.queued
  match answer.outcome with
  | .panicked text => (.error (.panic text), d, user)
  | .returned (.error e) => (.error (.error ("VA-API flush: " ++ e)), d, user)
  | .returned (.ok ()) => d.finish cb none user

def reset (answer : FlushAnswer) (d : Dec) : Except Failure Unit × Dec :=
  match answer.outcome with
  | .panicked text => (.error (.panic text), d.queue answer.queued)
  | .returned _ => (.ok (), { d with events := [] })

end Dec

/-- `with_dec`: what it returns, and the decoder behind it. -/
def withDec (r : Except Failure Unit) (d : Dec) : ℤ × Dec :=
  match r with
  | .ok () => (0, d)
  | .error (.error e) => (-1, { d with err := e })
  | .error (.panic text) => (-1, { d with err := panicError text })

/-! ### The decoder of the plugin -/

structure VaapiDecoder where
  handle : Dec

/-- `on_frame`: NV12 -> BGRA. -/
def onFrame (out : List DecodedFrame) (f : NscVaFrame) : List DecodedFrame :=
  if f.width = 0 ∨ f.height = 0 then out
  else
    let ch := (f.height + 1) / 2
    let img : Yuv.YuvImage :=
      { width := f.width
        height := f.height
        bitDepth := 8
        chroma := .sub420
        matrix := .guess f.height
        fullRange := false
        y := { data := f.y.take (f.yStride * (f.height - 1) + f.width), stride := f.yStride }
        uv := .interleaved
          { data := f.uv.take (f.uvStride * (ch - 1) + (f.width + 1) / 2 * 2)
            stride := f.uvStride } }
    match Yuv.toBgra img with
    | none => out
    | some cpu => out ++ [{ pts := f.ptsNs, data := .cpu cpu }]

namespace VaapiDecoder

/-- `VaapiDecoder::new`, once the helper is loaded; `debug` is the codec's debug text. -/
def new (codec : Codec) (debug node : String) (o : Opening) : PipeResult VaapiDecoder :=
  match helperCodec codec with
  | none => .error ("VA-API doesn't support " ++ debug)
  | some c =>
    match openDec o node c with
    | .ok d => .ok { handle := d }
    | .error e =>
      let msg := throughBuffer 512 e
      .error (if msg.isEmpty then "VA-API: failed to open" else msg)

def lastError (me : VaapiDecoder) : String := throughBuffer 512 me.handle.err

/-- What the decoder makes of a call of the helper. -/
def returned (r : Except Failure Unit × Dec × List DecodedFrame) :
    PipeResult (List DecodedFrame) × VaapiDecoder :=
  let (res, d, out) := r
  let (code, d) := withDec res d
  let me : VaapiDecoder := { handle := d }
  if code ≠ 0 then (.error me.lastError, me) else (.ok out, me)

def decode (answers : List DecodeAnswer) (packet : Packet) (me : VaapiDecoder) :
    Option (PipeResult (List DecodedFrame) × VaapiDecoder) :=
  (me.handle.decode answers packet.data (min packet.pts (2 ^ 64 - 1)) onFrame []).map returned

def flush (answer : FlushAnswer) (me : VaapiDecoder) :
    PipeResult (List DecodedFrame) × VaapiDecoder :=
  returned (me.handle.flush answer onFrame [])

def reset (answer : FlushAnswer) (me : VaapiDecoder) : VaapiDecoder :=
  let (res, d) := me.handle.reset answer
  { handle := (withDec res d).2 }

end VaapiDecoder

/-- An operation of the decoder, with the answers of cros-codecs. -/
inductive Operation where
  | decode (packet : Packet) (answers : List DecodeAnswer)
  | flush (answer : FlushAnswer)
  | reset (answer : FlushAnswer)

namespace VaapiDecoder

/-- What an operation returns; a reset returns no frames. -/
def step (me : VaapiDecoder) : Operation → Option (PipeResult (List DecodedFrame) × VaapiDecoder)
  | .decode packet answers => me.decode answers packet
  | .flush answer => some (me.flush answer)
  | .reset answer => some (.ok [], me.reset answer)

/-- What operations return one after the other. -/
def calls (me : VaapiDecoder) :
    List Operation → Option (List (PipeResult (List DecodedFrame)) × VaapiDecoder)
  | [] => some ([], me)
  | op :: ops =>
    match me.step op with
    | none => none
    | some (r, me) => (calls me ops).map fun (rs, me) => (r :: rs, me)

end VaapiDecoder

end Vaapi

end NoshareCover
