import NoshareCover.Core.Video.NvdecDriver
import NoshareCover.Lib.Run

/-!
# NVDEC's calls and its state

The calls of NVDEC do not change what it does: its state takes the steps of `Nvdec.State.step`
(`Nvdec.NvdecDecoder.state_step`).  So the frames that are displayed are handed out, or dropped with a
parser, each once and in order (`Nvdec.NvdecDecoder.frames_conserved`).
-/

namespace NoshareCover

namespace Nvdec

open Calls Machine

/-! ### The callbacks -/

/-- What a callback is to the state. -/
def Callback.event : Callback → Option Event
  | onSequence _ create f => some (.sequence create f)
  | onDecode picture => some (.decode picture)
  | onDisplay mapFrame d => some (.display mapFrame d)
  | onEnd => none

def Parse.events (parse : Parse) : List Event :=
  match parse.push with
  | .error e => [.parsed (.error e)]
  | .ok () => parse.callbacks.filterMap Callback.event ++ [.parsed parse.result]

theorem value_dropDecoder (push : Except String Unit) (s : State) :
    (s.dropDecoder push).value = s.destroyDecoder := by
  unfold State.dropDecoder State.destroyDecoder
  cases s.decoder with
  | none => rfl
  | some dec => cases push <;> rfl

theorem value_onSequence (push : Except String Unit) (create : Create) (f : VideoFormat) (s : State) :
    (s.onSequence push create f).value = s.sequence create f := by
  unfold State.onSequence State.sequence
  split_ifs
  · rfl
  · rfl
  · rw [value_bind, value_dropDecoder]
    cases create f.createInfo <;> rfl

theorem value_copies (s : State) (m : Mapped) :
    (s.copies m).value = (do
      let row := s.outW * if s.highDepth then 2 else 1
      let y ← m.memcpy2D m.dptr row s.outH
      let uv ← m.memcpy2D (m.dptr + m.pitch * ((s.surfaceH + 1) / 2 * 2)) row ((s.outH + 1) / 2)
      return (y, uv)) := by
  unfold State.copies
  dsimp only
  rw [value_bind]
  cases m.memcpy2D m.dptr (s.outW * if s.highDepth then 2 else 1) s.outH with
  | error e => rfl
  | ok y => cases m.memcpy2D _ _ ((s.outH + 1) / 2) <;> rfl

theorem value_onDisplay (mapFrame : MapFrame) (d : ParserDispInfo) (s : State) :
    (s.onDisplay mapFrame d).value = s.display mapFrame d := by
  unfold State.onDisplay State.display State.image
  -- a failed map or copy ends both in the same state
  cases mapFrame s.decoder d.pictureIndex d.procParams with
  | error e => rfl
  | ok m =>
    dsimp only
    rw [value_bind, value_bind, value_bind, value_copies]
    -- the luma plane
    rcases hy : m.memcpy2D m.dptr (s.outW * if s.highDepth then 2 else 1) s.outH with e | y
    · simp only [hy, bind, Except.bind]
      rfl
    -- the chroma plane, at half the size
    rcases huv : m.memcpy2D (m.dptr + m.pitch * ((s.surfaceH + 1) / 2 * 2))
      (s.outW * if s.highDepth then 2 else 1) ((s.outH + 1) / 2) with e | uv
    · simp only [hy, huv, bind, Except.bind]
      rfl
    simp only [hy, huv, bind, Except.bind]
    show (s.convert d y uv) = _
    unfold State.convert
    cases s.fmt with
    | none => rfl
    | some fmt => rfl

theorem value_callback (s : State) (c : Callback) :
    (c.run s).value = (c.event.map fun e => (s.step e).1).getD s := by
  -- each callback is the step of its event
  cases c with
  | onSequence push create f =>
    show stored (s.onSequence push create f).value = _
    rw [value_onSequence]
    show _ = (callback _ (s.sequence create f)).1
    rcases s.sequence create f with ⟨_ | _, s'⟩ <;> rfl
  | onDecode picture =>
    show (Callback.run s (.onDecode picture)).value = (s.step (.decode picture)).1
    unfold Callback.run State.step
    cases s.decoder with
    | none => rfl
    | some dec => rcases hpicture : picture dec with _ | _ <;> simp [hpicture, stored, callback]
  | onDisplay mapFrame d =>
    show stored (s.onDisplay mapFrame d).value = _
    rw [value_onDisplay]
    show _ = (callback _ (s.display mapFrame d)).1
    rcases s.display mapFrame d with ⟨_ | _, s'⟩ <;> rfl
  | onEnd => rfl

theorem value_callbacks (cs : List Callback) (s : State) :
    (cs.foldlM Callback.run s).value = run State.step s (cs.filterMap Callback.event) := by
  induction cs generalizing s with
  | nil => rfl
  | cons c cs ih =>
    rw [List.foldlM_cons, value_bind, ih, value_callback]
    cases hevent : c.event with
    | none => rw [List.filterMap_cons_none hevent]; rfl
    | some e => rw [List.filterMap_cons_some hevent]; rfl


/-! ### The operations -/

namespace NvdecDecoder

theorem value_withCtx {α β : Type} (push : Except String Unit)
    (f : β → Calls Call (Except String α × β)) (s : β) :
    (withCtx push f s).value = match push with
      | .error e => (.error e, s)
      | .ok () => (f s).value := by
  cases push <;> rfl

theorem state_handOut (me : NvdecDecoder) (r : Except String Unit) (state : State) :
    (me.handOut r state).2.state = (state.step (.parsed r)).1 := by
  unfold handOut State.step
  dsimp only
  rcases state.error with _ | e
  · cases r <;> rfl
  · rfl

/-- What `feed` does after the callbacks. -/
theorem value_feed (parse : Parse) (data : List UInt8) (flags pts : ℕ) (me : NvdecDecoder) :
    (me.feed parse data flags pts).value = match parse.push with
      | .error e => me.handOut (.error e) me.state
      | .ok () => me.handOut parse.result
        (run State.step me.state (parse.callbacks.filterMap Callback.event)) := by
  unfold feed
  dsimp only
  rw [value_bind, value_withCtx]
  cases parse.push with
  | error e => rfl
  | ok u =>
    dsimp only
    rw [value_bind, value_bind, value_callbacks]
    rfl

theorem state_feed (parse : Parse) (data : List UInt8) (flags pts : ℕ) (me : NvdecDecoder) :
    (me.feed parse data flags pts).value.2.state = run State.step me.state parse.events := by
  rw [value_feed]
  unfold Parse.events
  cases parse.push with
  | error e => exact state_handOut me _ _
  | ok u =>
    dsimp only
    rw [state_handOut, run_append]
    rfl

/-- What an operation is to the state. -/
def events (me : NvdecDecoder) : Operation → List Event
  | .decode parse packet => if packet.data.isEmpty then [] else parse.events
  | .flush parse _ => parse.events
  | .reset create => [.reset ((create me.parserParams).map fun _ => ())]

theorem value_dropParser (me : NvdecDecoder) :
    me.dropParser.value = { me with parser := none } := by
  unfold dropParser
  cases hparser : me.parser with
  | none =>
    dsimp only [value_pure]
    rw [← hparser]
  | some parser => rfl

theorem value_newParser (create : CreateParser) (me : NvdecDecoder) :
    (me.newParser create).value = match create me.parserParams with
      | .error e => (.error e, me)
      | .ok parser => (.ok (), { me with parser := some parser }) := by
  unfold newParser
  cases create me.parserParams <;> rfl

/-- A flush hands out what `feed` does, if there is a new parser behind it. -/
theorem value_flush (parse : Parse) (create : CreateParser) (me : NvdecDecoder) :
    (me.flush parse create).value = match create me.parserParams with
      | .error e =>
        (.error e, { (me.feed parse [] pktEndOfStream 0).value.2 with parser := none })
      | .ok parser => ((me.feed parse [] pktEndOfStream 0).value.1,
        { (me.feed parse [] pktEndOfStream 0).value.2 with parser := some parser }) := by
  -- the parameters outlive the old parser
  have hparams : (me.feed parse [] pktEndOfStream 0).value.2.parserParams = me.parserParams := by
    rw [value_feed]
    unfold handOut
    repeat' split
    all_goals rfl
  unfold flush
  rw [value_bind]
  rcases hfeed : (me.feed parse [] pktEndOfStream 0).value with ⟨out, me'⟩
  rw [hfeed] at hparams
  dsimp only at hparams ⊢
  -- so the new parser is asked for with the same ones
  have hcreate : create ({ me' with parser := none } : NvdecDecoder).parserParams
      = create me.parserParams := congrArg create hparams
  rw [value_bind, value_dropParser, value_bind, value_newParser, hcreate]
  cases create me.parserParams <;> rfl

theorem state_reset (create : CreateParser) (me : NvdecDecoder) :
    (me.reset create).value.state
      = (me.state.step (.reset ((create me.parserParams).map fun _ => ()))).1 := by
  have hparams : parserParams
      { me with parser := none, state := { me.state with ready := [], error := none } }
      = me.parserParams := rfl
  unfold reset
  rw [value_bind, value_dropParser, value_bind, value_newParser, hparams]
  cases create me.parserParams <;> rfl

theorem state_step (me : NvdecDecoder) (op : Operation) :
    (me.step op).value.state = run State.step me.state (me.events op) := by
  cases op with
  | decode parse packet =>
    show (me.decode parse packet).value.2.state = run State.step me.state (if _ then _ else _)
    unfold decode
    split_ifs
    · rfl
    · exact state_feed parse packet.data pktTimestamp packet.pts me
  | flush parse create =>
    show (me.flush parse create).value.2.state = run State.step me.state parse.events
    rw [← state_feed parse [] pktEndOfStream 0 me, value_flush]
    cases create me.parserParams <;> rfl
  | reset create => exact state_reset create me

end NvdecDecoder

/-! ### The frames -/

def Answer.frame? : Answer → Option DecodedFrame
  | displayed frame => some frame
  | _ => none

/-- The frames that are displayed while the state goes through these events. -/
def displayedBy (s : State) (es : List Event) : List DecodedFrame :=
  collect State.step (fun s e => (s.step e).2.frame?.toList) s es

theorem ready_sequence (s : State) (create : Create) (f : VideoFormat) :
    (s.sequence create f).2.ready = s.ready := by
  have hdestroy : s.destroyDecoder.ready = s.ready := by
    unfold State.destroyDecoder
    split_ifs <;> rfl
  unfold State.sequence
  split_ifs
  · rfl
  · rfl
  · dsimp only
    split <;> exact hdestroy

/-- A callback puts the frame that it displays behind the others. -/
theorem ready_callback {c : Callback} {e : Event} (h : c.event = some e) (s : State) :
    (s.step e).1.ready = s.ready ++ (s.step e).2.frame?.toList := by
  cases c with
  -- only a picture that is displayed gets into `ready`
  | onSequence push create f =>
    cases h
    have hready := ready_sequence s create f
    unfold State.step
    dsimp only
    rcases hsequence : s.sequence create f with ⟨_ | _, s'⟩ <;> rw [hsequence] at hready
    · exact hready.trans (List.append_nil _).symm
    · exact hready.trans (List.append_nil _).symm
  | onDecode picture =>
    cases h
    unfold State.step
    dsimp only
    rcases s.decoder with _ | dec
    · exact (List.append_nil _).symm
    · dsimp only
      rcases picture dec with _ | _
      · exact (List.append_nil _).symm
      · exact (List.append_nil _).symm
  | onDisplay mapFrame d =>
    cases h
    unfold State.step State.display
    dsimp only
    rcases s.image mapFrame d with _ | img
    · exact (List.append_nil _).symm
    · dsimp only
      rcases Yuv.toBgra img with _ | cpu
      · exact (List.append_nil _).symm
      -- here is the one frame
      · rfl
  | onEnd => cases h

theorem ready_callbacks (cs : List Callback) (s : State) :
    (run State.step s (cs.filterMap Callback.event)).ready
      = s.ready ++ displayedBy s (cs.filterMap Callback.event) := by
  induction cs generalizing s with
  | nil => exact (List.append_nil _).symm
  | cons c cs ih =>
    cases hevent : c.event with
    | none => rw [List.filterMap_cons_none hevent, ih]
    | some e =>
      rw [List.filterMap_cons_some hevent, run_cons, ih, ready_callback hevent, List.append_assoc]
      rfl

theorem displayedBy_parsed (s : State) (r : Except String Unit) :
    displayedBy s [.parsed r] = [] := by
  unfold displayedBy collect collect State.step
  dsimp only
  split <;> rfl

namespace NvdecDecoder

/-- The frames of a result. -/
def framesOf (r : Except String (List DecodedFrame)) : List DecodedFrame := r.toOption.getD []

theorem frames_handOut (me : NvdecDecoder) (r : Except String Unit) (state : State) :
    framesOf (me.handOut r state).1 ++ (me.handOut r state).2.state.ready = state.ready := by
  unfold handOut
  split
  · rfl
  · rfl
  · exact List.append_nil _

/-- The frames that wait and those of the callbacks are handed out, or wait for the next packet. -/
theorem frames_feed (parse : Parse) (data : List UInt8) (flags pts : ℕ) (me : NvdecDecoder) :
    me.state.ready ++ displayedBy me.state parse.events
      = framesOf (me.feed parse data flags pts).value.1
        ++ (me.feed parse data flags pts).value.2.state.ready := by
  rw [value_feed]
  unfold Parse.events
  -- a failed push still hands out what its callbacks made
  cases parse.push with
  | error e =>
    dsimp only
    rw [frames_handOut, displayedBy_parsed, List.append_nil]
  | ok u =>
    dsimp only
    rw [frames_handOut, ready_callbacks, displayedBy, collect_append]
    exact congrArg (me.state.ready ++ ·)
      (((congrArg (_ ++ ·) (displayedBy_parsed _ _))).trans (List.append_nil _))

/-- The frames that an operation returns. -/
def handed (me : NvdecDecoder) : Operation → List DecodedFrame
  | .decode parse packet => framesOf (me.decode parse packet).value.1
  | .flush parse create => framesOf (me.flush parse create).value.1
  | .reset _ => []

/-- The frames that get lost: those of a flush when there is no new parser, and those that wait for
the next packet when it is not going to come. -/
def dropped (me : NvdecDecoder) : Operation → List DecodedFrame
  | .decode _ _ => []
  | .flush parse create =>
    match create me.parserParams with
    | .error _ => framesOf (me.feed parse [] pktEndOfStream 0).value.1
    | .ok _ => []
  | .reset _ => me.state.ready

theorem frames_step (me : NvdecDecoder) (op : Operation) :
    me.state.ready ++ displayedBy me.state (me.events op)
      = me.handed op ++ me.dropped op ++ (me.step op).value.state.ready := by
  cases op with
  -- a packet without data is not fed
  | decode parse packet =>
    show me.state.ready ++ displayedBy me.state (if _ then _ else _)
      = framesOf (me.decode parse packet).value.1 ++ [] ++ (me.decode parse packet).value.2.state.ready
    unfold decode
    rw [List.append_nil]
    split_ifs
    · exact List.append_nil _
    · exact frames_feed parse packet.data pktTimestamp packet.pts me
  | flush parse create =>
    show me.state.ready ++ displayedBy me.state parse.events
      = framesOf (me.flush parse create).value.1 ++ me.dropped (.flush parse create)
        ++ (me.flush parse create).value.2.state.ready
    rw [frames_feed parse [] pktEndOfStream 0 me, value_flush]
    unfold dropped
    dsimp only
    -- the frames of a failed flush are dropped
    cases create me.parserParams with
    | error e => rfl
    | ok parser =>
      dsimp only
      rw [List.append_nil]
  | reset create =>
    have hready : (me.reset create).value.state.ready = [] := by
      rw [state_reset]
      rfl
    show me.state.ready ++ [] = me.state.ready ++ (me.reset create).value.state.ready
    rw [hready]

/-! ### Runs -/

/-- An operation, and what it returns. -/
def next (me : NvdecDecoder) (op : Operation) : NvdecDecoder × List DecodedFrame :=
  ((me.step op).value, me.handed op)

/-- **NVDEC refines its state machine**: over a run of operations the state takes the steps of their
callbacks, in order. -/
theorem state_run (me : NvdecDecoder) (ops : List Operation) :
    (run next me ops).state = run State.step me.state (collect next events me ops) := by
  induction ops generalizing me with
  | nil => rfl
  | cons op ops ih =>
    rw [run_cons, ih, collect, run_append, ← state_step]
    rfl

/-- **No frame is lost or comes twice**: what is displayed over a run is handed out or dropped, each
frame once and in order, but for those that still wait. -/
theorem frames_conserved (me : NvdecDecoder) (ops : List Operation) :
    me.state.ready ++ displayedBy me.state (collect next events me ops)
      = collect next (fun me op => me.handed op ++ me.dropped op) me ops
        ++ (run next me ops).state.ready := by
  induction ops generalizing me with
  | nil => exact List.append_nil _
  | cons op ops ih =>
    -- the events of one call, then those of the rest
    have hstate : run State.step me.state (me.events op) = (next me op).1.state :=
      (state_step me op).symm
    calc me.state.ready ++ displayedBy me.state (me.events op ++ collect next events (next me op).1 ops)
        = me.state.ready ++ displayedBy me.state (me.events op)
          ++ displayedBy (next me op).1.state (collect next events (next me op).1 ops) := by
          rw [displayedBy, collect_append, hstate, ← List.append_assoc]
          rfl
      _ = me.handed op ++ me.dropped op ++ ((next me op).1.state.ready
          ++ displayedBy (next me op).1.state (collect next events (next me op).1 ops)) := by
          rw [frames_step, List.append_assoc]
          rfl
      _ = _ := by
          rw [ih, collect, run_cons, List.append_assoc (me.handed op ++ me.dropped op)]

end NvdecDecoder

end Nvdec

end NoshareCover
