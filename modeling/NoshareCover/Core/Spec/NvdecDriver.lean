import NoshareCover.Core.Video.NvdecDriver

/-!
# What NVDEC may ask of the driver

`Nvdec.Driver.takes` is the contract of the driver: what has to be current or alive for a call, and
what may be called while a picture is mapped.  It is kept over the whole life of a decoder, whatever
the driver answers and in whatever order the parser calls back, and at the end nothing is left but
decoders for which the context was refused (`Nvdec.life_keeps_contract`).
-/

namespace NoshareCover

namespace Nvdec

open Calls

/-! ### The contract -/

/-- The parser that is alive, and whether the last one that was asked for was refused. -/
structure Parser where
  alive : Option ℕ
  refused : Bool

/-- The driver's side: how deep the context is pushed, what is alive, and which picture is mapped from
which decoder. -/
structure Driver where
  context : Bool
  depth : ℕ
  /-- Whether the last push outside of the callbacks was refused. -/
  refused : Bool
  lock : Option ℕ
  parser : Parser
  decoder : Option ℕ
  /-- The decoders that were left alone because a push in a callback was refused, one for each. -/
  lost : List ℕ
  mapped : Option (Option ℕ × ℕ)

namespace Driver

def idle : Driver :=
  { context := false, depth := 0, refused := false, lock := none,
    parser := { alive := none, refused := false }, decoder := none, lost := [], mapped := none }

/-- The decoder was destroyed, or the context was refused for that. -/
def Gone (d : Driver) : Prop := d.decoder = none ∨ d.refused = true

instance (d : Driver) : Decidable d.Gone := inferInstanceAs (Decidable (_ ∨ _))

/-- All was taken back, but not the decoders for which the context was refused. -/
structure Released (d : Driver) : Prop where
  context : d.context = false
  depth : d.depth = 0
  lock : d.lock = none
  parser : d.parser.alive = none
  mapped : d.mapped = none
  gone : d.Gone

/-- A mapped picture is copied, from its start or behind it, and unmapped from its decoder; nothing else
is called before that. -/
def takesMapped (d : Driver) (decoder : Option ℕ) (dptr : ℕ) : Call → Option Driver
  | .memcpy2D src => if dptr ≤ src then some d else none
  | .unmapVideoFrame owner src =>
    if owner = decoder ∧ src = dptr then some { d with mapped := none } else none
  | _ => none

/-- The calls that are taken while no picture is mapped. -/
def takesUnmapped (d : Driver) : Call → Option Driver
  | .ctxCreate ok =>
    if d.context = false then
      some (if ok then { d with context := true, depth := d.depth + 1 } else d)
    else none
  | .ctxPush true =>
    if d.context then some { d with depth := d.depth + 1, refused := false } else none
  | .ctxPush false =>
    if d.context = false then none
    else if d.depth = 0 then some { d with refused := true }
    -- a callback makes the context current to destroy the decoder
    else d.decoder.map fun dec => { d with decoder := none, lost := dec :: d.lost }
  | .ctxPop => if 0 < d.depth then some { d with depth := d.depth - 1 } else none
  | .ctxDestroy =>
    if d.context ∧ d.depth = 0 ∧ d.lock = none ∧ d.parser.alive = none ∧ d.Gone then
      some { d with context := false }
    else none
  | .getDecoderCaps => if 0 < d.depth then some d else none
  | .ctxLockCreate lock =>
    if d.context ∧ d.lock = none then some { d with lock } else none
  | .ctxLockDestroy lock =>
    -- the decoder uses the lock, and the parser calls back to it
    if d.lock = some lock ∧ d.parser.alive = none ∧ d.Gone then some { d with lock := none }
    else none
  | .createVideoParser _ parser =>
    if d.context ∧ d.parser.alive = none then
      some { d with parser := { alive := parser, refused := parser.isNone } }
    else none
  -- there is a parser, unless the driver has refused to make one
  | .parseVideoData parser _ =>
    if 0 < d.depth ∧ d.parser.alive = parser ∧ (parser = none → d.parser.refused) then some d
    else none
  | .destroyVideoParser parser =>
    if d.parser.alive = some parser then
      some { d with parser := { d.parser with alive := none } }
    else none
  | .createDecoder _ decoder =>
    if 0 < d.depth ∧ d.decoder = none then some { d with decoder } else none
  | .decodePicture decoder => if 0 < d.depth ∧ d.decoder = some decoder then some d else none
  -- from the decoder that is alive, or from none where there is none
  | .mapVideoFrame decoder dptr =>
    if 0 < d.depth ∧ d.decoder = decoder then some { d with mapped := dptr.map (decoder, ·) }
    else none
  | .memcpy2D _ => none
  | .unmapVideoFrame _ _ => none
  | .destroyDecoder decoder =>
    if 0 < d.depth ∧ d.decoder = some decoder then some { d with decoder := none } else none

def takes (d : Driver) (c : Call) : Option Driver :=
  match d.mapped with
  | none => d.takesUnmapped c
  | some (decoder, dptr) => d.takesMapped decoder dptr c

/-! ### What a decoder holds -/

/-- With the context pushed `depth` times, this is alive, and no picture is mapped. -/
structure Holds (depth : ℕ) (lock : Option ℕ) (parser : Parser) (decoder : Option ℕ) (d : Driver) :
    Prop where
  context : d.context = true
  depth : d.depth = depth
  lock : d.lock = lock
  parser : d.parser = parser
  decoder : d.decoder = decoder
  mapped : d.mapped = none

variable {depth : ℕ} {lock decoder : Option ℕ} {parser : Parser} {d : Driver}

namespace Holds

theorem takes_eq (h : Holds depth lock parser decoder d) (c : Call) :
    d.takes c = d.takesUnmapped c := by
  rw [takes, h.mapped]

theorem current (h : Holds (depth + 1) lock parser decoder d) : 0 < d.depth := by
  rw [h.depth]
  exact Nat.succ_pos depth

theorem push (h : Holds depth lock parser decoder d) :
    ∃ d', d.takes (.ctxPush true) = some d' ∧ Holds (depth + 1) lock parser decoder d' :=
  ⟨_, (h.takes_eq _).trans (if_pos h.context),
    h.context, congrArg (· + 1) h.depth, h.lock, h.parser, h.decoder, h.mapped⟩

theorem pop (h : Holds (depth + 1) lock parser decoder d) :
    ∃ d', d.takes .ctxPop = some d' ∧ Holds depth lock parser decoder d' :=
  ⟨_, (h.takes_eq _).trans (if_pos h.current),
    h.context, Nat.sub_eq_of_eq_add h.depth, h.lock, h.parser, h.decoder, h.mapped⟩

/-- Outside of the callbacks a refused push leaves all as it was. -/
theorem refuse (h : Holds 0 lock parser decoder d) :
    ∃ d', d.takes (.ctxPush false) = some d' ∧ Holds 0 lock parser decoder d' ∧ d'.refused = true := by
  refine ⟨{ d with refused := true }, ?_, ⟨h.context, h.depth, h.lock, h.parser, h.decoder, h.mapped⟩,
    rfl⟩
  rw [h.takes_eq, takesUnmapped, if_neg (by rw [h.context]; exact Bool.noConfusion), if_pos h.depth]

/-- In a callback the decoder is lost. -/
theorem lose {dec : ℕ} (h : Holds (depth + 1) lock parser (some dec) d) :
    ∃ d', d.takes (.ctxPush false) = some d' ∧ Holds (depth + 1) lock parser none d' := by
  refine ⟨{ d with decoder := none, lost := dec :: d.lost }, ?_,
    ⟨h.context, h.depth, h.lock, h.parser, rfl, h.mapped⟩⟩
  rw [h.takes_eq, takesUnmapped, if_neg (by rw [h.context]; exact Bool.noConfusion),
    if_neg h.current.ne', h.decoder, Option.map_some]

theorem createDecoder (h : Holds (depth + 1) lock parser none d) (info : DecodeCreateInfo)
    (created : Option ℕ) :
    ∃ d', d.takes (.createDecoder info created) = some d' ∧
      Holds (depth + 1) lock parser created d' :=
  ⟨_, (h.takes_eq _).trans (if_pos ⟨h.current, h.decoder⟩),
    h.context, h.depth, h.lock, h.parser, rfl, h.mapped⟩

theorem destroyDecoder {dec : ℕ} (h : Holds (depth + 1) lock parser (some dec) d) :
    ∃ d', d.takes (.destroyDecoder dec) = some d' ∧ Holds (depth + 1) lock parser none d' :=
  ⟨_, (h.takes_eq _).trans (if_pos ⟨h.current, h.decoder⟩),
    h.context, h.depth, h.lock, h.parser, rfl, h.mapped⟩

/-- Pictures are asked for from the decoder that is held. -/
theorem map (h : Holds (depth + 1) lock parser decoder d) (dptr : Option ℕ) :
    d.takes (.mapVideoFrame decoder dptr) = some { d with mapped := dptr.map (decoder, ·) } :=
  (h.takes_eq _).trans (if_pos ⟨h.current, h.decoder⟩)

end Holds

end Driver

open Driver

variable {depth : ℕ} {lock : Option ℕ} {parser : Parser}

/-! ### The state behind the callbacks -/

/-- Inside, the context is pushed once more. -/
theorem triple_withCtx {α β : Type} {push : Except String Unit}
    {f : β → Calls Call (Except String α × β)} {s : β} {decoder : Option ℕ} {R : β → Option ℕ}
    {Q : β → Driver → Prop}
    (hf : Triple takes (Holds (depth + 1) lock parser decoder) (f s)
      fun r => Holds (depth + 1) lock parser (R r.2))
    (hdone : ∀ s d, Holds depth lock parser (R s) d → Q s d)
    (hrefused : ∀ d, Holds depth lock parser decoder d →
      ∃ d', d.takes (.ctxPush false) = some d' ∧ Q s d') :
    Triple takes (Holds depth lock parser decoder) (withCtx push f s) fun r => Q r.2 := by
  -- a refused push runs nothing and pops nothing
  cases push with
  | error e => exact Triple.bind (R := fun _ => Q s) (.call hrefused) fun _ => .pure fun d hd => hd
  | ok =>
    -- pushed once, the rest, and popped
    refine Triple.bind (R := fun _ => Holds (depth + 1) lock parser decoder)
      (.call fun _ hd => hd.push) fun _ => hf.bind fun r => ?_
    exact Triple.bind (R := fun _ => Holds depth lock parser (R r.2)) (.call fun _ hd => hd.pop)
      fun _ => .pure fun _ hd => hdone r.2 _ hd

/-- What is done with the context to destroy the decoder. -/
theorem triple_destroyDecoder (dec : ℕ) (s : State) :
    Triple takes (Holds (depth + 1) lock parser (some dec))
      (do
        call (.destroyDecoder dec)
        return ((.ok (), s) : Except String Unit × State))
      fun _ => Holds (depth + 1) lock parser none :=
  Triple.bind (R := fun _ => Holds (depth + 1) lock parser none) (.call fun _ hd => hd.destroyDecoder)
    fun _ => .pure fun _ hd => hd

/-- The decoder is destroyed, or `Q` holds of the driver that has refused the context for it. -/
theorem triple_dropDecoder {Q : Driver → Prop} (push : Except String Unit) (s : State)
    (hdone : ∀ d, Holds depth lock parser none d → Q d)
    (hrefused : ∀ dec d, Holds depth lock parser (some dec) d →
      ∃ d', d.takes (.ctxPush false) = some d' ∧ Q d') :
    Triple takes (Holds depth lock parser s.decoder) (s.dropDecoder push)
      fun s' d => s'.decoder = none ∧ Q d := by
  cases hdec : s.decoder with
  | none =>
    rw [State.dropDecoder, hdec]
    exact .pure fun d hd => ⟨hdec, hdone d hd⟩
  | some dec =>
    rw [State.dropDecoder, hdec]
    exact (triple_withCtx (R := fun _ => none) (Q := fun _ => Q) (triple_destroyDecoder dec s)
      (fun _ => hdone) (hrefused dec)).bind fun r => .pure fun d hd => ⟨rfl, hd⟩

section Current

/-! The parser calls back while the context is current. -/

theorem triple_onSequence (push : Except String Unit) (create : Create) (f : VideoFormat)
    (s : State) :
    Triple takes (Holds (depth + 1) lock parser s.decoder) (s.onSequence push create f)
      fun r => Holds (depth + 1) lock parser r.2.decoder := by
  unfold State.onSequence
  split_ifs
  · exact .pure fun d hd => hd
  · exact .pure fun d hd => hd
  · -- the old decoder is gone before the new one is made, be it destroyed or lost
    refine (triple_dropDecoder push s (fun d hd => hd) fun dec d hd => hd.lose).bind fun s' => ?_
    -- the answer says whether the new one is there
    have hcreate : ∀ created, Triple takes
        (fun d => s'.decoder = none ∧ Holds (depth + 1) lock parser none d)
        (call (.createDecoder f.createInfo created))
        fun _ d => s'.decoder = none ∧ Holds (depth + 1) lock parser created d := by
      refine fun created => .call fun d ⟨hnone, hd⟩ => ?_
      obtain ⟨d', htake, hd'⟩ := hd.createDecoder f.createInfo created
      exact ⟨d', htake, hnone, hd'⟩
    cases create f.createInfo with
    | error e =>
      refine (hcreate none).bind fun _ => .pure fun d ⟨hnone, hd⟩ => ?_
      rw [hnone]
      exact hd
    | ok dec => exact (hcreate (some dec)).bind fun _ => .pure fun d ⟨_, hd⟩ => hd

/-- A picture is mapped. -/
def Mapping (depth : ℕ) (lock : Option ℕ) (parser : Parser) (decoder : Option ℕ) (dptr : ℕ)
    (d : Driver) : Prop :=
  ∃ d₀, Holds (depth + 1) lock parser decoder d₀ ∧ d = { d₀ with mapped := some (decoder, dptr) }

theorem triple_copies (s : State) (m : Mapped) :
    Triple takes (Mapping depth lock parser s.decoder m.dptr) (s.copies m)
      fun _ => Mapping depth lock parser s.decoder m.dptr := by
  have hcopy : ∀ src, m.dptr ≤ src → Triple takes (Mapping depth lock parser s.decoder m.dptr)
      (call (.memcpy2D src)) fun _ => Mapping depth lock parser s.decoder m.dptr := by
    refine fun src hsrc => .call fun d hd => ⟨d, ?_, hd⟩
    obtain ⟨d₀, hd₀, rfl⟩ := hd
    exact if_pos hsrc
  unfold State.copies
  dsimp only
  refine (hcopy _ le_rfl).bind fun _ => ?_
  split
  · exact .pure fun d hd => hd
  · -- the chroma rows lie behind the luma rows
    exact (hcopy _ (Nat.le_add_right ..)).bind fun _ => .pure fun d hd => hd

theorem convert_decoder (info : ParserDispInfo) (y uv : List UInt8) (s : State) :
    (s.convert info y uv).2.decoder = s.decoder := by
  unfold State.convert
  split
  · rfl
  · dsimp only
    split <;> rfl

/-- A picture is unmapped from the decoder it was mapped from. -/
theorem triple_onDisplay (mapFrame : MapFrame) (info : ParserDispInfo) (s : State) :
    Triple takes (Holds (depth + 1) lock parser s.decoder) (s.onDisplay mapFrame info)
      fun r => Holds (depth + 1) lock parser r.2.decoder := by
  unfold State.onDisplay
  split
  · refine Triple.bind (R := fun _ => Holds (depth + 1) lock parser s.decoder)
      (.call fun d hd => ⟨_, hd.map none, ?_⟩) fun _ => .pure fun d hd => hd
    exact ⟨hd.context, hd.depth, hd.lock, hd.parser, hd.decoder, rfl⟩
  · rename_i m _
    refine Triple.bind (R := fun _ => Mapping depth lock parser s.decoder m.dptr)
      (.call fun d hd => ⟨_, hd.map (some m.dptr), d, hd, rfl⟩) fun _ =>
        (triple_copies s m).bind fun res => ?_
    · refine Triple.bind (R := fun _ => Holds (depth + 1) lock parser s.decoder)
        (.call fun d hd => ?_) fun _ => ?_
      -- also when a copy fails
      · obtain ⟨d₀, hd₀, rfl⟩ := hd
        exact ⟨_, if_pos ⟨rfl, rfl⟩,
          hd₀.context, hd₀.depth, hd₀.lock, hd₀.parser, hd₀.decoder, rfl⟩
      · split
        · exact .pure fun d hd => hd
        · refine .pure fun d hd => ?_
          rw [convert_decoder]
          exact hd

theorem stored_decoder {α : Type} (r : Except String α × State) : (stored r).decoder = r.2.decoder := by
  obtain ⟨_ | _, s⟩ := r <;> rfl

theorem triple_callback (s : State) (c : Callback) :
    Triple takes (Holds (depth + 1) lock parser s.decoder) (c.run s)
      fun s' => Holds (depth + 1) lock parser s'.decoder := by
  cases c with
  | onSequence push create f =>
    refine (triple_onSequence push create f s).bind fun r => .pure fun d hd => ?_
    rw [stored_decoder]
    exact hd
  | onDecode picture =>
    -- without a decoder nothing is called
    cases hdec : s.decoder with
    | none =>
      rw [Callback.run, hdec]
      refine .pure fun d hd => ?_
      rw [hdec]
      exact hd
    | some dec =>
      rw [Callback.run, hdec]
      refine Triple.bind (R := fun _ => Holds (depth + 1) lock parser (some dec))
        (.call fun d hd => ?_) fun _ => .pure fun d hd => ?_
      · exact ⟨d, (hd.takes_eq _).trans (if_pos ⟨hd.current, hd.decoder⟩), hd⟩
      · rw [stored_decoder, hdec]
        exact hd
  | onDisplay mapFrame info =>
    refine (triple_onDisplay mapFrame info s).bind fun r => .pure fun d hd => ?_
    rw [stored_decoder]
    exact hd
  | onEnd => exact .pure fun d hd => hd

end Current

/-! ### The decoder -/

namespace NvdecDecoder

/-- What a decoder holds between two operations; it has no parser just when one was refused. -/
def Kept (me : NvdecDecoder) : Driver → Prop :=
  Holds 0 me.lock { alive := me.parser, refused := me.parser.isNone } me.state.decoder

theorem triple_newParser (create : CreateParser) {me : NvdecDecoder} (hparser : me.parser = none)
    (refused : Bool) :
    Triple takes (Holds 0 me.lock { alive := none, refused } me.state.decoder)
      (me.newParser create) fun r => r.2.Kept := by
  unfold newParser
  -- made or not, the parser is what the driver answered
  have hcreate : ∀ created,
      Triple takes (Holds 0 me.lock { alive := none, refused } me.state.decoder)
        (call (.createVideoParser me.parserParams created))
        fun _ => Kept { me with parser := created } := by
    refine fun created => .call fun d hd => ?_
    have halive : d.parser.alive = none := by rw [hd.parser]
    exact ⟨_, (hd.takes_eq _).trans (if_pos ⟨hd.context, halive⟩),
      hd.context, hd.depth, hd.lock, rfl, hd.decoder, hd.mapped⟩
  cases create me.parserParams with
  | error e =>
    refine (hcreate none).bind fun _ => .pure fun d hd => ?_
    rw [← hparser] at hd
    exact hd
  | ok parser => exact (hcreate (some parser)).bind fun _ => .pure fun d hd => hd

theorem triple_dropParser (me : NvdecDecoder) :
    Triple takes me.Kept me.dropParser fun me' d => me' = { me with parser := none } ∧
      Holds 0 me.lock { alive := none, refused := me.parser.isNone } me.state.decoder d := by
  unfold dropParser
  split
  -- there is none to destroy
  · rename_i hparser
    refine .pure fun d hd => ⟨?_, ?_⟩
    · rw [← hparser]
    · rw [Kept, hparser] at hd
      rw [hparser]
      exact hd
  -- the parser is destroyed outside of the push
  · rename_i parser hparser
    refine Triple.bind (R := fun _ => Holds 0 me.lock { alive := none, refused := me.parser.isNone }
      me.state.decoder) (.call fun d hd => ?_) fun _ => .pure fun d hd => ⟨rfl, hd⟩
    have halive : d.parser.alive = some parser := by rw [hd.parser, hparser]
    refine ⟨_, (hd.takes_eq _).trans (if_pos halive),
      hd.context, hd.depth, hd.lock, ?_, hd.decoder, hd.mapped⟩
    rw [hd.parser]

/-- A null parser is fed only where one was refused. -/
theorem takes_parse {me : NvdecDecoder} {d : Driver} {pkt : SourceDataPacket}
    (hd : Holds 1 me.lock { alive := me.parser, refused := me.parser.isNone } me.state.decoder d) :
    takes d (.parseVideoData me.parser pkt) = some d := by
  refine (hd.takes_eq _).trans (if_pos ⟨hd.current, by rw [hd.parser], fun hnone => ?_⟩)
  rw [hd.parser, hnone]
  rfl

theorem triple_feed (parse : Parse) (data : List UInt8) (flags pts : ℕ) (me : NvdecDecoder) :
    Triple takes me.Kept (me.feed parse data flags pts) fun r => r.2.Kept := by
  -- while the context is pushed
  let Inside : State → Driver → Prop := fun state =>
    Holds 1 me.lock { alive := me.parser, refused := me.parser.isNone } state.decoder
  -- callbacks run inside of the parser, on the state that it has
  have hcallbacks : ∀ state, Triple takes (Inside state)
      (parse.callbacks.foldlM Callback.run state) Inside :=
    .foldlM fun state c _ => triple_callback state c
  have hparse : ∀ pkt, Triple takes (Inside me.state) (call (.parseVideoData me.parser pkt))
      fun _ => Inside me.state := fun pkt => .call fun d hd => ⟨d, takes_parse hd, hd⟩
  unfold feed
  refine Triple.bind (triple_withCtx (R := State.decoder)
    (Q := fun state => Kept { me with state })
    ((hparse _).bind fun _ => (hcallbacks me.state).bind fun _ => .pure fun d hd => hd)
    (fun _ _ hd => hd) fun d hd => ?_) fun r => ?_
  · obtain ⟨d', htake, hd', -⟩ := hd.refuse
    exact ⟨d', htake, hd'⟩
  -- what the caller gets changes nothing that the driver holds
  obtain ⟨r, state⟩ := r
  refine .pure fun d hd => ?_
  unfold handOut
  split
  all_goals exact hd

theorem triple_decode (parse : Parse) (packet : Packet) (me : NvdecDecoder) :
    Triple takes me.Kept (me.decode parse packet) fun r => r.2.Kept := by
  unfold decode
  split_ifs
  · exact .pure fun d hd => hd
  · exact triple_feed parse packet.data pktTimestamp packet.pts me

theorem triple_flush (parse : Parse) (create : CreateParser) (me : NvdecDecoder) :
    Triple takes me.Kept (me.flush parse create) fun r => r.2.Kept := by
  refine (triple_feed parse [] pktEndOfStream 0 me).bind fun r => ?_
  refine (triple_dropParser r.2).bind fun me' => .known fun hme' => ?_
  subst hme'
  have hnew : Triple takes _ (newParser create { r.2 with parser := none }) fun r => r.2.Kept :=
    triple_newParser create rfl r.2.parser.isNone
  refine Triple.bind hnew fun r' => ?_
  obtain ⟨r' | _, me''⟩ := r'
  · exact .pure fun d hd => hd
  · exact .pure fun d hd => hd

theorem triple_reset (create : CreateParser) (me : NvdecDecoder) :
    Triple takes me.Kept (me.reset create) Kept := by
  refine (triple_dropParser me).bind fun me' => .known fun hme' => ?_
  subst hme'
  let me' : NvdecDecoder :=
    { me with parser := none, state := { me.state with ready := [], error := none } }
  have hnew : Triple takes _ (me'.newParser create) fun r => r.2.Kept :=
    triple_newParser create rfl me.parser.isNone
  refine Triple.bind hnew fun r => ?_
  obtain ⟨e | _, me''⟩ := r
  · exact .pure fun d hd => hd
  · exact .pure fun d hd => hd

theorem triple_step (me : NvdecDecoder) (op : Operation) : Triple takes me.Kept (me.step op) Kept := by
  cases op with
  | decode parse packet => exact (triple_decode parse packet me).bind fun _ => .pure fun d hd => hd
  | flush parse create => exact (triple_flush parse create me).bind fun _ => .pure fun d hd => hd
  | reset create => exact triple_reset create me

/-! ### The end -/

/-- What is alive once the decoder has been dropped for good; it may be there where the context was
refused. -/
def Ending (lock : Option ℕ) (parser : Parser) (d : Driver) : Prop :=
  ∃ decoder, Holds 0 lock parser decoder d ∧ d.Gone

theorem triple_dropLast (push : Except String Unit) (s : State) :
    Triple takes (Holds 0 lock parser s.decoder) (s.dropDecoder push)
      fun s' d => s'.decoder = none ∧ Ending lock parser d := by
  refine triple_dropDecoder push s (fun d hd => ⟨none, hd, .inl hd.decoder⟩) fun dec d hd => ?_
  obtain ⟨d', htake, hd', hrefused⟩ := hd.refuse
  exact ⟨d', htake, some dec, hd', .inr hrefused⟩

theorem triple_destroyLock (lock : Option ℕ) (hparser : parser.alive = none) :
    Triple takes (Ending lock parser) (destroyLock lock) fun _ => Ending none parser := by
  cases lock with
  | none => exact .pure fun d hd => hd
  | some lock =>
    refine .call fun d hd => ?_
    obtain ⟨decoder, hd, hgone⟩ := hd
    have halive : d.parser.alive = none := by rw [hd.parser, hparser]
    exact ⟨_, (hd.takes_eq _).trans (if_pos ⟨hd.lock, halive, hgone⟩), decoder,
      ⟨hd.context, hd.depth, rfl, hd.parser, hd.decoder, hd.mapped⟩, hgone⟩

theorem triple_destroy (push : Except String Unit) (lock : Option ℕ) (refused : Bool) (s : State) :
    Triple takes (Holds 0 lock { alive := none, refused } s.decoder) (s.destroy push lock)
      fun _ d => d.Released := by
  refine (triple_dropLast push s).bind fun s' => .known fun _ => ?_
  refine (triple_destroyLock lock rfl).bind fun _ => .call fun d hd => ?_
  obtain ⟨decoder, hd, hgone⟩ := hd
  have halive : d.parser.alive = none := by rw [hd.parser]
  exact ⟨_, (hd.takes_eq _).trans (if_pos ⟨hd.context, hd.depth, hd.lock, halive, hgone⟩),
    rfl, hd.depth, hd.lock, halive, hd.mapped, hgone⟩

theorem triple_drop (push : Except String Unit) (me : NvdecDecoder) :
    Triple takes me.Kept (me.drop push) fun _ d => d.Released := by
  refine (triple_dropParser me).bind fun me' => .known fun hme' => ?_
  subst hme'
  exact triple_destroy push me.lock me.parser.isNone me.state

/-! ### The beginning -/

/-- A decoder holds what it has made; without one all is released. -/
def Made : Except String NvdecDecoder → Driver → Prop
  | .ok me => me.Kept
  | .error _ => Released

theorem released_idle : idle.Released := ⟨rfl, rfl, rfl, rfl, rfl, .inl rfl⟩

theorem triple_caps (push : Except String Unit) (caps : Except String Bool) :
    Triple takes (Holds 0 none idle.parser none)
      (withCtx push (fun state => do
        call .getDecoderCaps
        return (caps, state)) State.init) fun r => Holds 0 none idle.parser r.2.decoder := by
  refine triple_withCtx (R := State.decoder)
    (Q := fun state => Holds 0 none idle.parser state.decoder) ?_ (fun _ _ hd => hd) fun d hd => ?_
  · refine Triple.bind (R := fun _ => Holds 1 none idle.parser none) (.call fun d hd => ?_) fun _ =>
      .pure fun d hd => hd
    exact ⟨d, (hd.takes_eq _).trans (if_pos hd.current), hd⟩
  · obtain ⟨d', htake, hd', -⟩ := hd.refuse
    exact ⟨d', htake, hd'⟩

theorem triple_fail (push : Except String Unit) (state : State) (e : String) :
    Triple takes (Holds 0 none idle.parser state.decoder)
      (do state.destroy push none; return .error e) Made :=
  (triple_destroy push none false state).bind fun _ => .pure fun _ hd => hd

/-- With the lock comes a parser. -/
theorem triple_lock (create : CreateParser) (push : Except String Unit) (state : State) (lock : ℕ)
    (codec : ℤ) :
    Triple takes (Holds 0 none idle.parser state.decoder)
      (do
        call (.ctxLockCreate (some lock))
        let (r, me) ← newParser create { state, lock := some lock, parser := none, codec }
        match r with
        | .ok () => return .ok me
        | .error e =>
          me.drop push
          return .error e) Made := by
  -- the lock is there before the parser, which may not be made
  let me : NvdecDecoder := { state, lock := some lock, parser := none, codec }
  have hnew : Triple takes _ (me.newParser create) fun r => r.2.Kept :=
    triple_newParser create rfl false
  refine Triple.bind (R := fun _ => Holds 0 (some lock) idle.parser state.decoder)
    (.call fun d hd => ?_) fun _ => hnew.bind fun r => ?_
  · exact ⟨_, (hd.takes_eq _).trans (if_pos ⟨hd.context, hd.lock⟩),
      hd.context, hd.depth, rfl, hd.parser, hd.decoder, hd.mapped⟩
  · obtain ⟨e | _, me'⟩ := r
    -- without a parser the decoder is dropped again
    · exact (triple_drop push me').bind fun _ => .pure fun d hd => hd
    · exact .pure fun d hd => hd

theorem triple_create (codec : ℤ) (debug : String) (setup : Setup) :
    Triple takes (· = idle) (create codec debug setup) Made := by
  unfold create
  -- each step that fails gives back what was made before
  split
  · refine Triple.bind (R := fun _ => Released) (.call fun d hd => ?_) fun _ => .pure fun d hd => hd
    subst hd
    exact ⟨_, rfl, released_idle⟩
  · refine Triple.bind (R := fun _ d => d = { idle with context := true, depth := 1 })
      (.call fun d hd => ⟨_, by rw [hd]; rfl, rfl⟩) fun _ => ?_
    refine Triple.bind (R := fun _ => Holds 0 none idle.parser none) (.call fun d hd => ?_) fun _ => ?_
    · subst hd
      exact ⟨_, rfl, rfl, rfl, rfl, rfl, rfl, rfl⟩
    refine (triple_caps setup.push setup.caps).bind fun r => ?_
    obtain ⟨supported, state⟩ := r
    dsimp only
    split
    · exact triple_fail setup.pushDrop state _
    · exact triple_fail setup.pushDrop state _
    -- and without a lock too
    · refine Triple.bind (R := fun _ => Holds 0 none idle.parser state.decoder) (.call fun d hd => ?_)
        fun _ => triple_fail setup.pushDrop state _
      exact ⟨_, (hd.takes_eq _).trans (if_pos ⟨hd.context, hd.lock⟩),
        hd.context, hd.depth, rfl, hd.parser, hd.decoder, hd.mapped⟩
    · exact triple_lock setup.createParser setup.pushDrop state _ codec

theorem triple_new (codec : Codec) (debug : String) (setup : Setup) :
    Triple takes (· = idle) (new codec debug setup) Made := by
  unfold new
  split
  · exact .pure fun d hd => hd ▸ released_idle
  · exact .pure fun d hd => hd ▸ released_idle
  · exact .pure fun d hd => hd ▸ released_idle
  · exact triple_create _ debug setup

end NvdecDecoder

end Nvdec

end NoshareCover
