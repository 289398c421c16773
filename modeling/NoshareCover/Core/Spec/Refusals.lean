import NoshareCover.Core.Spec.Pipeline
import NoshareCover.Core.Spec.SpsLevel
import NoshareCover.Core.Video.H264Decoder
import NoshareCover.Lib.Run

/-!
# Videos that openh264 refuses

The decoder gives up on a stream exactly when openh264 has refused 90 packets in a row
(`H264.H264Decoder.error_iff`).  A pipeline that plays such a video in a loop says so before it runs
out of rounds (`Pipeline.nextFrame_refused`).
-/

namespace NoshareCover

open Machine

/-! ### Calls of a decoder -/

/-- What a pipeline asks of its decoder. -/
inductive DecoderCall where
  | decode (packet : Packet)
  | flush
  | reset

/-- A decoder as a machine; a reset returns nothing. -/
def DecoderCall.step {κ : Type*} [Decoder κ] (c : κ) :
    DecoderCall → κ × PipeResult (List DecodedFrame)
  | decode packet => ((Decoder.decode c packet).2, (Decoder.decode c packet).1)
  | flush => ((Decoder.flush c).2, (Decoder.flush c).1)
  | reset => (Decoder.reset c, .ok [])

namespace H264

/-! ### Packets in a row -/

/-- How many `true` there are at the end. -/
def streak (bs : List Bool) : ℕ := bs.foldl (fun n b => if b then n + 1 else 0) 0

theorem streak_concat (bs : List Bool) (b : Bool) :
    streak (bs ++ [b]) = if b then streak bs + 1 else 0 := by
  rw [streak, List.foldl_append]
  rfl

theorem le_streak_iff (n : ℕ) (bs : List Bool) :
    n ≤ streak bs ↔ List.replicate n true <:+ bs := by
  induction bs using List.reverseRecOn generalizing n with
  | nil =>
    rw [List.suffix_nil, List.replicate_eq_nil_iff]
    exact Nat.le_zero
  -- a refusal makes the suffix longer, anything else ends it
  | append_singleton bs b ih =>
    cases n with
    | zero => exact iff_of_true (Nat.zero_le _) List.nil_suffix
    | succ n =>
      rw [streak_concat, List.replicate_succ', List.suffix_concat_iff]
      cases b with
      | true =>
        rw [if_pos rfl, Nat.succ_le_succ_iff, ih]
        constructor
        · intro h
          exact .inr ⟨_, rfl, h⟩
        · rintro (h | ⟨t, heq, h⟩)
          · exact absurd h (List.append_ne_nil_of_right_ne_nil _ (List.cons_ne_nil _ _))
          · rwa [List.append_cancel_right heq]
      | false =>
        refine iff_of_false (Nat.not_succ_le_zero n) ?_
        rintro (h | ⟨t, heq, -⟩)
        · exact absurd h (List.append_ne_nil_of_right_ne_nil _ (List.cons_ne_nil _ _))
        · obtain ⟨-, hlast⟩ := List.append_inj' heq rfl
          cases hlast

namespace H264Decoder

variable {ℓ : Type*} [Openh264 ℓ]

/-- openh264 gets the packet. -/
def Fits (packet : Packet) : Prop := packet.data.length < 2 ^ 31

instance (packet : Packet) : Decidable (Fits packet) := inferInstanceAs (Decidable (_ < _))

/-- The answer to a packet is an error without a picture. -/
def refuses (me : H264Decoder ℓ) (packet : Packet) : Bool :=
  let (state, out, _) :=
    Openh264.decodeFrameNoDelay me.dec (patched packet) (min (packet.pts / 1000) (2 ^ 64 - 1))
  (convert out).isNone && state ≠ 0

/-- Whether openh264 refuses the packet, if it gets one. -/
def verdict (me : H264Decoder ℓ) : DecoderCall → List Bool
  | .decode packet => if Fits packet then [me.refuses packet] else []
  | .flush => []
  | .reset => []

theorem length_clampFrom (data : List UInt8) (i : ℕ) (out : Option (List UInt8))
    (h : (out.getD data).length = data.length) :
    ((clampFrom data i out).getD data).length = data.length := by
  fun_induction clampFrom data i out with
  | case1 i out hi hstart nal ih =>
    apply ih
    split_ifs
    · rw [Option.getD_some, List.length_set, h]
    · exact h
  | case2 i out hi hstart ih => exact ih h
  | case3 i out hi => exact h

theorem length_patched (packet : Packet) : (patched packet).length = packet.data.length := by
  unfold patched
  split_ifs
  · exact length_clampFrom packet.data 0 none rfl
  · rfl

theorem refuses_iff {me : H264Decoder ℓ} {packet : Packet} {state : BitVec 32} {out : Output}
    {dec : ℓ}
    (h : Openh264.decodeFrameNoDelay me.dec (patched packet) (min (packet.pts / 1000) (2 ^ 64 - 1))
      = (state, out, dec)) :
    me.refuses packet = true ↔ (convert out).toList.isEmpty = true ∧ state ≠ 0 := by
  unfold refuses
  rw [h]
  rcases hconvert : convert out with _ | frame <;> simp [hconvert]

/-- A packet that fits: the count of refusals goes on, or starts again. -/
theorem decode_fits {me : H264Decoder ℓ} {packet : Packet} (h : Fits packet) :
    (me.decode packet).2.refused = (if me.refuses packet then me.refused + 1 else 0)
      ∧ ((∃ state, (me.decode packet).1 = .error (refusalText state))
        ↔ me.refuses packet ∧ maxRefused ≤ me.refused + 1) := by
  -- a packet of this size is handed to the library
  have hlength : ¬ 2 ^ 31 ≤ (patched packet).length := by
    rw [length_patched]
    exact Nat.not_le.2 h
  rcases hanswer : Openh264.decodeFrameNoDelay me.dec (patched packet)
    (min (packet.pts / 1000) (2 ^ 64 - 1)) with ⟨state, out, dec⟩
  unfold decode
  dsimp only
  rw [if_neg hlength, hanswer]
  dsimp only
  -- refused: nothing decoded, and an error
  by_cases hrefused : (convert out).toList.isEmpty = true ∧ state ≠ 0
  · have hyes : me.refuses packet = true := (refuses_iff hanswer).2 hrefused
    rw [if_pos hrefused, hyes, if_pos rfl]
    -- the last refusal that is allowed, or one before
    by_cases hmax : maxRefused ≤ me.refused + 1
    · rw [if_pos hmax]
      exact ⟨rfl, iff_of_true ⟨state, rfl⟩ ⟨rfl, hmax⟩⟩
    · rw [if_neg hmax]
      exact ⟨rfl, iff_of_false (fun ⟨_, h⟩ => by cases h) fun h => hmax h.2⟩
  · have hno : me.refuses packet = false :=
      Bool.eq_false_iff.2 fun h => hrefused ((refuses_iff hanswer).1 h)
    rw [if_neg hrefused, hno]
    exact ⟨rfl, iff_of_false (fun ⟨_, h⟩ => by cases h) fun h => by cases h.1⟩

theorem decode_unfit {me : H264Decoder ℓ} {packet : Packet} (h : ¬ Fits packet) :
    me.decode packet = (.ok [], me) := by
  have hlength : 2 ^ 31 ≤ (patched packet).length := by
    rw [length_patched]
    exact Nat.not_lt.1 h
  exact if_pos hlength

/-- The count of refusals is what the packets so far say. -/
theorem refused_run (dec : ℓ) (calls : List DecoderCall) :
    (run DecoderCall.step (new dec) calls).refused
      = streak (collect DecoderCall.step verdict (new dec) calls) := by
  induction calls using List.reverseRecOn with
  | nil => rfl
  | append_singleton calls call ih =>
    rw [collect_concat, run_concat]
    generalize run DecoderCall.step (new dec) calls = me at ih ⊢
    -- only a packet that fits is counted
    cases call with
    | decode packet =>
      show (me.decode packet).2.refused = streak (_ ++ if Fits packet then _ else _)
      by_cases hfits : Fits packet
      · rw [if_pos hfits, streak_concat, (decode_fits hfits).1, ih]
      · rw [if_neg hfits, List.append_nil, decode_unfit hfits, ih]
    | flush => exact ih.trans (congrArg streak (List.append_nil _).symm)
    | reset => exact ih.trans (congrArg streak (List.append_nil _).symm)

/-- **When the decoder gives up**: on a packet that openh264 refuses, as it has refused the 89
packets before it that it has got.  A flush or a reset in between makes no difference. -/
theorem error_iff (dec : ℓ) (calls : List DecoderCall) (packet : Packet) :
    (∃ state, (Decoder.decode (run DecoderCall.step (new dec) calls) packet).1
        = .error (refusalText state))
      ↔ Fits packet ∧ List.replicate 90 true
        <:+ collect DecoderCall.step verdict (new dec) (calls ++ [.decode packet]) := by
  have hcount := refused_run dec calls
  rw [collect_concat]
  generalize run DecoderCall.step (new dec) calls = me at hcount ⊢
  show (∃ state, (me.decode packet).1 = _) ↔ Fits packet ∧ _ <:+ _ ++ if Fits packet then _ else _
  -- the packet of this call decides
  by_cases hfits : Fits packet
  · rw [if_pos hfits, ← le_streak_iff, streak_concat, (decode_fits hfits).2, ← hcount]
    cases me.refuses packet with
    | true => exact ⟨fun h => ⟨hfits, h.2⟩, fun h => ⟨rfl, h.2⟩⟩
    | false => exact iff_of_false (fun h => by cases h.1) fun h => Nat.not_succ_le_zero _ h.2
  · rw [decode_unfit hfits]
    exact iff_of_false (fun ⟨_, h⟩ => by cases h) fun h => hfits h.1

end H264Decoder

/-- openh264 refuses whatever it gets, as long as it is in such a state. -/
structure Refusing {ℓ : Type*} [Openh264 ℓ] (I : ℓ → Prop) : Prop where
  decode : ∀ dec data pts, I dec → (Openh264.decodeFrameNoDelay dec data pts).1 ≠ 0
    ∧ convert (Openh264.decodeFrameNoDelay dec data pts).2.1 = none
    ∧ I (Openh264.decodeFrameNoDelay dec data pts).2.2
  flush : ∀ dec, I dec → convert (Openh264.flushFrame dec).1 = none ∧ I (Openh264.flushFrame dec).2

end H264

/-- The demuxer reads the file without an error, over and over, and there is a packet in it. -/
structure Demuxer.Playing {δ : Type*} [Demuxer δ] (J : δ → Prop) : Prop where
  next : ∀ d, J d → ∃ packet, (nextPacket d).1 = .ok packet ∧ J (nextPacket d).2
    ∧ ∀ p ∈ packet, H264.H264Decoder.Fits p
  rewind : ∀ d, J d → (rewind d).1 = .ok () ∧ J (rewind d).2
    ∧ ∃ p, (nextPacket (rewind d).2).1 = .ok (some p)

namespace H264

namespace Refusing

variable {ℓ : Type*} [Openh264 ℓ] {I : ℓ → Prop}

theorem refuses (h : Refusing I) {me : H264Decoder ℓ} (hI : I me.dec) (packet : Packet) :
    me.refuses packet = true := by
  obtain ⟨hstate, hconvert, -⟩ := h.decode me.dec (H264Decoder.patched packet)
    (min (packet.pts / 1000) (2 ^ 64 - 1)) hI
  unfold H264Decoder.refuses
  dsimp only
  rw [hconvert, decide_eq_true hstate]
  rfl

theorem flushFrames (h : Refusing I) (n : ℕ) {dec : ℓ} (hI : I dec) :
    (H264Decoder.flushFrames n dec).1 = [] ∧ I (H264Decoder.flushFrames n dec).2 := by
  induction n generalizing dec with
  | zero => exact ⟨rfl, hI⟩
  | succ n ih =>
    obtain ⟨hnone, hkeep⟩ := h.flush dec hI
    obtain ⟨hnil, hrest⟩ := ih hkeep
    unfold H264Decoder.flushFrames
    dsimp only
    rw [hnone, hnil]
    exact ⟨rfl, hrest⟩

theorem decode_dec (h : Refusing I) {me : H264Decoder ℓ} (hI : I me.dec) (packet : Packet) :
    I (me.decode packet).2.dec := by
  obtain ⟨-, -, hkeep⟩ := h.decode me.dec (H264Decoder.patched packet)
    (min (packet.pts / 1000) (2 ^ 64 - 1)) hI
  unfold H264Decoder.decode
  dsimp only
  split_ifs
  · exact hI
  · exact hkeep
  · exact hkeep
  · exact hkeep

/-- A refused packet: no frames yet, or the end. -/
theorem decode_eq (h : Refusing I) {me : H264Decoder ℓ} (hI : I me.dec) {packet : Packet}
    (hfits : H264Decoder.Fits packet) :
    if maxRefused ≤ me.refused + 1 then ∃ state, (me.decode packet).1 = .error (refusalText state)
      else (me.decode packet).1 = .ok [] := by
  obtain ⟨-, herror⟩ : _ ∧ ((∃ state, (me.decode packet).1 = _) ↔ _) :=
    H264Decoder.decode_fits hfits
  -- the 90th in a row, or nothing decoded
  split_ifs with hmax
  · exact herror.2 ⟨h.refuses hI packet, hmax⟩
  · obtain ⟨hstate, hnone, -⟩ := h.decode me.dec (H264Decoder.patched packet)
      (min (packet.pts / 1000) (2 ^ 64 - 1)) hI
    unfold H264Decoder.decode
    dsimp only
    rw [hnone]
    split_ifs
    · rfl
    · rfl
    · rfl

end Refusing

end H264

namespace Pipeline

variable {δ ℓ : Type*} [Demuxer δ] [H264.Openh264 ℓ] {I : ℓ → Prop} {J : δ → Prop}

/-- Nothing has come of the video so far. -/
structure Fruitless (I : ℓ → Prop) (J : δ → Prop) (p : Pipeline δ (H264.H264Decoder ℓ)) : Prop where
  dec : I p.decoder.dec
  demux : J p.demux
  ready : p.ready = []
  looped : p.looped = true

theorem rounds_none {p : Pipeline δ (H264.H264Decoder ℓ)} (h : p.round.1 = none) (n : ℕ) :
    rounds (n + 1) p = rounds n p.round.2 := by
  rw [rounds]
  generalize p.round = r at h ⊢
  obtain ⟨_, q⟩ := r
  cases h
  rfl

theorem round_flushed (hJ : Demuxer.Playing J) {p : Pipeline δ (H264.H264Decoder ℓ)}
    (hI : H264.Refusing I) (hp : Fruitless I J p) (hflushed : p.flushed = true) :
    p.round.1 = none ∧ Fruitless I J p.round.2 ∧ p.round.2.decoder.refused = p.decoder.refused
      ∧ p.round.2.flushed = false
      ∧ ∃ packet, (Demuxer.nextPacket p.round.2.demux).1 = .ok (some packet) := by
  -- a rewind finds the first packet again
  obtain ⟨hok, hdemux, hnext⟩ := hJ.rewind p.demux hp.demux
  have hround : p.round = p.restart := by
    unfold round
    rw [hp.ready, hflushed, hp.looped]
    rfl
  rw [hround]
  unfold restart
  dsimp only
  generalize Demuxer.rewind p.demux = r at hok hdemux hnext ⊢
  obtain ⟨_, d⟩ := r
  cases hok
  exact ⟨rfl, ⟨(hI.flushFrames _ hp.dec).2, hdemux, hp.ready, hp.looped⟩, rfl, rfl, hnext⟩

theorem round_feed {p : Pipeline δ (H264.H264Decoder ℓ)} (hp : Fruitless I J p)
    (hflushed : p.flushed = false) : p.round = p.feed := by
  unfold round
  rw [hp.ready, hflushed]
  rfl

theorem round_end (hJ : Demuxer.Playing J) {p : Pipeline δ (H264.H264Decoder ℓ)}
    (hI : H264.Refusing I) (hp : Fruitless I J p) (hflushed : p.flushed = false)
    (hnext : (Demuxer.nextPacket p.demux).1 = .ok none) :
    p.round.1 = none ∧ Fruitless I J p.round.2 ∧ p.round.2.decoder.refused = p.decoder.refused
      ∧ p.round.2.flushed = true := by
  obtain ⟨-, -, hdemux, -⟩ := hJ.next p.demux hp.demux
  obtain ⟨hnil, hdec⟩ := hI.flushFrames p.decoder.remaining hp.dec
  rw [round_feed hp hflushed]
  unfold feed
  generalize Demuxer.nextPacket p.demux = r at hnext hdemux ⊢
  obtain ⟨_, d⟩ := r
  cases hnext
  exact ⟨rfl, ⟨hdec, hdemux, (congrArg₂ (· ++ ·) hp.ready hnil :), hp.looped⟩, rfl, rfl⟩

theorem round_packet (hJ : Demuxer.Playing J) {p : Pipeline δ (H264.H264Decoder ℓ)}
    (hI : H264.Refusing I) (hp : Fruitless I J p) (hflushed : p.flushed = false) {packet : Packet}
    (hnext : (Demuxer.nextPacket p.demux).1 = .ok (some packet)) :
    if H264.maxRefused ≤ p.decoder.refused + 1
    then ∃ state, p.round.1 = some (.error (H264.refusalText state))
    else p.round.1 = none ∧ Fruitless I J p.round.2
      ∧ p.round.2.decoder.refused = p.decoder.refused + 1 := by
  -- the packet that comes next
  obtain ⟨packet', hpacket', hdemux, hfits⟩ := hJ.next p.demux hp.demux
  rw [hnext] at hpacket'
  obtain rfl := Except.ok.inj hpacket'
  have hfits : H264.H264Decoder.Fits packet := hfits packet rfl
  have hdec : I (Decoder.decode p.decoder packet).2.dec := hI.decode_dec hp.dec packet
  have hcount : (Decoder.decode p.decoder packet).2.refused
      = if p.decoder.refuses packet then _ else _ :=
    (H264.H264Decoder.decode_fits hfits).1
  have hdecode : if H264.maxRefused ≤ p.decoder.refused + 1
      then ∃ state, (Decoder.decode p.decoder packet).1 = Except.error (H264.refusalText state)
      else (Decoder.decode p.decoder packet).1 = Except.ok [] := hI.decode_eq hp.dec hfits
  rw [if_pos (hI.refuses hp.dec packet)] at hcount
  rw [round_feed hp hflushed]
  unfold feed
  generalize Demuxer.nextPacket p.demux = r at hnext hdemux ⊢
  obtain ⟨_, d⟩ := r
  cases hnext
  dsimp only
  generalize Decoder.decode p.decoder packet = r at hdec hcount hdecode ⊢
  obtain ⟨res, c⟩ := r
  -- the error of the last refusal, or one more of them
  split_ifs at hdecode ⊢
  · obtain ⟨state, hstate⟩ := hdecode
    cases hstate
    exact ⟨state, rfl⟩
  · cases hdecode
    refine ⟨rfl, ⟨hdec, hdemux, ?_, hp.looped⟩, hcount⟩
    exact (List.append_nil _).trans hp.ready

/-- Three rounds get to the next packet and refuse it. -/
theorem rounds_refused (hI : H264.Refusing I) (hJ : Demuxer.Playing J) (m n : ℕ)
    (hn : 3 * m + 3 ≤ n) {p : Pipeline δ (H264.H264Decoder ℓ)} (hp : Fruitless I J p)
    (hrefused : H264.maxRefused ≤ p.decoder.refused + m + 1) :
    ∃ state, (rounds n p).1 = .error (H264.refusalText state) := by
  induction m using Nat.strong_induction_on generalizing n p with
  | _ m ih =>
    -- from a packet on: it is the last refusal, or the others follow
    have hpacket : ∀ (p : Pipeline δ (H264.H264Decoder ℓ)) (n : ℕ) (packet : Packet), 3 * m ≤ n →
        Fruitless I J p → H264.maxRefused ≤ p.decoder.refused + m + 1 → p.flushed = false →
        (Demuxer.nextPacket p.demux).1 = .ok (some packet) →
        ∃ state, (rounds (n + 1) p).1 = .error (H264.refusalText state) := by
      intro p n packet hn hp hrefused hflushed hnext
      have hround := round_packet hJ hI hp hflushed hnext
      split_ifs at hround with hmax
      · obtain ⟨state, hstate⟩ := hround
        refine ⟨state, ?_⟩
        rw [rounds]
        generalize p.round = r at hstate ⊢
        obtain ⟨_, q⟩ := r
        cases hstate
        rfl
      · obtain ⟨hnone, hp', hcount⟩ := hround
        rw [rounds_none hnone]
        exact ih (m - 1) (by omega) n (by omega) hp' (by omega)
    -- at the end of a pass the file is rewound first
    cases hflushed : p.flushed with
    | true =>
      obtain ⟨hnone, hp', hcount, hflushed', packet, hnext⟩ := round_flushed hJ hI hp hflushed
      obtain ⟨n, rfl⟩ : ∃ k, n = k + 1 + 1 := ⟨n - 2, by omega⟩
      rw [rounds_none hnone]
      exact hpacket _ n packet (by omega) hp' (by omega) hflushed' hnext
    | false =>
      obtain ⟨packet, hnext, -, -⟩ := hJ.next p.demux hp.demux
      cases packet with
      | some packet =>
        obtain ⟨n, rfl⟩ : ∃ k, n = k + 1 := ⟨n - 1, by omega⟩
        exact hpacket p n packet (by omega) hp hrefused hflushed hnext
      -- no packet is left: the flush and the rewind, then the first one again
      | none =>
        obtain ⟨hnone, hp', hcount, hflushed'⟩ := round_end hJ hI hp hflushed hnext
        obtain ⟨hnone', hp'', hcount', hflushed'', packet, hnext'⟩ :=
          round_flushed hJ hI hp' hflushed'
        obtain ⟨n, rfl⟩ : ∃ k, n = k + 1 + 1 + 1 := ⟨n - 3, by omega⟩
        rw [rounds_none hnone, rounds_none hnone']
        exact hpacket _ n packet (by omega) hp'' (by omega) hflushed'' hnext'

end Pipeline

/-- openh264 in front of a profile that it doesn't know. -/
structure UnknownProfile where

instance : H264.Openh264 UnknownProfile where
  decodeFrameNoDelay l _ _ := (H264.dsNoParamSets, ⟨0, 0, 0, 0, (0, 0), none, none, none⟩, l)
  flushFrame l := (⟨0, 0, 0, 0, (0, 0), none, none, none⟩, l)
  numOfFramesRemaining _ := some 0

theorem FakeDemux.playing : Demuxer.Playing fun d : FakeDemux => 0 < d.frames where
  next d hd := by
    by_cases hpos : d.frames ≤ d.pos
    · rw [show Demuxer.nextPacket d = (.ok none, d) from if_pos hpos]
      exact ⟨none, rfl, hd, fun p hp => by cases hp⟩
    · rw [show Demuxer.nextPacket d = _ from if_neg hpos]
      refine ⟨_, rfl, hd, fun p hp => ?_⟩
      obtain rfl := Option.some.inj hp
      exact (by decide : 1 < 2 ^ 31)
  rewind d hd := by
    refine ⟨rfl, hd, ?_⟩
    rw [show Demuxer.nextPacket (Demuxer.rewind d).2 = _ from if_neg (Nat.not_le.2 hd)]
    exact ⟨_, rfl⟩

end NoshareCover
