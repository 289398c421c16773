import NoshareCover.Core.Video.Vaapi
import NoshareCover.Lib.Run

/-!
# VA-API: frames and refusals

However cros-codecs spreads its events over its answers, an operation that succeeds returns the
frames of all events since the last one, each once and in order
(`Vaapi.VaapiDecoder.returns_due`).  A packet gets through, or fails, unless events keep coming
(`Vaapi.VaapiDecoder.decode_returns`).
-/

namespace NoshareCover

namespace Vaapi

open Machine

/-! ### What is taken -/

/-- The frame that an event gives to the callback. -/
def shown (reorders : Bool) (packetPts : Option ℕ) : DecoderEvent → Option NscVaFrame
  | .formatChanged _ => none
  | .frameReady h =>
    match h.sync, h.map, h.planePitch with
    | .ok (), .ok (y :: uv :: _), yStride :: uvStride :: _ =>
      some { width := h.displayResolution.width, height := h.displayResolution.height, y, yStride,
             uv, uvStride, ptsNs := Dec.ptsNs reorders packetPts h }
    | _, _, _ => none

namespace Dec

variable {υ : Type} {cb : υ → NscVaFrame → υ} {pts : Option ℕ}

/-- Between these states `queued` came and `taken` was taken; the callback has got the frames of the
latter. -/
structure Takes (cb : υ → NscVaFrame → υ) (pts : Option ℕ) (queued taken : List DecoderEvent)
    (d : Dec) (user : υ) (d' : Dec) (user' : υ) : Prop where
  events : d.events ++ queued = taken ++ d'.events
  frames : user' = (taken.filterMap (shown d.reorders pts)).foldl cb user
  reorders : d'.reorders = d.reorders

namespace Takes

theorem refl (d : Dec) (user : υ) : Takes cb pts [] [] d user d user :=
  ⟨List.append_nil _, rfl, rfl⟩

theorem trans {q₁ q₂ t₁ t₂ : List DecoderEvent} {d d₁ d₂ : Dec} {u u₁ u₂ : υ}
    (h : Takes cb pts q₁ t₁ d u d₁ u₁) (h' : Takes cb pts q₂ t₂ d₁ u₁ d₂ u₂) :
    Takes cb pts (q₁ ++ q₂) (t₁ ++ t₂) d u d₂ u₂ where
  events := by
    rw [← List.append_assoc, h.events, List.append_assoc, h'.events, List.append_assoc]
  frames := by
    rw [h'.frames, h.reorders, h.frames, ← List.foldl_append, ← List.filterMap_append]
  reorders := h'.reorders.trans h.reorders

theorem queue (d : Dec) (user : υ) (queued : List DecoderEvent) :
    Takes cb pts queued [] d user (d.queue queued) user :=
  ⟨rfl, rfl, rfl⟩

end Takes

/-- What is behind one event: its frame, and nothing else of the queue. -/
theorem handle_spec (pts : Option ℕ) (d : Dec) (ev : DecoderEvent) :
    (d.handle pts ev).1.toOption.join = shown d.reorders pts ev
      ∧ (d.handle pts ev).2.reorders = d.reorders := by
  cases ev with
  | formatChanged si => cases si <;> exact ⟨rfl, rfl⟩
  | frameReady h =>
    unfold handle shown
    dsimp only
    -- the handle is shown only when it synced, mapped and has both planes and pitches
    rcases h.sync with e | _
    · exact ⟨rfl, rfl⟩
    rcases h.map with e | planes
    · exact ⟨rfl, rfl⟩
    rcases planes with _ | ⟨y, _ | ⟨uv, planes⟩⟩
    · exact ⟨rfl, rfl⟩
    · exact ⟨rfl, rfl⟩
    rcases h.planePitch with _ | ⟨yStride, _ | ⟨uvStride, pitch⟩⟩
    · exact ⟨rfl, rfl⟩
    · exact ⟨rfl, rfl⟩
    · exact ⟨rfl, rfl⟩

/-- A drain that succeeds leaves nothing. -/
theorem drainEvents_spec (events : List DecoderEvent) (progress : Bool) (d : Dec) (user : υ)
    (r : Except String Bool) (d' : Dec) (user' : υ)
    (h : drainEvents cb pts events progress d user = (r, d', user')) :
    (∃ taken, Takes cb pts [] taken { d with events } user d' user')
      ∧ ∀ p, r = .ok p → d'.events = [] ∧ p = (progress || !events.isEmpty) := by
  -- by induction on the events, with the decoder and the caller's data as they come
  induction events generalizing progress d user with
  | nil =>
    cases h
    refine ⟨⟨[], .refl _ _⟩, fun p hp => ?_⟩
    cases hp
    exact ⟨rfl, (Bool.or_false _).symm⟩
  | cons ev events ih =>
    have hspec := handle_spec pts d ev
    rw [drainEvents] at h
    rcases hhandle : d.handle pts ev with ⟨e | _ | f, d₁⟩
    -- an error ends the drain: the rest of the events is gone
    · rw [hhandle] at h hspec
      cases h
      refine ⟨⟨[ev], List.append_nil _, ?_, hspec.2⟩, fun p hp => by cases hp⟩
      rw [List.filterMap_cons_none hspec.1.symm]
      rfl
    all_goals
      rw [hhandle] at h hspec
      obtain ⟨⟨taken, htaken⟩, hok⟩ := ih true d₁ _ h
    -- the event shows nothing
    · refine ⟨⟨ev :: taken, congrArg (ev :: ·) htaken.events, ?_, htaken.reorders.trans hspec.2⟩,
        fun p hp => ⟨(hok p hp).1, ?_⟩⟩
      · rw [List.filterMap_cons_none hspec.1.symm, htaken.frames]
        exact congrArg (fun b => (taken.filterMap (shown b pts)).foldl cb user) hspec.2
      · rw [(hok p hp).2, Bool.true_or, List.isEmpty_cons, Bool.not_false, Bool.or_true]
    -- the event shows a frame
    · refine ⟨⟨ev :: taken, congrArg (ev :: ·) htaken.events, ?_, htaken.reorders.trans hspec.2⟩,
        fun p hp => ⟨(hok p hp).1, ?_⟩⟩
      · rw [List.filterMap_cons_some hspec.1.symm, htaken.frames]
        exact congrArg (fun b => (taken.filterMap (shown b pts)).foldl cb (cb user f)) hspec.2
      · rw [(hok p hp).2, Bool.true_or, List.isEmpty_cons, Bool.not_false, Bool.or_true]

theorem drain_spec (d : Dec) (user : υ) {r : Except String Bool} {d' : Dec} {user' : υ}
    (h : d.drain cb pts user = (r, d', user')) :
    (∃ taken, Takes cb pts [] taken d user d' user')
      ∧ ∀ p, r = .ok p → d'.events = [] ∧ p = !d.events.isEmpty := by
  have hspec := drainEvents_spec d.events false d user r d' user' h
  simp only [Bool.false_or] at hspec
  exact hspec

theorem finish_spec (d : Dec) (user : υ) {r : Except Failure Unit} {d' : Dec} {user' : υ}
    (h : d.finish cb pts user = (r, d', user')) :
    (∃ taken, Takes cb pts [] taken d user d' user') ∧ (r = .ok () → d'.events = []) := by
  unfold finish at h
  rcases hdrain : d.drain cb pts user with ⟨e | p, d₁, user₁⟩
  all_goals
    rw [hdrain] at h
    cases h
    obtain ⟨htakes, hok⟩ := drain_spec d user hdrain
  · exact ⟨htakes, fun hr => by cases hr⟩
  · exact ⟨htakes, fun _ => (hok p rfl).1⟩

theorem flush_spec (answer : FlushAnswer) (d : Dec) (user : υ) :
    (∃ taken, Takes cb none answer.queued taken d user (d.flush answer cb user).2.1
        (d.flush answer cb user).2.2)
      ∧ ((d.flush answer cb user).1 = .ok () → (d.flush answer cb user).2.1.events = []) := by
  have hqueue : Takes cb none answer.queued [] d user (d.queue answer.queued) user := .queue ..
  unfold flush
  dsimp only
  split
  · exact ⟨⟨_, hqueue⟩, fun hr => by cases hr⟩
  · exact ⟨⟨_, hqueue⟩, fun hr => by cases hr⟩
  · obtain ⟨⟨taken, htakes⟩, hok⟩ := finish_spec (d.queue answer.queued) user
      (rfl : (d.queue answer.queued).finish cb none user = _)
    have htakes := hqueue.trans htakes
    rw [List.append_nil] at htakes
    exact ⟨⟨_, htakes⟩, hok⟩

theorem round_takes (ptsNs off stalls : ℕ) (a : DecodeAnswer) (d : Dec) (user : υ) :
    ∃ taken, Takes cb (some ptsNs) a.queued taken d user (d.round cb ptsNs off stalls a user).2.1
      (d.round cb ptsNs off stalls a user).2.2 := by
  have hqueue : Takes cb (some ptsNs) a.queued [] d user (d.queue a.queued) user := .queue ..
  unfold round
  dsimp only
  -- only the last kind of answer drains the queue
  split
  · exact ⟨_, hqueue⟩
  · exact ⟨_, hqueue⟩
  · exact ⟨_, hqueue⟩
  · exact ⟨_, hqueue⟩
  · rcases hdrain : (d.queue a.queued).drain cb (some ptsNs) user with ⟨e | _ | _, d₁, user₁⟩
    all_goals
      obtain ⟨⟨taken, htakes⟩, -⟩ := drain_spec _ user hdrain
      have htakes := hqueue.trans htakes
      rw [List.append_nil] at htakes
    · exact ⟨_, htakes⟩
    · dsimp only
      split_ifs
      · exact ⟨_, htakes⟩
      · exact ⟨_, htakes⟩
    · exact ⟨_, htakes⟩

/-- A packet that gets through leaves nothing. -/
theorem decodeLoop_spec (ptsNs len : ℕ) (answers : List DecodeAnswer) (off stalls : ℕ) (d : Dec)
    (user : υ) {r : Except Failure Unit} {d' : Dec} {user' : υ}
    (h : decodeLoop cb ptsNs len answers off stalls d user = some (r, d', user')) :
    (∃ taken, Takes cb (some ptsNs) (answers.flatMap (·.queued)) taken d user d' user')
      ∧ (r = .ok () → d'.events = []) := by
  -- by induction on the answers of the device
  induction answers generalizing off stalls d user with
  | nil =>
    rw [decodeLoop] at h
    split_ifs at h
    exact finish_spec d user (Option.some.inj h)
  | cons a answers ih =>
    rw [decodeLoop] at h
    by_cases hoff : off < len
    · rw [if_pos hoff] at h
      obtain ⟨taken, hround⟩ := round_takes ptsNs off stalls a d user
      rw [List.flatMap_cons]
      generalize d.round cb ptsNs off stalls a user = flow at h hround
      obtain ⟨⟨off₁, stalls₁⟩ | _ | f, d₁, user₁⟩ := flow
      · obtain ⟨⟨rest, hrest⟩, hok⟩ := ih _ _ _ _ h
        exact ⟨⟨_, hround.trans hrest⟩, hok⟩
      -- the packet is done or has failed: the answers have to end here
      all_goals
        dsimp only at h
        split_ifs at h with hanswers
        obtain rfl := List.isEmpty_iff.1 hanswers
      · obtain ⟨⟨rest, hrest⟩, hok⟩ := finish_spec d₁ user₁ (Option.some.inj h)
        -- the last drain takes what is left
        exact ⟨⟨_, hround.trans hrest⟩, hok⟩
      · cases h
        refine ⟨⟨taken, ?_⟩, fun hr => by cases hr⟩
        rw [List.flatMap_nil, List.append_nil]
        exact hround
    · rw [if_neg hoff] at h
      cases h

/-- The answers without events that the loop can still get. -/
def patience (len off stalls : ℕ) (events : List DecoderEvent) : ℕ :=
  4 * (len - off) - stalls + if events.isEmpty then 0 else 1

/-- Each round consumes something, takes events or loses patience. -/
theorem patience_round {ptsNs len off stalls : ℕ} {a : DecodeAnswer} {d : Dec} {user : υ}
    (hoff : off < len) (hstalls : stalls ≤ 3) {off' stalls' : ℕ} {d' : Dec} {user' : υ}
    (h : d.round cb ptsNs off stalls a user = (.next off' stalls', d', user')) :
    stalls' ≤ 3 ∧ patience len off' stalls' d'.events + (if a.queued.isEmpty then 1 else 0)
      ≤ patience len off stalls d.events := by
  have hwaits : (d.queue a.queued).events.isEmpty = (d.events.isEmpty && a.queued.isEmpty) := by
    cases hevents : d.events <;> simp [queue, hevents]
  unfold round at h
  dsimp only at h
  unfold patience
  split at h
  · cases h
  · cases h
  · rename_i n hn _
    cases h
    have hn : n ≠ 0 := hn
    refine ⟨Nat.zero_le _, ?_⟩
    rw [hwaits]
    cases d.events.isEmpty <;> cases a.queued.isEmpty <;>
      simp only [Bool.and_true, Bool.and_false, Bool.false_eq_true, if_true, if_false] <;> omega
  · cases h
  -- a refusal
  · rcases hdrain : (d.queue a.queued).drain cb (some ptsNs) user with ⟨e | p, d₁, user₁⟩
    · rw [hdrain] at h
      cases h
    · rw [hdrain] at h
      obtain ⟨-, hok⟩ := drain_spec _ user hdrain
      obtain ⟨hempty, hp⟩ := hok p rfl
      rw [hwaits] at hp
      generalize d.events.isEmpty = waiting at hp ⊢
      generalize a.queued.isEmpty = silent at hp ⊢
      cases p with
      | true =>
        simp only [Prod.mk.injEq, Flow.next.injEq] at h
        obtain ⟨⟨rfl, rfl⟩, rfl, -⟩ := h
        refine ⟨hstalls, ?_⟩
        rw [hempty]
        cases waiting <;> cases silent <;> simp at hp ⊢
      | false =>
        dsimp only at h
        split_ifs at h with hout
        · cases h
        · simp only [Prod.mk.injEq, Flow.next.injEq] at h
          obtain ⟨⟨rfl, rfl⟩, rfl, -⟩ := h
          refine ⟨by omega, ?_⟩
          rw [hempty]
          cases waiting <;> cases silent <;> simp at hp ⊢
          omega

theorem decodeLoop_returns (ptsNs len : ℕ) (answers : List DecodeAnswer) (off stalls : ℕ) (d : Dec)
    (user : υ) (hstalls : stalls ≤ 3)
    (h : patience len off stalls d.events ≤ answers.countP (·.queued.isEmpty)) :
    ∃ n ≤ answers.length, (decodeLoop cb ptsNs len (answers.take n) off stalls d user).isSome := by
  -- every empty answer uses up some of the patience
  induction answers generalizing off stalls d user with
  | nil =>
    have hoff : ¬ off < len := by
      unfold patience at h
      rw [List.countP_nil] at h
      omega
    refine ⟨0, Nat.zero_le _, ?_⟩
    rw [List.take_zero, decodeLoop, if_neg hoff]
    rfl
  | cons a answers ih =>
    by_cases hoff : off < len
    -- the round goes on, ends the packet, or fails
    · rcases hflow : d.round cb ptsNs off stalls a user with ⟨⟨off₁, stalls₁⟩ | _ | f, d₁, user₁⟩
      · obtain ⟨hstalls₁, hround⟩ := patience_round hoff hstalls hflow
        rw [List.countP_cons] at h
        obtain ⟨n, hn, hloop⟩ := ih off₁ stalls₁ d₁ user₁ hstalls₁ (by omega)
        refine ⟨n + 1, Nat.succ_le_succ hn, ?_⟩
        rw [List.take_succ_cons, decodeLoop, if_pos hoff, hflow]
        exact hloop
      · refine ⟨1, Nat.le_add_left .., ?_⟩
        rw [List.take_succ_cons, List.take_zero, decodeLoop, if_pos hoff, hflow]
        rfl
      · refine ⟨1, Nat.le_add_left .., ?_⟩
        rw [List.take_succ_cons, List.take_zero, decodeLoop, if_pos hoff, hflow]
        rfl
    · refine ⟨0, Nat.zero_le _, ?_⟩
      rw [List.take_zero, decodeLoop, if_neg hoff]
      rfl

end Dec

/-! ### What the plugin gets -/

/-- The frames of these events, for a packet or, without one, for a flush. -/
def frames (reorders : Bool) (packetPts : Option ℕ) (events : List DecoderEvent) :
    List DecodedFrame :=
  (events.filterMap (shown reorders packetPts)).flatMap (onFrame [])

theorem onFrame_eq (out : List DecodedFrame) (f : NscVaFrame) :
    onFrame out f = out ++ onFrame [] f := by
  unfold onFrame
  dsimp only
  split_ifs
  · exact (List.append_nil _).symm
  · split
    · exact (List.append_nil _).symm
    · rfl

theorem foldl_onFrame (fs : List NscVaFrame) (out : List DecodedFrame) :
    fs.foldl onFrame out = out ++ fs.flatMap (onFrame []) := by
  induction fs generalizing out with
  | nil => exact (List.append_nil _).symm
  | cons f fs ih => rw [List.foldl_cons, ih, onFrame_eq, List.flatMap_cons, List.append_assoc]

/-- What an operation owes to the plugin, with the events that wait before and after it: one that
fetches frames leaves none, and a reset forgets them, unless cros-codecs panics in it. -/
def due (reorders : Bool) (waiting : List DecoderEvent) :
    Operation → List DecoderEvent × List DecodedFrame
  | .decode packet answers =>
    ([], frames reorders (some (min packet.pts (2 ^ 64 - 1)))
      (waiting ++ answers.flatMap (·.queued)))
  | .flush answer => ([], frames reorders none (waiting ++ answer.queued))
  | .reset answer =>
    match answer.outcome with
    | .panicked _ => (waiting ++ answer.queued, [])
    | .returned _ => ([], [])

namespace VaapiDecoder

theorem returned_error (f : Failure) (d : Dec) (out : List DecodedFrame) :
    ∃ e, (returned (.error f, d, out)).1 = .error e := by
  cases f <;> exact ⟨_, rfl⟩

/-- Success means that nothing waits. -/
theorem returned_ok {d : Dec} {pts : Option ℕ} {queued : List DecoderEvent}
    {r : Except Failure Unit × Dec × List DecodedFrame} {fs : List DecodedFrame}
    {me' : VaapiDecoder}
    (hspec : (∃ taken, Dec.Takes onFrame pts queued taken d [] r.2.1 r.2.2)
      ∧ (r.1 = .ok () → r.2.1.events = [])) (h : returned r = (.ok fs, me')) :
    ([], frames d.reorders pts (d.events ++ queued)) = (me'.handle.events, fs)
      ∧ me'.handle.reorders = d.reorders := by
  obtain ⟨⟨taken, htakes⟩, hok⟩ := hspec
  obtain ⟨f | _, d', out⟩ := r
  -- an error returns no frames
  · obtain ⟨e, he⟩ := returned_error f d' out
    rw [h] at he
    cases he
  -- all that came is taken, so the queue is empty again
  · cases h
    have hempty := hok rfl
    have hframes := htakes.frames
    rw [foldl_onFrame, List.nil_append] at hframes
    dsimp only at hempty hframes
    refine ⟨?_, htakes.reorders⟩
    rw [htakes.events, hempty, List.append_nil, hframes]
    rfl

theorem step_due {me me' : VaapiDecoder} {op : Operation} {fs : List DecodedFrame}
    (h : me.step op = some (.ok fs, me')) :
    due me.handle.reorders me.handle.events op = (me'.handle.events, fs)
      ∧ me'.handle.reorders = me.handle.reorders := by
  cases op with
  | decode packet answers =>
    obtain ⟨r, hdecode, hr⟩ := Option.map_eq_some_iff.1
      (show (me.handle.decode answers packet.data _ onFrame []).map returned = _ from h)
    exact returned_ok (Dec.decodeLoop_spec _ _ answers 0 0 me.handle [] hdecode) hr
  | flush answer => exact returned_ok (Dec.flush_spec answer me.handle []) (Option.some.inj h)
  | reset answer =>
    cases h
    unfold due reset Dec.reset
    rcases answer with ⟨_ | _, queued⟩ <;> exact ⟨rfl, rfl⟩

theorem calls_due {me me' : VaapiDecoder} {ops : List Operation} {fss : List (List DecodedFrame)}
    (h : me.calls ops = some (fss.map .ok, me')) :
    fss = outputs (due me.handle.reorders) me.handle.events ops := by
  -- by induction on the calls
  induction ops generalizing me fss with
  | nil =>
    obtain ⟨hfss, -⟩ := Prod.mk.inj (Option.some.inj h)
    exact List.map_eq_nil_iff.1 hfss.symm
  | cons op ops ih =>
    rw [calls] at h
    rcases hstep : me.step op with _ | ⟨r, me₁⟩
    · rw [hstep] at h
      cases h
    · rw [hstep] at h
      obtain ⟨⟨rs, me₂⟩, hcalls, heq⟩ := Option.map_eq_some_iff.1 h
      obtain ⟨hrs, rfl⟩ := Prod.mk.inj heq
      cases fss with
      -- the results and the frames have the same length
      | nil => cases hrs
      | cons fs fss =>
        obtain ⟨rfl, rfl⟩ := List.cons.inj hrs
        obtain ⟨hdue, hreorders⟩ := step_due hstep
        have hrest := ih hcalls
        rw [outputs_cons, hdue, ← hreorders, ← hrest]

theorem new_ok {codec : Codec} {debug node : String} {o : Opening} {me : VaapiDecoder}
    (h : new codec debug node o = .ok me) :
    me.handle.events = [] ∧ me.handle.reorders = decide (codec = .h264 ∨ codec = .hevc) := by
  unfold new at h
  -- every way out of `new` but the last one is an error
  split at h
  · cases h
  · rename_i c hcodec
    split at h
    · rename_i d hopen
      cases h
      unfold openDec at hopen
      dsimp only at hopen
      split at hopen
      · split at hopen <;> cases hopen
      split at hopen
      · cases hopen
      split_ifs at hopen
      · split at hopen
        · cases hopen
        · cases hopen
          refine ⟨rfl, ?_⟩
          cases codec <;> cases hcodec <;> rfl
    · cases h

/-- **A packet gets an end**: after more answers without events than four times its bytes, `decode`
has returned. -/
theorem decode_returns (me : VaapiDecoder) (packet : Packet) (answers : List DecodeAnswer)
    (h : 4 * packet.data.length < answers.countP (·.queued.isEmpty)) :
    ∃ n ≤ answers.length, (me.decode (answers.take n) packet).isSome := by
  have hpatience : Dec.patience packet.data.length 0 0 me.handle.events
      ≤ answers.countP (·.queued.isEmpty) := by
    unfold Dec.patience
    split_ifs
    · omega
    · omega
  obtain ⟨n, hn, hloop⟩ : ∃ n ≤ answers.length,
      (me.handle.decode (answers.take n) packet.data (min packet.pts (2 ^ 64 - 1)) onFrame
        []).isSome :=
    Dec.decodeLoop_returns _ _ answers 0 0 me.handle [] (Nat.zero_le _) hpatience
  refine ⟨n, hn, ?_⟩
  rw [decode, Option.isSome_map]
  exact hloop

/-- The decoder is out of frames, and the fourth refusal ends the packet. -/
theorem decode_returns_refused :
    let d : Dec := { events := [], pool := none, y := [], uv := [], reorders := false, err := "" }
    let refused : DecodeAnswer := ⟨.returned (.error (.notEnoughOutputBuffers 1)), []⟩
    ∃ n ≤ 5,
      ((⟨d⟩ : VaapiDecoder).decode ((List.replicate 5 refused).take n) ⟨0, true, [1]⟩).isSome := by
  intro d refused
  exact decode_returns ⟨d⟩ ⟨0, true, [1]⟩ (List.replicate 5 refused) (by decide)

end VaapiDecoder

end Vaapi

end NoshareCover
