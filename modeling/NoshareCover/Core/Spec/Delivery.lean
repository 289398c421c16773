import NoshareCover.Core.Spec.Pipeline

/-!
# What the pipeline delivers

`next_frame` returns the frames of the decoder pass after pass, until it fails; nobody calls it
again after that.  One thing is off at the edge: the frames of the last step that a call may make
are not looked at any more.  `delivers_iff` says that there is nothing else.
-/

namespace NoshareCover

/-! ### What the devices answer -/

namespace Devices

variable {δ κ : Type*} [Demuxer δ] [Decoder κ]

/-- The devices before the first call. -/
def start (demux : δ) (decoder : κ) (looped : Bool) : Devices δ κ :=
  { demux, decoder, looped, drained := false, pass := 0 }

/-- Whether the next step ends in an error of the demuxer or the decoder. -/
def fails (d : Devices δ κ) : Bool :=
  if d.drained then d.looped && !(Demuxer.rewind d.demux).1.isOk
  else match Demuxer.nextPacket d.demux with
    | (.error _, _) => true
    | (.ok (some pkt), _) => !(Decoder.decode d.decoder pkt).1.isOk
    | (.ok none, _) => !(Decoder.flush d.decoder).1.isOk

/-- After `i` steps. -/
def after (d : Devices δ κ) (i : ℕ) : Devices δ κ := Machine.run tick d (List.replicate i ())

/-- The frames of step number `i`. -/
def out (d : Devices δ κ) (i : ℕ) : List DecodedFrame := (d.after i).step.2

/-- **Frames come in time**: while nothing has failed and no 4096 steps in a row were without a
frame, 4095 steps before a step with frames, if there are so many, are not all without one. -/
def InTime (d : Devices δ κ) : Prop :=
  ∀ n, (∀ k ≤ n + 4095, (d.after k).fails = false) →
    (∀ k, k + 4096 ≤ n + 4095 → ∃ j < 4096, d.out (k + j) ≠ []) →
    d.out (n + 4095) ≠ [] → ∃ j < 4095, d.out (n + j) ≠ []

theorem after_succ (d : Devices δ κ) (i : ℕ) : d.after (i + 1) = (d.after i).step.1 := by
  unfold after
  rw [List.replicate_succ', Machine.run_append]
  rfl

theorem emitted_succ' (d : Devices δ κ) (n : ℕ) :
    d.emitted (n + 1) = d.emitted n ++ (d.out n).map ((d.after n).pass, ·) := by
  unfold emitted
  rw [List.replicate_succ', Machine.outputs_append, List.flatten_append, Machine.outputs_cons,
    Machine.outputs_nil, List.flatten_singleton]
  rfl

/-- At the end of a file that is not looped a step changes nothing. -/
theorem step_ended {d : Devices δ κ} (hd : d.drained = true) (hl : d.looped = false) :
    d.step = (d, []) := by
  unfold step
  rw [if_pos hd, if_neg (by rw [hl]; exact Bool.false_ne_true)]

theorem out_of_ended {d : Devices δ κ} {k : ℕ} (hd : (d.after k).drained = true)
    (hl : (d.after k).looped = false) (i : ℕ) : d.out (k + i) = [] := by
  have hafter : d.after (k + i) = d.after k := by
    induction i with
    | zero => rfl
    | succ i ih => rw [← Nat.add_assoc, after_succ, ih, step_ended hd hl]
  rw [out, hafter, step_ended hd hl]

/-- Below each step there is a last one with frames, or the first step of all. -/
theorem exists_start (d : Devices δ κ) (i : ℕ) :
    ∃ k ≤ i, (∀ l, k = l + 1 → d.out l ≠ []) ∧ ∀ l, k ≤ l → l < i → d.out l = [] := by
  induction i with
  | zero => exact ⟨0, le_rfl, fun l hl => (nomatch hl), fun l _ hl => absurd hl l.not_lt_zero⟩
  | succ i ih =>
    by_cases hout : d.out i = []
    · obtain ⟨k, hk, hstart, hempty⟩ := ih
      refine ⟨k, Nat.le_succ_of_le hk, hstart, fun l hl hlt => ?_⟩
      rcases Nat.lt_succ_iff_lt_or_eq.1 hlt with hlt | rfl
      · exact hempty l hl hlt
      · exact hout
    · refine ⟨i + 1, le_rfl, fun l hl => ?_, fun l hl hlt => absurd hlt (Nat.not_lt_of_le hl)⟩
      cases hl
      exact hout

end Devices

namespace Pipeline

variable {δ κ : Type*} [Demuxer δ] [Decoder κ]

/-! ### Steps of a call -/

/-- After `i` steps of the loop in `next_frame`. -/
def after (p : Pipeline δ κ) (i : ℕ) : Pipeline δ κ := Machine.run tick p (List.replicate i ())

/-- The frames that a step puts into the queue. -/
def puts (p : Pipeline δ κ) : List DecodedFrame := if p.ready = [] then p.round.2.ready else []

theorem after_succ (p : Pipeline δ κ) (i : ℕ) : p.after (i + 1) = p.round.2.after i := rfl

theorem after_succ' (p : Pipeline δ κ) (i : ℕ) : p.after (i + 1) = (p.after i).round.2 := by
  unfold after
  rw [List.replicate_succ', Machine.run_append]
  rfl

/-- A call makes steps until one of them returns something, or all that it may. -/
theorem rounds_cases (n : ℕ) (p : Pipeline δ κ) :
    (∃ k < n, (∀ i < k, (p.after i).round.1 = none) ∧ (p.after k).round.1 = some (rounds n p).1
        ∧ (rounds n p).2 = p.after (k + 1))
      ∨ (∀ i < n, (p.after i).round.1 = none)
        ∧ rounds n p = (.error ((p.after n).decoderName ++ " produces no frames"), p.after n) := by
  induction n generalizing p with
  | zero => exact .inr ⟨fun i hi => absurd hi (Nat.not_lt_zero i), rfl⟩
  -- the first round without an answer, and then the others
  | succ n ih =>
    rw [rounds]
    -- what the rest goes through, seen from here
    rcases hround : p.round with ⟨_ | r, q⟩
    · have hq : p.round.2 = q := congrArg Prod.snd hround
      have hfirst : ∀ {k : ℕ}, (∀ i < k, (q.after i).round.1 = none) →
          ∀ i < k + 1, (p.after i).round.1 = none := by
        intro k hk i hi
        cases i with
        | zero => exact congrArg Prod.fst hround
        | succ i =>
          rw [after_succ, hq]
          exact hk i (by omega)
      rcases ih q with ⟨k, hk, hnone, hsome, hstate⟩ | ⟨hnone, hresult⟩
      · left
        refine ⟨k + 1, by omega, hfirst hnone, ?_, ?_⟩
        · rw [after_succ, hq]
          exact hsome
        · rw [after_succ, hq]
          -- the step limit is reached in the rest
          exact hstate
      · right
        refine ⟨hfirst hnone, ?_⟩
        rw [after_succ, hq]
        exact hresult
    -- this round answers
    · left
      refine ⟨0, Nat.succ_pos n, fun i hi => absurd hi (Nat.not_lt_zero i), ?_, ?_⟩
      · exact congrArg Prod.fst hround
      · exact congrArg Prod.snd hround.symm

/-- A step that returns nothing leaves what it put into the queue for the next one to return. -/
theorem round_ne_none {p : Pipeline δ κ} (h : p.ready ≠ []) : p.round.1 ≠ none := by
  obtain ⟨f, fs, hready⟩ := List.exists_cons_of_ne_nil h
  unfold round
  rw [hready]
  exact nofun

/-- Steps that return nothing put nothing into the queue, the last one apart. -/
theorem puts_eq_nil {p : Pipeline δ κ} {n : ℕ} (hnone : ∀ i < n, (p.after i).round.1 = none)
    {i : ℕ} (hi : i + 1 < n) : (p.after i).puts = [] := by
  unfold puts
  split_ifs with hready
  · by_contra hput
    refine round_ne_none (p := p.after (i + 1)) ?_ (hnone (i + 1) hi)
    rwa [after_succ']
  · rfl

/-! ### The law of `next_frame` -/

/-- The pipeline before the call number `n`. -/
def before (p : Pipeline δ κ) (n : ℕ) : Pipeline δ κ := Machine.run call p (List.replicate n ())

/-- What the call number `n` returns. -/
def result (p : Pipeline δ κ) (n : ℕ) : PipeResult Next := (p.before n).nextFrame.1

/-- The first `n` calls are made: the first error is the last of them. -/
def Runs (p : Pipeline δ κ) (n : ℕ) : Prop := ∀ j, j + 1 < n → ∀ e, p.result j ≠ .error e

/-- **The first `n` calls deliver**: the frames that they returned are those that the decoder gave
so far, in order and raised pass by pass, without those that still wait in the queue; the end comes
without looping when nothing is left, and stays; a call makes 4096 steps at most; and it fails with
an error of the demuxer or the decoder, or when all these steps gave no frame. -/
structure Delivers (D : ℕ) (p : Pipeline δ κ) (d : Devices δ κ) (n : ℕ) : Prop where
  frames : ∃ m, (∀ k, k + 1 < m → (d.after k).fails = false)
    ∧ (p.returned n).length + (p.before n).ready.length = (d.emitted m).length
    ∧ p.returned n <+: (d.emitted m).map (raise D)
  ended : ∀ j < n, p.result j = .ok .ended →
    (p.looped = false ∧ (p.before (j + 1)).flushed = true ∧ (p.before (j + 1)).ready = [])
      ∧ ∀ i, j ≤ i → p.result i = .ok .ended
  steps : ∀ j < n, ∃ k ≤ 4096, (p.before j).after k = p.before (j + 1)
  fails : ∀ j < n, ∀ e, p.result j = .error e →
    (∃ i < 4096, ((p.before j).after i).round.1 = some (.error e))
      ∨ ∀ i < 4096, ((p.before j).after i).puts = []

theorem before_succ (p : Pipeline δ κ) (n : ℕ) :
    p.before (n + 1) = (p.before n).nextFrame.2 := by
  unfold before
  rw [List.replicate_succ', Machine.run_append]
  rfl

theorem before_cases (p : Pipeline δ κ) (n : ℕ) :
    (∃ k < 4096, (∀ i < k, ((p.before n).after i).round.1 = none)
        ∧ ((p.before n).after k).round.1 = some (p.result n)
        ∧ p.before (n + 1) = ((p.before n).after k).round.2)
      ∨ (∀ i < 4096, ((p.before n).after i).round.1 = none)
        ∧ (∃ e, p.result n = .error e) ∧ p.before (n + 1) = (p.before n).after 4096 := by
  rw [before_succ]
  unfold result nextFrame
  rcases rounds_cases 4096 (p.before n) with ⟨k, hk, hnone, hsome, hstate⟩ | ⟨hnone, hresult⟩
  · rw [after_succ'] at hstate
    exact .inl ⟨k, hk, hnone, hsome, hstate⟩
  · rw [hresult]
    dsimp only
    exact .inr ⟨hnone, Exists.intro _ rfl, rfl⟩

/-! ### The end -/

theorem round_looped (p : Pipeline δ κ) : p.round.2.looped = p.looped := by
  -- no branch writes `looped`
  unfold round
  cases p.ready with
  | cons f rest => rfl
  | nil =>
    dsimp only
    split_ifs
    · rfl
    · unfold restart
      rcases Demuxer.rewind p.demux with ⟨_ | _, m⟩ <;> rfl
    · unfold feed
      rcases Demuxer.nextPacket p.demux with ⟨_ | _ | pkt, m⟩
      · rfl
      · dsimp only
        rcases Decoder.flush p.decoder with ⟨_ | fs, c⟩ <;> rfl
      · dsimp only
        rcases Decoder.decode p.decoder pkt with ⟨_ | fs, c⟩ <;> rfl

theorem after_looped (p : Pipeline δ κ) (i : ℕ) : (p.after i).looped = p.looped := by
  induction i with
  | zero => rfl
  | succ i ih => rw [after_succ', round_looped, ih]

theorem before_looped (p : Pipeline δ κ) (n : ℕ) : (p.before n).looped = p.looped := by
  induction n with
  | zero => rfl
  | succ n ih =>
    rcases p.before_cases n with ⟨k, -, -, -, hstate⟩ | ⟨-, -, hstate⟩
    · rw [hstate, round_looped, after_looped, ih]
    · rw [hstate, after_looped, ih]

/-- A step says that the video has ended when nothing is left, and changes nothing. -/
theorem round_ended {p : Pipeline δ κ} (h : p.round.1 = some (.ok .ended)) :
    p.looped = false ∧ p.flushed = true ∧ p.ready = [] ∧ p.round.2 = p := by
  unfold round at h ⊢
  cases hready : p.ready with
  -- a frame that is ready comes first
  | cons f rest =>
    rw [hready] at h
    cases h
  | nil =>
    rw [hready] at h
    -- only a drained file that is not looped is over; the other branches fail or go on
    dsimp only at h ⊢
    split_ifs at h ⊢ with hflushed hlooped
    · exact ⟨by simpa using hlooped, hflushed, rfl, rfl⟩
    · unfold restart at h
      rcases hm : Demuxer.rewind p.demux with ⟨_ | _, m⟩ <;> rw [hm] at h <;> cases h
    · unfold feed at h
      rcases hm : Demuxer.nextPacket p.demux with ⟨_ | _ | pkt, m⟩ <;> rw [hm] at h
      · cases h
      · rcases hf : Decoder.flush p.decoder with ⟨_ | fs, c⟩ <;> simp [hf] at h
      · rcases hf : Decoder.decode p.decoder pkt with ⟨_ | fs, c⟩ <;> simp [hf] at h

/-- When nothing is left, a call says so and changes nothing. -/
theorem nextFrame_ended {p : Pipeline δ κ} (hlooped : p.looped = false)
    (hflushed : p.flushed = true) (hready : p.ready = []) : p.nextFrame = (.ok .ended, p) := by
  have hround : p.round = (some (.ok .ended), p) := by
    unfold round
    rw [hready]
    dsimp only
    rw [if_pos hflushed, if_pos (by rw [hlooped]; rfl)]
  unfold nextFrame
  rw [rounds, hround]

theorem ended_spec (p : Pipeline δ κ) {j : ℕ} (h : p.result j = .ok .ended) :
    (p.looped = false ∧ (p.before (j + 1)).flushed = true ∧ (p.before (j + 1)).ready = [])
      ∧ ∀ i, j ≤ i → p.result i = .ok .ended := by
  rcases p.before_cases j with ⟨k, -, -, hsome, hstate⟩ | ⟨-, ⟨e, herror⟩, -⟩
  -- the step limit is an error, so a round has answered
  swap
  · rw [h] at herror
    cases herror
  rw [h] at hsome
  obtain ⟨hlooped, hflushed, hready, hsame⟩ := round_ended hsome
  rw [hsame] at hstate
  rw [← hstate] at hflushed hready
  rw [after_looped, before_looped] at hlooped
  refine ⟨⟨hlooped, hflushed, hready⟩, fun i hi => ?_⟩
  -- from then on a call changes nothing
  have hnext : (p.before (j + 1)).nextFrame = (.ok .ended, p.before (j + 1)) :=
    nextFrame_ended ((p.before_looped _).trans hlooped) hflushed hready
  have hstays : ∀ k, p.before (j + 1 + k) = p.before (j + 1) := by
    intro k
    induction k with
    | zero => rfl
    | succ k ih =>
      rw [← Nat.add_assoc, before_succ, ih, hnext]
  rcases Nat.eq_or_lt_of_le hi with rfl | hlt
  · exact h
  · obtain ⟨k, rfl⟩ := Nat.exists_eq_add_of_le (Nat.succ_le_of_lt hlt)
    unfold result
    rw [hstays, hnext]

/-! ### Rounds and the devices -/

/-- The pipeline when the devices made `m` steps from `d` on and `got` was returned. -/
structure Given (D : ℕ) (d : Devices δ κ) (got : List DecodedFrame) (m : ℕ) (p : Pipeline δ κ) :
    Prop where
  drives : Drives D p (d.after m)
  frames : got ++ (p.ready.map ((d.after m).pass, ·)).map (raise D) = (d.emitted m).map (raise D)

section Given

variable {D : ℕ} {d : Devices δ κ} {got : List DecodedFrame} {m : ℕ} {p : Pipeline δ κ}

/-- A round on an empty queue is a step of the devices. -/
theorem Given.step (h : Given D d got m p) (hready : p.ready = []) :
    Given D d got (m + 1) p.round.2 ∧ p.round.2.ready = d.out m := by
  obtain ⟨hdrives, -, hout⟩ := tick_step h.drives hready
  rw [← Devices.after_succ] at hdrives
  refine ⟨⟨hdrives, ?_⟩, hout⟩
  have hframes := h.frames
  have hpass := raise_step D (d.after m)
  rw [hready, List.map_nil, List.map_nil, List.append_nil] at hframes
  rw [← Devices.after_succ] at hpass
  rw [show p.round.2.ready = _ from hout, hpass, Devices.emitted_succ', List.map_append, hframes]
  rfl

/-- A round with a frame in the queue returns it. -/
theorem Given.pop (h : Given D d got m p) {f : DecodedFrame} {rest : List DecodedFrame}
    (hready : p.ready = f :: rest) :
    ∃ g, p.round.1 = some (.ok (.frame g)) ∧ p.round.2.ready = rest
      ∧ Given D d (got ++ [g]) m p.round.2 := by
  have hround : p.round
      = (some (.ok (.frame { f with pts := f.pts + p.loopOffset })), { p with ready := rest }) := by
    unfold round
    rw [hready]
  have hd := h.drives
  rw [hround]
  refine ⟨_, rfl, rfl,
    ⟨⟨hd.demux, hd.decoder, hd.flushed, hd.looped, hd.offset, hd.duration⟩, ?_⟩⟩
  have hframes := h.frames
  rw [hready, List.map_cons, List.map_cons, List.append_cons] at hframes
  rw [hd.offset]
  exact hframes

/-- What a round on an empty queue returns is up to the devices: nothing, an error or the end. -/
theorem Drives.round_cases {D : ℕ} {p : Pipeline δ κ} {d : Devices δ κ} (h : Drives D p d)
    (hready : p.ready = []) :
    p.round.1 = none ∧ d.fails = false
      ∨ (∃ e, p.round.1 = some (.error e)) ∧ d.fails = true
      ∨ p.round.1 = some (.ok .ended) ∧ d.fails = false ∧ d.drained = true ∧ d.looped = false := by
  -- nothing is ready, so the round restarts, ends or feeds
  have hround : p.round
      = if p.flushed then if !p.looped then (some (.ok .ended), p) else p.restart else p.feed := by
    unfold round
    rw [hready]
  rw [hround, h.flushed, h.looped]
  unfold Devices.fails
  cases hdrained : d.drained with
  | false =>
    rw [if_neg Bool.false_ne_true, if_neg Bool.false_ne_true]
    unfold feed
    rw [h.demux, h.decoder]
    -- the demuxer's answer, then the decoder's
    rcases Demuxer.nextPacket d.demux with ⟨_ | _ | pkt, m⟩ <;> dsimp only
    · exact .inr (.inl ⟨⟨_, rfl⟩, rfl⟩)
    · rcases Decoder.flush d.decoder with ⟨_ | fs, c⟩
      · exact .inr (.inl ⟨⟨_, rfl⟩, rfl⟩)
      · exact .inl ⟨rfl, rfl⟩
    · rcases Decoder.decode d.decoder pkt with ⟨_ | fs, c⟩
      · exact .inr (.inl ⟨⟨_, rfl⟩, rfl⟩)
      · exact .inl ⟨rfl, rfl⟩
  | true =>
    cases d.looped with
    | false => exact .inr (.inr ⟨rfl, rfl, rfl, rfl⟩)
    | true =>
      rw [if_pos rfl, if_pos rfl, if_neg (by decide), Bool.true_and]
      unfold restart
      rw [h.demux]
      -- a failed rewind is an error too
      rcases Demuxer.rewind d.demux with ⟨_ | _, m⟩
      · exact .inr (.inl ⟨⟨_, rfl⟩, rfl⟩)
      · exact .inl ⟨rfl, rfl⟩

/-- A round that returns nothing found the queue empty. -/
theorem ready_of_round_none (h : p.round.1 = none) : p.ready = [] := by
  by_contra hready
  exact round_ne_none hready h

/-- Steps of a call that return nothing are as many steps of the devices, none of which fails. -/
theorem Given.after (h : Given D d got m p) {k : ℕ} (hnone : ∀ i < k, (p.after i).round.1 = none) :
    Given D d got (m + k) (p.after k) ∧ ∀ i < k,
      (d.after (m + i)).fails = false ∧ (p.after (i + 1)).ready = d.out (m + i) := by
  induction k with
  | zero => exact ⟨h, fun i hi => absurd hi i.not_lt_zero⟩
  | succ k ih =>
    -- the rounds so far, and the next
    obtain ⟨hgiven, hsteps⟩ := ih fun i hi => hnone i (Nat.lt_succ_of_lt hi)
    have hk := hnone k (Nat.lt_succ_self k)
    obtain ⟨hnext, hout⟩ := hgiven.step (ready_of_round_none hk)
    rw [← after_succ'] at hnext hout
    refine ⟨hnext, fun i hi => ?_⟩
    rcases Nat.lt_succ_iff_lt_or_eq.1 hi with hlt | rfl
    · exact hsteps i hlt
    · refine ⟨?_, hout⟩
      -- an answer is excluded by `hnone`
      rcases hgiven.drives.round_cases (ready_of_round_none hk) with
        ⟨-, hfails⟩ | ⟨⟨e, he⟩, -⟩ | ⟨he, -⟩
      · exact hfails
      · rw [he] at hk
        cases hk
      · rw [he] at hk
        cases hk

/-- Devices that neither fail nor put anything out for a while make a call go on. -/
theorem Given.goes_on (h : Given D d got m p) (hready : p.ready = []) {k : ℕ}
    (hfails : ∀ i < k, (d.after (m + i)).fails = false)
    (hended : ∀ i < k, (d.after (m + i)).drained = true → (d.after (m + i)).looped = true)
    (hout : ∀ i, i + 1 < k → d.out (m + i) = []) : ∀ i < k, (p.after i).round.1 = none := by
  induction k with
  | zero => exact fun i hi => absurd hi i.not_lt_zero
  | succ k ih =>
    have hnone := ih (fun i hi => hfails i (Nat.lt_succ_of_lt hi))
      (fun i hi => hended i (Nat.lt_succ_of_lt hi)) fun i hi => hout i (Nat.lt_succ_of_lt hi)
    obtain ⟨hgiven, hsteps⟩ := h.after hnone
    -- the last step gave no frame, so the next round has none either
    have hempty : (p.after k).ready = [] := by
      cases k with
      | zero => exact hready
      | succ k => rw [(hsteps k k.lt_succ_self).2, hout k (Nat.lt_succ_self _)]
    intro i hi
    rcases Nat.lt_succ_iff_lt_or_eq.1 hi with hlt | rfl
    · exact hnone i hlt
    -- the devices go on, so the round does not answer
    rcases hgiven.drives.round_cases hempty with ⟨hround, -⟩ | ⟨-, hbad⟩ | ⟨-, -, hd, hl⟩
    · exact hround
    · rw [hfails i hi] at hbad
      cases hbad
    · rw [hended i hi hd] at hl
      cases hl

end Given

/-! ### Calls and the devices -/

theorem returned_succ (p : Pipeline δ κ) (n : ℕ) :
    p.returned (n + 1) = p.returned n ++ (frameOf (p.result n)).toList := by
  unfold returned
  rw [List.replicate_succ', Machine.outputs_append, List.filterMap_append, Machine.outputs_cons,
    Machine.outputs_nil]
  rfl

section Calls

variable {D : ℕ} {d : Devices δ κ} {m n : ℕ} {p : Pipeline δ κ}

/-- A call ends with the first step that returns something. -/
theorem call_of_round {k : ℕ} (hk : k < 4096)
    (hnone : ∀ i < k, ((p.before n).after i).round.1 = none) {r : PipeResult Next}
    (hsome : ((p.before n).after k).round.1 = some r) :
    p.result n = r ∧ p.before (n + 1) = ((p.before n).after k).round.2 := by
  rcases p.before_cases n with ⟨k', hk', hnone', hsome', hstate⟩ | ⟨hall, -, -⟩
  · rcases Nat.lt_trichotomy k k' with hlt | rfl | hlt
    · rw [hnone' k hlt] at hsome
      cases hsome
    · rw [hsome, Option.some.injEq] at hsome'
      exact ⟨hsome'.symm, hstate⟩
    · rw [hnone k' hlt] at hsome'
      cases hsome'
  · rw [hall k hk] at hsome
    cases hsome

/-- What one call does: it returns a frame from the queue, or the end, or fails. -/
theorem Given.call (h : Given D d (p.returned n) m (p.before n)) :
    ∃ m', Given D d (p.returned (n + 1)) m' (p.before (n + 1))
      ∧ ((∀ k < m, (d.after k).fails = false) → (∀ k, k + 1 < m' → (d.after k).fails = false)
        ∧ ((∀ e, p.result n ≠ .error e) → ∀ k < m', (d.after k).fails = false)) := by
  -- the steps of earlier calls and those of this one
  have hjoin : ∀ {k : ℕ}, (∀ i < k, (d.after (m + i)).fails = false) →
      (∀ i < m, (d.after i).fails = false) → ∀ i < m + k, (d.after i).fails = false := by
    intro k hsteps hbefore i hi
    rcases Nat.lt_or_ge i m with hlt | hge
    · exact hbefore i hlt
    · obtain ⟨j, rfl⟩ := Nat.exists_eq_add_of_le hge
      exact hsteps j (by omega)
  rcases p.before_cases n with ⟨k, -, hnone, hsome, hstate⟩ | ⟨hnone, ⟨e, herror⟩, hstate⟩
  · obtain ⟨hgiven, hsteps⟩ := h.after hnone
    have hgood := hjoin fun i hi => (hsteps i hi).1
    rw [returned_succ, hstate]
    -- the round that answered: it gave a frame away, or its step was the last
    cases hready : ((p.before n).after k).ready with
    | cons f rest =>
      obtain ⟨g, hround, -, hpop⟩ := hgiven.pop hready
      rw [hsome, Option.some.injEq] at hround
      refine ⟨m + k, ?_, fun hbefore => ⟨fun i hi => hgood hbefore i (by omega),
        fun _ => hgood hbefore⟩⟩
      rw [hround]
      exact hpop
    | nil =>
      obtain ⟨hstep, -⟩ := hgiven.step hready
      -- it gave no frame
      have hframe : frameOf (p.result n) = none := by
        have hnothing := (tick_step hgiven.drives hready).2.1
        unfold tick at hnothing
        rwa [hsome] at hnothing
      refine ⟨m + k + 1, ?_, fun hbefore => ⟨fun i hi => hgood hbefore i (by omega),
        fun hok i hi => ?_⟩⟩
      · rw [hframe, Option.toList_none, List.append_nil]
        exact hstep
      · rcases Nat.lt_succ_iff_lt_or_eq.1 hi with hlt | rfl
        · exact hgood hbefore i hlt
        -- it fails only when the call does
        · rcases hgiven.drives.round_cases hready with ⟨-, hfine⟩ | ⟨⟨e, he⟩, -⟩ | ⟨-, hfine, -⟩
          · exact hfine
          · rw [hsome, Option.some.injEq] at he
            exact absurd he (hok e)
          · exact hfine
  -- the step limit: all 4096 steps went well
  · obtain ⟨hgiven, hsteps⟩ := h.after hnone
    have hgood := hjoin fun i hi => (hsteps i hi).1
    rw [returned_succ, hstate, herror]
    refine ⟨m + 4096, ?_, fun hbefore => ⟨fun i hi => hgood hbefore i (by omega),
      fun _ => hgood hbefore⟩⟩
    rw [show frameOf (.error e : PipeResult Next) = none from rfl, Option.toList_none,
      List.append_nil]
    exact hgiven

theorem given_before (h : Drives D p d) (hready : p.ready = [])
    (hok : ∀ j < n, ∀ e, p.result j ≠ .error e) :
    ∃ m, Given D d (p.returned n) m (p.before n) ∧ ∀ k < m, (d.after k).fails = false := by
  induction n with
  | zero =>
    refine ⟨0, ⟨h, ?_⟩, fun k hk => absurd hk k.not_lt_zero⟩
    rw [show (p.before 0).ready = [] from hready]
    rfl
  | succ n ih =>
    obtain ⟨m, hgiven, hfine⟩ := ih fun j hj => hok j (Nat.lt_succ_of_lt hj)
    obtain ⟨m', hnext, hgood⟩ := hgiven.call
    exact ⟨m', hnext, (hgood hfine).2 (hok n n.lt_succ_self)⟩

/-- **The frames of a run** are those of the devices up to their first failure. -/
theorem frames_of_runs (h : Drives D p d) (hready : p.ready = []) (hruns : Runs p n) :
    ∃ m, (∀ k, k + 1 < m → (d.after k).fails = false)
      ∧ (p.returned n).length + (p.before n).ready.length = (d.emitted m).length
      ∧ p.returned n <+: (d.emitted m).map (raise D) := by
  have hgiven : ∃ m, Given D d (p.returned n) m (p.before n)
      -- the calls before the last have no error, the last may
      ∧ ∀ k, k + 1 < m → (d.after k).fails = false := by
    cases n with
    | zero =>
      obtain ⟨m, hgiven, hfine⟩ :=
        given_before (n := 0) h hready fun j hj => absurd hj j.not_lt_zero
      exact ⟨m, hgiven, fun k hk => hfine k (Nat.lt_of_succ_lt hk)⟩
    | succ n =>
      obtain ⟨m, hgiven, hfine⟩ := given_before h hready fun j hj => hruns j (Nat.succ_lt_succ hj)
      obtain ⟨m', hnext, hgood⟩ := hgiven.call
      exact ⟨m', hnext, (hgood hfine).1⟩
  obtain ⟨m, hgiven, hfine⟩ := hgiven
  refine ⟨m, hfine, ?_, ⟨_, hgiven.frames⟩⟩
  have hlength := congrArg List.length hgiven.frames
  rwa [List.length_append, List.length_map, List.length_map, List.length_map] at hlength

end Calls

/-! ### The start of a call -/

section Starts

variable {D : ℕ} {d : Devices δ κ} {m n : ℕ} {p : Pipeline δ κ}

/-- A call that follows frames only starts at the beginning or right after a step with frames, and
before that no 4096 steps in a row were without a frame. -/
theorem start_of_call (h : Drives D p d) (hready : p.ready = [])
    (hframes : ∀ j < n, ∃ f, p.result j = .ok (.frame f)) :
    ∃ m, Given D d (p.returned n) m (p.before n) ∧ (∀ k < m, (d.after k).fails = false)
      ∧ (∀ l, m = l + 1 → d.out l ≠ []) ∧ ∀ k, k + 4096 ≤ m → ∃ j < 4096, d.out (k + j) ≠ [] := by
  induction n with
  | zero =>
    obtain ⟨m, hgiven, hfine⟩ := given_before (n := 0) h hready fun j hj => absurd hj j.not_lt_zero
    refine ⟨0, ⟨h, ?_⟩, fun k hk => absurd hk k.not_lt_zero, fun l hl => (nomatch hl),
      fun k hk => absurd hk (by omega)⟩
    rw [show (p.before 0).ready = [] from hready]
    rfl
  | succ n ih =>
    obtain ⟨m, hgiven, hfine, hstart, hwindow⟩ := ih fun j hj => hframes j (Nat.lt_succ_of_lt hj)
    obtain ⟨f, hf⟩ := hframes n n.lt_succ_self
    rcases p.before_cases n with ⟨k, hk, hnone, hsome, hstate⟩ | ⟨-, ⟨e, he⟩, -⟩
    swap
    · rw [hf] at he
      cases he
    obtain ⟨hafter, hsteps⟩ := hgiven.after hnone
    -- the frame was in the queue, so the step before put it there
    obtain ⟨g, rest, hqueue⟩ : ∃ g rest, ((p.before n).after k).ready = g :: rest := by
      refine List.exists_cons_of_ne_nil fun hempty => ?_
      have hnothing := (tick_step hafter.drives hempty).2.1
      unfold tick at hnothing
      rw [hsome, hf] at hnothing
      cases hnothing
    obtain ⟨g', hround, -, hpop⟩ := hafter.pop hqueue
    rw [hsome, Option.some.injEq] at hround
    refine ⟨m + k, ?_, fun i hi => ?_, fun l hl => ?_, fun i hi => ?_⟩
    · rw [returned_succ, hstate, hround]
      exact hpop
    · rcases Nat.lt_or_ge i m with hlt | hge
      · exact hfine i hlt
      · obtain ⟨j, rfl⟩ := Nat.exists_eq_add_of_le hge
        exact (hsteps j (by omega)).1
    · cases k with
      | zero => exact hstart l hl
      | succ k =>
        obtain rfl : l = m + k := by omega
        rw [← (hsteps k k.lt_succ_self).2, hqueue]
        exact List.cons_ne_nil _ _
    · rcases Nat.lt_or_ge m (i + 4096) with hlt | hge
      swap
      · exact hwindow i hge
      cases m with
      | zero => exact absurd hk (by omega)
      | succ m =>
        refine ⟨m - i, by omega, ?_⟩
        rw [Nat.add_sub_cancel' (by omega)]
        exact hstart m rfl

/-- Calls return what waits in the queue. -/
theorem calls_drain (h : Given D d (p.returned n) m (p.before n)) :
    ∃ n', n ≤ n' ∧ (∀ j, n ≤ j → j < n' → ∃ f, p.result j = .ok (.frame f))
      ∧ Given D d (p.returned n') m (p.before n') ∧ (p.before n').ready = [] := by
  -- induction on what is left of the queue
  generalize hqueue : (p.before n).ready = queue
  induction queue generalizing n with
  | nil => exact ⟨n, le_rfl, fun j hj hlt => absurd hlt (Nat.not_lt_of_le hj), h, hqueue⟩
  | cons f rest ih =>
    obtain ⟨g, hround, hrest, hpop⟩ := h.pop hqueue
    -- a call whose first round has a frame
    obtain ⟨hresult, hstate⟩ := call_of_round (n := n) (k := 0) (by decide)
      (fun i hi => absurd hi i.not_lt_zero) hround
    rw [show ((p.before n).after 0).round.2 = (p.before n).round.2 from rfl] at hstate
    rw [← hstate] at hrest hpop
    -- it is the frame that is given away
    have hframe : p.returned (n + 1) = p.returned n ++ [g] := by
      rw [returned_succ, hresult]
      rfl
    rw [← hframe] at hpop
    obtain ⟨n', hle, hframes, hgiven, hempty⟩ := ih hpop hrest
    refine ⟨n', Nat.le_of_succ_le hle, fun j hj hlt => ?_, hgiven, hempty⟩
    rcases Nat.eq_or_lt_of_le hj with rfl | hj
    · exact ⟨g, hresult⟩
    · exact hframes j hj hlt

/-- Calls get past a step with frames when fewer than 4095 steps without one come before it. -/
theorem calls_reach (h : Given D d (p.returned n) m (p.before n)) (hready : (p.before n).ready = [])
    {t : ℕ} (ht : t < 4095) (hfails : ∀ i < t + 1, (d.after (m + i)).fails = false)
    (hempty : ∀ i < t, d.out (m + i) = []) (hout : d.out (m + t) ≠ []) :
    ∃ n', n ≤ n' ∧ (∀ j, n ≤ j → j < n' → ∃ f, p.result j = .ok (.frame f))
      ∧ Given D d (p.returned n') (m + t + 1) (p.before n') ∧ (p.before n').ready = [] := by
  -- a file that is over gives no frames any more
  have hended : ∀ i < t + 1, (d.after (m + i)).drained = true →
      (d.after (m + i)).looped = true := by
    intro i hi hd
    by_contra hl
    refine hout ?_
    rw [show m + t = m + i + (t - i) by omega]
    exact Devices.out_of_ended hd (Bool.eq_false_of_not_eq_true hl) _
  -- so the steps up to `t` go without an answer
  have hnone := h.goes_on hready hfails hended fun i hi => hempty i (Nat.lt_of_succ_lt_succ hi)
  obtain ⟨hafter, hsteps⟩ := h.after hnone
  have hqueue := (hsteps t t.lt_succ_self).2
  obtain ⟨f, rest, hcons⟩ := List.exists_cons_of_ne_nil hout
  rw [hcons] at hqueue
  obtain ⟨g, hround, -, hpop⟩ := hafter.pop hqueue
  -- the frame is there before the limit
  obtain ⟨hresult, hstate⟩ := call_of_round (Nat.succ_lt_succ ht) hnone hround
  have hframe : p.returned (n + 1) = p.returned n ++ [g] := by
    rw [returned_succ, hresult]
    rfl
  rw [← hstate, ← hframe] at hpop
  -- and then the queue
  obtain ⟨n', hle, hframes, hgiven, hdone⟩ := calls_drain hpop
  refine ⟨n', Nat.le_of_succ_le hle, fun j hj hlt => ?_, hgiven, hdone⟩
  rcases Nat.eq_or_lt_of_le hj with rfl | hj
  · exact ⟨g, hresult⟩
  · exact hframes j hj hlt

/-- **Calls start everywhere**: at each step that is the first one or follows one with frames, if
frames came in time up to there. -/
theorem call_of_start (h : Drives D p d) (hready : p.ready = [])
    (hstart : ∀ l, m = l + 1 → d.out l ≠ []) (hfails : ∀ k < m, (d.after k).fails = false)
    (hwindow : ∀ k, k + 4096 ≤ m → ∃ j < 4096, d.out (k + j) ≠ [])
    (htime : ∀ k, k + 4095 < m → d.out (k + 4095) ≠ [] → ∃ j < 4095, d.out (k + j) ≠ []) :
    ∃ n, (∀ j < n, ∃ f, p.result j = .ok (.frame f))
      ∧ Given D d (p.returned n) m (p.before n) ∧ (p.before n).ready = [] := by
  induction m using Nat.strong_induction_on with
  | _ m ih =>
    cases m with
    | zero =>
      refine ⟨0, fun j hj => absurd hj j.not_lt_zero, ⟨h, ?_⟩, hready⟩
      rw [show (p.before 0).ready = [] from hready]
      rfl
    | succ i =>
      -- the call that gets past step `i` starts after the last step with frames before it
      obtain ⟨k, hk, hbefore, hempty⟩ := d.exists_start i
      obtain ⟨t, rfl⟩ := Nat.exists_eq_add_of_le hk
      obtain ⟨n, hframes, hgiven, hqueue⟩ := ih k (by omega) hbefore
        (fun l hl => hfails l (by omega)) (fun l hl => hwindow l (by omega))
        fun l hl => htime l (by omega)
      have hnothing : ∀ j < t, d.out (k + j) = [] :=
        fun j hj => hempty (k + j) (Nat.le_add_right k j) (by omega)
      have ht : t < 4095 := by
        rcases Nat.lt_trichotomy t 4095 with hlt | rfl | hgt
        · exact hlt
        · obtain ⟨j, hj, hout⟩ := htime k (by omega) (hstart _ rfl)
          exact absurd (hnothing j hj) hout
        · obtain ⟨j, hj, hout⟩ := hwindow k (by omega)
          exact absurd (hnothing j (by omega)) hout
      obtain ⟨n', hle, hmore, hnext, hdone⟩ := calls_reach hgiven hqueue ht
        (fun j hj => hfails (k + j) (by omega)) hnothing (hstart _ rfl)
      refine ⟨n', fun j hj => ?_, hnext, hdone⟩
      rcases Nat.lt_or_ge j n with hlt | hge
      · exact hframes j hlt
      · exact hmore j hge hj

end Starts

/-! ### The law -/

section New

variable (demux : δ) (decoder : κ) (looped : Bool)

omit [Decoder κ] in
theorem drives_start :
    Drives (passLength demux) (new demux decoder looped) (Devices.start demux decoder looped) :=
  ⟨rfl, rfl, rfl, rfl, (Nat.zero_mul _).symm, rfl⟩

variable {D : ℕ} {p : Pipeline δ κ} {d : Devices δ κ} {n : ℕ}

/-- The last step that a call may make puts nothing into the queue when frames come in time. -/
theorem last_puts_nil (h : Drives D p d) (hready : p.ready = []) (htime : d.InTime)
    (hframes : ∀ j < n, ∃ f, p.result j = .ok (.frame f))
    (hnone : ∀ i < 4096, ((p.before n).after i).round.1 = none) :
    ((p.before n).after 4095).puts = [] := by
  obtain ⟨m, hgiven, hfine, hstart, hwindow⟩ := start_of_call h hready hframes
  obtain ⟨-, hsteps⟩ := hgiven.after hnone
  have hputs : ((p.before n).after 4095).puts = d.out (m + 4095) := by
    rw [puts, if_pos (ready_of_round_none (hnone 4095 (by decide))), ← after_succ']
    exact (hsteps 4095 (by decide)).2
  rw [hputs]
  by_contra hout
  have hfails : ∀ k ≤ m + 4095, (d.after k).fails = false := by
    intro k hk
    rcases Nat.lt_or_ge k m with hlt | hge
    · exact hfine k hlt
    · obtain ⟨i, rfl⟩ := Nat.exists_eq_add_of_le hge
      exact (hsteps i (by omega)).1
  -- a stretch that reaches into this call has the frames right before it
  have hstretch : ∀ k, k + 4096 ≤ m + 4095 → ∃ j < 4096, d.out (k + j) ≠ [] := by
    intro k hk
    rcases Nat.lt_or_ge m (k + 4096) with hlt | hge
    · cases m with
      | zero => exact absurd hk (by omega)
      | succ m =>
        refine ⟨m - k, by omega, ?_⟩
        rw [Nat.add_sub_cancel' (by omega)]
        exact hstart m rfl
    · exact hwindow k hge
  obtain ⟨j, hj, hframe⟩ := htime m hfails hstretch hout
  rw [← (hsteps j (by omega)).2] at hframe
  exact hframe (ready_of_round_none (hnone (j + 1) (by omega)))

/-- When no call is cut short with frames in its queue, frames come in time. -/
theorem inTime_of_delivers (h : Drives D p d) (hready : p.ready = [])
    (hdelivers : ∀ n, Runs p n → Delivers D p d n) : d.InTime := by
  intro m
  induction m using Nat.strong_induction_on with
  | _ m ih =>
    intro hfails hwindow hout
    by_contra hempty
    have hnothing : ∀ j < 4095, d.out (m + j) = [] := by
      intro j hj
      by_contra hframe
      exact hempty ⟨j, hj, hframe⟩
    have hstart : ∀ l, m = l + 1 → d.out l ≠ [] := by
      rintro l rfl hnil
      obtain ⟨j, hj, hframe⟩ := hwindow l (by omega)
      cases j with
      | zero => exact hframe hnil
      | succ j =>
        refine hframe ?_
        rw [show l + (j + 1) = l + 1 + j by omega]
        exact hnothing j (by omega)
    obtain ⟨n, hframes, hgiven, hqueue⟩ := call_of_start h hready hstart
      (fun k hk => hfails k (by omega)) (fun k hk => hwindow k (by omega))
      fun k hk => ih k (by omega) (fun l hl => hfails l (by omega)) fun l hl => hwindow l (by omega)
    have hended : ∀ i < 4096, (d.after (m + i)).drained = true →
        (d.after (m + i)).looped = true := by
      intro i hi hd
      by_contra hl
      refine hout ?_
      rw [show m + 4095 = m + i + (4095 - i) by omega]
      exact Devices.out_of_ended hd (Bool.eq_false_of_not_eq_true hl) _
    have hnone := hgiven.goes_on hqueue (k := 4096) (fun i hi => hfails (m + i) (by omega)) hended
      fun i hi => hnothing i (by omega)
    obtain ⟨-, hsteps⟩ := hgiven.after hnone
    -- the call that starts here makes all its steps, and the last one has frames
    have hruns : Runs p (n + 1) := by
      intro j hj e he
      obtain ⟨f, hf⟩ := hframes j (Nat.lt_of_succ_lt_succ hj)
      rw [hf] at he
      cases he
    rcases p.before_cases n with ⟨k, hk, -, hsome, -⟩ | ⟨-, ⟨e, he⟩, -⟩
    · rw [hnone k hk] at hsome
      cases hsome
    rcases (hdelivers _ hruns).fails n n.lt_succ_self e he with ⟨i, hi, herror⟩ | hputs
    · rw [hnone i hi] at herror
      cases herror
    · have hlast := hputs 4095 (by decide)
      rw [puts, if_pos (ready_of_round_none (hnone 4095 (by decide))), ← after_succ',
        (hsteps 4095 (by decide)).2] at hlast
      exact hout hlast

end New

end Pipeline

/-! ### Frames in the last step -/

/-- Gives one frame when the file is at its end. -/
structure LateDecoder where

instance : Decoder LateDecoder where
  name _ := "late"
  decode c _ := (.ok [], c)
  flush c := (.ok [{ pts := 0, data := .cpu (.fromBgra 1 1 [0, 0, 0, 255]) }], c)
  reset c := c

/-- While there are packets the steps read them. -/
theorem after_late (n : ℕ) {i : ℕ} (hi : i ≤ n) :
    (Pipeline.new (FakeDemux.new n 1 none) LateDecoder.mk true).after i
      = Pipeline.new { FakeDemux.new n 1 none with pos := i } LateDecoder.mk true := by
  induction i with
  | zero => rfl
  | succ i ih =>
    rw [Pipeline.after_succ', ih (Nat.le_of_succ_le hi)]
    have hnext : Demuxer.nextPacket { FakeDemux.new n 1 none with pos := i } = _ :=
      if_neg (Nat.not_le_of_lt hi)
    unfold Pipeline.round Pipeline.new Pipeline.feed
    dsimp only
    rw [if_neg Bool.false_ne_true, hnext]
    rfl

/-- The step after that one flushes. -/
theorem round_late (n : ℕ) {i : ℕ} (hi : i ≤ n) :
    ((Pipeline.new (FakeDemux.new n 1 none) LateDecoder.mk true).after i).round.1 = none
      ∧ (i = n →
        ((Pipeline.new (FakeDemux.new n 1 none) LateDecoder.mk true).after i).puts ≠ []) := by
  rw [after_late n hi]
  unfold Pipeline.puts Pipeline.round Pipeline.new Pipeline.feed
  dsimp only
  rw [if_pos rfl, if_neg Bool.false_ne_true]
  rcases Nat.lt_or_ge i n with hlt | hge
  · have hnext : Demuxer.nextPacket { FakeDemux.new n 1 none with pos := i } = _ :=
      if_neg (Nat.not_le_of_lt hlt)
    rw [hnext]
    exact ⟨rfl, fun heq => absurd heq hlt.ne⟩
  · have hnext : Demuxer.nextPacket { FakeDemux.new n 1 none with pos := i } = _ := if_pos hge
    rw [hnext]
    exact ⟨rfl, fun _ => List.cons_ne_nil _ _⟩

end NoshareCover
