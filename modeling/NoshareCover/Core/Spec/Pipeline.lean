import NoshareCover.Core.Video.Pipeline
import NoshareCover.Lib.Run
import Mathlib.Tactic.Ring

/-!
# Looping and time

`Devices` is the demuxer and the decoder without the queue: what they put out, step by step, and
in which pass over the file.  `next_frame` called again and again returns exactly that stream, the
frames of pass `k` raised by `k` durations (`returned_prefix`, `emitted_prefix`), so its pts never
decrease exactly when the duration in the container covers the passes (`returned_sorted_iff`).
-/

namespace NoshareCover

/-! ### The devices on their own -/

/-- A demuxer and a decoder in the `pass`-th reading of the file. -/
structure Devices (δ κ : Type*) where
  demux : δ
  decoder : κ
  looped : Bool
  /-- The end of the file was reached and the decoder flushed. -/
  drained : Bool
  pass : ℕ

namespace Devices

variable {δ κ : Type*} [Demuxer δ] [Decoder κ]

/-- What the devices put out next: the frames of one packet, or of the flush at the end of the
file; then the file is rewound. -/
def step (d : Devices δ κ) : Devices δ κ × List DecodedFrame :=
  if d.drained then
    if d.looped then
      match Demuxer.rewind d.demux with
      | (.error _, m) => ({ d with demux := m, pass := d.pass + 1 }, [])
      | (.ok (), m) =>
        ({ d with demux := m, decoder := Decoder.reset d.decoder, drained := false,
                  pass := d.pass + 1 }, [])
    else (d, [])
  else
    match Demuxer.nextPacket d.demux with
    | (.error _, m) => ({ d with demux := m }, [])
    | (.ok (some pkt), m) =>
      match Decoder.decode d.decoder pkt with
      | (.error _, c) => ({ d with demux := m, decoder := c }, [])
      | (.ok fs, c) => ({ d with demux := m, decoder := c }, fs)
    | (.ok none, m) =>
      match Decoder.flush d.decoder with
      | (.error _, c) => ({ d with demux := m, decoder := c }, [])
      | (.ok fs, c) => ({ d with demux := m, decoder := c, drained := true }, fs)

/-- The devices as a machine that shows each frame with its pass. -/
def tick (d : Devices δ κ) (_ : Unit) : Devices δ κ × List (ℕ × DecodedFrame) :=
  (d.step.1, d.step.2.map (d.pass, ·))

/-- The frames of the first `n` steps, each with its pass. -/
def emitted (d : Devices δ κ) (n : ℕ) : List (ℕ × DecodedFrame) :=
  (Machine.outputs tick d (List.replicate n ())).flatten

/-- Within one pass the frames come in nondecreasing pts order. -/
def PassesSorted (d : Devices δ κ) : Prop :=
  ∀ n k, ((d.emitted n).filter (fun x => x.1 = k)).Pairwise fun x y => x.2.pts ≤ y.2.pts

@[simp] theorem emitted_zero (d : Devices δ κ) : d.emitted 0 = [] := rfl

theorem emitted_succ (d : Devices δ κ) (n : ℕ) :
    d.emitted (n + 1) = d.step.2.map (d.pass, ·) ++ d.step.1.emitted n := rfl

/-- A step either stays in its pass or starts the next one without a frame. -/
theorem step_pass (d : Devices δ κ) :
    d.step.1.pass = d.pass ∨ d.step.1.pass = d.pass + 1 ∧ d.step.2 = [] := by
  unfold step
  split_ifs with hd hl
  · split
    · exact Or.inr ⟨rfl, rfl⟩
    · exact Or.inr ⟨rfl, rfl⟩
  · exact Or.inl rfl
  · split
    · exact Or.inl rfl
    · split <;> exact Or.inl rfl
    · split <;> exact Or.inl rfl

theorem pass_le_step (d : Devices δ κ) : d.pass ≤ d.step.1.pass := by
  rcases d.step_pass with h | ⟨h, -⟩ <;> omega

theorem pass_le_of_mem_emitted {d : Devices δ κ} {n : ℕ} {x : ℕ × DecodedFrame}
    (hx : x ∈ d.emitted n) : d.pass ≤ x.1 := by
  induction n generalizing d with
  | zero => cases hx
  | succ n ih =>
    rw [emitted_succ, List.mem_append, List.mem_map] at hx
    rcases hx with ⟨f, -, rfl⟩ | hx
    · exact le_rfl
    · exact le_trans d.pass_le_step (ih hx)

theorem pairwise_same {d : Devices δ κ} (h : d.PassesSorted) (n : ℕ) :
    (d.emitted n).Pairwise fun x y => x.1 = y.1 → x.2.pts ≤ y.2.pts := by
  rw [List.pairwise_iff_forall_sublist]
  intro x y hxy heq
  have hfilter := hxy.filter (fun z => z.1 = y.1)
  rw [List.filter_cons_of_pos (by simpa using heq), List.filter_cons_of_pos (by simp)] at hfilter
  exact List.pairwise_iff_forall_sublist.mp (h n y.1) hfilter

/-- Passes are in order when no step inside a pass lowers a bound `low` between the frames that
were put out and those still to come. -/
theorem passesSorted_of_bound {I : Devices δ κ → Prop} (low : Devices δ κ → ℕ)
    (hkeep : ∀ d, I d → I d.step.1)
    (hframes : ∀ d, I d → d.step.2.Pairwise (fun f g => f.pts ≤ g.pts) ∧
      ∀ f ∈ d.step.2, low d ≤ f.pts)
    (hlow : ∀ d, I d → d.step.1.pass = d.pass →
      low d ≤ low d.step.1 ∧ ∀ f ∈ d.step.2, f.pts ≤ low d.step.1)
    {d : Devices δ κ} (h0 : I d) : d.PassesSorted := by
  -- frames of the pass are not below what it has reached
  have hbound : ∀ n d, I d → ∀ x ∈ d.emitted n, x.1 = d.pass → low d ≤ x.2.pts := by
    intro n
    induction n with
    | zero => exact fun d _ x hx => absurd hx List.not_mem_nil
    | succ n ih =>
      intro d hI x hx hpass
      rw [emitted_succ, List.mem_append, List.mem_map] at hx
      rcases hx with ⟨f, hf, rfl⟩ | hx
      · exact (hframes d hI).2 f hf
      · have hle := pass_le_of_mem_emitted hx
        have hsame : d.step.1.pass = d.pass := le_antisymm (hpass ▸ hle) d.pass_le_step
        exact le_trans (hlow d hI hsame).1 (ih _ (hkeep d hI) x hx (hpass.trans hsame.symm))
  -- the frames of one step, then those behind it
  intro n k
  induction n generalizing d with
  | zero => exact List.Pairwise.nil
  | succ n ih =>
    rw [emitted_succ, List.filter_append, List.pairwise_append]
    refine ⟨?_, ih (hkeep d h0), ?_⟩
    · refine List.Pairwise.filter _ (List.pairwise_map.mpr ?_)
      exact (hframes d h0).1
    · intro x hx y hy
      obtain ⟨hx, hxk⟩ := List.mem_filter.mp hx
      obtain ⟨hy, hyk⟩ := List.mem_filter.mp hy
      obtain ⟨f, hf, rfl⟩ := List.mem_map.mp hx
      -- both are of one pass, and so is the step between them
      have hpass : y.1 = d.pass := (of_decide_eq_true hyk).trans (of_decide_eq_true hxk).symm
      have hle := pass_le_of_mem_emitted hy
      have hsame : d.step.1.pass = d.pass := le_antisymm (hpass ▸ hle) d.pass_le_step
      exact le_trans ((hlow d h0 hsame).2 f hf)
        (hbound n _ (hkeep d h0) y hy (hpass.trans hsame.symm))

/-- Passes come one after the other. -/
theorem emitted_passes (d : Devices δ κ) (n : ℕ) :
    (d.emitted n).Pairwise fun x y => x.1 ≤ y.1 := by
  induction n generalizing d with
  | zero => exact List.Pairwise.nil
  | succ n ih =>
    rw [emitted_succ, List.pairwise_append]
    refine ⟨?_, ih _, ?_⟩
    · rw [List.pairwise_map]
      exact List.pairwise_of_forall fun _ _ => le_rfl
    · intro x hx y hy
      obtain ⟨f, -, rfl⟩ := List.mem_map.mp hx
      exact le_trans d.pass_le_step (pass_le_of_mem_emitted hy)

end Devices

/-! ### The pipeline follows the devices -/

namespace Pipeline

variable {δ κ : Type*} [Demuxer δ] [Decoder κ]

/-- The frame a call or a round returns, if it returns one. -/
def frameOf : PipeResult Next → Option DecodedFrame
  | .ok (.frame f) => some f
  | _ => none

/-- `next_frame` as a machine. -/
def call (p : Pipeline δ κ) (_ : Unit) : Pipeline δ κ × PipeResult Next :=
  (p.nextFrame.2, p.nextFrame.1)

/-- The frames returned by `n` calls of `next_frame` one after the other. -/
def returned (p : Pipeline δ κ) (n : ℕ) : List DecodedFrame :=
  (Machine.outputs call p (List.replicate n ())).filterMap frameOf

/-- The loop in `next_frame`, round by round, as if it had no limit. -/
def tick (p : Pipeline δ κ) (_ : Unit) : Pipeline δ κ × Option DecodedFrame :=
  (p.round.2, p.round.1.bind frameOf)

/-- The frames the first `n` rounds return. -/
def popped (p : Pipeline δ κ) (n : ℕ) : List DecodedFrame :=
  (Machine.outputs tick p (List.replicate n ())).filterMap id

/-- The pipeline drives these devices: same objects, and the offset counts their passes. -/
structure Drives (D : ℕ) (p : Pipeline δ κ) (d : Devices δ κ) : Prop where
  demux : p.demux = d.demux
  decoder : p.decoder = d.decoder
  flushed : p.flushed = d.drained
  looped : p.looped = d.looped
  offset : p.loopOffset = d.pass * D
  duration : (Demuxer.info d.demux).duration.getD 0 = D

/-- A frame of pass `x.1` as `next_frame` returns it: raised by that many durations. -/
def raise (D : ℕ) (x : ℕ × DecodedFrame) : DecodedFrame := { x.2 with pts := x.2.pts + x.1 * D }

theorem popped_succ (p : Pipeline δ κ) (n : ℕ) :
    p.popped (n + 1) = (p.tick ()).2.toList ++ (p.tick ()).1.popped n := by
  unfold popped
  rw [List.replicate_succ, Machine.outputs_cons]
  cases (p.tick ()).2 with
  | none => simp
  | some f => simp

theorem popped_add (p : Pipeline δ κ) (m n : ℕ) :
    p.popped (m + n) = p.popped m ++ (Machine.run tick p (List.replicate m ())).popped n := by
  unfold popped
  rw [List.replicate_add, Machine.outputs_append, List.filterMap_append]

/-- A round with a frame in the queue returns it. -/
theorem tick_pop {p : Pipeline δ κ} {f : DecodedFrame} {rest : List DecodedFrame}
    (h : p.ready = f :: rest) :
    p.tick () = ({ p with ready := rest }, some { f with pts := f.pts + p.loopOffset }) := by
  unfold tick round
  rw [h]
  rfl

/-- What `Drives` and an empty-queue round have to agree on after the round. -/
def Follows (D : ℕ) (r : Option (PipeResult Next) × Pipeline δ κ)
    (s : Devices δ κ × List DecodedFrame) : Prop :=
  Drives D r.2 s.1 ∧ r.1.bind frameOf = none ∧ r.2.ready = s.2

theorem restart_follows {D : ℕ} {p : Pipeline δ κ} {d : Devices δ κ} (h : Drives D p d)
    (hr : p.ready = []) (hd : d.drained = true) (hl : d.looped = true) :
    Follows D p.restart d.step := by
  have hinfo := Demuxer.info_rewind d.demux
  have hoff : p.loopOffset + (Demuxer.info p.demux).duration.getD 0 = (d.pass + 1) * D := by
    rw [h.demux, h.duration, h.offset]
    ring
  unfold restart Devices.step
  rw [if_pos hd, if_pos hl, hoff, h.demux]
  rcases hm : Demuxer.rewind d.demux with ⟨_ | _, m⟩
  · rw [hm] at hinfo
    exact ⟨⟨rfl, h.decoder, h.flushed, h.looped, rfl, hinfo ▸ h.duration⟩, rfl, hr⟩
  · rw [hm] at hinfo
    exact ⟨⟨rfl, by rw [h.decoder], rfl, h.looped, rfl, hinfo ▸ h.duration⟩, rfl, hr⟩

theorem feed_follows {D : ℕ} {p : Pipeline δ κ} {d : Devices δ κ} (h : Drives D p d)
    (hr : p.ready = []) (hd : d.drained = false) : Follows D p.feed d.step := by
  have hinfo := Demuxer.info_nextPacket d.demux
  unfold feed Devices.step
  rw [if_neg (by rw [hd]; exact Bool.false_ne_true), h.demux, h.decoder, hr]
  rcases hm : Demuxer.nextPacket d.demux with ⟨_ | _ | pkt, m⟩ <;> rw [hm] at hinfo <;> dsimp only
  · exact ⟨⟨rfl, rfl, h.flushed, h.looped, h.offset, hinfo ▸ h.duration⟩, rfl, rfl⟩
  · rcases Decoder.flush d.decoder with ⟨_ | fs, c⟩
    · exact ⟨⟨rfl, rfl, h.flushed, h.looped, h.offset, hinfo ▸ h.duration⟩, rfl, rfl⟩
    · exact ⟨⟨rfl, rfl, rfl, h.looped, h.offset, hinfo ▸ h.duration⟩, rfl, rfl⟩
  · rcases Decoder.decode d.decoder pkt with ⟨_ | fs, c⟩
    · exact ⟨⟨rfl, rfl, h.flushed, h.looped, h.offset, hinfo ▸ h.duration⟩, rfl, rfl⟩
    · exact ⟨⟨rfl, rfl, h.flushed, h.looped, h.offset, hinfo ▸ h.duration⟩, rfl, rfl⟩

/-- A round on an empty queue is a step of the devices. -/
theorem tick_step {D : ℕ} {p : Pipeline δ κ} {d : Devices δ κ} (h : Drives D p d)
    (hr : p.ready = []) :
    Drives D (p.tick ()).1 d.step.1 ∧ (p.tick ()).2 = none ∧
      (p.tick ()).1.ready = d.step.2 := by
  -- with nothing ready the round is a restart, the end, or a feed
  have hround : p.round
      = if p.flushed then if !p.looped then (some (.ok .ended), p) else p.restart else p.feed := by
    unfold round
    rw [hr]
  unfold tick
  rw [hround, h.flushed, h.looped]
  -- packets are left, or the pass is over
  cases hd : d.drained with
  | false => exact feed_follows h hr hd
  | true =>
    cases hl : d.looped with
    | true => exact restart_follows h hr hd hl
    | false =>
      have hstep : d.step = (d, []) := by
        unfold Devices.step
        rw [if_pos hd, if_neg (by rw [hl]; exact Bool.false_ne_true)]
      rw [hstep]
      exact ⟨h, rfl, hr⟩

/-- After a step of the devices its frames wait in the queue with the pass they belong to. -/
theorem raise_step (D : ℕ) (d : Devices δ κ) :
    (d.step.2.map (d.step.1.pass, ·)).map (raise D) = (d.step.2.map (d.pass, ·)).map (raise D) := by
  rcases d.step_pass with h | ⟨-, h⟩
  · rw [h]
  · rw [h]; rfl

/-- **Rounds follow the devices**: what `N` rounds returned and what is still queued is what the
devices put out in some number of steps, raised pass by pass. -/
theorem popped_follows {D : ℕ} (N : ℕ) {p : Pipeline δ κ} {d : Devices δ κ} (h : Drives D p d) :
    ∃ m rest, rest.length = (Machine.run tick p (List.replicate N ())).ready.length ∧
      p.popped N ++ rest =
        (p.ready.map (d.pass, ·)).map (raise D) ++ (d.emitted m).map (raise D) := by
  -- induction over the rounds, with the devices one step on where nothing was ready
  induction N generalizing p d with
  | zero =>
    refine ⟨0, (p.ready.map (d.pass, ·)).map (raise D), by simp, ?_⟩
    rw [Devices.emitted_zero, List.map_nil, List.append_nil]
    rfl
  | succ N ih =>
    rw [popped_succ, List.replicate_succ, Machine.run_cons]
    cases hq : p.ready with
    | nil =>
      obtain ⟨hd, hnone, hready⟩ := tick_step h hq
      obtain ⟨m, rest, hlen, heq⟩ := ih hd
      refine ⟨m + 1, rest, hlen, ?_⟩
      rw [hready, raise_step] at heq
      rw [hnone, Devices.emitted_succ, List.map_append]
      simpa using heq
    -- a frame that is ready is given away, the devices wait
    | cons f fs =>
      have hd : Drives D { p with ready := fs } d :=
        ⟨h.demux, h.decoder, h.flushed, h.looped, h.offset, h.duration⟩
      obtain ⟨m, rest, hlen, heq⟩ := ih hd
      refine ⟨m, rest, ?_, ?_⟩
      · rw [tick_pop hq]
        exact hlen
      · rw [tick_pop hq]
        simpa [raise, h.offset] using heq

/-- Rounds empty a queue. -/
theorem drain {D : ℕ} {p : Pipeline δ κ} {d : Devices δ κ} (h : Drives D p d) :
    p.popped p.ready.length = (p.ready.map (d.pass, ·)).map (raise D) ∧
      Machine.run tick p (List.replicate p.ready.length ()) = { p with ready := [] } := by
  -- induction on the queue
  generalize hq : p.ready = q
  induction q generalizing p with
  | nil =>
    cases p
    cases hq
    exact ⟨rfl, rfl⟩
  | cons f fs ih =>
    have hd : Drives D { p with ready := fs } d :=
      ⟨h.demux, h.decoder, h.flushed, h.looped, h.offset, h.duration⟩
    obtain ⟨hpop, hrun⟩ := ih hd rfl
    constructor
    · rw [List.length_cons, popped_succ, tick_pop hq, hpop, h.offset]
      rfl
    · rw [List.length_cons, List.replicate_succ, Machine.run_cons, tick_pop hq, hrun]

/-- **The rounds get everywhere**: every output of the devices is returned sooner or later. -/
theorem popped_reaches {D : ℕ} (m : ℕ) {p : Pipeline δ κ} {d : Devices δ κ} (h : Drives D p d) :
    ∃ N, p.popped N =
      (p.ready.map (d.pass, ·)).map (raise D) ++ (d.emitted m).map (raise D) := by
  -- the queue first, then what the next step gives
  obtain ⟨hpop, hrun⟩ := drain h
  induction m generalizing p d with
  | zero => exact ⟨_, by rw [hpop, Devices.emitted_zero, List.map_nil, List.append_nil]⟩
  | succ m ih =>
    have hd : Drives D { p with ready := [] } d :=
      ⟨h.demux, h.decoder, h.flushed, h.looped, h.offset, h.duration⟩
    obtain ⟨hd', hnone, hready⟩ := tick_step hd rfl
    obtain ⟨hpop', hrun'⟩ := drain hd'
    obtain ⟨N, hN⟩ := ih hd' hpop' hrun'
    refine ⟨p.ready.length + (N + 1), ?_⟩
    rw [popped_add, hpop, hrun, popped_succ, hnone, hN, hready, raise_step, Devices.emitted_succ,
      List.map_append]
    simp

/-- A call is a run of rounds, at least one; only the last of them can return a frame, and it is
the frame of the call. -/
theorem rounds_popped (n : ℕ) (p : Pipeline δ κ) :
    ∃ N, (frameOf (rounds (n + 1) p).1).toList = p.popped (N + 1) ∧
      (rounds (n + 1) p).2 = Machine.run tick p (List.replicate (N + 1) ()) := by
  induction n generalizing p with
  | zero =>
    refine ⟨0, ?_⟩
    rw [popped_succ, rounds]
    -- no answer yet, or the call is over
    rcases h : p.round with ⟨_ | r, q⟩
    · simp [tick, h, rounds, frameOf, popped]
    · simp [tick, h, popped]
  | succ n ih =>
    rw [rounds]
    rcases h : p.round with ⟨_ | r, q⟩
    · obtain ⟨N, hpop, hrun⟩ := ih q
      refine ⟨N + 1, ?_⟩
      rw [popped_succ, List.replicate_succ, Machine.run_cons, tick, h]
      exact ⟨hpop, hrun⟩
    · exact ⟨0, by rw [popped_succ, tick, h]; simp [popped], by simp [tick, h]⟩

theorem returned_popped (n : ℕ) (p : Pipeline δ κ) :
    ∃ N, n ≤ N ∧ p.returned n = p.popped N ∧
      Machine.run call p (List.replicate n ()) = Machine.run tick p (List.replicate N ()) := by
  induction n generalizing p with
  | zero => exact ⟨0, le_rfl, rfl, rfl⟩
  | succ n ih =>
    -- the rounds of this call, then those of the others
    obtain ⟨N, hpop, hrun⟩ := rounds_popped 4095 p
    obtain ⟨M, hM, hret, hstate⟩ := ih p.nextFrame.2
    have hcall : p.returned (n + 1) =
        (frameOf p.nextFrame.1).toList ++ p.nextFrame.2.returned n := by
      unfold returned
      rw [List.replicate_succ, Machine.outputs_cons, List.filterMap_cons]
      cases h : frameOf p.nextFrame.1 <;> simp [call, h]
    have hnext : p.nextFrame.2 = Machine.run tick p (List.replicate (N + 1) ()) := hrun
    refine ⟨N + 1 + M, by omega, ?_, ?_⟩
    · rw [hcall, hret, popped_add, ← hnext, ← hpop]
      rfl
    · rw [List.replicate_succ, Machine.run_cons]
      show Machine.run call p.nextFrame.2 _ = _
      rw [hstate, hnext, ← Machine.run_append, ← List.replicate_add]

theorem popped_prefix {m n : ℕ} (h : m ≤ n) (p : Pipeline δ κ) : p.popped m <+: p.popped n := by
  obtain ⟨k, rfl⟩ := Nat.exists_eq_add_of_le h
  rw [popped_add]
  exact List.prefix_append _ _

/-! ### Calls of `next_frame` and the stream of the devices -/

/-- The devices of a looped pipeline before its first call. -/
def devices (demux : δ) (decoder : κ) : Devices δ κ :=
  { demux, decoder, looped := true, drained := false, pass := 0 }

/-- What the container says about the length of the file, zero when it says nothing. -/
def passLength (demux : δ) : ℕ := (Demuxer.info demux).duration.getD 0

omit [Decoder κ] in
theorem drives_new (demux : δ) (decoder : κ) :
    Drives (passLength demux) (Pipeline.new demux decoder true) (devices demux decoder) :=
  ⟨rfl, rfl, rfl, rfl, (Nat.zero_mul _).symm, rfl⟩

/-- What the calls return is a beginning of the raised stream. -/
theorem returned_prefix (demux : δ) (decoder : κ) (n : ℕ) :
    ∃ m, (Pipeline.new demux decoder true).returned n <+:
      ((devices demux decoder).emitted m).map (raise (passLength demux)) := by
  obtain ⟨N, -, hN, -⟩ := returned_popped n (Pipeline.new demux decoder true)
  obtain ⟨m, rest, -, hm⟩ := popped_follows N (drives_new demux decoder)
  exact ⟨m, rest, by rw [hN, hm]; rfl⟩

/-- Every beginning of the raised stream is returned by some number of calls. -/
theorem emitted_prefix (demux : δ) (decoder : κ) (m : ℕ) :
    ∃ n, ((devices demux decoder).emitted m).map (raise (passLength demux)) <+:
      (Pipeline.new demux decoder true).returned n := by
  obtain ⟨n, hn⟩ := popped_reaches m (drives_new demux decoder)
  obtain ⟨N, hN, hret, -⟩ := returned_popped n (Pipeline.new demux decoder true)
  refine ⟨n, ?_⟩
  rw [hret]
  exact (hn ▸ popped_prefix hN _ : _)

/-- For two frames of a list whose passes are in order, the one of the earlier pass comes first. -/
theorem pairwise_of_lt {l : List (ℕ × DecodedFrame)} {R : ℕ × DecodedFrame → ℕ × DecodedFrame → Prop}
    (hpass : l.Pairwise fun x y => x.1 ≤ y.1) (hR : l.Pairwise R) {x y : ℕ × DecodedFrame}
    (hx : x ∈ l) (hy : y ∈ l) (hlt : x.1 < y.1) : R x y := by
  induction l with
  | nil => cases hx
  | cons z l ih =>
    rw [List.pairwise_cons] at hpass hR
    rcases List.mem_cons.mp hx with rfl | hx'
    · rcases List.mem_cons.mp hy with rfl | hy'
      · exact absurd hlt (lt_irrefl _)
      · exact hR.1 y hy'
    · rcases List.mem_cons.mp hy with rfl | hy'
      · exact absurd (hpass.1 x hx') (not_le.mpr hlt)
      · exact ih hpass.2 hR.2 hx' hy'

theorem raise_le_iff (D : ℕ) {x y : ℕ × DecodedFrame} (hlt : x.1 < y.1) :
    (raise D x).pts ≤ (raise D y).pts ↔ x.2.pts ≤ y.2.pts + (y.1 - x.1) * D := by
  have hmul : y.1 * D = x.1 * D + (y.1 - x.1) * D := by
    rw [← Nat.add_mul, Nat.add_sub_cancel' hlt.le]
  simp only [raise]
  omega

/-- **Looping and monotone time**: when the frames of each pass come in order, the pts returned by
successive calls of `next_frame` never decrease exactly if, for every two passes `i < j`, the
container's duration taken `j - i` times makes up for every frame of pass `i` that is later in the
file than a frame of pass `j`. -/
theorem returned_sorted_iff (demux : δ) (decoder : κ)
    (hsorted : (devices demux decoder).PassesSorted) :
    (∀ n, ((Pipeline.new demux decoder true).returned n).Pairwise fun f g => f.pts ≤ g.pts) ↔
      ∀ m, ∀ x ∈ (devices demux decoder).emitted m, ∀ y ∈ (devices demux decoder).emitted m,
        x.1 < y.1 → x.2.pts ≤ y.2.pts + (y.1 - x.1) * passLength demux := by
  constructor
  · intro h m x hx y hy hlt
    -- two frames of different passes are compared as they are raised
    obtain ⟨n, hn⟩ := emitted_prefix demux decoder m
    have hraised := (h n).sublist hn.sublist
    rw [List.pairwise_map] at hraised
    have hle := pairwise_of_lt ((devices demux decoder).emitted_passes m) hraised hx hy hlt
    exact (raise_le_iff _ hlt).mp hle
  · intro h n
    obtain ⟨m, hm⟩ := returned_prefix demux decoder n
    refine List.Pairwise.sublist hm.sublist ?_
    rw [List.pairwise_map]
    -- the same pass is sorted by itself
    refine (List.Pairwise.and_mem.mp ((devices demux decoder).emitted_passes m)).and
      (Devices.pairwise_same hsorted m) |>.imp ?_
    rintro x y ⟨⟨hx, hy, hle⟩, hsame⟩
    rcases Nat.eq_or_lt_of_le hle with heq | hlt
    · simp only [raise, heq]
      exact Nat.add_le_add_right (hsame heq) _
    · exact (raise_le_iff _ hlt).mpr (h m x hx y hy hlt)

end Pipeline

/-! ### A synthetic demuxer and decoder -/

/-- `frames` packets spaced by `step`. -/
structure FakeDemux where
  info : VideoInfo
  frames : ℕ
  step : ℕ
  pos : ℕ

/-- `duration` is what the container claims. -/
def FakeDemux.new (frames step : ℕ) (duration : Option ℕ) : FakeDemux :=
  { info := { width := 1, height := 1, duration, codec := .av1 }, frames, step, pos := 0 }

instance : Demuxer FakeDemux where
  info := FakeDemux.info
  nextPacket d :=
    if d.frames ≤ d.pos then (.ok none, d)
    else (.ok (some { pts := d.step * d.pos, keyframe := d.pos = 0, data := [d.pos.toUInt8] }),
      { d with pos := d.pos + 1 })
  rewind d := (.ok (), { d with pos := 0 })
  info_nextPacket d := by split <;> rfl
  info_rewind _ := rfl

/-- Holds one frame back, like real decoders with latency. -/
structure FakeDecoder where
  held : Option Packet

def FakeDecoder.out (p : Packet) : DecodedFrame :=
  let px := p.data.headD 0
  { pts := p.pts, data := .cpu (.fromBgra 1 1 [px, px, px, 255]) }

instance : Decoder FakeDecoder where
  name _ := "fake"
  decode c pkt := (.ok (c.held.map FakeDecoder.out).toList, { held := some pkt })
  flush c := (.ok (c.held.map FakeDecoder.out).toList, { held := none })
  reset _ := { held := none }

namespace FakeDemux

/-- The next frame to come out: the one held back, or that of the next packet. -/
def low (d : Devices FakeDemux FakeDecoder) : ℕ :=
  (d.decoder.held.map Packet.pts).getD (d.demux.step * d.demux.pos)

/-- What the decoder holds back was read before the current position. -/
def HeldBefore (d : Devices FakeDemux FakeDecoder) : Prop :=
  d.looped = true ∧ ∀ p ∈ d.decoder.held, p.pts ≤ d.demux.step * d.demux.pos

theorem step_cases {d : Devices FakeDemux FakeDecoder} (hl : d.looped = true) :
    d.step = ({ d with demux := { d.demux with pos := 0 }, decoder := { held := none },
                       drained := false, pass := d.pass + 1 }, []) ∨
    d.step = ({ d with decoder := { held := none }, drained := true },
      (d.decoder.held.map FakeDecoder.out).toList) ∨
    ∃ pkt, pkt.pts = d.demux.step * d.demux.pos ∧
      d.step = ({ d with demux := { d.demux with pos := d.demux.pos + 1 },
                         decoder := { held := some pkt } },
        (d.decoder.held.map FakeDecoder.out).toList) := by
  unfold Devices.step
  -- back to the start, the end of the file, or a packet
  by_cases hd : d.drained
  · rw [if_pos hd, if_pos hl]
    exact Or.inl rfl
  · rw [if_neg hd]
    by_cases hpos : d.demux.frames ≤ d.demux.pos
    · have hnext : Demuxer.nextPacket d.demux = (.ok none, d.demux) := if_pos hpos
      rw [hnext]
      exact Or.inr (Or.inl rfl)
    · have hnext : Demuxer.nextPacket d.demux = _ := if_neg hpos
      rw [hnext]
      exact Or.inr (Or.inr ⟨_, rfl, rfl⟩)

theorem mem_held {d : Devices FakeDemux FakeDecoder} {f : DecodedFrame}
    (hf : f ∈ (d.decoder.held.map FakeDecoder.out).toList) :
    ∃ p, d.decoder.held = some p ∧ f.pts = p.pts := by
  rw [Option.mem_toList, Option.map_eq_some_iff] at hf
  obtain ⟨p, hp, rfl⟩ := hf
  exact ⟨p, hp, rfl⟩

theorem low_le {d : Devices FakeDemux FakeDecoder} (h : HeldBefore d) :
    low d ≤ d.demux.step * d.demux.pos := by
  unfold low
  cases hh : d.decoder.held with
  | none => exact le_rfl
  | some p => exact h.2 p hh

theorem pairwise_held (d : Devices FakeDemux FakeDecoder) :
    (d.decoder.held.map FakeDecoder.out).toList.Pairwise fun f g => f.pts ≤ g.pts := by
  cases d.decoder.held with
  | none => exact List.Pairwise.nil
  | some p => exact List.pairwise_singleton _ _

/-- Whatever the container claims, the fake devices put out each pass in order. -/
theorem passesSorted (frames step : ℕ) (duration : Option ℕ) :
    (Pipeline.devices (FakeDemux.new frames step duration)
      ({ held := none } : FakeDecoder)).PassesSorted := by
  refine Devices.passesSorted_of_bound (I := HeldBefore) low ?_ ?_ ?_
    ⟨rfl, by simp [Pipeline.devices]⟩
  · intro d h
    rcases step_cases h.1 with hs | hs | ⟨pkt, hpkt, hs⟩
    · rw [hs]
      exact ⟨h.1, by simp⟩
    · rw [hs]
      exact ⟨h.1, by simp⟩
    · rw [hs]
      refine ⟨h.1, ?_⟩
      simp only [Option.mem_def, Option.some.injEq, forall_eq', hpkt]
      exact Nat.mul_le_mul_left _ (Nat.le_succ _)
  · intro d h
    rcases step_cases h.1 with hs | hs | ⟨pkt, hpkt, hs⟩
    · rw [hs]
      exact ⟨List.Pairwise.nil, by simp⟩
    all_goals
      rw [hs]
      refine ⟨pairwise_held d, ?_⟩
      intro f hf
      obtain ⟨p, hp, heq⟩ := mem_held hf
      rw [heq, low, hp]
      exact le_rfl
  · intro d h hpass
    have hout : ∀ f ∈ (d.decoder.held.map FakeDecoder.out).toList,
        f.pts ≤ d.demux.step * d.demux.pos := by
      intro f hf
      obtain ⟨p, hp, heq⟩ := mem_held hf
      exact heq ▸ h.2 p hp
    rcases step_cases h.1 with hs | hs | ⟨pkt, hpkt, hs⟩
    -- a restart begins another pass
    · rw [hs] at hpass
      exact absurd hpass (Nat.succ_ne_self _)
    · rw [hs]
      exact ⟨low_le h, hout⟩
    · rw [hs]
      refine ⟨le_trans (low_le h) (le_of_eq hpkt.symm), ?_⟩
      intro f hf
      exact le_trans (hout f hf) (le_of_eq hpkt.symm)

end FakeDemux

/-- A clip of two frames 40 ms apart in a container without a duration: the third call starts the
second pass, and its pts falls back to zero. -/
theorem Pipeline.loop_without_duration_goes_back :
    (Pipeline.devices (FakeDemux.new 2 40000000 none)
      ({ held := none } : FakeDecoder)).PassesSorted ∧
    ¬ ((Pipeline.new (FakeDemux.new 2 40000000 none)
      ({ held := none } : FakeDecoder) true).returned 3).Pairwise fun f g => f.pts ≤ g.pts :=
  ⟨FakeDemux.passesSorted 2 40000000 none, by decide +kernel⟩

/-- The criterion at a clip whose container gives its full length. -/
theorem Pipeline.fake_returned_sorted_iff :
    (∀ n, ((Pipeline.new (FakeDemux.new 2 40000000 (some 80000000))
        ({ held := none } : FakeDecoder) true).returned n).Pairwise fun f g => f.pts ≤ g.pts) ↔
      ∀ m, ∀ x ∈ (Pipeline.devices (FakeDemux.new 2 40000000 (some 80000000))
          ({ held := none } : FakeDecoder)).emitted m,
        ∀ y ∈ (Pipeline.devices (FakeDemux.new 2 40000000 (some 80000000))
          ({ held := none } : FakeDecoder)).emitted m,
        x.1 < y.1 → x.2.pts ≤ y.2.pts + (y.1 - x.1) *
          Pipeline.passLength (FakeDemux.new 2 40000000 (some 80000000)) :=
  Pipeline.returned_sorted_iff _ _ (FakeDemux.passesSorted 2 40000000 (some 80000000))

end NoshareCover
