import NoshareCover.Core.Spec.CoverIdentity
import NoshareCover.Core.Spec.Handover
import NoshareCover.Core.Spec.OpaqueFile

/-!
# The generations of opened files

Every source of the repository numbers its frames: a still image has one frame, a GIF counts those it
hands out, and a video those that its thread publishes.  So the generations of an opened file increase
(`Files.increasing_of_openMedia`), whatever its kind is and whatever its decoders do.
-/

namespace NoshareCover

/-! ### Sources that count their frames -/

namespace Source

variable {σ : Type*} [Source σ] {I : σ → Prop} {count : σ → ℕ}

/-- A source in `I` has a count that never goes back.  Each frame takes it past where it was, and not
past where it is then. -/
structure Counts (I : σ → Prop) (count : σ → ℕ) : Prop where
  shown : ∀ s, I s → I (shown s) ∧ count s ≤ count (shown s)
  poll : ∀ s now, I s → I (poll s now).2 ∧ count s ≤ count (poll s now).2
  frame : ∀ s now f, I s → (Source.poll s now).1 = .ok (some f) →
    count s < f.generation ∧ f.generation ≤ count (Source.poll s now).2

/-- All its frames are above the count. -/
theorem Counts.above (h : Counts I count) {s : σ} (hs : I s) {n : ℕ} (hn : n ≤ count s) :
    Above n s := by
  intro cs
  induction cs generalizing s n with
  -- induction over the calls, each of which counts on
  | nil => exact List.pairwise_singleton _ _
  | cons c cs ih =>
    cases c with
    | shown => exact ih (h.shown s hs).1 (hn.trans (h.shown s hs).2)
    | poll now =>
      obtain ⟨hnext, hcount⟩ := h.poll s now hs
      have hframe := h.frame s now
      rw [frames]
      rcases hp : Source.poll s now with ⟨_ | _ | f, s'⟩ <;> rw [hp] at hnext hcount hframe
      · exact ih hnext (hn.trans hcount)
      · exact ih hnext (hn.trans hcount)
      -- a frame has a number above those before
      · obtain ⟨hlt, hle⟩ := hframe f hs rfl
        have hrest := ih hnext hle
        refine List.pairwise_cons.2 ⟨fun g hg => ?_, hrest⟩
        rcases List.mem_cons.1 hg with rfl | hg
        · exact hn.trans_lt hlt
        · exact (hn.trans_lt hlt).trans ((List.pairwise_cons.1 hrest).1 g hg)

theorem Counts.increasing (h : Counts I count) {s : σ} (hs : I s) : Increasing s :=
  (h.above hs le_rfl).increasing

end Source

/-! ### The three kinds -/

namespace StillSource

/-- The frame of an image is the first and the only one. -/
theorem counts : Source.Counts (fun s : StillSource => ∀ f ∈ s.frame, f.generation = 1)
    fun s => if s.frame = none then 1 else 0 where
  shown _ hs := ⟨hs, le_rfl⟩
  poll s now _ := by
    refine ⟨nofun, ?_⟩
    show (if s.frame = none then 1 else 0) ≤ 1
    split_ifs
    · exact le_rfl
    · exact Nat.zero_le _
  frame s now f hs hf := by
    have hsome : s.frame = some f := Except.ok.inj hf
    rw [hs f hsome, if_neg (by rw [hsome]; exact nofun)]
    exact ⟨Nat.one_pos, le_rfl⟩

end StillSource

namespace GifSource

theorem disposePrev_generation (g : GifSource) : g.disposePrev.generation = g.generation := by
  unfold disposePrev
  split
  · rfl
  · split
    · rfl
    · split
      · rfl
      · rfl
    · rfl
    · rfl

theorem step_generation (g : GifSource) : g.step.generation = g.generation := by
  unfold step
  dsimp only
  split
  · rfl
  · dsimp only
    split_ifs
    · exact g.disposePrev_generation
    · exact g.disposePrev_generation

theorem steps_generation (target : ℕ) : ∀ (n : ℕ) (g : GifSource),
    (steps target n g).generation = g.generation
  | 0, _ => rfl
  | n + 1, g => by
    rw [steps]
    split_ifs
    · rfl
    · rw [steps_generation target n g.step, g.step_generation]

theorem show_generation (g : GifSource) (target : ℕ) : (g.show target).generation = g.generation := by
  unfold «show»
  dsimp only
  split_ifs
  · rfl
  · exact steps_generation _ _ _
  · exact steps_generation _ _ _

theorem counts : Source.Counts (fun _ : GifSource => True) generation where
  shown _ _ := ⟨trivial, le_rfl⟩
  poll g now _ := by
    refine ⟨trivial, ?_⟩
    show g.generation ≤ (g.poll now).2.generation
    have hseek : (g.seek now).generation = g.generation := show_generation _ _
    -- `poll` is `seek`, and a number more for a frame
    rw [poll_eq]
    split_ifs
    · exact hseek.ge
    · show g.generation ≤ (g.seek now).generation + 1
      omega
  frame g now f _ hf := by
    have hseek : (g.seek now).generation = g.generation := show_generation _ _
    change (g.poll now).1 = _ at hf
    show _ ∧ _ ≤ (g.poll now).2.generation
    rw [poll_eq] at hf ⊢
    split_ifs at hf ⊢
    · cases hf
    · obtain rfl := Option.some.inj (Except.ok.inj hf)
      exact ⟨by show g.generation < (g.seek now).generation + 1; omega, le_rfl⟩

end GifSource

namespace VideoSource

variable {δ κ : Type*} [Demuxer δ] [Decoder κ]

/-- The slot has the frame of the last generation, if any; the polls are not ahead of the thread. -/
structure Numbered (v : VideoSource δ κ) : Prop where
  sent : v.sent ≤ v.shared.generation
  latest : ∀ f ∈ v.shared.latest, f.generation = v.shared.generation

theorem Numbered.round {v : VideoSource δ κ} (h : v.Numbered) (t : Turn) : (v.round t).Numbered := by
  have hsent := h.sent
  obtain ⟨hsame, -, ⟨hgen, hlatest⟩ | ⟨f, hf, hgen, hlatest⟩⟩ := v.round_cases t
  · refine ⟨by omega, fun f hf => ?_⟩
    rw [hgen]
    exact h.latest f (hlatest ▸ hf)
  · refine ⟨by omega, fun g hg => ?_⟩
    rw [hlatest] at hg
    rw [hgen, Option.mem_some_iff.1 hg]

theorem rounds_sent (ts : List Turn) (v : VideoSource δ κ) : (ts.foldl round v).sent = v.sent := by
  induction ts generalizing v with
  | nil => rfl
  | cons t ts ih => exact (ih (v.round t)).trans (v.round_cases t).1

theorem Numbered.watch {v : VideoSource δ κ} (h : v.Numbered) (now : Instant) :
    (v.watch now).Numbered := by
  have hrounds : ((v.schedule 0).foldl VideoSource.round v).Numbered :=
    List.foldlRecOn _ _ h fun _ hv t _ => hv.round t
  exact ⟨hrounds.sent, hrounds.latest⟩

omit [Demuxer δ] [Decoder κ] in
/-- What is taken out of the slot has the generation that is sent then. -/
theorem Numbered.take {v : VideoSource δ κ} (h : v.Numbered) :
    v.take.2.Numbered ∧ v.sent ≤ v.take.2.sent
      ∧ ∀ f ∈ v.take.1, v.sent < f.generation ∧ f.generation ≤ v.take.2.sent := by
  have hsent := h.sent
  unfold VideoSource.take
  split_ifs with hold
  · exact ⟨h, le_rfl, nofun⟩
  · refine ⟨⟨le_rfl, nofun⟩, hsent, fun f hf => ?_⟩
    have hgen := h.latest f hf
    exact ⟨by omega, hgen.le⟩

/-- A poll takes what is in the slot, or fails and leaves it. -/
theorem poll_takes_or_fails (v : VideoSource δ κ) (now : Instant) :
    (∃ e, v.poll now = (.error e, v.watch now))
      ∨ v.poll now = (.ok (v.watch now).take.1, (v.watch now).take.2) := by
  unfold poll
  dsimp only
  split
  · split_ifs
    · exact .inl ⟨_, rfl⟩
    · exact .inr rfl
  · exact .inr rfl

theorem counts : Source.Counts (Numbered (δ := δ) (κ := κ)) sent where
  shown _ hv := ⟨hv, le_rfl⟩
  poll v now hv := by
    have hsame : (v.watch now).sent = v.sent := rounds_sent _ v
    have hwatch := hv.watch now
    show (v.poll now).2.Numbered ∧ v.sent ≤ (v.poll now).2.sent
    -- the message of the thread, or its error
    rcases v.poll_takes_or_fails now with ⟨e, hpoll⟩ | hpoll <;> rw [hpoll, ← hsame]
    · exact ⟨hwatch, le_rfl⟩
    · exact ⟨hwatch.take.1, hwatch.take.2.1⟩
  frame v now f hv hf := by
    have hsame : (v.watch now).sent = v.sent := rounds_sent _ v
    change (v.poll now).1 = _ at hf
    show _ ∧ _ ≤ (v.poll now).2.sent
    rcases v.poll_takes_or_fails now with ⟨e, hpoll⟩ | hpoll <;> rw [hpoll] at hf ⊢
    · cases hf
    · rw [← hsame]
      exact (hv.watch now).take.2.2 f (Except.ok.inj hf)

omit [Demuxer δ] [Decoder κ] in
theorem numbered_spawn (pipe : Pipeline δ κ) (path : String) (schedule : ℕ → List Turn) :
    (spawn pipe path schedule).Numbered := ⟨le_rfl, nofun⟩

end VideoSource

/-! ### Files -/

/-- **The generations of an opened file increase.** -/
theorem Files.increasing_of_openMedia {δ κ : Type*} [Demuxer δ] [Decoder κ] {files : Files δ κ}
    {play : PlayParams} {settings : Settings} {schedule : ℕ → List Turn} {s : OpenSource δ κ}
    (h : openMedia files play settings schedule = .ok s) : Source.Increasing s := by
  intro calls
  rcases (openMedia_cases h).2 with ⟨-, still, rfl, hopen⟩ | ⟨-, gif, rfl, -⟩ | ⟨-, pipe, -, rfl⟩
  · have hframe : ∀ f ∈ still.frame, f.generation = 1 := by
      obtain ⟨-, w, h, rgba, -, -, -, -, hframe⟩ := StillSource.open_eq_ok hopen
      rw [hframe]
      exact fun f hf => Option.mem_some_iff.1 hf ▸ rfl
    rw [OpenSource.frames_still]
    exact StillSource.counts.increasing hframe calls
  · rw [OpenSource.frames_gif]
    exact GifSource.counts.increasing trivial calls
  · rw [OpenSource.frames_video]
    exact VideoSource.counts.increasing (VideoSource.numbered_spawn _ _ _) calls

end NoshareCover
