import Mathlib.Data.List.DropRight
import NoshareCover.Core.Video.Source
import NoshareCover.Lib.Run

/-!
# From the video thread to the polls

The thread leaves its latest frame in one slot with a generation, and a poll takes it out and keeps
the generation as `sent`.  A run is any order of rounds of the thread and polls; what was seen of it
is a list of frames published and polls answered.  `Inv` says what the slot, the generation and
`sent` have to do with that list, and every answer can be read off it (`handover`).
-/

namespace NoshareCover

namespace VideoSource

variable {δ κ : Type*} [Demuxer δ] [Decoder κ]

/-! ### Runs -/

/-- A step of the video: of its thread, or of the registry. -/
inductive Action where
  | turn (t : Turn)
  | poll (now : Instant)

inductive Seen where
  | published (f : Frame)
  /-- A round that published nothing. -/
  | nothing
  | answered (r : Except MediaError (Option Frame))

/-- The frame that was published. -/
def Seen.frame? : Seen → Option Frame
  | .published f => some f
  | _ => none

/-- The frame that a poll returned. -/
def Seen.returned? : Seen → Option Frame
  | .answered (.ok (some f)) => some f
  | _ => none

/-- What a round published: the latest frame, if the generation went on. -/
def publishes (v : VideoSource δ κ) (t : Turn) : Option Frame :=
  if (v.round t).shared.generation = v.shared.generation then none else (v.round t).shared.latest

def act (v : VideoSource δ κ) : Action → VideoSource δ κ × Seen
  | .turn t => (v.round t, (v.publishes t).elim .nothing .published)
  | .poll now => ((v.poll now).2, .answered (v.poll now).1)

/-- What was seen since a poll last returned a frame. -/
def sinceReturned (past : List Seen) : List Seen := past.rtakeWhile fun e => e.returned? = none

/-! ### One step -/

/-- A round leaves the slot alone, or fills it with the next generation. -/
theorem round_cases (v : VideoSource δ κ) (t : Turn) :
    (v.round t).sent = v.sent ∧ (v.round t).schedule = v.schedule ∧
      (((v.round t).shared.generation = v.shared.generation ∧
          (v.round t).shared.latest = v.shared.latest) ∨
        ∃ f, f.generation = v.shared.generation + 1 ∧
          (v.round t).shared.generation = f.generation ∧ (v.round t).shared.latest = some f) := by
  unfold round
  -- the thread has ended, or nobody watches the video
  by_cases hoff : v.stopped ∨ v.shared.watched = none
  · rw [if_pos hoff]
    exact ⟨rfl, rfl, .inl ⟨rfl, rfl⟩⟩
  rw [if_neg hoff]
  by_cases hcrash : t = .crash
  · rw [if_pos hcrash]
    exact ⟨rfl, rfl, .inl ⟨rfl, rfl⟩⟩
  rw [if_neg hcrash]
  rcases v.pipe.nextFrame with ⟨e | f | _, pipe⟩
  · exact ⟨rfl, rfl, .inl ⟨rfl, rfl⟩⟩
  · -- the watcher can be gone by the time the frame is due
    by_cases hlate : t = .late
    · dsimp only
      rw [if_pos hlate]
      exact ⟨rfl, rfl, .inl ⟨rfl, rfl⟩⟩
    · dsimp only
      rw [if_neg hlate]
      exact ⟨rfl, rfl, .inr ⟨_, rfl, rfl, rfl⟩⟩
  · exact ⟨rfl, rfl, .inl ⟨rfl, rfl⟩⟩

/-- A poll answers with an error, with nothing, or with what is in the slot. -/
theorem poll_cases {v : VideoSource δ κ} (hschedule : v.schedule = fun _ => []) (now : Instant) :
    (v.poll now).2.schedule = v.schedule ∧
      (v.poll now).2.shared.generation = v.shared.generation ∧
      ((∃ e, (v.poll now).1 = .error e ∧ v.shared.generation = 0 ∧ (v.poll now).2.sent = v.sent ∧
          (v.poll now).2.shared.latest = v.shared.latest) ∨
        ((v.poll now).1 = .ok none ∧ v.shared.generation = v.sent ∧ (v.poll now).2.sent = v.sent ∧
          (v.poll now).2.shared.latest = v.shared.latest) ∨
        ((v.poll now).1 = .ok v.shared.latest ∧ v.shared.generation ≠ v.sent ∧
          (v.poll now).2.sent = v.shared.generation ∧ (v.poll now).2.shared.latest = none)) := by
  -- with an empty schedule the watch lets no round of the thread pass
  have hwatch : v.watch now = { v with shared := { v.shared with watched := some now } } := by
    have hfold : (v.schedule 0).foldl round v = v := by
      rw [hschedule]
      rfl
    have hnext : (fun n => v.schedule (n + 1)) = v.schedule := by
      rw [hschedule]
    rw [watch, hfold]
    dsimp only
    rw [hnext]
  have htake : ∀ u : VideoSource δ κ, u = v.watch now →
      u.take.2.schedule = v.schedule ∧ u.take.2.shared.generation = v.shared.generation ∧
      ((u.take.1 = none ∧ v.shared.generation = v.sent ∧ u.take.2.sent = v.sent ∧
          u.take.2.shared.latest = v.shared.latest) ∨
        (u.take.1 = v.shared.latest ∧ v.shared.generation ≠ v.sent ∧
          u.take.2.sent = v.shared.generation ∧ u.take.2.shared.latest = none)) := by
    rintro u rfl
    rw [hwatch]
    unfold take
    dsimp only
    by_cases hsent : v.shared.generation = v.sent
    · rw [if_pos hsent]
      exact ⟨rfl, rfl, .inl ⟨rfl, hsent, rfl, rfl⟩⟩
    · rw [if_neg hsent]
      exact ⟨rfl, rfl, .inr ⟨rfl, hsent, rfl, rfl⟩⟩
  obtain ⟨hsch, hgen, hslot⟩ := htake _ rfl
  -- the error shows only while no frame was ever published
  have hanswer : (v.poll now).2 = (v.watch now).take.2 ∧ (v.poll now).1 = .ok (v.watch now).take.1 ∨
      (v.poll now).2 = v.watch now ∧ (∃ e, (v.poll now).1 = .error e) ∧ v.shared.generation = 0 := by
    unfold poll
    dsimp only
    cases (v.watch now).shared.error with
    | none => exact .inl ⟨rfl, rfl⟩
    | some e =>
      dsimp only
      by_cases hzero : (v.watch now).shared.generation = 0
      · rw [if_pos hzero]
        rw [hwatch] at hzero
        exact .inr ⟨rfl, ⟨_, rfl⟩, hzero⟩
      · rw [if_neg hzero]
        exact .inl ⟨rfl, rfl⟩
  rcases hanswer with ⟨hstate, hok⟩ | ⟨hstate, ⟨e, herror⟩, hzero⟩
  · rw [hstate, hok]
    refine ⟨hsch, hgen, .inr ?_⟩
    rcases hslot with ⟨hnone, hrest⟩ | ⟨hsome, hrest⟩
    · exact .inl ⟨by rw [hnone], hrest⟩
    · exact .inr ⟨by rw [hsome], hrest⟩
  · rw [hstate, hwatch, herror]
    exact ⟨rfl, rfl, .inl ⟨e, rfl, hzero, rfl, rfl⟩⟩

/-! ### The slot and the past -/

/-- What the source has to do with what was seen of it. -/
structure Inv (v : VideoSource δ κ) (past : List Seen) : Prop where
  schedule : v.schedule = fun _ => []
  /-- The generation counts on from the frames that were returned. -/
  returned : ∀ f ∈ past.filterMap Seen.returned?, f.generation ≤ v.sent
  increasing : ((past.filterMap Seen.returned?).map Frame.generation).Pairwise (· < ·)
  sent_le : v.sent ≤ v.shared.generation
  never : v.shared.generation = 0 ↔ past.filterMap Seen.frame? = []
  /-- The slot has the frame published last, if that was not returned yet. -/
  slot : if v.shared.generation = v.sent then
      v.shared.latest = none ∧ (sinceReturned past).filterMap Seen.frame? = []
    else ∃ f, v.shared.latest = some f ∧ f.generation = v.shared.generation ∧
      (past.filterMap Seen.frame?).getLast? = some f ∧
      (sinceReturned past).filterMap Seen.frame? ≠ []

theorem sinceReturned_concat (past : List Seen) (e : Seen) :
    sinceReturned (past ++ [e]) =
      if e.returned? = none then sinceReturned past ++ [e] else [] := by
  unfold sinceReturned
  rw [List.rtakeWhile_concat]
  simp

theorem sinceReturned_suffix (past : List Seen) : sinceReturned past <:+ past :=
  List.rtakeWhile_suffix _ past

omit [Demuxer δ] [Decoder κ] in
/-- Something was seen that changes nothing. -/
theorem Inv.idle {v u : VideoSource δ κ} {past : List Seen} {e : Seen} (h : Inv v past)
    (hframe : e.frame? = none) (hreturned : e.returned? = none) (hschedule : u.schedule = v.schedule)
    (hsent : u.sent = v.sent) (hgen : u.shared.generation = v.shared.generation)
    (hlatest : u.shared.latest = v.shared.latest) : Inv u (past ++ [e]) := by
  -- the call says nothing about frames
  have hframes : (past ++ [e]).filterMap Seen.frame? = past.filterMap Seen.frame? := by
    simp [hframe]
  have hreturns : (past ++ [e]).filterMap Seen.returned? = past.filterMap Seen.returned? := by
    simp [hreturned]
  have hsince : (sinceReturned (past ++ [e])).filterMap Seen.frame? =
      (sinceReturned past).filterMap Seen.frame? := by
    rw [sinceReturned_concat, if_pos hreturned]
    simp [hframe]
  constructor
  · rw [hschedule]
    exact h.schedule
  · rw [hreturns, hsent]
    exact h.returned
  · rw [hreturns]
    exact h.increasing
  · rw [hsent, hgen]
    exact h.sent_le
  · rw [hgen, hframes]
    exact h.never
  · rw [hgen, hsent, hlatest, hframes, hsince]
    exact h.slot

theorem Inv.turn {v : VideoSource δ κ} {past : List Seen} (h : Inv v past) (t : Turn) :
    Inv (v.act (.turn t)).1 (past ++ [(v.act (.turn t)).2]) := by
  obtain ⟨hsent, hschedule, ⟨hgen, hlatest⟩ | ⟨f, hf, hgen, hlatest⟩⟩ := v.round_cases t
  · -- the slot is as before, so nothing was published
    have hnothing : (v.act (.turn t)).2 = .nothing := by
      rw [act, publishes, if_pos hgen]
      rfl
    rw [hnothing]
    exact h.idle rfl rfl hschedule hsent hgen hlatest
  · have hpublished : (v.act (.turn t)).2 = .published f := by
      rw [act, publishes, if_neg (by omega), hlatest]
      rfl
    have hle := h.sent_le
    have hframes : (past ++ [Seen.published f]).filterMap Seen.frame? =
        past.filterMap Seen.frame? ++ [f] := by
      rw [List.filterMap_append]
      rfl
    have hreturns : (past ++ [Seen.published f]).filterMap Seen.returned? =
        past.filterMap Seen.returned? := by
      rw [List.filterMap_append]
      exact List.append_nil _
    rw [hpublished]
    show Inv (v.round t) _
    -- schedule, answers, their order, the two counters, and the slot
    constructor
    · rw [hschedule]
      exact h.schedule
    · rw [hreturns, hsent]
      exact h.returned
    · rw [hreturns]
      exact h.increasing
    · rw [hsent, hgen, hf]
      omega
    · rw [hgen, hf, hframes]
      simp
    · -- the slot is full, whatever was in it
      have hne : (v.round t).shared.generation ≠ (v.round t).sent := by omega
      have hreturned : (Seen.published f).returned? = none := rfl
      rw [if_neg hne, hframes, sinceReturned_concat, if_pos hreturned]
      refine ⟨f, hlatest, hgen.symm, List.getLast?_concat, ?_⟩
      rw [List.filterMap_append]
      exact List.append_ne_nil_of_right_ne_nil _ (List.cons_ne_nil f [])

theorem Inv.poll {v : VideoSource δ κ} {past : List Seen} (h : Inv v past) (now : Instant) :
    Inv (v.act (.poll now)).1 (past ++ [(v.act (.poll now)).2]) := by
  obtain ⟨hschedule, hgen, hcases⟩ := poll_cases h.schedule now
  show Inv (v.poll now).2 (past ++ [.answered (v.poll now).1])
  rcases hcases with ⟨e, hr, -, hsent, hlatest⟩ | ⟨hr, -, hsent, hlatest⟩ | ⟨hr, hne, hsent, hlatest⟩
  · rw [hr]
    exact h.idle rfl rfl hschedule hsent hgen hlatest
  · rw [hr]
    exact h.idle rfl rfl hschedule hsent hgen hlatest
  · have hslot := h.slot
    -- the slot is emptied, and its frame has a generation that no poll has returned
    rw [if_neg hne] at hslot
    obtain ⟨f, hf, hfgen, -, -⟩ := hslot
    have hle := h.sent_le
    rw [hr, hf]
    have hframes : (past ++ [Seen.answered (.ok (some f))]).filterMap Seen.frame? =
        past.filterMap Seen.frame? := by
      rw [List.filterMap_append]
      exact List.append_nil _
    have hreturns : (past ++ [Seen.answered (.ok (some f))]).filterMap Seen.returned? =
        past.filterMap Seen.returned? ++ [f] := by
      rw [List.filterMap_append]
      rfl
    constructor
    · rw [hschedule]
      exact h.schedule
    · rw [hreturns, hsent]
      intro f' hf'
      rcases List.mem_append.1 hf' with hmem | hmem
      · have hbound := h.returned f' hmem
        omega
      · obtain rfl := List.mem_singleton.1 hmem
        omega
    · rw [hreturns, List.map_append, List.pairwise_append]
      refine ⟨h.increasing, List.pairwise_singleton _ _, fun a ha b hb => ?_⟩
      obtain ⟨f', hf', rfl⟩ := List.mem_map.1 ha
      obtain rfl := List.mem_singleton.1 hb
      have hbound := h.returned f' hf'
      omega
    · rw [hsent, hgen]
    · rw [hgen, hframes]
      exact h.never
    · have hgone : (v.poll now).2.shared.generation = (v.poll now).2.sent := by omega
      have hreturned : ¬(Seen.answered (.ok (some f))).returned? = none := Option.some_ne_none f
      rw [if_pos hgone, sinceReturned_concat, if_neg hreturned]
      exact ⟨hlatest, rfl⟩

omit [Demuxer δ] [Decoder κ] in
theorem inv_spawn (pipe : Pipeline δ κ) (path : String) :
    Inv (spawn pipe path fun _ => []) [] := by
  constructor
  · rfl
  · exact fun _ h => absurd h List.not_mem_nil
  · exact List.Pairwise.nil
  · exact le_rfl
  · simp [spawn]
  · exact ⟨rfl, rfl⟩

theorem inv_run (pipe : Pipeline δ κ) (path : String) (acts : List Action) :
    Inv (Machine.run act (spawn pipe path fun _ => []) acts)
      (Machine.outputs act (spawn pipe path fun _ => []) acts) := by
  -- the past grows at its end, so the induction is on the last action
  induction acts using List.reverseRecOn with
  | nil => exact inv_spawn pipe path
  | append_singleton acts a ih =>
    rw [Machine.run_append, Machine.outputs_append, Machine.run_cons, Machine.run_nil,
      Machine.outputs_cons, Machine.outputs_nil]
    cases a with
    | turn t => exact ih.turn t
    | poll now => exact ih.poll now

/-- **Nothing is lost between the thread and the polls, and nothing is repeated.**  After any rounds
and polls the generations that were returned increase, and the next poll returns the frame that was
published last, or nothing if none was since a poll returned one, or an error if none ever was. -/
theorem handover (pipe : Pipeline δ κ) (path : String) (acts : List Action) (now : Instant) :
    let past := Machine.outputs act (spawn pipe path fun _ => []) acts
    let answer := ((Machine.run act (spawn pipe path fun _ => []) acts).poll now).1
    ((past.filterMap Seen.returned?).map Frame.generation).Pairwise (· < ·) ∧
    (∀ f, answer = .ok (some f) → (past.filterMap Seen.frame?).getLast? = some f) ∧
    (∀ frame, answer = .ok frame →
      (frame = none ↔ (sinceReturned past).filterMap Seen.frame? = [])) ∧
    ((sinceReturned past).filterMap Seen.frame? ≠ [] → ∃ f, answer = .ok (some f)) ∧
    ∀ e, answer = .error e → past.filterMap Seen.frame? = [] := by
  intro past answer
  have h : Inv _ past := inv_run pipe path acts
  have hslot := h.slot
  have hnever := h.never
  refine ⟨h.increasing, ?_⟩
  -- the three answers of a poll: an error, nothing new, the frame in the slot
  rcases (poll_cases h.schedule now).2.2 with ⟨e, hr, hzero, -⟩ | ⟨hr, hsent, -⟩ | ⟨hr, hsent, -⟩
  · have hnone := hnever.1 hzero
    -- an error means that there was never a frame
    have hsince : (sinceReturned past).filterMap Seen.frame? = [] := by
      obtain ⟨rest, hpast⟩ := sinceReturned_suffix past
      rw [← hpast, List.filterMap_append] at hnone
      exact (List.append_eq_nil_iff.1 hnone).2
    refine ⟨fun f hf => ?_, fun frame hframe => ?_, fun hne => absurd hsince hne, fun _ _ => hnone⟩
    · exact absurd (hr.symm.trans hf) (by simp)
    · exact absurd (hr.symm.trans hframe) (by simp)
  · rw [if_pos hsent] at hslot
    refine ⟨fun f hf => ?_, fun frame hframe => ?_, fun hne => absurd hslot.2 hne, fun e he => ?_⟩
    · exact absurd (Except.ok.inj (hr.symm.trans hf)) (Option.some_ne_none f).symm
    · rw [← Except.ok.inj (hr.symm.trans hframe)]
      exact ⟨fun _ => hslot.2, fun _ => rfl⟩
    · exact absurd (hr.symm.trans he) (by simp)
  · rw [if_neg hsent] at hslot
    obtain ⟨f, hf, -, hlast, hsince⟩ := hslot
    rw [hf] at hr
    refine ⟨fun f' hf' => ?_, fun frame hframe => ?_, fun _ => ⟨f, hr⟩, fun e he => ?_⟩
    · rw [← Option.some.inj (Except.ok.inj (hr.symm.trans hf'))]
      exact hlast
    · rw [← Except.ok.inj (hr.symm.trans hframe)]
      exact ⟨fun h => absurd h (Option.some_ne_none f), fun h => absurd h hsince⟩
    · exact absurd (hr.symm.trans he) (by simp)

end VideoSource

end NoshareCover
