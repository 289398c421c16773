import NoshareCover.Core.Spec.Handover
import NoshareCover.Core.Spec.Pace
import NoshareCover.Core.Video.Timing

/-!
# What a video publishes up to a poll

Two things hold a video at its first frame: the second is due only after the time between the two,
by a reference point that the thread takes when it has the first; and it sleeps when nobody has
polled for `IDLE_AFTER`, which takes a new reference point.  `published_of_heldBack` says that the
first frame stays when neither comes to the second, whatever time the thread takes.
-/

namespace NoshareCover

/-! ### Asleep or not -/

theorem idleAfter_pos : 0 < idleAfter := Nat.succ_pos _

theorem watchedAt_iff {p t : Instant} : watchedAt (some p) t = true ↔ t < p + idleAfter := by
  have hpos := idleAfter_pos
  have hsub : ∀ a b c : ℕ, 0 < c → (a - b < c ↔ a < b + c) := by
    intro a b c hc
    omega
  exact decide_eq_true_iff.trans (hsub t p _ hpos)

/-- A poll that was made after the thread went on keeps it awake. -/
theorem watchedAt_of_le {p t : Instant} (h : t ≤ p) : watchedAt (some p) t = true :=
  watchedAt_iff.2 (h.trans_lt (Nat.lt_add_of_pos_right idleAfter_pos))

namespace Worker

variable {w : Worker} {watched : Option Instant} {q : Instant}

theorem polled_of_watched (h : watchedAt watched w.now = true) : w.polled watched q = w := if_pos h

theorem polled_origin (h : w.origin = none) : (w.polled watched q).origin = none := by
  unfold polled
  split_ifs
  · exact h
  · rfl

variable (w watched q) in
theorem le_polled : w.now ≤ (w.polled watched q).now := by
  unfold polled
  split_ifs
  · exact le_rfl
  · exact Nat.le_add_right _ _

variable (watched) in
theorem polled_le (h : w.now ≤ q) : (w.polled watched q).now ≤ q := by
  unfold polled
  split_ifs
  · exact h
  · exact (Nat.add_sub_cancel' h).le

end Worker

/-! ### Rounds and polls -/

namespace VideoSource

variable {δ κ : Type} [Demuxer δ] [Decoder κ]

/-- The frames that the thread publishes in these rounds. -/
def published (v : VideoSource δ κ) : List Turn → List Frame
  | [] => []
  | t :: ts => (v.publishes t).toList ++ (v.round t).published ts

/-- The frames that the thread publishes up to the last of these polls. -/
def publishedBy (v : VideoSource δ κ) : List Instant → List Frame
  | [] => []
  | now :: polls => v.published (v.schedule 0) ++ (v.poll now).2.publishedBy polls

/-- What `next_frame` answers the thread in these rounds. -/
def answers (v : VideoSource δ κ) : List Turn → List (PipeResult Next)
  | [] => []
  | t :: ts =>
    (if (v.stopped ∨ v.shared.watched = none) ∨ t = .crash then [] else [v.pipe.nextFrame.1])
      ++ (v.round t).answers ts

/-- What it has answered up to the last of these polls. -/
def answersBy (v : VideoSource δ κ) : List Instant → List (PipeResult Next)
  | [] => []
  | now :: polls => v.answers (v.schedule 0) ++ (v.poll now).2.answersBy polls

/-- The source after these polls. -/
def afterPolls (v : VideoSource δ κ) : List Instant → VideoSource δ κ
  | [] => v
  | now :: polls => (v.poll now).2.afterPolls polls

theorem publishedBy_append (polls : List Instant) : ∀ (v : VideoSource δ κ) (more : List Instant),
    v.publishedBy (polls ++ more) = v.publishedBy polls ++ (v.afterPolls polls).publishedBy more := by
  induction polls with
  | nil => exact fun _ _ => rfl
  | cons now polls ih =>
    intro v more
    rw [List.cons_append, publishedBy, publishedBy, afterPolls, ih, List.append_assoc]

/-- What the rounds do to the slot. -/
theorem rounds_spec (ts : List Turn) : ∀ v : VideoSource δ κ,
    (ts.foldl round v).sent = v.sent ∧ (ts.foldl round v).schedule = v.schedule
      ∧ (ts.foldl round v).shared.generation = v.shared.generation + (v.published ts).length
      ∧ (ts.foldl round v).shared.latest = (v.published ts).getLast?.or v.shared.latest
      ∧ ∀ f, (v.published ts).getLast? = some f →
        f.generation = v.shared.generation + (v.published ts).length := by
  induction ts with
  | nil => exact fun v => ⟨rfl, rfl, rfl, rfl, nofun⟩
  | cons t ts ih =>
    intro v
    obtain ⟨hsent, hschedule, hgen, hlatest, hlast⟩ := ih (v.round t)
    -- a round publishes nothing and keeps the counter, or one frame with the next number
    obtain ⟨hsent', hschedule', hkept | ⟨f, hf, hgen', hlatest'⟩⟩ := v.round_cases t
    · have hnone : v.publishes t = none := if_pos hkept.1
      have hpublished : v.published (t :: ts) = (v.round t).published ts := by
        rw [published, hnone]
        rfl
      rw [hpublished, List.foldl_cons, ← hsent', ← hschedule', ← hkept.1, ← hkept.2]
      exact ⟨hsent, hschedule, hgen, hlatest, hlast⟩
    · have hsome : v.publishes t = some f := by
        unfold publishes
        rw [if_neg (by omega), hlatest']
      have hpublished : v.published (t :: ts) = f :: (v.round t).published ts := by
        rw [published, hsome]
        rfl
      rw [hpublished, List.foldl_cons, List.length_cons]
      -- the last frame of all is the last of the rest, or this one
      refine ⟨hsent.trans hsent', hschedule.trans hschedule', by omega, ?_, fun g hg => ?_⟩
      · rw [hlatest, hlatest']
        cases h : (v.round t).published ts with
        | nil => rfl
        | cons a as => rfl
      · cases h : (v.round t).published ts with
        | nil =>
          rw [h] at hg
          obtain rfl := Option.some.inj hg
          exact hf
        | cons a as =>
          rw [h] at hg hlast
          have := hlast g hg
          omega

/-- A poll answers with the last frame that was published, or with nothing; an error only comes
before the first frame. -/
theorem poll_published {v : VideoSource δ κ} (hsent : v.sent = v.shared.generation) (now : Instant) :
    (v.poll now).2.sent = (v.poll now).2.shared.generation
      ∧ (v.poll now).2.shared.generation
        = v.shared.generation + (v.published (v.schedule 0)).length
      ∧ (((v.poll now).1 = .ok (v.published (v.schedule 0)).getLast?)
        ∨ (∃ e, (v.poll now).1 = .error e) ∧ v.shared.generation = 0
          ∧ v.published (v.schedule 0) = []) := by
  obtain ⟨hs, -, hgen, hlatest, -⟩ := rounds_spec (v.schedule 0) v
  have htake : (v.watch now).take.2.sent = (v.watch now).take.2.shared.generation
      ∧ (v.watch now).take.2.shared.generation
        = v.shared.generation + (v.published (v.schedule 0)).length
      ∧ (v.watch now).take.1 = (v.published (v.schedule 0)).getLast? := by
    unfold take watch
    dsimp only
    -- `take` answers only when the generation is not the one that was sent last
    by_cases hsame : ((v.schedule 0).foldl round v).shared.generation
        = ((v.schedule 0).foldl round v).sent
    · rw [if_pos hsame]
      have hnil : v.published (v.schedule 0) = [] := by
        rw [← List.length_eq_zero_iff]
        omega
      rw [hnil]
      exact ⟨hsame.symm, by rw [hgen, hnil], rfl⟩
    · rw [if_neg hsame]
      refine ⟨rfl, hgen, ?_⟩
      rw [hlatest]
      cases h : v.published (v.schedule 0) with
      | nil =>
        rw [h] at hgen
        exact absurd (hgen.trans (hsent.symm.trans hs.symm)) hsame
      | cons a as => rw [List.getLast?_cons, Option.some_or]
  unfold poll
  dsimp only
  cases (v.watch now).shared.error with
  | none => exact ⟨htake.1, htake.2.1, .inl (congrArg _ htake.2.2)⟩
  | some e =>
    dsimp only
    -- an error is reported as long as there is no frame to keep showing
    by_cases hzero : (v.watch now).shared.generation = 0
    · rw [if_pos hzero]
      have hgen' : (v.watch now).shared.generation
          = v.shared.generation + (v.published (v.schedule 0)).length := hgen
      refine ⟨hs.trans ?_, hgen, .inr ⟨⟨_, rfl⟩, by omega, ?_⟩⟩
      · rw [hsent]
        show _ = (v.watch now).shared.generation
        omega
      · rw [← List.length_eq_zero_iff]
        omega
    · rw [if_neg hzero]
      exact ⟨htake.1, htake.2.1, .inl (congrArg _ htake.2.2)⟩

/-! #### Rounds that bring nothing -/

theorem answers_of_idle (ts : List Turn) : ∀ {v : VideoSource δ κ},
    (v.stopped ∨ v.shared.watched = none) → v.answers ts = [] := by
  induction ts with
  | nil => exact fun _ => rfl
  | cons t ts ih =>
    intro v h
    have hround : v.round t = v := if_pos h
    rw [answers, if_pos (.inl h), hround, ih h]
    rfl

theorem published_of_idle (ts : List Turn) : ∀ {v : VideoSource δ κ},
    (v.stopped ∨ v.shared.watched = none) → v.published ts = [] := by
  induction ts with
  | nil => exact fun _ => rfl
  | cons t ts ih =>
    intro v h
    have hround : v.round t = v := if_pos h
    rw [published, publishes, hround, if_pos rfl, ih h]
    rfl

/-! ### A round of a thread that runs -/

/-- The thread stops, or it gets on with a frame, which is published unless it is late. -/
theorem round_running {v : VideoSource δ κ} (hruns : v.stopped = false)
    (hwatched : v.shared.watched ≠ none) (t : Turn) :
    ((v.round t).stopped = true ∧ v.publishes t = none
        ∧ (t = .crash ∨ ∀ f, v.pipe.nextFrame.1 ≠ .ok (.frame f)))
      ∨ t ≠ .crash ∧ ∃ f, v.pipe.nextFrame.1 = .ok (.frame f) ∧ (v.round t).stopped = false
        ∧ (v.round t).pipe = v.pipe.nextFrame.2
        ∧ (v.round t).shared.watched = v.shared.watched
        ∧ (v.publishes t).toList = if t = .late then []
          else [{ generation := v.shared.generation + 1, data := f.data }] := by
  have hgoes : ¬ (v.stopped = true ∨ v.shared.watched = none) := by
    rw [hruns]
    exact not_or.2 ⟨Bool.false_ne_true, hwatched⟩
  -- what the round leaves says whether it published
  have hstops : ∀ v' : VideoSource δ κ, v.round t = v' → v'.stopped = true →
      v'.shared.generation = v.shared.generation →
      (v.round t).stopped = true ∧ v.publishes t = none := by
    rintro v' rfl hstopped hgen
    exact ⟨hstopped, if_pos hgen⟩
  by_cases hcrash : t = .crash
  · have hround : v.round t = { v with
        stopped := true
        shared := { v.shared with
          error := v.shared.error.orElse fun _ => "decoder crashed" } } := by
      unfold round
      rw [if_neg hgoes, if_pos hcrash]
    obtain ⟨hstopped, hnone⟩ := hstops _ hround rfl rfl
    exact .inl ⟨hstopped, hnone, .inl hcrash⟩
  rcases hnext : v.pipe.nextFrame with ⟨e | f | _, pipe⟩
  · have hround : v.round t = { v with
        pipe, stopped := true, shared := { v.shared with error := some e } } := by
      unfold round
      rw [if_neg hgoes, if_neg hcrash, hnext]
    obtain ⟨hstopped, hnone⟩ := hstops _ hround rfl rfl
    exact .inl ⟨hstopped, hnone, .inr fun f => nofun⟩
  · refine .inr ⟨hcrash, f, rfl, ?_⟩
    unfold publishes
    by_cases hlate : t = .late
    · have hround : v.round t = { v with pipe } := by
        unfold round
        rw [if_neg hgoes, if_neg hcrash, hnext]
        exact if_pos hlate
      rw [hround, if_pos hlate]
      exact ⟨hruns, rfl, rfl, congrArg _ (if_pos rfl)⟩
    · have hround : v.round t = { v with
          pipe, shared := { v.shared with
            generation := v.shared.generation + 1
            latest := some { generation := v.shared.generation + 1, data := f.data } } } := by
        unfold round
        rw [if_neg hgoes, if_neg hcrash, hnext]
        exact if_neg hlate
      rw [hround, if_neg hlate]
      exact ⟨hruns, rfl, rfl, congrArg _ (if_neg (Nat.succ_ne_self _))⟩
  · have hround : v.round t = { v with
        pipe, stopped := true, shared := { v.shared with ended := true } } := by
      unfold round
      rw [if_neg hgoes, if_neg hcrash, hnext]
    obtain ⟨hstopped, hnone⟩ := hstops _ hround rfl rfl
    exact .inl ⟨hstopped, hnone, .inr fun f => nofun⟩

/-- What the rounds of a poll leave. -/
theorem poll_rounds (v : VideoSource δ κ) (now : Instant) :
    (v.poll now).2.pipe = ((v.schedule 0).foldl round v).pipe
      ∧ (v.poll now).2.stopped = ((v.schedule 0).foldl round v).stopped
      ∧ (v.poll now).2.shared.watched = some now
      ∧ (v.poll now).2.schedule = fun n => v.schedule (n + 1) := by
  have hschedule := (rounds_spec (v.schedule 0) v).2.1
  -- what `take` gives out does not touch the worker
  have htake : ∀ w : VideoSource δ κ, w.take.2.pipe = w.pipe ∧ w.take.2.stopped = w.stopped
      ∧ w.take.2.shared.watched = w.shared.watched ∧ w.take.2.schedule = w.schedule := by
    intro w
    unfold take
    split_ifs <;> exact ⟨rfl, rfl, rfl, rfl⟩
  have hwatch : (v.watch now).schedule = fun n => v.schedule (n + 1) := by
    unfold watch
    dsimp only
    rw [hschedule]
  obtain ⟨hpipe, hstopped, hwatched, hsched⟩ := htake (v.watch now)
  unfold poll
  dsimp only
  -- an error is answered once, and the worker stays as the rounds left it
  rcases (v.watch now).shared.error with _ | e
  · exact ⟨hpipe, hstopped, hwatched, hsched.trans hwatch⟩
  · dsimp only
    split_ifs
    · exact ⟨rfl, rfl, rfl, hwatch⟩
    · exact ⟨hpipe, hstopped, hwatched, hsched.trans hwatch⟩

/-! ### At the first frame -/

/-- Nothing but the first frame was got from the clip. -/
structure AtFirst (answers : List (PipeResult Next)) : Prop where
  goesOn : .ok .ended ∉ answers
  first : ∀ r ∈ answers.drop 1, ∃ e, r = .error e

variable (speed : Speed) (first now : Instant) (looped : Bool)

/-- **The clip is held at its first frame** until `now` by two things, if it has a second one: the
loader polls often enough for the thread not to sleep, and since its first poll there was less time
than there is between the two frames.  A clip that does not loop has a second frame, or it breaks. -/
structure HeldBack (pipe : Pipeline δ κ) (polls : List Instant) : Prop where
  early : ∀ f₀ f₁, pipe.nextFrame.1 = .ok (.frame f₀) →
    pipe.nextFrame.2.nextFrame.1 = .ok (.frame f₁) →
      (first :: polls).IsChain (fun a b => b < a + idleAfter)
        ∧ now < first + divF64 (f₁.pts - f₀.pts) speed
  goesOn : looped = false → pipe.nextFrame.1 ≠ .ok .ended
    ∧ ∀ f₀, pipe.nextFrame.1 = .ok (.frame f₀) → pipe.nextFrame.2.nextFrame.1 ≠ .ok .ended

/-- The thread is at the second frame, by the reference point of the first. -/
def AtSecond (pipe : Pipeline δ κ) (f₀ : DecodedFrame) (v : VideoSource δ κ) (w : Worker) : Prop :=
  v.stopped = true ∨ v.pipe = pipe ∧ v.shared.watched ≠ none
    ∧ ∀ f₁, pipe.nextFrame.1 = .ok (.frame f₁) → ∃ d, first ≤ d ∧ w.origin = some (d, f₀.pts)

variable {speed first now looped}

section Rounds

variable {pipe : Pipeline δ κ} {polls : List Instant} {f₀ : DecodedFrame} {poll : Instant}
  {w w' : Worker}

/-- A thread that has stopped does nothing more. -/
theorem rounds_of_stopped {v : VideoSource δ κ} (hstopped : v.stopped = true) {ts : List Turn}
    (h : Rounds speed poll ts v w w') : ts = [] ∧ w' = w := by
  cases ts with
  | nil => exact ⟨rfl, h⟩
  | cons t ts => cases hstopped.symm.trans h.1

/-- The second frame is due after `now`, so the round that shows it ends after `now`. -/
theorem now_lt_of_second (hheld : HeldBack speed first now looped pipe polls) {f₁ : DecodedFrame}
    (hf₀ : pipe.nextFrame.1 = .ok (.frame f₀)) (hf₁ : pipe.nextFrame.2.nextFrame.1 = .ok (.frame f₁))
    {d : Instant} (hd : first ≤ d) (horigin : w.origin = some (d, f₀.pts)) {t : Turn}
    (ht : t ≠ .crash) (hlapse : w.Lapse speed (.ok (.frame f₁)) t w') : now < w'.now := by
  obtain ⟨-, hnow⟩ := hheld.early f₀ f₁ hf₀ hf₁
  obtain ⟨decode, hround⟩ : ∃ decode,
      (w.round speed { slept := none, decode, pts := f₁.pts }).1.now ≤ w'.now := by
    cases t with
    | crash => exact absurd rfl ht
    | onTime | late =>
      obtain ⟨decode, -, hround, -⟩ := hlapse
      exact ⟨decode, hround⟩
  have horigin' : w.origin.getD (w.now + decode, f₁.pts) = (d, f₀.pts) := by
    rw [horigin, Option.getD_some]
  -- early or late, the round does not end before the frame is due
  have hdue : d + divF64 (f₁.pts - f₀.pts) speed ≤ w'.now := by
    refine le_trans ?_ hround
    rw [(Worker.round_awake _ (l := { slept := none, decode, pts := f₁.pts }) rfl horigin' rfl).1]
    exact le_max_right _ _
  exact (hnow.trans_le (Nat.add_le_add_right hd _)).trans_le hdue

/-- Before its time the second frame is not there. -/
theorem atSecond_rounds (hheld : HeldBack speed first now looped pipe polls)
    (hframe : pipe.nextFrame.1 = .ok (.frame f₀)) (hpoll : poll ≤ now) {ts : List Turn}
    {v : VideoSource δ κ} (hat : AtSecond first pipe.nextFrame.2 f₀ v w)
    (h : Rounds speed poll ts v w w') :
    v.published ts = [] ∧ (looped = false → ∀ r ∈ v.answers ts, ∃ e, r = .error e)
      ∧ AtSecond first pipe.nextFrame.2 f₀ (ts.foldl round v) w'
      ∧ ((ts.foldl round v).stopped = true ∨ w' = w) := by
  -- the second frame is next: it is not due before the poll at `now`
  cases ts with
  | nil =>
    obtain rfl : w' = w := h
    exact ⟨rfl, fun _ => nofun, hat, .inr rfl⟩
  | cons t ts =>
    obtain ⟨hruns, -, w₁, hlapse, -, hle, hrest⟩ := h
    rcases hat with hstopped | ⟨hpipe, hwatched, horigin⟩
    · cases hstopped.symm.trans hruns
    rcases v.round_running hruns hwatched t with ⟨hstopped, hnone, hcrash⟩ | ⟨hcrash, f₁, hf₁, -⟩
    · -- an error, a panic, or the end of a clip that loops: nothing comes after it
      obtain ⟨rfl, rfl⟩ := rounds_of_stopped hstopped hrest
      refine ⟨?_, fun hloop r hr => ?_, .inl hstopped, .inl hstopped⟩
      · rw [published, hnone]
        rfl
      · have hr' : t ≠ .crash ∧ r = v.pipe.nextFrame.1 := by
          rw [answers, answers_of_idle [] (.inl hstopped), List.append_nil] at hr
          split_ifs at hr with hidle
          · cases hr
          · exact ⟨fun h => hidle (.inr h), List.mem_singleton.1 hr⟩
        obtain ⟨ht, rfl⟩ := hr'
        have hnext := hcrash.resolve_left ht
        have hended := (hheld.goesOn hloop).2 f₀ hframe
        rw [hpipe] at hnext ⊢
        generalize pipe.nextFrame.2.nextFrame.1 = next at hnext hended ⊢
        rcases next with e | f | _
        · exact ⟨e, rfl⟩
        · exact absurd rfl (hnext f)
        · exact absurd rfl hended
    · -- the round of the second frame ends when that is due, which is after `now`
      exfalso
      rw [hf₁] at hlapse
      rw [hpipe] at hf₁
      obtain ⟨d, hd, horigin⟩ := horigin f₁ hf₁
      have hnow := now_lt_of_second hheld hframe hf₁ hd horigin hcrash hlapse
      exact absurd (hle.trans hpoll) (not_le.2 hnow)

/-- The thread is before the first frame, and began after the loader's first poll. -/
structure AtStart (first : Instant) (pipe : Pipeline δ κ) (v : VideoSource δ κ) (w : Worker) :
    Prop where
  runs : v.stopped = false
  pipe : v.pipe = pipe
  watched : v.shared.watched ≠ none
  origin : w.origin = none
  began : first ≤ w.now

/-- What the rounds up to `now` may bring. -/
structure Brings (looped : Bool) (pipe : Pipeline δ κ) (frames : List Frame)
    (answers : List (PipeResult Next)) : Prop where
  length : frames.length ≤ 1
  data : ∀ f ∈ frames, ∃ f₀, pipe.nextFrame.1 = .ok (.frame f₀) ∧ f.data = f₀.data
  atFirst : looped = false → AtFirst answers

theorem Brings.nothing (looped : Bool) (pipe : Pipeline δ κ) : Brings looped pipe [] [] :=
  ⟨Nat.zero_le 1, List.forall_mem_nil _, fun _ => ⟨List.not_mem_nil, List.forall_mem_nil _⟩⟩

/-- A frame that sets the reference point itself is not late. -/
theorem lapse_of_start (horigin : w.origin = none) {t : Turn} (ht : t ≠ .crash)
    (h : w.Lapse speed (.ok (.frame f₀)) t w') :
    t = .onTime ∧ ∃ d, w.now ≤ d ∧ w'.origin = some (d, f₀.pts) := by
  have hround : ∀ decode, (w.round speed { slept := none, decode, pts := f₀.pts }).2 = .onTime
      ∧ (w.round speed { slept := none, decode, pts := f₀.pts }).1.origin
        = some (w.now + decode, f₀.pts) := by
    intro decode
    have horigin' : w.origin.getD (w.now + decode, f₀.pts) = (w.now + decode, f₀.pts) := by
      rw [horigin, Option.getD_none]
    obtain ⟨hafter, honTime⟩ := Worker.round_awake speed
      (l := { slept := none, decode, pts := f₀.pts }) rfl horigin' rfl
    -- the origin is set by this frame, so it is due at once
    exact ⟨honTime.2 ((Nat.le_add_right _ _).trans (Nat.le_add_right _ _)), by rw [hafter]⟩
  -- a round that does not crash is on time, whichever way it ended
  cases t with
  | crash => exact absurd rfl ht
  | onTime | late =>
    obtain ⟨decode, hturn, -, hafter⟩ := h
    obtain ⟨honTime, horigin⟩ := hround decode
    exact ⟨hturn.trans honTime, _, Nat.le_add_right _ _, hafter.trans horigin⟩

/-- The rounds of a thread that is before the first frame. -/
theorem atStart_rounds (hheld : HeldBack speed first now looped pipe polls) (hpoll : poll ≤ now)
    {ts : List Turn} {v : VideoSource δ κ} (hat : AtStart first pipe v w)
    (h : Rounds speed poll ts v w w') :
    Brings looped pipe (v.published ts) (v.answers ts)
      ∧ (ts = [] ∧ w' = w ∨ (ts.foldl round v).stopped = true
        ∨ w'.now ≤ poll ∧ ∃ f₀, pipe.nextFrame.1 = .ok (.frame f₀)
          ∧ AtSecond first pipe.nextFrame.2 f₀ (ts.foldl round v) w') := by
  cases ts with
  | nil =>
    obtain rfl : w' = w := h
    exact ⟨.nothing looped pipe, .inl ⟨rfl, rfl⟩⟩
  | cons t ts =>
    obtain ⟨hruns, -, w₁, hlapse, -, hle, hrest⟩ := h
    have hgoes : ¬ (v.stopped = true ∨ v.shared.watched = none) := by
      rw [hruns]
      exact not_or.2 ⟨Bool.false_ne_true, hat.watched⟩
    rcases v.round_running hruns hat.watched t with
      ⟨hstopped, hnone, hnext⟩ | ⟨hcrash, f₀, hf₀, hruns', hpipe, hwatched, hpublishes⟩
    · -- without a first frame there is nothing to show
      obtain ⟨rfl, rfl⟩ := rounds_of_stopped hstopped hrest
      refine ⟨⟨?_, ?_, fun hloop => ?_⟩, .inr (.inl hstopped)⟩
      · rw [published, hnone]
        exact Nat.zero_le 1
      · rw [published, hnone]
        exact List.forall_mem_nil _
      · have hended := (hheld.goesOn hloop).1
        rw [answers, answers_of_idle [] (.inl hstopped), List.append_nil, hat.pipe]
        split_ifs
        · exact ⟨List.not_mem_nil, List.forall_mem_nil _⟩
        · exact ⟨fun h => hended (List.mem_singleton.1 h).symm, List.forall_mem_nil _⟩
    · rw [hf₀] at hlapse
      rw [hat.pipe] at hf₀ hpipe
      obtain ⟨rfl, d, hd, horigin⟩ := lapse_of_start hat.origin hcrash hlapse
      -- from now on the thread is at the second frame
      have hsecond : AtSecond first pipe.nextFrame.2 f₀ (v.round .onTime) w₁ :=
        .inr ⟨hpipe, hwatched ▸ hat.watched, fun _ _ => ⟨d, hat.began.trans hd, horigin⟩⟩
      obtain ⟨hpublished, hanswers, hafter, hstays⟩ :=
        atSecond_rounds hheld hf₀ hpoll hsecond hrest
      have hframes : v.published (.onTime :: ts)
          = [{ generation := v.shared.generation + 1, data := f₀.data }] := by
        rw [published, hpublished, hpublishes]
        rfl
      refine ⟨⟨?_, ?_, fun hloop => ?_⟩, ?_⟩
      · rw [hframes]
        exact le_rfl
      · rw [hframes]
        exact List.forall_mem_singleton.2 ⟨f₀, hf₀, rfl⟩
      · rw [answers, if_neg (not_or.2 ⟨hgoes, hcrash⟩), hat.pipe, hf₀]
        refine ⟨fun hended => ?_, hanswers hloop⟩
        rcases List.mem_cons.1 hended with heq | hmem
        · cases heq
        · obtain ⟨e, he⟩ := hanswers hloop _ hmem
          cases he
      · rcases hstays with hstopped | rfl
        · exact .inr (.inl hstopped)
        · exact .inr (.inr ⟨hle, f₀, hf₀, hafter⟩)

/-- Errors change nothing. -/
theorem Brings.append {frames : List Frame} {answers more : List (PipeResult Next)}
    (h : Brings looped pipe frames answers)
    (hmore : looped = false → ∀ r ∈ more, ∃ e, r = .error e) :
    Brings looped pipe frames (answers ++ more) := by
  refine ⟨h.length, h.data, fun hloop => ?_⟩
  obtain ⟨hgoesOn, hfirst⟩ := h.atFirst hloop
  refine ⟨fun hended => ?_, fun r hr => ?_⟩
  · obtain ⟨e, he⟩ := hmore hloop _ ((List.mem_append.1 hended).resolve_left hgoesOn)
    cases he
  · rw [List.drop_append] at hr
    rcases List.mem_append.1 hr with hr | hr
    · exact hfirst r hr
    · exact hmore hloop r (List.mem_of_mem_drop hr)

end Rounds

/-! ### Up to a poll -/

section Polls

variable {pipe : Pipeline δ κ} {polls : List Instant} {f₀ : DecodedFrame} {w : Worker}

/-- A thread that has stopped brings nothing. -/
theorem stopped_polls (made : List Instant) :
    ∀ {v : VideoSource δ κ}, v.stopped = true → v.publishedBy made = [] ∧ v.answersBy made = [] := by
  induction made with
  | nil => exact fun _ => ⟨rfl, rfl⟩
  | cons q made ih =>
    intro v hstopped
    have hrounds : (v.schedule 0).foldl round v = v := by
      refine List.foldlRecOn _ _ (motive := fun w => w = v) rfl fun w hw t _ => ?_
      rw [hw]
      exact if_pos (.inl hstopped)
    have hstopped' : (v.poll q).2.stopped = true := by
      rw [(v.poll_rounds q).2.1, hrounds, hstopped]
    obtain ⟨hpublished, hanswers⟩ := ih hstopped'
    rw [publishedBy, answersBy, hpublished, hanswers, published_of_idle _ (.inl hstopped),
      answers_of_idle _ (.inl hstopped)]
    exact ⟨rfl, rfl⟩

/-- A thread that is at the second frame brings nothing by these polls. -/
theorem atSecond_polls (hheld : HeldBack speed first now looped pipe polls)
    (hframe : pipe.nextFrame.1 = .ok (.frame f₀)) (made : List Instant) :
    ∀ {v : VideoSource δ κ} {w : Worker}, (∀ p ∈ made, p ≤ now) →
      (∀ p ∈ v.shared.watched, w.now ≤ p ∧ ∀ q ∈ made, p ≤ q) → made.Pairwise (· ≤ ·) →
      AtSecond first pipe.nextFrame.2 f₀ v w → v.KeepsTime speed made w →
        v.publishedBy made = [] ∧ (looped = false → ∀ r ∈ v.answersBy made, ∃ e, r = .error e) := by
  induction made with
  | nil => exact fun _ _ _ _ _ => ⟨rfl, fun _ => List.forall_mem_nil _⟩
  | cons q made ih =>
    intro v w hmade hwatched hsorted hat hkeeps
    obtain ⟨w', hrounds, hrest⟩ := hkeeps
    obtain ⟨hpublished, hanswers, hafter, hstays⟩ :=
      atSecond_rounds hheld hframe (hmade q List.mem_cons_self) hat hrounds
    obtain ⟨hpipe, hstopped, hwatched', -⟩ := v.poll_rounds q
    obtain ⟨hfirst, hsorted⟩ := List.pairwise_cons.1 hsorted
    rw [publishedBy, answersBy, hpublished, List.nil_append]
    -- the thread stopped, or it is still in the round of the second frame
    by_cases hstops : ((v.schedule 0).foldl round v).stopped = true
    · obtain ⟨hnone, hnone'⟩ := stopped_polls made (hstopped.trans hstops)
      rw [hnone, hnone', List.append_nil]
      exact ⟨rfl, hanswers⟩
    have hruns : ¬ v.stopped = true := by
      intro h
      rw [(rounds_of_stopped h hrounds).1] at hstops
      exact hstops h
    obtain ⟨p, hp⟩ := Option.ne_none_iff_exists'.1 (hat.resolve_left hruns).2.1
    obtain ⟨hle, hlater⟩ := hwatched p hp
    have hpolled : w'.polled v.shared.watched q = w := by
      rw [hstays.resolve_left hstops, hp]
      exact Worker.polled_of_watched (watchedAt_of_le hle)
    rw [hpolled] at hrest
    obtain ⟨hpipe', -, horigin⟩ := hafter.resolve_left hstops
    rw [hstays.resolve_left hstops] at horigin
    obtain ⟨hnone, herrors⟩ := ih (fun p hp => hmade p (List.mem_cons_of_mem q hp)) (fun p hp => by
      rw [hwatched'] at hp
      obtain rfl := Option.some.inj hp
      exact ⟨hle.trans (hlater _ List.mem_cons_self), hfirst⟩) hsorted
      (.inr ⟨hpipe.trans hpipe', by rw [hwatched']; exact Option.some_ne_none q, horigin⟩) hrest
    refine ⟨hnone, fun hloop r hr => ?_⟩
    rcases List.mem_append.1 hr with hr | hr
    · exact hanswers hloop r hr
    · exact herrors hloop r hr

/-- The thread begins with the loader's first poll; up to the last one the loader polls often
enough. -/
theorem atStart_polls (hheld : HeldBack speed first now looped pipe polls) (made : List Instant) :
    ∀ {v : VideoSource δ κ} {w : Worker} {p : Instant}, v.shared.watched = some p →
      (∀ f₀ f₁, pipe.nextFrame.1 = .ok (.frame f₀) → pipe.nextFrame.2.nextFrame.1 = .ok (.frame f₁) →
        (p :: made).IsChain fun a b => b < a + idleAfter) →
      (p :: made ++ [now]).Pairwise (· ≤ ·) → AtStart first pipe v w →
      v.KeepsTime speed (made ++ [now]) w →
        Brings looped pipe (v.publishedBy (made ++ [now])) (v.answersBy (made ++ [now])) := by
  -- by induction on the polls before `now`, each one the last time the worker was watched
  induction made with
  | nil =>
    intro v w p _ _ _ hat hkeeps
    obtain ⟨w', hrounds, -⟩ := hkeeps
    have hbrings := (atStart_rounds hheld le_rfl hat hrounds).1
    rw [List.nil_append, publishedBy, publishedBy, answersBy, answersBy, List.append_nil,
      List.append_nil]
    exact hbrings
  | cons q made ih =>
    intro v w p hwatched hchain hsorted hat hkeeps
    obtain ⟨w', hrounds, hrest⟩ := hkeeps
    obtain ⟨hfirst, hsorted⟩ := List.pairwise_cons.1 hsorted
    have hq : q ≤ now := (List.pairwise_cons.1 hsorted).1 now (by simp)
    obtain ⟨hpipe, hstopped, hwatched', -⟩ := v.poll_rounds q
    obtain ⟨hbrings, ⟨hnil, rfl⟩ | hstops | ⟨hle, f₀, hf₀, hafter⟩⟩ :=
      atStart_rounds hheld hq hat hrounds
    · -- the first frame is not there yet
      rw [hnil] at hpipe hstopped
      have hat' : AtStart first pipe (v.poll q).2 (w'.polled v.shared.watched q) := by
        refine ⟨hstopped.trans hat.runs, hpipe.trans hat.pipe,
          by rw [hwatched']; exact Option.some_ne_none q, Worker.polled_origin hat.origin, ?_⟩
        exact hat.began.trans (Worker.le_polled w' _ q)
      have hbrings' := ih hwatched' (fun f₀ f₁ h₀ h₁ => (hchain f₀ f₁ h₀ h₁).tail) hsorted hat' hrest
      rw [List.cons_append, publishedBy, answersBy, hnil]
      exact hbrings'
    -- the thread is gone, and no poll brings anything
    · obtain ⟨hnone, hnone'⟩ := stopped_polls (made ++ [now]) (hstopped.trans hstops)
      rw [List.cons_append, publishedBy, answersBy, hnone, hnone', List.append_nil, List.append_nil]
      exact hbrings
    · -- the next poll comes before the thread would sleep
      have hat' : AtSecond first pipe.nextFrame.2 f₀ (v.poll q).2
          (w'.polled v.shared.watched q) := by
        rcases hafter with hstops | ⟨hpipe', -, horigin⟩
        · exact .inl (hstopped.trans hstops)
        refine .inr ⟨hpipe.trans hpipe', by rw [hwatched']; exact Option.some_ne_none q,
          fun f₁ hf₁ => ?_⟩
        have hgap : q < p + idleAfter := (List.isChain_cons_cons.1 (hchain f₀ f₁ hf₀ hf₁)).1
        have hawake : watchedAt v.shared.watched w'.now = true := by
          rw [hwatched]
          exact watchedAt_iff.2 (hle.trans_lt hgap)
        rw [Worker.polled_of_watched hawake]
        exact horigin f₁ hf₁
      have hnow : ∀ r ∈ made ++ [now], r ≤ now := by
        intro r hr
        rcases List.mem_append.1 hr with hr | hr
        · exact (List.pairwise_append.1 hsorted.of_cons).2.2 r hr now (List.mem_singleton_self now)
        · exact (List.mem_singleton.1 hr).le
      have hlater : ∀ r ∈ (v.poll q).2.shared.watched, (w'.polled v.shared.watched q).now ≤ r
          ∧ ∀ q' ∈ made ++ [now], r ≤ q' := by
        intro r hr
        rw [hwatched'] at hr
        obtain rfl := Option.some.inj hr
        exact ⟨Worker.polled_le _ hle, (List.pairwise_cons.1 hsorted).1⟩
      obtain ⟨hnone, herrors⟩ :=
        atSecond_polls hheld hf₀ (made ++ [now]) hnow hlater hsorted.of_cons hat' hrest
      rw [List.cons_append, publishedBy, answersBy, hnone, List.append_nil]
      exact hbrings.append herrors

/-- **A clip that is held back** is at its first frame at `now`, whatever time its thread takes. -/
theorem brings_of_heldBack (hheld : HeldBack speed first now looped pipe polls)
    {made : List Instant} (hmade : made <+: polls) (hsorted : (first :: polls ++ [now]).Pairwise (· ≤ ·))
    {v : VideoSource δ κ} (hpipe : v.pipe = pipe) (hruns : v.stopped = false)
    (hwatched : v.shared.watched = none) (horigin : w.origin = none)
    (hkeeps : v.KeepsTime speed (first :: made ++ [now]) w) :
    Brings looped pipe (v.publishedBy (first :: made ++ [now]))
      (v.answersBy (first :: made ++ [now])) := by
  obtain ⟨w', hrounds, hrest⟩ := hkeeps
  -- before the loader's first poll nobody was watching
  have hnil : v.schedule 0 = [] ∧ w' = w := by
    rcases hschedule : v.schedule 0 with _ | ⟨t, ts⟩
    · rw [hschedule] at hrounds
      exact ⟨rfl, hrounds⟩
    · rw [hschedule] at hrounds
      obtain ⟨-, hawake, -⟩ := hrounds
      rw [hwatched] at hawake
      cases hawake
  obtain ⟨hschedule, rfl⟩ := hnil
  obtain ⟨hpipe', hstopped, hwatched', -⟩ := v.poll_rounds first
  rw [hschedule] at hpipe' hstopped
  have hbegan : first ≤ (w'.polled v.shared.watched first).now := by
    rw [hwatched]
    exact le_add_tsub
  have hat : AtStart first pipe (v.poll first).2 (w'.polled v.shared.watched first) :=
    ⟨hstopped.trans hruns, hpipe'.trans hpipe, by rw [hwatched']; exact Option.some_ne_none first,
      Worker.polled_origin horigin, hbegan⟩
  have hchain : ∀ R : Instant → Instant → Prop, (first :: polls).IsChain R →
      (first :: made).IsChain R := by
    intro R h
    obtain ⟨later, hlater⟩ := (List.prefix_cons_inj first).2 hmade
    rw [← hlater] at h
    exact h.left_of_append
  have hprefix : (first :: made ++ [now]).Sublist (first :: polls ++ [now]) :=
    List.Sublist.append (hmade.sublist.cons_cons first) (List.Sublist.refl _)
  have hbrings := atStart_polls hheld made hwatched'
    (fun f₀ f₁ h₀ h₁ => hchain _ (hheld.early f₀ f₁ h₀ h₁).1)
    (hsorted.sublist hprefix) hat hrest
  rw [List.cons_append, publishedBy, answersBy, hschedule]
  exact hbrings

end Polls

/-! ### Clips that are not held back -/

section Unseen

/-- A poll before which the thread got nothing done. -/
theorem poll_of_nil {v : VideoSource δ κ} (hnil : v.schedule 0 = []) (herror : v.shared.error = none)
    (hsent : v.sent = v.shared.generation) (q : Instant) :
    v.poll q = (.ok none, { v with
      schedule := fun n => v.schedule (n + 1)
      shared := { v.shared with watched := some q } }) := by
  have hwatch : v.watch q = { v with
      schedule := fun n => v.schedule (n + 1)
      shared := { v.shared with watched := some q } } := by
    unfold watch
    rw [hnil]
    rfl
  unfold poll take
  rw [hwatch]
  dsimp only
  rw [herror, hsent]
  simp

variable {w : Worker} {f₀ f₁ : DecodedFrame} {p t : Instant}

/-- A thread without a reference point that gets its frame at once has it on time. -/
theorem lapse_first (horigin : w.origin = none) (ht : w.now ≤ t) :
    w.Lapse speed (.ok (.frame f₀)) .onTime { now := t, origin := some (w.now, f₀.pts) } := by
  have horigin' : w.origin.getD (w.now + 0, f₀.pts) = (w.now, f₀.pts) := by
    rw [horigin, Option.getD_none, add_zero]
  have hdue : w.now + divF64 (f₀.pts - f₀.pts) speed = w.now := by
    rw [Nat.sub_self, divF64_zero, add_zero]
  obtain ⟨hafter, honTime⟩ := Worker.round_awake speed
    (l := { slept := none, decode := 0, pts := f₀.pts }) rfl horigin' hdue
  refine ⟨0, (honTime.2 (Nat.le_add_right _ _)).symm, ?_, ?_⟩
  · rw [hafter, add_zero, max_self]
    exact ht
  · rw [hafter]

/-- One that gets its frame at once, before that is due, shows it when it is due. -/
theorem lapse_due {d : Instant} (horigin : w.origin = some (d, f₀.pts))
    (hearly : w.now ≤ d + divF64 (f₁.pts - f₀.pts) speed)
    (ht : d + divF64 (f₁.pts - f₀.pts) speed ≤ t) :
    w.Lapse speed (.ok (.frame f₁)) .onTime { now := t, origin := w.origin } := by
  have horigin' : w.origin.getD (w.now + 0, f₁.pts) = (d, f₀.pts) := by
    rw [horigin, Option.getD_some]
  obtain ⟨hafter, honTime⟩ := Worker.round_awake speed
    (l := { slept := none, decode := 0, pts := f₁.pts }) rfl horigin' rfl
  refine ⟨0, (honTime.2 ?_).symm, ?_, ?_⟩
  · exact hearly.trans (Nat.le_add_right _ _)
  · rw [hafter]
    exact max_le (hearly.trans ht) ht
  · rw [hafter, horigin]

/-- A round with this turn that gets a frame shows it. -/
theorem round_onTime {v : VideoSource δ κ} (hruns : v.stopped = false)
    (hwatched : v.shared.watched = some p) (hf : v.pipe.nextFrame.1 = .ok (.frame f₀)) :
    (v.round .onTime).stopped = false ∧ (v.round .onTime).pipe = v.pipe.nextFrame.2
      ∧ (v.round .onTime).shared.watched = some p
      ∧ ∀ ts, (v.published (.onTime :: ts)).length = 1 + ((v.round .onTime).published ts).length
        ∧ v.answers (.onTime :: ts) = .ok (.frame f₀) :: (v.round .onTime).answers ts := by
  have hne : v.shared.watched ≠ none := hwatched ▸ Option.some_ne_none p
  have hgoes : ¬ ((v.stopped = true ∨ v.shared.watched = none) ∨ Turn.onTime = .crash) := by
    rw [hruns]
    exact not_or.2 ⟨not_or.2 ⟨Bool.false_ne_true, hne⟩, nofun⟩
  rcases v.round_running hruns hne .onTime with
    ⟨-, -, hcrash | hnext⟩ | ⟨-, f, -, hstopped, hpipe, hwatched', hpublishes⟩
  · cases hcrash
  · exact absurd hf (hnext f₀)
  · refine ⟨hstopped, hpipe, hwatched'.trans hwatched, fun ts => ⟨?_, ?_⟩⟩
    · rw [published, hpublishes, List.length_append]
      rfl
    · rw [answers, if_neg hgoes, hf]
      rfl

/-- One that gets the end says so. -/
theorem ended_mem_answers {v : VideoSource δ κ} (hruns : v.stopped = false)
    (hwatched : v.shared.watched = some p) (hended : v.pipe.nextFrame.1 = .ok .ended)
    (ts : List Turn) : .ok .ended ∈ v.answers (.onTime :: ts) := by
  have hgoes : ¬ ((v.stopped = true ∨ v.shared.watched = none) ∨ Turn.onTime = .crash) := by
    rw [hruns, hwatched]
    exact not_or.2 ⟨not_or.2 ⟨Bool.false_ne_true, Option.some_ne_none p⟩, nofun⟩
  rw [answers, if_neg hgoes, hended]
  exact List.mem_cons_self

/-- A round that begins before the thread would sleep, and those behind it. -/
theorem rounds_cons {v : VideoSource δ κ} {turn : Turn} {ts : List Turn} {w₁ w' : Worker}
    {poll : Instant} (hruns : v.stopped = false) (hwatched : v.shared.watched = some p)
    (hw : w.now ≤ p) (hlapse : w.Lapse speed v.pipe.nextFrame.1 turn w₁) (hp : p ≤ w₁.now)
    (hle : w₁.now ≤ poll) (hrest : Rounds speed poll ts (v.round turn) w₁ w') :
    Rounds speed poll (turn :: ts) v w w' := by
  refine ⟨hruns, ?_, w₁, hlapse, ?_, hle, hrest⟩
  · rw [hwatched]
    exact watchedAt_of_le hw
  · rw [hwatched]
    exact fun p' hp' => Option.some.inj hp' ▸ hp

/-- A poll before which the thread showed a frame answers with it. -/
theorem poll_onTime {v : VideoSource δ κ} (hruns : v.stopped = false)
    (hwatched : v.shared.watched = some p) (hsent : v.sent = v.shared.generation)
    (hschedule : v.schedule 0 = [.onTime]) (hf : v.pipe.nextFrame.1 = .ok (.frame f₀))
    (now : Instant) :
    (∃ f, (v.poll now).1 = .ok (some f)) ∧ (v.poll now).2.stopped = false
      ∧ (v.poll now).2.pipe = v.pipe.nextFrame.2 := by
  obtain ⟨hruns', hpipe', -, hcount⟩ := round_onTime hruns hwatched hf
  obtain ⟨hpipe, hstopped, -, -⟩ := v.poll_rounds now
  obtain ⟨-, -, hanswer⟩ := v.poll_published hsent now
  rw [hschedule] at hpipe hstopped hanswer
  refine ⟨?_, hstopped.trans hruns', hpipe.trans hpipe'⟩
  have hne : v.published [.onTime] ≠ [] := by
    intro hnil
    have hlen := (hcount []).1
    rw [hnil, List.length_nil] at hlen
    omega
  -- an error would come before the first frame
  rcases hanswer with hok | ⟨-, -, hnil⟩
  · exact ⟨_, hok.trans (congrArg Except.ok (List.getLast?_eq_some_getLast hne))⟩
  · exact absurd hnil hne

end Unseen

end VideoSource

end NoshareCover
