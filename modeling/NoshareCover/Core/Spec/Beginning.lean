import NoshareCover.Core.Spec.CoverFile
import NoshareCover.Core.Spec.FrameStable
import NoshareCover.Core.Spec.OpaqueFile
import NoshareCover.Core.Spec.Pipeline
import NoshareCover.Core.Spec.Timing

/-!
# Where a cover starts

The loader pulls the first frame long before the cover is shown.  A GIF starts its clock again when
it is shown, but nothing tells the thread of a video, which goes on to the second frame when that is
due, and to the end.  `starts_at_beginning_iff` says which covers start at their first frame
whatever time the thread takes.
-/

namespace NoshareCover

/-! ### The loader's polls -/

/-- The polls that `firstFrame` makes of these: up to the first frame. -/
def loaderPolls {σ : Type} [Source σ] : σ → List Instant → List Instant
  | _, [] => []
  | src, now :: polls =>
    now :: match Source.poll src now with
      | (.ok none, src) => loaderPolls src polls
      | _ => []

/-- **What the loader gets from a video**: the last frame that its thread published until then. -/
theorem firstFrame_published {δ κ : Type} [Demuxer δ] [Decoder κ] (polls : List Instant) :
    ∀ {v : VideoSource δ κ} {src : OpenSource δ κ} {frame : Option Frame},
      v.sent = v.shared.generation → firstFrame (OpenSource.video v) polls = .ok (src, frame) →
      ∃ v', src = .video v' ∧ v' = v.afterPolls (loaderPolls (OpenSource.video v) polls)
        ∧ v'.sent = v'.shared.generation
        ∧ v'.shared.generation = v.shared.generation
          + (v.publishedBy (loaderPolls (OpenSource.video v) polls)).length
        ∧ frame = (v.publishedBy (loaderPolls (OpenSource.video v) polls)).getLast?
        ∧ ∀ f, frame = some f → f.generation = v'.shared.generation := by
  induction polls with
  | nil =>
    intro v src frame hsent h
    obtain ⟨rfl, rfl⟩ := Prod.mk.inj (Except.ok.inj h)
    exact ⟨v, rfl, rfl, hsent, rfl, rfl, nofun⟩
  | cons now polls ih =>
    intro v src frame hsent h
    obtain ⟨hsent', hgen, hanswer⟩ := v.poll_published hsent now
    obtain ⟨-, -, -, -, hnumber⟩ := VideoSource.rounds_spec (v.schedule 0) v
    have hpoll : Source.poll (OpenSource.video v) now = ((v.poll now).1, .video (v.poll now).2) := rfl
    rw [firstFrame, hpoll] at h
    rw [loaderPolls, VideoSource.publishedBy, hpoll]
    rcases hanswer with hok | ⟨⟨e, he⟩, -⟩
    · rw [hok] at h ⊢
      -- without a frame the loader sleeps and polls again
      rcases hlast : (v.published (v.schedule 0)).getLast? with _ | f
      · rw [hlast] at h
        obtain ⟨v', hv', hafter, hs, hg, hf⟩ := ih hsent' h
        rw [List.getLast?_eq_none_iff] at hlast
        rw [hlast] at hgen ⊢
        exact ⟨v', hv', hafter, hs, by rw [hg, hgen]; rfl, hf⟩
      · rw [hlast] at h
        obtain ⟨rfl, rfl⟩ := Prod.mk.inj (Except.ok.inj h)
        dsimp only
        rw [VideoSource.publishedBy, List.append_nil, hlast]
        refine ⟨_, rfl, rfl, hsent', hgen, rfl, ?_⟩
        rintro f' hf'
        obtain rfl := Option.some.inj hf'
        exact (hnumber f hlast).trans hgen.symm
    · rw [he] at h
      cases h

/-! ### A clock that was not started -/

theorem mulF64_zero (speed : Speed) : mulF64 0 speed = 0 := by
  unfold mulF64
  norm_num

theorem PlaybackClock.position_start {c : PlaybackClock} (h : c.started = none) (now : Instant)
    (duration : Option ℕ) : (c.position now duration).1 = 0 := by
  unfold position
  rw [h, Option.getD_none]
  dsimp only
  rw [Nat.sub_self, mulF64_zero]
  cases duration with
  | none => rfl
  | some d =>
    dsimp only
    split_ifs
    · rfl
    · rw [Nat.zero_mod]
      rfl
    · exact Nat.zero_min _

/-- A GIF whose clock was not started is at its first frame. -/
theorem GifSource.target_start {g : GifSource} (h : g.clock.started = none)
    (hdelay : ∀ f ∈ g.frames, 0 < f.delay) (now : Instant) : g.target now = 0 := by
  unfold target frameAt
  rw [PlaybackClock.position_start h]
  cases hframes : g.frames with
  | nil => rfl
  | cons f fs =>
    rw [hframes] at hdelay
    have hf : 0 < f.delay := hdelay f List.mem_cons_self
    rw [frameAtFrom, if_pos (by omega)]

/-! ### The start of a cover -/

namespace OpenSource

variable {δ κ : Type} [Demuxer δ] [Decoder κ]

/-- The first frame on the timeline of a source that was just opened. -/
def beginning : OpenSource δ κ → Option Frame
  | still s => s.frame
  | gif g => some { generation := 1, data := g.pictureData 0 }
  | video v =>
    match v.pipe.nextFrame.1 with
    | .ok (.frame f) => some { generation := 1, data := f.data }
    | _ => none

/-- A clip that was opened, and that the loader sent as `src`, has neither moved past its first frame
nor ended by the last of these polls. -/
def Unmoved (made : List Instant) (now : Instant) : OpenSource δ κ → OpenSource δ κ → Prop
  | gif _, gif g => ((Source.shown g).clock.position now (some g.total)).1 = 0
  | video v, _ => VideoSource.AtFirst (v.answersBy made)
  | _, _ => True

/-- If this is a video, its schedule keeps time from some start of its thread on. -/
def KeepsTime (speed : Speed) (made : List Instant) (opened : OpenSource δ κ) : Prop :=
  ∀ v, opened = video v → ∃ start, v.KeepsTime speed made { now := start, origin := none }

/-- What is shown once the source was picked up with the loader's frame. -/
def firstShown (src : OpenSource δ κ) (frame : Option Frame) (polled : Bool) (now : Instant) :
    Option Frame :=
  if polled then
    match (Source.poll (Source.shown src) now).1 with
    | .ok f => f.or frame
    | .error _ => none
  else frame

/-! #### Images -/

theorem still_firstShown {s : StillSource} (hs : s.frame ≠ none) {polls : List Instant}
    {src : OpenSource δ κ} {frame : Option Frame}
    (h : firstFrame (still s) polls = .ok (src, frame)) (polled : Bool) (now : Instant) :
    (∀ made, Unmoved made now (still s) src)
      ∧ ∀ f, src.firstShown frame polled now = some f → s.frame = some f := by
  obtain ⟨f₀, hf₀⟩ := Option.ne_none_iff_exists'.1 hs
  -- what the loader sent: the source with its frame, or polled once and without it
  have hsent : ∃ s' : StillSource, src = still s' ∧ s'.frame.or frame = s.frame
      ∧ ∀ f, frame = some f → s.frame = some f := by
    cases polls with
    | nil =>
      obtain ⟨rfl, rfl⟩ := Prod.mk.inj (Except.ok.inj h)
      exact ⟨s, rfl, Option.or_none, nofun⟩
    | cons t polls =>
      have hpoll : Source.poll (still s : OpenSource δ κ) t
          = (.ok (some f₀), still { frame := none }) := by
        show (Except.ok s.frame, _) = _
        rw [hf₀]
        rfl
      rw [firstFrame, hpoll] at h
      obtain ⟨rfl, rfl⟩ := Prod.mk.inj (Except.ok.inj h)
      exact ⟨_, rfl, hf₀.symm, fun f hf => hf₀.trans hf⟩
  -- both hold the one frame
  obtain ⟨s', rfl, hor, hframe⟩ := hsent
  refine ⟨fun _ => trivial, fun f hf => ?_⟩
  unfold firstShown at hf
  cases polled with
  | true => exact hor.symm.trans hf
  | false => exact hframe f hf

/-! #### GIFs -/

/-- A GIF that was just opened. -/
structure JustOpened (g : GifSource) : Prop where
  composed : g.Composed
  frames_ne : g.frames ≠ []
  sent : g.sent = none
  generation : g.generation = 0
  started : g.clock.started = none
  delay : ∀ f ∈ g.frames, 0 < f.delay

theorem gif_firstShown {g : GifSource} (hg : JustOpened g) {polls : List Instant}
    {src : OpenSource δ κ} {frame : Option Frame} (h : firstFrame (gif g) polls = .ok (src, frame))
    (polled : Bool) (now : Instant) :
    (∀ made, Unmoved made now (gif g) src) ∧ ∀ f, src.firstShown frame polled now = some f →
      (gif g : OpenSource δ κ).beginning = some f := by
  -- the loader's first poll already gives the first frame, so there is no second one
  have hsent : ∃ g' : GifSource, src = gif g' ∧ g'.Composed ∧ GifSource.SameFile g g'
      ∧ ((g'.sent = none ∧ g'.generation = 0 ∧ frame = none)
        ∨ (g'.sent = some 0 ∧ frame = some { generation := 1, data := g.pictureData 0 })) := by
    cases polls with
    | nil =>
      obtain ⟨rfl, rfl⟩ := Prod.mk.inj (Except.ok.inj h)
      exact ⟨g, rfl, hg.composed, ⟨rfl, rfl, rfl, rfl, rfl⟩, .inl ⟨hg.sent, hg.generation, rfl⟩⟩
    | cons t polls =>
      obtain ⟨hanswer, hcomp, hsame, hlast, -⟩ := GifSource.poll_spec hg.composed hg.frames_ne t
      rw [GifSource.target_start hg.started hg.delay, hg.sent, if_neg nofun, hg.generation]
        at hanswer
      rw [GifSource.target_start hg.started hg.delay] at hlast
      have hpoll : Source.poll (gif g : OpenSource δ κ) t = ((g.poll t).1, gif (g.poll t).2) := rfl
      rw [firstFrame, hpoll, hanswer] at h
      obtain ⟨rfl, rfl⟩ := Prod.mk.inj (Except.ok.inj h)
      exact ⟨_, rfl, hcomp, hsame, .inr ⟨hlast, rfl⟩⟩
  obtain ⟨g', rfl, hcomp, hsame, hcases⟩ := hsent
  -- the clock was restarted
  have hstarted : (Source.shown g').clock.started = none := rfl
  refine ⟨fun _ => PlaybackClock.position_start hstarted _ _, fun f hf => ?_⟩
  have hshown : GifSource.SameFile g' (Source.shown g') := by
    constructor <;> rfl
  have hframes : (Source.shown g').frames = g.frames := hshown.frames.trans hsame.frames
  have hcomp' : (Source.shown g').Composed := hcomp.congr hshown rfl rfl rfl
  obtain ⟨hanswer, -⟩ := GifSource.poll_spec hcomp' (by rw [hframes]; exact hg.frames_ne) now
  rw [GifSource.target_start hstarted (by rw [hframes]; exact hg.delay)] at hanswer
  have hdata : (Source.shown g').pictureData 0 = g.pictureData 0 := (hsame.trans hshown).pictureData 0
  have hpoll : (Source.poll (Source.shown (gif g' : OpenSource δ κ)) now).1
      = ((Source.shown g').poll now).1 := rfl
  unfold firstShown at hf
  rw [hpoll, hanswer, hdata] at hf
  have hsent' : (Source.shown g').sent = g'.sent := rfl
  have hgen' : (Source.shown g').generation = g'.generation := rfl
  rw [hsent', hgen'] at hf
  -- a frame that was sent is not sent again: the loader's one stays
  rcases hcases with ⟨hlast, hgen, rfl⟩ | ⟨hlast, rfl⟩
  · have hnew : ¬ (none : Option ℕ) = some 0 := nofun
    rw [hlast, if_neg hnew, hgen] at hf
    cases polled with
    | true => exact hf
    | false => cases hf
  · have hold : some 0 = some 0 := rfl
    rw [hlast, if_pos hold] at hf
    cases polled <;> exact hf

/-! #### Videos -/

/-- What is shown of a video is the last frame that its thread has published. -/
theorem video_firstShown {v : VideoSource δ κ} (hv : v.sent = v.shared.generation)
    (hzero : v.shared.generation = 0) {polls : List Instant} {src : OpenSource δ κ}
    {frame : Option Frame} (h : firstFrame (video v) polls = .ok (src, frame)) (polled : Bool)
    (now : Instant) :
    ∃ v', src = video v' ∧ v' = v.afterPolls (loaderPolls (video v) polls) ∧
      let frames := v.publishedBy (loaderPolls (video v) polls)
        ++ v'.published (if polled then v'.schedule 0 else [])
      src.firstShown frame polled now = frames.getLast?
        ∧ ∀ f, frames.getLast? = some f → f.generation = frames.length := by
  obtain ⟨v', rfl, hafter, hsent, hgen, rfl, hnumber⟩ := firstFrame_published polls hv h
  refine ⟨v', rfl, hafter, ?_⟩
  rw [hzero, Nat.zero_add] at hgen
  clear hafter
  generalize v.publishedBy (loaderPolls (video v) polls) = before at *
  -- whether `resolve` polls in this frame too
  cases polled with
  | false =>
    show before.getLast? = (before ++ []).getLast? ∧ ∀ f, (before ++ []).getLast? = some f →
      f.generation = (before ++ []).length
    rw [List.append_nil]
    exact ⟨rfl, fun f hf => (hnumber f hf).trans hgen⟩
  | true =>
    obtain ⟨-, -, hanswer⟩ := v'.poll_published hsent now
    obtain ⟨-, -, -, -, hnumber'⟩ := VideoSource.rounds_spec (v'.schedule 0) v'
    have hpoll : (Source.poll (Source.shown (video v' : OpenSource δ κ)) now).1
        = (v'.poll now).1 := rfl
    unfold firstShown
    simp only [if_true]
    rw [hpoll, List.getLast?_append, List.length_append, ← hgen]
    constructor
    -- a poll that fails comes after none that gave a frame
    · rcases hanswer with hok | ⟨⟨e, he⟩, hnone, hnil⟩
      · rw [hok]
      · have hbefore : before = [] := by
          rw [← List.length_eq_zero_iff]
          omega
        rw [he, hnil, hbefore]
        rfl
    · intro f hf
      -- the last frame is of this poll, or of those of the loader
      rcases Option.or_eq_some_iff.1 hf with hlast | ⟨hnone, hlast⟩
      · exact hnumber' f hlast
      · rw [List.getLast?_eq_none_iff.1 hnone]
        exact hnumber f hlast

/-- The last one of these frames is the first of the video. -/
theorem last_is_beginning_iff {v : VideoSource δ κ} {frames : List Frame}
    (hnumber : ∀ f, frames.getLast? = some f → f.generation = frames.length) :
    (∀ f, frames.getLast? = some f → (video v).beginning = some f)
      ↔ frames.length ≤ 1 ∧ ∀ f ∈ frames, (video v).beginning.map Frame.data = some f.data := by
  -- frames are numbered as they are published, the first one is 1
  have hfirst : ∀ b, (video v).beginning = some b → b.generation = 1 := by
    intro b hb
    unfold beginning at hb
    dsimp only at hb
    split at hb
    · obtain rfl := Option.some.inj hb
      rfl
    · cases hb
  rcases List.eq_nil_or_concat' frames with rfl | ⟨init, f, rfl⟩
  · exact ⟨fun _ => ⟨Nat.zero_le 1, nofun⟩, fun _ => nofun⟩
  have hlast : (init ++ [f]).getLast? = some f := List.getLast?_concat
  have hgen := hnumber f hlast
  constructor
  · intro h
    have hb := h f hlast
    have hlen : (init ++ [f]).length = 1 := hgen.symm.trans (hfirst f hb)
    have hinit : init = [] := by
      rw [← List.length_eq_zero_iff]
      rw [List.length_append, List.length_singleton] at hlen
      omega
    refine ⟨hlen.le, fun g hg => ?_⟩
    rw [hinit] at hg
    obtain rfl := List.mem_singleton.1 hg
    rw [hb]
    rfl
  · rintro ⟨hlen, hdata⟩ g hg
    obtain rfl := Option.some.inj (hlast.symm.trans hg)
    obtain ⟨b, hb, hbd⟩ := Option.map_eq_some_iff.1 (hdata f (by simp))
    have hone : f.generation = 1 := by
      rw [hgen]
      rw [List.length_append, List.length_singleton] at hlen ⊢
      omega
    have hgen' : b.generation = f.generation := (hfirst b hb).trans hone.symm
    have hbf : b = f := by
      cases b
      cases f
      exact congrArg₂ Frame.mk hgen' hbd
    rw [hb, hbf]

end OpenSource

/-! ### The `resolve` that picks it up -/

namespace Sys

variable {σ : Type} [Source σ]

/-- What `resolve` returns of a cover that is there. -/
theorem resolve_view {s : Sys σ} {play : PlayParams} {c : Cover σ} (env : Env) (now : Instant)
    (hpath : play.path ≠ "") (hc : s.reg.covers.lookup play = some c) :
    (s.resolve env play now).2
      = (s.advance env play now c).1.current.map fun frame => { id := c.id, frame } := by
  rw [resolve_of_lookup env now hpath hc, ← advance_id s env play now c]
  unfold present
  cases (s.advance env play now c).1.current <;> rfl

end Sys

namespace OpenSource

variable {δ κ : Type} [Demuxer δ] [Decoder κ]

/-- The cover gets what the loader has sent, and is polled if it was not in this frame. -/
theorem advance_picked {s : Sys (OpenSource δ κ)} {c : Cover (OpenSource δ κ)} {loader : Loader}
    {retry : Bool} {src : OpenSource δ κ} {frame : Option Frame} (env : Env) (play : PlayParams)
    (now : Instant) (hstate : c.state = .opening loader retry) (hcurrent : c.current = none)
    (hsent : (s.threads loader.rx).sent = some (.ok (src, frame))) :
    (s.advance env play now c).1.current
      = src.firstShown frame (c.polledIn ≠ s.reg.frameNo) now := by
  -- the message is picked up, with the frame that the loader polled
  have hpick : (s.pickUp now { c with lastUsed := now }).1
        = { c with lastUsed := now, state := .ready (Source.shown src), current := frame }
      ∧ (s.pickUp now { c with lastUsed := now }).2.reg.frameNo = s.reg.frameNo := by
    refine ⟨?_, (s.pickUp_sameReg now _).frameNo⟩
    unfold Sys.pickUp Sys.tryRecv
    dsimp only
    rw [hstate]
    dsimp only
    rw [hsent]
    dsimp only
    rw [hcurrent, Option.or_none]
  rw [Sys.advance_opening hstate, hpick.1]
  unfold Sys.pollReady firstShown
  dsimp only
  rw [hpick.2]
  -- it is polled once in a frame of the compositor
  by_cases hpolled : c.polledIn = s.reg.frameNo
  · simp [hpolled]
  · rw [if_pos hpolled, if_pos (decide_eq_true hpolled)]
    rcases Source.poll (Source.shown src) now with ⟨e | _ | f, src'⟩ <;> rfl

end OpenSource

/-- The kinds of a source that was opened, as they are then. -/
theorem openMedia_starts {δ κ : Type} [Demuxer δ] [Decoder κ] {files : Files δ κ}
    {play : PlayParams} {settings : Settings} {schedule : ℕ → List Turn} {opened : OpenSource δ κ}
    (h : openMedia files play settings schedule = .ok opened) :
    (∃ s, opened = .still s ∧ s.frame ≠ none) ∨ (∃ g, opened = .gif g ∧ OpenSource.JustOpened g)
      ∨ ∃ pipe, opened = .video (.spawn pipe play.path schedule) := by
  rcases (openMedia_cases h).2 with ⟨-, s, rfl, hs⟩ | ⟨-, g, rfl, hg⟩ | ⟨-, pipe, -, rfl⟩
  -- the file was decoded
  · refine .inl ⟨s, rfl, ?_⟩
    unfold StillSource.open at hs
    split at hs
    · cases hs
    · split_ifs at hs
      obtain rfl := Except.ok.inj hs
      exact nofun
  -- and so were the images of the gif
  · obtain ⟨gif, images, -, -, -, -, hne, rfl⟩ := GifSource.open_eq_opened hg
    refine .inr (.inl ⟨_, rfl, ⟨GifSource.composed_clearCanvas _, hne, rfl, rfl, rfl, ?_⟩⟩)
    intro f hf
    obtain ⟨image, -, rfl⟩ := List.mem_map.1 hf
    unfold GifFrame.ofImage
    dsimp only
    split_ifs <;> omega
  · exact .inr (.inr ⟨pipe, rfl⟩)

/-- A cover is there, and its loader has sent the source with its first frame. -/
def Sys.HasSent {σ : Type} (s : Sys σ) (play : PlayParams) (src : σ) (frame : Option Frame) : Prop :=
  ∃ c loader retry, s.reg.covers.lookup play = some c ∧ c.state = .opening loader retry
    ∧ (s.threads loader.rx).sent = some (.ok (src, frame))

/-- **Every cover of this file starts at the beginning**: whatever time the thread of a video takes,
in every run, the `resolve` at `now` that picks up what the loader made of the file shows the first
frame, and a clip that does not loop has not moved on unseen. -/
def StartsAtBeginning {δ κ : Type} [Demuxer δ] [Decoder κ] (files : Files δ κ) (play : PlayParams)
    (settings : Settings) (polls : List Instant) (now : Instant) : Prop :=
  ∀ (schedule : ℕ → List Turn) (opened src : OpenSource δ κ) (frame : Option Frame),
    openMedia files play settings schedule = .ok opened →
    opened.KeepsTime play.speed (loaderPolls opened polls ++ [now]) →
    load (.ok opened) polls = .ok (src, frame) →
    ∀ (defaults : Settings) (es : List (Sys.Event (OpenSource δ κ))) (env : Env),
      (Machine.run Sys.step (.init defaults) es).HasSent play src frame →
      (∀ view, ((Machine.run Sys.step (.init defaults) es).resolve env play now).2 = some view →
          opened.beginning = some view.frame)
        ∧ (play.looped = false →
          OpenSource.Unmoved (loaderPolls opened polls ++ [now]) now opened src)

section Start

variable {δ κ : Type} [Demuxer δ] [Decoder κ] {files : Files δ κ} {play : PlayParams}
  {settings : Settings} {schedule : ℕ → List Turn} {opened src : OpenSource δ κ}
  {frame : Option Frame} {polls : List Instant} {first now : Instant}

omit [Decoder κ] in
theorem path_ne_of_openMedia (hopen : openMedia files play settings schedule = .ok opened) :
    play.path ≠ "" := by
  intro hempty
  have hkind : kindFor "" = none := by decide +kernel
  rcases (openMedia_cases hopen).2 with ⟨h, -⟩ | ⟨h, -⟩ | ⟨h, -⟩
  all_goals
    rw [hempty, hkind] at h
    cases h

/-- What `resolve` shows of a cover that it picks up. -/
theorem firstShown_of_resolve (defaults : Settings) (es : List (Sys.Event (OpenSource δ κ)))
    {c : Cover (OpenSource δ κ)} {loader : Loader} {retry : Bool} (hpath : play.path ≠ "")
    (hc : (Machine.run Sys.step (.init defaults) es).reg.covers.lookup play = some c)
    (hstate : c.state = .opening loader retry)
    (hsent : ((Machine.run Sys.step (.init defaults) es).threads loader.rx).sent
      = some (.ok (src, frame))) (env : Env) (now : Instant) :
    ((Machine.run Sys.step (.init defaults) es).resolve env play now).2
      = (src.firstShown frame
          (c.polledIn ≠ (Machine.run Sys.step (.init defaults) es).reg.frameNo) now).map
        fun frame => { id := c.id, frame } := by
  -- a cover that is still opened has never shown anything
  have hcurrent : c.current = none := by
    by_contra hne
    obtain ⟨f, hf⟩ := Option.ne_none_iff_exists'.1 hne
    obtain ⟨src', hready⟩ := ((Sys.Settled.run defaults es).covers play c hc).ready f hf
    cases hstate.symm.trans hready
  rw [Sys.resolve_view env now hpath hc,
    OpenSource.advance_picked env play now hstate hcurrent hsent]

theorem loaderPolls_prefix {σ : Type} [Source σ] (polls : List Instant) :
    ∀ src : σ, loaderPolls src polls <+: polls := by
  induction polls with
  | nil => exact fun _ => List.prefix_rfl
  | cons now polls ih =>
    intro src
    rw [loaderPolls, List.prefix_cons_inj]
    split
    · exact ih _
    · exact List.nil_prefix

/-! #### Clips that are held back -/

/-- A file that is no video, or one that is held back, starts at the beginning. -/
theorem startsAtBeginning_of_heldBack (hsorted : (first :: polls ++ [now]).Pairwise (· ≤ ·))
    (hheld : ∀ schedule v, openMedia files play settings schedule = .ok (.video v) →
      VideoSource.HeldBack play.speed first now play.looped v.pipe polls) :
    StartsAtBeginning files play settings (first :: polls) now := by
  intro schedule opened src frame hopen hkeeps hload defaults es env
  rintro ⟨c, loader, retry, hc, hstate, hsent⟩
  rw [firstShown_of_resolve defaults es (path_ne_of_openMedia hopen) hc hstate hsent env now]
  generalize (decide (c.polledIn ≠ _) : Bool) = polled
  have hshown : ∀ P : Frame → Prop, (∀ f, src.firstShown frame polled now = some f → P f) →
      ∀ view : CoverView, ((src.firstShown frame polled now).map
        fun frame => ({ id := c.id, frame } : CoverView)) = some view → P view.frame := by
    intro P h view hview
    obtain ⟨f, hf, rfl⟩ := Option.map_eq_some_iff.1 hview
    exact h f hf
  rcases openMedia_starts hopen with ⟨s₀, rfl, hs⟩ | ⟨g, rfl, hg⟩ | ⟨pipe, rfl⟩
  · obtain ⟨hunmoved, hfirst⟩ := OpenSource.still_firstShown hs hload polled now
    exact ⟨hshown _ hfirst, fun _ => hunmoved _⟩
  · obtain ⟨hunmoved, hfirst⟩ := OpenSource.gif_firstShown hg hload polled now
    exact ⟨hshown _ hfirst, fun _ => hunmoved _⟩
  · obtain ⟨v', rfl, hafter, hframes, hnumber⟩ :=
      OpenSource.video_firstShown rfl rfl hload polled now
    obtain ⟨made, hmade, hprefix⟩ : ∃ made,
        loaderPolls (OpenSource.video (.spawn pipe play.path schedule)) (first :: polls)
          = first :: made ∧ made <+: polls := by
      refine ⟨_, rfl, ?_⟩
      refine (List.prefix_cons_inj first).1 ?_
      exact loaderPolls_prefix (first :: polls) _
    obtain ⟨start, hkeeps⟩ := hkeeps _ rfl
    rw [hmade] at hafter hframes hnumber hkeeps ⊢
    have hbrings := VideoSource.brings_of_heldBack (hheld schedule _ hopen) hprefix hsorted rfl rfl
      rfl rfl hkeeps
    refine ⟨hshown (fun f => OpenSource.beginning (.video (.spawn pipe play.path schedule)) = some f)
      ?_, hbrings.atFirst⟩
    -- without a poll the loader's frames are shown, which are among those up to `now`
    have hsub : List.Sublist (VideoSource.publishedBy (.spawn pipe play.path schedule)
          (first :: made) ++ v'.published (if polled then v'.schedule 0 else []))
        (VideoSource.publishedBy (.spawn pipe play.path schedule) (first :: made ++ [now])) := by
      rw [VideoSource.publishedBy_append, ← hafter]
      refine List.Sublist.append (List.Sublist.refl _) ?_
      rw [VideoSource.publishedBy, VideoSource.publishedBy, List.append_nil]
      cases polled with
      | true => exact List.Sublist.refl _
      | false => exact List.nil_sublist _
    rw [hframes]
    refine (OpenSource.last_is_beginning_iff hnumber).2 ⟨?_, fun f hf => ?_⟩
    · exact hsub.length_le.trans hbrings.length
    · obtain ⟨f₀, hf₀, hdata⟩ := hbrings.data f (hsub.subset hf)
      unfold OpenSource.beginning
      dsimp only
      rw [hf₀, hdata]
      rfl

/-! #### Clips that are not -/

omit [Decoder κ] in
theorem openMedia_schedule {v : VideoSource δ κ}
    (h : openMedia files play settings schedule = .ok (.video v)) (schedule' : ℕ → List Turn) :
    openMedia files play settings schedule' = .ok (.video (.spawn v.pipe play.path schedule')) := by
  obtain ⟨hpresent, hkinds⟩ := openMedia_cases h
  -- the schedule has no say in the kind of the source
  have hkind : kindFor play.path = some .video := by
    rcases hkinds with ⟨-, s, hs, -⟩ | ⟨-, g, hg, -⟩ | ⟨hkind, -⟩
    · cases hs
    · cases hg
    · exact hkind
  unfold openMedia at h ⊢
  dsimp only at h ⊢
  -- nor in the pipeline
  rw [if_neg (by simp [hpresent]), hkind] at h ⊢
  dsimp only at h ⊢
  unfold VideoSource.open at h ⊢
  rcases hpipe : openPipeline files play.path play.looped settings with e | pipe
  · rw [hpipe] at h
    cases h
  · rw [hpipe] at h
    cases h
    rfl

/-- Some run has what a loader sent, and `resolve` is about to poll it. -/
theorem exists_run (defaults : Settings) (hpath : play.path ≠ "") (polls : List Instant)
    (hload : load (.ok opened) polls = .ok (src, frame)) :
    ∃ (es : List (Sys.Event (OpenSource δ κ))) (c : Cover (OpenSource δ κ)) (loader : Loader)
      (retry : Bool),
      (Machine.run Sys.step (.init defaults) es).reg.covers.lookup play = some c
        ∧ c.state = .opening loader retry
        ∧ ((Machine.run Sys.step (.init defaults) es).threads loader.rx).sent
          = some (.ok (src, frame))
        ∧ c.polledIn ≠ (Machine.run Sys.step (.init defaults) es).reg.frameNo := by
  -- the shortest run: warm, the loader is done, the next frame
  let env : Env := { defaults, pathExists := true, canSpawn := true }
  have hwarm : (Sys.init defaults : Sys (OpenSource δ κ)).warm env play 0
      = (Sys.init defaults).start play defaults 0 true := by
    have hnew : ¬ (play.path = "" ∨ play ∈ (Sys.init defaults : Sys (OpenSource δ κ)).reg.covers) :=
      not_or.2 ⟨hpath, AList.notMem_empty play⟩
    unfold Sys.warm
    rw [if_neg hnew]
    rfl
  have hrun : Machine.run Sys.step (.init defaults)
      [.warm env play 0, .deliver 0 (.ok opened) polls, .beginFrame]
      = (((Sys.init defaults).start play defaults 0 true).send 0 (.ok (src, frame))).beginFrame := by
    rw [← hwarm, ← hload]
    rfl
  refine ⟨[.warm env play 0, .deliver 0 (.ok opened) polls, .beginFrame],
    { id := 1, state := .opening { rx := 0, cancelled := false, worker := some 0 } false,
      current := none, polledIn := 0, lastUsed := 0 }, _, _, ?_, rfl, ?_, ?_⟩
  · rw [hrun]
    exact AList.lookup_insert _
  · rw [hrun]
    rfl
  · rw [hrun]
    exact Nat.zero_ne_one

/-- A schedule that keeps time and shows the second frame, or comes to the end, is too much. -/
theorem not_startsAtBeginning {pipe : Pipeline δ κ}
    (hopen : openMedia files play settings schedule = .ok (.video (.spawn pipe play.path schedule)))
    (hload : firstFrame (OpenSource.video (.spawn pipe play.path schedule)) polls = .ok (src, frame))
    (hkeeps : OpenSource.KeepsTime play.speed
      (loaderPolls (OpenSource.video (.spawn pipe play.path schedule)) polls ++ [now])
      (.video (.spawn pipe play.path schedule)))
    (hgoes : 1 < (VideoSource.publishedBy (.spawn pipe play.path schedule)
          (loaderPolls (OpenSource.video (.spawn pipe play.path schedule)) polls ++ [now])).length
      ∨ play.looped = false ∧ .ok .ended ∈ VideoSource.answersBy (.spawn pipe play.path schedule)
          (loaderPolls (OpenSource.video (.spawn pipe play.path schedule)) polls ++ [now])) :
    ¬ StartsAtBeginning files play settings polls now := by
  intro hstarts
  have hpath := path_ne_of_openMedia hopen
  obtain ⟨es, c, loader, retry, hc, hstate, hsent, hpolled⟩ :=
    exists_run settings hpath polls (show load (.ok _) polls = _ from hload)
  obtain ⟨hfirst, hunmoved⟩ := hstarts schedule _ src frame hopen hkeeps hload settings es
    { defaults := settings, pathExists := true, canSpawn := true } ⟨c, loader, retry, hc, hstate, hsent⟩
  rcases hgoes with htwo | ⟨hloop, hended⟩
  · -- the frame that is shown is the last one that was published
    rw [firstShown_of_resolve settings es hpath hc hstate hsent, decide_eq_true hpolled] at hfirst
    obtain ⟨v', rfl, hafter, hframes, hnumber⟩ :=
      OpenSource.video_firstShown rfl rfl hload true now
    rw [hframes] at hfirst
    have hlast := (OpenSource.last_is_beginning_iff hnumber).1 fun f hf =>
      hfirst ⟨c.id, f⟩ (by rw [hf]; rfl)
    rw [VideoSource.publishedBy_append, ← hafter, VideoSource.publishedBy, VideoSource.publishedBy,
      List.append_nil] at htwo
    exact absurd hlast.1 (not_le.2 htwo)
  · exact (hunmoved hloop).goesOn hended

/-- A video whose thread has got nothing done in the first `n` polls. -/
def waiting (pipe : Pipeline δ κ) (path : String) (schedule : ℕ → List Turn) (n : ℕ)
    (watched : Option Instant) : VideoSource δ κ :=
  let v := VideoSource.spawn pipe path fun k => schedule (k + n)
  { v with shared := { v.shared with watched } }

/-- These polls lead the loader from `v` to `v'`, while its thread stays at `w`. -/
structure Leads (speed : Speed) (w : Worker) (v v' : VideoSource δ κ) (polls : List Instant) :
    Prop where
  first : ∀ more, firstFrame (OpenSource.video v) (polls ++ more)
    = firstFrame (OpenSource.video v') more
  made : ∀ more, loaderPolls (OpenSource.video v) (polls ++ more)
    = polls ++ loaderPolls (OpenSource.video v') more
  published : ∀ more, v.publishedBy (polls ++ more) = v'.publishedBy more
  answers : ∀ more, v.answersBy (polls ++ more) = v'.answersBy more
  keeps : ∀ more, v'.KeepsTime speed more w → v.KeepsTime speed (polls ++ more) w

variable {speed : Speed} {w : Worker} (pipe : Pipeline δ κ) (path : String)

theorem Leads.cons {v v' v'' : VideoSource δ κ} {q : Instant} (h : Leads speed w v v' [q])
    (h' : Leads speed w v' v'' polls) : Leads speed w v v'' (q :: polls) where
  first more := (h.first (polls ++ more)).trans (h'.first more)
  made more := (h.made (polls ++ more)).trans (congrArg (q :: ·) (h'.made more))
  published more := (h.published (polls ++ more)).trans (h'.published more)
  answers more := (h.answers (polls ++ more)).trans (h'.answers more)
  keeps more hkeeps := h.keeps (polls ++ more) (h'.keeps more hkeeps)

omit pipe path in
/-- A poll that finds a frame is the loader's last one. -/
theorem Leads.found {v v' : VideoSource δ κ} (h : Leads speed w v v' polls) {e : Instant}
    {f : Frame} (hf : (v'.poll e).1 = .ok (some f)) (more : List Instant) :
    firstFrame (OpenSource.video v) (polls ++ e :: more) = .ok (.video (v'.poll e).2, some f)
      ∧ loaderPolls (OpenSource.video v) (polls ++ e :: more) = polls ++ [e] := by
  have hpoll : Source.poll (OpenSource.video v') e
      = (.ok (some f), OpenSource.video (v'.poll e).2) := by
    rw [← hf]
    rfl
  constructor
  · rw [h.first, firstFrame, hpoll]
  · rw [h.made, loaderPolls, hpoll]

/-- A poll before which nothing was done. -/
theorem leads_one {n : ℕ} (hnil : schedule n = []) {watched : Option Instant} {q : Instant}
    (hstays : w.polled watched q = w) :
    Leads speed w (waiting pipe path schedule n watched)
      (waiting pipe path schedule (n + 1) (some q)) [q] := by
  -- nothing is scheduled, so the poll answers nothing and moves the cursor by one
  have hnil' : (waiting pipe path schedule n watched).schedule 0 = [] := by
    show schedule (0 + n) = []
    rw [Nat.zero_add, hnil]
  have hnext : (waiting pipe path schedule n watched).poll q
      = (.ok none, waiting pipe path schedule (n + 1) (some q)) := by
    rw [VideoSource.poll_of_nil hnil' rfl rfl]
    unfold waiting VideoSource.spawn
    simp only [Nat.add_right_comm, Nat.add_assoc]
  have hpoll : Source.poll (OpenSource.video (waiting pipe path schedule n watched)) q
      = (.ok none, OpenSource.video (waiting pipe path schedule (n + 1) (some q))) := by
    show (_, OpenSource.video (VideoSource.poll _ q).2) = _
    rw [hnext]
    show ((VideoSource.poll _ q).1, _) = _
    rw [hnext]
  -- the five parts of `Leads`, each by its definition
  refine ⟨fun more => ?_, fun more => ?_, fun more => ?_, fun more => ?_, fun more hkeeps => ?_⟩
  · rw [List.singleton_append, firstFrame, hpoll]
  · rw [List.singleton_append, loaderPolls, hpoll]
    rfl
  · rw [List.singleton_append, VideoSource.publishedBy, hnil', hnext]
    rfl
  · rw [List.singleton_append, VideoSource.answersBy, hnil', hnext]
    rfl
  · refine ⟨w, ?_, ?_⟩
    · rw [hnil']
      rfl
    · rw [hnext]
      show VideoSource.KeepsTime speed more _ (w.polled watched q)
      rw [hstays]
      exact hkeeps

/-- Polls before which nothing was done. -/
theorem leads_of_nil (polls : List Instant) : ∀ {n : ℕ} {p : Instant}, w.now ≤ p →
    (∀ k < polls.length, schedule (n + k) = []) → (p :: polls).Pairwise (· ≤ ·) →
    Leads speed w (waiting pipe path schedule n (some p))
      (waiting pipe path schedule (n + polls.length) (some (polls.getLastD p))) polls := by
  induction polls with
  | nil => exact fun _ _ _ => ⟨fun _ => rfl, fun _ => rfl, fun _ => rfl, fun _ => rfl, fun _ => id⟩
  | cons q polls ih =>
    intro n p hp hnil hsorted
    -- one poll, then the rest
    obtain ⟨hle, hsorted⟩ := List.pairwise_cons.1 hsorted
    have hone : Leads speed w (waiting pipe path schedule n (some p))
        (waiting pipe path schedule (n + 1) (some q)) [q] :=
      leads_one pipe path (hnil 0 (Nat.succ_pos _))
        (Worker.polled_of_watched (watchedAt_of_le hp))
    have hrest := ih (n := n + 1) (hp.trans (hle q List.mem_cons_self))
      (fun k hk => by
        rw [Nat.add_assoc, Nat.add_comm 1 k]
        exact hnil (k + 1) (Nat.succ_lt_succ hk)) hsorted
    rw [List.length_cons, List.getLastD_cons, ← Nat.add_assoc, Nat.add_right_comm]
    exact hone.cons hrest

/-- The thread begins with the loader's first poll. -/
theorem leads_of_spawn (hnil : ∀ k ≤ polls.length, schedule k = [])
    (hsorted : (first :: polls).Pairwise (· ≤ ·)) :
    Leads speed { now := first, origin := none } (.spawn pipe path schedule)
      (waiting pipe path schedule (polls.length + 1) (some (polls.getLastD first)))
      (first :: polls) := by
  have hwakes : Worker.polled { now := first, origin := none } none first
      = { now := first, origin := none } := by
    show Worker.mk (first + (first - first)) none = _
    rw [Nat.sub_self, Nat.add_zero]
  have hone : Leads speed { now := first, origin := none } (waiting pipe path schedule 0 none)
      (waiting pipe path schedule (0 + 1) (some first)) [first] :=
    leads_one pipe path (hnil 0 (Nat.zero_le _)) hwakes
  have hrest : Leads speed { now := first, origin := none }
      (waiting pipe path schedule (0 + 1) (some first))
      (waiting pipe path schedule (0 + 1 + polls.length) (some (polls.getLastD first))) polls := by
    refine leads_of_nil pipe path polls le_rfl (fun k hk => ?_) hsorted
    rw [Nat.zero_add, Nat.add_comm]
    exact hnil (k + 1) hk
  rw [Nat.zero_add, Nat.add_comm 1 polls.length] at hrest
  exact hone.cons hrest

variable {pipe path} {v : VideoSource δ κ}

/-- Both rounds come after the loader gave up. -/
theorem not_starts_of_givenUp (hopen : openMedia files play settings schedule = .ok (.video v))
    (hsorted : (first :: polls).Pairwise (· ≤ ·)) (ts : List Turn) {w : Worker}
    (hts : ∀ v' : VideoSource δ κ, v'.stopped = false → v'.pipe = v.pipe →
      v'.shared.watched = some (polls.getLastD first) →
        VideoSource.Rounds play.speed now ts v' { now := first, origin := none } w
          ∧ (1 < (v'.published ts).length ∨ play.looped = false ∧ .ok .ended ∈ v'.answers ts)) :
    ¬ StartsAtBeginning files play settings (first :: polls) now := by
  let schedule : ℕ → List Turn := fun n => if n = polls.length + 1 then ts else []
  have hleads : Leads play.speed { now := first, origin := none }
      (.spawn v.pipe play.path schedule) _ (first :: polls) :=
    leads_of_spawn v.pipe play.path (fun k hk => if_neg (by omega)) hsorted
  have hlast : (waiting v.pipe play.path schedule (polls.length + 1)
      (some (polls.getLastD first))).schedule 0 = ts := by
    show schedule (0 + (polls.length + 1)) = ts
    rw [Nat.zero_add]
    exact if_pos rfl
  obtain ⟨hrounds, hgoes⟩ := hts (waiting v.pipe play.path schedule (polls.length + 1)
    (some (polls.getLastD first))) rfl rfl rfl
  have hload := hleads.first []
  have hmade := hleads.made []
  rw [List.append_nil] at hload hmade
  rw [loaderPolls, List.append_nil] at hmade
  refine not_startsAtBeginning (openMedia_schedule hopen schedule) hload ?_ ?_
  · intro v' hv'
    cases hv'
    rw [hmade]
    refine ⟨first, hleads.keeps [now] ⟨w, ?_, trivial⟩⟩
    rw [hlast]
    exact hrounds
  · rw [hmade, hleads.published, hleads.answers, VideoSource.publishedBy, VideoSource.publishedBy,
      VideoSource.answersBy, VideoSource.answersBy, List.append_nil, List.append_nil, hlast]
    exact hgoes

theorem first_le_getLastD (hsorted : (first :: polls).Pairwise (· ≤ ·)) :
    first ≤ polls.getLastD first := by
  rw [List.getLastD_eq_getLast?]
  rcases hlast : polls.getLast? with _ | p
  · exact le_rfl
  · exact (List.pairwise_cons.1 hsorted).1 p (List.mem_of_getLast? hlast)

/-- The first frame comes before the loader's poll at `e`, and the second after it. -/
theorem not_starts_of_found (hopen : openMedia files play settings schedule = .ok (.video v))
    (pre : List Instant) {post : List Instant} {e t₀ t₁ : Instant} {f₀ f₁ : DecodedFrame} {w : Worker}
    {origin : Option (Instant × ℕ)}
    (hsorted : (first :: (pre ++ e :: post)).Pairwise (· ≤ ·))
    (hf₀ : v.pipe.nextFrame.1 = .ok (.frame f₀))
    (hf₁ : v.pipe.nextFrame.2.nextFrame.1 = .ok (.frame f₁)) (ht₀ : first ≤ t₀)
    (hp : pre.getLastD first ≤ t₀) (he : t₀ ≤ e)
    (hw : Worker.polled { now := t₀, origin := some (first, f₀.pts) } (some (pre.getLastD first)) e
      = w)
    (hwe : w.now ≤ e) (hlapse : w.Lapse play.speed (.ok (.frame f₁)) .onTime { now := t₁, origin })
    (ht₁ : e ≤ t₁) (hnow : t₁ ≤ now) :
    ¬ StartsAtBeginning files play settings (first :: (pre ++ e :: post)) now := by
  let schedule : ℕ → List Turn := fun n =>
    if n = pre.length + 1 ∨ n = pre.length + 2 then [.onTime] else []
  have hsorted' : (first :: pre).Pairwise (· ≤ ·) :=
    hsorted.sublist ((List.sublist_append_left pre (e :: post)).cons_cons first)
  have hleads : Leads play.speed { now := first, origin := none }
      (.spawn v.pipe play.path schedule) _ (first :: pre) :=
    leads_of_spawn v.pipe play.path (fun k hk => if_neg (by omega)) hsorted'
  generalize hv₁ : waiting v.pipe play.path schedule (pre.length + 1)
    (some (pre.getLastD first)) = v₁ at hleads
  have hschedule : v₁.schedule 0 = [.onTime] ∧ v₁.schedule 1 = [.onTime] := by
    rw [← hv₁]
    exact ⟨if_pos (by omega), if_pos (by omega)⟩
  have hwaits : v₁.stopped = false ∧ v₁.pipe = v.pipe
      ∧ v₁.shared.watched = some (pre.getLastD first) ∧ v₁.sent = v₁.shared.generation := by
    rw [← hv₁]
    exact ⟨rfl, rfl, rfl, rfl⟩
  obtain ⟨hruns, hpipe, hwatched, hsent⟩ := hwaits
  rw [← hpipe] at hf₀ hf₁
  -- the loader's poll finds the first frame
  obtain ⟨⟨f, hf⟩, hruns₂, hpipe₂⟩ :=
    VideoSource.poll_onTime hruns hwatched hsent hschedule.1 hf₀ e
  obtain ⟨-, -, hwatched₂, hnext⟩ := v₁.poll_rounds e
  obtain ⟨hload, hmade⟩ := hleads.found hf post
  rw [List.cons_append] at hload hmade
  have hschedule₂ : (v₁.poll e).2.schedule 0 = [.onTime] := by
    rw [hnext]
    exact hschedule.2
  have hassoc : first :: pre ++ [e] ++ [now] = first :: pre ++ [e, now] := List.append_assoc ..
  refine not_startsAtBeginning (openMedia_schedule hopen schedule) hload ?_ (.inl ?_)
  · intro v' hv'
    cases hv'
    rw [hmade, hassoc]
    refine ⟨first, hleads.keeps [e, now]
      ⟨{ now := t₀, origin := some (first, f₀.pts) }, ?_, { now := t₁, origin }, ?_, trivial⟩⟩
    · rw [hschedule.1]
      refine VideoSource.rounds_cons hruns hwatched (first_le_getLastD hsorted') ?_ hp he rfl
      rw [hf₀]
      exact VideoSource.lapse_first rfl ht₀
    · rw [hschedule₂, hwatched, hw]
      refine VideoSource.rounds_cons hruns₂ hwatched₂ hwe ?_ ht₁ hnow rfl
      rw [hpipe₂, hf₁]
      exact hlapse
  · -- one frame in each of the two rounds
    obtain ⟨-, -, -, hcount⟩ := VideoSource.round_onTime hruns hwatched hf₀
    obtain ⟨-, -, -, hcount₂⟩ := VideoSource.round_onTime hruns₂ hwatched₂ (hpipe₂ ▸ hf₁)
    rw [hmade, hassoc, hleads.published, VideoSource.publishedBy, VideoSource.publishedBy,
      VideoSource.publishedBy, hschedule.1, hschedule₂, List.append_nil, List.length_append,
      (hcount []).1, (hcount₂ []).1]
    exact Nat.one_lt_two

/-- Where a list is not a chain. -/
theorem exists_gap {R : Instant → Instant → Prop} (polls : List Instant) : ∀ {first : Instant},
    ¬ (first :: polls).IsChain R →
      ∃ pre e post, polls = pre ++ e :: post ∧ ¬ R (pre.getLastD first) e := by
  induction polls with
  | nil => exact fun h => absurd (List.isChain_singleton _) h
  | cons q polls ih =>
    intro first h
    by_cases hR : R first q
    · obtain ⟨pre, e, post, rfl, hgap⟩ := ih fun hchain => h (List.isChain_cons_cons.2 ⟨hR, hchain⟩)
      refine ⟨q :: pre, e, post, rfl, ?_⟩
      rw [List.getLastD_cons]
      exact hgap
    · exact ⟨[], q, polls, rfl, hR⟩

/-- The second frame is due by `now`, and the thread does not have to sleep. -/
theorem not_starts_of_due (hopen : openMedia files play settings schedule = .ok (.video v))
    (hsorted : (first :: polls ++ [now]).Pairwise (· ≤ ·)) {f₀ f₁ : DecodedFrame}
    (hf₀ : v.pipe.nextFrame.1 = .ok (.frame f₀))
    (hf₁ : v.pipe.nextFrame.2.nextFrame.1 = .ok (.frame f₁))
    (hdue : first + divF64 (f₁.pts - f₀.pts) play.speed ≤ now) :
    ¬ StartsAtBeginning files play settings (first :: polls) now := by
  have hpolls : (first :: polls).Pairwise (· ≤ ·) := (List.pairwise_append.1 hsorted).1
  have hearly : first ≤ first + divF64 (f₁.pts - f₀.pts) play.speed := Nat.le_add_right _ _
  cases polls with
  | nil =>
    -- both frames come when the loader has given up
    refine not_starts_of_givenUp hopen hpolls [.onTime, .onTime]
      (w := { now := first + divF64 (f₁.pts - f₀.pts) play.speed
              origin := some (first, f₀.pts) }) fun v' hruns hpipe hwatched => ?_
    rw [← hpipe] at hf₀ hf₁
    obtain ⟨hruns', hpipe', hwatched', hcount⟩ := VideoSource.round_onTime hruns hwatched hf₀
    rw [← hpipe'] at hf₁
    obtain ⟨-, -, -, hcount'⟩ := VideoSource.round_onTime hruns' hwatched' hf₁
    have hlapse : Worker.Lapse play.speed { now := first, origin := none } v'.pipe.nextFrame.1
        .onTime { now := first, origin := some (first, f₀.pts) } := by
      rw [hf₀]
      exact VideoSource.lapse_first rfl le_rfl
    have hlapse' : Worker.Lapse play.speed { now := first, origin := some (first, f₀.pts) }
        (v'.round .onTime).pipe.nextFrame.1 .onTime
        { now := first + divF64 (f₁.pts - f₀.pts) play.speed, origin := some (first, f₀.pts) } := by
      rw [hf₁]
      exact VideoSource.lapse_due rfl hearly le_rfl
    refine ⟨VideoSource.rounds_cons hruns hwatched le_rfl hlapse le_rfl (hearly.trans hdue)
      (VideoSource.rounds_cons hruns' hwatched' le_rfl hlapse' hearly hdue rfl), .inl ?_⟩
    rw [(hcount _).1, (hcount' _).1]
    exact Nat.one_lt_two
  | cons e post =>
    -- the loader finds the first frame by its second poll
    have he : first ≤ e := (List.pairwise_cons.1 hpolls).1 e List.mem_cons_self
    have henow : e ≤ now :=
      (List.pairwise_append.1 hsorted).2.2 e (by simp) now (List.mem_singleton_self now)
    have hawake : Worker.polled { now := first, origin := some (first, f₀.pts) } (some first) e
        = { now := first, origin := some (first, f₀.pts) } :=
      Worker.polled_of_watched (watchedAt_of_le le_rfl)
    exact not_starts_of_found hopen [] hpolls hf₀ hf₁ le_rfl le_rfl he hawake he
      (VideoSource.lapse_due rfl hearly (le_max_right e _)) (le_max_left e _)
      (max_le henow hdue)

/-- The thread sleeps until a poll, which takes its reference point away. -/
theorem not_starts_of_asleep (hopen : openMedia files play settings schedule = .ok (.video v))
    (hsorted : (first :: polls ++ [now]).Pairwise (· ≤ ·)) {f₀ f₁ : DecodedFrame}
    (hf₀ : v.pipe.nextFrame.1 = .ok (.frame f₀))
    (hf₁ : v.pipe.nextFrame.2.nextFrame.1 = .ok (.frame f₁))
    (hsleeps : ¬ (first :: polls).IsChain fun a b => b < a + idleAfter) :
    ¬ StartsAtBeginning files play settings (first :: polls) now := by
  have hpolls : (first :: polls).Pairwise (· ≤ ·) := (List.pairwise_append.1 hsorted).1
  obtain ⟨pre, e, post, rfl, hgap⟩ := exists_gap polls hsleeps
  have hgap : pre.getLastD first + idleAfter ≤ e := not_lt.1 hgap
  have hpe : pre.getLastD first ≤ e := (Nat.le_add_right _ _).trans hgap
  have hmem : e ∈ pre ++ e :: post := List.mem_append_right pre List.mem_cons_self
  have he : first ≤ e := (List.pairwise_cons.1 hpolls).1 e hmem
  have henow : e ≤ now := (List.pairwise_append.1 hsorted).2.2 e (List.mem_cons_of_mem first hmem)
    now (List.mem_singleton_self now)
  have hpolled : Worker.polled { now := e, origin := some (first, f₀.pts) }
      (some (pre.getLastD first)) e = { now := e, origin := none } := by
    unfold Worker.polled
    rw [if_neg fun h => absurd (watchedAt_iff.1 h) (not_lt.2 hgap)]
    show Worker.mk (e + (e - e)) none = _
    rw [Nat.sub_self, Nat.add_zero]
  exact not_starts_of_found hopen _ hpolls hf₀ hf₁ he hpe le_rfl hpolled le_rfl
    (VideoSource.lapse_first rfl le_rfl) le_rfl henow

/-- The last poll of the loader is not after `now`. -/
theorem getLastD_le (hsorted : (first :: polls ++ [now]).Pairwise (· ≤ ·)) :
    polls.getLastD first ≤ now := by
  have hmem : polls.getLastD first ∈ first :: polls := by
    rw [List.getLastD_eq_getLast?]
    rcases hlast : polls.getLast? with _ | p
    · exact List.mem_cons_self
    · exact List.mem_cons_of_mem first (List.mem_of_getLast? hlast)
  exact (List.pairwise_append.1 hsorted).2.2 _ hmem now (List.mem_singleton_self now)

/-- The clip is empty. -/
theorem not_starts_of_empty (hopen : openMedia files play settings schedule = .ok (.video v))
    (hsorted : (first :: polls ++ [now]).Pairwise (· ≤ ·)) (hloop : play.looped = false)
    (hended : v.pipe.nextFrame.1 = .ok .ended) :
    ¬ StartsAtBeginning files play settings (first :: polls) now := by
  have hpolls : (first :: polls).Pairwise (· ≤ ·) := (List.pairwise_append.1 hsorted).1
  have hfirst := first_le_getLastD hpolls
  refine not_starts_of_givenUp hopen hpolls [.onTime]
    (w := { now := polls.getLastD first, origin := none }) fun v' hruns hpipe hwatched => ?_
  rw [← hpipe] at hended
  have hlapse : Worker.Lapse play.speed { now := first, origin := none } v'.pipe.nextFrame.1
      .onTime { now := polls.getLastD first, origin := none } := by
    rw [hended]
    exact ⟨rfl, hfirst⟩
  exact ⟨VideoSource.rounds_cons hruns hwatched hfirst hlapse le_rfl (getLastD_le hsorted) rfl,
    .inr ⟨hloop, VideoSource.ended_mem_answers hruns hwatched hended _⟩⟩

/-- The clip has one frame. -/
theorem not_starts_of_oneFrame (hopen : openMedia files play settings schedule = .ok (.video v))
    (hsorted : (first :: polls ++ [now]).Pairwise (· ≤ ·)) (hloop : play.looped = false)
    {f₀ : DecodedFrame} (hf₀ : v.pipe.nextFrame.1 = .ok (.frame f₀))
    (hended : v.pipe.nextFrame.2.nextFrame.1 = .ok .ended) :
    ¬ StartsAtBeginning files play settings (first :: polls) now := by
  have hpolls : (first :: polls).Pairwise (· ≤ ·) := (List.pairwise_append.1 hsorted).1
  have hfirst := first_le_getLastD hpolls
  have hnow := getLastD_le hsorted
  refine not_starts_of_givenUp hopen hpolls [.onTime, .onTime]
    (w := { now := polls.getLastD first, origin := none }) fun v' hruns hpipe hwatched => ?_
  rw [← hpipe] at hf₀ hended
  obtain ⟨hruns', hpipe', hwatched', hcount⟩ := VideoSource.round_onTime hruns hwatched hf₀
  rw [← hpipe'] at hended
  have hlapse : Worker.Lapse play.speed { now := first, origin := none } v'.pipe.nextFrame.1
      .onTime { now := polls.getLastD first, origin := some (first, f₀.pts) } := by
    rw [hf₀]
    exact VideoSource.lapse_first rfl hfirst
  have hlapse' : Worker.Lapse play.speed
      { now := polls.getLastD first, origin := some (first, f₀.pts) }
      (v'.round .onTime).pipe.nextFrame.1 .onTime
      { now := polls.getLastD first, origin := none } := by
    rw [hended]
    exact ⟨rfl, le_rfl⟩
  refine ⟨VideoSource.rounds_cons hruns hwatched hfirst hlapse le_rfl hnow
    (VideoSource.rounds_cons hruns' hwatched' le_rfl hlapse' le_rfl hnow rfl), .inr ⟨hloop, ?_⟩⟩
  rw [(hcount _).2]
  exact List.mem_cons_of_mem _ (VideoSource.ended_mem_answers hruns' hwatched' hended [])

/-- A video that starts at the beginning is held back. -/
theorem heldBack_of_startsAtBeginning (hsorted : (first :: polls ++ [now]).Pairwise (· ≤ ·))
    (hstarts : StartsAtBeginning files play settings (first :: polls) now)
    (hopen : openMedia files play settings schedule = .ok (.video v)) :
    VideoSource.HeldBack play.speed first now play.looped v.pipe polls := by
  refine ⟨fun f₀ f₁ hf₀ hf₁ => ⟨?_, ?_⟩, fun hloop => ⟨fun hended => ?_, fun f₀ hf₀ hended => ?_⟩⟩
  · by_contra hsleeps
    exact not_starts_of_asleep hopen hsorted hf₀ hf₁ hsleeps hstarts
  · exact not_le.1 fun hdue => not_starts_of_due hopen hsorted hf₀ hf₁ hdue hstarts
  · exact not_starts_of_empty hopen hsorted hloop hended hstarts
  · exact not_starts_of_oneFrame hopen hsorted hloop hf₀ hended hstarts

/-- **Which covers start at the beginning.**  Whatever time its thread takes, in every run, the
`resolve` at `now` that picks up what the loader made of the file shows the first frame, of a clip
that has not moved on, if and only if it is no video, or one that is held back until then. -/
theorem starts_at_beginning_iff (files : Files δ κ) (play : PlayParams) (settings : Settings)
    (hsorted : (first :: polls ++ [now]).Pairwise (· ≤ ·)) :
    StartsAtBeginning files play settings (first :: polls) now
      ↔ ∀ schedule v, openMedia files play settings schedule = .ok (.video v) →
        VideoSource.HeldBack play.speed first now play.looped v.pipe polls :=
  ⟨fun hstarts _ _ hopen => heldBack_of_startsAtBeginning hsorted hstarts hopen,
    startsAtBeginning_of_heldBack hsorted⟩

end Start

/-! ### A short clip -/

/-- Every file is a clip of two frames. -/
def clipFiles : Files FakeDemux FakeDecoder where
  present _ := true
  read _ := .error "not an image"
  images := { png := fun _ => .error "invalid", jpeg := fun _ => .error "invalid" }
  gif _ := .error "not a GIF"
  openDemuxer _ := .ok (.new 2 100000000 none)
  openDecoder _ _ := .ok { held := none }

def clipPlay : PlayParams := { path := "clip.mp4", speed := ⟨1, Speed.one_pos⟩, looped := false }

/-- The thread has one round from each poll to the next. -/
def clipSchedule (n : ℕ) : List Turn := if n = 0 then [] else [.onTime]

def openedClip : OpenSource FakeDemux FakeDecoder :=
  .video (.spawn (.new (.new 2 100000000 none) { held := none } false) "clip.mp4" clipSchedule)

/-- The clip is opened and sent; the loader took its frame at 5 ms. -/
def clipRun : List (Sys.Event (OpenSource FakeDemux FakeDecoder)) :=
  [.resolve exampleEnv clipPlay 0, .deliver 0 (.ok openedClip) [0, 5000000], .beginFrame]

theorem openMedia_clip :
    openMedia clipFiles clipPlay exampleSettings clipSchedule = .ok openedClip := by
  have hkind : kindFor clipPlay.path = some .video := by decide +kernel
  unfold openMedia
  dsimp only
  rw [hkind]
  rfl

/-- The second frame is due 100 ms after the first. -/
theorem starts_at_beginning_iff_of_clip :
    StartsAtBeginning clipFiles clipPlay exampleSettings [0, 5000000] 50000000
      ↔ ∀ schedule v, openMedia clipFiles clipPlay exampleSettings schedule = .ok (.video v) →
        VideoSource.HeldBack clipPlay.speed 0 50000000 false v.pipe [5000000] :=
  starts_at_beginning_iff clipFiles clipPlay exampleSettings (by decide)

/-- The thread publishes the second frame before the clip is shown, and that is what is shown. -/
theorem clip_runs_on_unseen :
    ((Machine.run Sys.step (.init exampleSettings) clipRun).resolve exampleEnv clipPlay
        300000000).2.map (fun v => v.frame.generation) = some 2
      ∧ ¬ StartsAtBeginning clipFiles clipPlay exampleSettings [0, 5000000] 300000000 := by
  refine ⟨by decide +kernel, fun hstarts => ?_⟩
  have hheld := heldBack_of_startsAtBeginning (by decide) hstarts openMedia_clip
  have hpts : divF64 (100000000 - 0) clipPlay.speed = 100000000 := by decide +kernel
  obtain ⟨-, hnow⟩ := hheld.early
    (FakeDecoder.out { pts := 0, keyframe := true, data := [0] })
    (FakeDecoder.out { pts := 100000000, keyframe := false, data := [1] }) rfl rfl
  have hdue : 300000000 < 0 + divF64 (100000000 - 0) clipPlay.speed := hnow
  rw [hpts] at hdue
  exact absurd hdue (by decide)

end NoshareCover
