import Mathlib.Algebra.BigOperators.Group.List.Basic
import NoshareCover.Core.Spec.GifOpaque
import NoshareCover.Core.Spec.OpaqueFrame

/-!
# The frames of a GIF

Every poll hands out the picture of the frame at the clock's position, or nothing if that was handed
out last (`poll_spec`).  So the frames of a GIF are pictures of its file, and at normal speed every
picture is handed out at some time (`exists_picture_frame`).
-/

namespace NoshareCover

namespace GifSource

/-! ### Which frame a position is in -/

theorem frameAtFrom_lt (pos : ℕ) : ∀ {frames : List GifFrame} (i acc : ℕ), frames ≠ [] →
    frameAtFrom pos frames i acc < i + frames.length := by
  intro frames
  induction frames with
  | nil => exact fun _ _ h => absurd rfl h
  | cons f fs ih =>
    intro i acc _
    rw [frameAtFrom]
    split_ifs with hpos
    · simp
    · -- past the last frame the last one stays
      cases fs with
      | nil => simp [frameAtFrom]
      | cons f' fs =>
        have hlt := ih (i + 1) (acc + f.delay) (by simp)
        simp only [List.length_cons] at hlt ⊢
        omega

theorem frameAt_lt {g : GifSource} (h : g.frames ≠ []) (pos : ℕ) :
    g.frameAt pos < g.frames.length := by
  have hlt := frameAtFrom_lt pos 0 0 h
  unfold frameAt
  omega

/-- When a frame starts. -/
def start (frames : List GifFrame) (i : ℕ) : ℕ := ((frames.take i).map GifFrame.delay).sum

theorem start_cons_succ (f : GifFrame) (fs : List GifFrame) (i : ℕ) :
    start (f :: fs) (i + 1) = f.delay + start fs i := by
  rw [start, List.take_succ_cons, List.map_cons, List.sum_cons, start]

/-- A frame shows from its start until the next one starts. -/
theorem frameAtFrom_eq : ∀ {frames : List GifFrame} {i pos : ℕ} (k acc : ℕ), i < frames.length →
    start frames i ≤ pos → pos < start frames (i + 1) →
      frameAtFrom (acc + pos) frames k acc = k + i := by
  intro frames
  induction frames with
  | nil =>
    intro i _ _ _ hi
    simp at hi
  | cons f fs ih =>
    intro i pos k acc hi hfrom hto
    rw [start_cons_succ] at hto
    cases i with
    | zero =>
      have hzero : start fs 0 = 0 := rfl
      rw [frameAtFrom, if_pos (by omega), add_zero]
    | succ i =>
      rw [start_cons_succ] at hfrom
      -- the frames behind the first count from its end
      have hpos : acc + pos = acc + f.delay + (pos - f.delay) := by omega
      have hlt : i < fs.length := by simpa using hi
      rw [hpos, frameAtFrom, if_neg (by omega), ih _ _ hlt (by omega) (by omega)]
      omega

/-- Every position before the end is in a frame. -/
theorem exists_start_le : ∀ {frames : List GifFrame} {pos : ℕ},
    pos < (frames.map GifFrame.delay).sum →
      ∃ i < frames.length, start frames i ≤ pos ∧ pos < start frames (i + 1) := by
  intro frames
  induction frames with
  | nil =>
    intro pos hpos
    simp at hpos
  | cons f fs ih =>
    intro pos hpos
    rw [List.map_cons, List.sum_cons] at hpos
    -- within the first delay, or in the rest
    by_cases hfirst : pos < f.delay
    · refine ⟨0, by simp, Nat.zero_le _, ?_⟩
      rw [start_cons_succ]
      omega
    · obtain ⟨i, hi, hfrom, hto⟩ := @ih (pos - f.delay) (by omega)
      refine ⟨i + 1, by simpa using hi, ?_, ?_⟩
      · rw [start_cons_succ]
        omega
      · rw [start_cons_succ]
        omega

theorem start_succ {frames : List GifFrame} {i : ℕ} (hi : i < frames.length) :
    start frames (i + 1) = start frames i + frames[i].delay := by
  rw [start, List.take_add_one, List.getElem?_eq_getElem hi, Option.toList_some, List.map_append,
    List.sum_append, List.map_singleton, List.sum_singleton, start]

/-- A frame shows at its start. -/
theorem frameAtFrom_start {frames : List GifFrame} {i : ℕ} (k acc : ℕ)
    (hdelay : ∀ f ∈ frames, 0 < f.delay) (hi : i < frames.length) :
    frameAtFrom (acc + start frames i) frames k acc = k + i := by
  have hf : 0 < frames[i].delay := hdelay _ (List.getElem_mem hi)
  apply frameAtFrom_eq k acc hi le_rfl
  rw [start_succ hi]
  omega

theorem start_lt {frames : List GifFrame} {i : ℕ} (hdelay : ∀ f ∈ frames, 0 < f.delay)
    (hi : i < frames.length) : start frames i < (frames.map GifFrame.delay).sum := by
  have hsplit : (frames.map GifFrame.delay).sum
      = start frames i + ((frames.drop i).map GifFrame.delay).sum := by
    rw [start, ← List.sum_append, ← List.map_append, List.take_append_drop]
  have hf : 0 < frames[i].delay := hdelay _ (List.getElem_mem hi)
  rw [hsplit, List.drop_eq_getElem_cons hi, List.map_cons, List.sum_cons]
  omega

/-! ### Opening -/

/-- The source that `open` makes of what it has read. -/
def opened (width height : ℕ) (bg : Bgra) (frames : List GifFrame) (speed : Speed) (looped : Bool) :
    GifSource :=
  clearCanvas
    { width, height, bg, frames, canvas := [], total := (frames.map GifFrame.delay).sum,
      backup := none, shown := none, clock := .new speed looped, generation := 0, sent := none }

theorem open_eq_opened {path : String} {speed : Speed} {looped : Bool} {file : Except String GifFile}
    {g : GifSource} (h : GifSource.open path speed looped file = .ok g) :
    ∃ gif images, file = .ok gif ∧ gif.frames = .ok images ∧ gif.width ≠ 0 ∧ gif.height ≠ 0
      ∧ images.map GifFrame.ofImage ≠ []
      ∧ g = opened gif.width.toNat gif.height.toNat gif.bg (images.map GifFrame.ofImage) speed
        looped := by
  -- every early return is an error
  unfold GifSource.open at h
  rcases file with e | gif
  · cases h
  dsimp only at h
  split_ifs at h with hsize
  rcases himages : gif.frames with e | images
  · rw [himages] at h
    cases h
  rw [himages] at h
  dsimp only at h
  split_ifs at h with hempty
  rw [not_or] at hsize
  exact ⟨gif, images, rfl, himages, hsize.1, hsize.2, hempty, (Except.ok.inj h).symm⟩

/-! ### Polls -/

/-- The frame that shows a picture. -/
def pictureData (g : GifSource) (i : ℕ) : FrameData :=
  .cpu (.fromBgra g.width g.height ((g.picture i).flatMap Bgra.bytes))

theorem SameFile.pictureData {g g' : GifSource} (h : SameFile g g') (i : ℕ) :
    g'.pictureData i = g.pictureData i := by
  unfold GifSource.pictureData
  rw [h.picture, h.width, h.height]

/-- The frame at the clock's position. -/
def target (g : GifSource) (now : Instant) : ℕ :=
  g.frameAt (g.clock.position now (some g.total)).1

/-- The source once its clock has the position and the canvas has the frame. -/
def seek (g : GifSource) (now : Instant) : GifSource :=
  { g with clock := (g.clock.position now (some g.total)).2 }.show (g.target now)

theorem poll_eq (g : GifSource) (now : Instant) :
    g.poll now =
      if (g.seek now).sent = some (g.target now) then (.ok none, g.seek now)
      else
        (.ok (some { generation := (g.seek now).generation + 1,
                     data := .cpu (.fromBgra (g.seek now).width (g.seek now).height
                      ((g.seek now).canvas.flatMap Bgra.bytes)) }),
          { g.seek now with
            sent := some (g.target now)
            generation := (g.seek now).generation + 1 }) := rfl

theorem seek_spec {g : GifSource} (h : g.Composed) (hne : g.frames ≠ []) (now : Instant) :
    (g.seek now).Composed ∧ SameFile g (g.seek now)
      ∧ (g.seek now).canvas = g.picture (g.target now)
      ∧ (g.seek now).sent = g.sent ∧ (g.seek now).generation = g.generation
      ∧ (g.seek now).clock = (g.clock.position now (some g.total)).2 := by
  -- the clock has no say in what is drawn
  have ht : g.target now < g.frames.length := frameAt_lt hne _
  unfold seek
  generalize hclock : (g.clock.position now (some g.total)).2 = clock
  have hsame : SameFile g { g with clock } := by
    constructor <;> rfl
  have hcomp : Composed { g with clock } := h.congr hsame rfl rfl rfl
  obtain ⟨hre, hshown, _⟩ := show_spec hcomp ht
  have hcanvas := show_canvas hcomp ht
  rw [hsame.picture] at hcanvas
  refine ⟨hshown, hsame.trans hre.sameFile, hcanvas, ?_⟩
  obtain ⟨c, b, s, heq⟩ := hre
  rw [heq]
  exact ⟨rfl, rfl, rfl⟩

theorem poll_spec {g : GifSource} (h : g.Composed) (hne : g.frames ≠ []) (now : Instant) :
    (g.poll now).1 = .ok (if g.sent = some (g.target now) then none
        else some { generation := g.generation + 1, data := g.pictureData (g.target now) })
      ∧ (g.poll now).2.Composed ∧ SameFile g (g.poll now).2
      ∧ (g.poll now).2.sent = some (g.target now)
      ∧ (g.poll now).2.clock = (g.clock.position now (some g.total)).2 := by
  obtain ⟨hcomp, hsame, hcanvas, hsent, hgen, hclock⟩ := seek_spec h hne now
  rw [poll_eq, hsent, hgen, hcanvas, hsame.width, hsame.height]
  -- the picture is the one that was sent last
  by_cases hlast : g.sent = some (g.target now)
  · rw [if_pos hlast, if_pos hlast]
    exact ⟨rfl, hcomp, hsame, hsent.trans hlast, hclock⟩
  · rw [if_neg hlast, if_neg hlast]
    have hsame' : SameFile (g.seek now)
        { g.seek now with sent := some (g.target now), generation := g.generation + 1 } := by
      constructor <;> rfl
    exact ⟨rfl, hcomp.congr hsame' rfl rfl rfl, hsame.trans hsame', rfl, hclock⟩

/-! ### The frames -/

/-- **Every frame shows a picture of the file.** -/
theorem frames_pictures {g : GifSource} (h : g.Composed) (hne : g.frames ≠ [])
    (calls : List SourceCall) :
    ∀ f ∈ Source.frames g calls, ∃ i < g.frames.length, f.data = g.pictureData i := by
  refine Source.forall_frames (I := fun g' => g'.Composed ∧ SameFile g g') ?_ ?_ calls g
    ⟨h, ⟨rfl, rfl, rfl, rfl, rfl⟩⟩
  -- every poll keeps the file and the composition
  · rintro g' now ⟨hcomp, hsame⟩
    have hne' : g'.frames ≠ [] := by
      rw [hsame.frames]
      exact hne
    obtain ⟨hframe, hcomp', hsame', _⟩ := poll_spec hcomp hne' now
    refine ⟨⟨hcomp', hsame.trans hsame'⟩, fun f hf => ?_⟩
    have hlt : g'.target now < g.frames.length := by
      rw [← hsame.frames]
      exact frameAt_lt hne' _
    have hf' : (g'.poll now).1 = .ok (some f) := hf
    rw [hframe] at hf'
    split_ifs at hf'
    · cases hf'
    · obtain rfl := Option.some.inj (Except.ok.inj hf')
      exact ⟨_, hlt, hsame.pictureData _⟩
  -- so does `shown`
  · rintro g' ⟨hcomp, hsame⟩
    have hsame' : SameFile g' (Source.shown g') := by
      constructor <;> rfl
    exact ⟨hcomp.congr hsame' rfl rfl rfl, hsame.trans hsame'⟩

/-- A source that was just opened, at normal speed and not looped. -/
structure Fresh (g : GifSource) : Prop where
  composed : g.Composed
  frames_ne : g.frames ≠ []
  sent : g.sent = none
  clock : g.clock = { started := none, speed := ⟨1, by decide⟩, looped := false }
  delay : ∀ f ∈ g.frames, 0 < f.delay
  total : g.total = (g.frames.map GifFrame.delay).sum

/-- **Every picture is handed out at some time**: at its start. -/
theorem exists_picture_frame {g : GifSource} (h : g.Fresh) {i : ℕ} (hi : i < g.frames.length) :
    ∃ calls, ∃ f ∈ Source.frames g calls, f.data = g.pictureData i := by
  have hpos : 0 < g.frames.length := by omega
  have htotal : ∀ k, k < g.frames.length → start g.frames k < g.total := fun k hk => by
    rw [h.total]
    exact start_lt h.delay hk
  -- the position of a clock that runs since 0
  have hposition : ∀ {g' : GifSource} {started : Option Instant} {t : ℕ},
      g'.clock = { started, speed := ⟨1, by decide⟩, looped := false } → g'.total = g.total →
      started.getD t = 0 → t < g.total → (g'.clock.position t (some g'.total)).1 = t := by
    intro g' started t hc hg' hs ht
    rw [hc, hg']
    simp only [PlaybackClock.position, hs, Nat.sub_zero, mulF64_one]
    rw [if_neg (by omega), if_neg (by decide)]
    omega
  have htarget : ∀ {g' : GifSource} {started : Option Instant} {k : ℕ},
      g'.clock = { started, speed := ⟨1, by decide⟩, looped := false } → SameFile g g' →
      started.getD (start g.frames k) = 0 → k < g.frames.length →
      g'.target (start g.frames k) = k := by
    intro g' started k hc hsame hs hk
    unfold target
    rw [hposition hc hsame.total hs (htotal k hk)]
    have hat := frameAtFrom_start 0 0 h.delay hk
    rw [zero_add, zero_add] at hat
    unfold frameAt
    rw [hsame.frames]
    exact hat
  have hstart : start g.frames 0 = 0 := rfl
  obtain ⟨hframe, hcomp, hsame, hsent, hclock⟩ := poll_spec h.composed h.frames_ne 0
  have hfirst : g.target 0 = 0 := htarget (k := 0) h.clock ⟨rfl, rfl, rfl, rfl, rfl⟩ rfl hpos
  rw [hfirst] at hframe hsent
  rw [h.sent, if_neg (by simp)] at hframe
  -- the first frame takes one poll, any other a second one at its start
  cases i with
  | zero =>
    refine ⟨[.poll 0], { generation := g.generation + 1, data := g.pictureData 0 }, ?_, rfl⟩
    have hpoll : Source.poll g 0 = g.poll 0 := rfl
    rw [Source.frames, hpoll, ← Prod.mk.eta (p := g.poll 0), hframe]
    exact List.mem_cons_self ..
  | succ i =>
    have hne' : (g.poll 0).2.frames ≠ [] := by
      rw [hsame.frames]
      exact h.frames_ne
    have hclock' : (g.poll 0).2.clock
        = { started := some 0, speed := ⟨1, by decide⟩, looped := false } := by
      rw [hclock, h.clock]
      rfl
    obtain ⟨hframe', _⟩ := poll_spec hcomp hne' (start g.frames (i + 1))
    have hsecond := htarget hclock' hsame rfl hi
    rw [hsecond, hsent, if_neg (by simp), hsame.pictureData] at hframe'
    refine ⟨[.poll 0, .poll (start g.frames (i + 1))],
      { generation := (g.poll 0).2.generation + 1, data := g.pictureData (i + 1) }, ?_, rfl⟩
    have hpoll : Source.poll g 0 = g.poll 0 := rfl
    have hpoll' : Source.poll (g.poll 0).2 (start g.frames (i + 1))
        = (g.poll 0).2.poll (start g.frames (i + 1)) := rfl
    rw [Source.frames, hpoll, ← Prod.mk.eta (p := g.poll 0), hframe]
    refine List.mem_cons_of_mem _ ?_
    rw [Source.frames, hpoll', ← Prod.mk.eta (p := (g.poll 0).2.poll _), hframe']
    exact List.mem_cons_self ..

end GifSource

end NoshareCover
