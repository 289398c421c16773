import NoshareCover.Core.Still
import NoshareCover.Core.Video.Source
import NoshareCover.Lib.Rows

/-!
# Opaque frames

A frame is opaque when every pixel that a texture takes from it has alpha 255.  Videos only hand out
opaque frames.  The frame of a still image has the alphas of the image: JPEGs and PNGs without an
alpha channel are opaque, and other PNGs are where all their alphas are 255.
-/

namespace NoshareCover

/-! ### Frames -/

/-- The alpha of a pixel, in rows of `stride` bytes. -/
def CpuFrame.alphaAt (f : CpuFrame) (x y : ℕ) : UInt8 := f.pixels.getD (y * f.stride + x * 4 + 3) 0

def CpuFrame.Opaque (f : CpuFrame) : Prop := ∀ y < f.height, ∀ x < f.width, f.alphaAt x y = 255

/-- A frame in memory with at least one pixel. -/
def FrameData.Filled : FrameData → Prop
  | cpu f => 0 < f.width ∧ 0 < f.height
  | dmaBuf _ => False

def FrameData.Opaque : FrameData → Prop
  | cpu f => f.Opaque
  | dmaBuf _ => False

/-- The number of the pixel that a texture shows at `(x, y)`: the stride is a `u32`. -/
def texel (w x y : ℕ) : ℕ := y * (w % 2 ^ 30) + x

theorem texel_lt {w h x y : ℕ} (hx : x < w) (hy : y < h) : texel w x y < w * h := by
  have hrow : y * (w % 2 ^ 30) ≤ y * w := Nat.mul_le_mul_left y (Nat.mod_le ..)
  have hlt := Rows.index_lt hx hy
  unfold texel
  omega

theorem texel_of_lt {w x y : ℕ} (hw : w < 2 ^ 30) : texel w x y = y * w + x := by
  rw [texel, Nat.mod_eq_of_lt hw]

/-- Rows begin at whole pixels. -/
theorem alphaAt_fromBgra (w h : ℕ) (pixels : List UInt8) (x y : ℕ) :
    (CpuFrame.fromBgra w h pixels).alphaAt x y = pixels.getD (4 * texel w x y + 3) 0 := by
  have hstride : w * 4 % 2 ^ 32 = 4 * (w % 2 ^ 30) := by omega
  have hindex : y * (4 * (w % 2 ^ 30)) + x * 4 + 3 = 4 * texel w x y + 3 := by
    unfold texel
    ring
  simp only [CpuFrame.alphaAt, CpuFrame.fromBgra, hstride, hindex]

/-! ### What sources hand out -/

namespace Source

variable {σ : Type*} [Source σ]

/-- What holds of every frame that a poll hands out, from any state that polls keep to. -/
theorem forall_frames {I : σ → Prop} {P : Frame → Prop}
    (hpoll : ∀ s now, I s → I (poll s now).2 ∧ ∀ f, (poll s now).1 = .ok (some f) → P f)
    (hshown : ∀ s, I s → I (shown s)) :
    ∀ (calls : List SourceCall) (s : σ), I s → ∀ f ∈ frames s calls, P f := by
  intro calls
  induction calls with
  | nil =>
    intro s _ f hf
    cases hf
  | cons c calls ih =>
    intro s hs f hf
    cases c with
    | shown => exact ih _ (hshown s hs) f hf
    | poll now =>
      obtain ⟨hnext, hframe⟩ := hpoll s now hs
      rw [frames] at hf
      -- nothing, an error, or a frame
      rcases hp : poll s now with ⟨_ | _ | f', s'⟩
      · rw [hp] at hf hnext
        exact ih s' hnext f hf
      · rw [hp] at hf hnext
        exact ih s' hnext f hf
      · rw [hp] at hf hnext hframe
        rcases List.mem_cons.1 hf with rfl | hf
        · exact hframe f rfl
        · exact ih s' hnext f hf

end Source

/-! ### Still images -/

theorem getD_premulBgra (rgba : List UInt8) (k : ℕ) :
    (CpuFrame.premulBgra rgba).getD (4 * k + 3) 0 = rgba.getD (4 * k + 3) 0 := by
  -- the bytes come in fours, a rest is dropped
  induction rgba using CpuFrame.premulBgra.induct generalizing k with
  | case1 r g b a rest ih =>
    cases k with
    | zero => rfl
    | succ k =>
      have hindex : 4 * (k + 1) + 3 = 4 * k + 3 + 1 + 1 + 1 + 1 := by omega
      rw [hindex, CpuFrame.premulBgra]
      simpa only [List.getD_cons_succ] using ih k
  | case2 rgba hshort =>
    have hlen : rgba.length < 4 := by
      rcases rgba with _ | ⟨r, _ | ⟨g, _ | ⟨b, _ | ⟨a, rest⟩⟩⟩⟩
      · simp
      · simp
      · simp
      · simp
      · exact absurd rfl (hshort r g b a rest)
    rw [CpuFrame.premulBgra.eq_2 _ hshort]
    rw [List.getD_eq_default _ _ (by simp), List.getD_eq_default _ _ (by omega)]

/-- Premultiplying keeps alphas. -/
theorem alphaAt_fromRgba (w h : ℕ) (rgba : List UInt8) (x y : ℕ) :
    (CpuFrame.fromRgba w h rgba).alphaAt x y = rgba.getD (4 * texel w x y + 3) 0 := by
  rw [← getD_premulBgra]
  exact alphaAt_fromBgra w h _ x y

theorem getD_expandRgb {buf : List UInt8} {k : ℕ} (hk : 3 * k + 2 < buf.length) :
    (expandRgb buf).getD (4 * k + 3) 0 = 255 := by
  -- three bytes become four
  induction buf using expandRgb.induct generalizing k with
  | case1 r g b rest ih =>
    cases k with
    | zero => rfl
    | succ k =>
      have hindex : 4 * (k + 1) + 3 = 4 * k + 3 + 1 + 1 + 1 + 1 := by omega
      rw [hindex, expandRgb]
      simp only [List.getD_cons_succ]
      apply ih
      simp only [List.length_cons] at hk
      omega
  | case2 buf hshort =>
    rcases buf with _ | ⟨r, _ | ⟨g, _ | ⟨b, rest⟩⟩⟩
    · simp at hk
    · simp at hk
    · simp at hk
    · exact absurd rfl (hshort r g b rest)

theorem getD_expandGrayscaleAlpha (buf : List UInt8) (k : ℕ) :
    (expandGrayscaleAlpha buf).getD (4 * k + 3) 0 = buf.getD (2 * k + 1) 0 := by
  -- two bytes become four
  induction buf using expandGrayscaleAlpha.induct generalizing k with
  | case1 l a rest ih =>
    cases k with
    | zero => rfl
    | succ k =>
      have hindex : 4 * (k + 1) + 3 = 4 * k + 3 + 1 + 1 + 1 + 1 := by omega
      have hindex' : 2 * (k + 1) + 1 = 2 * k + 1 + 1 + 1 := by omega
      rw [hindex, hindex', expandGrayscaleAlpha]
      simpa only [List.getD_cons_succ] using ih k
  | case2 buf hshort =>
    have hlen : buf.length < 2 := by
      rcases buf with _ | ⟨l, _ | ⟨a, rest⟩⟩
      · simp
      · simp
      · exact absurd rfl (hshort l a rest)
    rw [expandGrayscaleAlpha.eq_2 _ hshort]
    rw [List.getD_eq_default _ _ (by simp), List.getD_eq_default _ _ (by omega)]

namespace PngImage

/-- The alpha of a pixel of the image. -/
def alphaAt (img : PngImage) (k : ℕ) : UInt8 :=
  match img.colorType with
  | .rgba => img.buf.getD (4 * k + 3) 0
  | .grayscaleAlpha => img.buf.getD (2 * k + 1) 0
  | .grayscale | .rgb | .indexed => 255

/-- Every pixel that a texture takes from the image has alpha 255. -/
def Opaque (img : PngImage) : Prop :=
  ∀ y < img.height, ∀ x < img.width, img.alphaAt (texel img.width x y) = 255

theorem rgba_alphaAt {img : PngImage} {rgba : List UInt8} (h : img.rgba = .ok rgba) {k : ℕ}
    (hk : k < img.width * img.height) : rgba.getD (4 * k + 3) 0 = img.alphaAt k := by
  have hlen := img.buf_length
  unfold PngImage.rgba at h
  unfold alphaAt
  -- one case a color type
  cases hc : img.colorType with
  | rgba =>
    rw [hc] at h
    obtain rfl := Except.ok.inj h
    rfl
  | rgb =>
    rw [hc] at h hlen
    obtain rfl := Except.ok.inj h
    apply getD_expandRgb
    simp only [ColorType.samples] at hlen
    omega
  | grayscaleAlpha =>
    rw [hc] at h
    obtain rfl := Except.ok.inj h
    exact getD_expandGrayscaleAlpha ..
  | grayscale =>
    rw [hc] at h hlen
    obtain rfl := Except.ok.inj h
    simp only [ColorType.samples, mul_one] at hlen
    have hpiece : ∀ g : UInt8, [g, g, g, 255].length = 4 := fun _ => rfl
    rw [expandGrayscale, Rows.getD_flatMap hpiece (by omega), List.getElem?_eq_getElem (by omega)]
    rfl
  | indexed =>
    rw [hc] at h
    cases h

end PngImage

/-! ### Video -/

namespace Yuv

theorem convertPixel_eq (img : YuvImage) (c : Coefs) (row x : ℕ) :
    ∃ b g r, convertPixel img c row x = [b, g, r, 255] := by
  unfold convertPixel
  dsimp only
  split_ifs
  · exact ⟨_, _, _, rfl⟩
  · split <;> exact ⟨_, _, _, rfl⟩

/-- **Video is opaque**: every pixel gets alpha 255. -/
theorem toBgra_opaque {img : YuvImage} {f : CpuFrame} (h : toBgra img = some f) :
    (0 < f.width ∧ 0 < f.height) ∧ f.Opaque := by
  unfold toBgra at h
  split_ifs at h with hsize hplanes
  obtain rfl := Option.some.inj h
  have hdim : 0 < img.width ∧ 0 < img.height := by omega
  refine ⟨hdim, fun y hy x hx => ?_⟩
  rw [alphaAt_fromBgra]
  generalize Coefs.new img.matrix img.fullRange = c
  have hpiece : ∀ row x, (convertPixel img c row x).length = 4 := by
    intro row x
    obtain ⟨b, g, r, hpx⟩ := convertPixel_eq img c row x
    rw [hpx]
    rfl
  have hrow : ∀ row, ((List.range img.width).flatMap (convertPixel img c row)).length
      = 4 * img.width := by
    intro row
    rw [Rows.length_flatMap (hpiece row), List.length_range]
  -- over the pixels' numbers, then over rows and columns
  have hall : ∀ k < img.width * img.height,
      ((List.range img.height).flatMap fun row => (List.range img.width).flatMap
        (convertPixel img c row)).getD (4 * k + 3) 0 = 255 := by
    refine Rows.forall_index_iff.2 fun y hy x hx => ?_
    have hindex : 4 * (y * img.width + x) + 3 = 4 * img.width * y + (4 * x + 3) := by ring
    rw [hindex, Rows.getD_flatMap hrow (by omega), List.getElem?_range hy, Option.elim_some,
      Rows.getD_flatMap (hpiece y) (by omega), List.getElem?_range hx, Option.elim_some]
    obtain ⟨b, g, r, hpx⟩ := convertPixel_eq img c y x
    rw [hpx]
    rfl
  exact hall _ (texel_lt hx hy)

end Yuv

/-- A frame of a video: in memory, and opaque. -/
def FrameData.Video (d : FrameData) : Prop := d.Filled ∧ d.Opaque

theorem convert_video {pic : Picture} {f : DecodedFrame} (h : convert pic = some f) :
    f.data.Video := by
  unfold convert at h
  obtain ⟨cpu, hcpu, rfl⟩ := Option.map_eq_some_iff.1 h
  exact Yuv.toBgra_opaque hcpu

section Decoder

variable {δ κ : Type*} [Demuxer δ] [PictureDecoder κ]

theorem decode_video {r : PipeResult (List Picture)} {fs : List DecodedFrame}
    (h : r.map (List.filterMap convert) = .ok fs) : ∀ f ∈ fs, f.data.Video := by
  intro f hf
  rcases r with e | pics
  · cases h
  · obtain rfl := Except.ok.inj h
    obtain ⟨pic, _, hpic⟩ := List.mem_filterMap.1 hf
    exact convert_video hpic

namespace Pipeline

def VideoReady (p : Pipeline δ κ) : Prop := ∀ f ∈ p.ready, f.data.Video

/-- What a call on the pipeline may return, and the pipeline after it. -/
def VideoResult (r : PipeResult Next) (p : Pipeline δ κ) : Prop :=
  p.VideoReady ∧ ∀ f, r = .ok (.frame f) → f.data.Video

theorem round_video {p : Pipeline δ κ} (h : p.VideoReady) :
    p.round.2.VideoReady ∧ ∀ r, p.round.1 = some r → VideoResult r p.round.2 := by
  have hnone : ∀ {p' : Pipeline δ κ}, p'.VideoReady →
      p'.VideoReady ∧ ∀ r, (none : Option (PipeResult Next)) = some r → VideoResult r p' :=
    fun hp' => ⟨hp', fun _ hr => by cases hr⟩
  have herror : ∀ {p' : Pipeline δ κ} {e : String}, p'.VideoReady →
      p'.VideoReady ∧ ∀ r, some (.error e) = some r → VideoResult r p' := by
    intro p' e hp'
    refine ⟨hp', fun r hr => ⟨hp', fun f hf => ?_⟩⟩
    rw [← Option.some.inj hr] at hf
    cases hf
  unfold round
  split
  -- a frame that is ready is handed out; else the decoder is asked for more
  · rename_i f rest hready
    have hrest : ∀ f' ∈ rest, f'.data.Video := fun f' hf' =>
      h f' (by rw [hready]; exact List.mem_cons_of_mem _ hf')
    refine ⟨hrest, fun r hr => ⟨hrest, fun f' hf' => ?_⟩⟩
    rw [← Option.some.inj hr] at hf'
    obtain rfl := Next.frame.inj (Except.ok.inj hf')
    exact h f (by rw [hready]; exact List.mem_cons_self ..)
  · rename_i hready
    split_ifs
    · refine ⟨h, fun r hr => ⟨h, fun f' hf' => ?_⟩⟩
      rw [← Option.some.inj hr] at hf'
      cases hf'
    · unfold restart
      split
      · exact herror h
      · exact hnone h
    · unfold feed
      split
      · exact herror h
      · split
        · exact herror h
        · rename_i pkt d hpkt fs c hdecode
          refine hnone fun f hf => ?_
          rcases List.mem_append.1 hf with hf | hf
          · exact h f hf
          · exact decode_video (congrArg Prod.fst hdecode) f hf
      · split
        · exact herror h
        · rename_i d hpkt fs c hflush
          refine hnone fun f hf => ?_
          rcases List.mem_append.1 hf with hf | hf
          · exact h f hf
          · exact decode_video (congrArg Prod.fst hflush) f hf

theorem rounds_video (n : ℕ) : ∀ {p : Pipeline δ κ}, p.VideoReady →
    VideoResult (rounds n p).1 (rounds n p).2 := by
  induction n with
  | zero => exact fun h => ⟨h, fun f hf => by cases hf⟩
  | succ n ih =>
    intro p h
    obtain ⟨hready, hresult⟩ := round_video h
    rw [rounds]
    rcases hr : p.round with ⟨_ | r, p'⟩
    · rw [hr] at hready
      exact ih hready
    · rw [hr] at hresult
      exact hresult r rfl

end Pipeline

namespace VideoSource

/-- The ready frames and the latest one are video frames. -/
def Invariant (v : VideoSource δ κ) : Prop :=
  v.pipe.VideoReady ∧ ∀ f, v.shared.latest = some f → f.data.Video

theorem round_invariant {v : VideoSource δ κ} (h : v.Invariant) (t : Turn) :
    (v.round t).Invariant := by
  -- the frame of the call is one of the video
  have hnext : Pipeline.VideoResult v.pipe.nextFrame.1 v.pipe.nextFrame.2 :=
    Pipeline.rounds_video 4096 h.1
  unfold round
  by_cases hsleeps : v.stopped = true ∨ v.shared.watched = none
  · rw [if_pos hsleeps]
    exact h
  rw [if_neg hsleeps]
  by_cases hcrash : t = .crash
  · rw [if_pos hcrash]
    exact h
  rw [if_neg hcrash]
  -- an error stops the worker, a late frame is dropped, the others are published
  rcases hp : v.pipe.nextFrame with ⟨e | ⟨f⟩ | _, pipe⟩
  · rw [hp] at hnext
    exact ⟨hnext.1, h.2⟩
  · rw [hp] at hnext
    by_cases hlate : t = .late
    · dsimp only
      rw [if_pos hlate]
      exact ⟨hnext.1, h.2⟩
    · dsimp only
      rw [if_neg hlate]
      refine ⟨hnext.1, fun f' hf' => ?_⟩
      obtain rfl := Option.some.inj hf'
      exact hnext.2 f rfl
  · rw [hp] at hnext
    exact ⟨hnext.1, h.2⟩

theorem rounds_invariant (ts : List Turn) : ∀ {v : VideoSource δ κ}, v.Invariant →
    (ts.foldl round v).Invariant := by
  induction ts with
  | nil => exact fun h => h
  | cons t ts ih => exact fun h => ih (round_invariant h t)

theorem watch_invariant {v : VideoSource δ κ} (h : v.Invariant) (now : Instant) :
    (v.watch now).Invariant := rounds_invariant (v.schedule 0) h

omit [Demuxer δ] [PictureDecoder κ] in
theorem take_invariant {v : VideoSource δ κ} (h : v.Invariant) :
    v.take.2.Invariant ∧ ∀ f, v.take.1 = some f → f.data.Video := by
  unfold take
  split_ifs
  · exact ⟨h, fun f hf => by cases hf⟩
  · exact ⟨⟨h.1, fun f hf => by cases hf⟩, h.2⟩

/-- **A video only hands out opaque frames**, whatever its thread gets done before each poll. -/
theorem frames_video {pipe : Pipeline δ κ} (h : pipe.ready = []) (path : String)
    (schedule : ℕ → List Turn) (calls : List SourceCall) :
    ∀ f ∈ Source.frames (spawn pipe path schedule) calls, f.data.Video := by
  refine Source.forall_frames (I := Invariant) ?_ (fun _ hv => hv) calls _ ?_
  · intro v now hv
    have hwatch := watch_invariant hv now
    -- a poll runs the worker first
    obtain ⟨hinv, hframe⟩ := take_invariant hwatch
    simp only [Source.poll, poll]
    split
    · split_ifs
      · exact ⟨hwatch, fun f hf => by cases hf⟩
      · exact ⟨hinv, fun f hf => hframe f (Except.ok.inj hf)⟩
    · exact ⟨hinv, fun f hf => hframe f (Except.ok.inj hf)⟩
  -- nothing is there at the start
  · refine ⟨fun f hf => ?_, fun f hf => by cases hf⟩
    rw [show (spawn pipe path schedule).pipe.ready = pipe.ready from rfl, h] at hf
    cases hf

end VideoSource

end Decoder

end NoshareCover
