import NoshareCover.Core.Open
import NoshareCover.Core.Spec.GifFrames

/-!
# Opaque files

Which files make opaque covers, whatever the playback parameters and the polls are: videos and JPEGs
are opaque, a PNG is when all alphas of the image are 255, and a GIF is when it has a background or
its frames always paint every pixel (`handsOut_opaque_iff`).
-/

namespace NoshareCover

/-! ### Still images -/

namespace StillSource

theorem frames_eq {s : StillSource} {calls : List SourceCall} :
    ∀ f ∈ Source.frames s calls, s.frame = some f := by
  refine Source.forall_frames (I := fun s' => s'.frame = none ∨ s' = s) ?_ (fun _ h => h) calls s
    (.inr rfl)
  intro s' now hs'
  refine ⟨.inl rfl, fun f hf => ?_⟩
  have hframe : s'.frame = some f := Except.ok.inj hf
  rcases hs' with hnone | rfl
  · rw [hnone] at hframe
    cases hframe
  · exact hframe

theorem mem_frames {s : StillSource} {f : Frame} (h : s.frame = some f) :
    f ∈ Source.frames s [.poll 0] := by
  have hpoll : Source.poll s 0 = (.ok (some f), { frame := none }) := by
    rw [← h]
    rfl
  rw [Source.frames, hpoll]
  exact List.mem_cons_self ..

theorem open_eq_ok {dec : ImageDecoders} {path : String} {file : Except String (List UInt8)}
    {s : StillSource} (h : StillSource.open dec path file = .ok s) :
    ∃ bytes w h rgba, file = .ok bytes ∧ decode dec bytes = .ok (w, h, rgba) ∧ 0 < w ∧ 0 < h
      ∧ s.frame = some { generation := 1, data := .cpu (.fromRgba w h rgba) } := by
  unfold StillSource.open at h
  rcases file with e | bytes
  · cases h
  · rcases hd : decode dec bytes with e | ⟨w, ht, rgba⟩
    · simp [Except.bind, hd] at h
    · simp only [Except.bind, hd] at h
      split_ifs at h with hsize
      obtain rfl := Except.ok.inj h
      exact ⟨bytes, w, ht, rgba, rfl, hd, by omega, by omega, rfl⟩

end StillSource

/-- A PNG has to be opaque; a JPEG always is. -/
def StillOpaque (dec : ImageDecoders) (bytes : List UInt8) : Prop :=
  pngSignature.isPrefixOf bytes = true → ∀ img, dec.png bytes = .ok img → img.Opaque

theorem decodePng_eq {dec : ImageDecoders} {bytes : List UInt8} {img : PngImage}
    (h : dec.png bytes = .ok img) :
    decodePng dec bytes = img.rgba.map fun rgba => (img.width, img.height, rgba) := by
  unfold decodePng
  rw [h]
  rcases hr : img.rgba with e | rgba
  · simp only [bind, Except.bind, hr]
    rfl
  · simp only [bind, Except.bind, hr]
    rfl

/-- The frame of a PNG has the alphas of the image. -/
theorem PngImage.fromRgba_opaque_iff {img : PngImage} {rgba : List UInt8}
    (h : img.rgba = .ok rgba) :
    (CpuFrame.fromRgba img.width img.height rgba).Opaque ↔ img.Opaque := by
  have hpixel : ∀ y < img.height, ∀ x < img.width,
      (CpuFrame.fromRgba img.width img.height rgba).alphaAt x y
        = img.alphaAt (texel img.width x y) := by
    intro y hy x hx
    rw [alphaAt_fromRgba, img.rgba_alphaAt h (texel_lt hx hy)]
  constructor
  · intro hfull y hy x hx
    rw [← hpixel y hy x hx]
    exact hfull y hy x hx
  · intro hfull y hy x hx
    rw [hpixel y hy x hx]
    exact hfull y hy x hx

theorem decodeJpeg_opaque {dec : ImageDecoders} {bytes : List UInt8} {w h : ℕ} {rgba : List UInt8}
    (hd : decodeJpeg dec bytes = .ok (w, h, rgba)) : (CpuFrame.fromRgba w h rgba).Opaque := by
  unfold decodeJpeg at hd
  -- an image that does not decode opens no cover
  rcases hj : dec.jpeg bytes with e | img
  · rw [hj] at hd
    cases hd
  rw [hj] at hd
  simp only [bind, Except.bind] at hd
  rcases hdim : img.dimensions with _ | ⟨w', h'⟩
  · rw [hdim] at hd
    cases hd
  rw [hdim] at hd
  dsimp only at hd
  split_ifs at hd with hlarge
  have heq := Except.ok.inj hd
  simp only [Prod.mk.injEq] at heq
  obtain ⟨rfl, rfl, rfl⟩ := heq
  intro y hy x hx
  -- three bytes a pixel, so the fourth is always 255
  have hlen := img.rgb_length (w', h') (by rw [hdim]; rfl)
  have hlt : texel w' x y < w' * h' := texel_lt hx hy
  rw [alphaAt_fromRgba]
  apply getD_expandRgb
  dsimp only at hlen
  omega

theorem decode_opaque_iff {dec : ImageDecoders} {bytes : List UInt8} {w h : ℕ} {rgba : List UInt8}
    (hd : decode dec bytes = .ok (w, h, rgba)) :
    (CpuFrame.fromRgba w h rgba).Opaque ↔ StillOpaque dec bytes := by
  unfold decode at hd
  unfold StillOpaque
  -- a PNG may have alpha, a JPEG has none
  by_cases hpng : pngSignature.isPrefixOf bytes = true
  · rw [if_pos hpng] at hd
    rcases himg : dec.png bytes with e | img
    · rw [decodePng, himg] at hd
      cases hd
    · rw [decodePng_eq himg] at hd
      rcases hrgba : img.rgba with e | rgba'
      · rw [hrgba] at hd
        cases hd
      · rw [hrgba] at hd
        have heq := Except.ok.inj hd
        simp only [Prod.mk.injEq] at heq
        obtain ⟨rfl, rfl, rfl⟩ := heq
        rw [PngImage.fromRgba_opaque_iff hrgba]
        constructor
        · intro hfull _ img' himg'
          rw [← Except.ok.inj himg']
          exact hfull
        · exact fun hall => hall hpng img rfl
  · rw [if_neg hpng] at hd
    split_ifs at hd
    exact ⟨fun _ hp => absurd hp hpng, fun _ => decodeJpeg_opaque hd⟩

/-- A still image shows its alphas at the first poll. -/
theorem StillSource.stillOpaque {dec : ImageDecoders} (path : String)
    {file : Except String (List UInt8)}
    (h : ∀ s, StillSource.open dec path file = .ok s →
      ∀ calls, ∀ f ∈ Source.frames s calls, f.data.Opaque) :
    ∀ bytes, file = .ok bytes → StillOpaque dec bytes := by
  rintro bytes rfl hpng img himg
  rcases hrgba : img.rgba with e | rgba
  · -- only an indexed image has no RGBA
    intro y _ x _
    unfold PngImage.rgba at hrgba
    unfold PngImage.alphaAt
    cases hcolor : img.colorType with
    | indexed => rfl
    | grayscale => rfl
    | rgb => rfl
    | rgba =>
      rw [hcolor] at hrgba
      cases hrgba
    | grayscaleAlpha =>
      rw [hcolor] at hrgba
      cases hrgba
  · by_cases hsize : img.width = 0 ∨ img.height = 0
    · intro y hy x hx
      omega
    -- the image opens, so its frame is handed out
    have hdecode : decode dec bytes = .ok (img.width, img.height, rgba) := by
      rw [decode, if_pos hpng, decodePng_eq himg, hrgba]
      rfl
    have hopen : StillSource.open dec path (.ok bytes) = .ok ⟨some
        { generation := 1, data := .cpu (.fromRgba img.width img.height rgba) }⟩ := by
      unfold StillSource.open
      simp only [Except.bind, hdecode]
      rw [if_neg hsize]
    have hfull := h _ hopen [.poll 0] _ (StillSource.mem_frames rfl)
    exact (PngImage.fromRgba_opaque_iff hrgba).1 hfull

/-! ### GIF -/

namespace GifFile

/-- The background is a colour of the file's palette. -/
def HasBackground (file : GifFile) : Prop :=
  ∃ i pal, file.bgColor = some i ∧ file.globalPalette = some pal ∧ i * 3 + 2 < pal.length

/-- The file has a background, or each of its frames shows with every pixel painted. -/
def Opaque (file : GifFile) : Prop :=
  file.HasBackground ∨ ∀ images, file.frames = .ok images → ∀ i < images.length,
    ∀ n < file.width.toNat * file.height.toNat,
      GifFrame.Painted file.width.toNat file.height.toNat (images.map GifFrame.ofImage) n i

theorem bg_alpha_iff (file : GifFile) : file.bg.a = 255 ↔ file.HasBackground := by
  unfold bg HasBackground
  rcases file.bgColor with _ | i
  · simp
  · rcases file.globalPalette with _ | pal
    · simp
    · dsimp only
      split_ifs with hlt
      · simp [hlt]
      · simp [hlt]

end GifFile

theorem GifFrame.delay_ofImage_pos (f : GifImage) : 0 < (GifFrame.ofImage f).delay := by
  unfold GifFrame.ofImage
  dsimp only
  split_ifs <;> omega

namespace GifSource

theorem open_eq_ok {path : String} {speed : Speed} {looped : Bool} {file : Except String GifFile}
    {g : GifSource} (h : GifSource.open path speed looped file = .ok g) :
    ∃ gif images, file = .ok gif ∧ gif.frames = .ok images
      ∧ (0 < g.width ∧ g.width = gif.width.toNat) ∧ (0 < g.height ∧ g.height = gif.height.toNat)
      ∧ g.bg = gif.bg ∧ g.frames = images.map GifFrame.ofImage ∧ g.frames ≠ []
      ∧ g.Composed ∧ g.sent = none ∧ g.clock = .new speed looped
      ∧ g.total = (g.frames.map GifFrame.delay).sum := by
  obtain ⟨gif, images, rfl, himages, hw, hh, hempty, rfl⟩ := open_eq_opened h
  have hpos : ∀ {v : UInt16}, v ≠ 0 → 0 < v.toNat := by
    intro v hv
    refine Nat.pos_of_ne_zero fun h0 => hv ?_
    exact UInt16.toNat.inj h0
  exact ⟨gif, images, rfl, himages, ⟨hpos hw, rfl⟩, ⟨hpos hh, rfl⟩, rfl, rfl, hempty,
    composed_clearCanvas _, rfl, rfl, rfl⟩

theorem fresh_of_open {path : String} {file : Except String GifFile} {g : GifSource}
    (h : GifSource.open path ⟨1, by decide⟩ false file = .ok g) : g.Fresh := by
  obtain ⟨gif, images, _, _, _, _, _, hframes, hne, hcomp, hsent, hclock, htotal⟩ := open_eq_ok h
  refine ⟨hcomp, hne, hsent, ?_, ?_, htotal⟩
  · rw [hclock, PlaybackClock.new, sanitizeSpeed_some]
  · rw [hframes]
    intro f hf
    obtain ⟨image, _, rfl⟩ := List.mem_map.1 hf
    exact GifFrame.delay_ofImage_pos image

/-- A picture is opaque when all its pixels are solid. -/
theorem pictureData_opaque_iff {g : GifSource} (hw : g.width < 2 ^ 30) {i : ℕ}
    (hi : i < g.frames.length) :
    (g.pictureData i).Opaque ↔ ∀ n < g.width * g.height,
      g.bg.a = 255 ∨ GifFrame.Painted g.width g.height g.frames n i := by
  -- a pixel of the frame is one of the canvas
  have hpixel : ∀ y < g.height, ∀ x < g.width,
      (CpuFrame.fromBgra g.width g.height ((g.picture i).flatMap Bgra.bytes)).alphaAt x y = 255
        ↔ g.bg.a = 255 ∨ GifFrame.Painted g.width g.height g.frames (y * g.width + x) i := by
    intro y hy x hx
    have hpiece : ∀ px : Bgra, px.bytes.length = 4 := fun _ => rfl
    have hlt := Rows.index_lt hx hy
    obtain ⟨hlen, hsolid⟩ := solid_picture_iff hlt hi
    rw [← hsolid, alphaAt_fromBgra, texel_of_lt hw, Rows.getD_flatMap hpiece (by omega),
      List.getElem?_eq_getElem (by omega)]
    unfold Solid
    rw [List.getElem?_eq_getElem (by omega)]
    simp [Bgra.bytes]
  rw [Rows.forall_index_iff]
  constructor
  · intro hfull y hy x hx
    exact (hpixel y hy x hx).1 (hfull y hy x hx)
  · intro hall y hy x hx
    exact (hpixel y hy x hx).2 (hall y hy x hx)

/-- At normal speed and without looping, a GIF shows all its pictures. -/
theorem opaque_of_frames (path : String) {file : GifFile}
    (h : ∀ g, GifSource.open path ⟨1, by decide⟩ false (.ok file) = .ok g →
      ∀ calls, ∀ f ∈ Source.frames g calls, f.data.Opaque) : file.Opaque := by
  -- a background that is opaque fills the canvas
  by_cases hback : file.HasBackground
  · exact .inl hback
  refine .inr fun images himages i hi n hn => ?_
  have hprod : 0 < file.width.toNat * file.height.toNat := Nat.lt_of_le_of_lt (Nat.zero_le n) hn
  have hzero : ¬(file.width = 0 ∨ file.height = 0) := by
    rintro (h0 | h0) <;> simp [h0] at hprod
  have hnonempty : images.map GifFrame.ofImage ≠ [] := by
    intro hnil
    rw [List.map_eq_nil_iff] at hnil
    simp [hnil] at hi
  -- the file opens, whatever is in it
  obtain ⟨g, hg⟩ : ∃ g, GifSource.open path ⟨1, by decide⟩ false (.ok file) = .ok g := by
    unfold GifSource.open
    dsimp only
    rw [if_neg hzero, himages]
    dsimp only
    rw [if_neg hnonempty]
    exact ⟨_, rfl⟩
  obtain ⟨file', images', hfile', himages', ⟨_, hw⟩, ⟨_, hh⟩, hbg, hframes, _⟩ := open_eq_ok hg
  obtain rfl : file = file' := Except.ok.inj hfile'
  obtain rfl : images = images' := Except.ok.inj (himages.symm.trans himages')
  have hi' : i < g.frames.length := by
    rw [hframes, List.length_map]
    exact hi
  -- every picture is shown by some calls
  obtain ⟨calls, f, hf, hdata⟩ := exists_picture_frame (fresh_of_open hg) hi'
  have hfull := h g hg calls f hf
  have hlt := file.width.toNat_lt
  rw [hdata, pictureData_opaque_iff (by omega) hi', hbg, file.bg_alpha_iff, hw, hh, hframes]
    at hfull
  exact (hfull n hn).resolve_left hback

end GifSource

/-! ### Files -/

namespace OpenSource

variable {δ κ σ : Type*} [Demuxer δ] [Decoder κ] [Source σ]

/-- A source hands out the same frames among those of any kind. -/
theorem frames_embed (e : σ → OpenSource δ κ)
    (hpoll : ∀ s now, Source.poll (e s) now = ((Source.poll s now).1, e (Source.poll s now).2))
    (hshown : ∀ s, Source.shown (e s) = e (Source.shown s)) (calls : List SourceCall) :
    ∀ s : σ, Source.frames (e s) calls = Source.frames s calls := by
  -- the calls of the variant are those of the source in it
  induction calls with
  | nil => exact fun _ => rfl
  | cons c calls ih =>
    intro s
    cases c with
    | shown => rw [Source.frames, Source.frames, hshown, ih]
    | poll now =>
      rw [Source.frames, Source.frames, hpoll]
      rcases Source.poll s now with ⟨_ | _ | f, s'⟩
      · exact ih s'
      · exact ih s'
      · exact congrArg (f :: ·) (ih s')

@[simp] theorem frames_still (s : StillSource) (calls : List SourceCall) :
    Source.frames (still s : OpenSource δ κ) calls = Source.frames s calls :=
  frames_embed still (fun _ _ => rfl) (fun _ => rfl) calls s

@[simp] theorem frames_gif (s : GifSource) (calls : List SourceCall) :
    Source.frames (gif s : OpenSource δ κ) calls = Source.frames s calls :=
  frames_embed gif (fun _ _ => rfl) (fun _ => rfl) calls s

@[simp] theorem frames_video (s : VideoSource δ κ) (calls : List SourceCall) :
    Source.frames (video s) calls = Source.frames s calls :=
  frames_embed video (fun _ _ => rfl) (fun _ => rfl) calls s

end OpenSource

section Files

variable {δ κ : Type*} [Demuxer δ] [PictureDecoder κ]

/-- What holds of all frames that covers of the file hand out, whatever its parameters, the settings
and the turns of a video's thread are. -/
def Files.HandsOut (files : Files δ κ) (path : String) (P : FrameData → Prop) : Prop :=
  ∀ speed looped settings schedule s,
    openMedia files { path, speed, looped } settings schedule = .ok s →
      ∀ calls, ∀ f ∈ Source.frames s calls, P f.data

/-- The file makes opaque covers. -/
def Files.OpaqueFile (files : Files δ κ) (path : String) : Prop :=
  files.present path = true →
    match kindFor path with
    | some .still => ∀ bytes, files.read path = .ok bytes → StillOpaque files.images bytes
    | some .gif => ∀ file, files.gif path = .ok file → file.Opaque
    | some .video => True
    | none => True

omit [PictureDecoder κ] in
theorem openPipeline_ready {files : Files δ κ} {path : String} {looped : Bool} {settings : Settings}
    {pipe : Pipeline δ κ} (h : openPipeline files path looped settings = .ok pipe) :
    pipe.ready = [] := by
  unfold openPipeline at h
  rcases hd : files.openDemuxer path with e | demux
  · rw [hd] at h
    cases h
  rw [hd] at h
  dsimp only at h
  rcases hk : files.openDecoder (Demuxer.info demux).codec settings with e | decoder
  · rw [hk] at h
    cases h
  rw [hk] at h
  obtain rfl := Except.ok.inj h
  rfl

omit [PictureDecoder κ] in
/-- What an opened file is. -/
theorem openMedia_cases {files : Files δ κ} {play : PlayParams} {settings : Settings}
    {schedule : ℕ → List Turn} {s : OpenSource δ κ}
    (h : openMedia files play settings schedule = .ok s) :
    files.present play.path = true ∧
      ((kindFor play.path = some .still ∧ ∃ still, s = .still still
          ∧ StillSource.open files.images play.path (files.read play.path) = .ok still)
        ∨ (kindFor play.path = some .gif ∧ ∃ gif, s = .gif gif
          ∧ GifSource.open play.path play.speed play.looped (files.gif play.path) = .ok gif)
        ∨ (kindFor play.path = some .video ∧ ∃ pipe, pipe.ready = []
          ∧ s = .video (.spawn pipe play.path schedule))) := by
  unfold openMedia at h
  dsimp only at h
  by_cases hpresent : files.present play.path = true
  · refine ⟨hpresent, ?_⟩
    rw [if_neg (by simp [hpresent])] at h
    -- one case a kind of file
    rcases hkind : kindFor play.path with _ | _ | _ | _
    · rw [hkind] at h
      cases h
    · rw [hkind] at h
      dsimp only at h
      rcases hopen : StillSource.open files.images play.path (files.read play.path) with e | still
      · rw [hopen] at h
        cases h
      · rw [hopen] at h
        exact .inl ⟨rfl, still, (Except.ok.inj h).symm, rfl⟩
    · rw [hkind] at h
      dsimp only at h
      rcases hopen : GifSource.open play.path play.speed play.looped (files.gif play.path) with
        e | gif
      · rw [hopen] at h
        cases h
      · rw [hopen] at h
        exact .inr (.inl ⟨rfl, gif, (Except.ok.inj h).symm, rfl⟩)
    -- a video opens with no frame in its queue
    · rw [hkind] at h
      dsimp only at h
      rcases hopen : openPipeline files play.path play.looped settings with e | pipe
      · rw [hopen] at h
        cases h
      · rw [hopen] at h
        exact .inr (.inr ⟨rfl, pipe, openPipeline_ready hopen, (Except.ok.inj h).symm⟩)
  · rw [if_pos (by simpa using hpresent)] at h
    cases h

/-- Every frame is in memory and has pixels. -/
theorem handsOut_filled (files : Files δ κ) (path : String) :
    files.HandsOut path FrameData.Filled := by
  intro speed looped settings schedule s hopen calls f hf
  -- by the kind of the source
  rcases (openMedia_cases hopen).2 with ⟨_, still, rfl, hs⟩ | ⟨_, gif, rfl, hg⟩ | ⟨_, pipe, hp, rfl⟩
  · rw [OpenSource.frames_still] at hf
    obtain ⟨bytes, w, h, rgba, _, _, hw, hh, hframe⟩ := StillSource.open_eq_ok hs
    have heq := StillSource.frames_eq f hf
    rw [hframe] at heq
    obtain rfl := Option.some.inj heq
    exact ⟨hw, hh⟩
  · rw [OpenSource.frames_gif] at hf
    obtain ⟨_, _, _, _, ⟨hw, _⟩, ⟨hh, _⟩, _, _, hne, hcomp, _⟩ := GifSource.open_eq_ok hg
    obtain ⟨i, _, hdata⟩ := GifSource.frames_pictures hcomp hne calls f hf
    rw [hdata]
    exact ⟨hw, hh⟩
  · rw [OpenSource.frames_video] at hf
    exact (VideoSource.frames_video hp path schedule calls f hf).1

theorem opaque_of_opaqueFile {files : Files δ κ} {path : String} (h : files.OpaqueFile path) :
    files.HandsOut path FrameData.Opaque := by
  intro speed looped settings schedule s hopen calls f hf
  obtain ⟨hpresent, hkinds⟩ := openMedia_cases hopen
  have hfile := h hpresent
  -- the condition of the file is that of its kind
  rcases hkinds with ⟨hk, still, rfl, hs⟩ | ⟨hk, gif, rfl, hg⟩ | ⟨_, pipe, hp, rfl⟩
  · dsimp only at hk
    rw [hk] at hfile
    rw [OpenSource.frames_still] at hf
    obtain ⟨bytes, w, h, rgba, hread, hdecode, _, _, hframe⟩ := StillSource.open_eq_ok hs
    have heq := StillSource.frames_eq f hf
    rw [hframe] at heq
    obtain rfl := Option.some.inj heq
    exact (decode_opaque_iff hdecode).2 (hfile bytes hread)
  · dsimp only at hk
    rw [hk] at hfile
    rw [OpenSource.frames_gif] at hf
    obtain ⟨file, images, hgif, himages, ⟨_, hw⟩, ⟨_, hh⟩, hbg, hframes, hne, hcomp, _⟩ :=
      GifSource.open_eq_ok hg
    obtain ⟨i, hi, hdata⟩ := GifSource.frames_pictures hcomp hne calls f hf
    have hlt := file.width.toNat_lt
    rw [hdata, GifSource.pictureData_opaque_iff (by omega) hi]
    intro n hn
    rw [hbg, file.bg_alpha_iff, hw, hh, hframes]
    rcases hfile file hgif with hback | hall
    · exact .inl hback
    · rw [hw, hh] at hn
      rw [hframes, List.length_map] at hi
      exact .inr (hall images himages i hi n hn)
  · rw [OpenSource.frames_video] at hf
    exact (VideoSource.frames_video hp path schedule calls f hf).2

theorem opaqueFile_of_handsOut {files : Files δ κ} {path : String}
    (h : files.HandsOut path FrameData.Opaque) : files.OpaqueFile path := by
  intro hpresent
  -- at normal speed every frame shows once; the settings and the thread don't matter
  have hframes := h ⟨1, by decide⟩ false
    { pathCover := path, looped := true, speed := ⟨1, by decide⟩, backend := .cpu,
      gpuDevice := none } fun _ => []
  unfold openMedia at hframes
  dsimp only at hframes
  rw [if_neg (by simp [hpresent])] at hframes
  rcases hkind : kindFor path with _ | _ | _ | _
  · trivial
  · rw [hkind] at hframes
    refine StillSource.stillOpaque path fun s hs calls f hf => ?_
    rw [hs] at hframes
    exact hframes (.still s) rfl calls f (by rwa [OpenSource.frames_still])
  · rw [hkind] at hframes
    intro file hgif
    refine GifSource.opaque_of_frames path fun g hg calls f hf => ?_
    rw [hgif, hg] at hframes
    exact hframes (.gif g) rfl calls f (by rwa [OpenSource.frames_gif])
  · trivial

/-- **Exactly the opaque files make opaque covers.** -/
theorem handsOut_opaque_iff (files : Files δ κ) (path : String) :
    files.HandsOut path FrameData.Opaque ↔ files.OpaqueFile path :=
  ⟨opaqueFile_of_handsOut, opaque_of_opaqueFile⟩

end Files

end NoshareCover
