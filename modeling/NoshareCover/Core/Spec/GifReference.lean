import NoshareCover.Core.Spec.GifFrames

/-!
# GIF playback against a reference

The reference composes pictures as functions of the position, each from a clean canvas
(`GifFrame.reference`), and knows when a frame plays from the time alone (`GifFrame.Playing`).  The
source keeps one canvas, a backup, a clock and the number of the frame it handed out last;
`playback_shows_reference` says that this makes no difference.
-/

namespace NoshareCover

/-- A colour for every position. -/
abbrev Painting := ℕ → ℕ → Bgra

namespace GifFrame

/-! ### The reference -/

/-- The position is in the frame's rectangle. -/
def Covers (f : GifFrame) (x y : ℕ) : Prop :=
  (f.top ≤ y ∧ y < f.top + f.height) ∧ f.left ≤ x ∧ x < f.left + f.width

instance (f : GifFrame) (x y : ℕ) : Decidable (f.Covers x y) :=
  inferInstanceAs (Decidable (_ ∧ _))

/-- What the frame shows at a position: nothing outside of it and where it is transparent. -/
def pixel (f : GifFrame) (x y : ℕ) : Option Bgra :=
  let n := (y - f.top) * f.width + (x - f.left)
  if f.Covers x y ∧ f.rgba.getD (n * 4 + 3) 0 ≠ 0 then
    some { b := f.rgba.getD (n * 4 + 2) 0, g := f.rgba.getD (n * 4 + 1) 0,
           r := f.rgba.getD (n * 4) 0, a := 255 }
  else none

def drawn (f : GifFrame) (p : Painting) : Painting := fun x y => (f.pixel x y).getD (p x y)

def cleared (f : GifFrame) (bg : Bgra) (p : Painting) : Painting := fun x y =>
  if f.Covers x y then bg else p x y

/-- What a frame that was drawn on `p` leaves for the next one. -/
def disposed (f : GifFrame) (bg : Bgra) (p : Painting) : Painting :=
  match f.dispose with
  | .keep | .any => f.drawn p
  | .background => f.cleared bg (f.drawn p)
  | .previous => p

/-- The canvas after some frames, each disposed of. -/
def beneath (bg : Bgra) (frames : List GifFrame) : Painting :=
  frames.foldl (fun p f => f.disposed bg p) fun _ _ => bg

/-- The picture of a frame: the frames before it and then itself, on a clean canvas. -/
def reference (bg : Bgra) (frames : List GifFrame) (i : ℕ) : Painting :=
  match frames[i]? with
  | none => fun _ _ => bg
  | some f => f.drawn (beneath bg (frames.take i))

/-- The pixels of a picture, row after row. -/
def raster (w h : ℕ) (p : Painting) : List Bgra :=
  (List.range h).flatMap fun y => (List.range w).map fun x => p x y

/-- The frame `i` plays after the time `raw`: its delay interval has the position, or it is the last
frame of a clip that is over. -/
def Playing (frames : List GifFrame) (looped : Bool) (raw i : ℕ) : Prop :=
  let total := (frames.map GifFrame.delay).sum
  i < frames.length ∧
    if looped then GifSource.start frames i ≤ raw % total ∧ raw % total < GifSource.start frames (i + 1)
    else if raw < total then GifSource.start frames i ≤ raw ∧ raw < GifSource.start frames (i + 1)
    else i + 1 = frames.length

/-- Byte offsets of pixels do not wrap, on a canvas of this size and in the frames: every position is
its own pixel. -/
structure Exact (w h : ℕ) (frames : List GifFrame) : Prop where
  canvas : ∀ n < w * h, GifSource.pixelIndex n = n
  frames : ∀ f ∈ frames, ∀ n < f.width * f.height, GifSource.pixelIndex n = n

/-- Up to `2 ^ 30` pixels they don't. -/
theorem exact_of_le {w h : ℕ} {frames : List GifFrame} (hcanvas : w * h ≤ 2 ^ 30)
    (hframes : ∀ f ∈ frames, f.width * f.height ≤ 2 ^ 30) : Exact w h frames := by
  have hindex : ∀ n < 2 ^ 30, GifSource.pixelIndex n = n := by
    intro n hn
    unfold GifSource.pixelIndex
    omega
  exact ⟨fun n hn => hindex n (by omega), fun f hf n hn => hindex n (by have := hframes f hf; omega)⟩

/-! ### Pixels of the canvas -/

theorem length_raster {w h : ℕ} (p : Painting) : (raster w h p).length = w * h := by
  unfold raster
  rw [Rows.length_flatMap (m := w) (fun y => by simp), List.length_range]

theorem getD_raster {w h n : ℕ} (p : Painting) (hn : n < w * h) (d : Bgra) :
    (raster w h p).getD n d = p (n % w) (n / w) := by
  have hw : 0 < w := Nat.pos_of_mul_pos_right (Nat.lt_of_le_of_lt (Nat.zero_le n) hn)
  have hrow : n / w < h := Nat.div_lt_of_lt_mul hn
  have hcol : n % w < w := Nat.mod_lt n hw
  have hpiece : ∀ y, ((List.range w).map fun x => p x y).length = w := fun y => by simp
  conv_lhs => rw [← Nat.div_add_mod n w]
  unfold raster
  rw [Rows.getD_flatMap hpiece hcol, List.getElem?_range hrow, Option.elim_some,
    List.getD_eq_getElem _ _ (by simpa using hcol)]
  simp

/-- A canvas that has a picture's pixels is its raster. -/
theorem eq_raster {w h : ℕ} {canvas : List Bgra} {p : Painting} (hlen : canvas.length = w * h)
    (hpixels : ∀ n < w * h, ∀ d, canvas.getD n d = p (n % w) (n / w)) : canvas = raster w h p := by
  apply List.ext_getElem (by rw [hlen, length_raster])
  intro n hn hn'
  have hlt : n < w * h := by omega
  have hat := hpixels n hlt canvas[n]
  rw [← getD_raster p hlt canvas[n], List.getD_eq_getElem _ _ hn, List.getD_eq_getElem _ _ hn'] at hat
  exact hat

theorem looks_getD {N n : ℕ} (hn : n < N) (d : Bgra) :
    GifSource.Looks N n (fun c : List Bgra => c.getD n d) id where
  inside := hn
  set_self c px hc := by
    rw [List.getD_eq_getElem _ _ (by rw [List.length_set]; omega)]
    simp
  set_ne c m px hne := by
    simp only [List.getD_eq_getElem?_getD]
    rw [List.getElem?_set, if_neg hne]

/-! ### What the loops draw -/

/-- A pixel that the blit paints is the frame's pixel there. -/
theorem pixel_of_paintsAt {w h n y x : ℕ} {f : GifFrame}
    (hcanvas : ∀ m < w * h, GifSource.pixelIndex m = m)
    (hframe : ∀ m < f.width * f.height, GifSource.pixelIndex m = m) (hy : y < f.height)
    (hx : x < f.width) (hp : f.PaintsAt w h y x n) :
    f.pixel (n % w) (n / w) = some (f.color y x) := by
  obtain ⟨⟨hrow, hcol⟩, halpha, hn⟩ := hp
  rw [hcanvas _ (Rows.index_lt hcol hrow)] at hn
  -- the pixel of the canvas that `(x, y)` is drawn on
  have hdiv : n / w = f.top + y := by
    rw [← hn, mul_comm, Nat.mul_add_div (by omega), Nat.div_eq_of_lt hcol, add_zero]
  have hmod : n % w = f.left + x := by
    rw [← hn, mul_comm, Nat.mul_add_mod, Nat.mod_eq_of_lt hcol]
  have hsource : GifSource.pixelIndex (y * f.width + x) = y * f.width + x :=
    hframe _ (Rows.index_lt hx hy)
  unfold GifSource.srcAlpha at halpha
  rw [hsource] at halpha
  unfold pixel color
  dsimp only
  rw [hdiv, hmod, hsource, Nat.add_sub_cancel_left, Nat.add_sub_cancel_left, if_pos]
  refine ⟨⟨?_, ?_⟩, halpha⟩ <;> omega

/-- Where the blit paints nothing the frame has no pixel. -/
theorem pixel_of_not_paints {w h n : ℕ} {f : GifFrame}
    (hcanvas : ∀ m < w * h, GifSource.pixelIndex m = m)
    (hframe : ∀ m < f.width * f.height, GifSource.pixelIndex m = m) (hn : n < w * h)
    (hp : ¬f.Paints w h n) : f.pixel (n % w) (n / w) = none := by
  have hw : 0 < w := Nat.pos_of_mul_pos_right (Nat.lt_of_le_of_lt (Nat.zero_le n) hn)
  have hrow : n / w < h := Nat.div_lt_of_lt_mul hn
  have hcol : n % w < w := Nat.mod_lt n hw
  unfold pixel
  dsimp only
  rw [if_neg]
  -- what would be drawn at `n`, seen from the frame
  rintro ⟨⟨⟨htop, hbottom⟩, hleft, hright⟩, halpha⟩
  have hy : n / w - f.top < f.height := by omega
  have hx : n % w - f.left < f.width := by omega
  have hdown : f.top + (n / w - f.top) = n / w := by omega
  have hacross : f.left + (n % w - f.left) = n % w := by omega
  refine hp ⟨n / w - f.top, hy, n % w - f.left, hx, ⟨?_, ?_⟩, ?_, ?_⟩
  · rwa [hdown]
  · rwa [hacross]
  · unfold GifSource.srcAlpha
    rwa [hframe _ (Rows.index_lt hx hy)]
  · rw [hdown, hacross, mul_comm, Nat.div_add_mod]
    exact hcanvas n hn

end GifFrame

namespace GifSource

open GifFrame

variable {g : GifSource} {c : List Bgra} {p : Painting}

/-- A canvas that shows a picture. -/
structure Shows (g : GifSource) (c : List Bgra) (p : Painting) : Prop where
  length : c.length = g.width * g.height
  pixels : ∀ n < g.width * g.height, ∀ d, c.getD n d = p (n % g.width) (n / g.width)

theorem Shows.blit {f : GifFrame} (hexact : Exact g.width g.height g.frames) (hf : f ∈ g.frames)
    (h : Shows g c p) : Shows g (g.blit f c) (f.drawn p) := by
  refine ⟨(g.length_blit f c).trans h.length, fun n hn d => ?_⟩
  have hpaint : ∀ y < f.height, ∀ x < f.width, f.PaintsAt g.width g.height y x n →
      id (f.color y x) = f.drawn p (n % g.width) (n / g.width) := by
    intro y hy x hx hp
    unfold drawn
    rw [pixel_of_paintsAt hexact.canvas (hexact.frames f hf) hy hx hp]
    rfl
  obtain ⟨_, hpaints, hkept⟩ := (looks_getD hn d).blit hpaint h.length
  -- drawn over, or what was there
  by_cases hp : f.Paints g.width g.height n
  · exact hpaints hp
  · rw [hkept hp, h.pixels n hn d]
    unfold drawn
    rw [pixel_of_not_paints hexact.canvas (hexact.frames f hf) hn hp]
    rfl

theorem Shows.fillRect {f : GifFrame} (h : Shows g c p) :
    Shows g (g.fillRect f.left f.top f.width f.height g.bg c) (f.cleared g.bg p) := by
  refine ⟨(g.length_fillRect f.left f.top f.width f.height g.bg c).trans h.length, fun n hn d => ?_⟩
  obtain ⟨_, hfilled, hkept⟩ := (looks_getD hn d).fillRect f g.bg h.length
  unfold cleared
  by_cases hclear : f.Clears g.width n
  · rw [hfilled hclear]
    exact (if_pos hclear).symm
  · rw [hkept hclear, h.pixels n hn d]
    exact (if_neg hclear).symm

/-! ### The pictures of the source -/

/-- The canvas under a frame is what the frames before it left. -/
theorem under_shows (hexact : Exact g.width g.height g.frames) :
    ∀ i ≤ g.frames.length, Shows g (g.under i) (beneath g.bg (g.frames.take i)) := by
  intro i
  induction i with
  -- the blank canvas is all background
  | zero =>
    intro _
    refine ⟨List.length_replicate .., fun n hn d => ?_⟩
    show g.blank.getD n d = g.bg
    unfold blank
    rw [List.getD_eq_getElem _ _ (by rwa [List.length_replicate]), List.getElem_replicate]
  | succ i ih =>
    intro hi
    have hbelow := ih (by omega)
    have hf : g.frames[i]? = some g.frames[i] := List.getElem?_eq_getElem (by omega)
    have hmem : g.frames[i] ∈ g.frames := List.getElem_mem _
    have htake : g.frames.take (i + 1) = g.frames.take i ++ [g.frames[i]] := by
      rw [List.take_add_one, hf, Option.toList_some]
    generalize g.frames[i] = f at hf hmem htake
    have hdrawn := hbelow.blit hexact hmem
    have hpic : g.picture i = g.blit f (g.under i) := by
      rw [picture, hf]
    rw [under_succ hf, hpic, htake]
    unfold beneath at hdrawn hbelow ⊢
    rw [List.foldl_append, List.foldl_cons, List.foldl_nil]
    unfold disposed
    -- the canvas that the next frame is drawn on
    cases f.dispose with
    | background => exact hdrawn.fillRect
    | previous => exact hbelow
    | keep => exact hdrawn
    | any => exact hdrawn

/-- **The pictures of the source are those of the reference.** -/
theorem picture_eq_raster (hexact : Exact g.width g.height g.frames) {i : ℕ}
    (hi : i < g.frames.length) :
    g.picture i = raster g.width g.height (reference g.bg g.frames i) := by
  have hf : g.frames[i]? = some g.frames[i] := List.getElem?_eq_getElem hi
  have hmem : g.frames[i] ∈ g.frames := List.getElem_mem _
  generalize g.frames[i] = f at hf hmem
  have hshows := (under_shows hexact i hi.le).blit hexact hmem
  have hpic : g.picture i = g.blit f (g.under i) := by
    rw [picture, hf]
  have href : reference g.bg g.frames i = f.drawn (beneath g.bg (g.frames.take i)) := by
    rw [reference, hf]
  rw [hpic, href]
  exact eq_raster hshows.length hshows.pixels

/-! ### The frame that plays -/

theorem exists_playing {frames : List GifFrame} (hne : frames ≠ [])
    (hdelay : ∀ f ∈ frames, 0 < f.delay) (looped : Bool) (raw : ℕ) :
    ∃ i, Playing frames looped raw i := by
  have hpos : 0 < frames.length := List.length_pos_iff.2 hne
  have htotal : 0 < (frames.map GifFrame.delay).sum := Nat.lt_of_le_of_lt (Nat.zero_le _)
    (start_lt hdelay hpos)
  -- looped, the position is a remainder of the total
  cases looped with
  | true =>
    obtain ⟨i, hi, hat⟩ := exists_start_le (Nat.mod_lt raw htotal)
    exact ⟨i, hi, by rwa [if_pos rfl]⟩
  | false =>
    by_cases hover : raw < (frames.map GifFrame.delay).sum
    · obtain ⟨i, hi, hat⟩ := exists_start_le hover
      exact ⟨i, hi, by rwa [if_neg (by decide), if_pos hover]⟩
    -- past its end the last frame plays on
    · refine ⟨frames.length - 1, by omega, ?_⟩
      rw [if_neg (by decide), if_neg hover]
      omega

/-- The clock's position is in the frame that plays. -/
theorem target_eq {now : Instant} {started : Option Instant} {speed : Speed} {looped : Bool} {i : ℕ}
    (hclock : g.clock = { started, speed, looped })
    (htotal : g.total = (g.frames.map GifFrame.delay).sum) (hlt : g.total < 2 ^ 64)
    (hdelay : ∀ f ∈ g.frames, 0 < f.delay)
    (hi : Playing g.frames looped (mulF64 (now - started.getD now) speed) i) :
    g.target now = i := by
  obtain ⟨hlen, hat⟩ := hi
  have hpos : g.total ≠ 0 := by
    have := start_lt hdelay hlen
    omega
  unfold target frameAt
  rw [hclock]
  unfold PlaybackClock.position
  dsimp only
  rw [if_neg hpos]
  generalize mulF64 (now - started.getD now) speed = raw at hat ⊢
  rw [← htotal] at hat
  -- the frame at a position
  have hframe : ∀ pos, start g.frames i ≤ pos → pos < start g.frames (i + 1) →
      frameAtFrom pos g.frames 0 0 = i := by
    intro pos hfrom hto
    have hat := frameAtFrom_eq 0 0 hlen hfrom hto
    rwa [zero_add, zero_add] at hat
  cases looped with
  | true =>
    rw [if_pos rfl] at hat ⊢
    have hmod := Nat.mod_lt raw (Nat.pos_of_ne_zero hpos)
    rw [Nat.mod_eq_of_lt (show raw % g.total < 2 ^ 64 by omega)]
    exact hframe _ hat.1 hat.2
  | false =>
    rw [if_neg (by decide)] at hat ⊢
    by_cases hover : raw < g.total
    · rw [if_pos hover] at hat
      rw [min_eq_left (by omega)]
      exact hframe _ hat.1 hat.2
    · -- the clip is over: the position stays at its last moment, which the last frame has
      rw [if_neg hover] at hat
      have hstart := start_lt hdelay hlen
      have hend : start g.frames (i + 1) = g.total := by
        rw [hat, htotal, start, List.take_length]
      rw [min_eq_right (by omega)]
      exact hframe _ (by omega) (by omega)

/-! ### Playback -/

/-- When the playback started, given when it had: at the first poll, or the first one after the
source was last shown. -/
def playStart (started : Option Instant) (calls : List SourceCall) : Option Instant :=
  calls.foldl (fun started call =>
    match call with
    | .poll now => some (started.getD now)
    | .shown => none) started

/-- The source at some point of a playback of `g₀`: its clock runs since `started`, and what it
handed out last was the picture it thinks it was. -/
structure Playback (g₀ : GifSource) (speed : Speed) (looped : Bool) (g : GifSource)
    (started : Option Instant) (last : Option Frame) : Prop where
  composed : g.Composed
  same : SameFile g₀ g
  clock : g.clock = { started, speed, looped }
  last : ∀ i, g.sent = some i → ∃ f, last = some f ∧ f.data = g₀.pictureData i

variable {g₀ : GifSource} {speed : Speed} {looped : Bool} {started : Option Instant}
  {last : Option Frame}

theorem Playback.shown (h : Playback g₀ speed looped g started last) :
    Playback g₀ speed looped (Source.shown g) none last := by
  have hsame : SameFile g (Source.shown g) := by
    constructor <;> rfl
  refine ⟨h.composed.congr hsame rfl rfl rfl, h.same.trans hsame, ?_, h.last⟩
  show g.clock.restart = _
  rw [h.clock]
  rfl

/-- A poll hands out the picture at the clock's position, or the one handed out last is that. -/
theorem Playback.poll (h : Playback g₀ speed looped g started last) (hne : g.frames ≠ [])
    (now : Instant) :
    ∃ frame, (g.poll now).1 = .ok frame
      ∧ Playback g₀ speed looped (g.poll now).2 (some (started.getD now)) (frame.or last)
      ∧ ∃ f, frame.or last = some f ∧ f.data = g₀.pictureData (g.target now) := by
  obtain ⟨hframe, hcomp, hsame, hsent, hclock⟩ := poll_spec h.composed hne now
  refine ⟨_, hframe, ?_⟩
  -- nothing new: the frame that was sent is this one
  have hshown : ∃ f, (if g.sent = some (g.target now) then none
      else some { generation := g.generation + 1, data := g.pictureData (g.target now) }).or last
        = some f ∧ f.data = g₀.pictureData (g.target now) := by
    by_cases hlast : g.sent = some (g.target now)
    · rw [if_pos hlast]
      exact h.last _ hlast
    · rw [if_neg hlast]
      exact ⟨_, rfl, h.same.pictureData _⟩
  -- the number that was sent stands for the picture that is shown
  refine ⟨⟨hcomp, h.same.trans hsame, ?_, fun i hi => ?_⟩, hshown⟩
  · rw [hclock, h.clock]
    rfl
  · rw [hsent] at hi
    obtain rfl := Option.some.inj hi
    exact hshown

/-- The last frame of a run that ends with a poll. -/
theorem Playback.run (h : Playback g₀ speed looped g started last) (hne : g₀.frames ≠ [])
    (hdelay : ∀ f ∈ g₀.frames, 0 < f.delay)
    (htotal : g₀.total = (g₀.frames.map GifFrame.delay).sum) (hlt : g₀.total < 2 ^ 64)
    (calls : List SourceCall) (now : Instant) {i : ℕ}
    (hi : Playing g₀.frames looped
      (mulF64 (now - (playStart started calls).getD now) speed) i) :
    ∃ f, (Source.frames g (calls ++ [.poll now])).getLast?.or last = some f
      ∧ f.data = g₀.pictureData i := by
  -- what a poll adds to the frames
  have hadd : ∀ {g : GifSource} {t : Instant} {frame : Option Frame} (cs : List SourceCall)
      (last : Option Frame), (g.poll t).1 = .ok frame →
      (Source.frames g (.poll t :: cs)).getLast?.or last
        = (Source.frames (g.poll t).2 cs).getLast?.or (frame.or last) := by
    intro g t frame cs last hframe
    have hpoll : Source.poll g t = (.ok frame, (g.poll t).2) := by
      rw [← hframe]
      rfl
    rw [Source.frames, hpoll]
    cases frame with
    | none => rfl
    | some f =>
      dsimp only
      rw [List.getLast?_cons]
      cases (Source.frames (g.poll t).2 cs).getLast? <;> rfl
  induction calls generalizing g started last with
  | nil =>
    have hgne : g.frames ≠ [] := by rwa [h.same.frames]
    obtain ⟨frame, hframe, _, f, hf, hdata⟩ := h.poll hgne now
    refine ⟨f, ?_, ?_⟩
    · rw [List.nil_append, hadd _ _ hframe]
      exact hf
    · have htarget : g.target now = i := by
        apply target_eq h.clock
        · rw [h.same.total, h.same.frames, htotal]
        · rwa [h.same.total]
        · rwa [h.same.frames]
        · rwa [h.same.frames]
      rw [hdata, htarget]
  | cons call calls ih =>
    cases call with
    | shown => exact ih h.shown hi
    | poll t =>
      have hgne : g.frames ≠ [] := by rwa [h.same.frames]
      obtain ⟨frame, hframe, hnext, _⟩ := h.poll hgne t
      rw [List.cons_append, hadd _ _ hframe]
      exact ih hnext hi

theorem opened_playback (width height : ℕ) (bg : Bgra) (frames : List GifFrame) (speed : Speed)
    (looped : Bool) :
    Playback (opened width height bg frames speed looped) speed looped
      (opened width height bg frames speed looped) none none := by
  refine ⟨composed_clearCanvas _, ⟨rfl, rfl, rfl, rfl, rfl⟩, ?_, fun i hi => ?_⟩
  · show PlaybackClock.new speed looped = _
    rw [PlaybackClock.new, sanitizeSpeed_some]
  · cases hi

/-- **GIF playback shows the right picture of the right frame.**  After every poll, whatever was
polled, skipped and restarted before it, one frame plays at the clock's position, and the last frame
that the source handed out is that frame's picture in the reference. -/
theorem playback_shows_reference {width height : ℕ} {bg : Bgra} {frames : List GifFrame}
    (hne : frames ≠ []) (hdelay : ∀ f ∈ frames, 0 < f.delay)
    (htotal : (frames.map GifFrame.delay).sum < 2 ^ 64) (hexact : Exact width height frames)
    (speed : Speed) (looped : Bool) (calls : List SourceCall) (now : Instant) :
    let raw := mulF64 (now - (playStart none calls).getD now) speed
    (∃! i, Playing frames looped raw i) ∧ ∀ i, Playing frames looped raw i →
      ∃ f, (Source.frames (opened width height bg frames speed looped)
          (calls ++ [.poll now])).getLast? = some f
        ∧ f.data = .cpu (.fromBgra width height
          ((raster width height (reference bg frames i)).flatMap Bgra.bytes)) := by
  intro raw
  have hplay := opened_playback width height bg frames speed looped
  refine ⟨?_, fun i hi => ?_⟩
  -- the frame of a position is the one that the source takes
  · obtain ⟨i, hi⟩ := exists_playing hne hdelay looped raw
    refine ⟨i, hi, fun j hj => ?_⟩
    let g := { opened width height bg frames speed looped with
      clock := { started := playStart none calls, speed, looped } }
    have htarget : ∀ k, Playing frames looped raw k → g.target now = k := fun k hk =>
      target_eq (g := g) rfl rfl htotal hdelay hk
    rw [← htarget i hi, ← htarget j hj]
  -- what was shown last is its picture
  · obtain ⟨f, hf, hdata⟩ := hplay.run hne hdelay rfl htotal calls now hi
    rw [Option.or_none] at hf
    refine ⟨f, hf, hdata.trans ?_⟩
    unfold pictureData
    rw [picture_eq_raster (g := opened width height bg frames speed looped) hexact hi.1]
    rfl

/-- Two frames of one pixel: red on the left, which is undone, and blue on the right. -/
def exampleFrames : List GifFrame :=
  [{ delay := 100000000, dispose := .previous, left := 0, top := 0, width := 1, height := 1,
     rgba := [255, 0, 0, 255] },
   { delay := 200000000, dispose := .keep, left := 1, top := 0, width := 1, height := 1,
     rgba := [0, 0, 255, 255] }]

/-- In the second frame the left pixel is background again. -/
theorem playback_of_exampleFrames :
    ∃ f, (Source.frames (opened 2 1 ⟨9, 9, 9, 255⟩ exampleFrames ⟨1, by decide⟩ true)
        [.poll 5, .poll 150000005]).getLast? = some f
      ∧ f.data = .cpu (.fromBgra 2 1 [9, 9, 9, 255, 255, 0, 0, 255]) := by
  have hexact : Exact 2 1 exampleFrames := exact_of_le (by decide) (by decide)
  have h := @playback_shows_reference 2 1 ⟨9, 9, 9, 255⟩ exampleFrames (by decide) (by decide)
    (by decide) hexact ⟨1, by decide⟩ true [.poll 5] 150000005
  rw [show mulF64 (150000005 - (playStart none [.poll 5]).getD 150000005) ⟨1, by decide⟩
    = 150000000 from mulF64_one _] at h
  exact h.2 1 ⟨by decide, by decide⟩

end GifSource

end NoshareCover
