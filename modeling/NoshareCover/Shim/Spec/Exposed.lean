import NoshareCover.Shim.PaintCover
import NoshareCover.Shim.Spec.Draws
import NoshareCover.Shim.Spec.Hold

/-!
# What shows of a hidden window

The cover of a hidden window is drawn within the region that the opaque windows above it leave.
From a rounded window only a cross is taken out, so its corners are left.  In a capture that does
not start at the monitor's corner the windows count as not rounded, and then whole boxes are taken
out, also where the picture under the covers has rounded corners.  `paintsExposed_iff` says when
every exposed pixel is painted, for any boxes and for boxes of whole pixels.
-/

namespace NoshareCover

open Resample

/-- The radius of a window's corners in the monitor's own picture. -/
def pictureRound (mon : Monitor) (w : Window) : ℤ :=
  if w.fullscreenMode then 0 else windowRound w mon

/-- The window's shape in the picture under the covers. -/
def CornerRounding.picture (c : CornerRounding) (mon : Monitor) (v : Visible) : Vec → Bool :=
  c.shape v.geo.box (pictureRound mon v.w) (if v.w.fullscreenMode then 2 else v.w.roundingPower)

/-- `o` is stacked above `v`, opaque and in the image. -/
def Hides (o v : Visible) : Prop := isAbove o v = true ∧ o.geo.opaque_ = true ∧ o.gone = false

/-- A point of the window that no opaque window above it hides. -/
structure Exposed (c : CornerRounding) (fr : CaptureFrame) (inp : PaintInput) (v : Visible)
    (q : Vec) : Prop where
  inside : c.picture fr.mon v q = true
  notHidden : ∀ o ∈ visibleWindows fr inp, Hides o v → c.picture fr.mon o q = false

/-- A hidden window that is in the image. -/
def HiddenShown (fr : CaptureFrame) (inp : PaintInput) (v : Visible) : Prop :=
  v ∈ visibleWindows fr inp ∧ v.rules.isSome = true ∧ v.gone = false

/-- Every exposed pixel of a hidden window lies where its cover is drawn. -/
def PaintsExposed (c : CornerRounding) (s : Shim) (fr : CaptureFrame) (inp : PaintInput) : Prop :=
  ∀ v, HiddenShown fr inp v → ∀ p, Exposed c fr inp v (centre p) →
    ∃ op, .cover op ∈ (s.paintCovers fr inp).2 ∧ op.subject = .window v.w.key ∧ p ∈ op.area

/-! ### Boxes of whole pixels -/

/-- The box is one of whole pixels, within 32 bits. -/
def WholeBox (b : Box ℚ) : Prop :=
  ∃ whole : Box ℤ, FitsInt32 whole ∧ b = whole.map (Int.cast : ℤ → ℚ)

theorem wholeBox_iff {b : Box ℚ} :
    WholeBox b ↔ FitsInt32 (b.map Int.floor) ∧ b = (b.map Int.floor).map (Int.cast : ℤ → ℚ) := by
  constructor
  · rintro ⟨whole, hfits, rfl⟩
    have hfloor : (whole.map (Int.cast : ℤ → ℚ)).map Int.floor = whole := by simp [Box.map]
    rw [hfloor]
    exact ⟨hfits, rfl⟩
  · rintro ⟨hfits, heq⟩
    exact ⟨_, hfits, heq⟩

instance (b : Box ℚ) : Decidable (WholeBox b) := decidable_of_iff _ wholeBox_iff.symm

/-- One of the two strips of the cross that `subtractRounded` takes out of a region has the
pixel. -/
def CutCross (c : RegionCut) (b : Box ℚ) (r : ℤ) (p : Point) : Prop :=
  let r : ℚ := clampRound b r
  p ∈ c.cut { x := b.x + r, y := b.y, w := b.w - 2 * r, h := b.h }
    ∨ p ∈ c.cut { x := b.x, y := b.y + r, w := b.w, h := b.h - 2 * r }

section Whole

variable {b : Box ℚ} {q : Vec}

theorem clampRound_nonneg (b : Box ℚ) (r : ℤ) : 0 ≤ clampRound b r := le_max_left ..

/-- The cross is the two strips. -/
theorem inCross_iff {r : ℤ} :
    InCross b r q ↔
      q ∈ ({ x := b.x + clampRound b r, y := b.y, w := b.w - 2 * clampRound b r, h := b.h } : Box ℚ)
      ∨ q ∈ ({ x := b.x, y := b.y + clampRound b r, w := b.w, h := b.h - 2 * clampRound b r } :
        Box ℚ) := by
  have hr : (0 : ℚ) ≤ clampRound b r := by exact_mod_cast clampRound_nonneg b r
  rw [InCross, Box.mem_def, Box.mem_def, Box.mem_def]
  dsimp only
  constructor
  · rintro ⟨⟨⟨h1, h2⟩, h3, h4⟩, ⟨h5, h6⟩ | ⟨h5, h6⟩⟩
    · exact .inl ⟨⟨h5, by linarith⟩, h3, h4⟩
    · exact .inr ⟨⟨h1, h2⟩, h5, by linarith⟩
  · rintro (⟨⟨h1, h2⟩, h3, h4⟩ | ⟨⟨h1, h2⟩, h3, h4⟩)
    · exact ⟨⟨⟨by linarith, by linarith⟩, h3, h4⟩, .inl ⟨h1, by linarith⟩⟩
    · exact ⟨⟨⟨h1, h2⟩, by linarith, by linarith⟩, .inr ⟨h3, by linarith⟩⟩

/-- Without rounding the cross is the whole box. -/
theorem inCross_zero : InCross b 0 q ↔ q ∈ b := by
  have hzero : clampRound b 0 = 0 := max_eq_left (min_le_left ..)
  rw [InCross, hzero, and_iff_left_iff_imp, Box.mem_def]
  intro h
  left
  simpa using h.1

/-- A pixel is in a box of whole pixels exactly when its centre is. -/
theorem centre_mem_map {whole : Box ℤ} {p : Point} :
    centre p ∈ whole.map (Int.cast : ℤ → ℚ) ↔ p ∈ whole := by
  -- no whole number is between `t` and `t + 1 / 2`
  have hle : ∀ a t : ℤ, (a : ℚ) ≤ t + 1 / 2 ↔ a ≤ t := by
    intro a t
    constructor
    · intro h
      have hlt : (a : ℚ) < (t + 1 : ℤ) := by
        push_cast
        linarith
      exact Int.lt_add_one_iff.1 (Int.cast_lt.1 hlt)
    · intro h
      have hcast : (a : ℚ) ≤ t := Int.cast_le.2 h
      linarith
  have hlt : ∀ a d t : ℤ, (t : ℚ) + 1 / 2 < a + d ↔ t < a + d := by
    intro a d t
    rw [← not_le, ← not_le, not_iff_not]
    exact_mod_cast hle (a + d) t
  rw [Box.mem_def, Box.mem_def]
  exact and_congr (and_congr (hle _ _) (hlt _ _ _)) (and_congr (hle _ _) (hlt _ _ _))

theorem WholeBox.mem_cut (h : WholeBox b) (c : RegionCut) (p : Point) :
    p ∈ c.cut b ↔ centre p ∈ b := by
  obtain ⟨whole, hfits, rfl⟩ := h
  rw [c.cut_whole whole hfits, centre_mem_map]

/-- The corner squares fit into a box of whole pixels. -/
theorem two_clampRound_le {whole : Box ℤ} (hfits : FitsInt32 whole) (r : ℤ) :
    2 * clampRound (whole.map (Int.cast : ℤ → ℚ)) r ≤ whole.w
      ∧ 2 * clampRound (whole.map (Int.cast : ℤ → ℚ)) r ≤ whole.h := by
  obtain ⟨hw, hh, -⟩ := hfits
  set half : ℚ := min (whole.w : ℚ) whole.h / 2 with hhalf
  have hmin : (0 : ℚ) ≤ min (whole.w : ℚ) whole.h := le_min (by exact_mod_cast hw) (by exact_mod_cast hh)
  have hclamp : clampRound (whole.map (Int.cast : ℤ → ℚ)) r ≤ ⌊half⌋ :=
    max_le (Int.floor_nonneg.2 (by linarith)) (min_le_right _ _)
  have hcast : (clampRound (whole.map (Int.cast : ℤ → ℚ)) r : ℚ) ≤ half :=
    (Int.cast_le.2 hclamp).trans (Int.floor_le half)
  have hw' := min_le_left (whole.w : ℚ) whole.h
  have hh' := min_le_right (whole.w : ℚ) whole.h
  constructor
  · exact_mod_cast (by linarith : 2 * (clampRound (whole.map (Int.cast : ℤ → ℚ)) r : ℚ) ≤ whole.w)
  · exact_mod_cast (by linarith : 2 * (clampRound (whole.map (Int.cast : ℤ → ℚ)) r : ℚ) ≤ whole.h)

/-- So are the strips of the cross. -/
theorem WholeBox.strips (h : WholeBox b) (r : ℤ) :
    WholeBox { x := b.x + clampRound b r, y := b.y, w := b.w - 2 * clampRound b r, h := b.h }
      ∧ WholeBox { x := b.x, y := b.y + clampRound b r, w := b.w, h := b.h - 2 * clampRound b r } := by
  obtain ⟨whole, hfits, rfl⟩ := h
  -- the radius is at most half of each side, so the strips have sides again
  obtain ⟨hw, hh⟩ := two_clampRound_le hfits r
  have hr := clampRound_nonneg (whole.map (Int.cast : ℤ → ℚ)) r
  unfold FitsInt32 at hfits
  generalize clampRound (whole.map (Int.cast : ℤ → ℚ)) r = k at hw hh hr ⊢
  constructor
  · refine ⟨{ x := whole.x + k, y := whole.y, w := whole.w - 2 * k, h := whole.h }, ?_, ?_⟩
    · unfold FitsInt32
      dsimp only
      omega
    · simp [Box.map]
  · refine ⟨{ x := whole.x, y := whole.y + k, w := whole.w, h := whole.h - 2 * k }, ?_, ?_⟩
    · unfold FitsInt32
      dsimp only
      omega
    · simp [Box.map]

theorem WholeBox.cutCross_iff (h : WholeBox b) (c : RegionCut) (r : ℤ) (p : Point) :
    CutCross c b r p ↔ InCross b r (centre p) := by
  obtain ⟨hacross, hdown⟩ := h.strips r
  rw [inCross_iff, ← hacross.mem_cut c p, ← hdown.mem_cut c p]
  rfl

end Whole

/-! ### Regions -/

section Region

variable {c : RegionCut} {p : Point}

theorem mem_subtractRounded {region : Region ℤ} {b : Box ℚ} {r : ℤ} :
    p ∈ subtractRounded c region b r ↔ p ∈ region ∧ ¬ CutCross c b r p := by
  unfold subtractRounded CutCross
  dsimp only
  rw [Region.mem_subtractBox, Region.mem_subtractBox, and_assoc, not_or]

/-- What `subtractAbove` leaves: the pixels in no cross of an opaque window above. -/
theorem mem_subtractAbove {v : Visible} :
    ∀ (visible : List Visible) (region : Region ℤ),
      p ∈ subtractAbove c visible v region
        ↔ p ∈ region ∧ ∀ o ∈ visible, Hides o v → ¬ CutCross c o.geo.box o.geo.round p
  | [], region => by simp [subtractAbove]
  | o :: visible, region => by
    have ih := mem_subtractAbove (v := v) visible
    -- by induction on the windows, each one cuts its own shape out
    unfold subtractAbove at ih ⊢
    rw [List.foldl_cons, ih, List.forall_mem_cons]
    by_cases ho : Hides o v
    · obtain ⟨h1, h2, h3⟩ := ho
      simp [Hides, h1, h2, h3, mem_subtractRounded, and_assoc]
    -- a window that hides nothing of `v` is skipped
    · have hskip : (isAbove o v && o.geo.opaque_ && !o.gone) = false := by
        rw [← Bool.not_eq_true]
        intro h
        simp only [Bool.and_eq_true, Bool.not_eq_true'] at h
        exact ho ⟨h.1.1, h.1.2, h.2⟩
      simp [hskip, ho]

theorem mem_visibleRegion {visible : List Visible} {v : Visible} :
    p ∈ visibleRegion c visible v
      ↔ p ∈ c.cut v.geo.box ∧ ∀ o ∈ visible, Hides o v → ¬ CutCross c o.geo.box o.geo.round p := by
  rw [visibleRegion, mem_subtractAbove, Region.mem_ofBox]

end Region

/-! ### Where the cover is drawn -/

section Cover

variable {c : CornerRounding} {fr : CaptureFrame} {inp : PaintInput} {v : Visible} {p : Point}

/-- The radius that the paint pass goes by is the picture's only where the whole monitor is
captured. -/
theorem geo_round (hv : v ∈ visibleWindows fr inp) :
    v.geo.round = if fr.capturePos = 0 then pictureRound fr.mon v.w else 0 := by
  obtain ⟨-, -, hround, -⟩ := windowGeo_spec (mem_visibleWindows hv).2
  rw [hround, pictureRound]
  by_cases hpos : fr.capturePos = 0
  · simp [hpos]
  · rw [if_pos (.inl hpos), if_neg hpos]

/-- The cover's area is the visible region. -/
theorem cover_mem_iff (s : Shim) (hv : HiddenShown fr inp v) :
    (∃ op, .cover op ∈ (s.paintCovers fr inp).2 ∧ op.subject = .window v.w.key ∧ p ∈ op.area)
      ↔ p ∈ visibleRegion fr.region (visibleWindows fr inp) v := by
  obtain ⟨hmem, hrules, hgone⟩ := hv
  -- the window has one cover, with the clip `visibleRegion`
  obtain ⟨rules, hrules⟩ := Option.isSome_iff_exists.1 hrules
  have hiff := cover_window_iff s hmem hrules hgone
  constructor
  · rintro ⟨op, hop, hsubject, hp⟩
    obtain ⟨hempty, rfl⟩ := (hiff op).1 ⟨hop, hsubject⟩
    simpa [Visible.coverOp, coverArea, hempty] using hp
  · intro hp
    -- a clip with a pixel in it is not empty, so the cover is drawn
    have hempty : (visibleRegion fr.region (visibleWindows fr inp) v).isEmpty = false := by
      rw [← Bool.not_eq_true]
      intro hempty
      exact Region.isEmpty_iff.1 hempty p hp
    obtain ⟨hop, hsubject⟩ := (hiff _).2 ⟨hempty, rfl⟩
    exact ⟨_, hop, hsubject, by simpa [Visible.coverOp, coverArea, hempty] using hp⟩

/-- `CRegion` makes the pixel one of the window's, and one of no cross of an opaque window above.
The cross goes by the radius in the picture where the whole monitor is captured, and is the whole
box elsewhere. -/
def PixelKept (fr : CaptureFrame) (inp : PaintInput) (v : Visible) (p : Point) : Prop :=
  p ∈ fr.region.cut v.geo.box ∧ ∀ o ∈ visibleWindows fr inp, Hides o v →
    ¬ CutCross fr.region o.geo.box (if fr.capturePos = 0 then pictureRound fr.mon o.w else 0) p

theorem mem_visibleRegion_iff_kept :
    p ∈ visibleRegion fr.region (visibleWindows fr inp) v ↔ PixelKept fr inp v p := by
  rw [mem_visibleRegion]
  refine and_congr_right fun _ => forall₃_congr fun o ho _ => ?_
  rw [geo_round ho]

/-- With boxes of whole pixels an exposed pixel is kept exactly when the whole monitor is captured,
or when it is in no box of an opaque window above, which is to say not in one of its rounded
corners. -/
theorem kept_iff_of_whole (hwhole : ∀ v ∈ visibleWindows fr inp, WholeBox v.geo.box)
    (hv : v ∈ visibleWindows fr inp) (hp : Exposed c fr inp v (centre p)) :
    PixelKept fr inp v p
      ↔ fr.capturePos = 0 ∨ ∀ o ∈ visibleWindows fr inp, Hides o v → centre p ∉ o.geo.box := by
  constructor
  · rintro ⟨-, hcross⟩
    -- in a region capture the corners are not rounded, and the whole box is cut out
    by_cases hpos : fr.capturePos = 0
    · exact .inl hpos
    · refine .inr fun o ho hhides hbox => hcross o ho hhides ?_
      rw [if_neg hpos, (hwhole o ho).cutCross_iff, inCross_zero]
      exact hbox
  · intro hcond
    -- the pixel is in the clip, and the windows above leave it
    refine ⟨((hwhole v hv).mem_cut _ _).2 (c.subset_box _ _ _ _ hp.inside), fun o ho hhides hcross => ?_⟩
    rw [(hwhole o ho).cutCross_iff] at hcross
    rcases hcond with hpos | hcond
    · -- the cross is part of the picture's shape
      rw [if_pos hpos] at hcross
      have hshape := c.cross_subset _ _ (if o.w.fullscreenMode then 2 else o.w.roundingPower) _ hcross
      exact Bool.false_ne_true ((hp.notHidden o ho hhides).symm.trans hshape)
    · exact hcond o ho hhides hcross.1

end Cover

/-- **Exposed pixels are painted** exactly when `CRegion` keeps them: it makes them the window's, and
puts them into no cross of an opaque window above.  With boxes of whole pixels that is to say that
the capture starts at the monitor's corner, or that no pixel of a hidden window shows within the box
of an opaque window above it, through one of that window's rounded corners. -/
theorem paintsExposed_iff (c : CornerRounding) (s : Shim) (fr : CaptureFrame) (inp : PaintInput) :
    (PaintsExposed c s fr inp
        ↔ ∀ v, HiddenShown fr inp v → ∀ p, Exposed c fr inp v (centre p) → PixelKept fr inp v p)
      ∧ ((∀ v ∈ visibleWindows fr inp, WholeBox v.geo.box) →
        (PaintsExposed c s fr inp
          ↔ fr.capturePos = 0 ∨ ∀ v, HiddenShown fr inp v → ∀ p, Exposed c fr inp v (centre p) →
            ∀ o ∈ visibleWindows fr inp, Hides o v → centre p ∉ o.geo.box)) := by
  -- each pixel of the cover is one of the clip
  have hkept : PaintsExposed c s fr inp
      ↔ ∀ v, HiddenShown fr inp v → ∀ p, Exposed c fr inp v (centre p) → PixelKept fr inp v p :=
    forall₄_congr fun v hv p hp => (cover_mem_iff s hv).trans mem_visibleRegion_iff_kept
  refine ⟨hkept, fun hwhole => hkept.trans ?_⟩
  -- without a region capture every exposed pixel is kept
  by_cases hpos : fr.capturePos = 0
  · refine iff_of_true (fun v hv p hp => ?_) (.inl hpos)
    exact (kept_iff_of_whole hwhole hv.1 hp).2 (.inl hpos)
  · rw [or_iff_right hpos]
    refine forall₄_congr fun v hv p hp => ?_
    rw [kept_iff_of_whole hwhole hv.1 hp, or_iff_right hpos]

/-! ### A window with rounded corners over a hidden one -/

/-- How far a point is inside the corner squares of side `r`, from the side `a` to the side `b`. -/
def cornerDist (a b r t : ℚ) : ℚ := max (a + r - t) (t - (b - r))

/-- Corners cut by a quarter of a circle, as with a power of two. -/
def CornerRounding.circle : CornerRounding where
  shape b r _ q := q ∈ b ∧ (cornerDist b.x (b.x + b.w) (clampRound b r) q.1 ≤ 0
    ∨ cornerDist b.y (b.y + b.h) (clampRound b r) q.2 ≤ 0
    ∨ cornerDist b.x (b.x + b.w) (clampRound b r) q.1 ^ 2
      + cornerDist b.y (b.y + b.h) (clampRound b r) q.2 ^ 2 ≤ (clampRound b r : ℚ) ^ 2)
  subset_box _ _ _ _ h := (of_decide_eq_true h).1
  cross_subset b r _ q h := by
    refine decide_eq_true ⟨h.1, ?_⟩
    rcases h.2 with ⟨h1, h2⟩ | ⟨h1, h2⟩
    · exact .inl (max_le (by linarith) (by linarith))
    · exact .inr (.inl (max_le (by linarith) (by linarith)))

/-- The usual filters, and corners cut by circles. -/
def exampleRenderer : Renderer :=
  { linear := .bilinear, nearest := .closest, corners := .circle }

/-- A hidden window, and a floating one over its corner. -/
def exampleBelow : Window := { exampleWindow with rounding := 0 }

def exampleAbove : Window :=
  { exampleWindow with key := 2, floating := true, position := (50, 50) }

/-- A capture of the region that starts at (10, 10). -/
def exampleOverlap : CaptureFrame :=
  { exampleFrame "/bin/portal" true with
    capturePos := (10, 10)
    desktop :=
      { windows := [exampleBelow, exampleAbove], layers := [], fadeouts := [], monitors := [0]
        vars := fun k => { top := none, lower := [some (k = 1)] }, nodup := by decide }
    mon_mem := exampleMonitor_mem }

/-- What the first frame of the shim hands to its paint pass. -/
def exampleInput : PaintInput := Shim.init.paintInput exampleOverlap 0

def exampleGeo (pos : Vec) (layer : ℕ) : WinGeo :=
  { pos, size := (100, 100), box := { x := pos.1 - 10, y := pos.2 - 10, w := 100, h := 100 }
    round := 0, roundingPower := 2, layer, opaque_ := true }

def exampleHidden : Visible :=
  { w := exampleBelow, geo := exampleGeo 0 0, rules := some exampleRules, gone := false, index := 0 }

def exampleOpaque : Visible :=
  { w := exampleAbove, geo := exampleGeo (50, 50) 1, rules := none, gone := false, index := 1 }

section Overlap

variable {fr : CaptureFrame} {inp : PaintInput}

/-- What a capture of that region has on screen, when the window below is covered as usual. -/
theorem visibleWindows_overlap (hdesktop : fr.desktop = exampleOverlap.desktop)
    (hmon : fr.mon = exampleMonitor) (hpos : fr.capturePos = (10, 10))
    (hvars : noScreenShare inp.vars 1 = true ∧ noScreenShare inp.vars 2 = false)
    (hheld : inp.held = []) (hleft : inp.left = false) :
    visibleWindows fr inp = [exampleHidden, exampleOpaque] := by
  -- both windows are in the picture, one half over the other
  have hbelow : windowGeo exampleBelow fr.mon fr.capturePos = some (exampleGeo 0 0) := by
    rw [hmon, hpos]
    decide +kernel
  have habove : windowGeo exampleAbove fr.mon fr.capturePos = some (exampleGeo (50, 50) 1) := by
    rw [hmon, hpos]
    decide +kernel
  -- the one below is hidden by the rules
  have hbelow' : visibleWindow fr inp exampleBelow
      = some fun index => { exampleHidden with index } := by
    refine (congrArg (Option.map _) hbelow).trans (congrArg some (funext fun index => ?_))
    rw [show noScreenShare inp.vars exampleBelow.key = true from hvars.1, hleft, PaintInput.rulesOf,
      hheld]
    rfl
  -- the one above is shown as it is
  have habove' : visibleWindow fr inp exampleAbove
      = some fun index => { exampleOpaque with index } := by
    refine (congrArg (Option.map _) habove).trans (congrArg some (funext fun index => ?_))
    rw [show noScreenShare inp.vars exampleAbove.key = false from hvars.2]
    rfl
  unfold visibleWindows
  rw [hdesktop]
  change ([exampleBelow, exampleAbove].filterMap (visibleWindow fr inp)).zipIdx.map _ = _
  rw [List.filterMap_cons_some hbelow', List.filterMap_cons_some habove']
  rfl

/-- The window below shows where the window above it has its rounded corner. -/
theorem exposed_overlap (hmon : fr.mon = exampleMonitor)
    (hvisible : visibleWindows fr inp = [exampleHidden, exampleOpaque]) {q : Vec}
    (hin : q ∈ exampleHidden.geo.box)
    (hcorner : CornerRounding.circle.picture exampleMonitor exampleOpaque q = false) :
    Exposed .circle fr inp exampleHidden q := by
  constructor
  · have hround : pictureRound exampleMonitor exampleHidden.w = 0 := by decide +kernel
    refine CornerRounding.circle.cross_subset _ _ _ _ ?_
    rw [hmon, hround, inCross_zero]
    exact hin
  · rw [hvisible, hmon]
    intro o ho hhides
    simp only [List.mem_cons, List.not_mem_nil, or_false] at ho
    rcases ho with rfl | rfl
    · exact absurd hhides.1 (by decide)
    · exact hcorner

end Overlap

theorem visibleWindows_exampleOverlap :
    visibleWindows exampleOverlap exampleInput = [exampleHidden, exampleOpaque] :=
  visibleWindows_overlap rfl rfl rfl (by decide +kernel) (by decide +kernel) (by decide +kernel)

/-- The hidden window shows in the corner of the window above it, where its cover is not drawn. -/
theorem corner_of_region_capture_unpainted :
    HiddenShown exampleOverlap exampleInput exampleHidden
      ∧ Exposed .circle exampleOverlap exampleInput exampleHidden (centre (41, 41))
      ∧ ¬ PaintsExposed .circle Shim.init exampleOverlap exampleInput := by
  have hvisible := visibleWindows_exampleOverlap
  have hhidden : HiddenShown exampleOverlap exampleInput exampleHidden := by
    refine ⟨?_, rfl, rfl⟩
    rw [hvisible]
    exact List.mem_cons_self ..
  have hexposed : Exposed .circle exampleOverlap exampleInput exampleHidden (centre (41, 41)) :=
    exposed_overlap rfl hvisible (by decide +kernel) (by decide +kernel)
  refine ⟨hhidden, hexposed, fun hpaints => ?_⟩
  have hregion := (cover_mem_iff Shim.init hhidden).1 (hpaints _ hhidden _ hexposed)
  rw [hvisible] at hregion
  revert hregion
  decide +kernel

end NoshareCover
