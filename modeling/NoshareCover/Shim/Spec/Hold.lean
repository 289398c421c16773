import NoshareCover.Shim.Spec.Entry

/-!
# The hold after a surface stops being hidden

The hold is counted from the last frame that covered the hidden surface, not from the moment it
stops being hidden.  `hold_covers_iff` says when it still covers what the user asked for.
-/

namespace NoshareCover

open Machine

/-! ### One frame and the entry -/

section Frame

variable {fr : CaptureFrame} {k : Key} {g : Sight} {now : Instant} {last : LastCover}

/-- The frame covers the hidden surface. -/
def CaptureFrame.CoversHidden (fr : CaptureFrame) (k : Key) (g : Sight) : Prop :=
  fr.sight? k = some g ∧ g.hidden = true ∧ fr.client.sees g.rules = false
    ∧ g.onScreen.isSome = true

/-- Whatever the frame finds, it does not cover it as a hidden surface. -/
def CaptureFrame.NeverHides (fr : CaptureFrame) (k : Key) : Prop := ∀ g, ¬ fr.CoversHidden k g

/-- The surface is not hidden, but still there and on screen. -/
def CaptureFrame.FindsOpen (fr : CaptureFrame) (k : Key) : Prop :=
  ∃ g, fr.sight? k = some g ∧ g.hidden = false ∧ g.present = true ∧ g.onScreen.isSome = true

theorem CaptureFrame.FindsOpen.neverHides (h : fr.FindsOpen k) : fr.NeverHides k := by
  rintro g' ⟨hsight', hhidden, -⟩
  obtain ⟨g, hsight, hopen, -⟩ := h
  rw [hsight, Option.some.injEq] at hsight'
  subst hsight'
  rw [hopen] at hhidden
  cases hhidden

/-- A frame that covers the hidden surface remembers it, whatever was remembered before. -/
theorem entryStep_coversHidden (now : Instant) (h : fr.CoversHidden k g) (entry : Option LastCover) :
    ∃ f, g.onScreen = some f ∧ entryStep fr now k entry = (some (f g.rules now), true) := by
  obtain ⟨hsight, hhidden, hsees, hscreen⟩ := h
  obtain ⟨f, hf⟩ := Option.isSome_iff_exists.1 hscreen
  obtain ⟨hmon, -, -⟩ := CaptureFrame.onScreen_spec hsight hf g.rules now
  have hheld : g.held fr now entry = false := by simp [Sight.held, hhidden]
  have hcovered : g.covered fr now entry = true := by
    simp [Sight.covered, Sight.shut, hhidden, hsees, hf]
  refine ⟨f, hf, ?_⟩
  rw [entryStep, hsight]
  simp [hcovered, hheld, hf, keepEntry, hmon, fr.mon_mem]

/-- The frame keeps what is remembered of a surface with rules `r` that was last covered at `t₀`
and is held for `h`: it shows the hidden surface to its client as it is, or it holds it. -/
def CaptureFrame.Keeps (fr : CaptureFrame) (now : Instant) (k : Key) (r : RuleValues)
    (t₀ : Instant) (h : ℕ) : Prop :=
  ∃ g, fr.sight? k = some g
    ∧ ((g.hidden = true ∧ fr.client.sees g.rules = true)
      ∨ (g.hidden = false ∧ g.present = true ∧ g.onScreen.isSome = true
        ∧ fr.client.sees r = false ∧ now < t₀ + h))

/-- Where a surface is not covered as hidden, only a hold covers it. -/
theorem covered_eq_held (now : Instant) (hsight : fr.sight? k = some g) (hnever : fr.NeverHides k)
    (entry : Option LastCover) :
    g.covered fr now entry = (g.held fr now entry && g.onScreen.isSome) := by
  have hnot : (g.hidden && !fr.client.sees g.rules && g.onScreen.isSome) = false := by
    rw [← Bool.not_eq_true]
    intro h
    simp only [Bool.and_eq_true, Bool.not_eq_true'] at h
    exact hnever g ⟨hsight, h.1.1, h.1.2, h.2⟩
  rw [Sight.covered, Sight.shut, Bool.and_or_distrib_right, hnot, Bool.false_or]

/-- A frame on the entry's monitor that does not cover the surface as hidden keeps the entry or
forgets it. -/
theorem entryStep_neverHides (hnever : fr.NeverHides k) (hmon : last.mon = fr.mon.id) :
    (fr.Keeps now k last.rules last.at_ (holdFor fr.cfg last.rules) →
        (entryStep fr now k (some last)).1 = some last)
      ∧ (¬ fr.Keeps now k last.rules last.at_ (holdFor fr.cfg last.rules) →
        (entryStep fr now k (some last)).1 = none) := by
  have hkeep : ∀ seen, keepEntry fr seen last = seen := by
    intro seen
    simp [keepEntry, hmon, fr.mon_mem]
  cases hsight : fr.sight? k with
  | none =>
    constructor
    · rintro ⟨g, hg, -⟩
      rw [hsight] at hg
      cases hg
    · intro _
      simp [entryStep, hsight, Option.filter, hkeep]
  | some g =>
    have hcovered := covered_eq_held now hsight hnever (some last)
    have hkeeps : fr.Keeps now k last.rules last.at_ (holdFor fr.cfg last.rules)
        ↔ (g.covered fr now (some last) || g.revealed fr) = true := by
      rw [hcovered, Sight.held, Sight.revealed, Option.any_some, LastCover.holds]
      constructor
      · rintro ⟨g', hg', h⟩
        rw [hsight, Option.some.injEq] at hg'
        subst hg'
        rcases h with ⟨h1, h2⟩ | ⟨h1, h2, h3, h4, h5⟩
        · simp [h1, h2]
        · simp [h1, h2, h3, h4, h5]
      · intro h
        refine ⟨g, hsight, ?_⟩
        simp only [Bool.or_eq_true, Bool.and_eq_true, Bool.not_eq_true',
          decide_eq_true_eq] at h
        tauto
    have hstep : (entryStep fr now k (some last)).1
        = (some last).filter (keepEntry fr (g.covered fr now (some last) || g.revealed fr)) := by
      rw [entryStep, hsight]
      -- a covered surface is held here, so its entry is not written
      have : (g.covered fr now (some last) && !g.held fr now (some last)) = false := by
        rw [hcovered]
        cases g.held fr now (some last) <;> simp
      simp [this]
    rw [hkeeps, hstep]
    constructor
    · intro h
      rw [h]
      simp [Option.filter, hkeep]
    · intro h
      rw [Bool.not_eq_true] at h
      rw [h]
      simp [Option.filter, hkeep]

/-- What is forgotten stays forgotten until the surface is covered as hidden again. -/
theorem entryStep_none (hnever : fr.NeverHides k) : (entryStep fr now k none).1 = none := by
  cases hsight : fr.sight? k with
  | none => simp [entryStep, hsight]
  | some g =>
    have hcovered := covered_eq_held now hsight hnever none
    have hheld : g.held fr now none = false := by simp [Sight.held]
    rw [entryStep, hsight]
    simp [hcovered, hheld]

/-- A surface that is not hidden any more is covered while its entry's hold is running. -/
theorem entryStep_findsOpen (hopen : fr.FindsOpen k) (entry : Option LastCover) :
    (entryStep fr now k entry).2 = entry.any fun last => last.holds fr.cfg fr.client now := by
  obtain ⟨g, hsight, hhidden, hpresent, hscreen⟩ := id hopen
  have hcovered := covered_eq_held now hsight hopen.neverHides entry
  rw [entryStep, hsight]
  simp [hcovered, Sight.held, hhidden, hpresent, hscreen]

end Frame

/-! ### Frames one after the other -/

/-- The frame of the run, at the time at which it is rendered, keeps what is remembered. -/
def KeepsAt (k : Key) (r : RuleValues) (t₀ : Instant) (h : ℕ) (s : World) : ShimEvent → Prop
  | .frame fr => fr.Keeps s.now k r t₀ h
  | _ => True

/-- An event between the last frame that covered the hidden surface and the frames in question:
the capture is of the monitor `m`, the surface has the hold `h`, and it does not close. -/
structure QuietEvent (k : Key) (m : MonitorId) (r : RuleValues) (h : ℕ) (e : ShimEvent) : Prop where
  mon : ∀ fr, e = .frame fr → fr.mon.id = m
  hold : ∀ fr, e = .frame fr → holdFor fr.cfg r = h
  never : ∀ fr, e = .frame fr → fr.NeverHides k
  stays : e.erases k = false

section Run

variable {k : Key} {m : MonitorId} {r : RuleValues} {t₀ : Instant} {h : ℕ}

/-- One quiet event keeps the entry or forgets it. -/
theorem entry_step_quiet {s : World} {e : ShimEvent} (he : QuietEvent k m r h e) {last : LastCover}
    (hlast : last.mon = m ∧ last.rules = r ∧ last.at_ = t₀) (hentry : s.entry k = some last) :
    (KeepsAt k r t₀ h s e → (s.step e).1.entry k = some last)
      ∧ (¬ KeepsAt k r t₀ h s e → (s.step e).1.entry k = none) := by
  obtain ⟨rfl, rfl, rfl⟩ := hlast
  by_cases hframe : ∃ fr, e = .frame fr
  · obtain ⟨fr, rfl⟩ := hframe
    rw [World.entry_frame, hentry, KeepsAt, ← he.hold fr rfl]
    exact entryStep_neverHides (he.never fr rfl) (he.mon fr rfl).symm
  · have hstep := s.entry_step e k fun fr h => hframe ⟨fr, h⟩
    rw [he.stays] at hstep
    have hkeeps : KeepsAt k last.rules last.at_ h s e := by
      cases e with
      | frame fr => exact absurd ⟨fr, rfl⟩ hframe
      | _ => trivial
    exact ⟨fun _ => by rw [hstep]; exact hentry, fun hnot => absurd hkeeps hnot⟩

theorem entry_step_quiet_none {s : World} {e : ShimEvent} (he : QuietEvent k m r h e)
    (hentry : s.entry k = none) : (s.step e).1.entry k = none := by
  by_cases hframe : ∃ fr, e = .frame fr
  · obtain ⟨fr, rfl⟩ := hframe
    rw [World.entry_frame, hentry]
    exact entryStep_none (he.never fr rfl)
  · rw [s.entry_step e k fun fr h => hframe ⟨fr, h⟩, hentry]
    simp

/-- The entry outlives a run of quiet events exactly when every frame of it keeps it. -/
theorem entry_run_quiet {last : LastCover}
    (hlast : last.mon = m ∧ last.rules = r ∧ last.at_ = t₀) :
    ∀ (es : List ShimEvent) (s : World), (∀ e ∈ es, QuietEvent k m r h e) →
      s.entry k = some last →
      (Admits World.step (KeepsAt k r t₀ h) s es → (run World.step s es).entry k = some last)
        ∧ (¬ Admits World.step (KeepsAt k r t₀ h) s es → (run World.step s es).entry k = none)
  | [], s, _, hentry => ⟨fun _ => hentry, fun hnot => absurd trivial hnot⟩
  | e :: es, s, hes, hentry => by
    -- by induction on the events, as long as they keep the entry
    have hquiet := hes e (List.mem_cons_self ..)
    have hrest : ∀ e ∈ es, QuietEvent k m r h e := fun e he => hes e (List.mem_cons_of_mem _ he)
    obtain ⟨hkeep, hforget⟩ := entry_step_quiet hquiet hlast hentry
    rw [run_cons, admits_cons]
    by_cases hk : KeepsAt k r t₀ h s e
    · simpa [hk] using entry_run_quiet hlast es _ hrest (hkeep hk)
    -- dropped once, it does not come back in a quiet run
    · have hnone : (run World.step (s.step e).1 es).entry k = none := by
        have hadmits : Admits World.step (fun _ e => QuietEvent k m r h e) (s.step e).1 es :=
          admits_of_forall fun _ e he => hrest e he
        exact Admits.invariant (I := fun s => s.entry k = none)
          (fun s e hs he => entry_step_quiet_none he hs) (hforget hk) hadmits
      simp [hk, hnone]

end Run

/-- A frame that finds the surface open, after quiet events, covers it exactly when all of them
kept the entry and its hold is still running. -/
theorem covers_after_quiet {k : Key} {m : MonitorId} {r : RuleValues} {h : ℕ} {g : Sight}
    (s : World) (p₀ : CaptureFrame) (hp₀ : p₀.CoversHidden k g) (hm : p₀.mon.id = m)
    (hr : g.rules = r) {es : List ShimEvent} (hes : ∀ e ∈ es, QuietEvent k m r h e)
    {fr : CaptureFrame} (hopen : fr.FindsOpen k) (hh : holdFor fr.cfg r = h)
    (hsees : fr.client.sees r = false) :
    coversSurface ((run World.step (s.step (.frame p₀)).1 es).step (.frame fr)).2 k = true
      ↔ (run World.step (s.step (.frame p₀)).1 es).now < s.now + h
        ∧ Admits World.step (KeepsAt k r s.now h) (s.step (.frame p₀)).1 es := by
  -- the first frame writes the entry, with its rules and its time
  obtain ⟨f, hf, hstep⟩ := entryStep_coversHidden s.now hp₀ (s.entry k)
  obtain ⟨hmon, hrules, hat⟩ := CaptureFrame.onScreen_spec hp₀.1 hf g.rules s.now
  have hentry : (s.step (.frame p₀)).1.entry k = some (f g.rules s.now) := by
    rw [World.entry_frame, hstep]
  obtain ⟨hkept, hforgotten⟩ := entry_run_quiet ⟨hmon.trans hm, hrules.trans hr, hat⟩ es _ hes
    hentry
  rw [World.covers_frame, entryStep_findsOpen hopen]
  -- kept or dropped, which is all that a later frame can read
  by_cases hadmits : Admits World.step (KeepsAt k r s.now h) (s.step (.frame p₀)).1 es
  · rw [hkept hadmits, Option.any_some, LastCover.holds, hrules, hat, hr, hh, hsees]
    simp [hadmits]
  · rw [hforgotten hadmits]
    simp [hadmits]

/-- **When the hold covers the time after a surface stops being hidden**: let `p₀` be the last
frame that covered the hidden surface, `before` what happens until the surface stops being hidden,
and `after` what follows.  Every frame less than the hold after that moment covers the surface, for
clients that don't see it, exactly when each such frame also comes less than the hold after `p₀`,
and no frame in between forgot the surface. -/
theorem hold_covers_iff {k : Key} {m : MonitorId} {r : RuleValues} {h : ℕ} {g : Sight}
    (s : World) (p₀ : CaptureFrame) (before after : List ShimEvent)
    (hp₀ : p₀.CoversHidden k g) (hm : p₀.mon.id = m) (hr : g.rules = r)
    (hbefore : ∀ e ∈ before, QuietEvent k m r h e) (hafter : ∀ e ∈ after, QuietEvent k m r h e)
    (hopen : ∀ fr, .frame fr ∈ after → fr.FindsOpen k) :
    (∀ pre fr post, after = pre ++ .frame fr :: post → fr.client.sees r = false →
        (run World.step (s.step (.frame p₀)).1 (before ++ pre)).now
          < (run World.step (s.step (.frame p₀)).1 before).now + h →
        coversSurface
          ((run World.step (s.step (.frame p₀)).1 (before ++ pre)).step (.frame fr)).2 k = true)
      ↔ ∀ pre fr post, after = pre ++ .frame fr :: post → fr.client.sees r = false →
        (run World.step (s.step (.frame p₀)).1 (before ++ pre)).now
          < (run World.step (s.step (.frame p₀)).1 before).now + h →
        (run World.step (s.step (.frame p₀)).1 (before ++ pre)).now < s.now + h
          ∧ Admits World.step (KeepsAt k r s.now h) (s.step (.frame p₀)).1 (before ++ pre) := by
  -- each frame on its own covers if and only if the entry is still there and fresh
  have hiff : ∀ pre fr post, after = pre ++ .frame fr :: post → fr.client.sees r = false →
      (coversSurface
          ((run World.step (s.step (.frame p₀)).1 (before ++ pre)).step (.frame fr)).2 k = true
        ↔ (run World.step (s.step (.frame p₀)).1 (before ++ pre)).now < s.now + h
          ∧ Admits World.step (KeepsAt k r s.now h) (s.step (.frame p₀)).1 (before ++ pre)) := by
    intro pre fr post hpost hsees
    have hfr : ShimEvent.frame fr ∈ after := by simp [hpost]
    refine covers_after_quiet s p₀ hp₀ hm hr ?_ (hopen fr hfr) ((hafter _ hfr).hold fr rfl) hsees
    intro e he
    rcases List.mem_append.1 he with he | he
    · exact hbefore e he
    · exact hafter e (by simp [hpost, he])
  constructor
  · intro hall pre fr post hpost hsees hlt
    exact (hiff pre fr post hpost hsees).1 (hall pre fr post hpost hsees hlt)
  · intro hall pre fr post hpost hsees hlt
    exact (hiff pre fr post hpost hsees).2 (hall pre fr post hpost hsees hlt)

/-! ### A browser that changes its title -/

def exampleConfig : ShimConfig :=
  { pathCover := [], closeHold := 1000, showTo := "grim".toList, hideFrom := [] }

def exampleRules : RuleValues :=
  { path := none, speed := none, loop := none, hold := none, showTo := none, hideFrom := none }

def exampleMonitor : Monitor := { id := 0, position := 0, scale := 1, zoom := none }

def exampleWindow : Window :=
  { key := 1, ruled := true, rules := exampleRules, mapped := true, shouldRender := fun m => m = 0
    isHidden := false, hasWorkspace := true, alphaFade := 1, alphaFullscreen := 1, alphaLayout := 1
    pinned := false, renderOffset := none, position := 0, size := (100, 100), rounding := 10
    roundingPower := 2, monitor := some 0, floating := false, fullscreen := false
    fullscreenMode := false, fsWorkspace := false, overFullscreen := false, special := false
    opaque_ := true, x11 := true, popups := [], clientPos := 0 }

def exampleDesktop (hidden : Bool) : Desktop :=
  { windows := [exampleWindow], layers := [], fadeouts := [], monitors := [0]
    vars := fun _ => { top := none, lower := [some hidden] }, nodup := by simp }

theorem exampleMonitor_mem : exampleMonitor.id ∈ ([0] : List MonitorId) := List.mem_singleton_self _

/-- Without what is behind the point, as a number is converted to `int`. -/
def truncate (q : ℚ) : ℤ := if q < 0 then ⌈q⌉ else ⌊q⌋

/-- Cuts every number of a box by itself. -/
def RegionCut.truncating : RegionCut where
  cut b := b.map truncate
  cut_whole b _ := by
    have htruncate : ∀ i : ℤ, truncate i = i := by
      intro i
      unfold truncate
      rw [Int.ceil_intCast, Int.floor_intCast, ite_self]
    ext <;> exact htruncate _

/-- A capture of the whole monitor by the program `exe`. -/
def exampleFrame (exe : String) (hidden : Bool) : CaptureFrame :=
  { mon := exampleMonitor, capturePos := 0, proc := .exe exe.toList, resolvedPath := fun p => p
    cfg := exampleConfig, desktop := exampleDesktop hidden, sceneReady := true, animating := false
    extraRects := [], region := .truncating, order := id, mon_mem := exampleMonitor_mem }

/-- The title changes two seconds after the last frame, with a hold of one second: the next frame,
50 ms later, shows the old page. -/
theorem hold_over_before_title_changes :
    let s := (World.init.step (.frame (exampleFrame "/bin/portal" true))).1
    let s' := (s.step (.wait 2000000000)).1
    let s'' := (s'.step (.wait 50000000)).1
    coversSurface (World.init.step (.frame (exampleFrame "/bin/portal" true))).2 1 = true
      ∧ holdFor exampleConfig exampleRules = 1000000000
      ∧ (exampleFrame "/bin/portal" false).client.sees exampleRules = false
      ∧ s''.now < s'.now + 1000000000
      ∧ coversSurface (s''.step (.frame (exampleFrame "/bin/portal" false))).2 1 = false := by
  decide +kernel

theorem exampleWindow_onScreen (exe : String) (hidden : Bool) :
    (exampleWindow.sight (exampleFrame exe hidden)).onScreen.isSome = true := by
  have hgeo : (windowGeo exampleWindow exampleMonitor 0).isSome = true := by decide +kernel
  exact Option.isSome_map.trans hgeo

theorem exampleFrame_findsOpen (exe : String) : (exampleFrame exe false).FindsOpen 1 :=
  ⟨exampleWindow.sight (exampleFrame exe false), rfl, rfl, rfl, exampleWindow_onScreen exe false⟩

theorem exampleFrame_coversHidden :
    (exampleFrame "/bin/portal" true).CoversHidden 1
      (exampleWindow.sight (exampleFrame "/bin/portal" true)) :=
  ⟨rfl, rfl, by decide +kernel, exampleWindow_onScreen "/bin/portal" true⟩

theorem holdFor_exampleConfig : holdFor exampleConfig exampleRules = 1000000000 := by
  decide +kernel

theorem exampleFrame_quiet (exe : String) :
    QuietEvent 1 0 exampleRules 1000000000 (.frame (exampleFrame exe false)) := by
  refine ⟨?_, ?_, ?_, rfl⟩
  · rintro fr ⟨⟩
    rfl
  · rintro fr ⟨⟩
    exact holdFor_exampleConfig
  · rintro fr ⟨⟩
    exact (exampleFrame_findsOpen exe).neverHides

theorem wait_quiet {k : Key} {m : MonitorId} {r : RuleValues} {h : ℕ} (d : ℕ) :
    QuietEvent k m r h (.wait d) := by
  refine ⟨?_, ?_, ?_, rfl⟩
  all_goals
    intro fr hfr
    cases hfr

/-- A title that changes right after a frame is held. -/
theorem hold_covers_soon_after :
    coversSurface ((run World.step (World.init.step (.frame (exampleFrame "/bin/portal" true))).1
      [.wait 100000000]).step (.frame (exampleFrame "/bin/portal" false))).2 1 = true := by
  have hiff := hold_covers_iff World.init (exampleFrame "/bin/portal" true) [.wait 100000000]
    [.frame (exampleFrame "/bin/portal" false)] exampleFrame_coversHidden rfl rfl
    (List.forall_mem_singleton.2 (wait_quiet _))
    (List.forall_mem_singleton.2 (exampleFrame_quiet _))
    (fun fr hfr => by
      obtain rfl : fr = exampleFrame "/bin/portal" false := by simpa using hfr
      exact exampleFrame_findsOpen _)
  refine hiff.2 (fun pre fr post hpost _ _ => ?_) [] (exampleFrame "/bin/portal" false) [] rfl
    (by decide +kernel) (by decide +kernel)
  -- the only event is the frame itself
  obtain rfl : pre = [] := by
    cases pre with
    | nil => rfl
    | cons e pre => simp at hpost
  exact ⟨by decide +kernel, trivial, trivial⟩

end NoshareCover
