import NoshareCover.Lib.Painter
import NoshareCover.Lib.Part
import NoshareCover.Shim.Spec.ClosingHold
import NoshareCover.Shim.Spec.Draws

/-!
# Monitors side by side

All monitors share `lastCovers` and `closing`.  A frame of one monitor reads and writes the entries
of the surfaces that it finds on its monitor, so it leaves what is kept for the others alone, as
long as it covers no layer that is on another monitor.  `monitors_apart` compares the frames of a
monitor in two runs that differ in the frames of the others.
-/

namespace NoshareCover

open Machine

/-- The monitor of every surface and of every fade-out. -/
structure Homes where
  key : Key → MonitorId
  fade : FadeId → MonitorId

namespace Homes

variable (x : Homes)

/-- The keys of the surfaces of a monitor. -/
def on (m : MonitorId) (k : Key) : Bool := x.key k = m

/-- Every surface and every fade-out belongs to one monitor: the frame finds it on no other. -/
structure Belongs (fr : CaptureFrame) : Prop where
  window : ∀ w ∈ fr.desktop.windows, ∀ m, w.shouldRender m = true → x.key w.key = m
  layer : ∀ l ∈ fr.desktop.layers, ∀ m, l.monitor = some m → x.key l.key = m
  fade : ∀ f ∈ fr.desktop.fadeouts, ∀ m, f.monitor = some m → x.fade f.id = m

/-- What the shim keeps is kept for the monitor that it belongs to, and the pump runs while there
are closing covers. -/
structure Sorted (s : Shim) : Prop where
  entry : ∀ e ∈ s.lastCovers.entries, e.2.mon = x.key e.1
  fade : ∀ c ∈ s.closing, ∀ id, c.fade = some id → x.fade id = c.mon
  pumping : s.closing ≠ [] → s.pumping = true

/-- Two shims keep the same for the monitor `m`. -/
structure Alike (m : MonitorId) (s t : Shim) : Prop where
  part : s.lastCovers.part (x.on m) = t.lastCovers.part (x.on m)
  closing : s.closing.filter (fun c => c.mon = m) = t.closing.filter fun c => c.mon = m

variable {x} {m : MonitorId} {s t u : Shim}

theorem Alike.refl (s : Shim) : x.Alike m s s := ⟨rfl, rfl⟩

theorem Alike.symm (h : x.Alike m s t) : x.Alike m t s := ⟨h.part.symm, h.closing.symm⟩

theorem Alike.trans (h : x.Alike m s t) (h' : x.Alike m t u) : x.Alike m s u :=
  ⟨h.part.trans h'.part, h.closing.trans h'.closing⟩

theorem Alike.lookup (h : x.Alike m s t) {k : Key} (hk : x.key k = m) :
    s.lastCovers.lookup k = t.lastCovers.lookup k :=
  AList.lookup_eq_of_part h.part (decide_eq_true hk)

end Homes

/-- The entries that turn into closing covers in the frame are gone through by `rank`. -/
def CaptureFrame.GoesBy (x : Homes) (rank : Key → ℕ) (fr : CaptureFrame) (s : Shim) : Prop :=
  ∀ k last, s.lastCovers.lookup k = some last → x.key k = fr.mon.id → last.gone fr.desktop k = true →
    ∀ k' last', s.lastCovers.lookup k' = some last' → x.key k' = fr.mon.id →
      last'.gone fr.desktop k' = true → (fr.order k ≤ fr.order k' ↔ rank k ≤ rank k')

/-- The frame covers no layer that is on another monitor. -/
def CaptureFrame.OwnLayers (fr : CaptureFrame) (inp : PaintInput) : Prop :=
  ∀ l ∈ fr.desktop.layers, layerCovered fr inp l = true → l.monitor = some fr.mon.id

/-! ### What the passes over the variables hand on -/

section Input

variable {x : Homes} {s t : Shim} {fr : CaptureFrame} {now : Instant}

/-- The two inputs treat the surfaces of the frame's monitor alike. -/
structure SameInput (x : Homes) (fr : CaptureFrame) (inp inp' : PaintInput) : Prop where
  shut : ∀ sf ∈ fr.desktop.surfaces, sf.ruled = true → x.key sf.key = fr.mon.id →
    noScreenShare inp.vars sf.key = noScreenShare inp'.vars sf.key
  held : ∀ k, x.key k = fr.mon.id → inp.held.lookup k = inp'.held.lookup k
  revealed : inp.revealed = inp'.revealed
  left : inp.left = inp'.left
  now : inp.now = inp'.now

theorem isHeld_congr {sf : Surface} (hsf : sf ∈ fr.desktop.surfaces)
    (h : s.lastCovers.lookup sf.key = t.lastCovers.lookup sf.key) :
    s.IsHeld fr now sf.key ↔ t.IsHeld fr now sf.key := by
  rw [Shim.isHeld_iff_held? s now hsf, Shim.isHeld_iff_held? t now hsf, Shim.held?_isSome s now hsf,
    Shim.held?_isSome t now hsf, h]

theorem lookup_held_congr {k : Key} (h : s.lastCovers.lookup k = t.lastCovers.lookup k) :
    (s.prepare fr now).held.lookup k = (t.prepare fr now).held.lookup k := by
  have hkeys : k ∈ (s.prepare fr now).heldSaved.map Override.Saved.key
      ↔ k ∈ (t.prepare fr now).heldSaved.map Override.Saved.key := by
    -- both directions are one statement about any two shims
    have himp : ∀ s t : Shim, s.lastCovers.lookup k = t.lastCovers.lookup k →
        k ∈ (s.prepare fr now).heldSaved.map Override.Saved.key →
        k ∈ (t.prepare fr now).heldSaved.map Override.Saved.key := by
      intro s t h hk
      obtain ⟨sf, hsf, rfl⟩ := mem_saved_imp_surface (Shim.revealedVars fr) _ hk
      refine (mem_saved_overrideAll (Shim.revealedVars fr) _ hsf).2 ?_
      have hs : (s.held? fr now sf).isSome = true :=
        (mem_saved_overrideAll (Shim.revealedVars fr) _ hsf).1 hk
      exact (Shim.isHeld_iff_held? t now hsf).1
        ((isHeld_congr hsf h).1 ((Shim.isHeld_iff_held? s now hsf).2 hs))
    exact ⟨himp s t h, himp t s h.symm⟩
  have hheld : ∀ s : Shim, (s.prepare fr now).held = heldOf s (s.prepare fr now).heldSaved :=
    fun _ => rfl
  rw [hheld, hheld, lookup_heldOf, lookup_heldOf, h]
  exact if_congr hkeys rfl rfl

variable (hbelongs : x.Belongs fr) (h : x.Alike fr.mon.id s t)

include h in
theorem noScreenShare_prepare_congr {sf : Surface} (hsf : sf ∈ fr.desktop.surfaces)
    (hruled : sf.ruled = true) (hhome : x.key sf.key = fr.mon.id) :
    noScreenShare (s.prepare fr now).vars sf.key = noScreenShare (t.prepare fr now).vars sf.key := by
  rw [Bool.eq_iff_iff, Shim.noScreenShare_prepare s now hsf hruled,
    Shim.noScreenShare_prepare t now hsf hruled, isHeld_congr hsf (h.lookup hhome)]

/-- A window that the frame finds on screen is on the frame's monitor. -/
theorem Homes.Belongs.onScreen (hbelongs : x.Belongs fr) {w : Window} (hw : w ∈ fr.desktop.windows)
    {geo : WinGeo} (hgeo : windowGeo w fr.mon fr.capturePos = some geo) :
    x.key w.key = fr.mon.id :=
  hbelongs.window w hw fr.mon.id (windowGeo_spec hgeo).1

variable (now) in
include hbelongs h in
theorem transparentKeys_congr :
    (transparentOn s fr (s.prepare fr now).vars (s.prepare fr now).held now).keys
      = (transparentOn t fr (t.prepare fr now).vars (t.prepare fr now).held now).keys := by
  have hwindows : ∀ w ∈ fr.desktop.windows,
      transparentWindow fr (s.prepare fr now).vars (s.prepare fr now).held w
        = transparentWindow fr (t.prepare fr now).vars (t.prepare fr now).held w := by
    intro w hw
    unfold transparentWindow ruleValuesFor
    -- a window that is not on screen is in neither list
    cases hgeo : windowGeo w fr.mon fr.capturePos with
    | none => simp
    | some geo =>
      have hhome := hbelongs.onScreen hw hgeo
      rw [lookup_held_congr (h.lookup hhome)]
      cases hruled : w.ruled with
      | false => rfl
      | true =>
        have hshut : noScreenShare (s.prepare fr now).vars w.key
            = noScreenShare (t.prepare fr now).vars w.key :=
          noScreenShare_prepare_congr h (Desktop.window_surface hw) hruled hhome
        rw [hshut]
  have hlayers : ∀ l ∈ fr.desktop.layers,
      transparentLayer fr (s.prepare fr now).vars (s.prepare fr now).held l
        = transparentLayer fr (t.prepare fr now).vars (t.prepare fr now).held l := by
    intro l hl
    unfold transparentLayer ruleValuesFor
    by_cases hmon : l.monitor = some fr.mon.id
    · have hhome := hbelongs.layer l hl fr.mon.id hmon
      rw [lookup_held_congr (h.lookup hhome)]
      cases hruled : l.ruled with
      | false => rfl
      | true =>
        have hshut : noScreenShare (s.prepare fr now).vars l.key
            = noScreenShare (t.prepare fr now).vars l.key :=
          noScreenShare_prepare_congr h (Desktop.layer_surface hl) hruled hhome
        rw [hshut]
    · simp [hmon]
  unfold transparentOn
  dsimp only
  rw [List.filter_congr hwindows, List.filter_congr hlayers]

/-- A test of the entries of one monitor looks only at what is kept for it. -/
theorem any_entries (hs : x.Sorted s) (m : MonitorId) (P : Sigma (fun _ : Key => LastCover) → Bool) :
    (s.lastCovers.entries.any fun e => e.2.mon = m && P e) = (s.lastCovers.part (x.on m)).any P := by
  rw [AList.part, List.any_filter, Bool.eq_iff_iff, List.any_eq_true, List.any_eq_true]
  refine exists_congr fun e => and_congr_right fun he => ?_
  rw [Homes.on, hs.entry e he]

variable (now) in
include hbelongs h in
/-- **The input of a frame** depends on what is kept for its monitor. -/
theorem paintInput_congr (hs : x.Sorted s) (ht : x.Sorted t) :
    SameInput x fr (s.paintInput fr now) (t.paintInput fr now) := by
  refine ⟨fun sf hsf hruled hhome => noScreenShare_prepare_congr h hsf hruled hhome,
    fun k hk => lookup_held_congr (h.lookup hk), rfl, ?_, rfl⟩
  have hkeys := transparentKeys_congr now hbelongs h
  have hclosing : (transparentOn s fr (s.prepare fr now).vars (s.prepare fr now).held now).closing
      = (transparentOn t fr (t.prepare fr now).vars (t.prepare fr now).held now).closing := by
    -- closing covers and entries are both looked at for the frame's monitor only
    have hentries : ∀ (u : Shim) (keys : List Key) (applies : RuleValues → Bool), x.Sorted u →
        (u.lastCovers.entries.any fun e =>
            e.1 ∉ keys && e.2.mon = fr.mon.id && applies e.2.rules)
          = (u.lastCovers.part (x.on fr.mon.id)).any fun e => e.1 ∉ keys && applies e.2.rules := by
      intro u keys applies hu
      rw [← any_entries hu]
      congr 1
      funext e
      rw [Bool.and_left_comm, Bool.and_assoc]
    have hclosed : ∀ (u : Shim) (P : Closing → Bool),
        (u.closing.any fun c => c.mon = fr.mon.id && P c)
          = (u.closing.filter fun c => c.mon = fr.mon.id).any P :=
      fun u P => List.any_filter.symm
    have hany : ∀ (u : Shim) (keys : List Key) (applies : RuleValues → Bool), x.Sorted u →
        ((u.closing.any fun c =>
            c.mon = fr.mon.id && c.holdUntil.all (fun t => now < t) && applies c.rules)
          || u.lastCovers.entries.any fun e =>
            e.1 ∉ keys && e.2.mon = fr.mon.id && applies e.2.rules)
        = ((u.closing.filter fun c => c.mon = fr.mon.id).any
            (fun c => c.holdUntil.all (fun t => now < t) && applies c.rules)
          || (u.lastCovers.part (x.on fr.mon.id)).any fun e => e.1 ∉ keys && applies e.2.rules) := by
      intro u keys applies hu
      rw [hentries u keys applies hu, ← hclosed]
      simp only [Bool.and_assoc]
    have hs' := hany s (transparentOn s fr (s.prepare fr now).vars (s.prepare fr now).held now).keys
      (fun rules => transparentCover fr.cfg rules && !fr.client.sees rules) hs
    have ht' := hany t (transparentOn t fr (t.prepare fr now).vars (t.prepare fr now).held now).keys
      (fun rules => transparentCover fr.cfg rules && !fr.client.sees rules) ht
    refine hs'.trans (Eq.trans ?_ ht'.symm)
    rw [h.closing, h.part, hkeys]
  show TransparentOn.leaves _ fr = TransparentOn.leaves _ fr
  unfold TransparentOn.leaves
  rw [hkeys, hclosing]

end Input

/-! ### The loops over windows and layers -/

section Paint

variable {x : Homes} {fr : CaptureFrame} {inp inp' : PaintInput} {p : Key → Bool}

/-- What a hidden window's cover leaves in `lastCovers`, and that it is seen. -/
theorem coverWindow_see (fr : CaptureFrame) (inp : PaintInput) (visible : List Visible)
    (acc : Painted) {v : Visible} {rules : RuleValues} (hrules : v.rules = some rules) :
    (coverWindow fr inp visible acc v).lastCovers
        = (acc.see inp v.w.key (v.lastCover fr.mon.id rules inp.now)).lastCovers
      ∧ (coverWindow fr inp visible acc v).seen
        = (acc.see inp v.w.key (v.lastCover fr.mon.id rules inp.now)).seen := by
  unfold coverWindow
  rw [hrules]
  dsimp only
  split_ifs <;> exact ⟨rfl, rfl⟩

theorem coverLayer_see (fr : CaptureFrame) (inp : PaintInput) (acc : Painted) {l : Layer}
    (hcov : layerCovered fr inp l = true) :
    (coverLayer fr inp acc l).lastCovers = (acc.see inp l.key
          (l.lastCover fr.mon.id (inp.rulesOf l.key l.rules) inp.now)).lastCovers
      ∧ (coverLayer fr inp acc l).seen = (acc.see inp l.key
          (l.lastCover fr.mon.id (inp.rulesOf l.key l.rules) inp.now)).seen
      ∧ (coverLayer fr inp acc l).drawn = acc.drawn := by
  unfold coverLayer
  rw [hcov]
  simp only [Bool.not_true, Bool.false_eq_true, if_false]
  split_ifs <;> exact ⟨rfl, rfl, rfl⟩

theorem coverLayer_of_not (fr : CaptureFrame) (inp : PaintInput) (acc : Painted) {l : Layer}
    (hcov : layerCovered fr inp l = false) : coverLayer fr inp acc l = acc := by
  rw [coverLayer, hcov]
  rfl

/-- Two frames have drawn the same so far, and left the same for the keys in `p`. -/
structure SamePainted (p : Key → Bool) (acc acc' : Painted) : Prop where
  part : acc.lastCovers.part p = acc'.lastCovers.part p
  seen : acc.seen = acc'.seen
  drawn : acc.drawn = acc'.drawn
  ops : acc.ops = acc'.ops

theorem part_see_congr {acc acc' : Painted} {key : Key} {last : LastCover}
    (hheld : inp.isHeld key = inp'.isHeld key)
    (h : acc.lastCovers.part p = acc'.lastCovers.part p) :
    (acc.see inp key last).lastCovers.part p = (acc'.see inp' key last).lastCovers.part p := by
  unfold Painted.see
  dsimp only
  rw [hheld]
  split_ifs
  · exact h
  · -- an insertion outside of `p` is not seen
    cases hk : p key with
    | true => rw [AList.part_insert_of_pos hk, AList.part_insert_of_pos hk, h]
    | false => rw [AList.part_insert_of_neg hk, AList.part_insert_of_neg hk, h]

theorem isHeld_congr_input (hinp : SameInput x fr inp inp') {k : Key} (hk : x.key k = fr.mon.id) :
    inp.isHeld k = inp'.isHeld k := by
  rw [PaintInput.isHeld, PaintInput.isHeld, hinp.held k hk]

theorem rulesOf_congr (hinp : SameInput x fr inp inp') {k : Key} (hk : x.key k = fr.mon.id)
    (rules : RuleValues) : inp.rulesOf k rules = inp'.rulesOf k rules := by
  rw [PaintInput.rulesOf, PaintInput.rulesOf, ruleValuesFor, ruleValuesFor, hinp.held k hk]

theorem coverWindow_congr (hinp : SameInput x fr inp inp') {visible : List Visible} {v : Visible}
    (hk : x.key v.w.key = fr.mon.id) {acc acc' : Painted} (h : SamePainted p acc acc') :
    SamePainted p (coverWindow fr inp visible acc v) (coverWindow fr inp' visible acc' v) := by
  have hops : (coverWindow fr inp visible acc v).ops = (coverWindow fr inp' visible acc' v).ops := by
    rw [coverWindow_ops, coverWindow_ops, h.ops]
  have hdrawn : (coverWindow fr inp visible acc v).drawn
      = (coverWindow fr inp' visible acc' v).drawn := by
    rw [coverWindow_drawn, coverWindow_drawn, h.drawn]
  cases hrules : v.rules with
  | none =>
    -- a window that is not hidden leaves everything alone
    have hsame : ∀ (inp : PaintInput) (acc : Painted), coverWindow fr inp visible acc v = acc := by
      intro inp acc
      rw [coverWindow, hrules]
    rw [hsame, hsame]
    exact h
  | some rules =>
    obtain ⟨hlast, hseen⟩ := coverWindow_see fr inp visible acc hrules
    obtain ⟨hlast', hseen'⟩ := coverWindow_see fr inp' visible acc' hrules
    refine ⟨?_, ?_, hdrawn, hops⟩
    · rw [hlast, hlast', hinp.now]
      exact part_see_congr (isHeld_congr_input hinp hk) h.part
    · rw [hseen, hseen']
      exact congrArg (v.w.key :: ·) h.seen

theorem layerCovered_congr (hbelongs : x.Belongs fr) (hinp : SameInput x fr inp inp') {l : Layer}
    (hl : l ∈ fr.desktop.layers) (hmon : l.monitor = some fr.mon.id) :
    layerCovered fr inp l = layerCovered fr inp' l := by
  unfold layerCovered
  cases hruled : l.ruled with
  | false => rfl
  | true =>
    have hshut := hinp.shut l.surface (Desktop.layer_surface hl) hruled
      (hbelongs.layer l hl fr.mon.id hmon)
    rw [show noScreenShare inp.vars l.key = _ from hshut]
    rfl

theorem coverLayer_congr (hbelongs : x.Belongs fr) (hinp : SameInput x fr inp inp')
    (hown : fr.OwnLayers inp) (hown' : fr.OwnLayers inp') {l : Layer} (hl : l ∈ fr.desktop.layers)
    {acc acc' : Painted} (h : SamePainted p acc acc') :
    SamePainted p (coverLayer fr inp acc l) (coverLayer fr inp' acc' l) := by
  -- a layer of this monitor is covered by both or by neither
  by_cases hmon : l.monitor = some fr.mon.id
  · have hk := hbelongs.layer l hl fr.mon.id hmon
    have hcovered := layerCovered_congr hbelongs hinp hl hmon
    cases hcov : layerCovered fr inp l with
    | false =>
      rw [coverLayer_of_not fr inp acc hcov, coverLayer_of_not fr inp' acc' (hcovered ▸ hcov)]
      exact h
    | true =>
      obtain ⟨hlast, hseen, hdrawn⟩ := coverLayer_see fr inp acc hcov
      obtain ⟨hlast', hseen', hdrawn'⟩ := coverLayer_see fr inp' acc' (hcovered ▸ hcov)
      have hdraws : layerOps fr inp l = layerOps fr inp' l := by
        rw [layerOps, layerOps, hcovered, hinp.left, rulesOf_congr hinp hk]
      -- the two frames read the same rules for it, so they write the same entry
      refine ⟨?_, ?_, ?_, ?_⟩
      · rw [hlast, hlast', hinp.now, rulesOf_congr hinp hk]
        exact part_see_congr (isHeld_congr_input hinp hk) h.part
      · rw [hseen, hseen']
        exact congrArg (l.key :: ·) h.seen
      · rw [hdrawn, hdrawn', h.drawn]
      · rw [coverLayer_ops, coverLayer_ops, h.ops, hdraws]
  · -- a layer of another monitor is covered by neither
    have hcov : ∀ {inp : PaintInput}, fr.OwnLayers inp → layerCovered fr inp l = false := by
      intro inp hown
      rw [← Bool.not_eq_true]
      exact fun hcov => hmon (hown l hl hcov)
    rw [coverLayer_of_not fr inp acc (hcov hown), coverLayer_of_not fr inp' acc' (hcov hown')]
    exact h

theorem shut_congr (hinp : SameInput x fr inp inp') {sf : Surface} (hsf : sf ∈ fr.desktop.surfaces)
    (hk : x.key sf.key = fr.mon.id) :
    (sf.ruled && noScreenShare inp.vars sf.key) = (sf.ruled && noScreenShare inp'.vars sf.key) := by
  cases hruled : sf.ruled with
  | false => rfl
  | true => rw [hinp.shut sf hsf hruled hk]

theorem shown_congr (hinp : SameInput x fr inp inp') {sf : Surface}
    (hsf : sf ∈ fr.desktop.surfaces) (hk : x.key sf.key = fr.mon.id) :
    (!sf.ruled || noScreenShare inp.vars sf.key)
      = (!sf.ruled || noScreenShare inp'.vars sf.key) := by
  cases hruled : sf.ruled with
  | false => rfl
  | true => rw [hinp.shut sf hsf hruled hk]

theorem visibleWindows_congr (hbelongs : x.Belongs fr) (hinp : SameInput x fr inp inp') :
    visibleWindows fr inp = visibleWindows fr inp' := by
  have hvisible : ∀ w ∈ fr.desktop.windows, visibleWindow fr inp w = visibleWindow fr inp' w := by
    intro w hw
    unfold visibleWindow
    cases hgeo : windowGeo w fr.mon fr.capturePos with
    | none => rfl
    | some geo =>
      have hk := hbelongs.onScreen hw hgeo
      have hshut := shut_congr hinp (Desktop.window_surface hw) hk
      have hshut' : (w.ruled && noScreenShare inp.vars w.key)
          = (w.ruled && noScreenShare inp'.vars w.key) := hshut
      rw [hshut', rulesOf_congr hinp hk, hinp.left]
  rw [visibleWindows, visibleWindows, List.filterMap_congr hvisible]

/-- A visible window is on the frame's monitor. -/
theorem Homes.Belongs.visible (hbelongs : x.Belongs fr) {v : Visible}
    (hv : v ∈ visibleWindows fr inp) : x.key v.w.key = fr.mon.id :=
  hbelongs.onScreen (mem_visibleWindows hv).1 (mem_visibleWindows hv).2

theorem redrawWindows_congr (hbelongs : x.Belongs fr) (hinp : SameInput x fr inp inp')
    (drawn : List (Visible × Region ℤ)) :
    redrawWindows fr.region inp (visibleWindows fr inp') drawn
      = redrawWindows fr.region inp' (visibleWindows fr inp') drawn := by
  refine List.filterMap_congr fun v hv => ?_
  have hv' : v ∈ visibleWindows fr inp' := (List.mem_insertionSort _).1 hv
  have hshown : (!v.w.ruled || noScreenShare inp.vars v.w.key)
      = (!v.w.ruled || noScreenShare inp'.vars v.w.key) :=
    shown_congr hinp (Desktop.window_surface (mem_visibleWindows hv').1) (hbelongs.visible hv')
  rw [Bool.or_assoc, hshown, ← Bool.or_assoc]

theorem redrawLayers_congr (hbelongs : x.Belongs fr) (hinp : SameInput x fr inp inp')
    (area : Region ℤ) : redrawLayers fr inp area = redrawLayers fr inp' area := by
  unfold redrawLayers
  congr 1
  funext level
  refine List.filterMap_congr fun l hl => ?_
  by_cases hmon : l.monitor = some fr.mon.id
  · have hshown : (!l.ruled || noScreenShare inp.vars l.key)
        = (!l.ruled || noScreenShare inp'.vars l.key) :=
      shown_congr hinp (Desktop.layer_surface hl) (hbelongs.layer l hl fr.mon.id hmon)
    rw [hshown]
  · simp [hmon]

/-- **The loops over windows and layers** draw the same for shims that keep the same for the frame's
monitor. -/
theorem paintHidden_congr {s t : Shim} (hbelongs : x.Belongs fr) (hinp : SameInput x fr inp inp')
    (hown : fr.OwnLayers inp) (hown' : fr.OwnLayers inp') (h : x.Alike fr.mon.id s t) :
    SamePainted (x.on fr.mon.id) (s.paintHidden fr inp).1 (t.paintHidden fr inp').1
      ∧ SamePainted (x.on fr.mon.id) (s.paintHidden fr inp).2 (t.paintHidden fr inp').2 := by
  -- the windows in the picture are the same on both sides
  have hvisible := visibleWindows_congr hbelongs hinp
  have hwindows : SamePainted (x.on fr.mon.id) (paintWindows fr inp (s.startFrame fr))
      (paintWindows fr inp' (t.startFrame fr)) := by
    unfold paintWindows
    rw [hvisible]
    refine List.foldl_rel ⟨h.part, rfl, rfl, rfl⟩ fun v hv acc acc' hacc => ?_
    exact coverWindow_congr hinp (hbelongs.visible hv) hacc
  refine ⟨hwindows, ?_⟩
  unfold Shim.paintHidden paintLayers
  dsimp only
  -- the layers start where the windows ended
  refine List.foldl_rel ⟨hwindows.part, hwindows.seen, hwindows.drawn, ?_⟩ fun l hl acc acc' hacc =>
    coverLayer_congr hbelongs hinp hown hown' hl hacc
  rw [hwindows.ops, hwindows.drawn, hvisible, redrawWindows_congr hbelongs hinp]

/-- What every insertion of a frame keeps, its loops keep: they insert entries of the frame's
monitor. -/
theorem paintHidden_lastCovers {Q : (AList fun _ : Key => LastCover) → Prop} {s : Shim}
    (hbelongs : x.Belongs fr) (hown : fr.OwnLayers inp)
    (hinsert : ∀ covers k (last : LastCover), x.key k = fr.mon.id → last.mon = fr.mon.id →
      Q covers → Q (covers.insert k last))
    (h : Q s.lastCovers) : Q (s.paintHidden fr inp).2.lastCovers := by
  -- everything a frame sees is on its own monitor
  have hsee : ∀ (acc : Painted) k (last : LastCover), x.key k = fr.mon.id →
      last.mon = fr.mon.id → Q acc.lastCovers → Q (acc.see inp k last).lastCovers := by
    intro acc k last hk hlast hacc
    unfold Painted.see
    dsimp only
    split_ifs
    · exact hacc
    · exact hinsert _ _ _ hk hlast hacc
  -- first the windows, then the layers
  have hwindows : Q (paintWindows fr inp (s.startFrame fr)).lastCovers := by
    unfold paintWindows
    refine List.foldlRecOn _ _ (motive := fun acc : Painted => Q acc.lastCovers) h
      fun acc hacc v hv => ?_
    cases hrules : v.rules with
    | none =>
      rw [coverWindow, hrules]
      exact hacc
    | some rules =>
      rw [(coverWindow_see fr inp _ acc hrules).1]
      exact hsee acc _ _ (hbelongs.visible hv) rfl hacc
  unfold Shim.paintHidden paintLayers
  dsimp only
  refine List.foldlRecOn _ _ (motive := fun acc : Painted => Q acc.lastCovers) hwindows
    fun acc hacc l hl => ?_
  cases hcov : layerCovered fr inp l with
  | false =>
    rw [coverLayer_of_not fr inp acc hcov]
    exact hacc
  | true =>
    rw [(coverLayer_see fr inp acc hcov).1]
    exact hsee acc _ _ (hbelongs.layer l hl fr.mon.id (hown l hl hcov)) rfl hacc

end Paint

/-! ### Fade-outs and closing covers -/

section Track

variable {x : Homes} {fr : CaptureFrame} {m : MonitorId} {seen : List Key} {now : Instant}

/-- The closing covers follow fade-outs of their monitors. -/
def Homes.FadesSorted (x : Homes) (closing : List Closing) : Prop :=
  ∀ c ∈ closing, ∀ id, c.fade = some id → x.fade id = c.mon

/-- The search for a fade-out looks only at the closing covers of its monitor. -/
theorem findFadeFor_filter (hbelongs : x.Belongs fr) {closing : List Closing}
    (hsorted : x.FadesSorted closing) (c : Closing) :
    findFadeFor fr.desktop closing c m
      = findFadeFor fr.desktop (closing.filter fun c => c.mon = m) c m := by
  have hfits : ∀ f ∈ fr.desktop.fadeouts,
      fadeFits closing c m f = fadeFits (closing.filter fun c => c.mon = m) c m f := by
    intro f hf
    unfold fadeFits
    by_cases hmon : f.monitor = some m
    · have hany : (closing.any fun o => decide (o.fade = some f.id))
          = (closing.filter fun c => c.mon = m).any fun o => decide (o.fade = some f.id) := by
        rw [List.any_filter, Bool.eq_iff_iff, List.any_eq_true, List.any_eq_true]
        refine exists_congr fun o => and_congr_right fun ho => ?_
        rw [Bool.and_eq_true, decide_eq_true_eq, decide_eq_true_eq]
        refine ⟨fun hfade => ⟨?_, hfade⟩, fun hfade => hfade.2⟩
        -- a cover that follows this fade-out is on the fade-out's monitor
        rw [← hsorted o ho f.id hfade]
        exact hbelongs.fade f hf m hmon
      rw [hany]
    · simp [hmon]
  have hnearer : ∀ best, ∀ f ∈ fr.desktop.fadeouts, nearerFade closing c m best f
      = nearerFade (closing.filter fun c => c.mon = m) c m best f := by
    intro best f hf
    rw [nearerFade, nearerFade, hfits f hf]
  have hfold : ∀ best, fr.desktop.fadeouts.foldl (nearerFade closing c m) best
      = fr.desktop.fadeouts.foldl (nearerFade (closing.filter fun c => c.mon = m) c m) best := by
    intro best
    refine List.foldl_rel rfl fun f hf b b' hb => ?_
    rw [hb]
    exact hnearer b' f hf
  unfold findFadeFor
  dsimp only
  rw [hfold]

/-- A fade-out that is found for a cover is on the monitor where it was looked for. -/
theorem fade_of_findFadeFor (hbelongs : x.Belongs fr) {closing : List Closing} {c : Closing}
    {f : Fadeout} (h : findFadeFor fr.desktop closing c m = some f) : x.fade f.id = m := by
  obtain ⟨hmem, hfits⟩ := fits_of_findFadeFor h
  simp only [fadeFits, Bool.and_eq_true, decide_eq_true_eq] at hfits
  exact hbelongs.fade f hmem m hfits.1.2

/-- The closing cover of an entry is on the frame's monitor, and so is its fade-out. -/
theorem closed_mon (hbelongs : x.Belongs fr) {last : LastCover} {closing : List Closing} {k : Key}
    {c : Closing} (h : c ∈ last.closed fr.desktop closing k m now) :
    c.mon = m ∧ ∀ id, c.fade = some id → x.fade id = m := by
  obtain ⟨-, -, rfl | ⟨-, f, hf, rfl⟩⟩ := closed_cases h
  · exact ⟨rfl, fun id hid => absurd hid (Option.some_ne_none id).symm⟩
  · refine ⟨rfl, fun id hid => ?_⟩
    rw [← Option.some.inj hid]
    exact fade_of_findFadeFor hbelongs hf

/-- What `trackClosed` does to the closing covers at one entry. -/
def closeOne (d : Desktop) (mon : MonitorId) (seen : List Key) (now : Instant)
    (closing : List Closing) (e : Sigma fun _ : Key => LastCover) : List Closing :=
  if e.2.stays d mon seen e.1 then closing
  else closing ++ (e.2.closed d closing e.1 mon now).toList

/-- And to the entries. -/
def forgetOne (d : Desktop) (mon : MonitorId) (seen : List Key)
    (covers : AList fun _ : Key => LastCover) (e : Sigma fun _ : Key => LastCover) :
    AList fun _ : Key => LastCover :=
  if e.2.stays d mon seen e.1 then covers else covers.erase e.1

theorem foldl_trackOne_eq (d : Desktop) (mon : MonitorId) (seen : List Key) (now : Instant) :
    ∀ (es : List (Sigma fun _ : Key => LastCover)) (s : Shim),
      es.foldl (Shim.trackOne d mon seen now) s = { s with
        lastCovers := es.foldl (forgetOne d mon seen) s.lastCovers
        closing := es.foldl (closeOne d mon seen now) s.closing }
  | [], s => rfl
  | e :: es, s => by
    have hone : s.trackOne d mon seen now e = { s with
        lastCovers := forgetOne d mon seen s.lastCovers e
        closing := closeOne d mon seen now s.closing e } := by
      unfold Shim.trackOne forgetOne closeOne
      split_ifs <;> rfl
    rw [List.foldl_cons, foldl_trackOne_eq d mon seen now es, hone]
    rfl

/-- The entries that are left do not depend on the order. -/
theorem trackClosed_eq (s : Shim) (d : Desktop) (mon : MonitorId) (order : Key → ℕ)
    (seen : List Key) (now : Instant) :
    s.trackClosed d mon order seen now = { s with
      lastCovers := s.lastCovers.entries.foldl (forgetOne d mon seen) s.lastCovers
      closing := (inOrder order s.lastCovers.entries).foldl (closeOne d mon seen now) s.closing } := by
  have hforget : (inOrder order s.lastCovers.entries).foldl (forgetOne d mon seen) s.lastCovers
      = s.lastCovers.entries.foldl (forgetOne d mon seen) s.lastCovers := by
    refine List.Perm.foldl_eq' (List.perm_insertionSort _ _) (fun e _ e' _ covers => ?_) _
    unfold forgetOne
    split_ifs
    · rfl
    · rfl
    · rfl
    · exact AList.erase_erase ..
  rw [Shim.trackClosed, foldl_trackOne_eq, hforget]

/-! #### Closing covers -/

variable (m seen now) in
theorem closeOne_fadesSorted (hbelongs : x.Belongs fr) {closing : List Closing}
    (h : x.FadesSorted closing) (e : Sigma fun _ : Key => LastCover) :
    x.FadesSorted (closeOne fr.desktop m seen now closing e) := by
  unfold closeOne
  split_ifs with hstays
  · exact h
  · intro c hc id hid
    rcases List.mem_append.1 hc with hc | hc
    · exact h c hc id hid
    · obtain ⟨hmon, hfade⟩ := closed_mon hbelongs (Option.mem_toList.1 hc)
      rw [hmon]
      exact hfade id hid

/-- An entry turns into the same closing cover beside any covers of other monitors. -/
theorem closeOne_filter (hbelongs : x.Belongs fr) {closing closing' : List Closing}
    (hs : x.FadesSorted closing) (ht : x.FadesSorted closing')
    (h : closing.filter (fun c => c.mon = m) = closing'.filter fun c => c.mon = m)
    (e : Sigma fun _ : Key => LastCover) :
    (closeOne fr.desktop m seen now closing e).filter (fun c => c.mon = m)
      = (closeOne fr.desktop m seen now closing' e).filter fun c => c.mon = m := by
  have hclosed : e.2.closed fr.desktop closing e.1 m now
      = e.2.closed fr.desktop closing' e.1 m now := by
    unfold LastCover.closed
    dsimp only
    rw [findFadeFor_filter hbelongs hs, findFadeFor_filter hbelongs ht, h]
  unfold closeOne
  split_ifs
  · exact h
  · rw [List.filter_append, List.filter_append, h, hclosed]

/-- The entry is the monitor's and turns into a closing cover. -/
def closesOn (x : Homes) (d : Desktop) (m : MonitorId) (seen : List Key)
    (e : Sigma fun _ : Key => LastCover) : Bool :=
  x.on m e.1 && (!e.2.stays d m seen e.1 && e.2.gone d e.1)

/-- Other entries, and the frames of other monitors, add no closing cover for the monitor. -/
theorem closeOne_other (hbelongs : x.Belongs fr) (hm : m ∈ fr.desktop.monitors)
    (closing : List Closing) {e : Sigma fun _ : Key => LastCover} (hentry : e.2.mon = x.key e.1)
    (hother : fr.mon.id = m → closesOn x fr.desktop m seen e = false) :
    (closeOne fr.desktop fr.mon.id seen now closing e).filter (fun c => c.mon = m)
      = closing.filter fun c => c.mon = m := by
  unfold closeOne
  split_ifs with hstays
  · rfl
  rw [List.filter_append]
  refine (congrArg _ (List.filter_eq_nil_iff.2 fun c hc => ?_)).trans (List.append_nil _)
  obtain ⟨hin, hgone, -⟩ := closed_cases (Option.mem_toList.1 hc)
  obtain ⟨hmon, -⟩ := closed_mon hbelongs (Option.mem_toList.1 hc)
  rw [decide_eq_true_eq, hmon]
  rintro rfl
  -- an entry that turns into a closing cover is one of the frame's monitor
  have hhome : x.key e.1 = fr.mon.id := by
    by_contra hne
    rw [hentry] at hin
    refine hstays ?_
    simp [LastCover.stays, hin, hentry, hne]
  have hcloses : closesOn x fr.desktop fr.mon.id seen e = true := by
    simp [closesOn, Homes.on, hhome, Bool.eq_false_of_not_eq_true hstays, hgone]
  rw [hother rfl] at hcloses
  exact Bool.false_ne_true hcloses

variable (m seen now) in
theorem foldl_closeOne_fadesSorted (hbelongs : x.Belongs fr)
    (es : List (Sigma fun _ : Key => LastCover)) {closing : List Closing}
    (h : x.FadesSorted closing) :
    x.FadesSorted (es.foldl (closeOne fr.desktop m seen now) closing) :=
  List.foldlRecOn _ _ (motive := fun closing => x.FadesSorted closing) h
    fun _ hacc e _ => closeOne_fadesSorted m seen now hbelongs hacc e

variable (seen now) in
/-- The entries that turn into closing covers, one after the other, decide what covers there are for
the frame's monitor. -/
theorem foldl_closeOne_filter (hbelongs : x.Belongs fr) :
    ∀ (es : List (Sigma fun _ : Key => LastCover)), (∀ e ∈ es, e.2.mon = x.key e.1) →
      ∀ closing closing' : List Closing, x.FadesSorted closing → x.FadesSorted closing' →
        closing.filter (fun c => c.mon = fr.mon.id) = closing'.filter (fun c => c.mon = fr.mon.id) →
        (es.foldl (closeOne fr.desktop fr.mon.id seen now) closing).filter
            (fun c => c.mon = fr.mon.id)
          = ((es.filter (closesOn x fr.desktop fr.mon.id seen)).foldl
            (closeOne fr.desktop fr.mon.id seen now) closing').filter fun c => c.mon = fr.mon.id
  | [], _, _, _, _, _, h => h
  | e :: es, hes, closing, closing', hs, ht, h => by
    have hes' : ∀ e ∈ es, e.2.mon = x.key e.1 := fun e he => hes e (List.mem_cons_of_mem _ he)
    have hs' := closeOne_fadesSorted fr.mon.id seen now hbelongs hs e
    -- an entry of another monitor adds nothing that this one can see
    rw [List.foldl_cons]
    cases hcloses : closesOn x fr.desktop fr.mon.id seen e with
    | true =>
      rw [List.filter_cons_of_pos hcloses, List.foldl_cons]
      exact foldl_closeOne_filter hbelongs es hes' _ _ hs'
        (closeOne_fadesSorted _ _ _ hbelongs ht e) (closeOne_filter hbelongs hs ht h e)
    | false =>
      rw [List.filter_cons_of_neg (by simp [hcloses])]
      refine foldl_closeOne_filter hbelongs es hes' _ _ hs' ht ?_
      exact (closeOne_other hbelongs fr.mon_mem closing (hes e (List.mem_cons_self ..))
        fun _ => hcloses).trans h

/-! #### Entries -/

/-- What is left of the monitor's entries is decided by them. -/
theorem part_foldl_forgetOne (d : Desktop) (mon : MonitorId) (p : Key → Bool) :
    ∀ (es : List (Sigma fun _ : Key => LastCover)) (covers : AList fun _ : Key => LastCover),
      (es.foldl (forgetOne d mon seen) covers).part p
        = (es.filter fun e => p e.1).foldl
          (fun part e => if e.2.stays d mon seen e.1 then part else part.kerase e.1) (covers.part p)
  | [], _ => rfl
  | e :: es, covers => by
    rw [List.foldl_cons, part_foldl_forgetOne d mon p es]
    unfold forgetOne
    cases hp : p e.1 with
    | true =>
      have hfilter : (e :: es).filter (fun e => p e.1) = e :: es.filter fun e => p e.1 :=
        List.filter_cons_of_pos hp
      rw [hfilter, List.foldl_cons]
      split_ifs
      · rfl
      · rw [AList.part_erase_of_pos hp]
    | false =>
      -- an entry outside of `p` goes, and nobody sees it go
      have hfilter : (e :: es).filter (fun e => p e.1) = es.filter fun e => p e.1 :=
        List.filter_cons_of_neg (by simp [hp])
      rw [hfilter]
      split_ifs
      · rfl
      · rw [AList.part_erase_of_neg hp]

/-- What is kept stays with its monitor. -/
theorem mem_entries_erase {covers : AList fun _ : Key => LastCover} {k : Key}
    {e : Sigma fun _ : Key => LastCover} (h : e ∈ (covers.erase k).entries) : e ∈ covers.entries :=
  (List.kerase_sublist k covers.entries).subset h

variable {s t : Shim} {order : Key → ℕ} (hbelongs : x.Belongs fr)
  (hs : ∀ e ∈ s.lastCovers.entries, e.2.mon = x.key e.1) (hfades : x.FadesSorted s.closing)

/-- The entries that turn into closing covers, in the order of the hash map, are those of the part
of the monitor, by `rank`. -/
theorem inOrder_filter {covers : AList fun _ : Key => LastCover} {rank : Key → ℕ}
    (hrank : ∀ e ∈ covers.entries, ∀ e' ∈ covers.entries, closesOn x fr.desktop m seen e = true →
      closesOn x fr.desktop m seen e' = true → (order e.1 ≤ order e'.1 ↔ rank e.1 ≤ rank e'.1)) :
    (inOrder order covers.entries).filter (closesOn x fr.desktop m seen)
      = inOrder rank ((covers.part (x.on m)).filter (closesOn x fr.desktop m seen)) := by
  -- what closes on the monitor lies on it
  have hpart : (covers.part (x.on m)).filter (closesOn x fr.desktop m seen)
      = covers.entries.filter (closesOn x fr.desktop m seen) := by
    rw [AList.part, List.filter_filter]
    refine List.filter_congr fun e _ => ?_
    unfold closesOn
    cases x.on m e.1 <;> simp
  have htotal : Std.Total fun a b : Sigma fun _ : Key => LastCover => order a.1 ≤ order b.1 :=
    ⟨fun a b => le_total _ _⟩
  have htrans : IsTrans (Sigma fun _ : Key => LastCover) fun a b => order a.1 ≤ order b.1 :=
    ⟨fun a b c => le_trans⟩
  -- two sorts agree when they compare the entries they keep in the same way
  rw [hpart, inOrder, Painter.filter_insertionSort]
  refine Painter.insertionSort_congr _ _ (List.pairwise_of_forall_mem_list fun e he e' he' => ?_)
  obtain ⟨he, hcloses⟩ := List.mem_filter.1 he
  obtain ⟨he', hcloses'⟩ := List.mem_filter.1 he'
  exact hrank e he e' he' hcloses hcloses'

include hbelongs hs hfades in
theorem trackClosed_alike {order' rank : Key → ℕ}
    (ht : ∀ e ∈ t.lastCovers.entries, e.2.mon = x.key e.1) (hfades' : x.FadesSorted t.closing)
    (hrank : ∀ e ∈ s.lastCovers.entries, ∀ e' ∈ s.lastCovers.entries,
      closesOn x fr.desktop fr.mon.id seen e = true →
      closesOn x fr.desktop fr.mon.id seen e' = true →
        (order e.1 ≤ order e'.1 ↔ rank e.1 ≤ rank e'.1))
    (hrank' : ∀ e ∈ t.lastCovers.entries, ∀ e' ∈ t.lastCovers.entries,
      closesOn x fr.desktop fr.mon.id seen e = true →
      closesOn x fr.desktop fr.mon.id seen e' = true →
        (order' e.1 ≤ order' e'.1 ↔ rank e.1 ≤ rank e'.1))
    (h : x.Alike fr.mon.id s t) :
    x.Alike fr.mon.id (s.trackClosed fr.desktop fr.mon.id order seen now)
      (t.trackClosed fr.desktop fr.mon.id order' seen now) := by
  rw [trackClosed_eq, trackClosed_eq]
  have hentries : s.lastCovers.entries.filter (fun e => x.on fr.mon.id e.1)
      = t.lastCovers.entries.filter fun e => x.on fr.mon.id e.1 := h.part
  constructor
  · dsimp only
    rw [part_foldl_forgetOne, part_foldl_forgetOne, hentries, h.part]
  · -- both sides go through the same entries in the same order
    have hleft := foldl_closeOne_filter seen now hbelongs (inOrder order s.lastCovers.entries)
      (fun e he => hs e (mem_inOrder.1 he)) _ _ hfades hfades' h.closing
    have hright := foldl_closeOne_filter seen now hbelongs (inOrder order' t.lastCovers.entries)
      (fun e he => ht e (mem_inOrder.1 he)) _ _ hfades' hfades' rfl
    rw [inOrder_filter hrank, h.part] at hleft
    rw [inOrder_filter hrank'] at hright
    exact hleft.trans hright.symm

include hbelongs hs hfades in
theorem trackClosed_sorted :
    (∀ e ∈ (s.trackClosed fr.desktop m order seen now).lastCovers.entries, e.2.mon = x.key e.1)
      ∧ x.FadesSorted (s.trackClosed fr.desktop m order seen now).closing := by
  rw [trackClosed_eq]
  refine ⟨?_, foldl_closeOne_fadesSorted _ _ _ hbelongs _ hfades⟩
  refine List.foldlRecOn _ _ (motive := fun covers : AList fun _ : Key => LastCover =>
    ∀ e ∈ covers.entries, e.2.mon = x.key e.1) hs fun covers hcovers e _ => ?_
  unfold forgetOne
  split_ifs
  · exact hcovers
  · exact fun e' he' => hcovers e' (mem_entries_erase he')

include hbelongs hs in
theorem trackClosed_other (hm : m ∈ fr.desktop.monitors) (hne : fr.mon.id ≠ m) :
    x.Alike m (s.trackClosed fr.desktop fr.mon.id order seen now) s := by
  rw [trackClosed_eq]
  constructor
  · dsimp only
    rw [part_foldl_forgetOne]
    -- the entries of `m` all stay
    refine List.foldlRecOn _ _ (motive := fun part => part = s.lastCovers.part (x.on m)) rfl
      fun part hpart e he => ?_
    obtain ⟨he, hon⟩ := List.mem_filter.1 he
    have hhome : e.2.mon = m := (hs e he).trans (of_decide_eq_true hon)
    rw [if_pos (by simp [LastCover.stays, hhome, hm, Ne.symm hne])]
    exact hpart
  · dsimp only
    refine List.foldlRecOn _ _ (motive := fun closing : List Closing =>
      closing.filter (fun c => c.mon = m) = s.closing.filter fun c => c.mon = m) rfl
      fun closing hclosing e he => ?_
    exact (closeOne_other hbelongs hm closing (hs e (mem_inOrder.1 he))
      fun heq => absurd heq hne).trans hclosing

end Track

section Loop

variable {x : Homes} {fr : CaptureFrame} {m : MonitorId} {left : Bool} {now : Instant}

theorem follow_fade_sorted (hbelongs : x.Belongs fr) {c : Closing} {closing : List Closing}
    (hmon : c.mon = fr.mon.id) (h : ∀ id, c.fade = some id → x.fade id = c.mon) :
    ∀ id, (c.follow fr.cfg fr.desktop closing fr.mon.id now).fade = some id →
      x.fade id = (c.follow fr.cfg fr.desktop closing fr.mon.id now).mon := by
  intro id hid
  rw [(follow_frame c fr.cfg fr.desktop closing fr.mon.id now).2.1]
  rcases follow_fade c fr.cfg fr.desktop closing fr.mon.id now with heq | heq
  · exact h id (heq ▸ hid)
  · rw [heq] at hid
    obtain ⟨f, hf, rfl⟩ := Option.map_eq_some_iff.1 hid
    rw [hmon]
    exact fade_of_findFadeFor hbelongs hf

variable (left now) in
/-- The closing covers of the frame's monitor are painted as if there were no others. -/
theorem paintClosingLoop_filter (hbelongs : x.Belongs fr) :
    ∀ before rest : List Closing, x.FadesSorted before → x.FadesSorted rest →
      (paintClosingLoop fr left now before rest).1.filter (fun c => c.mon = fr.mon.id)
          = (paintClosingLoop fr left now (before.filter fun c => c.mon = fr.mon.id)
            (rest.filter fun c => c.mon = fr.mon.id)).1
        ∧ (paintClosingLoop fr left now before rest).2
          = (paintClosingLoop fr left now (before.filter fun c => c.mon = fr.mon.id)
            (rest.filter fun c => c.mon = fr.mon.id)).2
  | before, [], _, _ => ⟨rfl, rfl⟩
  | before, c :: rest, hbefore, hrest => by
    have hc := hrest c (List.mem_cons_self ..)
    -- the covers passed so far stay sorted, whatever is put behind them
    have hrest' : x.FadesSorted rest := fun o ho => hrest o (List.mem_cons_of_mem c ho)
    have hsnoc : ∀ o : Closing, (∀ id, o.fade = some id → x.fade id = o.mon) →
        x.FadesSorted (before ++ [o]) := by
      intro o ho o' ho'
      rcases List.mem_append.1 ho' with ho' | ho'
      · exact hbefore o' ho'
      · rwa [List.mem_singleton.1 ho']
    by_cases hmon : c.mon = fr.mon.id
    · -- it looks for its fade-out among all covers, which comes to the same as among these
      have hall : x.FadesSorted (before ++ c :: rest) := by
        intro o ho
        rcases List.mem_append.1 ho with ho | ho
        · exact hbefore o ho
        · exact hrest o ho
      have hfollow : c.follow fr.cfg fr.desktop (before ++ c :: rest) fr.mon.id now
          = c.follow fr.cfg fr.desktop ((before.filter fun c => c.mon = fr.mon.id)
            ++ c :: rest.filter fun c => c.mon = fr.mon.id) fr.mon.id now := by
        have hfilter : (before ++ c :: rest).filter (fun c => c.mon = fr.mon.id)
            = (before.filter fun c => c.mon = fr.mon.id)
              ++ c :: rest.filter fun c => c.mon = fr.mon.id := by
          rw [List.filter_append, List.filter_cons_of_pos (by simp [hmon])]
        unfold Closing.follow
        rw [findFadeFor_filter hbelongs hall, hfilter]
      rw [List.filter_cons_of_pos (by simp [hmon])]
      simp only [paintClosingLoop, hmon, ne_eq, not_true_eq_false, if_false]
      rw [← hfollow]
      set c' := c.follow fr.cfg fr.desktop (before ++ c :: rest) fr.mon.id now with hc'
      have hmon' : c'.mon = fr.mon.id :=
        (follow_frame c fr.cfg fr.desktop _ fr.mon.id now).2.1.trans hmon
      obtain ⟨hclosing, hops⟩ := paintClosingLoop_filter hbelongs (before ++ [c']) rest
        (hsnoc c' (follow_fade_sorted hbelongs hmon hc)) hrest'
      rw [List.filter_append, List.filter_cons_of_pos (by simp [hmon']),
        List.filter_nil] at hclosing hops
      exact ⟨hclosing, congrArg _ hops⟩
    -- a cover of another monitor is passed over on both sides
    · obtain ⟨hclosing, hops⟩ := paintClosingLoop_filter hbelongs (before ++ [c]) rest
        (hsnoc c hc) hrest'
      rw [List.filter_append, List.filter_cons_of_neg (by simp [hmon]), List.filter_nil,
        List.append_nil] at hclosing hops
      rw [List.filter_cons_of_neg (by simp [hmon]), paintClosingLoop, if_pos hmon]
      exact ⟨hclosing, hops⟩

/-- A frame passes over the closing covers of other monitors. -/
theorem paintClosingLoop_other (hne : fr.mon.id ≠ m) :
    ∀ before rest : List Closing,
      (paintClosingLoop fr left now before rest).1.filter (fun c => c.mon = m)
        = (before ++ rest).filter fun c => c.mon = m
  | before, [] => by
    rw [List.append_nil]
    rfl
  | before, c :: rest => by
    rw [paintClosingLoop]
    split_ifs with hmon
    · -- a cover of another monitor is passed over
      rw [paintClosingLoop_other hne (before ++ [c]) rest, List.append_assoc, List.singleton_append]
    -- following a fade-out does not change the monitor of the cover
    · rw [not_not] at hmon
      dsimp only
      rw [paintClosingLoop_other hne _ rest, List.append_assoc, List.singleton_append,
        List.filter_append, List.filter_append]
      have hmon' := (follow_frame c fr.cfg fr.desktop (before ++ c :: rest) fr.mon.id now).2.1
      rw [List.filter_cons_of_neg (by simp [hmon', hmon, hne]),
        List.filter_cons_of_neg (by simp [hmon, hne])]

end Loop

/-! ### One frame -/

/-- The same frame with another order of the hash map. -/
def CaptureFrame.withOrder (fr : CaptureFrame) (order : Key → ℕ) : CaptureFrame := { fr with order }

theorem Homes.Belongs.withOrder {x : Homes} {fr : CaptureFrame} (h : x.Belongs fr)
    (order : Key → ℕ) : x.Belongs (fr.withOrder order) :=
  ⟨h.window, h.layer, h.fade⟩

/-- The order is not looked at while closing covers are painted. -/
theorem paintClosingLoop_withOrder (fr : CaptureFrame) (order : Key → ℕ) (left : Bool)
    (now : Instant) : ∀ before rest, paintClosingLoop (fr.withOrder order) left now before rest
      = paintClosingLoop fr left now before rest
  | before, [] => rfl
  | before, c :: rest => by
    simp only [paintClosingLoop, paintClosingLoop_withOrder fr order left now _ rest]
    rfl

/-- The draw, whatever picture fills another plugin's rectangle. -/
def PaintOp.place : PaintOp → PaintOp
  | .extraRect box round _ => .extraRect box round none
  | op => op

section Frame

variable {x : Homes} {fr : CaptureFrame} {m : MonitorId} {now : Instant}

theorem extraRectOps_place (fr : CaptureFrame) (inp inp' : PaintInput) :
    (extraRectOps fr inp).map PaintOp.place = (extraRectOps fr inp').map PaintOp.place := by
  unfold extraRectOps
  rw [List.map_filterMap, List.map_filterMap]
  refine List.filterMap_congr fun r _ => ?_
  dsimp only
  split_ifs <;> rfl

/-- What the paint pass leaves: entries and closing covers as the tracking and the loop over the
closing covers left them, and a running pump while there are closing covers. -/
theorem paintCovers_shim (s : Shim) (fr : CaptureFrame) (inp : PaintInput) :
    let tracked := s.remember fr inp (s.paintHidden fr inp).2
    let after := (s.paintCovers fr inp).1
    after.lastCovers = tracked.lastCovers
      ∧ after.closing = (paintClosingLoop fr inp.left inp.now [] tracked.closing).1
      ∧ (after.closing ≠ [] → after.pumping = true) := by
  unfold Shim.paintCovers Shim.paintClosing Shim.startPump
  dsimp only
  split_ifs with hpump
  · exact ⟨rfl, rfl, fun _ => rfl⟩
  · -- closing covers alone start the pump
    refine ⟨rfl, rfl, fun hne => absurd ?_ hpump⟩
    rw [Bool.or_eq_true]
    exact .inr (by simpa using hne)

variable {s t : Shim} (hbelongs : x.Belongs fr) (hs : x.Sorted s)
  (hown : fr.OwnLayers (s.paintInput fr now))

include hbelongs hs hown in
/-- After the loops over windows and layers every entry is still kept for its monitor. -/
theorem paintHidden_sorted :
    ∀ e ∈ (s.paintHidden fr (s.paintInput fr now)).2.lastCovers.entries, e.2.mon = x.key e.1 := by
  refine paintHidden_lastCovers (Q := fun covers => ∀ e ∈ covers.entries, e.2.mon = x.key e.1)
    hbelongs hown (fun covers k last hk hlast hcovers e he => ?_) hs.entry
  rw [AList.entries_insert, List.mem_cons] at he
  rcases he with rfl | he
  · exact hlast.trans hk.symm
  · exact hcovers e ((List.kerase_sublist k covers.entries).subset he)

include hbelongs in
theorem remember_sorted (inp : PaintInput) {painted : Painted}
    (hentry : ∀ e ∈ painted.lastCovers.entries, e.2.mon = x.key e.1)
    (hfades : x.FadesSorted s.closing) :
    (∀ e ∈ (s.remember fr inp painted).lastCovers.entries, e.2.mon = x.key e.1)
      ∧ x.FadesSorted (s.remember fr inp painted).closing := by
  unfold Shim.remember
  exact trackClosed_sorted hbelongs hentry hfades

include hbelongs hs hown in
theorem frame_sorted : x.Sorted (s.render fr now).shim := by
  rw [(render_eq_paintCovers s fr now).1]
  obtain ⟨hentries, hclosing, hpump⟩ := paintCovers_shim s fr (s.paintInput fr now)
  obtain ⟨hsorted, hfades⟩ := remember_sorted hbelongs (s.paintInput fr now)
    (paintHidden_sorted hbelongs hs hown) hs.fade
  refine ⟨?_, ?_, hpump⟩
  · rw [hentries]
    exact hsorted
  · rw [hclosing]
    exact paintClosingLoop_forall (Q := fun c => ∀ id, c.fade = some id → x.fade id = c.mon)
      (fun c closing hmon hc => follow_fade_sorted hbelongs hmon hc) [] _ (List.forall_mem_nil _)
      hfades

include hbelongs hs hown in
/-- **A frame of another monitor** leaves alone what is kept for `m`. -/
theorem frame_other (hm : m ∈ fr.desktop.monitors) (hne : fr.mon.id ≠ m) :
    x.Alike m (s.render fr now).shim s := by
  rw [(render_eq_paintCovers s fr now).1]
  obtain ⟨hentries, hclosing, -⟩ := paintCovers_shim s fr (s.paintInput fr now)
  -- its loops insert entries of its own monitor
  have hpart : (s.paintHidden fr (s.paintInput fr now)).2.lastCovers.part (x.on m)
      = s.lastCovers.part (x.on m) := by
    refine paintHidden_lastCovers (Q := fun covers => covers.part (x.on m)
      = s.lastCovers.part (x.on m)) hbelongs hown (fun covers k last hk _ hcovers => ?_) rfl
    have hp : x.on m k = false := decide_eq_false (hk ▸ hne)
    rw [AList.part_insert_of_neg hp]
    exact hcovers
  have htracked : x.Alike m (s.remember fr (s.paintInput fr now)
      (s.paintHidden fr (s.paintInput fr now)).2) { s with
        lastCovers := (s.paintHidden fr (s.paintInput fr now)).2.lastCovers
        animBoxes := (s.paintHidden fr (s.paintInput fr now)).2.animBoxes } :=
    trackClosed_other hbelongs (paintHidden_sorted hbelongs hs hown) hm hne
  constructor
  · rw [hentries]
    exact htracked.part.trans hpart
  · rw [hclosing, paintClosingLoop_other hne]
    exact htracked.closing

include hbelongs hs hown in
/-- An entry that turns into a closing cover was there before the frame. -/
theorem rank_of_goesBy {rank : Key → ℕ} (hgoes : fr.GoesBy x rank s) :
    let inp := s.paintInput fr now
    let painted := (s.paintHidden fr inp).2
    ∀ e ∈ painted.lastCovers.entries, ∀ e' ∈ painted.lastCovers.entries,
      closesOn x fr.desktop fr.mon.id (painted.seen ++ inp.revealed) e = true →
      closesOn x fr.desktop fr.mon.id (painted.seen ++ inp.revealed) e' = true →
        (fr.order e.1 ≤ fr.order e'.1 ↔ rank e.1 ≤ rank e'.1) := by
  intro inp painted
  have hold : ∀ e ∈ painted.lastCovers.entries,
      closesOn x fr.desktop fr.mon.id (painted.seen ++ inp.revealed) e = true →
        s.lastCovers.lookup e.1 = some e.2 ∧ x.key e.1 = fr.mon.id
          ∧ e.2.gone fr.desktop e.1 = true := by
    intro e he hcloses
    simp only [closesOn, Bool.and_eq_true, Bool.not_eq_true', Homes.on, decide_eq_true_eq]
      at hcloses
    obtain ⟨hhome, hstays, hgone⟩ := hcloses
    have hmon : e.2.mon = fr.mon.id := (paintHidden_sorted hbelongs hs hown e he).trans hhome
    -- a surface that was seen would stay
    have hseen : (painted.view e.1).seen = false := by
      rw [← Bool.not_eq_true]
      intro hseen
      have hk : e.1 ∈ painted.seen := by simpa [Painted.view] using hseen
      simp [LastCover.stays, hmon, fr.mon_mem, hk] at hstays
    refine ⟨?_, hhome, hgone⟩
    rw [← view_of_not_seen hseen]
    exact AList.mem_lookup_iff.2 he
  intro e he e' he' hcloses hcloses'
  obtain ⟨hlook, hhome, hgone⟩ := hold e he hcloses
  obtain ⟨hlook', hhome', hgone'⟩ := hold e' he' hcloses'
  exact hgoes e.1 e.2 hlook hhome hgone e'.1 e'.2 hlook' hhome' hgone'

include hbelongs hs hown in
/-- **A frame of the monitor itself** draws the same, and keeps the same for it, when the same was
kept for it before and the hash map goes through what closed in the same order. -/
theorem frame_own {order rank : Key → ℕ} (ht : x.Sorted t)
    (hown' : fr.OwnLayers (t.paintInput fr now)) (hgoes : fr.GoesBy x rank s)
    (hgoes' : (fr.withOrder order).GoesBy x rank t) (h : x.Alike fr.mon.id s t) :
    x.Alike fr.mon.id (s.render fr now).shim (t.render (fr.withOrder order) now).shim
      ∧ (s.render fr now).ops.map PaintOp.place
        = (t.render (fr.withOrder order) now).ops.map PaintOp.place := by
  rw [(render_eq_paintCovers s fr now).1, (render_eq_paintCovers t (fr.withOrder order) now).1,
    (render_eq_paintCovers s fr now).2, (render_eq_paintCovers t (fr.withOrder order) now).2,
    show t.paintInput (fr.withOrder order) now = t.paintInput fr now from rfl]
  have hinp := paintInput_congr now hbelongs h hs ht
  have hsorted := paintHidden_sorted hbelongs hs hown
  have hsorted' := paintHidden_sorted hbelongs ht hown'
  have hrank := rank_of_goesBy hbelongs hs hown hgoes
  have hrank' : ∀ e ∈ (t.paintHidden fr (t.paintInput fr now)).2.lastCovers.entries,
      ∀ e' ∈ (t.paintHidden fr (t.paintInput fr now)).2.lastCovers.entries,
      closesOn x fr.desktop fr.mon.id ((t.paintHidden fr (t.paintInput fr now)).2.seen
        ++ (t.paintInput fr now).revealed) e = true →
      closesOn x fr.desktop fr.mon.id ((t.paintHidden fr (t.paintInput fr now)).2.seen
        ++ (t.paintInput fr now).revealed) e' = true →
        (order e.1 ≤ order e'.1 ↔ rank e.1 ≤ rank e'.1) :=
    rank_of_goesBy (hbelongs.withOrder order) ht hown' hgoes'
  -- from here on only what the two inputs have in common counts
  generalize s.paintInput fr now = inp at *
  generalize t.paintInput fr now = inp' at *
  have hhidden : t.paintHidden (fr.withOrder order) inp' = t.paintHidden fr inp' := rfl
  obtain ⟨hwindows, hpainted⟩ := paintHidden_congr hbelongs hinp hown hown' h
  have htracked : x.Alike fr.mon.id (s.remember fr inp (s.paintHidden fr inp).2)
      (t.remember (fr.withOrder order) inp' (t.paintHidden fr inp').2) := by
    unfold Shim.remember
    rw [← hpainted.seen, ← hinp.revealed, ← hinp.now]
    rw [← hpainted.seen, ← hinp.revealed] at hrank'
    exact trackClosed_alike hbelongs (s := { s with
        lastCovers := (s.paintHidden fr inp).2.lastCovers
        animBoxes := (s.paintHidden fr inp).2.animBoxes })
      (t := { t with
        lastCovers := (t.paintHidden fr inp').2.lastCovers
        animBoxes := (t.paintHidden fr inp').2.animBoxes })
      hsorted hs.fade hsorted' ht.fade hrank hrank' ⟨hpainted.part, h.closing⟩
  have hfades : x.FadesSorted (s.remember fr inp (s.paintHidden fr inp).2).closing :=
    (remember_sorted hbelongs _ hsorted hs.fade).2
  have hfades' : x.FadesSorted
      (t.remember (fr.withOrder order) inp' (t.paintHidden fr inp').2).closing :=
    (remember_sorted (hbelongs.withOrder order) inp' hsorted' ht.fade).2
  have hnil : x.FadesSorted [] := List.forall_mem_nil _
  -- both loops are the one over what is kept for the monitor
  obtain ⟨hloop, hloopOps⟩ := paintClosingLoop_filter inp.left inp.now hbelongs [] _ hnil hfades
  obtain ⟨hloop', hloopOps'⟩ := paintClosingLoop_filter inp'.left inp'.now hbelongs [] _ hnil
    hfades'
  rw [htracked.closing, hinp.left, hinp.now] at hloop hloopOps
  have hsame := paintClosingLoop_withOrder fr order inp'.left inp'.now
  obtain ⟨hentries, hclosing, -⟩ := paintCovers_shim s fr inp
  obtain ⟨hentries', hclosing', -⟩ := paintCovers_shim t (fr.withOrder order) inp'
  rw [hhidden] at hentries' hclosing'
  refine ⟨⟨?_, ?_⟩, ?_⟩
  · rw [hentries, hentries']
    exact htracked.part
  · rw [hclosing, hclosing', hinp.left, hinp.now, hsame]
    exact hloop.trans hloop'.symm
  · have hops := hloopOps.trans hloopOps'.symm
    unfold Shim.paintCovers Shim.paintClosing
    dsimp only
    rw [hhidden, hsame, hpainted.ops, hwindows.drawn, hinp.left, hinp.now, hops,
      redrawLayers_congr hbelongs hinp]
    rw [List.map_append, List.map_append, List.map_append, List.map_append, List.map_append,
      List.map_append, extraRectOps_place fr inp inp']
    rfl

end Frame

/-! ### The other events -/

section Events

variable {x : Homes} {m : MonitorId} {s t : Shim}

/-- With a running pump or without one, a tick filters the closing covers. -/
theorem pumpTick_closing (hs : x.Sorted s) (mgr : Screenshare) (animating : Bool) (now : Instant) :
    (s.pumpTick mgr animating now).closing = s.closing.filter (keepClosing mgr now) := by
  unfold Shim.pumpTick
  split_ifs with hpump hany
  · -- the pump is not running, so there was nothing to filter
    have hnil : s.closing = [] := by
      by_contra hne
      rw [hs.pumping hne] at hpump
      exact absurd hpump (by simp)
    rw [hnil]
    rfl
  · rfl
  · symm
    refine List.filter_eq_nil_iff.2 fun c hc => ?_
    -- no cover's monitor is captured, so none would be kept either
    have hcap : mgr.beingCaptured c.mon = false := by
      rw [← Bool.not_eq_true]
      intro hcap
      refine hany ?_
      rw [Bool.or_eq_true]
      exact .inr (List.any_eq_true.2 ⟨c, hc, hcap⟩)
    simp [keepClosing, hcap]

theorem pumpTick_sorted (hs : x.Sorted s) (mgr : Screenshare) (animating : Bool) (now : Instant) :
    x.Sorted (s.pumpTick mgr animating now) := by
  obtain ⟨hentries, hsub, -⟩ := pumpTick_spec s mgr animating now
  refine ⟨?_, fun c hc => hs.fade c (hsub c hc), ?_⟩
  · rw [hentries]
    exact hs.entry
  · unfold Shim.pumpTick
    split_ifs with hpump
    · exact hs.pumping
    · exact fun _ => by simpa using hpump
    · exact fun hne => absurd rfl hne

theorem pumpTick_alike (hs : x.Sorted s) (ht : x.Sorted t) (h : x.Alike m s t) (mgr : Screenshare)
    (animating : Bool) (now : Instant) :
    x.Alike m (s.pumpTick mgr animating now) (t.pumpTick mgr animating now) := by
  constructor
  · rw [(pumpTick_spec s mgr animating now).1, (pumpTick_spec t mgr animating now).1]
    exact h.part
  · rw [pumpTick_closing hs, pumpTick_closing ht, List.filter_comm, h.closing, List.filter_comm]

theorem startClosing_sorted (hs : x.Sorted s) (mgr : Screenshare) {c : Closing}
    (hfade : c.fade = none) : x.Sorted (s.startClosing mgr c) := by
  unfold Shim.startClosing
  split_ifs
  · exact hs
  · refine ⟨fun e he => hs.entry e (mem_entries_erase he), fun o ho id hid => ?_, fun _ => rfl⟩
    rcases List.mem_append.1 ho with ho | ho
    · exact hs.fade o ho id hid
    · obtain rfl := List.mem_singleton.1 ho
      rw [hfade] at hid
      exact absurd hid (Option.some_ne_none id).symm

theorem startClosing_alike (h : x.Alike m s t) (mgr : Screenshare) (c : Closing) :
    x.Alike m (s.startClosing mgr c) (t.startClosing mgr c) := by
  unfold Shim.startClosing
  split_ifs
  · exact h
  · constructor
    · show (s.lastCovers.erase c.owner).part _ = (t.lastCovers.erase c.owner).part _
      cases hk : x.on m c.owner with
      | true => rw [AList.part_erase_of_pos hk, AList.part_erase_of_pos hk, h.part]
      | false => rw [AList.part_erase_of_neg hk, AList.part_erase_of_neg hk, h.part]
    · show (s.closing ++ [c]).filter _ = (t.closing ++ [c]).filter _
      rw [List.filter_append, List.filter_append, h.closing]

theorem close_sorted {s : World} (hs : x.Sorted s.shim) {e : ShimEvent} (he : e.isClose = true) :
    x.Sorted (s.step e).1.shim := by
  rw [World.step_close s he]
  cases hclose : e.closing? s.now with
  | none => exact hs
  | some p => exact startClosing_sorted hs p.1 (ShimEvent.closing?_spec hclose).1

theorem close_alike {s t : World} (hnow : s.now = t.now) (h : x.Alike m s.shim t.shim)
    {e : ShimEvent} (he : e.isClose = true) :
    x.Alike m (s.step e).1.shim (t.step e).1.shim := by
  rw [World.step_close s he, World.step_close t he, ← hnow]
  cases e.closing? s.now with
  | none => exact h
  | some p => exact startClosing_alike h p.1 p.2

end Events

/-! ### Two runs -/

/-- Not a frame of another monitor. -/
def notElsewhere (m : MonitorId) : ShimEvent → Bool
  | .frame fr => fr.mon.id = m
  | _ => true

/-- What is assumed of the events: the monitor `m` is there all the time, and every surface and
every fade-out belongs to one monitor. -/
def Homes.Knows (x : Homes) (m : MonitorId) : ShimEvent → Prop
  | .frame fr => m ∈ fr.desktop.monitors ∧ x.Belongs fr
  | _ => True

/-- The frame covers no layer of another monitor, and goes by `rank` if it is one of `m`. -/
def Allows (x : Homes) (m : MonitorId) (rank : Key → ℕ) (s : World) : ShimEvent → Prop
  | .frame fr => fr.OwnLayers (s.shim.paintInput fr s.now)
      ∧ (fr.mon.id = m → fr.GoesBy x rank s.shim)
  | _ => True

/-- The same event, whatever order the hash map has. -/
def ShimEvent.SameButOrder : ShimEvent → ShimEvent → Prop
  | .frame fr, f => ∃ order, f = .frame (fr.withOrder order)
  | e, f => f = e

section Run

variable {x : Homes} {m : MonitorId}

/-- Both runs keep the same for the monitor. -/
structure Apart (x : Homes) (m : MonitorId) (s t : World) : Prop where
  now : s.now = t.now
  left : x.Sorted s.shim
  right : x.Sorted t.shim
  alike : x.Alike m s.shim t.shim

theorem Apart.symm {s t : World} (h : Apart x m s t) : Apart x m t s :=
  ⟨h.now.symm, h.right, h.left, h.alike.symm⟩

/-- Both runs read an event that is not a frame of another monitor, or one its counterpart. -/
theorem Apart.keep {rank : Key → ℕ} {s t : World} {e f : ShimEvent}
    (he : notElsewhere m e = true) (hsame : e.SameButOrder f) (h : Apart x m s t)
    (hs : x.Knows m e ∧ Allows x m rank s e) (ht : Allows x m rank t f) :
    Apart x m (s.step e).1 (t.step f).1 := by
  obtain ⟨hnow, hleft, hright, halike⟩ := h
  cases e with
  | wait d =>
    subst hsame
    exact ⟨congrArg (· + d) hnow, hleft, hright, halike⟩
  | frame fr =>
    obtain ⟨order, rfl⟩ := hsame
    -- not a frame of another monitor, so one of `m`
    obtain rfl : fr.mon.id = m := of_decide_eq_true he
    obtain ⟨⟨-, hbelongs⟩, hown, hgoes⟩ := hs
    obtain ⟨hown', hgoes'⟩ := ht
    have hown' : fr.OwnLayers (t.shim.paintInput fr s.now) := hnow ▸ hown'
    refine ⟨hnow, frame_sorted hbelongs hleft hown, ?_, ?_⟩
    · show x.Sorted (t.shim.render (fr.withOrder order) t.now).shim
      rw [← hnow]
      exact frame_sorted (hbelongs.withOrder order) hright hown'
    · show x.Alike _ (s.shim.render fr s.now).shim (t.shim.render (fr.withOrder order) t.now).shim
      rw [← hnow]
      exact (frame_own hbelongs hleft hown hright hown' (hgoes rfl) (hgoes' rfl) halike).1
  | tick mgr animating =>
    subst hsame
    refine ⟨hnow, pumpTick_sorted hleft .., pumpTick_sorted hright .., ?_⟩
    show x.Alike m (s.shim.pumpTick mgr animating s.now) (t.shim.pumpTick mgr animating t.now)
    rw [← hnow]
    exact pumpTick_alike hleft hright halike mgr animating s.now
  | windowClose | layerClose =>
    subst hsame
    exact ⟨hnow, close_sorted hleft rfl, close_sorted hright rfl, close_alike hnow halike rfl⟩

/-- One run reads a frame of another monitor. -/
theorem Apart.drop {rank : Key → ℕ} {s t : World} {e : ShimEvent} (he : notElsewhere m e = false)
    (h : Apart x m s t) (hs : x.Knows m e ∧ Allows x m rank s e) : Apart x m (s.step e).1 t := by
  cases e with
  | frame fr =>
    obtain ⟨⟨hm, hbelongs⟩, hown, -⟩ := hs
    refine ⟨h.now, frame_sorted hbelongs h.left hown, h.right, ?_⟩
    exact (frame_other hbelongs h.left hown hm (of_decide_eq_false he)).trans h.alike
  | _ => cases he

/-- **Monitors side by side**: let two runs have the same frames of the monitor `m`, closes and
ticks, in the same order, and any frames of other monitors in between; the hash map of the last
covers may have its entries in different orders.  If no frame covers a layer that is on another
monitor, and frames of `m` go through the entries of what closed on `m` by one `rank` in both runs,
then a frame of `m` draws the same after both. -/
theorem monitors_apart (x : Homes) (rank : Key → ℕ) (es fs : List ShimEvent) (fr : CaptureFrame)
    (order : Key → ℕ)
    (hsame : List.Forall₂ ShimEvent.SameButOrder (es.filter (notElsewhere fr.mon.id))
      (fs.filter (notElsewhere fr.mon.id)))
    (hes : Admits World.step (fun s e => x.Knows fr.mon.id e ∧ Allows x fr.mon.id rank s e)
      World.init (es ++ [.frame fr]))
    (hfs : Admits World.step (fun s e => x.Knows fr.mon.id e ∧ Allows x fr.mon.id rank s e)
      World.init (fs ++ [.frame (fr.withOrder order)])) :
    ((run World.step World.init es).step (.frame fr)).2.map PaintOp.place
      = ((run World.step World.init fs).step (.frame (fr.withOrder order))).2.map PaintOp.place := by
  -- both runs start with nothing of the monitor
  have hinit : Apart x fr.mon.id World.init World.init := by
    have hsorted : x.Sorted Shim.init :=
      ⟨List.forall_mem_nil _, List.forall_mem_nil _, fun hne => absurd rfl hne⟩
    exact ⟨rfl, hsorted, hsorted, .refl _⟩
  obtain ⟨hrun, ⟨⟨-, hbelongs⟩, hown, hgoes⟩, -⟩ := (admits_append _ _ _).1 hes
  obtain ⟨hrun', ⟨-, hown', hgoes'⟩, -⟩ := (admits_append _ _ _).1 hfs
  have hapart : Apart x fr.mon.id (run World.step World.init es) (run World.step World.init fs) := by
    -- the events of this monitor go step by step, the others are dropped on either side
    refine simulates_interleaving (notElsewhere fr.mon.id) ?_ ?_ ?_ hsame hinit hrun hrun'
    · exact fun s t e f he hef h hs ht => Apart.keep he hef h hs ht.2
    · exact fun s t e he h hs => Apart.drop he h hs
    · exact fun s t e he h ht => (Apart.drop he h.symm ht).symm
  show ((run World.step World.init es).shim.render fr _).ops.map _
    = ((run World.step World.init fs).shim.render (fr.withOrder order) _).ops.map _
  rw [← hapart.now]
  have hown'' : fr.OwnLayers ((run World.step World.init fs).shim.paintInput fr
      (run World.step World.init es).now) := by
    rw [hapart.now]
    exact hown'
  exact (frame_own hbelongs hapart.left hown hapart.right hown'' (hgoes rfl) (hgoes' rfl)
    hapart.alike).2

end Run

/-! ### A layer on the first of two monitors -/

/-- A bar at the top of the monitor 0. -/
def exampleBar : Layer :=
  { key := 5, ruled := true, rules := exampleRules, visible := true, monitor := some 0, position := 0
    size := (100, 30), level := 2, popups := [], geometryPos := 0 }

def exampleBarFade : Fadeout :=
  { id := 8, source := 5, plane := .layerTop, monitor := some 0, done := false
    box := { x := 0, y := 0, w := 100, h := 30 } }

/-- A frame of one of two monitors side by side. -/
def exampleSide (mon : MonitorId) (windows : List Window) (layers : List Layer)
    (fadeouts : List Fadeout) (nodup : (windows.map Window.key ++ layers.map Layer.key).Nodup)
    (hmon : mon ∈ [0, 1]) : CaptureFrame :=
  { exampleFrame "/bin/portal" true with
    mon := { id := mon, position := (200 * mon, 0), scale := 1, zoom := none }
    desktop :=
      { windows, layers, fadeouts, monitors := [0, 1]
        vars := fun _ => { top := none, lower := [some true] }, nodup }
    mon_mem := hmon }

def exampleHomes : Homes := { key := fun _ => 0, fade := fun _ => 0 }

theorem exampleSide_knows {mon : MonitorId} {windows : List Window} {layers : List Layer}
    {fadeouts : List Fadeout} (nodup : (windows.map Window.key ++ layers.map Layer.key).Nodup)
    (hmon : mon ∈ [0, 1]) (hwindows : ∀ w ∈ windows, ∀ m, w.shouldRender m = true → m = 0)
    (hlayers : ∀ l ∈ layers, l.monitor = some 0) (hfades : ∀ f ∈ fadeouts, f.monitor = some 0) :
    exampleHomes.Knows 0 (.frame (exampleSide mon windows layers fadeouts nodup hmon)) := by
  refine ⟨List.mem_cons_self .., fun w hw m hm => (hwindows w hw m hm).symm, ?_, ?_⟩
  · exact fun l hl m hm => Option.some.inj ((hlayers l hl).symm.trans hm)
  · exact fun f hf m hm => Option.some.inj ((hfades f hf).symm.trans hm)

/-- Between two screenshots of the monitor 0 there is one of the monitor 1, and then the bar closes.
The second screenshot shows its fade-out, and without the one of the monitor 1 it has the cover. -/
theorem other_monitor_takes_layer :
    let bar := fun mon hmon => exampleSide mon [] [exampleBar] [] (by decide) hmon
    let fading := exampleSide 0 [] [] [exampleBarFade] (by decide) (by decide)
    let close : ShimEvent := .layerClose (bar 0 (by decide)).desktop exampleIdle exampleBar
    let es : List ShimEvent := [.frame (bar 0 (by decide)), .frame (bar 1 (by decide)), close]
    let fs : List ShimEvent := [.frame (bar 0 (by decide)), close]
    es.filter (notElsewhere 0) = fs.filter (notElsewhere 0)
      ∧ (∀ e ∈ es ++ [.frame fading], exampleHomes.Knows 0 e)
      ∧ (∀ e ∈ fs ++ [.frame fading], exampleHomes.Knows 0 e)
      ∧ ((run World.step World.init es).step (.frame fading)).2 = []
      ∧ ((run World.step World.init fs).step (.frame fading)).2.map PaintOp.place ≠ [] := by
  intro bar fading close es fs
  have hbar : ∀ mon hmon, exampleHomes.Knows 0 (.frame (bar mon hmon)) := fun mon hmon =>
    exampleSide_knows _ hmon (List.forall_mem_nil _) (List.forall_mem_singleton.2 rfl)
      (List.forall_mem_nil _)
  have hfading : exampleHomes.Knows 0 (.frame fading) :=
    exampleSide_knows _ _ (List.forall_mem_nil _) (List.forall_mem_nil _)
      (List.forall_mem_singleton.2 rfl)
  refine ⟨rfl, ?_, ?_, by decide +kernel, by decide +kernel⟩
  · intro e he
    simp only [es, List.cons_append, List.nil_append, List.mem_cons, List.not_mem_nil,
      or_false] at he
    rcases he with rfl | rfl | rfl | rfl
    · exact hbar _ _
    · exact hbar _ _
    · trivial
    · exact hfading
  · intro e he
    simp only [fs, List.cons_append, List.nil_append, List.mem_cons, List.not_mem_nil,
      or_false] at he
    rcases he with rfl | rfl | rfl
    · exact hbar _ _
    · trivial
    · exact hfading

/-- A window on the monitor 0 closes between two screenshots of it: one of the monitor 1 in between
makes no difference. -/
theorem other_monitor_leaves_window :
    let open_ := fun mon hmon => exampleSide mon [exampleWindow] [] [] (by decide) hmon
    let fading := exampleSide 0 [] [] [exampleFade] (by decide) (by decide)
    let close : ShimEvent := .windowClose (open_ 0 (by decide)).desktop exampleIdle exampleWindow
    ((run World.step World.init
          [.frame (open_ 0 (by decide)), .frame (open_ 1 (by decide)), close]).step
        (.frame fading)).2.map PaintOp.place
      = ((run World.step World.init [.frame (open_ 0 (by decide)), close]).step
        (.frame fading)).2.map PaintOp.place := by
  intro open_ fading close
  have hopen : ∀ mon hmon, exampleHomes.Knows 0 (.frame (open_ mon hmon)) := fun mon hmon =>
    exampleSide_knows _ hmon
      (List.forall_mem_singleton.2 fun m hm => of_decide_eq_true hm) (List.forall_mem_nil _)
      (List.forall_mem_nil _)
  have hfading : exampleHomes.Knows 0 (.frame fading) :=
    exampleSide_knows _ _ (List.forall_mem_nil _) (List.forall_mem_nil _)
      (List.forall_mem_singleton.2 rfl)
  -- both hash maps are gone through by the keys
  have hown : ∀ mon hmon s, Allows exampleHomes 0 id s (.frame (open_ mon hmon)) :=
    fun mon hmon s => ⟨List.forall_mem_nil _, fun _ _ _ _ _ _ _ _ _ _ _ => Iff.rfl⟩
  have hown' : ∀ s, Allows exampleHomes 0 id s (.frame fading) :=
    fun s => ⟨List.forall_mem_nil _, fun _ _ _ _ _ _ _ _ _ _ _ => Iff.rfl⟩
  refine monitors_apart exampleHomes id _ _ fading id ?_ ?_ ?_
  · exact .cons ⟨id, rfl⟩ (.cons rfl .nil)
  · exact ⟨⟨hopen 0 _, hown 0 _ _⟩, ⟨hopen 1 _, hown 1 _ _⟩, ⟨trivial, trivial⟩,
      ⟨hfading, hown' _⟩, trivial⟩
  · exact ⟨⟨hopen 0 _, hown 0 _ _⟩, ⟨trivial, trivial⟩, ⟨hfading, hown' _⟩, trivial⟩

end NoshareCover
