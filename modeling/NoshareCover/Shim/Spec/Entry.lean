import NoshareCover.Shim.Spec.Overrides

/-!
# One surface over the frames

What a capture frame does to one surface depends on what the frame finds of it and on its own entry
in `lastCovers`, and on nothing else the shim keeps.  `entryStep` is that part of a frame on its
own, and `Shim.render_entry` says that the whole frame does the same.
-/

namespace NoshareCover

/-- What a frame finds of a surface that has a variable. -/
structure Sight where
  hidden : Bool
  /-- Mapped, or visible for a layer. -/
  present : Bool
  rules : RuleValues
  /-- Set when it is on screen: what is remembered of it once it is covered. -/
  onScreen : Option (RuleValues → Instant → LastCover)

def Window.sight (w : Window) (fr : CaptureFrame) : Sight :=
  { hidden := noScreenShare fr.desktop.vars w.key, present := w.mapped, rules := w.rules
    onScreen := (windowGeo w fr.mon fr.capturePos).map fun geo rules now =>
      { isLayer := false, mon := fr.mon.id
        box := { x := geo.pos.1, y := geo.pos.2, w := geo.size.1, h := geo.size.2 }
        rules, rounding := w.rounding, roundingPower := w.roundingPower, at_ := now } }

def Layer.sight (l : Layer) (fr : CaptureFrame) : Sight :=
  { hidden := noScreenShare fr.desktop.vars l.key, present := l.visible, rules := l.rules
    onScreen :=
      if l.visible && !((layerBox fr l).w < 1 || (layerBox fr l).h < 1) then
        some fun rules now => l.lastCover fr.mon.id rules now
      else none }

/-- What the frame finds of the surface `k`, if it is there and has a variable. -/
def CaptureFrame.sight? (fr : CaptureFrame) (k : Key) : Option Sight :=
  ((fr.desktop.windows.filterMap fun w => if w.key = k ∧ w.ruled then some (w.sight fr) else none)
    ++ fr.desktop.layers.filterMap fun l =>
      if l.key = k ∧ l.ruled then some (l.sight fr) else none).head?

namespace Sight

variable (g : Sight) (fr : CaptureFrame) (now : Instant) (entry : Option LastCover)

/-- Shown to this client as it is. -/
def revealed : Bool := g.hidden && fr.client.sees g.rules

/-- It just stopped being hidden. -/
def held : Bool :=
  g.present && !g.hidden && entry.any fun last => last.holds fr.cfg fr.client now

/-- Its variable is true while the covers are painted. -/
def shut : Bool := g.hidden && !fr.client.sees g.rules || g.held fr now entry

def covered : Bool := g.shut fr now entry && g.onScreen.isSome

end Sight

/-- An entry that was not seen in the frame is forgotten, unless it is another monitor's. -/
def keepEntry (fr : CaptureFrame) (seen : Bool) (last : LastCover) : Bool :=
  last.mon ∈ fr.desktop.monitors && (last.mon ≠ fr.mon.id || seen)

/-- One frame for one surface: its entry afterwards, and whether it is covered. -/
def entryStep (fr : CaptureFrame) (now : Instant) (k : Key) (entry : Option LastCover) :
    Option LastCover × Bool :=
  match fr.sight? k with
  | none => (entry.filter (keepEntry fr false), false)
  | some g =>
    let covered := g.covered fr now entry
    let entry' := if covered && !g.held fr now entry then g.onScreen.map fun f => f g.rules now
      else entry
    (entry'.filter (keepEntry fr (covered || g.revealed fr)), covered)

/-! ### The loops over windows and layers -/

/-- A frame's work so far, as far as it concerns one surface. -/
@[ext] structure KeyView where
  seen : Bool
  covered : Bool
  entry : Option LastCover

def Painted.view (acc : Painted) (k : Key) : KeyView :=
  { seen := k ∈ acc.seen, covered := coversSurface acc.ops k, entry := acc.lastCovers.lookup k }

/-- The surface is covered, and remembered as `last` unless it is held. -/
def KeyView.see (held : Bool) (v : KeyView) (last : LastCover) : KeyView :=
  { seen := true, covered := true, entry := if held then v.entry else some last }

@[simp] theorem coversSurface_nil (k : Key) : coversSurface [] k = false := rfl

@[simp] theorem coversSurface_append (ops ops' : List PaintOp) (k : Key) :
    coversSurface (ops ++ ops') k = (coversSurface ops k || coversSurface ops' k) :=
  List.any_append

@[simp] theorem coversSurface_singleton (op : PaintOp) (k : Key) :
    coversSurface [op] k = op.covers k := by
  simp [coversSurface]

theorem coversSurface_eq_false {ops : List PaintOp} {k : Key}
    (h : ∀ op ∈ ops, op.covers k = false) : coversSurface ops k = false := by
  rw [coversSurface, List.any_eq_false]
  intro op hop
  simp [h op hop]

/-! ### The draws that are no covers -/

theorem mem_popupOps {fr : CaptureFrame} {key : Key} {base : Vec} {popups : List (Box ℚ)}
    {kind : CoverKind} {op : PaintOp} (h : op ∈ popupOps fr key base popups kind) :
    ∃ box, op = .popup key kind box := by
  obtain ⟨p, -, hp⟩ := List.mem_filterMap.1 h
  dsimp only at hp
  split_ifs at hp
  rw [Option.some.injEq] at hp
  exact ⟨_, hp.symm⟩

theorem mem_redrawWindows {c : RegionCut} {inp : PaintInput} {visible : List Visible}
    {drawn : List (Visible × Region ℤ)} {op : PaintOp} (h : op ∈ redrawWindows c inp visible drawn) :
    ∃ v ∈ visible, v.geo.opaque_ = false ∧ v.w.ruled = true
      ∧ noScreenShare inp.vars v.w.key = false
      ∧ op = .redrawWindow v.w.key v.geo (redrawRegion c visible drawn v) := by
  obtain ⟨v, hv, hop⟩ := List.mem_filterMap.1 h
  dsimp only at hop
  split_ifs at hop with hskip
  rw [Option.some.injEq] at hop
  simp only [Bool.or_eq_true, Bool.not_eq_true', not_or, Bool.not_eq_true, Bool.not_eq_false]
    at hskip
  exact ⟨v, (List.mem_insertionSort _).1 hv, hskip.1.1, hskip.1.2, hskip.2, hop.symm⟩

theorem mem_redrawLayers {fr : CaptureFrame} {inp : PaintInput} {area : Region ℤ} {op : PaintOp}
    (h : op ∈ redrawLayers fr inp area) :
    ∃ l ∈ fr.desktop.layers, l.ruled = true ∧ noScreenShare inp.vars l.key = false
      ∧ ∃ clip, op = .redrawLayer l.key clip := by
  obtain ⟨level, -, hop⟩ := List.mem_flatMap.1 h
  obtain ⟨l, hl, hop⟩ := List.mem_filterMap.1 hop
  dsimp only at hop
  split_ifs at hop with hlevel hskip
  rw [Option.some.injEq] at hop
  simp only [Bool.or_eq_true, Bool.not_eq_true', not_or, Bool.not_eq_true, Bool.not_eq_false]
    at hskip
  exact ⟨l, hl, hskip.1, hskip.2, _, hop.symm⟩

theorem mem_extraRectOps {fr : CaptureFrame} {inp : PaintInput} {op : PaintOp}
    (h : op ∈ extraRectOps fr inp) : ∃ box round fill, op = .extraRect box round fill := by
  obtain ⟨r, -, hr⟩ := List.mem_filterMap.1 h
  dsimp only at hr
  split_ifs at hr <;> (rw [Option.some.injEq] at hr; exact ⟨_, _, _, hr.symm⟩)

@[simp] theorem coversSurface_popupOps (fr : CaptureFrame) (key : Key) (base : Vec)
    (popups : List (Box ℚ)) (kind : CoverKind) (k : Key) :
    coversSurface (popupOps fr key base popups kind) k = false := by
  refine coversSurface_eq_false fun op hop => ?_
  obtain ⟨box, rfl⟩ := mem_popupOps hop
  rfl

@[simp] theorem coversSurface_redrawWindows (c : RegionCut) (inp : PaintInput)
    (visible : List Visible) (drawn : List (Visible × Region ℤ)) (k : Key) :
    coversSurface (redrawWindows c inp visible drawn) k = false := by
  refine coversSurface_eq_false fun op hop => ?_
  obtain ⟨v, -, -, -, -, rfl⟩ := mem_redrawWindows hop
  rfl

@[simp] theorem coversSurface_redrawLayers (fr : CaptureFrame) (inp : PaintInput)
    (area : Region ℤ) (k : Key) : coversSurface (redrawLayers fr inp area) k = false := by
  refine coversSurface_eq_false fun op hop => ?_
  obtain ⟨l, -, -, -, clip, rfl⟩ := mem_redrawLayers hop
  rfl

@[simp] theorem coversSurface_extraRectOps (fr : CaptureFrame) (inp : PaintInput) (k : Key) :
    coversSurface (extraRectOps fr inp) k = false := by
  refine coversSurface_eq_false fun op hop => ?_
  obtain ⟨box, round, fill, rfl⟩ := mem_extraRectOps hop
  rfl

/-! ### What one loop does to one surface -/

/-- A surface that is seen and gets a cover changes its own view and no other. -/
theorem view_of_see (acc : Painted) (inp : PaintInput) (key : Key) (last : LastCover)
    {after : Painted} (hseen : after.seen = (acc.see inp key last).seen)
    (hlast : after.lastCovers = (acc.see inp key last).lastCovers) (k : Key)
    (hops : coversSurface after.ops k = (coversSurface acc.ops k || key = k)) :
    after.view k
      = if key = k then (acc.view k).see (inp.isHeld k) last else acc.view k := by
  unfold Painted.see at hseen hlast
  dsimp only at hseen hlast
  -- the surface itself was seen, or another one
  split_ifs with hk
  · subst hk
    ext1
    · simp [Painted.view, KeyView.see, hseen]
    · simp [Painted.view, KeyView.see, hops]
    -- a held surface keeps its entry
    · cases hheld : inp.isHeld key <;>
        simp [Painted.view, KeyView.see, hlast, hheld]
  · ext1
    · simp [Painted.view, hseen, Ne.symm hk]
    · simp [Painted.view, hops, hk]
    · cases hheld : inp.isHeld key <;>
        simp [Painted.view, hlast, hheld, AList.lookup_insert_ne (Ne.symm hk)]

/-- What `coverWindow` writes for the surface `k`. -/
def Visible.sighting (fr : CaptureFrame) (inp : PaintInput) (k : Key) (v : Visible) :
    Option LastCover :=
  if v.w.key = k then v.rules.map fun rules => v.lastCover fr.mon.id rules inp.now else none

/-- What `coverLayer` writes for the surface `k`. -/
def Layer.sighting (fr : CaptureFrame) (inp : PaintInput) (k : Key) (l : Layer) :
    Option LastCover :=
  if l.key = k ∧ layerCovered fr inp l then
    some (l.lastCover fr.mon.id (inp.rulesOf l.key l.rules) inp.now)
  else none

theorem view_coverWindow (fr : CaptureFrame) (inp : PaintInput) (visible : List Visible) (k : Key)
    (acc : Painted) (v : Visible) :
    (coverWindow fr inp visible acc v).view k
      = (v.sighting fr inp k).toList.foldl (KeyView.see (inp.isHeld k)) (acc.view k) := by
  -- a covered window is seen once, as itself
  have hsee : ∀ rules, v.rules = some rules →
      (v.sighting fr inp k).toList.foldl (KeyView.see (inp.isHeld k)) (acc.view k)
        = if v.w.key = k then
            (acc.view k).see (inp.isHeld k) (v.lastCover fr.mon.id rules inp.now)
          else acc.view k := by
    intro rules hrules
    unfold Visible.sighting
    split_ifs <;> simp [hrules]
  unfold coverWindow
  cases hrules : v.rules with
  | none =>
    have : v.sighting fr inp k = none := by simp [Visible.sighting, hrules]
    rw [this]
    rfl
  | some rules =>
    rw [hsee rules hrules]
    dsimp only
    generalize v.lastCover fr.mon.id rules inp.now = last
    -- left out, or covered with popups and clip: the entry is the same
    cases v.gone with
    | true =>
      refine view_of_see acc inp v.w.key last ?_ ?_ k ?_
      all_goals simp [PaintOp.covers, Painted.see]
    | false =>
      cases (visibleRegion fr.region visible v).isEmpty <;> cases v.w.x11 <;>
        refine view_of_see acc inp v.w.key last ?_ ?_ k ?_
      all_goals simp [PaintOp.covers, Painted.see]

theorem view_coverLayer (fr : CaptureFrame) (inp : PaintInput) (k : Key) (acc : Painted)
    (l : Layer) :
    (coverLayer fr inp acc l).view k
      = (l.sighting fr inp k).toList.foldl (KeyView.see (inp.isHeld k)) (acc.view k) := by
  unfold coverLayer Layer.sighting
  -- a layer that is not covered is not seen
  cases hcov : layerCovered fr inp l with
  | false => simp
  | true =>
    dsimp only
    generalize l.lastCover fr.mon.id (inp.rulesOf l.key l.rules) inp.now = last
    have hsee : (if l.key = k ∧ true = true then some last else none).toList.foldl
          (KeyView.see (inp.isHeld k)) (acc.view k)
        = if l.key = k then (acc.view k).see (inp.isHeld k) last else acc.view k := by
      split_ifs <;> simp_all
    rw [hsee]
    cases inp.left && transparentCover fr.cfg (inp.rulesOf l.key l.rules) <;>
      refine view_of_see acc inp l.key last ?_ ?_ k ?_
    all_goals simp [PaintOp.covers, Painted.see]

theorem view_foldl {α : Type} (held : Bool) (k : Key) (f : Painted → α → Painted)
    (sighting : α → Option LastCover)
    (h : ∀ acc a, (f acc a).view k = (sighting a).toList.foldl (KeyView.see held) (acc.view k)) :
    ∀ (l : List α) (acc : Painted),
      (l.foldl f acc).view k = (l.filterMap sighting).foldl (KeyView.see held) (acc.view k)
  | [], _ => rfl
  | a :: l, acc => by
    rw [List.foldl_cons, view_foldl held k f sighting h l, h]
    cases hs : sighting a with
    | none => rw [List.filterMap_cons_none hs]; rfl
    | some last => rw [List.filterMap_cons_some hs]; rfl

/-- The part of `Visible.sighting` that does not need the list of visible windows. -/
def Window.sighting (fr : CaptureFrame) (inp : PaintInput) (k : Key) (w : Window) :
    Option LastCover :=
  if w.key = k ∧ w.ruled ∧ noScreenShare inp.vars w.key then
    (w.sight fr).onScreen.map fun f => f (inp.rulesOf w.key w.rules) inp.now
  else none

/-- An index that nothing looks at. -/
theorem filterMap_zipIdx {α β : Type} (sighting : α → Option β) :
    ∀ (l : List (ℕ → α)) (n : ℕ), (∀ f ∈ l, ∀ i j, sighting (f i) = sighting (f j)) →
      ((l.zipIdx n).map fun v => v.1 v.2).filterMap sighting = l.filterMap fun f => sighting (f 0)
  | [], _, _ => rfl
  | f :: l, n, h => by
    have ih := filterMap_zipIdx sighting l (n + 1) fun g hg => h g (List.mem_cons_of_mem _ hg)
    rw [List.zipIdx_cons, List.map_cons, List.filterMap_cons, List.filterMap_cons, ih,
      h f (List.mem_cons_self ..) n 0]

theorem filterMap_visibleWindows (fr : CaptureFrame) (inp : PaintInput) (k : Key) :
    (visibleWindows fr inp).filterMap (Visible.sighting fr inp k)
      = fr.desktop.windows.filterMap (Window.sighting fr inp k) := by
  -- the place in the list does not matter for what is seen
  have hindex : ∀ f ∈ fr.desktop.windows.filterMap (visibleWindow fr inp), ∀ i j,
      Visible.sighting fr inp k (f i) = Visible.sighting fr inp k (f j) := by
    intro f hf i j
    obtain ⟨w, -, hw⟩ := List.mem_filterMap.1 hf
    obtain ⟨geo, -, rfl⟩ := Option.map_eq_some_iff.1 hw
    dsimp only
    split_ifs <;> rfl
  rw [visibleWindows, filterMap_zipIdx _ _ _ hindex, List.filterMap_filterMap]
  refine List.filterMap_congr fun w _ => ?_
  unfold visibleWindow Window.sighting Window.sight Visible.sighting
  cases windowGeo w fr.mon fr.capturePos with
  | none => simp
  | some geo =>
    -- hidden, held or shown: the rules are the same in both lists
    cases w.ruled <;> cases noScreenShare inp.vars w.key <;>
      simp [Visible.lastCover, PaintInput.rulesOf]

/-- What the paint pass finds of the surface `k`. -/
def sightings (fr : CaptureFrame) (inp : PaintInput) (k : Key) : List LastCover :=
  fr.desktop.windows.filterMap (Window.sighting fr inp k)
    ++ fr.desktop.layers.filterMap (Layer.sighting fr inp k)

/-- What the loops over windows and layers do to one surface. -/
theorem view_paintHidden (s : Shim) (fr : CaptureFrame) (inp : PaintInput) (k : Key) :
    (s.paintHidden fr inp).2.view k
      = (sightings fr inp k).foldl (KeyView.see (inp.isHeld k))
        { seen := false, covered := false, entry := s.lastCovers.lookup k } := by
  -- the windows first, then the layers, each in its loop
  have hwindows : (paintWindows fr inp (s.startFrame fr)).view k
      = (fr.desktop.windows.filterMap (Window.sighting fr inp k)).foldl
        (KeyView.see (inp.isHeld k))
        { seen := false, covered := false, entry := s.lastCovers.lookup k } := by
    rw [paintWindows, view_foldl (inp.isHeld k) k _ _ (view_coverWindow fr inp _ k),
      filterMap_visibleWindows]
    simp [Painted.view, Shim.startFrame]
  rw [sightings, List.foldl_append, ← hwindows]
  unfold Shim.paintHidden paintLayers
  dsimp only
  rw [view_foldl (inp.isHeld k) k _ _ (view_coverLayer fr inp k)]
  congr 1
  unfold Painted.view
  split_ifs <;> simp

/-! ### Forgetting entries -/

/-- The entry is one of `k`, and the frame forgets it. -/
def forgets (d : Desktop) (mon : MonitorId) (seen : List Key) (k : Key)
    (e : Sigma fun _ : Key => LastCover) : Bool :=
  e.1 = k && !e.2.stays d mon seen e.1

/-- One entry is looked at: it stays as it is or goes. -/
theorem lookup_trackOne (d : Desktop) (mon : MonitorId) (seen : List Key) (now : Instant)
    (s : Shim) (e : Sigma fun _ : Key => LastCover) (k : Key) :
    (s.trackOne d mon seen now e).lastCovers.lookup k
      = if forgets d mon seen k e then none else s.lastCovers.lookup k := by
  have herase : (s.lastCovers.erase e.1).lookup k
      = if e.1 = k then none else s.lastCovers.lookup k := by
    split_ifs with hk
    · subst hk
      exact AList.lookup_erase ..
    · exact AList.lookup_erase_ne (Ne.symm hk)
  unfold Shim.trackOne forgets
  cases e.2.stays d mon seen e.1 with
  | true => simp
  | false => simp [herase]

theorem lookup_foldl_trackOne (d : Desktop) (mon : MonitorId) (seen : List Key) (now : Instant)
    (k : Key) :
    ∀ (es : List (Sigma fun _ : Key => LastCover)) (s : Shim),
      (es.foldl (Shim.trackOne d mon seen now) s).lastCovers.lookup k
        = if es.any (forgets d mon seen k) then none else s.lastCovers.lookup k
  | [], s => by simp
  | e :: es, s => by
    rw [List.foldl_cons, lookup_foldl_trackOne d mon seen now k es, lookup_trackOne,
      List.any_cons]
    cases forgets d mon seen k e <;> cases es.any (forgets d mon seen k) <;> rfl

@[simp] theorem mem_inOrder {order : Key → ℕ} {entries : List (Sigma fun _ : Key => LastCover)}
    {e : Sigma fun _ : Key => LastCover} : e ∈ inOrder order entries ↔ e ∈ entries :=
  List.mem_insertionSort _

theorem any_inOrder (order : Key → ℕ) (entries : List (Sigma fun _ : Key => LastCover))
    (p : (Sigma fun _ : Key => LastCover) → Bool) :
    (inOrder order entries).any p = entries.any p :=
  (List.perm_insertionSort _ entries).any_eq

/-- What `trackClosed` leaves of an entry, in whatever order it goes through them. -/
theorem lookup_trackClosed (s : Shim) (d : Desktop) (mon : MonitorId) (order : Key → ℕ)
    (seen : List Key) (now : Instant) (k : Key) :
    (s.trackClosed d mon order seen now).lastCovers.lookup k
      = (s.lastCovers.lookup k).filter fun last => last.stays d mon seen k := by
  rw [Shim.trackClosed, lookup_foldl_trackOne, any_inOrder]
  -- an entry that is there is dropped if and only if the loop forgets it
  cases hlook : s.lastCovers.lookup k with
  | none => simp
  | some last =>
    have hany : s.lastCovers.entries.any (forgets d mon seen k) = !last.stays d mon seen k := by
      rw [Bool.eq_iff_iff, List.any_eq_true]
      -- the loop only meets the entry of `k` under the key `k`
      constructor
      · rintro ⟨⟨k', last'⟩, he, hforgets⟩
        simp only [forgets, Bool.and_eq_true, decide_eq_true_eq] at hforgets
        obtain ⟨rfl, hstays⟩ := hforgets
        have := AList.mem_lookup_iff.2 he
        rw [hlook, Option.mem_some_iff] at this
        rwa [this]
      · intro h
        exact ⟨⟨k, last⟩, AList.mem_lookup_iff.1 hlook, by simpa [forgets] using h⟩
    rw [hany]
    cases hstays : last.stays d mon seen k <;> simp [Option.filter, hstays]

/-! ### Closing covers -/

theorem coversSurface_paint (c : Closing) (fr : CaptureFrame) (left : Bool) (now : Instant)
    (k : Key) : coversSurface (c.paint fr left now) k = false := by
  unfold Closing.paint
  dsimp only
  split_ifs <;> simp [PaintOp.covers]

/-- Covers of closed surfaces are no covers of surfaces that are there. -/
theorem coversSurface_paintClosingLoop (fr : CaptureFrame) (left : Bool) (now : Instant) (k : Key) :
    ∀ before rest, coversSurface (paintClosingLoop fr left now before rest).2 k = false
  | before, [] => rfl
  | before, c :: rest => by
    rw [paintClosingLoop]
    split_ifs with hmon
    · exact coversSurface_paintClosingLoop fr left now k _ rest
    · simp [coversSurface_paint, coversSurface_paintClosingLoop fr left now k _ rest]

/-! ### The whole frame -/

/-- What the paint pass of a frame is given. -/
def Shim.paintInput (s : Shim) (fr : CaptureFrame) (now : Instant) : PaintInput :=
  let p := s.prepare fr now
  { vars := p.vars, held := p.held, revealed := p.revealedKeys
    left := (transparentOn s fr p.vars p.held now).leaves fr, now }

theorem render_eq_paintCovers (s : Shim) (fr : CaptureFrame) (now : Instant) :
    (s.render fr now).shim = (s.paintCovers fr (s.paintInput fr now)).1
      ∧ (s.render fr now).ops = (s.paintCovers fr (s.paintInput fr now)).2 := by
  have hpaint : (s.render fr now).vars.paint = (s.prepare fr now).vars := s.render_paint now
  have : s.paintInput fr now
      = { vars := (s.render fr now).vars.paint, held := (s.prepare fr now).held
          revealed := (s.prepare fr now).revealedKeys
          left := (s.paintInput fr now).left, now } := by
    rw [hpaint]
    rfl
  rw [this]
  exact ⟨rfl, rfl⟩

/-- What the paint pass leaves of one surface. -/
theorem paintCovers_view (s : Shim) (fr : CaptureFrame) (inp : PaintInput) (k : Key) :
    (s.paintCovers fr inp).1.lastCovers.lookup k
        = ((s.paintHidden fr inp).2.view k).entry.filter
          (keepEntry fr (((s.paintHidden fr inp).2.view k).seen || k ∈ inp.revealed))
      ∧ coversSurface (s.paintCovers fr inp).2 k = ((s.paintHidden fr inp).2.view k).covered := by
  constructor
  -- the closing covers and the pump leave the entries alone
  · have hclosing : (s.paintCovers fr inp).1.lastCovers
        = (s.remember fr inp (s.paintHidden fr inp).2).lastCovers := by
      unfold Shim.paintCovers Shim.paintClosing Shim.startPump
      dsimp only
      split_ifs <;> rfl
    rw [hclosing, Shim.remember, lookup_trackClosed]
    congr 1
    funext last
    simp [LastCover.stays, keepEntry, Painted.view]
  -- closing covers do not count for the surface itself
  · have hloop := coversSurface_paintClosingLoop fr inp.left inp.now k []
    unfold Shim.paintCovers Shim.paintClosing
    dsimp only
    split_ifs <;> simp [hloop, Painted.view]

/-! ### One surface in one frame -/

/-- Looking for one item of a list without repetitions finds it alone. -/
theorem filterMap_eq_toList {α β κ : Type} (key : α → κ) (f : α → Option β) :
    ∀ (l : List α) (a : α), (l.map key).Nodup → a ∈ l → (∀ b, key b ≠ key a → f b = none) →
      l.filterMap f = (f a).toList
  | b :: l, a, hnd, ha, hf => by
    rw [List.map_cons, List.nodup_cons] at hnd
    -- the element is the first, and no other has its key
    rcases List.mem_cons.1 ha with rfl | ha
    · have hrest : l.filterMap f = [] := by
        refine List.filterMap_eq_nil_iff.2 fun c hc => hf c ?_
        intro h
        exact hnd.1 (h ▸ List.mem_map_of_mem hc)
      cases hfa : f a <;> simp [hfa, hrest]
    -- the first has another key, so it gives nothing
    · have hb : f b = none := by
        refine hf b ?_
        intro h
        exact hnd.1 (h ▸ List.mem_map_of_mem ha)
      rw [List.filterMap_cons_none hb]
      exact filterMap_eq_toList key f l a hnd.2 ha hf

section Find

variable {β : Type} {d : Desktop} {f : Window → Option β} {g : Layer → Option β} {k : Key}

theorem Desktop.filterMap_window {w : Window} (hw : w ∈ d.windows) (hk : w.key = k)
    (hf : ∀ v, v.key ≠ k → f v = none) (hg : ∀ l, l.key ≠ k → g l = none) :
    d.windows.filterMap f ++ d.layers.filterMap g = (f w).toList := by
  subst hk
  have hnd := List.nodup_append.1 d.nodup
  have hlayers : d.layers.filterMap g = [] := by
    refine List.filterMap_eq_nil_iff.2 fun l hl => hg l fun h => ?_
    exact hnd.2.2 _ (List.mem_map_of_mem hw) _ (List.mem_map_of_mem hl) h.symm
  rw [hlayers, List.append_nil, filterMap_eq_toList Window.key f _ w hnd.1 hw hf]

theorem Desktop.filterMap_layer {l : Layer} (hl : l ∈ d.layers) (hk : l.key = k)
    (hf : ∀ v, v.key ≠ k → f v = none) (hg : ∀ l, l.key ≠ k → g l = none) :
    d.windows.filterMap f ++ d.layers.filterMap g = (g l).toList := by
  subst hk
  have hnd := List.nodup_append.1 d.nodup
  have hwindows : d.windows.filterMap f = [] := by
    refine List.filterMap_eq_nil_iff.2 fun w hw => hf w fun h => ?_
    exact hnd.2.2 _ (List.mem_map_of_mem hw) _ (List.mem_map_of_mem hl) h
  rw [hwindows, List.nil_append, filterMap_eq_toList Layer.key g _ l hnd.2.1 hl hg]

theorem Desktop.filterMap_none (hk : ∀ sf ∈ d.surfaces, sf.key ≠ k)
    (hf : ∀ v, v.key ≠ k → f v = none) (hg : ∀ l, l.key ≠ k → g l = none) :
    d.windows.filterMap f ++ d.layers.filterMap g = [] := by
  rw [List.append_eq_nil_iff, List.filterMap_eq_nil_iff, List.filterMap_eq_nil_iff]
  constructor
  · intro w hw
    exact hf w (hk w.surface (Desktop.window_surface hw))
  · intro l hl
    exact hg l (hk l.surface (Desktop.layer_surface hl))

end Find

/-- A surface of the frame, by what is found of it. -/
inductive CaptureFrame.Finds (fr : CaptureFrame) (k : Key) : Prop
  | surface (sf : Surface) (g : Sight) (hsf : sf ∈ fr.desktop.surfaces) (hk : sf.key = k)
      (hruled : sf.ruled = true) (hsight : fr.sight? k = some g)
      (hhidden : g.hidden = noScreenShare fr.desktop.vars k) (hrules : g.rules = sf.rules)
      (hpresent : g.present = sf.present)
      (hsightings : ∀ inp : PaintInput, sightings fr inp k
        = (if noScreenShare inp.vars k then
            g.onScreen.map fun f => f (inp.rulesOf k sf.rules) inp.now
          else none).toList)
  | nothing (hsight : fr.sight? k = none)
      (hruled : ∀ sf ∈ fr.desktop.surfaces, sf.key = k → sf.ruled = false)
      (hsightings : ∀ inp : PaintInput, sightings fr inp k = [])

section Finds

variable (fr : CaptureFrame) {k : Key}

theorem Window.sighting_of_ne (inp : PaintInput) (w : Window) (hw : w.key ≠ k) :
    w.sighting fr inp k = none := by
  simp [Window.sighting, hw]

theorem Layer.sighting_of_ne (inp : PaintInput) (l : Layer) (hl : l.key ≠ k) :
    l.sighting fr inp k = none := by
  simp [Layer.sighting, hl]

theorem CaptureFrame.finds_window {w : Window} (hw : w ∈ fr.desktop.windows) :
    fr.Finds w.key := by
  have hsf : w.surface ∈ fr.desktop.surfaces := Desktop.window_surface hw
  -- the surface is in the windows once, and in no other list
  have hsight : fr.sight? w.key = if w.ruled then some (w.sight fr) else none := by
    rw [CaptureFrame.sight?, Desktop.filterMap_window hw rfl]
    · cases w.ruled <;> simp
    · intro v hv
      simp [hv]
    · intro l hl
      simp [hl]
  have hsightings : ∀ inp, sightings fr inp w.key = (w.sighting fr inp w.key).toList :=
    fun inp => Desktop.filterMap_window hw rfl (Window.sighting_of_ne fr inp)
      (Layer.sighting_of_ne fr inp)
  -- rules find it only if it is ruled
  cases hruled : w.ruled with
  | true =>
    refine .surface w.surface (w.sight fr) hsf rfl hruled (by rw [hsight, hruled]; rfl) rfl rfl
      rfl fun inp => ?_
    rw [hsightings, Window.sighting, hruled]
    simp [Window.surface]
  | false =>
    refine .nothing (by rw [hsight, hruled]; rfl) (fun sf hmem hk => ?_) fun inp => ?_
    · rw [fr.desktop.surface_ext hmem hsf hk]
      exact hruled
    · rw [hsightings, Window.sighting, hruled]
      simp

theorem CaptureFrame.finds_layer {l : Layer} (hl : l ∈ fr.desktop.layers) :
    fr.Finds l.key := by
  have hsf : l.surface ∈ fr.desktop.surfaces := Desktop.layer_surface hl
  -- the surface is in the layers once, and in no other list
  have hsight : fr.sight? l.key = if l.ruled then some (l.sight fr) else none := by
    rw [CaptureFrame.sight?, Desktop.filterMap_layer hl rfl]
    · cases l.ruled <;> simp
    · intro v hv
      simp [hv]
    · intro l' hl'
      simp [hl']
  have hsightings : ∀ inp, sightings fr inp l.key = (l.sighting fr inp l.key).toList :=
    fun inp => Desktop.filterMap_layer hl rfl (Window.sighting_of_ne fr inp)
      (Layer.sighting_of_ne fr inp)
  -- rules find it only if it is ruled
  cases hruled : l.ruled with
  | true =>
    refine .surface l.surface (l.sight fr) hsf rfl hruled (by rw [hsight, hruled]; rfl) rfl rfl
      rfl fun inp => ?_
    rw [hsightings, Layer.sighting, layerCovered, hruled]
    -- visible or not, with a box or without
    cases noScreenShare inp.vars l.key <;> cases hvis : l.visible <;>
      cases hbox : decide ((layerBox fr l).w < 1) || decide ((layerBox fr l).h < 1) <;>
      simp [Layer.sight, Layer.surface, hvis, hbox]
  | false =>
    refine .nothing (by rw [hsight, hruled]; rfl) (fun sf hmem hk => ?_) fun inp => ?_
    · rw [fr.desktop.surface_ext hmem hsf hk]
      exact hruled
    · rw [hsightings, Layer.sighting, layerCovered, hruled]
      simp

/-- Every surface is found as the window or layer that it is, or not at all. -/
theorem CaptureFrame.finds (k : Key) : fr.Finds k := by
  -- a surface with the key is a window or a layer
  by_cases hsf : ∃ sf ∈ fr.desktop.surfaces, sf.key = k
  · obtain ⟨sf, hsf, rfl⟩ := hsf
    rcases List.mem_append.1 hsf with h | h
    · obtain ⟨w, hw, rfl⟩ := List.mem_map.1 h
      exact fr.finds_window hw
    · obtain ⟨l, hl, rfl⟩ := List.mem_map.1 h
      exact fr.finds_layer hl
  -- no surface has the key, so nothing sees it
  · have hk : ∀ sf ∈ fr.desktop.surfaces, sf.key ≠ k := fun sf h he => hsf ⟨sf, h, he⟩
    refine .nothing ?_ (fun sf h he => absurd he (hk sf h)) fun inp => ?_
    · rw [CaptureFrame.sight?, Desktop.filterMap_none hk]
      · rfl
      · intro v hv
        simp [hv]
      · intro l hl
        simp [hl]
    · exact Desktop.filterMap_none hk (Window.sighting_of_ne fr inp) (Layer.sighting_of_ne fr inp)

end Finds

/-! ### The frame does what `entryStep` does -/

section Sight

variable (s : Shim) {fr : CaptureFrame} (now : Instant) {k : Key}

/-- The passes over the variables treat the surface as its `Sight` says. -/
theorem paintInput_sight {sf : Surface} {g : Sight} (hsf : sf ∈ fr.desktop.surfaces)
    (hruled : sf.ruled = true) (hhidden : g.hidden = noScreenShare fr.desktop.vars sf.key)
    (hrules : g.rules = sf.rules) (hpresent : g.present = sf.present) :
    (s.paintInput fr now).isHeld sf.key = g.held fr now (s.lastCovers.lookup sf.key)
      ∧ noScreenShare (s.paintInput fr now).vars sf.key
        = g.shut fr now (s.lastCovers.lookup sf.key)
      ∧ decide (sf.key ∈ (s.paintInput fr now).revealed) = g.revealed fr := by
  -- held is read off the entry, if the surface is hidden by rules
  have hisHeld : (s.paintInput fr now).isHeld sf.key = true ↔ s.IsHeld fr now sf.key := by
    rw [PaintInput.isHeld, List.lookup_isSome_iff, Shim.IsHeld]
    simp [Shim.paintInput]
  have hheld : s.IsHeld fr now sf.key
      ↔ g.held fr now (s.lastCovers.lookup sf.key) = true := by
    rw [Shim.isHeld_iff_held? s now hsf, Shim.held?_isSome s now hsf, Sight.held, hhidden,
      hpresent, hruled]
    simp [Option.any_eq_true, and_assoc]
  refine ⟨?_, ?_, ?_⟩
  -- held, shut and revealed, one after the other
  · rw [Bool.eq_iff_iff, hisHeld, hheld]
  · rw [Bool.eq_iff_iff, Sight.shut]
    refine (Shim.noScreenShare_prepare s now hsf hruled).trans ?_
    rw [hheld, hhidden, hrules]
    simp
  · rw [Bool.eq_iff_iff, decide_eq_true_iff, Sight.revealed]
    refine (Shim.mem_revealedKeys s now hsf).trans ?_
    rw [hhidden, hrules]
    simp [hruled]

/-- A surface without a variable is not revealed. -/
theorem notMem_revealed (hruled : ∀ sf ∈ fr.desktop.surfaces, sf.key = k → sf.ruled = false) :
    k ∉ (s.paintInput fr now).revealed := by
  intro h
  obtain ⟨sf, hsf, rfl⟩ := mem_saved_imp_surface fr.desktop.vars (revealWant fr.client) h
  have := (Shim.mem_revealedKeys s now hsf).1 h
  rw [hruled sf hsf rfl] at this
  simp at this

end Sight

/-- **The shim and one surface**: a frame changes the surface's entry, and covers the surface, as
`entryStep` does. -/
theorem Shim.render_entry (s : Shim) (fr : CaptureFrame) (now : Instant) (k : Key) :
    ((s.render fr now).shim.lastCovers.lookup k, coversSurface (s.render fr now).ops k)
      = entryStep fr now k (s.lastCovers.lookup k) := by
  obtain ⟨hshim, hops⟩ := render_eq_paintCovers s fr now
  obtain ⟨hentry, hcovered⟩ := paintCovers_view s fr (s.paintInput fr now) k
  have hview := view_paintHidden s fr (s.paintInput fr now) k
  rw [hshim, hops, hentry, hcovered, hview]
  rw [entryStep]
  rcases fr.finds k with ⟨sf, g, hsf, rfl, hruled, hsight, hhidden, hrules, hpresent, hlist⟩ |
    ⟨hsight, hruled, hlist⟩
  · obtain ⟨hheld, hshut, hrevealed⟩ :=
      paintInput_sight s now hsf hruled hhidden hrules hpresent
    rw [hsight, hlist, hheld, hshut, hrevealed]
    -- a surface that is not held is remembered with its own rules
    have hown : g.held fr now (s.lastCovers.lookup sf.key) = false →
        (s.paintInput fr now).rulesOf sf.key sf.rules = g.rules := by
      intro h
      rw [← hheld, PaintInput.isHeld, Option.isSome_eq_false_iff, Option.isNone_iff_eq_none] at h
      rw [PaintInput.rulesOf, ruleValuesFor, h, hrules]
      rfl
    dsimp only
    unfold Sight.covered
    cases g.shut fr now (s.lastCovers.lookup sf.key) with
    | false => simp
    | true =>
      cases g.onScreen with
      | none => simp
      | some f =>
        cases hh : g.held fr now (s.lastCovers.lookup sf.key) with
        | true => simp [KeyView.see]
        | false =>
          have hnow : (s.paintInput fr now).now = now := rfl
          simp [KeyView.see, hown hh, hnow]
  · have := notMem_revealed s now hruled
    rw [hsight, hlist]
    simp [this]

/-! ### The entry over time -/

/-- The entry of a surface. -/
def World.entry (s : World) (k : Key) : Option LastCover := s.shim.lastCovers.lookup k

/-- A close event that starts the surface's closing cover, and with it ends its entry. -/
def ShimEvent.erases (k : Key) : ShimEvent → Bool
  | .windowClose d mgr w =>
    d.hidden w.surface && w.monitor.any mgr.beingCaptured && w.key = k
  | .layerClose d mgr l =>
    d.hidden l.surface && l.monitor.any mgr.beingCaptured && l.key = k
  | _ => false

/-- The closing cover that a close event starts, if its monitor is captured. -/
def ShimEvent.closing? (now : Instant) : ShimEvent → Option (Screenshare × Closing)
  | .windowClose d mgr w =>
    if d.hidden w.surface then w.monitor.map fun mon => (mgr, w.closing mon now) else none
  | .layerClose d mgr l =>
    if d.hidden l.surface then l.monitor.map fun mon => (mgr, l.closing mon now) else none
  | _ => none

def ShimEvent.isClose : ShimEvent → Bool
  | .windowClose .. | .layerClose .. => true
  | _ => false

/-- Windows and layers close alike. -/
theorem World.step_close (s : World) {e : ShimEvent} (he : e.isClose = true) :
    (s.step e).1 = { s with
      shim := (e.closing? s.now).elim s.shim fun p => s.shim.startClosing p.1 p.2 } := by
  cases e with
  | windowClose d mgr w =>
    rw [World.step, Shim.onWindowClose, ShimEvent.closing?]
    cases d.hidden w.surface with
    | false => rfl
    | true => cases w.monitor <;> rfl
  | layerClose d mgr l =>
    rw [World.step, Shim.onLayerClose, ShimEvent.closing?]
    cases d.hidden l.surface with
    | false => rfl
    | true => cases l.monitor <;> rfl
  | _ => cases he

/-- A closing cover that starts has no fade-out and no hold. -/
theorem ShimEvent.closing?_spec {e : ShimEvent} {now : Instant} {p : Screenshare × Closing}
    (hp : e.closing? now = some p) : p.2.fade = none ∧ p.2.holdUntil = none := by
  cases e with
  | windowClose d mgr w =>
    obtain ⟨-, hp⟩ := Option.ite_none_right_eq_some.1 hp
    obtain ⟨mon, -, rfl⟩ := Option.map_eq_some_iff.1 hp
    exact ⟨rfl, rfl⟩
  | layerClose d mgr l =>
    obtain ⟨-, hp⟩ := Option.ite_none_right_eq_some.1 hp
    obtain ⟨mon, -, rfl⟩ := Option.map_eq_some_iff.1 hp
    exact ⟨rfl, rfl⟩
  | _ => cases hp

theorem ShimEvent.erases_eq (e : ShimEvent) (now : Instant) (k : Key) :
    e.erases k
      = (e.closing? now).any fun p => p.1.beingCaptured p.2.mon && p.2.owner = k := by
  cases e with
  | windowClose d mgr w =>
    rw [ShimEvent.erases, ShimEvent.closing?]
    cases d.hidden w.surface with
    | false => rfl
    | true => cases w.monitor <;> rfl
  | layerClose d mgr l =>
    rw [ShimEvent.erases, ShimEvent.closing?]
    cases d.hidden l.surface with
    | false => rfl
    | true => cases l.monitor <;> rfl
  | _ => rfl

theorem World.now_step (s : World) (e : ShimEvent) :
    (s.step e).1.now = match e with
      | .wait d => s.now + d
      | _ => s.now := by
  cases e <;> rfl

theorem World.now_le_step (s : World) (e : ShimEvent) : s.now ≤ (s.step e).1.now := by
  rw [World.now_step]
  cases e <;> simp

@[simp] theorem World.entry_frame (s : World) (fr : CaptureFrame) (k : Key) :
    (s.step (.frame fr)).1.entry k = (entryStep fr s.now k (s.entry k)).1 :=
  congrArg Prod.fst (s.shim.render_entry fr s.now k)

@[simp] theorem World.covers_frame (s : World) (fr : CaptureFrame) (k : Key) :
    coversSurface (s.step (.frame fr)).2 k = (entryStep fr s.now k (s.entry k)).2 :=
  congrArg Prod.snd (s.shim.render_entry fr s.now k)

theorem lookup_startClosing (s : Shim) (mgr : Screenshare) (c : Closing) (k : Key) :
    (s.startClosing mgr c).lastCovers.lookup k
      = if mgr.beingCaptured c.mon && c.owner = k then none else s.lastCovers.lookup k := by
  unfold Shim.startClosing Shim.startPump
  cases mgr.beingCaptured c.mon with
  | false => simp
  | true =>
    by_cases hk : c.owner = k
    · subst hk
      simp
    · simp [hk, AList.lookup_erase_ne (Ne.symm hk)]

/-- Events that are not frames leave the entry alone, a close event apart. -/
theorem World.entry_step (s : World) (e : ShimEvent) (k : Key) (he : ∀ fr, e ≠ .frame fr) :
    (s.step e).1.entry k = if e.erases k then none else s.entry k := by
  cases e with
  | frame fr => exact absurd rfl (he fr)
  | wait d => rfl
  | tick mgr animating =>
    change (s.shim.pumpTick mgr animating s.now).lastCovers.lookup k = _
    unfold Shim.pumpTick
    split_ifs <;> first | rfl | exact absurd ‹_› Bool.false_ne_true
  | _ =>
    rw [World.step_close s rfl, ShimEvent.erases_eq _ s.now]
    cases ShimEvent.closing? s.now _ with
    | none => rfl
    | some p => exact lookup_startClosing s.shim p.1 p.2 k

/-- What is remembered of a surface on screen: the frame's monitor and time, and its rules. -/
theorem CaptureFrame.onScreen_spec {fr : CaptureFrame} {k : Key} {g : Sight}
    {f : RuleValues → Instant → LastCover} (hsight : fr.sight? k = some g)
    (hf : g.onScreen = some f) (rules : RuleValues) (now : Instant) :
    (f rules now).mon = fr.mon.id ∧ (f rules now).rules = rules ∧ (f rules now).at_ = now := by
  have hmem := List.mem_of_head? hsight
  -- a surface is seen as a window or as a layer
  rcases List.mem_append.1 hmem with h | h
  · obtain ⟨w, -, hw⟩ := List.mem_filterMap.1 h
    split_ifs at hw
    rw [Option.some.injEq] at hw
    subst hw
    obtain ⟨geo, -, rfl⟩ := Option.map_eq_some_iff.1 hf
    exact ⟨rfl, rfl, rfl⟩
  · obtain ⟨l, -, hl⟩ := List.mem_filterMap.1 h
    split_ifs at hl
    rw [Option.some.injEq] at hl
    subst hl
    unfold Layer.sight at hf
    split_ifs at hf
    rw [Option.some.injEq] at hf
    subst hf
    exact ⟨rfl, rfl, rfl⟩

end NoshareCover
