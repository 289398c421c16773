import NoshareCover.Shim.Capture

/-!
# The overrides of one frame

Four passes write the top slot of the `no_screen_share` variables, one inside the other.  Each is
undone exactly, so the variables after the frame are those before it, and in between a variable is
true where the frame needs it (`Shim.overrides_stacked`).
-/

namespace NoshareCover

/-- The rules that a held surface had. -/
theorem lookup_heldOf (s : Shim) (k : Key) :
    ∀ saved : List Suppressed, (heldOf s saved).lookup k
      = if k ∈ saved.map Override.Saved.key then (s.lastCovers.lookup k).map LastCover.rules
        else none
  | [] => rfl
  | e :: saved => by
    have ih := lookup_heldOf s k saved
    unfold heldOf at ih ⊢
    rw [List.filterMap_cons, List.map_cons]
    by_cases hk : k = e.key
    -- a saved surface without an entry holds nothing
    · subst hk
      cases hlook : s.lastCovers.lookup e.key with
      | none =>
        simp only [Option.map_none]
        rw [ih, hlook]
        simp
      | some last => simp
    -- another surface is found in the rest, or not at all
    · have hmem : k ∈ e.key :: saved.map Override.Saved.key
          ↔ k ∈ saved.map Override.Saved.key := by simp [hk]
      cases hlook : s.lastCovers.lookup e.key with
      | none =>
        simp only [Option.map_none, hmem]
        exact ih
      | some last =>
        have hne : (k == e.key) = false := by simpa using hk
        simp only [Option.map_some, List.lookup_cons, hne, hmem]
        exact ih

namespace Shim

variable (s : Shim) (fr : CaptureFrame) (now : Instant)

/-- The surface is held in this frame. -/
def IsHeld (k : Key) : Prop := k ∈ (s.prepare fr now).held.map Prod.fst

/-- The variables after `revealFor` alone. -/
def revealedVars : Vars := (revealFor fr.client fr.desktop fr.desktop.vars).1

/-- What `holdUnhidden` wants for a surface. -/
def held? (sf : Surface) : Option Bool :=
  holdWant s fr.cfg fr.client (s.prepare fr now).revealedKeys now sf (revealedVars fr sf.key)

/-! ### The two passes around the frame -/

variable {fr} {sf : Surface}

theorem mem_revealedKeys (hsf : sf ∈ fr.desktop.surfaces) :
    sf.key ∈ (s.prepare fr now).revealedKeys
      ↔ sf.ruled = true ∧ noScreenShare fr.desktop.vars sf.key = true
        ∧ fr.client.sees sf.rules = true := by
  have hmem := mem_saved_overrideAll fr.desktop.vars (revealWant fr.client) hsf
  refine hmem.trans ?_
  simp [revealWant, noScreenShare, and_assoc]

theorem noScreenShare_revealedVars (hsf : sf ∈ fr.desktop.surfaces) :
    noScreenShare (revealedVars fr) sf.key = true
      ↔ noScreenShare fr.desktop.vars sf.key = true
        ∧ ¬ (sf.ruled = true ∧ fr.client.sees sf.rules = true) := by
  have hpass := noScreenShare_overrideAll fr.desktop.vars (revealWant fr.client) hsf
  rw [revealedVars, revealFor, hpass]
  unfold revealWant noScreenShare
  cases sf.ruled <;> cases fr.client.sees sf.rules <;>
    cases (fr.desktop.vars sf.key).valueOr false <;> simp

/-- A surface is wanted by `holdUnhidden` when it is there, was not hidden, and its entry's hold
is running for this client. -/
theorem held?_isSome (hsf : sf ∈ fr.desktop.surfaces) :
    (s.held? fr now sf).isSome = true
      ↔ (sf.ruled = true ∧ sf.present = true) ∧ noScreenShare fr.desktop.vars sf.key = false
        ∧ ∃ last ∈ s.lastCovers.lookup sf.key, last.holds fr.cfg fr.client now = true := by
  have hrev := noScreenShare_revealedVars hsf
  have hkeys := mem_revealedKeys s now hsf
  rw [noScreenShare] at hrev
  rw [held?, holdWant]
  by_cases hruled : sf.ruled = true
  · cases hhid : noScreenShare fr.desktop.vars sf.key with
    | true =>
      -- after the first pass it is still hidden, or it was revealed
      have : (revealedVars fr sf.key).valueOr false = true
          ∨ sf.key ∈ (s.prepare fr now).revealedKeys := by
        rw [hrev, hkeys, hhid, hruled]
        cases fr.client.sees sf.rules <;> simp
      rcases this with h | h <;> simp [h]
    | false =>
      have hval : (revealedVars fr sf.key).valueOr false = false := by
        rw [← Bool.not_eq_true, hrev, hhid]
        simp
      have hnot : sf.key ∉ (s.prepare fr now).revealedKeys := by
        rw [hkeys, hhid]
        simp
      cases sf.present <;> simp [hruled, hval, hnot, Option.any_eq_true]
  · simp [hruled]

theorem held?_getD (sf : Surface) (b : Bool) :
    (s.held? fr now sf).getD b = ((s.held? fr now sf).isSome || b) := by
  unfold held? holdWant
  split_ifs <;> simp

theorem isHeld_iff_held? (hsf : sf ∈ fr.desktop.surfaces) :
    s.IsHeld fr now sf.key ↔ (s.held? fr now sf).isSome = true := by
  -- held and saved are the same for a surface of the desktop
  have hsaved : sf.key ∈ (s.prepare fr now).heldSaved.map Override.Saved.key
      ↔ (s.held? fr now sf).isSome = true :=
    mem_saved_overrideAll (revealedVars fr) _ hsf
  rw [IsHeld, ← hsaved]
  change _ ∈ (heldOf s (s.prepare fr now).heldSaved).map Prod.fst ↔ _
  constructor
  -- a held key comes from a saved slot that has an entry
  · intro h
    obtain ⟨⟨k, rules⟩, hk, rfl⟩ := List.mem_map.1 h
    obtain ⟨e, he, hlast⟩ := List.mem_filterMap.1 hk
    obtain ⟨last, -, heq⟩ := Option.map_eq_some_iff.1 hlast
    rw [Prod.mk.injEq] at heq
    exact List.mem_map.2 ⟨e, he, heq.1⟩
  -- a saved slot was written because there is an entry
  · intro h
    obtain ⟨-, -, last, hlast, -⟩ := (held?_isSome s now hsf).1 (hsaved.1 h)
    obtain ⟨e, he, hek⟩ := List.mem_map.1 h
    refine List.mem_map.2 ⟨(sf.key, last.rules), List.mem_filterMap.2 ⟨e, he, ?_⟩, rfl⟩
    rw [hek, Option.mem_def.1 hlast]
    rfl

/-- What the two passes leave: hidden from this client, or held. -/
theorem noScreenShare_prepare (hsf : sf ∈ fr.desktop.surfaces) (hruled : sf.ruled = true) :
    noScreenShare (s.prepare fr now).vars sf.key = true
      ↔ (noScreenShare fr.desktop.vars sf.key = true ∧ fr.client.sees sf.rules = false)
        ∨ s.IsHeld fr now sf.key := by
  have hpass : noScreenShare (s.prepare fr now).vars sf.key
      = (s.held? fr now sf).getD (noScreenShare (revealedVars fr) sf.key) :=
    noScreenShare_overrideAll (revealedVars fr) _ hsf
  have hrev := noScreenShare_revealedVars hsf
  rw [hruled] at hrev
  rw [hpass, held?_getD, Bool.or_eq_true, hrev, isHeld_iff_held? s now hsf, or_comm]
  simp

/-! ### The whole frame -/

/-- The passes inside the frame are undone before the covers are painted. -/
theorem render_paint : (s.render fr now).vars.paint = (s.prepare fr now).vars := by
  unfold render
  dsimp only
  split_ifs with hleft
  · rw [suppressNoScreenShare, restore_pass, suppressNoScreenShare, restore_pass]
  · rw [suppressNoScreenShare, restore_pass]

/-- The variables are restored. -/
theorem render_after : (s.render fr now).vars.after = fr.desktop.vars := by
  have hpaint : (s.render fr now).vars.paint = (s.prepare fr now).vars := s.render_paint now
  have hheld : restoreNoScreenShare (s.prepare fr now).vars (s.prepare fr now).heldSaved
      = revealedVars fr :=
    restore_pass (revealedVars fr) _
  have hrevealed : restoreNoScreenShare (revealedVars fr) (s.prepare fr now).revealed
      = fr.desktop.vars :=
    restore_pass fr.desktop.vars _
  change restoreNoScreenShare (restoreNoScreenShare (s.render fr now).vars.paint
    (s.prepare fr now).heldSaved) (s.prepare fr now).revealed = _
  rw [hpaint, hheld, hrevealed]

/-- The surfaces left out of the image are hidden. -/
theorem noScreenShare_of_mem_transparentOn {vars : Vars} {held : Held} {k : Key}
    (h : k ∈ (transparentOn s fr vars held now).keys) : noScreenShare vars k = true := by
  rcases List.mem_append.1 h with h | h
  · obtain ⟨w, hw, rfl⟩ := List.mem_map.1 h
    have := (List.mem_filter.1 hw).2
    simp only [transparentWindow, Bool.and_eq_true] at this
    exact this.1.1.2
  · obtain ⟨l, hl, rfl⟩ := List.mem_map.1 h
    have := (List.mem_filter.1 hl).2
    simp only [transparentLayer, Bool.and_eq_true] at this
    exact this.1.1.1.2

/-- While the scene is drawn, the surfaces left out are hidden and no others. -/
theorem noScreenShare_scene {vars : Vars} {keys : List Key}
    (hscene : (s.render fr now).vars.scene = some (vars, keys)) (hsf : sf ∈ fr.desktop.surfaces)
    (hruled : sf.ruled = true) : noScreenShare vars sf.key = true ↔ sf.key ∈ keys := by
  have hscene' : (if (transparentOn s fr (s.prepare fr now).vars (s.prepare fr now).held now).leaves
      fr = true then some ((suppressNoScreenShare (transparentOn s fr (s.prepare fr now).vars
        (s.prepare fr now).held now).keys fr.desktop (s.prepare fr now).vars).1,
        (transparentOn s fr (s.prepare fr now).vars (s.prepare fr now).held now).keys)
      else none) = some (vars, keys) := hscene
  split_ifs at hscene' with hleft
  rw [Option.some.injEq, Prod.mk.injEq] at hscene'
  obtain ⟨rfl, rfl⟩ := hscene'
  rw [noScreenShare_suppress _ _ hsf hruled]
  exact ⟨fun h => h.1, fun h => ⟨h, noScreenShare_of_mem_transparentOn s now h⟩⟩

/-- While Hyprland draws, nothing is hidden. -/
theorem noScreenShare_original (hsf : sf ∈ fr.desktop.surfaces) (hruled : sf.ruled = true) :
    noScreenShare (s.render fr now).vars.original sf.key = false := by
  rw [← Bool.not_eq_true]
  intro h
  simpa using ((noScreenShare_suppress _ [] hsf hruled).1 h).1

/-- **The overrides are stacked and undone exactly**: nothing is hidden while Hyprland draws, only
the surfaces left out are while the scene is drawn, exactly the surfaces to be covered are while
the covers are painted, and every slot is back to what it was after the frame. -/
theorem overrides_stacked (s : Shim) (fr : CaptureFrame) (now : Instant) :
    (∀ sf ∈ fr.desktop.surfaces, sf.ruled = true →
        noScreenShare (s.render fr now).vars.original sf.key = false)
      ∧ (∀ vars keys, (s.render fr now).vars.scene = some (vars, keys) →
        ∀ sf ∈ fr.desktop.surfaces, sf.ruled = true →
          (noScreenShare vars sf.key = true ↔ sf.key ∈ keys))
      ∧ (∀ sf ∈ fr.desktop.surfaces, sf.ruled = true →
        (noScreenShare (s.render fr now).vars.paint sf.key = true
          ↔ (noScreenShare fr.desktop.vars sf.key = true ∧ fr.client.sees sf.rules = false)
            ∨ s.IsHeld fr now sf.key))
      ∧ (s.render fr now).vars.after = fr.desktop.vars := by
  refine ⟨fun sf hsf hruled => noScreenShare_original s now hsf hruled,
    fun vars keys hscene sf hsf hruled => noScreenShare_scene s now hscene hsf hruled,
    fun sf hsf hruled => ?_, render_after s now⟩
  rw [render_paint]
  exact noScreenShare_prepare s now hsf hruled

end Shim

end NoshareCover
