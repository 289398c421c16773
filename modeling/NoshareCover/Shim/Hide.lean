import NoshareCover.Shim.Closing

/-!
# Overriding `no_screen_share` for one frame

The passes over all surfaces that write the top slot of their variables: what the client may see,
what is held, and what is switched off while Hyprland draws.
-/

namespace NoshareCover

/-- What `SSuppressed` remembers; the address stands for the variable. -/
abbrev Suppressed := Override.Saved Key Bool

/-- The surfaces that are held, with the rules they had while hidden. -/
abbrev Held := List (Key × RuleValues)

/-- A held surface has the rules it had while hidden. -/
def ruleValuesFor (held : Held) (key : Key) (rules : RuleValues) : RuleValues :=
  (held.lookup key).getD rules

/-- `noScreenShare().valueOrDefault()`. -/
def noScreenShare (vars : Vars) (key : Key) : Bool := (vars key).valueOr false

/-! ### The passes -/

/-- The surfaces that the client may see are not hidden from it. -/
def revealWant (client : CaptureClient) (sf : Surface) (v : Override.Slots Bool) : Option Bool :=
  if sf.ruled && v.valueOr false && client.sees sf.rules then some false else none

def revealFor (client : CaptureClient) (d : Desktop) (vars : Vars) : Vars × List Suppressed :=
  Override.overrideAll Surface.key (revealWant client) vars d.surfaces

/-- The entry's hold is running, and the client doesn't see the surface with the rules it had. -/
def LastCover.holds (last : LastCover) (cfg : ShimConfig) (client : CaptureClient)
    (now : Instant) : Bool :=
  now < last.at_ + holdFor cfg last.rules && !client.sees last.rules

/-- A surface that just stopped being hidden keeps its cover. -/
def holdWant (s : Shim) (cfg : ShimConfig) (client : CaptureClient) (revealed : List Key)
    (now : Instant) (sf : Surface) (v : Override.Slots Bool) : Option Bool :=
  if !sf.ruled || !sf.present || v.valueOr false || sf.key ∈ revealed then none
  else if (s.lastCovers.lookup sf.key).any fun last => last.holds cfg client now then some true
  else none

def holdUnhidden (s : Shim) (cfg : ShimConfig) (client : CaptureClient) (revealed : List Key)
    (now : Instant) (d : Desktop) (vars : Vars) : Vars × List Suppressed :=
  Override.overrideAll Surface.key (holdWant s cfg client revealed now) vars d.surfaces

/-- `g_held` and `g_heldRules` after `holdUnhidden`. -/
def heldOf (s : Shim) (saved : List Suppressed) : Held :=
  saved.filterMap fun e => (s.lastCovers.lookup e.key).map fun last => (e.key, last.rules)

/-- A hidden surface, unless it is to be kept. -/
def suppressWant (keep : List Key) (sf : Surface) (v : Override.Slots Bool) : Option Bool :=
  if sf.ruled && sf.key ∉ keep && v.valueOr false then some false else none

def suppressNoScreenShare (keep : List Key) (d : Desktop) (vars : Vars) :
    Vars × List Suppressed :=
  Override.overrideAll Surface.key (suppressWant keep) vars d.surfaces

def restoreNoScreenShare (vars : Vars) (suppressed : List Suppressed) : Vars :=
  Override.restore vars suppressed

/-! ### What the passes leave -/

section Spec

variable {d : Desktop} {sf : Surface} (vars : Vars)

/-- What a pass leaves in the variable of a surface. -/
theorem noScreenShare_overrideAll (want : Surface → Override.Slots Bool → Option Bool)
    (hsf : sf ∈ d.surfaces) :
    noScreenShare (Override.overrideAll Surface.key want vars d.surfaces).1 sf.key
      = (want sf (vars sf.key)).getD (noScreenShare vars sf.key) := by
  unfold noScreenShare
  rw [Override.overrideAll_apply Surface.key want vars d.surfaces sf d.surfaces_nodup hsf]
  cases want sf (vars sf.key) with
  | none => rfl
  | some b => rfl

/-- A pass takes up a surface when it wants a value for its variable. -/
theorem mem_saved_overrideAll (want : Surface → Override.Slots Bool → Option Bool)
    (hsf : sf ∈ d.surfaces) :
    sf.key ∈ (Override.overrideAll Surface.key want vars d.surfaces).2.map Override.Saved.key
      ↔ (want sf (vars sf.key)).isSome = true := by
  rw [Override.mem_overrideAll_saved Surface.key want vars d.surfaces d.surfaces_nodup]
  constructor
  · rintro ⟨sf', hsf', hk, h⟩
    obtain rfl := d.surface_ext hsf' hsf hk
    exact h
  · intro h
    exact ⟨sf, hsf, rfl, h⟩

/-- The pass of a desktop without the surface leaves its variable alone. -/
theorem mem_saved_imp_surface (want : Surface → Override.Slots Bool → Option Bool) {k : Key}
    (h : k ∈ (Override.overrideAll Surface.key want vars d.surfaces).2.map Override.Saved.key) :
    ∃ sf ∈ d.surfaces, sf.key = k := by
  rw [Override.mem_overrideAll_saved Surface.key want vars d.surfaces d.surfaces_nodup] at h
  obtain ⟨sf, hsf, hk, -⟩ := h
  exact ⟨sf, hsf, hk⟩

theorem restore_pass (want : Surface → Override.Slots Bool → Option Bool) :
    restoreNoScreenShare (Override.overrideAll Surface.key want vars d.surfaces).1
      (Override.overrideAll Surface.key want vars d.surfaces).2 = vars :=
  Override.restore_overrideAll Surface.key want vars d.surfaces d.surfaces_nodup

/-- Switched off: only the surfaces to be kept are still hidden. -/
theorem noScreenShare_suppress (keep : List Key) (hsf : sf ∈ d.surfaces) (hruled : sf.ruled = true) :
    noScreenShare (suppressNoScreenShare keep d vars).1 sf.key = true
      ↔ sf.key ∈ keep ∧ noScreenShare vars sf.key = true := by
  rw [suppressNoScreenShare, noScreenShare_overrideAll vars _ hsf, suppressWant, hruled]
  by_cases hk : sf.key ∈ keep
  · simp [hk]
  · cases h : noScreenShare vars sf.key with
    | true => simp [hk, show (vars sf.key).valueOr false = true from h]
    | false => simp [hk, show (vars sf.key).valueOr false = false from h]

end Spec

end NoshareCover
