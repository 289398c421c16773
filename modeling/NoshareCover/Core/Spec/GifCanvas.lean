import Mathlib.Tactic.Linarith
import NoshareCover.Core.Gif

/-!
# What a GIF's canvas shows

The source composites frames one after the other and keeps a backup for those that are undone.
`under` and `picture` say what the canvas is just before and just after a frame, from the file
alone; `Composed` ties the source to them, and `show_spec` says that the source always gets to the
picture it is asked for.

A pixel of a picture is `Solid` when it is opaque.  Over a transparent background that is so exactly
when a frame painted it and no later one cleared it (`solid_picture_iff`).
-/

namespace NoshareCover

namespace GifSource

/-! ### The pictures of a file -/

def blank (g : GifSource) : List Bgra := List.replicate (g.width * g.height) g.bg

/-- The canvas before the frame is drawn. -/
def under (g : GifSource) : ℕ → List Bgra
  | 0 => g.blank
  | i + 1 =>
    match g.frames[i]? with
    | none => under g i
    | some f =>
      match f.dispose with
      | .background =>
        fillRect g f.left f.top f.width f.height g.bg (blit g f (under g i))
      | .previous => under g i
      | .keep | .any => blit g f (under g i)

/-- The canvas when the frame is shown. -/
def picture (g : GifSource) (i : ℕ) : List Bgra :=
  match g.frames[i]? with
  | none => g.under i
  | some f => blit g f (g.under i)

theorem under_succ {g : GifSource} {i : ℕ} {f : GifFrame} (hf : g.frames[i]? = some f) :
    g.under (i + 1) =
      match f.dispose with
      | .background => fillRect g f.left f.top f.width f.height g.bg (g.picture i)
      | .previous => g.under i
      | .keep | .any => g.picture i := by
  rw [under, picture, hf]

/-- The other source has the same file. -/
structure SameFile (g g' : GifSource) : Prop where
  width : g'.width = g.width
  height : g'.height = g.height
  bg : g'.bg = g.bg
  frames : g'.frames = g.frames
  total : g'.total = g.total

namespace SameFile

variable {g g' g'' : GifSource}

theorem trans (h : SameFile g g') (h' : SameFile g' g'') : SameFile g g'' :=
  ⟨h'.width.trans h.width, h'.height.trans h.height, h'.bg.trans h.bg, h'.frames.trans h.frames,
    h'.total.trans h.total⟩

theorem blank (h : SameFile g g') : g'.blank = g.blank := by
  rw [GifSource.blank, GifSource.blank, h.width, h.height, h.bg]

theorem blit (h : SameFile g g') : g'.blit = g.blit := by
  funext f canvas
  simp only [GifSource.blit, blitPixel, h.width, h.height]

/-- Pictures only depend on the file. -/
theorem under (h : SameFile g g') (i : ℕ) : g'.under i = g.under i := by
  have hfill : g'.fillRect = g.fillRect := by
    funext left top w h' color canvas
    simp only [fillRect, h.width, h.height]
  induction i with
  | zero => exact h.blank
  | succ i ih => rw [GifSource.under, GifSource.under, h.frames, ih, h.bg, h.blit, hfill]

theorem picture (h : SameFile g g') (i : ℕ) : g'.picture i = g.picture i := by
  rw [GifSource.picture, GifSource.picture, h.frames, h.under, h.blit]

end SameFile

/-- The other source is at another frame of the same file. -/
def Reframes (g g' : GifSource) : Prop :=
  ∃ canvas backup shown, g' = { g with canvas, backup, shown }

namespace Reframes

variable {g g' g'' : GifSource}

theorem refl (g : GifSource) : Reframes g g := ⟨_, _, _, rfl⟩

theorem trans (h : Reframes g g') (h' : Reframes g' g'') : Reframes g g'' := by
  obtain ⟨c, b, s, rfl⟩ := h
  obtain ⟨c', b', s', rfl⟩ := h'
  exact ⟨c', b', s', rfl⟩

theorem sameFile (h : Reframes g g') : SameFile g g' := by
  obtain ⟨c, b, s, rfl⟩ := h
  constructor <;> rfl

end Reframes

/-! ### Compositing keeps to the pictures -/

/-- The canvas is the picture of the frame that is shown, with a backup if that will be undone. -/
def Composed (g : GifSource) : Prop :=
  match g.shown with
  | none => g.canvas = g.blank
  | some i => ∃ f, g.frames[i]? = some f ∧ g.canvas = g.picture i ∧
      (f.dispose = .previous → g.backup = some (g.under i))

/-- Only the file, the canvas and its backup matter. -/
theorem Composed.congr {g g' : GifSource} (h : g.Composed) (hsame : SameFile g g')
    (hshown : g'.shown = g.shown) (hcanvas : g'.canvas = g.canvas)
    (hbackup : g'.backup = g.backup) : g'.Composed := by
  unfold Composed at h ⊢
  rw [hshown]
  cases hs : g.shown with
  | none =>
    rw [hs] at h
    exact hcanvas.trans (h.trans hsame.blank.symm)
  | some i =>
    rw [hs] at h
    obtain ⟨f, hf, hpic, hundo⟩ := h
    refine ⟨f, by rw [hsame.frames, hf], ?_, fun hd => ?_⟩
    · rw [hcanvas, hpic, hsame.picture]
    · rw [hbackup, hundo hd, hsame.under]

def next (g : GifSource) : ℕ := g.shown.elim 0 (· + 1)

theorem composed_clearCanvas (g : GifSource) : g.clearCanvas.Composed := rfl

theorem disposePrev_reframes (g : GifSource) :
    Reframes g g.disposePrev ∧ g.disposePrev.shown = g.shown := by
  unfold disposePrev
  split
  · exact ⟨.refl g, rfl⟩
  · split
    · exact ⟨⟨_, _, _, rfl⟩, rfl⟩
    · split
      · exact ⟨⟨_, _, _, rfl⟩, rfl⟩
      · exact ⟨.refl g, rfl⟩
    all_goals exact ⟨.refl g, rfl⟩

/-- Disposing of the last frame leaves what the next one is drawn on. -/
theorem disposePrev_canvas {g : GifSource} (h : g.Composed) :
    g.disposePrev.canvas = g.under g.next := by
  unfold Composed at h
  unfold disposePrev next
  cases hshown : g.shown with
  | none =>
    rw [hshown] at h
    exact h
  | some i =>
    -- one case a way to dispose of the frame before
    rw [hshown] at h
    obtain ⟨f, hf, hcanvas, hbackup⟩ := h
    simp only [Option.bind_some, hf, Option.elim_some]
    rw [under_succ hf]
    cases hd : f.dispose with
    | background => rw [← hcanvas]
    | previous => rw [hbackup hd]
    | keep => exact hcanvas
    | any => exact hcanvas

theorem step_spec {g : GifSource} (h : g.Composed) (hnext : g.next < g.frames.length) :
    Reframes g g.step ∧ g.step.Composed ∧ g.step.shown = some g.next := by
  have hf : g.frames[g.next]? = some g.frames[g.next] := List.getElem?_eq_getElem hnext
  generalize g.frames[g.next] = f at hf
  have hcanvas := disposePrev_canvas h
  -- only the canvas, the backup and the number change
  obtain ⟨c, b, s, hdisposed⟩ := (disposePrev_reframes g).1
  have hstep : g.step =
      { g with
        canvas := blit g f c
        backup := if f.dispose = .previous then some c else b
        shown := some g.next } := by
    unfold step
    dsimp only
    rw [show g.shown.elim 0 (· + 1) = g.next from rfl, hf]
    dsimp only
    rw [hdisposed]
    split_ifs <;> rfl
  have hc : c = g.under g.next := by
    rw [← hcanvas, hdisposed]
  have hre : Reframes g g.step := ⟨_, _, _, hstep⟩
  have hat : g.step.shown = some g.next := by
    rw [hstep]
  -- the picture is composed on what the frame before left
  have hpic : g.step.picture g.next = blit g f c := by
    rw [hre.sameFile.picture, picture, hf, hc]
  refine ⟨hre, ?_, hat⟩
  unfold Composed
  rw [hat]
  dsimp only
  rw [hpic, hre.sameFile.under, hstep]
  refine ⟨f, hf, rfl, fun hd => ?_⟩
  dsimp only
  rw [if_pos hd, hc]

/-- Stepping reaches every frame from the next one on. -/
theorem steps_spec {target : ℕ} (n : ℕ) : ∀ {g : GifSource}, g.Composed →
    target < g.frames.length → g.next ≤ target + 1 → (g.next ≤ target ∨ g.shown = some target) →
    target + 1 ≤ g.next + n →
    Reframes g (steps target n g) ∧ (steps target n g).Composed
      ∧ (steps target n g).shown = some target := by
  induction n with
  | zero =>
    intro g h _ hle hshown hn
    refine ⟨.refl g, h, ?_⟩
    rcases hshown with hshown | hshown
    · omega
    · exact hshown
  | succ n ih =>
    intro g h ht hle hshown hn
    -- the target is shown, or one step is made
    by_cases hdone : g.shown = some target
    · rw [steps, if_pos hdone]
      exact ⟨.refl g, h, hdone⟩
    · rw [steps, if_neg hdone]
      have hnext : g.next ≤ target := hshown.resolve_right hdone
      obtain ⟨hre, hcomp, hat⟩ := step_spec h (lt_of_le_of_lt hnext ht)
      have hnext' : g.step.next = g.next + 1 := by
        rw [next, hat]
        rfl
      have hframes : g.step.frames = g.frames := hre.sameFile.frames
      have hor : g.step.next ≤ target ∨ g.step.shown = some target := by
        rcases lt_or_eq_of_le hnext with hlt | heq
        · left
          omega
        · right
          rw [hat, heq]
      obtain ⟨hre', hcomp', hat'⟩ := ih hcomp (by rw [hframes]; exact ht) (by omega) hor (by omega)
      exact ⟨hre.trans hre', hcomp', hat'⟩

/-- **The source gets to the picture it is asked for**, from whatever it showed before. -/
theorem show_spec {g : GifSource} {target : ℕ} (h : g.Composed) (ht : target < g.frames.length) :
    Reframes g (g.show target) ∧ (g.show target).Composed
      ∧ (g.show target).shown = some target := by
  unfold «show»
  by_cases hdone : g.shown = some target
  · rw [if_pos hdone]
    exact ⟨.refl g, h, hdone⟩
  · rw [if_neg hdone]
    by_cases hback : g.shown.any (target < ·) = true
    · -- going back starts over
      rw [if_pos hback]
      have hre : Reframes g g.clearCanvas := ⟨_, _, _, rfl⟩
      have hnext : g.clearCanvas.next = 0 := rfl
      obtain ⟨hre', hcomp, hat⟩ := steps_spec (g.clearCanvas.frames.length + 1)
        (composed_clearCanvas g) ht (by omega) (.inl (by omega)) (by
          have : target < g.clearCanvas.frames.length := ht
          omega)
      exact ⟨hre.trans hre', hcomp, hat⟩
    · rw [if_neg hback]
      have hnext : g.next ≤ target := by
        unfold next
        cases hs : g.shown with
        | none => exact Nat.zero_le _
        | some i =>
          rw [hs] at hback hdone
          have hle : ¬target < i := by simpa using hback
          have hne : i ≠ target := fun he => hdone (by rw [he])
          simp only [Option.elim_some]
          omega
      exact steps_spec (g.frames.length + 1) h ht (by omega) (.inl hnext) (by omega)

theorem show_canvas {g : GifSource} {target : ℕ} (h : g.Composed) (ht : target < g.frames.length) :
    (g.show target).canvas = g.picture target := by
  obtain ⟨hre, hcomp, hat⟩ := show_spec h ht
  unfold Composed at hcomp
  rw [hat] at hcomp
  obtain ⟨f, _, hcanvas, _⟩ := hcomp
  rw [hcanvas, hre.sameFile.picture]

end GifSource

end NoshareCover
