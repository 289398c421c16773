import NoshareCover.Lib.Run
import NoshareCover.Shim.TextureCache

/-!
# What the texture cache hands out

A texture that was just made is only handed out if it is `ok`, but the shortcut for a generation
that the cache already has hands out what is there.  `textures_good_iff` says when all textures of a
run work and hold the picture of the frame.
-/

namespace NoshareCover

namespace TextureCache

open Machine

/-! ### Good textures -/

/-- The texture works and holds the picture of the frame. -/
def Good (f : NscFrame) (t : GpuTexture) : Prop := t.ok = true ∧ f.picture = some t.picture

/-- The call returns null or a good texture. -/
def ReturnsGood (c : TextureCache) : Event → Prop
  | .textureFor epoch f created => ∀ t ∈ (c.textureFor epoch f created).2, Good f t
  | .prune _ => True

/-- A texture in the cache, and what it stands for. -/
structure Entry where
  coverId : ℕ
  generation : ℕ
  epoch : ℕ
  tex : GpuTexture

/-- The call makes or updates a texture. -/
def Makes (c : TextureCache) (m : Entry) : Event → Prop
  | .textureFor epoch f created =>
    m.coverId = f.coverId ∧ m.generation = f.generation ∧ m.epoch = epoch
      ∧ ((c.sync epoch).textures f.coverId).hit f = false
      ∧ ∃ picture, f.picture = some picture
        ∧ (((c.sync epoch).textures f.coverId).updated picture).or (created.texture picture)
          = some m.tex
  | .prune _ => False

/-- While the texture is in the cache, calls for its cover and generation are with its own picture,
and there is none if it does not work.  It is gone when the core resets or closes its covers, or
when a texture is made for another generation. -/
def Kept (m : Entry) : List Event → Prop
  | [] => True
  | .prune alive :: rest => alive m.coverId = true → Kept m rest
  | .textureFor epoch f _ :: rest =>
    epoch = m.epoch →
      if f.coverId ≠ m.coverId then Kept m rest
      else if f.generation = m.generation then Good f m.tex ∧ Kept m rest
      else f.picture = none → Kept m rest

/-! ### One call -/

/-- The cache has a good texture for the frame, or none of its generation. -/
def HitsGood (c : TextureCache) : Event → Prop
  | .textureFor epoch f _ =>
    ((c.sync epoch).textures f.coverId).hit f = true →
      ∀ t ∈ ((c.sync epoch).textures f.coverId).tex, Good f t
  | .prune _ => True

/-- What is made for a picture shows it. -/
theorem picture_of_made {entry : CachedTexture} {picture : FramePicture} {created : Created}
    {t : GpuTexture} (h : (entry.updated picture).or (created.texture picture) = some t) :
    t.picture = picture := by
  rcases Option.or_eq_some_iff.1 h with hupdated | ⟨-, hcreated⟩
  · unfold CachedTexture.updated at hupdated
    split at hupdated
    · split_ifs at hupdated
      exact congrArg GpuTexture.picture (Option.some.inj hupdated).symm
    · cases hupdated
  · cases created <;> cases hcreated <;> rfl

/-- What a call makes is good, or not handed out. -/
theorem returnsGood_iff (c : TextureCache) (e : Event) : c.ReturnsGood e ↔ c.HitsGood e := by
  cases e with
  | prune alive => exact Iff.rfl
  | textureFor epoch f created =>
    unfold ReturnsGood HitsGood textureFor
    dsimp only
    cases hhit : ((c.sync epoch).textures f.coverId).hit f with
    | true => simp
    | false =>
      -- a new texture is made of the picture itself
      refine iff_of_true ?_ (fun h => by cases h)
      rw [if_neg Bool.false_ne_true]
      cases hpicture : f.picture with
      | none => exact fun t ht => absurd ht (Option.not_mem_none t)
      | some picture =>
        intro t ht
        obtain ⟨hmade, hok⟩ := Option.mem_filter_iff.1 ht
        exact ⟨hok, hpicture.trans (congrArg some (picture_of_made hmade).symm)⟩

/-- The entry of a cover that has a texture. -/
def entryOf (c : TextureCache) (id : ℕ) (tex : GpuTexture) : Entry :=
  { coverId := id, generation := (c.textures id).generation, epoch := c.epoch, tex }

/-- Everything in the cache is kept. -/
def AllKept (c : TextureCache) (rest : List Event) : Prop :=
  ∀ id, ∀ t ∈ (c.textures id).tex, Kept (c.entryOf id t) rest

theorem hit_iff {entry : CachedTexture} {f : NscFrame} {t : GpuTexture} (ht : t ∈ entry.tex) :
    entry.hit f = true ↔ f.generation = entry.generation := by
  unfold CachedTexture.hit
  rw [Option.mem_def.1 ht, Option.isSome_some, Bool.true_and, decide_eq_true_iff, eq_comm]

/-- After a reset nothing is left to be kept. -/
theorem allKept_sync (c : TextureCache) (epoch : ℕ) (f : NscFrame) (created : Created)
    (rest : List Event) :
    c.AllKept (.textureFor epoch f created :: rest)
      ↔ (c.sync epoch).AllKept (.textureFor epoch f created :: rest) := by
  unfold sync
  split_ifs with hreset
  · refine iff_of_true (fun id t _ hepoch => absurd hepoch hreset) fun id t ht => ?_
    cases ht
  · exact Iff.rfl

theorem kept_call (m : Entry) (epoch : ℕ) (f : NscFrame) (created : Created) (rest : List Event) :
    Kept m (.textureFor epoch f created :: rest)
      ↔ (epoch = m.epoch →
        if f.coverId ≠ m.coverId then Kept m rest
        else if f.generation = m.generation then Good f m.tex ∧ Kept m rest
        else f.picture = none → Kept m rest) := Iff.rfl

/-- A new entry takes the place of the old one. -/
theorem allKept_update (c : TextureCache) (id : ℕ) (entry : CachedTexture) (rest : List Event) :
    AllKept { c with textures := Function.update c.textures id entry } rest
      ↔ (∀ id', id' ≠ id → ∀ t ∈ (c.textures id').tex, Kept (c.entryOf id' t) rest)
        ∧ ∀ t ∈ entry.tex,
          Kept { coverId := id, generation := entry.generation, epoch := c.epoch, tex := t } rest := by
  unfold AllKept entryOf
  dsimp only
  constructor
  -- split by the key that was written
  · intro h
    refine ⟨fun id' hid t ht => ?_, fun t ht => ?_⟩
    · have hkept := h id' t
      rw [Function.update_of_ne hid] at hkept
      exact hkept ht
    · have hkept := h id t
      rw [Function.update_self] at hkept
      exact hkept ht
  · rintro ⟨hothers, hnew⟩ id' t ht
    -- the new entry under `id`, the old ones elsewhere
    by_cases hid : id' = id
    · subst hid
      rw [Function.update_self] at ht ⊢
      exact hnew t ht
    · rw [Function.update_of_ne hid] at ht ⊢
      exact hothers id' hid t ht

section Call

variable {c : TextureCache} {epoch : ℕ} {f : NscFrame} {created : Created} {rest : List Event}

theorem kept_other {id : ℕ} {t : GpuTexture} (hepoch : c.epoch = epoch) (hid : id ≠ f.coverId) :
    Kept (c.entryOf id t) (.textureFor epoch f created :: rest) ↔ Kept (c.entryOf id t) rest := by
  rw [kept_call, show (c.entryOf id t).coverId = id from rfl, if_pos hid.symm]
  exact imp_iff_right hepoch.symm

theorem kept_own {t : GpuTexture} (hepoch : c.epoch = epoch)
    (ht : t ∈ (c.textures f.coverId).tex) :
    Kept (c.entryOf f.coverId t) (.textureFor epoch f created :: rest)
      ↔ if (c.textures f.coverId).hit f = true
        then Good f t ∧ Kept (c.entryOf f.coverId t) rest
        else f.picture = none → Kept (c.entryOf f.coverId t) rest := by
  rw [kept_call, show (c.entryOf f.coverId t).coverId = f.coverId from rfl,
    if_neg (not_not.2 rfl), imp_iff_right (show epoch = (c.entryOf f.coverId t).epoch from hepoch.symm)]
  split_ifs with hgen hhit hhit
  · exact Iff.rfl
  · exact absurd ((hit_iff ht).2 hgen) hhit
  · exact absurd ((hit_iff ht).1 hhit) hgen
  · exact Iff.rfl

/-- A call that changes nothing in the cache. -/
theorem allKept_call_of_same (hepoch : c.epoch = epoch)
    (hsame : (c.textures f.coverId).hit f = true ∨ f.picture = none) :
    ((c.textures f.coverId).hit f = true → ∀ t ∈ (c.textures f.coverId).tex, Good f t)
        ∧ c.AllKept rest
      ↔ c.AllKept (.textureFor epoch f created :: rest) := by
  constructor
  · rintro ⟨hgood, hkept⟩ id t ht
    -- the call keeps what it shows, and what it didn't look at
    by_cases hid : id = f.coverId
    · subst hid
      rw [kept_own hepoch ht]
      split_ifs with hhit
      · exact ⟨hgood hhit t ht, hkept _ t ht⟩
      · exact fun _ => hkept _ t ht
    · exact (kept_other hepoch hid).2 (hkept id t ht)
  · intro hkept
    refine ⟨fun hhit t ht => ?_, fun id t ht => ?_⟩
    · have hown := (kept_own hepoch ht).1 (hkept _ t ht)
      rw [if_pos hhit] at hown
      exact hown.1
    -- without a picture the old texture stays too
    · by_cases hid : id = f.coverId
      · subst hid
        have hown := (kept_own hepoch ht).1 (hkept _ t ht)
        split_ifs at hown with hhit
        · exact hown.2
        · exact hown (hsame.resolve_left hhit)
      · exact (kept_other hepoch hid).1 (hkept id t ht)

/-- **One call**, in the epoch of the cache: what is in the cache is kept, and what the call makes is
kept from then on. -/
theorem call_kept_iff (hepoch : c.epoch = epoch) :
    c.HitsGood (.textureFor epoch f created) ∧ (c.textureFor epoch f created).1.AllKept rest
      ↔ c.AllKept (.textureFor epoch f created :: rest)
        ∧ ∀ m, c.Makes m (.textureFor epoch f created) → Kept m rest := by
  have hsync : c.sync epoch = c := if_neg (not_not.2 hepoch.symm)
  simp only [HitsGood, Makes, textureFor, hsync]
  cases hhit : (c.textures f.coverId).hit f with
  | true =>
    have hkept := @allKept_call_of_same _ _ _ created rest hepoch (.inl hhit)
    rw [hhit] at hkept
    rw [if_pos rfl, hkept]
    exact (and_iff_left fun m hm => absurd hm.2.2.2.1 (by decide)).symm
  | false =>
    rw [if_neg Bool.false_ne_true]
    cases hpicture : f.picture with
    | none =>
      have hkept := @allKept_call_of_same _ _ _ created rest hepoch (.inr hpicture)
      rw [hhit] at hkept
      dsimp only
      rw [hkept]
      exact (and_iff_left fun m hm => by
        obtain ⟨-, -, -, -, picture, hsome, -⟩ := hm
        cases hsome).symm
    | some picture =>
      dsimp only
      -- the new texture takes the place of the old one
      refine (and_iff_right fun h => by cases h).trans ((allKept_update ..).trans ?_)
      constructor
      · rintro ⟨hothers, hnew⟩
        refine ⟨fun id t ht => ?_, fun m hm => ?_⟩
        · by_cases hid : id = f.coverId
          · subst hid
            rw [kept_own hepoch ht, hhit, if_neg Bool.false_ne_true, hpicture]
            exact fun h => by cases h
          · exact (kept_other hepoch hid).2 (hothers id hid t ht)
        · obtain ⟨hid, hgen, hmepoch, -, picture', hpicture', htex⟩ := hm
          cases hpicture'
          have hkept := hnew m.tex htex
          rwa [← hid, ← hgen, hepoch, ← hmepoch] at hkept
      · rintro ⟨hkept, hmade⟩
        refine ⟨fun id hid t ht => (kept_other hepoch hid).1 (hkept id t ht), fun t ht => ?_⟩
        exact hmade _ ⟨rfl, rfl, hepoch, rfl, picture, rfl, ht⟩

end Call

/-- **One step** of the cache. -/
theorem step_kept_iff (c : TextureCache) (e : Event) (rest : List Event) :
    c.HitsGood e ∧ (c.step e).1.AllKept rest
      ↔ c.AllKept (e :: rest) ∧ ∀ m, c.Makes m e → Kept m rest := by
  cases e with
  -- pruned: what is left must be kept, what is gone need not
  | prune alive =>
    refine (and_iff_right trivial).trans (Iff.trans ?_ (and_iff_left fun m hm => hm.elim).symm)
    constructor
    · intro hkept id t ht halive
      have hkept' := hkept id t
      simp only [step, prune, entryOf] at hkept'
      rw [if_pos (show alive id = true from halive)] at hkept'
      exact hkept' ht
    · intro hkept id t ht
      simp only [step, prune, entryOf] at ht ⊢
      split_ifs at ht ⊢ with halive
      · exact hkept id t ht halive
      · cases ht
  -- the first step of a call is to drop everything of an older epoch
  | textureFor epoch f created =>
    have hsync : (c.sync epoch).sync epoch = c.sync epoch := by
      unfold sync
      split_ifs <;> rfl
    have hepoch : (c.sync epoch).epoch = epoch := by
      unfold sync
      split_ifs with hreset
      · rfl
      · exact (not_not.1 hreset).symm
    have hcall := @call_kept_iff _ _ f created rest hepoch
    rw [← allKept_sync] at hcall
    simp only [HitsGood, Makes, textureFor, hsync] at hcall
    simp only [HitsGood, Makes, step, textureFor]
    exact hcall

/-- **A run**: all its hits are good if and only if what is in the cache and what the run makes is
kept. -/
theorem hitsGood_iff (c : TextureCache) (es : List Event) :
    AtEach step (fun c e _ => c.HitsGood e) c es
      ↔ c.AllKept es ∧ AtEach step (fun c e rest => ∀ m, c.Makes m e → Kept m rest) c es := by
  induction es generalizing c with
  | nil => exact iff_of_true (atEach_nil c) ⟨fun _ _ _ => trivial, atEach_nil c⟩
  | cons e es ih =>
    rw [atEach_cons, atEach_cons, ih, ← and_assoc, step_kept_iff, and_assoc]

/-- **The textures that a run hands out** all work and hold the picture of the frame if and only if
every texture that it makes is kept. -/
theorem textures_good_iff (calls : List Event) :
    AtEach step (fun c e _ => c.ReturnsGood e) init calls
      ↔ AtEach step (fun c e rest => ∀ m, c.Makes m e → Kept m rest) init calls := by
  have hempty : init.AllKept calls := fun id t ht => absurd ht (Option.not_mem_none t)
  have hhits := hitsGood_iff init calls
  rw [and_iff_right hempty] at hhits
  rw [← hhits]
  exact forall₄_congr fun a e b _ => returnsGood_iff _ e

/-- A black pixel. -/
def exampleNscFrame : NscFrame :=
  { coverId := 1, generation := 1, kind := 1, width := 1, height := 1, stride := 4
    pixels := some [0, 0, 0, 255], fourcc := 0x34325241, modifier := 0, planeCount := 0
    planes := [] }

/-- The renderer makes a texture that does not work, and the same frame is drawn again: what comes
back draws nothing. -/
theorem broken_texture_handed_out :
    (init.textureFor 0 exampleNscFrame .broken).2 = none
      ∧ ((init.textureFor 0 exampleNscFrame .broken).1.textureFor 0 exampleNscFrame .working).2
        = some { ok := false, picture := .cpu 0x34325241 1 1 4 [0, 0, 0, 255] }
      ∧ ¬ AtEach step (fun c e _ => c.ReturnsGood e) init
        [.textureFor 0 exampleNscFrame .broken, .textureFor 0 exampleNscFrame .working] := by
  have hsecond : ((init.textureFor 0 exampleNscFrame .broken).1.textureFor 0 exampleNscFrame
      .working).2 = some { ok := false, picture := .cpu 0x34325241 1 1 4 [0, 0, 0, 255] } := by decide
  refine ⟨by decide, hsecond, fun h => ?_⟩
  have hgood := h [_] _ [] rfl _ (Option.mem_def.2 hsecond)
  exact Bool.false_ne_true hgood.1

end TextureCache

end NoshareCover
