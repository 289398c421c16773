import NoshareCover.Core.Spec.Beginning
import NoshareCover.Core.Spec.Generations
import NoshareCover.Shim.CoverTexture
import NoshareCover.Shim.Spec.TextureCache

/-!
# The texture of a cover shows the frame of the cover

The cache only compares cover ids and generations.  It is right to do so because the core hands out
no two pictures under one id and generation: every texture in the cache has the picture of a view in
the history of the core, and the history says that the view at hand has the same picture.  This goes
on across resets, covers that are closed and opened again, and textures that are dropped
(`Display.shows_current`), for any sources with generations that increase, and those of all opened
files do (`Display.textures_current`).
-/

namespace NoshareCover

open Machine

/-! ### Textures in the cache -/

namespace TextureCache

/-- Every texture of the cache shows a picture that `known` has for its cover and generation. -/
def Shows (known : ℕ → ℕ → FramePicture → Prop) (c : TextureCache) : Prop :=
  ∀ id, ∀ t ∈ (c.textures id).tex, known id (c.textures id).generation t.picture

/-- Every texture of the cache works. -/
def Works (c : TextureCache) : Prop := ∀ id, ∀ t ∈ (c.textures id).tex, t.ok = true

variable {c : TextureCache} {known : ℕ → ℕ → FramePicture → Prop} {f : NscFrame}

theorem Shows.mono {known' : ℕ → ℕ → FramePicture → Prop}
    (hknown : ∀ id n picture, known id n picture → known' id n picture) (h : c.Shows known) :
    c.Shows known' :=
  fun id t ht => hknown _ _ _ (h id t ht)

theorem Shows.sync (h : c.Shows known) (epoch : ℕ) : (c.sync epoch).Shows known := by
  unfold TextureCache.sync
  split_ifs
  · exact fun id t ht => absurd ht (Option.not_mem_none t)
  · exact h

theorem Works.sync (h : c.Works) (epoch : ℕ) : (c.sync epoch).Works := by
  unfold TextureCache.sync
  split_ifs
  · exact fun id t ht => absurd ht (Option.not_mem_none t)
  · exact h

theorem Shows.prune (h : c.Shows known) (alive : ℕ → Bool) : (c.prune alive).Shows known := by
  intro id t ht
  unfold TextureCache.prune at ht ⊢
  dsimp only at ht ⊢
  split_ifs at ht ⊢
  · exact h id t ht
  · exact absurd ht (Option.not_mem_none t)

theorem Works.prune (h : c.Works) (alive : ℕ → Bool) : (c.prune alive).Works := by
  intro id t ht
  unfold TextureCache.prune at ht
  dsimp only at ht
  split_ifs at ht
  · exact h id t ht
  · exact absurd ht (Option.not_mem_none t)

/-- What a call does: the cache has the generation, there is nothing to make a texture of, or a
texture takes the place of the old one. -/
theorem textureFor_cases (c : TextureCache) (epoch : ℕ) (f : NscFrame) (created : Created) :
    ((c.textureFor epoch f created) = (c.sync epoch, ((c.sync epoch).textures f.coverId).tex)
        ∧ ((c.sync epoch).textures f.coverId).hit f = true)
      ∨ (c.textureFor epoch f created = (c.sync epoch, none) ∧ f.picture = none)
      ∨ ∃ picture entry, f.picture = some picture
        ∧ entry.tex = (((c.sync epoch).textures f.coverId).updated picture).or
          (created.texture picture)
        ∧ entry.generation = f.generation
        ∧ c.textureFor epoch f created
          = ({ c.sync epoch with
                textures := Function.update (c.sync epoch).textures f.coverId entry },
              entry.tex.filter GpuTexture.ok) := by
  unfold textureFor
  dsimp only
  -- the cached texture, no picture at all, or a new texture
  split_ifs with hhit
  · exact .inl ⟨rfl, hhit⟩
  · cases hpicture : f.picture with
    | none => exact .inr (.inl ⟨rfl, rfl⟩)
    | some picture => exact .inr (.inr ⟨picture, _, rfl, rfl, rfl, rfl⟩)

theorem Shows.textureFor (h : c.Shows known)
    (hf : ∀ picture ∈ f.picture, known f.coverId f.generation picture) (epoch : ℕ)
    (created : Created) : (c.textureFor epoch f created).1.Shows known := by
  have hsync := h.sync epoch
  rcases c.textureFor_cases epoch f created with
    ⟨heq, -⟩ | ⟨heq, -⟩ | ⟨picture, entry, hpicture, htex, hgen, heq⟩ <;> rw [heq]
  · exact hsync
  · exact hsync
  · intro id t ht
    dsimp only at ht ⊢
    -- only the entry of the cover changes
    by_cases hid : id = f.coverId
    · subst hid
      rw [Function.update_self] at ht ⊢
      rw [htex] at ht
      rw [hgen, picture_of_made ht]
      exact hf picture hpicture
    · rw [Function.update_of_ne hid] at ht ⊢
      exact hsync id t ht

theorem updated_ok {entry : CachedTexture} {picture : FramePicture} {t : GpuTexture}
    (h : entry.updated picture = some t) : t.ok = true := by
  unfold CachedTexture.updated at h
  split at h
  · split_ifs at h with hsame
    rw [Bool.and_eq_true] at hsame
    exact Option.some.inj h ▸ hsame.2
  · cases h

/-- What is made works, unless it was created broken. -/
theorem ok_of_made {entry : CachedTexture} {picture : FramePicture} {created : Created}
    {t : GpuTexture} (h : (entry.updated picture).or (created.texture picture) = some t)
    (hcreated : created ≠ .broken) : t.ok = true := by
  rcases Option.or_eq_some_iff.1 h with hupdated | ⟨-, hmade⟩
  · exact updated_ok hupdated
  · cases created with
    | null => cases hmade
    | broken => exact absurd rfl hcreated
    | working => exact (Option.some.inj hmade) ▸ rfl

theorem Works.textureFor (h : c.Works) {created : Created} (hcreated : created ≠ .broken)
    (epoch : ℕ) (f : NscFrame) : (c.textureFor epoch f created).1.Works := by
  have hsync := h.sync epoch
  rcases c.textureFor_cases epoch f created with
    ⟨heq, -⟩ | ⟨heq, -⟩ | ⟨picture, entry, hpicture, htex, hgen, heq⟩ <;> rw [heq]
  · exact hsync
  · exact hsync
  · intro id t ht
    dsimp only at ht
    by_cases hid : id = f.coverId
    · subst hid
      rw [Function.update_self, htex] at ht
      exact ok_of_made ht hcreated
    · rw [Function.update_of_ne hid] at ht
      exact hsync id t ht

/-- What comes back shows the frame, if no other picture is known under its cover and generation. -/
theorem Shows.returned (h : c.Shows known)
    (hf : ∀ picture, known f.coverId f.generation picture → f.picture = some picture) (epoch : ℕ)
    (created : Created) : ∀ t ∈ (c.textureFor epoch f created).2, f.picture = some t.picture := by
  intro t ht
  rcases c.textureFor_cases epoch f created with
    ⟨heq, hhit⟩ | ⟨heq, -⟩ | ⟨picture, entry, hpicture, htex, hgen, heq⟩ <;> rw [heq] at ht
  · have hknown := h.sync epoch f.coverId t ht
    rw [← (hit_iff ht).1 hhit] at hknown
    exact hf _ hknown
  · cases ht
  · obtain ⟨hmade, -⟩ := Option.mem_filter_iff.1 ht
    rw [htex] at hmade
    rw [hpicture, picture_of_made hmade]

theorem Works.returned (h : c.Works) (epoch : ℕ) (f : NscFrame) (created : Created) :
    ∀ t ∈ (c.textureFor epoch f created).2, t.ok = true := by
  intro t ht
  rcases c.textureFor_cases epoch f created with
    ⟨heq, hhit⟩ | ⟨heq, -⟩ | ⟨picture, entry, -, -, -, heq⟩ <;> rw [heq] at ht
  · exact h.sync epoch _ t ht
  · cases ht
  · exact (Option.mem_filter_iff.1 ht).2

/-- When the renderer makes textures that work, every frame with a picture gets one. -/
theorem returns_some (c : TextureCache) (epoch : ℕ) {picture : FramePicture}
    (hpicture : f.picture = some picture) : (c.textureFor epoch f .working).2.isSome := by
  -- only a frame without a picture returns nothing
  rcases c.textureFor_cases epoch f .working with
    ⟨heq, hhit⟩ | ⟨-, hnone⟩ | ⟨picture', entry, -, htex, -, heq⟩
  · rw [heq]
    unfold CachedTexture.hit at hhit
    exact (Bool.and_eq_true_iff.1 hhit).1
  · rw [hnone] at hpicture
    cases hpicture
  -- the old texture was updated, or the device made a new one
  · obtain ⟨t, ht⟩ : ∃ t, entry.tex = some t := by
      rw [htex]
      cases ((c.sync epoch).textures f.coverId).updated picture' with
      | none => exact ⟨_, rfl⟩
      | some t => exact ⟨t, rfl⟩
    have hok : t.ok = true := ok_of_made (htex ▸ ht) (by decide)
    rw [heq, ht, Option.filter_some, if_pos hok]
    rfl

end TextureCache

/-! ### Views of the core -/

/-- The core showed this picture under the id and generation. -/
def Known (log : List Effect) (id generation : ℕ) (picture : FramePicture) : Prop :=
  ∃ v, .viewed v ∈ log ∧ v.id = id ∧ v.frame.generation = generation
    ∧ (NscFrame.ofView v).1.picture = some picture

theorem Known.mono {log log' : List Effect} (h : log <:+ log') {id generation : ℕ}
    {picture : FramePicture} (hknown : Known log id generation picture) :
    Known log' id generation picture := by
  obtain ⟨v, hv, hrest⟩ := hknown
  exact ⟨v, h.subset hv, hrest⟩

namespace NscFrame

@[simp] theorem ofView_coverId (v : CoverView) : (ofView v).1.coverId = v.id := by
  unfold ofView
  cases v.frame.data with
  | cpu f => rfl
  | dmaBuf d =>
    dsimp only
    split_ifs <;> rfl

@[simp] theorem ofView_generation (v : CoverView) :
    (ofView v).1.generation = v.frame.generation := by
  unfold ofView
  cases v.frame.data with
  | cpu f => rfl
  | dmaBuf d =>
    dsimp only
    split_ifs <;> rfl

/-- What is written depends on the id and the frame of a view only. -/
theorem ofView_congr {v w : CoverView} (hid : v.id = w.id) (hframe : v.frame = w.frame) :
    ofView v = ofView w := by
  obtain ⟨id, frame⟩ := v
  obtain ⟨id', frame'⟩ := w
  cases hid
  cases hframe
  rfl

end NscFrame

namespace Sys

variable {σ : Type} [Source σ]

/-- `nsc_resolve` shows a view of the core, or nothing. -/
theorem nscResolve_spec (s : Sys σ) (machinery : Machinery) (env : Env) (rule : PlayRule)
    (now : Instant) :
    ∃ play, (s.nscResolve machinery env rule now).1 = (s.resolve env play now).1
      ∧ ∀ f ∈ (s.nscResolve machinery env rule now).2,
        ∃ v, (s.resolve env play now).2 = some v ∧ (NscFrame.ofView v).1 = f := by
  refine ⟨(s.settings env).defaultPlay.withRule machinery.files machinery.parse rule, ?_⟩
  unfold nscResolve
  -- the core may have nothing to show, or no picture in it
  dsimp only
  rcases s.resolve env ((s.settings env).defaultPlay.withRule machinery.files machinery.parse rule)
    now with ⟨t, _ | view⟩
  · exact ⟨rfl, nofun⟩
  · dsimp only
    rcases hview : NscFrame.ofView view with ⟨out, _ | _⟩
    · exact ⟨rfl, nofun⟩
    · refine ⟨rfl, fun f hf => ⟨view, rfl, ?_⟩⟩
      rw [hview]
      exact Option.some.inj hf

/-- The core after `nsc_resolve`: the invariant holds, nothing is forgotten, and the frame is a view
of the history, the only one of its id and generation. -/
theorem Identified.nscResolve {s : Sys σ} (h : Identified s) (machinery : Machinery) (env : Env)
    (rule : PlayRule) (now : Instant) :
    Identified (s.nscResolve machinery env rule now).1
      ∧ s.log <:+ (s.nscResolve machinery env rule now).1.log
      ∧ ∀ f ∈ (s.nscResolve machinery env rule now).2, ∀ picture,
        f.picture = some picture
          ↔ Known (s.nscResolve machinery env rule now).1.log f.coverId f.generation picture := by
  obtain ⟨play, hcore, hview⟩ := s.nscResolve_spec machinery env rule now
  have hI := h.resolve env play now
  have hlog := s.resolve_log_suffix env play now
  rw [hcore]
  refine ⟨hI, hlog.1, fun f hf picture => ?_⟩
  obtain ⟨v, hv, rfl⟩ := hview f hf
  have hviewed := hlog.2 v hv
  rw [NscFrame.ofView_coverId, NscFrame.ofView_generation]
  -- a frame that was seen before has the same picture
  constructor
  · exact fun hpicture => ⟨v, hviewed, rfl, rfl, hpicture⟩
  · rintro ⟨w, hw, hid, hgeneration, hpicture⟩
    have hframe := hI.history.viewed_unique hw hviewed hid hgeneration
    rwa [NscFrame.ofView_congr hid hframe] at hpicture

end Sys

/-! ### Runs -/

namespace Display

variable {σ : Type} [Source σ]

/-- The core keeps its invariant, and what is in the cache was shown by the core. -/
structure Current (d : Display σ) : Prop where
  core : Sys.Identified d.core
  cache : d.cache.Shows (Known d.core.log)

theorem Current.init (defaults : Settings) : Current (Display.init defaults : Display σ) :=
  ⟨Sys.Identified.init defaults, fun _ t ht => absurd ht (Option.not_mem_none t)⟩

/-- The source that a loader opens in this step. -/
def Event.opened : Event σ → Option σ
  | .core e => e.opened
  | _ => none

/-- **One step** keeps the invariant. -/
theorem Current.step {d : Display σ} (h : Current d) {e : Event σ}
    (he : ∀ src ∈ e.opened, Source.Increasing src) : Current (d.step e).1 := by
  cases e with
  | core e =>
    exact ⟨h.core.step he, h.cache.mono fun _ _ _ => Known.mono (d.core.step_log e).1⟩
  | prune => exact ⟨h.core, h.cache.prune _⟩
  | draw machinery env rule now created =>
    obtain ⟨hI, hlog, hframe⟩ := h.core.nscResolve machinery env rule now
    have hcache := h.cache.mono fun _ _ _ => Known.mono hlog
    show Current (d.draw machinery env rule now created).1
    unfold draw
    rcases hres : d.core.nscResolve machinery env rule now with ⟨core, _ | f⟩ <;>
      rw [hres] at hI hframe hcache
    · exact ⟨hI, hcache⟩
    · exact ⟨hI, hcache.textureFor (fun picture hp => (hframe f rfl picture).1 hp) _ _⟩

/-- What a draw hands out shows the frame it was asked for. -/
theorem Current.shows {d : Display σ} (h : Current d) (e : Event σ) {f : NscFrame} {t : GpuTexture}
    (hout : (d.step e).2 = some (f, some t)) :
    f.picture = some t.picture := by
  -- only a draw puts anything out
  cases e with
  | core e => cases hout
  | prune => cases hout
  | draw machinery env rule now created =>
    obtain ⟨hI, hlog, hframe⟩ := h.core.nscResolve machinery env rule now
    have hcache := h.cache.mono fun _ _ _ => Known.mono hlog
    change (d.draw machinery env rule now created).2 = _ at hout
    unfold draw at hout
    rcases hres : d.core.nscResolve machinery env rule now with ⟨core, _ | g⟩
    · rw [hres] at hout
      cases hout
    · rw [hres] at hout hframe hcache
      obtain ⟨rfl, ht⟩ := Prod.mk.inj (Option.some.inj hout)
      exact hcache.returned (fun picture hp => (hframe g rfl picture).2 hp) _ created t ht

/-- What the renderer comes back with when a texture is made in this step. -/
def Event.created : Event σ → Option Created
  | .draw _ _ _ _ created => some created
  | _ => none

omit [Source σ] in
theorem works_init (defaults : Settings) : (Display.init defaults : Display σ).cache.Works :=
  fun _ t ht => absurd ht (Option.not_mem_none t)

theorem works_step {d : Display σ} (h : d.cache.Works) {e : Event σ}
    (he : e.created ≠ some .broken) : (d.step e).1.cache.Works := by
  cases e with
  | core e => exact h
  | prune => exact h.prune _
  | draw machinery env rule now created =>
    show (d.draw machinery env rule now created).1.cache.Works
    unfold draw
    rcases d.core.nscResolve machinery env rule now with ⟨core, _ | f⟩
    · exact h
    · exact h.textureFor (fun hbroken => he (congrArg some hbroken)) _ f

/-- A draw with a cache of working textures hands out a working one. -/
theorem works_out {d : Display σ} (h : d.cache.Works) (e : Event σ) {f : NscFrame} {t : GpuTexture}
    (hout : (d.step e).2 = some (f, some t)) : t.ok = true := by
  cases e with
  | core e => cases hout
  | prune => cases hout
  | draw machinery env rule now created =>
    change (d.draw machinery env rule now created).2 = _ at hout
    unfold draw at hout
    rcases hres : d.core.nscResolve machinery env rule now with ⟨core, _ | g⟩ <;> rw [hres] at hout
    · cases hout
    · obtain ⟨-, ht⟩ := Prod.mk.inj (Option.some.inj hout)
      exact h.returned _ g created t ht

/-- With a renderer that makes textures, a draw of a frame with a picture has one. -/
theorem drawn_of_working {d : Display σ} {e : Event σ} (he : ∀ c ∈ e.created, c = .working)
    {f : NscFrame} {tex : Option GpuTexture} (hout : (d.step e).2 = some (f, tex))
    (hpicture : f.picture.isSome) : tex.isSome := by
  cases e with
  | core e => cases hout
  | prune => cases hout
  | draw machinery env rule now created =>
    obtain rfl : created = .working := he created rfl
    change (d.draw machinery env rule now .working).2 = _ at hout
    unfold draw at hout
    rcases hres : d.core.nscResolve machinery env rule now with ⟨core, _ | g⟩ <;> rw [hres] at hout
    · cases hout
    · obtain ⟨rfl, rfl⟩ := Prod.mk.inj (Option.some.inj hout)
      obtain ⟨picture, hp⟩ := Option.isSome_iff_exists.1 hpicture
      exact d.cache.returns_some _ hp

/-- A texture that a draw hands out shows the frame of the draw, when the generations of each source
that a loader opens increase. -/
theorem shows_current (defaults : Settings) {es : List (Event σ)}
    (hgen : ∀ e ∈ es, ∀ src ∈ e.opened, Source.Increasing src) {f : NscFrame} {t : GpuTexture}
    (hout : some (f, some t) ∈ outputs step (init defaults) es) : f.picture = some t.picture := by
  have hall := Admits.forall_outputs (P := fun _ e => ∀ src ∈ e.opened, Source.Increasing src)
    (Q := fun o => ∀ f t, o = some (f, some t) → f.picture = some t.picture)
    (fun d e (h : Current d) he => h.step he) (fun d e h _ f t hout => h.shows e hout)
    (Current.init defaults) (admits_of_forall fun _ => hgen)
  exact hall _ hout f t rfl

variable {δ κ : Type} [Demuxer δ] [Decoder κ]

/-- **What is drawn is what the core has now.**  In every run of the core with its loader threads
and of the textures, where the loaders open files of any kind:

* a texture that a draw hands out has the picture of the frame that the core resolved for this draw;
* if no texture so far was created broken, it works;
* if the renderer makes all textures that it is asked for, a draw hands out the working texture of
  its frame, or nothing when the frame has no picture. -/
theorem textures_current (defaults : Settings) (es : List (Event (OpenSource δ κ)))
    (hopened : ∀ e ∈ es, ∀ src ∈ e.opened, ∃ (files : Files δ κ) (play : PlayParams)
      (settings : Settings) (schedule : ℕ → List Turn),
      openMedia files play settings schedule = .ok src) :
    (∀ f t, some (f, some t) ∈ outputs step (init defaults) es → f.picture = some t.picture)
      ∧ ((∀ e ∈ es, e.created ≠ some .broken) →
        ∀ f t, some (f, some t) ∈ outputs step (init defaults) es → t.ok = true)
      ∧ ((∀ e ∈ es, ∀ c ∈ e.created, c = .working) →
        ∀ f tex, some (f, tex) ∈ outputs step (init defaults) es →
          tex = f.picture.map fun picture => { ok := true, picture }) := by
  -- the sources come from the loaders, so their counters only grow
  have hgen : ∀ e ∈ es, ∀ src ∈ e.opened, Source.Increasing src := fun e he src hsrc =>
    have ⟨_, _, _, _, hopen⟩ := hopened e he src hsrc
    Files.increasing_of_openMedia hopen
  have hshows : ∀ f t, some (f, some t) ∈ outputs step (init defaults) es →
      f.picture = some t.picture := fun _ _ => shows_current defaults hgen
  -- every texture of the cache works, unless the device made a broken one
  have hworks : (∀ e ∈ es, e.created ≠ some .broken) →
      ∀ f t, some (f, some t) ∈ outputs step (init defaults) es → t.ok = true := by
    intro hcreated
    have hall := Admits.forall_outputs (I := fun d : Display (OpenSource δ κ) => d.cache.Works)
      (P := fun _ e => e.created ≠ some .broken)
      (Q := fun o => ∀ f t, o = some (f, some t) → t.ok = true)
      (fun d e h he => works_step h he) (fun d e h _ f t hout => works_out h e hout)
      (works_init defaults) (admits_of_forall fun _ => hcreated)
    exact fun f t hout => hall _ hout f t rfl
  refine ⟨hshows, hworks, fun hcreated f tex hout => ?_⟩
  -- with a texture, it is the picture's
  cases tex with
  | some t =>
    have hpicture := hshows f t hout
    have hok := hworks (fun e he hbroken => by cases hcreated e he _ hbroken) f t hout
    obtain ⟨ok, picture⟩ := t
    cases hok
    rw [hpicture]
    rfl
  -- without one, there was no picture to show
  | none =>
    have hall : ∀ o ∈ outputs step (init defaults) es, ∀ f tex, o = some (f, tex) →
        f.picture.isSome → tex.isSome :=
      Admits.forall_outputs (I := fun _ => True) (P := fun _ e => ∀ c ∈ e.created, c = .working)
        (fun _ _ _ _ => trivial) (fun _ _ _ he _ _ hout => drawn_of_working he hout) trivial
        (admits_of_forall fun _ => hcreated)
    cases hpicture : f.picture with
    | none => rfl
    | some picture =>
      have hsome := hall _ hout f none rfl (hpicture ▸ rfl)
      cases hsome

def clipSettings : Settings := { exampleSettings with pathCover := "clip.mp4", looped := false }

/-- The thread publishes a frame before every second poll. -/
def drawnSchedule (n : ℕ) : List Turn := if n % 2 = 0 then [] else [.onTime]

def drawnClip : OpenSource FakeDemux FakeDecoder :=
  .video (.spawn (.new (.new 2 100000000 none) { held := none } false) "clip.mp4" drawnSchedule)

/-- The clip is opened and drawn, its texture is dropped, it is drawn twice again, and once more when
its second frame is out. -/
def exampleDraws : List (Event (OpenSource FakeDemux FakeDecoder)) :=
  let env : Env := { exampleEnv with defaults := clipSettings }
  let draw (now : Instant) : Event (OpenSource FakeDemux FakeDecoder) :=
    .draw { files := { home := none, present := fun _ => true }, parse := fun _ => none } env
      { path := none, speed := none, looped := none } now .working
  [.core (.setSettings env clipSettings none 0), .core (.deliver 0 (.ok drawnClip) [0, 5000000]),
    .core .beginFrame, draw 10000000, .prune, draw 10000000, draw 10000000, .core .beginFrame,
    draw 120000000]

theorem textures_current_exampleDraws :
    (outputs step (init clipSettings) exampleDraws).all (fun o => o.all fun drawn =>
      drawn.2 = drawn.1.picture.map fun picture => { ok := true, picture }) = true := by
  -- the only source of the run is the clip
  have hclip : ∀ e ∈ exampleDraws, e.opened = none ∨ e.opened = some drawnClip := by
    intro e he
    simp only [exampleDraws, List.mem_cons, List.not_mem_nil, or_false] at he
    rcases he with rfl | rfl | rfl | rfl | rfl | rfl | rfl | rfl | rfl
    case inr.inl => exact .inr rfl
    all_goals exact .inl rfl
  have hdrawn := (textures_current clipSettings exampleDraws fun e he src hsrc => by
    rcases hclip e he with hnone | hsome
    · rw [hnone] at hsrc
      cases hsrc
    · rw [hsome] at hsrc
      obtain rfl := Option.mem_some_iff.1 hsrc
      exact ⟨_, _, _, _, openMedia_schedule openMedia_clip drawnSchedule⟩).2.2 (by decide)
  refine List.all_eq_true.2 fun o ho => ?_
  rw [Option.all_eq_true]
  rintro ⟨f, tex⟩ rfl
  exact decide_eq_true (hdrawn f tex ho)

end Display

end NoshareCover
