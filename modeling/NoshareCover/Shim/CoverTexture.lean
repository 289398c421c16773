import NoshareCover.Core.RawSettings
import NoshareCover.Shim.TextureCache

/-!
# From a window rule to the texture of its cover

`nsc_resolve` asks the core for the frame of a cover, and `textureFor` makes a texture of it.  Between
two draws of a cover anything may happen on either side: the registry opens, polls and closes covers,
and the shim drops textures.
-/

namespace NoshareCover

/-- `DRM_FORMAT_ARGB8888`. -/
def drmFormatArgb8888 : ℕ := 0x34325241

namespace NscFrame

def empty : NscFrame :=
  { coverId := 0, generation := 0, kind := 0, width := 0, height := 0, stride := 0, pixels := none,
    fourcc := 0, modifier := 0, planeCount := 0, planes := List.replicate 4 ⟨0, 0, 0⟩ }

/-- What `nsc_resolve` writes for a view, and whether it returns `true`: a frame with more planes than
the struct has room for is left out. -/
def ofView (view : CoverView) : NscFrame × Bool :=
  let out := { empty with coverId := view.id, generation := view.frame.generation }
  match view.frame.data with
  | .cpu f =>
    ({ out with kind := 1, width := f.width, height := f.height, stride := f.stride,
                pixels := some f.pixels, fourcc := drmFormatArgb8888 }, true)
  | .dmaBuf d =>
    if out.planes.length < d.planes.length then (out, false)
    else
      ({ out with kind := 2, width := d.width, height := d.height, fourcc := d.fourcc,
                  modifier := d.modifier, planeCount := d.planes.length,
                  planes := d.planes ++ out.planes.drop d.planes.length }, true)

end NscFrame

/-- What the machine has for the core: `parse` reads a float. -/
structure Machinery where
  files : ConfigFiles
  parse : String → Option F64

variable {σ : Type} [Source σ]

/-- The cover of a window; `none` means nothing to draw. -/
def Sys.nscResolve (s : Sys σ) (machinery : Machinery) (env : Env) (rule : PlayRule) (now : Instant) :
    Sys σ × Option NscFrame :=
  let play := (s.settings env).defaultPlay.withRule machinery.files machinery.parse rule
  match s.resolve env play now with
  | (s, none) => (s, none)
  | (s, some view) =>
    match NscFrame.ofView view with
    | (_, false) => (s, none)
    | (out, true) => (s, some out)

/-- The core, and the textures of the shim. -/
structure Display (σ : Type) where
  core : Sys σ
  cache : TextureCache

namespace Display

inductive Event (σ : Type) where
  /-- Any other call on the core, or a step of a loader thread. -/
  | core (e : Sys.Event σ)
  /-- A cover is drawn; `created` is what `createTexture` would come back with. -/
  | draw (machinery : Machinery) (env : Env) (rule : PlayRule) (now : Instant) (created : Created)
  /-- The textures of closed covers are dropped. -/
  | prune

def init (defaults : Settings) : Display σ := { core := Sys.init defaults, cache := TextureCache.init }

/-- `nsc_resolve(&req, &f) ? textureFor(f) : nullptr`: the frame, and its texture. -/
def draw (d : Display σ) (machinery : Machinery) (env : Env) (rule : PlayRule) (now : Instant)
    (created : Created) : Display σ × Option (NscFrame × Option GpuTexture) :=
  match d.core.nscResolve machinery env rule now with
  | (core, none) => ({ d with core }, none)
  | (core, some f) =>
    let (cache, tex) := d.cache.textureFor core.reg.epoch f created
    ({ core, cache }, some (f, tex))

/-- One step; the output is what a draw has to show. -/
def step (d : Display σ) : Event σ → Display σ × Option (NscFrame × Option GpuTexture)
  | .core e => ({ d with core := (d.core.step e).1 }, none)
  | .draw machinery env rule now created => d.draw machinery env rule now created
  | .prune => ({ d with cache := d.cache.prune fun id => decide (id ∈ d.core.liveIds) }, none)

end Display

end NoshareCover
