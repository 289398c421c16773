import Mathlib.Logic.Function.Basic
import NoshareCover.Core.Frame

/-!
# The texture cache

`textureFor` keeps one texture per cover id.  It makes a new one, or updates the one it has, when
the frame's generation is another one, and drops all of them when the core has reset its covers.
-/

namespace NoshareCover

/-- What the core hands out (`nsc_frame`). -/
structure NscFrame where
  coverId : ℕ
  generation : ℕ
  kind : ℕ
  width : ℕ
  height : ℕ
  stride : ℕ
  /-- The bytes behind the pointer, unless it is null. -/
  pixels : Option (List UInt8)
  fourcc : ℕ
  modifier : ℕ
  planeCount : ℕ
  planes : List DmaBufPlane
  deriving DecidableEq, Repr

/-- What a texture is made from. -/
inductive FramePicture where
  | cpu (fourcc width height stride : ℕ) (pixels : List UInt8)
  | dmaBuf (fourcc width height modifier : ℕ) (planes : List DmaBufPlane)
  deriving DecidableEq, Repr

/-- `NSC_FRAME_CPU` with pixels, or `NSC_FRAME_DMABUF` with one to four planes. -/
def NscFrame.picture (f : NscFrame) : Option FramePicture :=
  match f.kind, f.pixels with
  | 1, some px => some (.cpu f.fourcc f.width f.height f.stride px)
  | 2, _ =>
    if 0 < f.planeCount ∧ f.planeCount ≤ 4 then
      some (.dmaBuf f.fourcc f.width f.height f.modifier (f.planes.take f.planeCount))
    else none
  | _, _ => none

/-- A texture of the renderer; one that is not `ok` draws nothing. -/
structure GpuTexture where
  ok : Bool
  picture : FramePicture
  deriving DecidableEq, Repr

/-- What `createTexture` comes back with. -/
inductive Created where
  | null
  | broken
  | working
  deriving DecidableEq, Repr

def Created.texture (picture : FramePicture) : Created → Option GpuTexture
  | .null => none
  | .broken => some { ok := false, picture }
  | .working => some { ok := true, picture }

structure CachedTexture where
  tex : Option GpuTexture
  generation : ℕ
  w : ℕ
  h : ℕ
  dmabuf : Bool
  deriving DecidableEq, Repr

namespace CachedTexture

/-- What `operator[]` puts where there is nothing yet. -/
def fresh : CachedTexture := { tex := none, generation := 0, w := 0, h := 0, dmabuf := false }

/-- The texture stands for this generation already. -/
def hit (c : CachedTexture) (f : NscFrame) : Bool := c.tex.isSome && c.generation = f.generation

/-- The texture as it gets the pixels of a frame of its own size. -/
def updated (c : CachedTexture) (picture : FramePicture) : Option GpuTexture :=
  match c.tex, picture with
  | some t, .cpu _ w h _ _ =>
    if !c.dmabuf && c.w = w && c.h = h && t.ok then some { t with picture } else none
  | _, _ => none

end CachedTexture

/-- The textures by cover id; an id that is not in the map has the fresh one. -/
structure TextureCache where
  textures : ℕ → CachedTexture
  epoch : ℕ

namespace TextureCache

def init : TextureCache := { textures := fun _ => .fresh, epoch := 0 }

/-- The core reset its covers: drop all textures. -/
def sync (c : TextureCache) (epoch : ℕ) : TextureCache :=
  if epoch ≠ c.epoch then { textures := fun _ => .fresh, epoch } else c

/-- Core frame to texture; `created` is what `createTexture` would come back with. -/
def textureFor (c : TextureCache) (epoch : ℕ) (f : NscFrame) (created : Created) :
    TextureCache × Option GpuTexture :=
  let c := c.sync epoch
  let entry := c.textures f.coverId
  if entry.hit f then (c, entry.tex)
  else
    match f.picture with
    | none => (c, none)
    | some picture =>
      let tex := (entry.updated picture).or (created.texture picture)
      let entry : CachedTexture :=
        { tex, generation := f.generation, w := f.width, h := f.height
          dmabuf := match picture with
            | .cpu .. => false
            | .dmaBuf .. => true }
      ({ c with textures := Function.update c.textures f.coverId entry },
        tex.filter GpuTexture.ok)

/-- Drops the textures of covers that the core has closed. -/
def prune (c : TextureCache) (alive : ℕ → Bool) : TextureCache :=
  { c with textures := fun id => if alive id then c.textures id else .fresh }

inductive Event where
  | textureFor (epoch : ℕ) (f : NscFrame) (created : Created)
  /-- Now and then, and with nothing alive when the plugin is unloaded. -/
  | prune (alive : ℕ → Bool)

def step (c : TextureCache) : Event → TextureCache × Option GpuTexture
  | .textureFor epoch f created => c.textureFor epoch f created
  | .prune alive => (c.prune alive, none)

end TextureCache

end NoshareCover
