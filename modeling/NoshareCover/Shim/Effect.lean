import NoshareCover.Lib.Resample
import NoshareCover.Shim.PaintOp

/-!
# Blur and pixelate

`drawEffect` takes the part of the image under a surface's box, scales it down until one pixel
stands for `amount`, and draws that back over the box.  Colours are those of any vector space, so
that the same definition computes a picture and tells what it is made of.
-/

namespace NoshareCover

open Resample

/-- How the renderer reads textures, by its two filters. -/
structure Sampler where
  linear : Filter
  nearest : Filter

/-- The size with one pixel for `amount`. -/
def effectTarget (src : Box ℚ) (amount : ℤ) : Vec :=
  (max 1 (lround (src.w / amount) : ℚ), max 1 (lround (src.h / amount) : ℚ))

/-- `lround(log2(ratio))`, from 0 to 12: a power of two is the nearest up to the square root of two
above it, which no rational number hits. -/
def effectHalvings (src : Box ℚ) (target : Vec) : ℕ :=
  (List.range 12).countP fun i =>
    (2 : ℚ) ^ (2 * i + 1) ≤ max (src.w / target.1) (src.h / target.2) ^ 2

def doubled (target : Vec) (i : ℕ) : Vec := (target.1 * 2 ^ i, target.2 * 2 ^ i)

/-- The sizes of the intermediate buffers: down to the target, and for a blur up again. -/
def effectSteps (kind : StandIn) (target : Vec) (k : ℕ) : List Vec :=
  (List.range (k + 1)).reverse.map (doubled target)
    ++ if kind = .blur then (List.range k).map fun i => doubled target (i + 1) else []

section Draw

variable {M : Type*} [AddCommGroup M] [Module ℚ M]

/-- Where a texture goes, if its part `from_` is to fill a buffer of this size. -/
def effectBox (texSize : Vec) (from_ : Box ℚ) (size : Vec) : Box ℚ :=
  let sx := size.1 / from_.w
  let sy := size.2 / from_.h
  { x := -from_.x * sx, y := -from_.y * sy, w := texSize.1 * sx, h := texSize.2 * sy }

/-- One buffer, from the part `from_` of a texture; beyond the texture it is cleared. -/
def effectStep (smp : Sampler) (clear : M) (acc : Texture M × Box ℚ) (size : Vec) :
    Texture M × Box ℚ :=
  let (tex, from_) := acc
  let box := effectBox tex.size from_ size
  ({ size, pixel := fun p => if centre p ∈ box then drawTexture smp.linear tex box p else clear },
    { x := 0, y := 0, w := size.1, h := size.2 })

/-- The last buffer. -/
def effectTexture (smp : Sampler) (clear : M) (image : Texture M) (kind : CoverKind)
    (src : Box ℚ) : Texture M :=
  let target := effectTarget src kind.amount
  ((effectSteps kind.kind target (effectHalvings src target)).foldl (effectStep smp clear)
    (image, src)).1

/-- A pixel of the effect over the box. -/
def drawEffect (smp : Sampler) (clear : M) (image : Texture M) (kind : CoverKind) (box : Box ℚ)
    (capturePos : Vec) (p : Point) : M :=
  drawTexture (if kind.kind = .pixelate then smp.nearest else smp.linear)
    (effectTexture smp clear image kind (box.translate capturePos)) box p

end Draw

end NoshareCover
