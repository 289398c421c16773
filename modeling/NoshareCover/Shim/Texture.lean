import NoshareCover.Core.Frame
import NoshareCover.Lib.Compose
import NoshareCover.Lib.Resample

/-!
# Textures of frames

`textureFor` makes a texture from the frame of a cover.  The renderer takes `DRM_FORMAT_ARGB8888`:
bytes B, G, R and A of colours that are already multiplied by their alpha.
-/

namespace NoshareCover

open Compose Resample

/-- A byte as a channel between 0 and 1. -/
def channel (b : UInt8) : ℚ := b.toNat / 255

/-- The colour of a pixel, in rows of `stride` bytes. -/
def CpuFrame.colourAt (f : CpuFrame) (x y : ℕ) : Colour ℚ :=
  let o := y * f.stride + x * 4
  ![channel (f.pixels.getD (o + 2) 0), channel (f.pixels.getD (o + 1) 0),
    channel (f.pixels.getD o 0), channel (f.pixels.getD (o + 3) 0)]

def CpuFrame.texture (f : CpuFrame) : Texture (Colour ℚ) :=
  { size := (f.width, f.height), pixel := fun p => f.colourAt p.1.toNat p.2.toNat }

/-- The renderer may fail to create a texture; what a dmabuf holds is in video memory. -/
structure Uploader where
  created : CpuFrame → Bool
  dmaBuf : DmaBufFrame → Option (Texture (Colour ℚ))

def textureFor (up : Uploader) : FrameData → Option (Texture (Colour ℚ))
  | .cpu f => if up.created f then some f.texture else none
  | .dmaBuf d => up.dmaBuf d

end NoshareCover
