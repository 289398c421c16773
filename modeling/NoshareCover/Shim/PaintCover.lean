import NoshareCover.Lib.Compose
import NoshareCover.Shim.Effect
import NoshareCover.Shim.Paint

/-!
# The pixels of one cover

`paintCover` draws a cover over what the frame has there.  The renderer composes premultiplied
colours, reads textures through its filters and rounds corners.
-/

namespace NoshareCover

open Compose Resample

/-! ### The renderer -/

/-- The box without the squares in its corners that `subtractRounded` keeps. -/
def InCross (b : Box ℚ) (r : ℤ) (q : Vec) : Prop :=
  q ∈ b ∧ ((b.x + clampRound b r ≤ q.1 ∧ q.1 < b.x + b.w - clampRound b r)
    ∨ (b.y + clampRound b r ≤ q.2 ∧ q.2 < b.y + b.h - clampRound b r))

/-- How Hyprland rounds the corners of a box, by radius and power: it only cuts from the corner
squares. -/
structure CornerRounding where
  shape : Box ℚ → ℤ → ℚ → Vec → Bool
  subset_box : ∀ b r p q, shape b r p q = true → q ∈ b
  cross_subset : ∀ b r p q, InCross b r q → shape b r p q = true

/-- The renderer's filters and corners. -/
structure Renderer extends Sampler where
  corners : CornerRounding

/-! ### The cover -/

/-- The cover is one that shows the surface's own picture. -/
def CoverKind.isEffect (kind : CoverKind) : Bool := kind.kind = .blur || kind.kind = .pixelate

/-- What a cover is drawn from: the image under the covers, and the frame of its media. -/
structure CoverInput where
  image : Option (Texture (Colour ℚ))
  media : Option (Texture (Colour ℚ))

/-- The colour that the cover draws at a pixel: black where there is nothing to show. -/
def coverColour (rd : Renderer) (kind : CoverKind) (inp : CoverInput) (capturePos : Vec)
    (op : CoverOp) (p : Point) : Colour ℚ :=
  match kind.kind with
  | .media =>
    match inp.media with
    | some tex => drawTexture rd.linear tex op.box p
    | none => Colour.black
  | .blur | .pixelate =>
    match inp.image with
    | some image =>
      if op.box.w < 1 ∨ op.box.h < 1 then Colour.black
      else drawEffect rd.toSampler Colour.black image kind op.box capturePos p
    | none => Colour.black
  | .transparent => Colour.black

/-- The pixel is in the draw's area and in its rounded box. -/
def CoverOp.draws (op : CoverOp) (rd : Renderer) (p : Point) : Bool :=
  p ∈ op.area && rd.corners.shape op.box op.round op.roundingPower (centre p)

/-- The frame after the cover is drawn over `below`. -/
def paintCover (rd : Renderer) (kind : CoverKind) (inp : CoverInput) (capturePos : Vec)
    (op : CoverOp) (below : Point → Colour ℚ) (p : Point) : Colour ℚ :=
  if op.draws rd p then (coverColour rd kind inp capturePos op p).drawOver (below p) else below p

end NoshareCover
