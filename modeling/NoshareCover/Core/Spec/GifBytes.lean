import NoshareCover.Core.Spec.GifOffsets
import NoshareCover.Core.Spec.GifPixels

/-!
# The canvas as pixels and as bytes

In a release build, where `u32` wraps, the bytes of the canvas are those of the pixels that
`GifSource` keeps (`blit_release`, `fillRect_release`).
-/

namespace NoshareCover

namespace GifBytes

/-- The canvas in memory. -/
def encode (canvas : List Bgra) : List UInt8 := canvas.flatMap Bgra.bytes

theorem length_bytes (px : Bgra) : px.bytes.length = 4 := rfl

theorem length_encode (canvas : List Bgra) : (encode canvas).length = canvas.length * 4 := by
  unfold encode
  rw [Rows.length_flatMap length_bytes, mul_comm]

/-- Writing a pixel writes its bytes. -/
theorem copy_encode {canvas : List Bgra} {n : ℕ} (h : n < canvas.length) (px : Bgra) :
    copy (encode canvas) (n * 4) px = some (encode (canvas.set n px)) := by
  have hnext : n * 4 + 4 = (n + 1) * 4 := by ring
  rw [copy_eq_some (by rw [length_encode]; omega), put, encode, encode,
    List.set_eq_take_append_cons_drop, if_pos h, hnext, Rows.take_flatMap length_bytes,
    Rows.drop_flatMap length_bytes, List.flatMap_append, List.flatMap_cons, List.append_assoc]

/-! ### Wrapping arithmetic -/

theorem u32_release {n : ℕ} (h : n < 2 ^ 32) : Build.release.u32 n = some n :=
  congrArg some (Nat.mod_eq_of_lt h)

theorem offset_release (y w x : ℕ) :
    Build.release.offset y w x = some (GifSource.pixelIndex (y * w + x) * 4) := by
  show some (((y * w % 2 ^ 32 + x) % 2 ^ 32) * 4 % 2 ^ 32) = _
  generalize y * w = row
  unfold GifSource.pixelIndex
  congr 1
  omega

theorem pixelIndex_le (n : ℕ) : GifSource.pixelIndex n ≤ n := by
  unfold GifSource.pixelIndex
  omega

/-! ### Drawing -/

theorem foldl_pixels {γ : Type*} (rows columns : List ℕ) (f : γ → ℕ → ℕ → γ) (c : γ) :
    (pixels rows columns).foldl (fun c p => f c p.1 p.2) c
      = rows.foldl (fun c y => columns.foldl (fun c x => f c y x) c) c := by
  unfold pixels
  induction rows generalizing c with
  | nil => rfl
  | cons y rows ih => rw [List.product_cons, List.foldl_append, List.foldl_map, ih, List.foldl_cons]

variable {g : GifSource} {f : GifFrame} {canvas : List Bgra}

theorem blitPixel_release (hrgba : f.rgba.length = f.width * f.height * 4) {p : ℕ × ℕ}
    (htop : f.top + p.1 < 2 ^ 32) (hleft : f.left + p.2 < 2 ^ 32) (hy : p.1 < f.height)
    (hx : p.2 < f.width) (hcanvas : canvas.length = g.width * g.height) :
    blitPixel .release g.width g.height f (encode canvas) p
      = some (encode (g.blitPixel f p.1 p.2 canvas)) := by
  have hframe := Rows.index_lt hx hy
  have hle := pixelIndex_le (p.1 * f.width + p.2)
  unfold blitPixel GifSource.blitPixel
  rw [u32_release htop, u32_release hleft]
  dsimp only [Option.bind_eq_bind, Option.bind_some]
  -- outside of the canvas, transparent, or drawn
  split_ifs with hoff halpha
  · rfl
  · rw [offset_release, Option.bind_some, slice_eq_some (by omega), Option.bind_some]
    exact if_pos halpha
  -- both places are within their buffers
  · obtain ⟨hheight, hwidth⟩ := not_or.1 hoff
    have hplace := Rows.index_lt (not_le.1 hwidth) (not_le.1 hheight)
    have hle' := pixelIndex_le ((f.top + p.1) * g.width + (f.left + p.2))
    rw [offset_release, Option.bind_some, slice_eq_some (by omega), Option.bind_some,
      offset_release, Option.bind_some]
    refine (if_neg halpha).trans ?_
    exact copy_encode (by omega) _

/-- **A blit in memory** is the blit of the pixels. -/
theorem blit_release (image : GifImage) (hf : GifFrame.ofImage image = f)
    (hcanvas : canvas.length = g.width * g.height) :
    blit .release g.width g.height f (encode canvas) = some (encode (g.blit f canvas)) := by
  have hrgba : f.rgba.length = f.width * f.height * 4 := hf ▸ image.buffer_length
  -- the loops go over the rows and columns of the frame
  have hfold : g.blit f canvas = (pixels (List.range f.height) (List.range f.width)).foldl
      (fun canvas p => g.blitPixel f p.1 p.2 canvas) canvas :=
    (foldl_pixels _ _ (fun canvas y x => g.blitPixel f y x canvas) canvas).symm
  -- drawing a pixel keeps the length of the canvas
  have hlength : ∀ (canvas : List Bgra) (p : ℕ × ℕ),
      (g.blitPixel f p.1 p.2 canvas).length = canvas.length := by
    intro canvas p
    unfold GifSource.blitPixel
    dsimp only
    split_ifs
    · rfl
    · rfl
    · exact List.length_set
  rw [hfold]
  refine Loop.foldlM_encode encode (fun canvas => canvas.length = g.width * g.height) ?_ ?_ hcanvas
  · exact fun canvas p _ hlen => (hlength canvas p).trans hlen
  · intro canvas p hp hlen
    obtain ⟨hy, hx, htop, hleft⟩ := mem_pixels_ofImage image hf hp
    exact blitPixel_release hrgba htop hleft hy hx hlen

/-- **A rectangle filled in memory** is the rectangle of pixels. -/
theorem fillRect_release (hwidth : g.width < 2 ^ 16) (hheight : g.height < 2 ^ 16)
    {left top w h : ℕ} (hright : left + w < 2 ^ 32) (hbottom : top + h < 2 ^ 32) (color : Bgra)
    (hcanvas : canvas.length = g.width * g.height) :
    fillRect .release g.width g.height left top w h color (encode canvas)
      = some (encode (g.fillRect left top w h color canvas)) := by
  -- the rectangle is cut to the canvas
  have hfold : g.fillRect left top w h color canvas
      = (pixels (List.range' (min top g.height) (min (top + h) g.height - min top g.height))
          (List.range' (min left g.width) (min (left + w) g.width - min left g.width))).foldl
            (fun canvas p => canvas.set (p.1 * g.width + p.2) color) canvas :=
    (foldl_pixels _ _ (fun (canvas : List Bgra) y x => canvas.set (y * g.width + x) color) canvas).symm
  rw [hfold]
  unfold fillRect
  rw [u32_release hright, u32_release hbottom]
  dsimp only [Option.bind_eq_bind, Option.bind_some]
  refine Loop.foldlM_encode encode (fun canvas => canvas.length = g.width * g.height) ?_ ?_ hcanvas
  · exact fun canvas p _ hlen => List.length_set.trans hlen
  · intro canvas p hp hlen
    -- so every place is on it
    obtain ⟨hy, hx⟩ := mem_pixels_clipped hp
    have hplace := Rows.index_lt hx hy
    rw [u32_release (row_lt (hy.trans hheight) hwidth), Option.bind_some, ← add_mul]
    exact copy_encode (by omega) color

end GifBytes

end NoshareCover
