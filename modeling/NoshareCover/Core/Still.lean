import Mathlib.Algebra.Group.Nat.Defs
import NoshareCover.Core.Media

/-!
# Still images

PNG and JPEG: decoded once, the frame never changes after that.  The decoders themselves come from
outside; what they promise about their buffers is kept with the images.
-/

namespace NoshareCover

inductive ColorType where
  | grayscale
  | rgb
  | indexed
  | grayscaleAlpha
  | rgba
  deriving DecidableEq, Repr

def ColorType.samples : ColorType → ℕ
  | grayscale => 1
  | rgb => 3
  | indexed => 1
  | grayscaleAlpha => 2
  | rgba => 4

/-- The first frame of a PNG, palette and `tRNS` expanded, 8 bits a sample. -/
structure PngImage where
  width : ℕ
  height : ℕ
  colorType : ColorType
  buf : List UInt8
  buf_length : buf.length = width * height * colorType.samples

/-- A JPEG as RGB. -/
structure JpegImage where
  dimensions : Option (ℕ × ℕ)
  rgb : List UInt8
  rgb_length : ∀ d ∈ dimensions, rgb.length = d.1 * d.2 * 3

/-- The image decoders; a PNG that is too large for its limits is an error. -/
structure ImageDecoders where
  png : List UInt8 → Except String PngImage
  jpeg : List UInt8 → Except String JpegImage

/-! ### To RGBA -/

def expandRgb : List UInt8 → List UInt8
  | r :: g :: b :: rest => r :: g :: b :: 255 :: expandRgb rest
  | _ => []

def expandGrayscaleAlpha : List UInt8 → List UInt8
  | l :: a :: rest => l :: l :: l :: a :: expandGrayscaleAlpha rest
  | _ => []

def expandGrayscale (buf : List UInt8) : List UInt8 := buf.flatMap fun g => [g, g, g, 255]

def PngImage.rgba (img : PngImage) : Except String (List UInt8) :=
  match img.colorType with
  | .rgba => .ok img.buf
  | .rgb => .ok (expandRgb img.buf)
  | .grayscaleAlpha => .ok (expandGrayscaleAlpha img.buf)
  | .grayscale => .ok (expandGrayscale img.buf)
  | .indexed => .error "indexed PNG was not expanded"

def decodePng (dec : ImageDecoders) (bytes : List UInt8) :
    Except String (ℕ × ℕ × List UInt8) := do
  let img ← dec.png bytes
  let rgba ← img.rgba
  return (img.width, img.height, rgba)

def decodeJpeg (dec : ImageDecoders) (bytes : List UInt8) :
    Except String (ℕ × ℕ × List UInt8) := do
  let img ← dec.jpeg bytes
  match img.dimensions with
  | none => .error "JPEG without dimensions"
  | some (w, h) =>
    if 2 ^ 32 ≤ w ∨ 2 ^ 32 ≤ h then .error "JPEG too large"
    else .ok (w, h, expandRgb img.rgb)

def pngSignature : List UInt8 := [0x89, 0x50, 0x4E, 0x47, 0x0D, 0x0A, 0x1A, 0x0A]

def jpegSignature : List UInt8 := [0xFF, 0xD8, 0xFF]

/-- PNG or JPEG, told apart by the signature (not the extension). -/
def decode (dec : ImageDecoders) (bytes : List UInt8) : Except String (ℕ × ℕ × List UInt8) :=
  if pngSignature.isPrefixOf bytes then decodePng dec bytes
  else if jpegSignature.isPrefixOf bytes then decodeJpeg dec bytes
  else .error "not a PNG or JPEG image"

/-! ### The source -/

structure StillSource where
  frame : Option Frame
  deriving DecidableEq

def StillSource.open (dec : ImageDecoders) (path : String) (file : Except String (List UInt8)) :
    Except MediaError StillSource :=
  match file.bind (decode dec) with
  | .error e => .error (.open path e)
  | .ok (w, h, rgba) =>
    if w = 0 ∨ h = 0 then .error (.open path "empty image")
    else .ok { frame := some { generation := 1, data := .cpu (.fromRgba w h rgba) } }

/-- Hands out the frame once: the shim keeps the texture. -/
instance : Source StillSource where
  kind _ := .still
  poll s _ := (.ok s.frame, { frame := none })
  shown s := s

end NoshareCover
