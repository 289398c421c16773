import NoshareCover.Core.Open
import NoshareCover.Core.RawSettings
import NoshareCover.Core.Video.Nvdec

/-!
# The GPU that NVDEC runs on

A render node is found among the CUDA devices by the text of its PCI address.
-/

namespace NoshareCover

namespace Nvdec

/-- A result code of the driver; 0 is success. -/
abbrev CuResult := ℤ

abbrev CuDevice := ℤ

/-- The driver's answers about its devices.  `deviceGetPciBusId` writes a text. -/
structure Cuda where
  deviceGetCount : CuResult × ℤ
  deviceGet : ℕ → CuResult × CuDevice
  deviceGetPciBusId : CuDevice → CuResult × List Char
  getErrorString : CuResult → Option String

def Cuda.check (cuda : Cuda) (what : String) (r : CuResult) : Except String Unit :=
  if r = 0 then .ok ()
  else .error (what ++ ": " ++ (cuda.getErrorString r).getD ("code " ++ toString r))

/-- `str::to_ascii_lowercase`. -/
def toAsciiLowercase (s : List Char) : List Char := s.map Char.toLower

/-- PCI address of the device behind a render node: `/sys/class/drm/renderD128/device` leads to
`0000:01:00.0`. -/
def pciOfNode (readLink : String → Option String) (node : String) : Option (List Char) := do
  let name ← Path.fileName node
  let dev ← readLink (Path.join (Path.join "/sys/class/drm" (String.ofList name)) "device")
  let address ← Path.fileName dev
  return toAsciiLowercase address

/-- CUDA writes the domain with 8 digits (`00000000:01:00.0`), sysfs with 4. -/
def isWanted (id want : List Char) : Bool :=
  want.isSuffixOf id || (id.dropWhile (· == '0')).isSuffixOf want

/-- The loop over the numbers of the devices. -/
def Cuda.pickAmong (cuda : Cuda) (want : Option (List Char)) :
    List ℕ → Except String (Option CuDevice)
  | [] => .ok none
  | i :: rest => do
    let (r, dev) := cuda.deviceGet i
    cuda.check "cuDeviceGet" r
    match want with
    | none => return some dev
    | some want =>
      let (r, id) := cuda.deviceGetPciBusId dev
      if r = 0 ∧ isWanted (toAsciiLowercase id) want then return some dev
      else pickAmong cuda (some want) rest

def pickDevice (cuda : Cuda) (readLink : String → Option String) (node : Option String) :
    Except String CuDevice := do
  let (r, count) := cuda.deviceGetCount
  cuda.check "cuDeviceGetCount" r
  if count ≤ 0 then .error "CUDA sees no GPUs"
  else
    match ← cuda.pickAmong (node.bind (pciOfNode readLink)) (List.range count.toNat) with
    | some dev => return dev
    | none => .error (node.getD "" ++ " is not an NVIDIA/CUDA device")

end Nvdec

end NoshareCover
