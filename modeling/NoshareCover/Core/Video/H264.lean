import NoshareCover.Core.Video.Bitstream

/-!
# openh264

The software decoder for H.264 refuses a stream above level 5.2, so the level of every sequence
parameter set is lowered to that before a packet is decoded.
-/

namespace NoshareCover.H264

/-- Highest level openh264 accepts (5.2). -/
def openh264MaxLevel : UInt8 := 52

/-- A start code `00 00 01` (also the tail of `00 00 00 01`) is at `i`. -/
def startsAt (data : List UInt8) (i : ℕ) : Prop :=
  data.getD i 0 = 0 ∧ data.getD (i + 1) 0 = 0 ∧ data.getD (i + 2) 0 = 1

instance (data : List UInt8) (i : ℕ) : Decidable (startsAt data i) :=
  inferInstanceAs (Decidable (_ ∧ _ ∧ _))

/-- The unit at `nal` is an SPS of a level that is too high: header (type 7), profile, constraint
flags, level. -/
def levelAbove (data : List UInt8) (nal : ℕ) : Prop :=
  nal + 3 < data.length ∧ data.getD nal 0 &&& 0x1f = 7
    ∧ openh264MaxLevel < data.getD (nal + 3) 0

instance (data : List UInt8) (nal : ℕ) : Decidable (levelAbove data nal) :=
  inferInstanceAs (Decidable (_ ∧ _ ∧ _))

/-- The loop from `i` on; `out` is the copy, once there is one. -/
def clampFrom (data : List UInt8) (i : ℕ) (out : Option (List UInt8)) : Option (List UInt8) :=
  if i + 3 < data.length then
    if startsAt data i then
      let nal := i + 3
      clampFrom data nal
        (if levelAbove data nal then some ((out.getD data).set (nal + 3) openh264MaxLevel) else out)
    else clampFrom data (i + 1) out
  else out
termination_by data.length - i

/-- Copy of an Annex-B packet with every SPS level above 5.2 lowered to 5.2, or `none` if nothing
needs changing. -/
def clampSpsLevel (data : List UInt8) : Option (List UInt8) := clampFrom data 0 none

end NoshareCover.H264
