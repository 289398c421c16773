import NoshareCover.Core.Spec.Mp4Box
import NoshareCover.Core.Video.SampleEntry

/-!
# Reading the sample description

The codec config of a VP8 or VP9 entry is what its box holds, byte for byte (`ReMp4.takes_readStsd`).
-/

namespace NoshareCover

namespace ReMp4

open Reader BigEndian

/-! ### Fields of a fixed size -/

/-- Any `k` bytes are read. -/
def Reads {α : Type} (r : BoxReader α) (k : ℕ) : Prop :=
  ∀ w : List UInt8, w.length = k → ∃ a, Takes 0 r w a

theorem reads_readExact (k : ℕ) : Reads (readExact k) k := fun w hw => ⟨w, takes_readExact hw⟩

theorem reads_readUInt (k : ℕ) : Reads (readUInt k) k :=
  fun _ hw => ⟨_, (takes_readExact hw).map value⟩

theorem Reads.pure {α : Type} (a : α) : Reads (fun _ => Pure.pure a) 0 := by
  intro w hw
  rw [List.length_eq_zero_iff.1 hw]
  exact ⟨a, Takes.pure 0 a⟩

theorem Reads.bind {α β : Type} {r : BoxReader α} {q : α → BoxReader β} {j k : ℕ} (hr : Reads r j)
    (hq : ∀ a, Reads (q a) k) : Reads (fun file => r file >>= fun a => q a file) (j + k) := by
  intro w hw
  obtain ⟨a, ha⟩ := hr (w.take j) (List.length_take_of_le (by omega))
  obtain ⟨b, hb⟩ := hq a (w.drop j) (by rw [List.length_drop, hw, Nat.add_sub_cancel_left])
  have hboth := ha.bind (hb.mono (Nat.zero_le _))
  rw [List.take_append_drop] at hboth
  exact ⟨b, hboth⟩

theorem reads_vpccFields : Reads VpccBox.readFields 11 := by
  refine (reads_readExact 4).bind (k := 7) fun _ => ?_
  refine (reads_readUInt 1).bind (k := 6) fun _ => ?_
  refine (reads_readUInt 1).bind (k := 5) fun _ => ?_
  refine (reads_readUInt 1).bind (k := 4) fun _ => ?_
  refine (reads_readUInt 1).bind (k := 3) fun _ => ?_
  refine (reads_readUInt 1).bind (k := 2) fun _ => ?_
  exact (reads_readUInt 2).bind (k := 0) fun _ => .pure _

theorem reads_vpFields : Reads VpBox.readFields 78 := by
  refine (reads_readExact 4).bind (k := 74) fun _ => ?_
  refine (reads_readUInt 2).bind (k := 72) fun _ => ?_
  refine (reads_readUInt 2).bind (k := 70) fun _ => ?_
  refine (reads_readExact 16).bind (k := 54) fun _ => ?_
  refine (reads_readUInt 2).bind (k := 52) fun _ => ?_
  refine (reads_readUInt 2).bind (k := 50) fun _ => ?_
  refine (reads_readExact 4).bind (k := 46) fun _ => ?_
  refine (reads_readExact 4).bind (k := 42) fun _ => ?_
  refine (reads_readExact 4).bind (k := 38) fun _ => ?_
  refine (reads_readUInt 2).bind (k := 36) fun _ => ?_
  refine (reads_readExact 32).bind (k := 4) fun _ => ?_
  refine (reads_readUInt 2).bind (k := 2) fun _ => ?_
  exact (reads_readUInt 2).bind (k := 0) fun _ => .pure _

/-! ### The box in the entry -/

theorem takes_readRaw {α : Type} {n : ℕ} {contents : BoxReader α} {w : List UInt8} {a : α}
    (h : Takes n contents w a) : Takes n (readRaw contents) w (a, w) := by
  intro front back hfront
  have hread := h front back hfront
  have hraw := takes_readExact (n := w.length) rfl front back (Nat.zero_le _)
  show (contents _).run front.length >>= _ = _
  rw [hread]
  show (if front.length + w.length < front.length then _ else _ : StateT ℕ (Except BoxError) _).run _
    = _
  rw [if_neg (by omega), Nat.add_sub_cancel_left]
  show (readExact w.length _).run front.length >>= _ = _
  rw [hraw]
  rfl

theorem takes_vpcc {config : List UInt8} (hlength : 11 ≤ config.length) :
    ∃ b, Takes 8 (VpccBox.read (8 + config.length)) config b := by
  obtain ⟨b, hb⟩ := reads_vpccFields (config.take 11) (List.length_take_of_le hlength)
  have hbox : Takes 8 (VpccBox.read (8 + config.length)) (config.take 11 ++ config.drop 11) b :=
    takes_readBox hb (by rw [List.take_append_drop])
  rw [List.take_append_drop] at hbox
  exact ⟨b, hbox⟩

/-! ### The entry and its box -/

/-- The name of `vpcC`. -/
def vpccName : BoxType := .other 0x76706343

/-- An entry of VP8 or VP9, behind its header: its fields, and the config in its box. -/
def encodeVp (fields config : List UInt8) : List UInt8 :=
  fields ++ (encodeHeader false vpccName config.length ++ config)

theorem takes_vpBox {fields config : List UInt8} (pad : List UInt8) (hfields : fields.length = 78)
    (hconfig : 11 ≤ config.length) (hsize : config.length < 2 ^ 31) :
    ∃ b, Takes 8 (VpBox.read (8 + (encodeVp fields config ++ pad).length))
      (encodeVp fields config ++ pad) b ∧ b.vpcc.2 = config := by
  obtain ⟨u, hu⟩ := reads_vpFields fields hfields
  obtain ⟨vpcc, hvpcc⟩ := takes_vpcc hconfig
  -- the header of `vpcC` in front of the config
  have hheader : Takes 0 BoxHeader.read (encodeHeader false vpccName config.length)
      { name := vpccName, size := 8 + config.length } := by
    refine takes_header ⟨by norm_num [vpccName, BoxType.toU32], rfl⟩ ?_
    unfold SizeFits
    rw [if_neg Bool.false_ne_true]
    omega
  have hlength := StblChild.length_encodeHeader false vpccName config.length
  generalize hall : 8 + (encodeVp fields config ++ pad).length = size
  -- the check on its size passes
  have hroom : ¬ size < 8 + config.length := by
    rw [← hall, encodeVp]
    simp only [List.length_append]
    omega
  -- the fields, the header and the box, as it is
  have hcontents : Takes 0 (VpBox.readContents size) (encodeVp fields config)
      { vpcc := (vpcc, config) } := by
    refine hu.bind ?_
    refine (hheader.mono (Nat.zero_le _)).bind ?_
    have hraw := (takes_readRaw hvpcc).map fun vpcc => ({ vpcc } : VpBox)
    refine (hraw.mono (by omega)).of_eq fun file => ?_
    rw [if_neg hroom]
    rfl
  exact ⟨{ vpcc := (vpcc, config) }, takes_readBox hcontents hall.symm, rfl⟩

/-- The type of an entry of VP8, or of VP9. -/
def vpType (nine : Bool) : ℕ := if nine then 0x76703039 else 0x76703038

def vpContents (nine : Bool) : StsdBoxContent := if nine then .vp09 else .vp08

/-- The contents of `stsd` with an entry of VP8 or VP9. -/
def encodeStsd (nine : Bool) (ext fields config : List UInt8) : List UInt8 :=
  ext ++ (encode 4 1 ++ (encodeHeader false (.other (vpType nine)) (encodeVp fields config).length
    ++ encodeVp fields config))

theorem length_encodeVp {fields : List UInt8} (hfields : fields.length = 78) (config : List UInt8) :
    (encodeVp fields config).length = 86 + config.length := by
  rw [encodeVp, List.length_append, List.length_append, hfields, encodeHeader,
    if_neg Bool.false_ne_true, List.length_append, length_encode, length_encode]
  omega

theorem length_encodeStsd (nine : Bool) {ext fields : List UInt8} (hext : ext.length = 4)
    (hfields : fields.length = 78) (config : List UInt8) :
    (encodeStsd nine ext fields config).length = 102 + config.length := by
  rw [encodeStsd, List.length_append, List.length_append, List.length_append, hext,
    length_encodeVp hfields, encodeHeader, if_neg Bool.false_ne_true, List.length_append,
    length_encode, length_encode, length_encode]
  omega

/-- **The config of an entry** is read back, and the other readers do not matter. -/
theorem takes_stsd (readers : EntryReaders) (fuel : ℕ) (nine : Bool)
    {ext fields config : List UInt8} (hext : ext.length = 4) (hfields : fields.length = 78)
    (hconfig : 11 ≤ config.length) (hsize : config.length < 2 ^ 31) :
    Takes 8 (StsdBox.read readers fuel (8 + (encodeStsd nine ext fields config).length))
      (encodeStsd nine ext fields config) (vpContents nine, some config) := by
  obtain ⟨b, hb, hvpcc⟩ := takes_vpBox [] hfields hconfig hsize
  rw [List.append_nil] at hb
  have hvp := length_encodeVp hfields config
  -- the header of the entry
  have hheader : Takes 0 BoxHeader.read
      (encodeHeader false (.other (vpType nine)) (encodeVp fields config).length)
      { name := .other (vpType nine), size := 8 + (encodeVp fields config).length } := by
    refine takes_header ?_ ?_
    · cases nine <;> exact ⟨by norm_num [vpType, BoxType.toU32], rfl⟩
    · unfold SizeFits
      rw [if_neg Bool.false_ne_true]
      omega
  have hlength := StblChild.length_encodeHeader false (.other (vpType nine))
    (encodeVp fields config).length
  generalize hall : 8 + (encodeStsd nine ext fields config).length = size
  have hroom : ¬ size < 8 + (encodeVp fields config).length := by
    rw [← hall, encodeStsd]
    simp only [List.length_append]
    omega
  -- the match takes the reader of `vp08` or `vp09`
  have hentry : Takes 8 (readSampleEntry readers fuel
      { name := .other (vpType nine), size := 8 + (encodeVp fields config).length })
      (encodeVp fields config) (vpContents nine, some config) := by
    have hmap := (takes_loop hb).map fun bx : VpBox => (vpContents nine, some bx.vpcc.2)
    rw [hvpcc] at hmap
    refine hmap.of_eq fun file => ?_
    cases nine <;> rfl
  -- version, count, header, entry
  have hcontents : Takes 0 (StsdBox.readContents readers fuel size)
      (encodeStsd nine ext fields config) (vpContents nine, some config) := by
    refine (takes_loop (takes_readExact hext)).bind ?_
    refine ((takes_loop (takes_readU32 (n := 1) (by norm_num))).mono (Nat.zero_le _)).bind ?_
    refine ((takes_loop hheader).mono (Nat.zero_le _)).bind ?_
    refine (hentry.mono (by omega)).of_eq fun file => ?_
    rw [if_neg hroom]
  -- the reader goes to the end of the box by itself
  intro front back hfront
  show (StsdBox.readContents readers fuel size _).run front.length >>= _ = _
  rw [hcontents front back (Nat.zero_le _)]
  show Except.ok (_, front.length - 8 + size) = _
  rw [show front.length - 8 + size = front.length + (encodeStsd nine ext fields config).length by
    omega]

end ReMp4

end NoshareCover
