import NoshareCover.Core.Video.PickDevice
import NoshareCover.Lib.Numeral

/-!
# NVDEC on the GPU that was asked for

Two addresses are compared by their ends, so that a device in another PCI domain passes for the one
that was asked for when the digits of its domain end the other's, as those of domain 0 always do.
The first device that passes is taken: it is the right one just if none of those before it passes
(`pickDevice_asked_iff`).
-/

namespace NoshareCover

namespace Nvdec

open Numeral

/-! ### Addresses -/

structure PciAddress where
  domain : Fin (2 ^ 32)
  bus : Fin 256
  device : Fin 32
  function : Fin 8
  deriving DecidableEq, Repr

namespace PciAddress

/-- What follows the domain in the text of an address. -/
def slot (a : PciAddress) : List Char :=
  ':' :: ((Nat.toDigits 16 a.bus).leftpad 2 '0' ++
    ':' :: ((Nat.toDigits 16 a.device).leftpad 2 '0' ++ '.' :: Nat.toDigits 10 a.function))

/-- The address with at least `w` digits for the domain; sysfs writes four. -/
def text (w : ℕ) (a : PciAddress) : List Char :=
  (Nat.toDigits 16 a.domain).leftpad w '0' ++ a.slot

def SameSlot (a b : PciAddress) : Prop :=
  a.bus = b.bus ∧ a.device = b.device ∧ a.function = b.function

/-- The device passes for the wanted one: one domain, without leading zeros, ends the other. -/
def PassesFor (id want : PciAddress) : Prop :=
  id.SameSlot want ∧
    ((want.domain : ℕ) % 16 ^ size 16 id.domain = id.domain ∨
      (id.domain : ℕ) % 16 ^ max 4 (size 16 want.domain) = want.domain)

instance (a b : PciAddress) : Decidable (SameSlot a b) := inferInstanceAs (Decidable (_ ∧ _ ∧ _))

instance (a b : PciAddress) : Decidable (PassesFor a b) := inferInstanceAs (Decidable (_ ∧ (_ ∨ _)))

theorem slot_eq (a : PciAddress) :
    a.slot = ':' :: (numeral 16 2 a.bus ++
      ':' :: (numeral 16 2 a.device ++ '.' :: numeral 10 1 a.function)) := by
  unfold slot
  rw [leftpad_toDigits (by decide) (by decide), leftpad_toDigits (by decide) (by decide),
    toDigits_eq_numeral (by decide)]

theorem text_eq {w : ℕ} (hw : 0 < w) (a : PciAddress) :
    a.text w = numeral 16 w a.domain ++ a.slot := by
  unfold text
  rw [leftpad_toDigits (by decide) hw]

theorem length_bus (a : PciAddress) : (numeral 16 2 a.bus).length = 2 :=
  length_numeral_of_lt (by decide) a.bus.isLt

theorem length_device (a : PciAddress) : (numeral 16 2 a.device).length = 2 :=
  length_numeral_of_lt (by decide) (a.device.isLt.trans (by decide))

theorem length_function (a : PciAddress) : (numeral 10 1 a.function).length = 1 :=
  length_numeral_of_lt (by decide) (a.function.isLt.trans (by decide))

theorem length_slot (a : PciAddress) : a.slot.length = 8 := by
  rw [slot_eq, List.length_cons, List.length_append, List.length_cons, List.length_append,
    List.length_cons, length_bus, length_device, length_function]

theorem slot_eq_iff {a b : PciAddress} : a.slot = b.slot ↔ a.SameSlot b := by
  constructor
  -- each field has a fixed width, so the texts are equal field by field
  · intro h
    rw [slot_eq, slot_eq] at h
    obtain ⟨hbus, h⟩ := List.append_inj (List.tail_eq_of_cons_eq h)
      (by rw [length_bus, length_bus])
    obtain ⟨hdevice, h⟩ := List.append_inj (List.tail_eq_of_cons_eq h)
      (by rw [length_device, length_device])
    have hfunction := List.tail_eq_of_cons_eq h
    refine ⟨Fin.ext ?_, Fin.ext ?_, Fin.ext ?_⟩
    · exact numeral_inj (by decide) (by decide) hbus
    · exact numeral_inj (by decide) (by decide) hdevice
    · exact numeral_inj (by decide) (by decide) hfunction
  · rintro ⟨hbus, hdevice, hfunction⟩
    unfold slot
    rw [hbus, hdevice, hfunction]

/-- Same text, same address. -/
theorem text_inj {w v : ℕ} (hw : 0 < w) (hv : 0 < v) {a b : PciAddress} (h : a.text w = b.text v) :
    a = b := by
  rw [text_eq hw, text_eq hv] at h
  obtain ⟨hnumeral, hslot⟩ := List.append_inj' h (by rw [length_slot, length_slot])
  obtain ⟨hbus, hdevice, hfunction⟩ := slot_eq_iff.1 hslot
  have hdomain : a.domain = b.domain := Fin.ext (numeral_inj (by decide) (by decide) hnumeral)
  cases a
  cases b
  rw [mk.injEq]
  exact ⟨hdomain, hbus, hdevice, hfunction⟩

/-- The zeros in front end at the latest with the domain. -/
theorem dropWhile_text {w : ℕ} (hw : 0 < w) (a : PciAddress) :
    (a.text w).dropWhile (· == '0') = numeral 16 0 a.domain ++ a.slot := by
  rw [text_eq hw, List.dropWhile_append, dropWhile_numeral (by decide) (by decide)]
  split_ifs with hempty
  -- domain 0 has no digit left, and the colon of the slot stops the zeros
  · rw [List.isEmpty_iff.1 hempty, List.nil_append]
    unfold slot
    rfl
  · rfl

/-- **The comparison** of a text of CUDA with one of sysfs. -/
theorem isWanted_iff {w : ℕ} (hw : 4 ≤ w) (id want : PciAddress) :
    isWanted (id.text w) (want.text 4) = true ↔ id.PassesFor want := by
  have hpos : 0 < w := by omega
  have hlength : id.slot.length = want.slot.length := by rw [length_slot, length_slot]
  -- both texts have the same length behind the domain
  have hslot : want.slot = id.slot ↔ id.SameSlot want := eq_comm.trans slot_eq_iff
  unfold isWanted PassesFor
  rw [dropWhile_text hpos, text_eq hpos, text_eq (by decide), Bool.or_eq_true,
    List.isSuffixOf_iff_suffix, List.isSuffixOf_iff_suffix,
    List.suffix_append_inj_of_length_eq hlength.symm,
    List.suffix_append_inj_of_length_eq hlength, suffix_iff (by decide) (by decide) hw,
    suffix_iff (by decide) (by decide) (Nat.zero_le 4), Nat.zero_max, hslot, slot_eq_iff]
  -- the suffix test goes both ways round
  constructor
  · rintro (⟨hend, hsame⟩ | ⟨hend, hsame⟩)
    · exact ⟨hsame, .inr hend⟩
    · exact ⟨hsame, .inl hend⟩
  · rintro ⟨hsame, hend | hend⟩
    · exact .inr ⟨hend, hsame⟩
    · exact .inl ⟨hend, hsame⟩

theorem PassesFor.refl (a : PciAddress) : a.PassesFor a :=
  ⟨⟨rfl, rfl, rfl⟩, .inl (Nat.mod_eq_of_lt (lt_pow_size (by decide) _))⟩

end PciAddress

/-! ### Devices -/

/-- A GPU as CUDA lists it.  The domain of its address is written with four digits, which have to be
enough for it, or with eight. -/
structure Gpu where
  device : CuDevice
  address : PciAddress
  digits : ℕ
  digits_eq : digits = 4 ∧ (address.domain : ℕ) < 16 ^ 4 ∨ digits = 8

def Gpu.text (g : Gpu) : List Char := g.address.text g.digits

theorem Gpu.four_le (g : Gpu) : 4 ≤ g.digits := by
  have h := g.digits_eq
  omega

/-- The driver lists these GPUs, in upper case or in lower case. -/
structure Cuda.Lists (cuda : Cuda) (gpus : List Gpu) : Prop where
  count : cuda.deviceGetCount = (0, (gpus.length : ℤ))
  get : ∀ (i : ℕ) (h : i < gpus.length), cuda.deviceGet i = (0, gpus[i].device)
  id : ∀ g ∈ gpus, (cuda.deviceGetPciBusId g.device).1 = 0
    ∧ toAsciiLowercase (cuda.deviceGetPciBusId g.device).2 = g.text

/-- The device that was asked for is picked, and no other. -/
structure Cuda.PicksAsked (cuda : Cuda) (readLink : String → Option String) (gpus : List Gpu)
    (node : String) (want : PciAddress) : Prop where
  found : ∀ g ∈ gpus, g.address = want → pickDevice cuda readLink (some node) = .ok g.device
  missing : (∀ g ∈ gpus, g.address ≠ want) → ∃ e, pickDevice cuda readLink (some node) = .error e
  otherDomain : ∀ g ∈ gpus, g.address.SameSlot want → g.address.domain ≠ want.domain →
    pickDevice cuda readLink (some node) ≠ .ok g.device

section Pick

variable {cuda : Cuda} {gpus : List Gpu} {want : PciAddress}

/-- The address of a GPU is where the driver says. -/
theorem Cuda.Lists.address_inj (h : cuda.Lists gpus) {g g' : Gpu} (hg : g ∈ gpus) (hg' : g' ∈ gpus)
    (hdevice : g.device = g'.device) : g.address = g'.address := by
  have htext : g.text = g'.text := by rw [← (h.id g hg).2, hdevice, (h.id g' hg').2]
  have hpos := g.four_le
  have hpos' := g'.four_le
  exact PciAddress.text_inj (by omega) (by omega) htext

/-- **The loop** takes the first GPU that passes for the wanted one. -/
theorem Cuda.pickAmong_eq (want : PciAddress) : ∀ {gpus : List Gpu} {is : List ℕ},
    is.map cuda.deviceGet = gpus.map (fun g => (0, g.device)) →
    (∀ g ∈ gpus, (cuda.deviceGetPciBusId g.device).1 = 0
      ∧ toAsciiLowercase (cuda.deviceGetPciBusId g.device).2 = g.text) →
    cuda.pickAmong (some (want.text 4)) is
      = .ok ((gpus.find? fun g => g.address.PassesFor want).map Gpu.device)
  | [], [], _, _ => rfl
  | g :: gpus, i :: is, hget, hid => by
    -- the first device of the list, then the others
    obtain ⟨hfirst, hrest⟩ := List.cons_eq_cons.1 hget
    obtain ⟨hfine, htext⟩ := hid g (List.mem_cons_self ..)
    have ih := pickAmong_eq want hrest fun g' hg' => hid g' (List.mem_cons_of_mem g hg')
    have hiff := PciAddress.isWanted_iff g.four_le g.address want
    rw [pickAmong, hfirst]
    show (if (cuda.deviceGetPciBusId g.device).1 = 0 ∧ isWanted _ _ = true then .ok (some g.device)
      else cuda.pickAmong (some (want.text 4)) is) = _
    rw [hfine, htext, ih, List.find?_cons]
    -- an address that passes ends the loop
    by_cases hpasses : g.address.PassesFor want
    · rw [if_pos ⟨rfl, hiff.2 hpasses⟩, decide_eq_true hpasses]
      rfl
    · rw [if_neg fun hwanted => hpasses (hiff.1 hwanted.2), decide_eq_false hpasses]

theorem Cuda.Lists.map_deviceGet (h : cuda.Lists gpus) :
    (List.range gpus.length).map cuda.deviceGet = gpus.map fun g => (0, g.device) := by
  apply List.ext_getElem
  · rw [List.length_map, List.length_map, List.length_range]
  · intro i hi hi'
    rw [List.getElem_map, List.getElem_map, List.getElem_range]
    exact h.get i (by rwa [List.length_map] at hi')

/-- **The picked device** is the first that passes for the wanted one. -/
theorem pickDevice_eq {readLink : String → Option String} {node : String} (h : cuda.Lists gpus)
    (hnode : pciOfNode readLink node = some (want.text 4)) :
    ∃ e, pickDevice cuda readLink (some node)
      = match gpus.find? fun g => g.address.PassesFor want with
        | some g => .ok g.device
        | none => .error e := by
  have hloop := cuda.pickAmong_eq want h.map_deviceGet h.id
  unfold pickDevice
  rw [h.count, Option.bind_some, hnode]
  show ∃ e, (if (gpus.length : ℤ) ≤ 0 then (.error "CUDA sees no GPUs" : Except String CuDevice)
    else (cuda.pickAmong (some (want.text 4)) (List.range gpus.length)).bind _) = _
  rw [hloop]
  -- no devices at all is an error of its own
  by_cases hcount : (gpus.length : ℤ) ≤ 0
  · have hnil : gpus = [] := List.length_eq_zero_iff.1 (by omega)
    rw [if_pos hcount, hnil]
    exact ⟨_, rfl⟩
  · rw [if_neg hcount]
    cases hfind : gpus.find? fun g => g.address.PassesFor want with
    | none => exact ⟨_, rfl⟩
    | some g => exact ⟨"", rfl⟩

/-- The GPUs before the wanted one; all of them when it is not listed. -/
def listedBefore (gpus : List Gpu) (want : PciAddress) : List Gpu :=
  gpus.takeWhile fun g => g.address ≠ want

theorem mem_listedBefore {g : Gpu} (hg : g ∈ listedBefore gpus want) :
    g ∈ gpus ∧ g.address ≠ want := by
  have hne := List.mem_takeWhile_imp hg
  rw [decide_eq_true_eq] at hne
  exact ⟨(List.takeWhile_subset _) hg, hne⟩

/-- The wanted one comes next, if it is listed. -/
theorem split_listedBefore (gpus : List Gpu) (want : PciAddress) :
    ∃ after, gpus = listedBefore gpus want ++ after ∧ ∀ o ∈ after.head?, o.address = want := by
  refine ⟨gpus.dropWhile fun g => g.address ≠ want, List.takeWhile_append_dropWhile.symm, ?_⟩
  intro o ho
  have hhead := List.head?_dropWhile_not (fun g : Gpu => g.address ≠ want) gpus
  rw [Option.mem_def.1 ho] at hhead
  exact not_not.1 (of_decide_eq_false hhead)

/-- One of those before the wanted one is found when one of them passes. -/
theorem find_of_passes {g : Gpu} (hg : g ∈ listedBefore gpus want)
    (hpasses : g.address.PassesFor want) :
    ∃ g' ∈ listedBefore gpus want, gpus.find? (fun g => g.address.PassesFor want) = some g' := by
  have hsome : ((listedBefore gpus want).find? fun g => g.address.PassesFor want).isSome :=
    List.find?_isSome.2 ⟨g, hg, decide_eq_true hpasses⟩
  obtain ⟨g', hg'⟩ := Option.isSome_iff_exists.1 hsome
  obtain ⟨after, hgpus, -⟩ := split_listedBefore gpus want
  refine ⟨g', List.mem_of_find?_eq_some hg', ?_⟩
  rw [hgpus, List.find?_append, hg', Option.some_or]

/-- The wanted one is found when none of those before it passes. -/
theorem find_of_none_passes (h : ∀ g ∈ listedBefore gpus want, ¬ g.address.PassesFor want) :
    (∃ o ∈ gpus, o.address = want ∧ gpus.find? (fun g => g.address.PassesFor want) = some o) ∨
      (∀ g ∈ gpus, g.address ≠ want) ∧ gpus.find? (fun g => g.address.PassesFor want) = none := by
  -- nobody in front of the wanted one passes
  have hnone : (listedBefore gpus want).find? (fun g => g.address.PassesFor want) = none :=
    List.find?_eq_none.2 fun g hg hpasses => h g hg (of_decide_eq_true hpasses)
  obtain ⟨after, hgpus, hhead⟩ := split_listedBefore gpus want
  have hfind : gpus.find? (fun g => g.address.PassesFor want)
      = after.find? fun g => g.address.PassesFor want := by
    rw [hgpus, List.find?_append, hnone, Option.none_or]
  rw [hfind]
  -- the wanted one is not there, or it is next
  cases after with
  | nil =>
    rw [List.append_nil] at hgpus
    refine .inr ⟨fun g hg => ?_, rfl⟩
    rw [hgpus] at hg
    exact (mem_listedBefore hg).2
  | cons o after =>
    have haddress : o.address = want := hhead o rfl
    have hpasses : o.address.PassesFor want := haddress ▸ .refl want
    refine .inl ⟨o, ?_, haddress, List.find?_cons_of_pos (decide_eq_true hpasses)⟩
    rw [hgpus]
    exact List.mem_append_right _ (List.mem_cons_self ..)

/-- **NVDEC runs on the GPU that was asked for** if and only if no other GPU passes for it that is
listed before it, or listed at all when it is not. -/
theorem pickDevice_asked_iff {readLink : String → Option String} {node : String}
    (h : cuda.Lists gpus) (hdistinct : (gpus.map Gpu.address).Nodup)
    (hnode : pciOfNode readLink node = some (want.text 4)) :
    cuda.PicksAsked readLink gpus node want ↔
      ∀ g ∈ listedBefore gpus want, ¬ g.address.PassesFor want := by
  obtain ⟨e, hpick⟩ := pickDevice_eq h hnode
  constructor
  · intro hasked g hg hpasses
    -- then a GPU before the wanted one is picked
    obtain ⟨g', hg', hfind⟩ := find_of_passes hg hpasses
    obtain ⟨hmem, hne⟩ := mem_listedBefore hg'
    have hok : pickDevice cuda readLink (some node) = .ok g'.device := by rw [hpick, hfind]
    -- it is not the wanted one, which would have been the answer, or none
    by_cases hlisted : ∃ o ∈ gpus, o.address = want
    · obtain ⟨o, ho, haddress⟩ := hlisted
      have hdevice : g'.device = o.device :=
        Except.ok.inj (hok.symm.trans (hasked.found o ho haddress))
      exact hne ((h.address_inj hmem ho hdevice).trans haddress)
    · obtain ⟨e', herror⟩ := hasked.missing fun o ho haddress => hlisted ⟨o, ho, haddress⟩
      rw [hok] at herror
      contradiction
  · intro hnone
    rcases find_of_none_passes hnone with ⟨o, ho, haddress, hfind⟩ | ⟨hmissing, hfind⟩
    · have hok : pickDevice cuda readLink (some node) = .ok o.device := by rw [hpick, hfind]
      refine ⟨fun g hg hg' => ?_, fun hmissing => absurd haddress (hmissing o ho), ?_⟩
      · rw [List.inj_on_of_nodup_map hdistinct hg ho (hg'.trans haddress.symm)]
        exact hok
      -- a driver that gave both the same device would give them the same address
      · intro g hg _ hdomain hok'
        have hdevice : o.device = g.device := Except.ok.inj (hok.symm.trans hok')
        rw [← h.address_inj ho hg hdevice, haddress] at hdomain
        exact hdomain rfl
    · have herror : pickDevice cuda readLink (some node) = .error e := by rw [hpick, hfind]
      refine ⟨fun g hg haddress => absurd haddress (hmissing g hg), fun _ => ⟨e, herror⟩, ?_⟩
      intro g _ _ _ hok
      rw [herror] at hok
      contradiction

end Pick

/-! ### Two GPUs that differ in the domain -/

def twin (domain : Fin (2 ^ 32)) : Gpu :=
  { device := domain, address := ⟨domain, 1, 0, 0⟩, digits := 8, digits_eq := .inr rfl }

/-- A driver that lists these GPUs. -/
def Cuda.ofGpus (gpus : List Gpu) : Cuda :=
  { deviceGetCount := (0, (gpus.length : ℤ))
    deviceGet := fun i => (gpus[i]?).elim (101, 0) fun g => (0, g.device)
    deviceGetPciBusId := fun device =>
      (gpus.find? (·.device = device)).elim (101, []) fun g => (0, g.text)
    getErrorString := fun _ => some "invalid device ordinal" }

def twinLink (path : String) : Option String :=
  if path = "/sys/class/drm/renderD129/device" then some "../../../0001:01:00.0" else none

/-- The driver has to give the addresses, in lower case. -/
theorem ofGpus_lists {g g' : Gpu} (h : ∀ x ∈ [g, g'],
      ((Cuda.ofGpus [g, g']).deviceGetPciBusId x.device).1 = 0 ∧
        toAsciiLowercase ((Cuda.ofGpus [g, g']).deviceGetPciBusId x.device).2 = x.text) :
    (Cuda.ofGpus [g, g']).Lists [g, g'] := by
  refine ⟨rfl, fun i hi => ?_, h⟩
  rcases i with - | - | i
  · rfl
  · rfl
  · exact absurd hi (by simp)

/-- The node is in domain 1, and the device in domain 0 is picked: it is listed first. -/
theorem other_domain_picked :
    (Cuda.ofGpus [twin 0, twin 1]).Lists [twin 0, twin 1] ∧
      ([twin 0, twin 1].map Gpu.address).Nodup ∧
      pciOfNode twinLink "/dev/dri/renderD129" = some ((twin 1).address.text 4) ∧
      pickDevice (Cuda.ofGpus [twin 0, twin 1]) twinLink (some "/dev/dri/renderD129")
        = .ok (twin 0).device ∧
      ¬ (Cuda.ofGpus [twin 0, twin 1]).PicksAsked twinLink [twin 0, twin 1] "/dev/dri/renderD129"
        (twin 1).address := by
  have hpick : pickDevice (Cuda.ofGpus [twin 0, twin 1]) twinLink (some "/dev/dri/renderD129")
      = .ok (twin 0).device := by decide +kernel
  refine ⟨ofGpus_lists (by decide +kernel), by decide +kernel, by decide +kernel, hpick, fun h => ?_⟩
  have hasked := h.found (twin 1) (List.mem_cons_of_mem _ (List.mem_cons_self ..)) rfl
  rw [hpick] at hasked
  exact absurd (Except.ok.inj hasked) (by decide)

/-- The device in domain 1 is picked where it is listed first. -/
theorem asked_of_listed_first :
    (Cuda.ofGpus [twin 1, twin 0]).PicksAsked twinLink [twin 1, twin 0] "/dev/dri/renderD129"
      (twin 1).address :=
  (pickDevice_asked_iff (ofGpus_lists (by decide +kernel)) (by decide +kernel)
    (by decide +kernel)).2 (by decide +kernel)

end Nvdec

end NoshareCover
