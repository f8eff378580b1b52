import Mathlib.Data.Int.ModEq
import Mathlib.Tactic.SplitIfs
import Shamrock.Codes

/-!
# Partitioning a device

`CPUDevice::createSubDevices`: the first half computes an error code and the number of the new
devices, and the second half makes them if the partition size is not zero, whatever the error code.
-/
namespace Shamrock.Cpu

def clDevicePartitionEqually : UInt64 := 0x1086
def clDevicePartitionByCounts : UInt64 := 0x1087

/-- What is kept of a new `CPUDevice`: its cores and its partition properties, of which there is
one. -/
structure SubDevice where
  cores : UInt32
  properties : UInt64
  deriving DecidableEq, Repr

/-- What a call leaves: the entries of `out_devices` that it writes, what it writes to
`num_devices_ret`, and whether it has read a variable without a value. -/
structure Partition where
  retval : Int
  created : List (Int × SubDevice)
  reported : Option UInt32
  uninitialised : Bool
  deriving DecidableEq, Repr

structure PartitionArgs where
  numCPUs : UInt32
  properties : Option (Nat → UInt64)
  numDevices : UInt32
  outDevices : Bool
  numDevicesRet : Bool

/-- The error code, `partition_size` and `num_new_devices` after the checks of the properties. -/
def checkProperties (a : PartitionArgs) : Int × Option UInt32 × UInt32 :=
  match a.properties with
  | none => (clInvalidValue, none, 0)
  | some properties =>
    if properties 0 = clDevicePartitionEqually then
      let partitionSize := (properties 1).toUInt32
      if properties 2 ≠ 0 then (clInvalidValue, some partitionSize, 0)
      else if a.numCPUs = 1 then (clDevicePartitionFailed, some partitionSize, 0)
      else if 0 < partitionSize ∧ partitionSize ≤ a.numCPUs then
        (0, some partitionSize, a.numCPUs / partitionSize)
      else (clInvalidValue, some partitionSize, 0)
    else if properties 0 = clDevicePartitionByCounts then (clInvalidValue, none, 0)
    else (clInvalidValue, none, 0)

/-- The loop `for (int i = 0; i < num_new_devices; i++)`. -/
def newDevices (numNewDevices : UInt32) (device : SubDevice) : List (Int × SubDevice) :=
  (List.range numNewDevices.toNat).map fun (i : Nat) => (Int.bmod i (2 ^ 32), device)

/-- No answer stands for an assertion that fails; `garbage` is what a variable without a value
holds. -/
def createSubDevices (garbage : UInt32) (a : PartitionArgs) : Option Partition :=
  let (retval, partitionSize, numNewDevices) := checkProperties a
  let retval :=
    if retval = 0 ∧ a.outDevices ∧ a.numDevices < numNewDevices then clInvalidValue else retval
  let size := partitionSize.getD garbage
  if retval = 0 ∧ size = 0 then none
  else
    some
      { retval := retval
        created :=
          match a.properties with
          | some properties =>
            if size ≠ 0 ∧ a.outDevices then newDevices numNewDevices ⟨size, properties 0⟩ else []
          | none => []
        reported := if size ≠ 0 ∧ a.numDevicesRet then some numNewDevices else none
        uninitialised := partitionSize.isNone }

namespace PartitionArgs

/-- `partition_size`, where the properties give one. -/
def partitionSize (a : PartitionArgs) : UInt32 :=
  match a.properties with
  | none => 0
  | some properties => (properties 1).toUInt32

def Equally (a : PartitionArgs) : Prop :=
  ∃ properties ∈ a.properties, properties 0 = clDevicePartitionEqually

/-- The checks of the properties find no error. -/
def Accepted (a : PartitionArgs) : Prop :=
  ∃ properties ∈ a.properties, properties 0 = clDevicePartitionEqually ∧ properties 2 = 0 ∧
    a.numCPUs ≠ 1 ∧ 0 < a.partitionSize ∧ a.partitionSize ≤ a.numCPUs

/-- The number of the new devices. -/
def count (a : PartitionArgs) : Nat := a.numCPUs.toNat / a.partitionSize.toNat

/-- There is room for the new devices, and an `int` can count them. -/
def Room (a : PartitionArgs) : Prop := a.count ≤ a.numDevices.toNat ∧ a.count ≤ 2 ^ 31

end PartitionArgs

/-- The call reads no variable without a value. On success it creates `count` devices, each with
`partition_size` cores, and reports `a.count`; on error it creates none; and no entry behind the end
of `out_devices` is written. -/
structure SubDevicesExact (a : PartitionArgs) (count : Nat) (r : Partition) : Prop where
  decided : r.uninitialised = false
  success : r.retval = 0 → (r.created.map fun d => (d.1, d.2.cores)) =
      ((List.range count).map fun (i : Nat) => ((i : Int), a.partitionSize)) ∧
    (a.numDevicesRet = true → r.reported.map UInt32.toNat = some a.count)
  failure : r.retval ≠ 0 → r.created = []
  inside : ∀ d ∈ r.created, 0 ≤ d.1 ∧ d.1 < a.numDevices.toNat

/-- Whatever the variables without a value hold. -/
def Exact (a : PartitionArgs) (count : Nat) : Prop :=
  ∀ garbage, ∃ r, createSubDevices garbage a = some r ∧ SubDevicesExact a count r

section SubDevices

variable {a : PartitionArgs} {device : SubDevice}
  {n : UInt32}

theorem checkProperties_other (h : ¬a.Equally) :
    checkProperties a = (clInvalidValue, none, 0) := by
  unfold checkProperties
  cases hp : a.properties with
  | none => rfl
  | some properties =>
    dsimp only
    rw [if_neg fun heq => h ⟨properties, hp, heq⟩, ite_self]

theorem checkProperties_accepted (h : a.Accepted) :
    checkProperties a = (0, some a.partitionSize, a.numCPUs / a.partitionSize) := by
  obtain ⟨properties, hp, hequally, hend, hcpus, hsize⟩ := h
  unfold checkProperties
  unfold PartitionArgs.partitionSize at hsize ⊢
  rw [hp] at hsize ⊢
  dsimp only at hsize ⊢
  rw [if_pos hequally, if_neg (not_not.mpr hend), if_neg hcpus, if_pos hsize]

theorem checkProperties_rejected (he : a.Equally) (h : ¬a.Accepted) :
    ∃ code, code ≠ 0 ∧ checkProperties a = (code, some a.partitionSize, 0) := by
  obtain ⟨properties, hp, hequally⟩ := he
  have hrejected : ¬(properties 2 = 0 ∧ a.numCPUs ≠ 1 ∧ 0 < a.partitionSize ∧
      a.partitionSize ≤ a.numCPUs) := fun hall => h ⟨properties, hp, hequally, hall⟩
  unfold checkProperties
  unfold PartitionArgs.partitionSize at hrejected ⊢
  rw [hp] at hrejected ⊢
  dsimp only at hrejected ⊢
  rw [if_pos hequally]
  split_ifs with hend hcpus hsize
  · exact ⟨_, by decide, rfl⟩
  · exact ⟨_, by decide, rfl⟩
  · exact absurd ⟨not_not.mp hend, hcpus, hsize⟩ hrejected
  · exact ⟨_, by decide, rfl⟩

/-- The entries are written one after the other unless the counter becomes negative. -/
theorem newDevices_eq (device : SubDevice) (h : n.toNat ≤ 2 ^ 31) :
    newDevices n device = (List.range n.toNat).map fun (i : Nat) => ((i : Int), device) := by
  unfold newDevices
  refine List.map_congr_left fun i hi => ?_
  have hlt := List.mem_range.mp hi
  rw [Int.bmod_def]
  split_ifs
  all_goals simp; omega

/-- The counter of more devices becomes negative. -/
theorem mem_newDevices (h : 2 ^ 31 < n.toNat) : (-2 ^ 31, device) ∈ newDevices n device := by
  unfold newDevices
  exact List.mem_map.mpr ⟨2 ^ 31, List.mem_range.mpr h, rfl⟩

theorem toNat_count (a : PartitionArgs) : (a.numCPUs / a.partitionSize).toNat = a.count :=
  UInt32.toNat_div ..

theorem count_pos (h : a.Accepted) : 0 < a.count := by
  obtain ⟨_, -, -, -, -, hpos, hle⟩ := h
  exact Nat.div_pos (UInt32.le_iff_toNat_le.mp hle) (UInt32.lt_iff_toNat_lt.mp hpos)

theorem newDevices_zero : newDevices 0 device = [] := rfl

/-- Without a partition in equal parts the size is read before it has a value. -/
theorem createSubDevices_other (garbage : UInt32) (h : ¬a.Equally) :
    ∃ r, createSubDevices garbage a = some r ∧ r.uninitialised = true := by
  unfold createSubDevices
  rw [checkProperties_other h]
  have hcode : ¬clInvalidValue = 0 := by decide
  simp [hcode]

theorem createSubDevices_rejected (garbage : UInt32) (he : a.Equally) (h : ¬a.Accepted) :
    ∃ r, createSubDevices garbage a = some r ∧ r.retval ≠ 0 ∧ r.created = [] ∧
      r.uninitialised = false := by
  obtain ⟨code, hcode, hchecked⟩ := checkProperties_rejected he h
  unfold createSubDevices
  rw [hchecked]
  simp only [hcode, false_and, if_false]
  refine ⟨_, rfl, hcode, ?_, rfl⟩
  dsimp only
  cases a.properties with
  | none => rfl
  | some properties =>
    dsimp only
    rw [newDevices_zero, ite_self]

theorem createSubDevices_accepted (garbage : UInt32) (h : a.Accepted) : ∃ property,
    createSubDevices garbage a = some
      { retval := if a.outDevices ∧ a.numDevices.toNat < a.count then clInvalidValue else 0
        created := if a.outDevices then
            newDevices (a.numCPUs / a.partitionSize) ⟨a.partitionSize, property⟩
          else []
        reported := if a.numDevicesRet then some (a.numCPUs / a.partitionSize) else none
        uninitialised := false } := by
  have hchecked := checkProperties_accepted h
  have hlt : a.numDevices < a.numCPUs / a.partitionSize ↔ a.numDevices.toNat < a.count := by
    rw [UInt32.lt_iff_toNat_lt, toNat_count]
  obtain ⟨properties, hp, -, -, -, hpos, -⟩ := h
  have hsize : a.partitionSize ≠ 0 := fun hzero => by
    rw [hzero] at hpos
    exact absurd hpos (by decide)
  unfold createSubDevices
  rw [hchecked, hp]
  refine ⟨properties 0, ?_⟩
  simp [hsize, hlt]

theorem length_newDevices : (newDevices n device).length = n.toNat := by
  rw [newDevices, List.length_map, List.length_range]

/-- What the call must leave where the checks find no error. -/
theorem room_of_exact {count : Nat} (haccepted : a.Accepted) (hexact : Exact a count) :
    (a.outDevices = true → a.Room) ∧ (a.outDevices = false → count = 0) := by
  obtain ⟨r, hr, he⟩ := hexact 0
  obtain ⟨property, hr'⟩ := createSubDevices_accepted 0 haccepted
  cases hr.symm.trans hr'
  have hpos := count_pos haccepted
  constructor
  · intro hout
    have hlength : (newDevices (a.numCPUs / a.partitionSize) ⟨a.partitionSize, property⟩).length =
        a.count := by rw [length_newDevices, toNat_count]
    have hfailure := he.failure
    have hinside := he.inside
    simp only [hout, true_and, if_true] at hfailure hinside
    refine ⟨?_, ?_⟩
    · by_contra hmany
      rw [if_pos (by omega)] at hfailure
      rw [hfailure (by decide)] at hlength
      exact hpos.ne hlength
    · by_contra hmany
      rw [← toNat_count] at hmany
      have hnonneg := (hinside _ (mem_newDevices (Nat.lt_of_not_le hmany))).1
      dsimp only at hnonneg
      omega
  · intro hout
    have hsuccess := he.success
    simp only [hout, Bool.false_eq_true, false_and, if_false] at hsuccess
    have hmap := congrArg List.length (hsuccess trivial).1
    simpa using hmap.symm

theorem exact_of_room {count : Nat} (haccepted : a.Accepted)
    (hroom : a.outDevices = true → a.Room ∧ count = a.count)
    (hnone : a.outDevices = false → count = 0) : Exact a count := by
  intro garbage
  obtain ⟨property, hr⟩ := createSubDevices_accepted garbage haccepted
  refine ⟨_, hr, ?_⟩
  by_cases hout : a.outDevices = true
  · obtain ⟨⟨hroom, hint⟩, rfl⟩ := hroom hout
    have hfew : ¬a.numDevices.toNat < a.count := by omega
    have hcreated := newDevices_eq ⟨a.partitionSize, property⟩ ((toNat_count a).trans_le hint)
    simp only [hout, hfew, and_false, if_false, if_true]
    rw [hcreated, toNat_count]
    constructor
    · rfl
    · refine fun _ => ⟨by simp, fun hret => ?_⟩
      rw [if_pos hret, Option.map_some, toNat_count]
    · exact fun h => absurd rfl h
    · intro d hd
      obtain ⟨i, hi, rfl⟩ := List.mem_map.mp hd
      have hi := List.mem_range.mp hi
      dsimp only
      omega
  · have hout := Bool.eq_false_of_not_eq_true hout
    simp only [hout, Bool.false_eq_true, false_and, if_false]
    rw [hnone hout]
    constructor
    · rfl
    · refine fun _ => ⟨rfl, fun hret => ?_⟩
      rw [if_pos hret, Option.map_some, toNat_count]
    · exact fun h => absurd rfl h
    · exact fun d hd => absurd hd List.not_mem_nil

theorem exact_iff {count : Nat} (hcount : a.outDevices = true → count = a.count) :
    Exact a count ↔ a.Equally ∧ (a.Accepted →
      (a.outDevices = true → a.Room) ∧ (a.outDevices = false → count = 0)) := by
  constructor
  · intro hexact
    refine ⟨?_, fun haccepted => room_of_exact haccepted hexact⟩
    by_contra hother
    obtain ⟨r, hr, he⟩ := hexact 0
    obtain ⟨r', hr', hread⟩ := createSubDevices_other 0 hother
    cases hr.symm.trans hr'
    exact absurd (he.decided.symm.trans hread) Bool.false_ne_true
  · rintro ⟨hequally, hroom⟩
    by_cases haccepted : a.Accepted
    · exact exact_of_room haccepted (fun hout => ⟨(hroom haccepted).1 hout, hcount hout⟩)
        (hroom haccepted).2
    · intro garbage
      obtain ⟨r, hr, hcode, hcreated, hread⟩ := createSubDevices_rejected garbage hequally haccepted
      refine ⟨r, hr, hread, fun hzero => absurd hzero hcode, fun _ => hcreated, ?_⟩
      rw [hcreated]
      exact fun d hd => absurd hd List.not_mem_nil

/-- The call is exact if it partitions in equal parts and, where the checks of the properties find
no error, the devices that it makes have room and it makes them. The second part is about calls
that ask for the number only. -/
theorem createSubDevices_exact_iff (a : PartitionArgs) :
    (Exact a a.count ↔ a.Equally ∧ (a.Accepted → a.outDevices = true ∧ a.Room)) ∧
    (Exact a (if a.outDevices then a.count else 0) ↔
      a.Equally ∧ (a.Accepted → a.outDevices = true → a.Room)) := by
  constructor
  · rw [exact_iff fun _ => rfl]
    refine and_congr_right fun _ => forall_congr' fun haccepted => ?_
    have hpos := count_pos haccepted
    cases a.outDevices with
    | true => simp
    | false => simpa using hpos.ne'
  · rw [exact_iff fun hout => if_pos hout]
    refine and_congr_right fun _ => forall_congr' fun _ => ?_
    cases a.outDevices with
    | true => simp
    | false => simp

end SubDevices

/-- Four devices of one core each, with room for two. -/
theorem too_many_devices_created : ¬∀ a : PartitionArgs,
    Exact a (if a.outDevices then a.count else 0) := by
  intro h
  obtain ⟨r, hr, he⟩ := h ⟨4, some fun i => if i = 0 then clDevicePartitionEqually else
    if i = 1 then 1 else 0, 2, true, true⟩ 0
  cases hr
  exact absurd (he.failure (by decide)) (by decide)

end Shamrock.Cpu
