import Shamrock.Runtime.KernelEvent
import Shamrock.Cpu.NDRange

/-!
# The query functions of a work-item

What `get_global_id` and its siblings answer for every dimension that they can be asked about. The
part of an array that has been initialised is a list, and a read anywhere else gives no value.
-/
namespace Shamrock.Cpu

open Shamrock.Runtime KernelEvent

/-- What the query functions read: the sizes of the event, `p_index` and
`p_global_id_start_offset` of the work-group and `local_id` of the current context. -/
structure WorkItem where
  event : LaunchSizes
  workDim : Nat
  index : List UInt64
  globalIdStartOffset : List UInt64
  localId : List UInt64

namespace WorkItem

def offsetAt (s : LaunchSizes) (i : Nat) : UInt64 := s.offset.getD i 0

/-- `CPUKernelWorkGroup::CPUKernelWorkGroup`, which fills the arrays for the dimensions of the
event, and a context of the work-group. -/
def create (s : LaunchSizes) (workDim : Nat) (workGroupIndex localId : List UInt64) : WorkItem where
  event := s
  workDim := workDim
  index := workGroupIndex.take workDim
  globalIdStartOffset := (List.range workDim).map fun i =>
    workGroupIndex.getD i 0 * s.localAt i + offsetAt s i
  localId := localId

/-- The test that all the functions begin with. -/
def query (w : WorkItem) (dimindx : UInt32) (default : UInt64) (read : Nat → Option UInt64) :
    Option UInt64 :=
  if w.workDim < dimindx.toNat then some default else read dimindx.toNat

def getGlobalId (w : WorkItem) (dimindx : UInt32) : Option UInt64 :=
  w.query dimindx 0 fun i => do return (← w.globalIdStartOffset[i]?) + (← w.localId[i]?)

def getGlobalSize (w : WorkItem) (dimindx : UInt32) : Option UInt64 :=
  w.query dimindx 1 fun i => w.event.global[i]?

def getLocalSize (w : WorkItem) (dimindx : UInt32) : Option UInt64 :=
  w.query dimindx 1 fun i => w.event.loc[i]?

def getLocalID (w : WorkItem) (dimindx : UInt32) : Option UInt64 :=
  w.query dimindx 0 fun i => w.localId[i]?

def getNumGroups (w : WorkItem) (dimindx : UInt32) : Option UInt64 :=
  w.query dimindx 1 fun i => do quotient (← w.event.global[i]?) (← w.event.loc[i]?)

def getGroupID (w : WorkItem) (dimindx : UInt32) : Option UInt64 :=
  w.query dimindx 0 fun i => w.index[i]?

def getGlobalOffset (w : WorkItem) (dimindx : UInt32) : Option UInt64 :=
  w.query dimindx 0 fun i => w.event.offset[i]?

/-- The answers in a dimension of the launch fit together. -/
def Consistent (w : WorkItem) (dimindx : UInt32) : Prop :=
  ∃ globalId globalSize localSize localID numGroups groupID offset,
    w.getGlobalId dimindx = some globalId ∧ w.getGlobalSize dimindx = some globalSize ∧
    w.getLocalSize dimindx = some localSize ∧ w.getLocalID dimindx = some localID ∧
    w.getNumGroups dimindx = some numGroups ∧ w.getGroupID dimindx = some groupID ∧
    w.getGlobalOffset dimindx = some offset ∧
    numGroups.toNat * localSize.toNat = globalSize.toNat ∧ groupID.toNat < numGroups.toNat ∧
    localID.toNat < localSize.toNat ∧
    globalId.toNat = groupID.toNat * localSize.toNat + localID.toNat + offset.toNat ∧
    offset.toNat ≤ globalId.toNat ∧ globalId.toNat < offset.toNat + globalSize.toNat

/-- The answers in a dimension that the launch does not have. -/
structure Neutral (w : WorkItem) (dimindx : UInt32) : Prop where
  globalId : w.getGlobalId dimindx = some 0
  globalSize : w.getGlobalSize dimindx = some 1
  localSize : w.getLocalSize dimindx = some 1
  localID : w.getLocalID dimindx = some 0
  numGroups : w.getNumGroups dimindx = some 1
  groupID : w.getGroupID dimindx = some 0
  globalOffset : w.getGlobalOffset dimindx = some 0

/-- What is promised of the query functions. -/
def Answers (w : WorkItem) (dimindx : UInt32) : Prop :=
  (dimindx.toNat < w.workDim → w.Consistent dimindx) ∧
    (w.workDim ≤ dimindx.toNat → w.Neutral dimindx)

/-- `p_max_work_groups` of `CPUKernelEvent` -/
def maxWorkGroups (s : LaunchSizes) (workDim : Nat) : List UInt64 :=
  (List.range workDim).map fun i => s.globalAt i / s.localAt i - 1

/-- `p_max_local_id` -/
def maxLocalId (s : LaunchSizes) (workDim : Nat) : List UInt64 :=
  (List.range workDim).map fun i => s.localAt i - 1

/-- The indices of the work-groups, as far as the event counts. -/
def IsGroup (s : LaunchSizes) (workDim : Nat) (index : List UInt64) : Prop :=
  List.Forall₂ (· ≤ ·) index (maxWorkGroups s workDim)

/-- The local ids of the work-items, as far as a work-group counts. -/
def IsItem (s : LaunchSizes) (workDim : Nat) (localId : List UInt64) : Prop :=
  List.Forall₂ (· ≤ ·) localId (maxLocalId s workDim)

variable {range : Runtime.NDRange} {s : LaunchSizes} {g l : Nat → UInt64}
  {index localId : List UInt64}
  {d : UInt32} {w : WorkItem} {i n : Nat}

/-! ## What is counted -/

theorem incVecFrom_le {vec maxs : List UInt64} (overflow : Bool)
    (h : List.Forall₂ (· ≤ ·) vec maxs) :
    List.Forall₂ (· ≤ ·) (incVecFrom overflow vec maxs).1 maxs := by
  induction h generalizing overflow with
  | nil => exact List.Forall₂.nil
  | @cons v m vs ms hle hrest ih =>
    unfold incVecFrom
    by_cases hmax : v + 1 > m
    · rw [if_pos hmax]
      exact List.Forall₂.cons (UInt64.zero_le) (ih true)
    · rw [if_neg hmax]
      exact List.Forall₂.cons (UInt64.not_lt.mp hmax) hrest

theorem zeros_le {maxs : List UInt64} :
    List.Forall₂ (· ≤ ·) (List.replicate maxs.length 0) maxs := by
  induction maxs with
  | nil => exact List.Forall₂.nil
  | cons m maxs ih => exact List.Forall₂.cons UInt64.zero_le ih

/-- Every index that a work-group is made with is one of those. -/
theorem isGroup_counted (k : Nat) : IsGroup s n
    ((fun vec => (incVec vec (maxWorkGroups s n)).1)^[k] (List.replicate n 0)) := by
  have hlen : (maxWorkGroups s n).length = n := by simp [maxWorkGroups]
  induction k with
  | zero =>
    have hzeros : List.Forall₂ (· ≤ ·) (List.replicate (maxWorkGroups s n).length 0)
        (maxWorkGroups s n) := zeros_le
    rwa [hlen] at hzeros
  | succ k ih =>
    rw [Function.iterate_succ_apply']
    exact incVecFrom_le false ih

theorem getElem?_of_le {v : List UInt64} {f : Nat → UInt64}
    (h : List.Forall₂ (· ≤ ·) v ((List.range n).map f)) :
    v.length = n ∧ ∀ i < n, ∃ x, v[i]? = some x ∧ x ≤ f i := by
  have hlen : v.length = n := by simpa using h.length_eq
  refine ⟨hlen, fun i hi => ⟨v[i], List.getElem?_eq_getElem (by omega), ?_⟩⟩
  have hget := List.Forall₂.get h (i := i) (by omega) (by simpa using hi)
  simpa using hget

/-! ## What is answered -/

/-- The sizes of a dimension are initialised. -/
theorem reads_of_keeps (h : Keeps range g l s) (hi : i < range.workDim) :
    s.global[i]? = some (g i) ∧ s.loc[i]? = some (l i) ∧
    s.offset[i]? = some (offsetOf range i) := by
  obtain ⟨m, rfl⟩ := h.padded
  simp only [LaunchSizes.pad, dimensions_sizes.1, dimensions_sizes.2, dimensions_offset]
  refine ⟨?_, ?_, ?_⟩ <;>
    rw [List.getElem?_append_left (by simpa using hi)] <;> simp [hi]

theorem at_of_keeps (h : Keeps range g l s) (hi : i < range.workDim) :
    s.globalAt i = g i ∧ s.localAt i = l i ∧ offsetAt s i = offsetOf range i := by
  obtain ⟨hglobal, hloc, hoffset⟩ := reads_of_keeps h hi
  refine ⟨?_, ?_, ?_⟩
  · rw [LaunchSizes.globalAt, List.getD_eq_getElem?_getD, hglobal, Option.getD_some]
  · rw [LaunchSizes.localAt, List.getD_eq_getElem?_getD, hloc, Option.getD_some]
  · rw [offsetAt, List.getD_eq_getElem?_getD, hoffset, Option.getD_some]

/-- These are the arrays of the work-groups that the workers take. -/
theorem create_eq_group (event : NDRange) (hlen : index.length = n)
    (hdims : event.dims = (List.range n).map fun i =>
      ⟨offsetAt s i, s.globalAt i, s.localAt i⟩) :
    (CPUKernelWorkGroup.create event index).index = (create s n index localId).index ∧
    (CPUKernelWorkGroup.create event index).globalIdStartOffset =
      (create s n index localId).globalIdStartOffset := by
  constructor
  · exact (List.take_of_length_le (Nat.le_of_eq hlen)).symm
  · refine List.ext_getElem (by simp [CPUKernelWorkGroup.create, create, hdims, hlen]) ?_
    intro i hi hi'
    have hin : i < index.length := by simpa [create, hlen] using hi'
    simp [CPUKernelWorkGroup.create, create, hdims, hin]

/-- The global size is not zero, and the global id of the work-item fits in a `size_t`. -/
def IdFits (s : LaunchSizes) (index localId : List UInt64) (i : Nat) : Prop :=
  0 < (s.globalAt i).toNat ∧
    (index.getD i 0).toNat * (s.localAt i).toNat + (localId.getD i 0).toNat +
      (offsetAt s i).toNat < 2 ^ 64

theorem query_of_le (h : d.toNat ≤ w.workDim) (default : UInt64) (read : Nat → Option UInt64) :
    w.query d default read = read d.toNat := if_neg (by omega)

/-- Behind the first missing dimension nothing is read. -/
theorem neutral_of_lt (h : w.workDim < d.toNat) : w.Neutral d :=
  ⟨if_pos h, if_pos h, if_pos h, if_pos h, if_pos h, if_pos h, if_pos h⟩

/-- The first missing dimension passes the test, and the index of the group is not there. -/
theorem not_neutral_of_eq (h : d.toNat = n) : ¬(create s n index localId).Neutral d := by
  intro hneutral
  have hread := hneutral.groupID
  rw [getGroupID, query_of_le (by rw [h]; rfl), h] at hread
  have hnone : (index.take n)[n]? = none := List.getElem?_eq_none (List.length_take_le n index)
  cases hnone.symm.trans hread

/-- What is read in a dimension of the launch. -/
theorem answers_in_range (hk : Keeps range g l s) (hgroup : IsGroup s range.workDim index)
    (hitem : IsItem s range.workDim localId) (hd : d.toNat < range.workDim) :
    ∃ group item, index.getD d.toNat 0 = group ∧ localId.getD d.toNat 0 = item ∧
      group ≤ g d.toNat / l d.toNat - 1 ∧ item ≤ l d.toNat - 1 ∧
      (create s range.workDim index localId).getGlobalId d =
        some (group * l d.toNat + offsetOf range d.toNat + item) ∧
      (create s range.workDim index localId).getGlobalSize d = some (g d.toNat) ∧
      (create s range.workDim index localId).getLocalSize d = some (l d.toNat) ∧
      (create s range.workDim index localId).getLocalID d = some item ∧
      (create s range.workDim index localId).getNumGroups d =
        quotient (g d.toNat) (l d.toNat) ∧
      (create s range.workDim index localId).getGroupID d = some group ∧
      (create s range.workDim index localId).getGlobalOffset d =
        some (offsetOf range d.toNat) := by
  obtain ⟨hlenIndex, hindex⟩ := getElem?_of_le hgroup
  obtain ⟨hlenLocal, hlocal⟩ := getElem?_of_le hitem
  obtain ⟨group, hgroupAt, hgroupLe⟩ := hindex d.toNat hd
  obtain ⟨item, hitemAt, hitemLe⟩ := hlocal d.toNat hd
  obtain ⟨hglobal, hloc, hoffset⟩ := reads_of_keeps hk hd
  obtain ⟨hglobalAt, hlocalAt, hoffsetAt⟩ := at_of_keeps hk hd
  have hindexD : index.getD d.toNat 0 = group := by
    rw [List.getD_eq_getElem?_getD, hgroupAt, Option.getD_some]
  have hlocalD : localId.getD d.toNat 0 = item := by
    rw [List.getD_eq_getElem?_getD, hitemAt, Option.getD_some]
  have hle : d.toNat ≤ (create s range.workDim index localId).workDim := Nat.le_of_lt hd
  rw [hglobalAt, hlocalAt] at hgroupLe
  rw [hlocalAt] at hitemLe
  refine ⟨group, item, hindexD, hlocalD, hgroupLe, hitemLe, ?_, ?_, ?_, ?_, ?_, ?_, ?_⟩
  · rw [getGlobalId, query_of_le hle]
    simp [create, hd, hgroupAt, hlocalAt, hoffsetAt, hitemAt]
  · rw [getGlobalSize, query_of_le hle]
    exact hglobal
  · rw [getLocalSize, query_of_le hle]
    exact hloc
  · rw [getLocalID, query_of_le hle]
    exact hitemAt
  · rw [getNumGroups, query_of_le hle]
    simp [create, hglobal, hloc]
  · rw [getGroupID, query_of_le hle]
    simp [create, hd, hgroupAt]
  · rw [getGlobalOffset, query_of_le hle]
    exact hoffset

theorem consistent_iff (hk : Keeps range g l s) (hgroup : IsGroup s range.workDim index)
    (hitem : IsItem s range.workDim localId) (hd : d.toNat < range.workDim) :
    (create s range.workDim index localId).Consistent d ↔ IdFits s index localId d.toNat := by
  obtain ⟨group, item, hindex, hlocal, hgroupLe, hitemLe, hid, hglobal, hloc, hitemAt, hnum,
    hgroupAt, hoffset⟩ := answers_in_range hk hgroup hitem hd
  obtain ⟨hglobalAt, hlocalAt, hoffsetAt⟩ := at_of_keeps hk hd
  have hdvd := hk.divides _ hd
  have hpos := hk.positive _ hd
  unfold IdFits
  rw [hindex, hlocal, hglobalAt, hlocalAt, hoffsetAt]
  rw [UInt64.le_iff_toNat_le] at hgroupLe hitemLe
  generalize g d.toNat = G at *
  generalize l d.toNat = L at *
  generalize offsetOf range d.toNat = O at *
  constructor
  · rintro ⟨id, _, _, _, num, _, _, hid', h1, h2, h3, hnum', h5, h6, hsize, hlt, -, heq, -, -⟩
    obtain rfl := Option.some.inj (hglobal.symm.trans h1)
    obtain rfl := Option.some.inj (hloc.symm.trans h2)
    obtain rfl := Option.some.inj (hitemAt.symm.trans h3)
    obtain rfl := Option.some.inj (hgroupAt.symm.trans h5)
    obtain rfl := Option.some.inj (hoffset.symm.trans h6)
    have hidlt := id.toNat_lt
    refine ⟨Nat.pos_of_ne_zero fun hzero => ?_, by omega⟩
    rw [hzero] at hsize
    rcases Nat.mul_eq_zero.mp hsize with hnum0 | hloc0
    · omega
    · rw [hnum, quotient, if_pos (UInt64.toNat_inj.mp hloc0)] at hnum'
      cases hnum'
  · rintro ⟨hG, hfits⟩
    have hL := hpos hG
    have hne : L ≠ 0 := by
      rintro rfl
      exact absurd hL (by decide)
    have hparts : 0 < G.toNat / L.toNat := Nat.div_pos (Nat.le_of_dvd hG hdvd) hL
    have hmax : (G / L - 1).toNat = G.toNat / L.toNat - 1 := by
      rw [UInt64.toNat_sub_of_le _ _
        (by rw [UInt64.le_iff_toNat_le, UInt64.toNat_div]; exact hparts),
        UInt64.toNat_div]
      rfl
    have hmaxLocal : (L - 1).toNat = L.toNat - 1 := by
      rw [UInt64.toNat_sub_of_le _ _ (by rw [UInt64.le_iff_toNat_le]; exact hL)]
      rfl
    have hsize : G.toNat / L.toNat * L.toNat = G.toNat := Nat.div_mul_cancel hdvd
    -- a group starts at most one local size before the end
    have hend : group.toNat * L.toNat + L.toNat ≤ G.toNat := by
      rw [← hsize, ← Nat.succ_mul]
      exact Nat.mul_le_mul_right _ (by omega)
    have hidNat : (group * L + O + item).toNat =
        group.toNat * L.toNat + item.toNat + O.toNat := by
      have hstart : group.toNat * L.toNat < 2 ^ 64 := by omega
      rw [UInt64.toNat_add, UInt64.toNat_add, UInt64.toNat_mul, Nat.mod_eq_of_lt hstart]
      omega
    have hquot : quotient G L = some (G / L) := if_neg hne
    refine ⟨_, _, _, _, _, _, _, hid, hglobal, hloc, hitemAt, hnum.trans hquot, hgroupAt, hoffset,
      ?_, ?_, ?_, hidNat, ?_, ?_⟩
    · rw [UInt64.toNat_div, hsize]
    · rw [UInt64.toNat_div]
      omega
    · omega
    · omega
    · omega

/-- The query functions answer as promised exactly in the dimensions other than the first one that
the launch does not have, as long as the global id fits. -/
theorem queries_answer_iff (queue : QueueInfo) (objects : UInt64 → Option MemObject)
    (eventCode : Int) (kernel : Option LaunchedKernel) (range : Runtime.NDRange) (passes : Nat)
    (s : LaunchSizes)
    (hs : (KernelEvent.create passes queue objects eventCode kernel range).run = some (.ok s))
    (index localId : List UInt64) (hgroup : IsGroup s range.workDim index)
    (hitem : IsItem s range.workDim localId) (dimindx : UInt32) :
    (create s range.workDim index localId).Answers dimindx ↔
      dimindx.toNat ≠ range.workDim ∧
        (dimindx.toNat < range.workDim → IdFits s index localId dimindx.toNat) := by
  obtain ⟨g, l, hk⟩ := keeps_of_created hs
  have hdim : (create s range.workDim index localId).workDim = range.workDim := rfl
  unfold Answers
  rw [hdim]
  rcases Nat.lt_trichotomy dimindx.toNat range.workDim with hlt | heq | hgt
  · have hcons := consistent_iff hk hgroup hitem hlt
    constructor
    · rintro ⟨h, -⟩
      exact ⟨by omega, fun _ => hcons.mp (h hlt)⟩
    · rintro ⟨-, h⟩
      exact ⟨fun _ => hcons.mpr (h hlt), fun hle => absurd hle (by omega)⟩
  · constructor
    · rintro ⟨-, h⟩
      exact absurd (h (Nat.le_of_eq heq.symm)) (not_neutral_of_eq heq)
    · rintro ⟨h, -⟩
      exact absurd heq h
  · constructor
    · intro
      exact ⟨by omega, fun hlt => absurd hlt (by omega)⟩
    · intro
      exact ⟨fun hlt => absurd hlt (by omega), fun _ => neutral_of_lt hgt⟩

/-- A kernel without arguments on four CPUs. -/
def plainKernel : LaunchedKernel where
  kernel := ⟨[], false⟩
  context := 0
  deviceKernel := some fourCPUs
  reqdWorkGroupSize := ⟨0, 0, 0⟩

/-- Two work-groups of four work-items. -/
def lineOfEight : Runtime.NDRange := ⟨1, none, some fun _ => 8, some fun _ => 4⟩

def lineSizes : LaunchSizes := ⟨[0, 0, 0], [8, 1, 1], [4, 1, 1]⟩

theorem line_accepted : (KernelEvent.create 0 cpuQueue (fun _ => none) clSuccess
    (some plainKernel) lineOfEight).run = some (.ok lineSizes) := by
  decide +kernel

/-- The event of these sizes, as the workers count in it. -/
def lineEvent : NDRange where
  dims := [⟨0, 8, 4⟩]
  workDim_pos := by decide
  workDim_le := by decide
  global_pos := by decide
  local_pos := by decide
  local_dvd := by decide
  groups_lt := by decide

/-- The last work-item of the last work-group, which is the second that is counted. -/
theorem last_item_answers : (create lineSizes 1 [1] [3]).Answers 0 ∧
    (CPUKernelWorkGroup.create lineEvent [1]).index = (create lineSizes 1 [1] [3]).index ∧
    (CPUKernelWorkGroup.create lineEvent [1]).globalIdStartOffset =
      (create lineSizes 1 [1] [3]).globalIdStartOffset :=
  ⟨(queries_answer_iff cpuQueue (fun _ => none) clSuccess (some plainKernel) lineOfEight 0 lineSizes
    line_accepted [1] [3] (isGroup_counted 1) (.cons (by decide) .nil) 0).mpr
      ⟨by decide, fun _ => ⟨by decide, by decide⟩⟩,
    create_eq_group lineEvent rfl rfl⟩

/-- `get_group_id(1)` in a launch of one dimension -/
theorem missing_dimension_read : ¬∀ (queue : QueueInfo) (objects : UInt64 → Option MemObject)
    (eventCode : Int) (kernel : Option LaunchedKernel) (range : Runtime.NDRange) (passes : Nat)
    (s : LaunchSizes),
    (KernelEvent.create passes queue objects eventCode kernel range).run = some (.ok s) →
    ∀ index localId, IsGroup s range.workDim index → IsItem s range.workDim localId →
    ∀ dimindx : UInt32, (create s range.workDim index localId).Answers dimindx := by
  intro h
  have hone := h cpuQueue (fun _ => none) clSuccess (some plainKernel) lineOfEight 0 lineSizes
    line_accepted [0] [0] (.cons (by decide) .nil) (.cons (by decide) .nil) 1
  exact not_neutral_of_eq (d := 1) (n := 1) rfl (hone.2 (by decide))

end WorkItem

end Shamrock.Cpu
