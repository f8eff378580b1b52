import Shamrock.Lib.Odometer

/-!
# Work-groups and work-items of a kernel event

`size_t` is `UInt64`. The first `work_dim` entries of the source's arrays are a list.
-/
namespace Shamrock.Cpu

open Odometer

/-- The loop of `incVec` from one index on; `overflow` is the flag at its head. -/
def incVecFrom {α : Type} [Add α] [OfNat α 0] [OfNat α 1] [LT α] [DecidableLT α]
    (overflow : Bool) : List α → List α → List α × Bool
  | v :: vs, m :: ms =>
    if v + 1 > m then (0 :: (incVecFrom true vs ms).1, (incVecFrom true vs ms).2)
    else ((v + 1) :: vs, false)
  | vs, _ => (vs, overflow)

def incVec {α : Type} [Add α] [OfNat α 0] [OfNat α 1] [LT α] [DecidableLT α]
    (vec maxs : List α) : List α × Bool :=
  incVecFrom false vec maxs

/-- One dimension of a launch. -/
structure WorkSize where
  globalWorkOffset : UInt64
  globalWorkSize : UInt64
  localWorkSize : UInt64
  deriving DecidableEq, Repr

/-- The launch parameters of a `KernelEvent`, one entry for each of its `work_dim` dimensions:
sizes are positive, local sizes divide global sizes, and the number of work-groups is a
`size_t`. -/
structure NDRange where
  dims : List WorkSize
  workDim_pos : dims ≠ []
  workDim_le : dims.length ≤ 3
  global_pos : ∀ d ∈ dims, 0 < d.globalWorkSize.toNat
  local_pos : ∀ d ∈ dims, 0 < d.localWorkSize.toNat
  local_dvd : ∀ d ∈ dims, d.localWorkSize.toNat ∣ d.globalWorkSize.toNat
  groups_lt : (dims.map fun d => d.globalWorkSize.toNat / d.localWorkSize.toNat).prod < 2 ^ 64

/-- The entry of `p_max_work_groups`: 0..n-1, not 1..n. -/
def WorkSize.maxWorkGroup (d : WorkSize) : UInt64 := d.globalWorkSize / d.localWorkSize - 1

/-- The entry of `p_max_local_id`. -/
def WorkSize.maxLocalId (d : WorkSize) : UInt64 := d.localWorkSize - 1

/-- `CPUKernelEvent`, with the holder of `p_mutex`. -/
structure CPUKernelEvent (W : Type) where
  event : NDRange
  currentWorkGroup : List UInt64
  maxWorkGroups : List UInt64
  currentWg : UInt64
  finishedWg : UInt64
  numWg : UInt64
  mutex : Option W

/-- `CPUKernelWorkGroup`. -/
structure CPUKernelWorkGroup where
  index : List UInt64
  maxLocalId : List UInt64
  globalIdStartOffset : List UInt64
  deriving DecidableEq, Repr

def CPUKernelWorkGroup.create (event : NDRange) (workGroupIndex : List UInt64) :
    CPUKernelWorkGroup where
  index := workGroupIndex
  maxLocalId := event.dims.map WorkSize.maxLocalId
  globalIdStartOffset := event.dims.zipWith
    (fun d i => i * d.localWorkSize + d.globalWorkOffset) workGroupIndex

/-- What `get_global_id` answers in each dimension to the work-item with this local id. -/
def CPUKernelWorkGroup.getGlobalId (wg : CPUKernelWorkGroup) (localId : List UInt64) :
    List UInt64 :=
  wg.globalIdStartOffset.zipWith (· + ·) localId

namespace CPUKernelEvent

variable {W : Type}

def create (W : Type) (event : NDRange) : CPUKernelEvent W where
  event := event
  currentWorkGroup := event.dims.map fun _ => 0
  maxWorkGroups := event.dims.map WorkSize.maxWorkGroup
  currentWg := 0
  finishedWg := 0
  numWg := event.dims.foldl (fun n d => n * (d.maxWorkGroup + 1)) 1
  mutex := none

/-- Lock, to be unlocked in `takeInstance`; true for the last work-group. -/
def reserve (ke : CPUKernelEvent W) (w : W) : CPUKernelEvent W × Bool :=
  ({ ke with mutex := some w }, ke.currentWg = ke.numWg - 1)

def finished (ke : CPUKernelEvent W) : Bool := ke.finishedWg = ke.numWg

def workGroupFinished (ke : CPUKernelEvent W) : CPUKernelEvent W :=
  { ke with finishedWg := ke.finishedWg + 1 }

def takeInstance (ke : CPUKernelEvent W) : CPUKernelEvent W × CPUKernelWorkGroup :=
  ({ ke with
      currentWorkGroup := (incVec ke.currentWorkGroup ke.maxWorkGroups).1
      currentWg := ke.currentWg + 1
      mutex := none },
    .create ke.event ke.currentWorkGroup)

end CPUKernelEvent

/-- The values of a vector of `size_t`. -/
def nats (v : List UInt64) : List Nat := v.map UInt64.toNat

@[simp] theorem nats_nil : nats [] = [] := rfl

@[simp] theorem nats_cons (x : UInt64) (v : List UInt64) : nats (x :: v) = x.toNat :: nats v := rfl

theorem nats_injective : Function.Injective nats :=
  List.map_injective_iff.mpr fun _ _ => UInt64.toNat_inj.mp

/-- No maximum is the largest `size_t`, so that `incVec` never wraps. -/
def Bounded (maxs : List UInt64) : Prop := ∀ m ∈ maxs, m.toNat + 1 < 2 ^ 64

theorem toNat_add_one {v m : UInt64} (h : v.toNat ≤ m.toNat) (hm : m.toNat + 1 < 2 ^ 64) :
    (v + 1).toNat = v.toNat + 1 := by
  rw [UInt64.toNat_add, Nat.mod_eq_of_lt]
  · rfl
  · change v.toNat + 1 < 2 ^ 64
    omega

/-- `incVec` counts like an odometer. -/
theorem incVecFrom_eq (overflow : Bool) {maxs vec : List UInt64} (hb : Bounded maxs)
    (hv : Valid (nats maxs) (nats vec)) :
    (nats (incVecFrom overflow vec maxs).1, (incVecFrom overflow vec maxs).2) =
      advance overflow (nats maxs) (nats vec) := by
  induction maxs generalizing vec overflow with
  | nil =>
    cases vec with
    | nil => rfl
    | cons v vs => cases hv
  | cons m ms ih =>
    cases vec with
    | nil => cases hv
    | cons v vs =>
      obtain ⟨hvm, hvs⟩ := List.forall₂_cons.mp hv
      have hb' : Bounded ms := fun x hx => hb x (List.mem_cons_of_mem _ hx)
      have hsucc := toNat_add_one hvm (hb m (by simp))
      have hiff : v + 1 > m ↔ ¬ v.toNat < m.toNat := by
        rw [gt_iff_lt, UInt64.lt_iff_toNat_lt, hsucc]
        omega
      have ih' := ih true hb' hvs
      simp only [incVecFrom, nats_cons, advance, hiff]
      split
      · simp [← ih']
      · rename_i hlt
        simp [Decidable.of_not_not hlt, hsucc]

section Odometer

variable {maxs vec : List UInt64}

theorem incVec_valid (hb : Bounded maxs) (hv : Valid (nats maxs) (nats vec)) :
    Valid (nats maxs) (nats (incVec vec maxs).1) := by
  have h := congrArg Prod.fst (incVecFrom_eq false hb hv)
  rw [show nats (incVec vec maxs).1 = _ from h]
  exact advance_valid false hv

theorem incVec_next (hb : Bounded maxs) (hv : Valid (nats maxs) (nats vec))
    (hk : rank (nats maxs) (nats vec) + 1 < size (nats maxs)) :
    (incVec vec maxs).2 = false ∧
      rank (nats maxs) (nats (incVec vec maxs).1) = rank (nats maxs) (nats vec) + 1 := by
  have h := incVecFrom_eq false hb hv
  obtain ⟨h₁, h₂⟩ := advance_next false hv hk
  rw [← h] at h₁ h₂
  exact ⟨h₁, h₂⟩

theorem incVec_last (hne : maxs ≠ []) (hb : Bounded maxs) (hv : Valid (nats maxs) (nats vec))
    (hk : rank (nats maxs) (nats vec) + 1 = size (nats maxs)) :
    (incVec vec maxs).2 = true ∧ nats (incVec vec maxs).1 = digits (nats maxs) 0 := by
  have h := incVecFrom_eq false hb hv
  have hne' : nats maxs ≠ [] := by simpa [nats] using hne
  rw [advance_carried false hne' hv, advance_last hv hk] at h
  exact ⟨congrArg Prod.snd h, congrArg Prod.fst h⟩

end Odometer

theorem rank_zeros (ms : List UInt64) :
    rank (nats ms) (nats (ms.map fun _ => (0 : UInt64))) = 0 ∧
      Valid (nats ms) (nats (ms.map fun _ => (0 : UInt64))) := by
  induction ms with
  | nil => exact ⟨rfl, .nil⟩
  | cons m ms ih =>
    refine ⟨?_, .cons (Nat.zero_le _) ih.2⟩
    simp only [List.map_cons, nats_cons, rank, ih.1]
    rfl

/-- What the constructor of `KernelEvent` asks of one dimension. -/
def WorkSize.Accepted (d : WorkSize) : Prop :=
  0 < d.globalWorkSize.toNat ∧ 0 < d.localWorkSize.toNat ∧
    d.localWorkSize.toNat ∣ d.globalWorkSize.toNat

/-- The number of work-groups in one dimension. -/
def WorkSize.groups (d : WorkSize) : Nat := d.globalWorkSize.toNat / d.localWorkSize.toNat

namespace WorkSize

variable {d : WorkSize}

theorem Accepted.groups_pos (h : d.Accepted) : 0 < d.groups :=
  Nat.div_pos (Nat.le_of_dvd h.1 h.2.2) h.2.1

theorem groups_lt (d : WorkSize) : d.groups < 2 ^ 64 :=
  Nat.lt_of_le_of_lt (Nat.div_le_self _ _) d.globalWorkSize.toNat_lt

theorem Accepted.maxWorkGroup_toNat (h : d.Accepted) : d.maxWorkGroup.toNat + 1 = d.groups := by
  have hpos := h.groups_pos
  have hle : (1 : UInt64) ≤ d.globalWorkSize / d.localWorkSize := by
    rw [UInt64.le_iff_toNat_le, UInt64.toNat_div]
    exact hpos
  rw [maxWorkGroup, UInt64.toNat_sub_of_le _ _ hle, UInt64.toNat_div]
  change d.groups - 1 + 1 = d.groups
  omega

theorem Accepted.maxLocalId_toNat (h : d.Accepted) :
    d.maxLocalId.toNat + 1 = d.localWorkSize.toNat := by
  have hle : (1 : UInt64) ≤ d.localWorkSize := by
    rw [UInt64.le_iff_toNat_le]
    exact h.2.1
  rw [maxLocalId, UInt64.toNat_sub_of_le _ _ hle]
  change d.localWorkSize.toNat - 1 + 1 = d.localWorkSize.toNat
  have := h.2.1
  omega

/-- The position of a work-item in its dimension is below the global size. -/
theorem Accepted.position_lt (h : d.Accepted) {i l : Nat} (hi : i < d.groups)
    (hl : l < d.localWorkSize.toNat) :
    i * d.localWorkSize.toNat + l < d.globalWorkSize.toNat := by
  calc i * d.localWorkSize.toNat + l < (i + 1) * d.localWorkSize.toNat := by
        rw [Nat.succ_mul]
        omega
    _ ≤ d.groups * d.localWorkSize.toNat := Nat.mul_le_mul_right _ hi
    _ = d.globalWorkSize.toNat := Nat.div_mul_cancel h.2.2

/-- `x` lies in `[offset, offset + global)`, in the arithmetic of `size_t`. -/
def InRange (d : WorkSize) (x : UInt64) : Prop := x - d.globalWorkOffset < d.globalWorkSize

instance (d : WorkSize) (x : UInt64) : Decidable (d.InRange x) :=
  inferInstanceAs (Decidable (_ < _))

/-- The global id of the work-item `l` of group `i` in one dimension. -/
def globalId (d : WorkSize) (i l : UInt64) : UInt64 :=
  i * d.localWorkSize + d.globalWorkOffset + l

theorem Accepted.globalId_sub (h : d.Accepted) {i l : UInt64}
    (hi : i.toNat ≤ d.maxWorkGroup.toNat) (hl : l.toNat ≤ d.maxLocalId.toNat) :
    (d.globalId i l - d.globalWorkOffset).toNat = i.toNat * d.localWorkSize.toNat + l.toNat := by
  have h₁ := h.maxWorkGroup_toNat
  have h₂ := h.maxLocalId_toNat
  have hlt := h.position_lt (i := i.toNat) (l := l.toNat) (by omega) (by omega)
  have hg := d.globalWorkSize.toNat_lt
  have heq : d.globalId i l - d.globalWorkOffset = i * d.localWorkSize + l := by
    rw [globalId, UInt64.add_assoc, UInt64.add_comm d.globalWorkOffset l, ← UInt64.add_assoc,
      UInt64.add_sub_cancel]
  rw [heq, UInt64.toNat_add, UInt64.toNat_mul, Nat.mod_add_mod]
  exact Nat.mod_eq_of_lt (by omega)

theorem Accepted.globalId_inRange (h : d.Accepted) {i l : UInt64}
    (hi : i.toNat ≤ d.maxWorkGroup.toNat) (hl : l.toNat ≤ d.maxLocalId.toNat) :
    d.InRange (d.globalId i l) := by
  have h₁ := h.maxWorkGroup_toNat
  have h₂ := h.maxLocalId_toNat
  rw [InRange, UInt64.lt_iff_toNat_lt, h.globalId_sub hi hl]
  exact h.position_lt (by omega) (by omega)

theorem Accepted.globalId_injective (h : d.Accepted) {i l i' l' : UInt64}
    (hi : i.toNat ≤ d.maxWorkGroup.toNat) (hl : l.toNat ≤ d.maxLocalId.toNat)
    (hi' : i'.toNat ≤ d.maxWorkGroup.toNat) (hl' : l'.toNat ≤ d.maxLocalId.toNat)
    (he : d.globalId i l = d.globalId i' l') : i = i' ∧ l = l' := by
  have h₂ := h.maxLocalId_toNat
  have hpos : 0 < d.localWorkSize.toNat := h.2.1
  have heq := h.globalId_sub hi hl
  rw [he, h.globalId_sub hi' hl'] at heq
  have hll : l.toNat < d.localWorkSize.toNat := by omega
  have hll' : l'.toNat < d.localWorkSize.toNat := by omega
  -- the group is the quotient and the local id the remainder by the local size
  have hdiv := congrArg (· / d.localWorkSize.toNat) heq
  have hmod := congrArg (· % d.localWorkSize.toNat) heq
  simp only [Nat.mul_add_mod_self_right, Nat.mod_eq_of_lt hll, Nat.mod_eq_of_lt hll'] at hmod
  simp only [Nat.add_comm (_ * _), Nat.add_mul_div_right _ _ hpos, Nat.div_eq_of_lt hll,
    Nat.div_eq_of_lt hll', Nat.zero_add] at hdiv
  exact ⟨(UInt64.toNat_inj.mp hdiv).symm, (UInt64.toNat_inj.mp hmod).symm⟩

theorem Accepted.exists_globalId (h : d.Accepted) {x : UInt64} (hx : d.InRange x) :
    ∃ i l : UInt64, i.toNat ≤ d.maxWorkGroup.toNat ∧ l.toNat ≤ d.maxLocalId.toNat ∧
      d.globalId i l = x := by
  have h₁ := h.maxWorkGroup_toNat
  have h₂ := h.maxLocalId_toNat
  have hpos : 0 < d.localWorkSize.toNat := h.2.1
  have hk : (x - d.globalWorkOffset).toNat < d.globalWorkSize.toNat := UInt64.lt_iff_toNat_lt.mp hx
  refine ⟨(x - d.globalWorkOffset) / d.localWorkSize, (x - d.globalWorkOffset) % d.localWorkSize,
    ?_, ?_, ?_⟩
  · rw [UInt64.toNat_div]
    have : (x - d.globalWorkOffset).toNat / d.localWorkSize.toNat < d.groups :=
      Nat.div_lt_div_of_lt_of_dvd h.2.2 hk
    omega
  · rw [UInt64.toNat_mod]
    have := Nat.mod_lt (x - d.globalWorkOffset).toNat hpos
    omega
  · have hdm : (x - d.globalWorkOffset) / d.localWorkSize * d.localWorkSize +
        (x - d.globalWorkOffset) % d.localWorkSize = x - d.globalWorkOffset := by
      apply UInt64.toNat_inj.mp
      rw [UInt64.toNat_add, UInt64.toNat_mul, UInt64.toNat_div, UInt64.toNat_mod, Nat.mod_add_mod,
        Nat.div_add_mod']
      exact Nat.mod_eq_of_lt (UInt64.toNat_lt _)
    rw [globalId, UInt64.add_assoc, UInt64.add_comm d.globalWorkOffset, ← UInt64.add_assoc, hdm,
      UInt64.sub_add_cancel]

end WorkSize

section Lists

variable {ds : List WorkSize}

theorem foldl_groups_toNat (h : ∀ d ∈ ds, d.Accepted) (n : UInt64) :
    (ds.foldl (fun n d => n * (d.maxWorkGroup + 1)) n).toNat =
      n.toNat * (ds.map WorkSize.groups).prod % 2 ^ 64 := by
  induction ds generalizing n with
  | nil => simp [Nat.mod_eq_of_lt n.toNat_lt]
  | cons d ds ih =>
    have hd := h d (by simp)
    have hmax := hd.maxWorkGroup_toNat
    have hlt := d.groups_lt
    have hone : (d.maxWorkGroup + 1).toNat = d.groups := by
      rw [toNat_add_one (Nat.le_refl _) (by omega), hmax]
    rw [List.foldl_cons, ih (fun x hx => h x (List.mem_cons_of_mem _ hx)), UInt64.toNat_mul, hone,
      Nat.mod_mul_mod, List.map_cons, List.prod_cons, Nat.mul_assoc]

theorem size_maxWorkGroups (h : ∀ d ∈ ds, d.Accepted) :
    size (nats (ds.map WorkSize.maxWorkGroup)) = (ds.map WorkSize.groups).prod := by
  induction ds with
  | nil => rfl
  | cons d ds ih =>
    simp [(h d (by simp)).maxWorkGroup_toNat, ih fun x hx => h x (List.mem_cons_of_mem _ hx)]

theorem bounded_maxWorkGroups (h : ∀ d ∈ ds, d.Accepted) :
    Bounded (ds.map WorkSize.maxWorkGroup) := by
  intro m hm
  obtain ⟨d, hd, rfl⟩ := List.mem_map.mp hm
  rw [(h d hd).maxWorkGroup_toNat]
  exact d.groups_lt

theorem bounded_maxLocalId (h : ∀ d ∈ ds, d.Accepted) : Bounded (ds.map WorkSize.maxLocalId) := by
  intro m hm
  obtain ⟨d, hd, rfl⟩ := List.mem_map.mp hm
  rw [(h d hd).maxLocalId_toNat]
  exact d.localWorkSize.toNat_lt

/-- The ids of all dimensions together. -/
def globalIds : List WorkSize → List UInt64 → List UInt64 → List UInt64
  | d :: ds, i :: is, l :: ls => d.globalId i l :: globalIds ds is ls
  | _, _, _ => []

theorem getGlobalId_eq (nd : NDRange) (index localId : List UInt64) :
    (CPUKernelWorkGroup.create nd index).getGlobalId localId = globalIds nd.dims index localId := by
  simp only [CPUKernelWorkGroup.create, CPUKernelWorkGroup.getGlobalId]
  generalize nd.dims = ds
  induction ds generalizing index localId with
  | nil => rfl
  | cons d ds ih =>
    cases index with
    | nil => rfl
    | cons i index =>
      cases localId with
      | nil => rfl
      | cons l localId => simp [globalIds, WorkSize.globalId, ih]

/-- A work-group index and a local id of the launch. -/
def Item (ds : List WorkSize) (index localId : List UInt64) : Prop :=
  Valid (nats (ds.map WorkSize.maxWorkGroup)) (nats index) ∧
    Valid (nats (ds.map WorkSize.maxLocalId)) (nats localId)

theorem item_cons {d : WorkSize} {index localId : List UInt64} (h : Item (d :: ds) index localId) :
    ∃ i is l ls, index = i :: is ∧ localId = l :: ls ∧ i.toNat ≤ d.maxWorkGroup.toNat ∧
      l.toNat ≤ d.maxLocalId.toNat ∧ Item ds is ls := by
  obtain ⟨hi, hl⟩ := h
  cases index with
  | nil => cases hi
  | cons i is =>
    cases localId with
    | nil => cases hl
    | cons l ls =>
      obtain ⟨hi₁, hi₂⟩ := List.forall₂_cons.mp hi
      obtain ⟨hl₁, hl₂⟩ := List.forall₂_cons.mp hl
      exact ⟨i, is, l, ls, rfl, rfl, hi₁, hl₁, hi₂, hl₂⟩

/-- Different work-items have different global ids. -/
theorem globalIds_injective (h : ∀ d ∈ ds, d.Accepted) {i l i' l' : List UInt64}
    (hi : Item ds i l) (hi' : Item ds i' l') (he : globalIds ds i l = globalIds ds i' l') :
    i = i' ∧ l = l' := by
  induction ds generalizing i l i' l' with
  | nil =>
    have h₁ := List.forall₂_nil_right_iff.mp hi.1
    have h₂ := List.forall₂_nil_right_iff.mp hi.2
    have h₁' := List.forall₂_nil_right_iff.mp hi'.1
    have h₂' := List.forall₂_nil_right_iff.mp hi'.2
    exact ⟨nats_injective (h₁.trans h₁'.symm), nats_injective (h₂.trans h₂'.symm)⟩
  | cons d ds ih =>
    obtain ⟨a, as, b, bs, rfl, rfl, ha, hb, hs⟩ := item_cons hi
    obtain ⟨a', as', b', bs', rfl, rfl, ha', hb', hs'⟩ := item_cons hi'
    obtain ⟨he₁, he₂⟩ := List.cons.inj he
    obtain ⟨rfl, rfl⟩ := (h d (by simp)).globalId_injective ha hb ha' hb' he₁
    obtain ⟨rfl, rfl⟩ := ih (fun x hx => h x (List.mem_cons_of_mem _ hx)) hs hs' he₂
    exact ⟨rfl, rfl⟩

/-- The global ids of the work-items fill the range, dimension by dimension. -/
theorem inRange_iff_item (h : ∀ d ∈ ds, d.Accepted) (x : List UInt64) :
    List.Forall₂ WorkSize.InRange ds x ↔ ∃ i l, Item ds i l ∧ globalIds ds i l = x := by
  induction ds generalizing x with
  | nil =>
    constructor
    · intro hx
      exact ⟨[], [], ⟨.nil, .nil⟩, (List.forall₂_nil_left_iff.mp hx).symm⟩
    · rintro ⟨i, l, -, rfl⟩
      exact .nil
  | cons d ds ih =>
    have hd := h d (by simp)
    have ih := ih fun x hx => h x (List.mem_cons_of_mem _ hx)
    constructor
    · intro hx
      obtain ⟨y, ys, hy, hys, rfl⟩ := List.forall₂_cons_left_iff.mp hx
      obtain ⟨a, b, ha, hb, rfl⟩ := hd.exists_globalId hy
      obtain ⟨as, bs, ⟨has, hbs⟩, rfl⟩ := (ih ys).mp hys
      exact ⟨a :: as, b :: bs, ⟨.cons ha has, .cons hb hbs⟩, rfl⟩
    · rintro ⟨i, l, hil, rfl⟩
      obtain ⟨a, as, b, bs, rfl, rfl, ha, hb, hs⟩ := item_cons hil
      exact .cons (hd.globalId_inRange ha hb) ((ih _).mpr ⟨as, bs, hs, rfl⟩)

end Lists

namespace NDRange

variable (nd : NDRange)

/-- The largest work-group index. -/
def maxGroups : List Nat := nats (nd.dims.map WorkSize.maxWorkGroup)

/-- The largest local id. -/
def maxLocals : List Nat := nats (nd.dims.map WorkSize.maxLocalId)

def numGroups : Nat := (nd.dims.map WorkSize.groups).prod

theorem accepted : ∀ d ∈ nd.dims, d.Accepted := fun d hd =>
  ⟨nd.global_pos d hd, nd.local_pos d hd, nd.local_dvd d hd⟩

theorem size_maxGroups : size nd.maxGroups = nd.numGroups := size_maxWorkGroups nd.accepted

theorem numGroups_pos : 0 < nd.numGroups := by
  rw [← size_maxGroups]
  exact size_pos _

theorem numGroups_lt : nd.numGroups < 2 ^ 64 := nd.groups_lt

theorem numWg_toNat (W : Type) : (CPUKernelEvent.create W nd).numWg.toNat = nd.numGroups := by
  have h := foldl_groups_toNat nd.accepted 1
  rw [show (1 : UInt64).toNat = 1 from rfl, Nat.one_mul] at h
  exact h.trans (Nat.mod_eq_of_lt nd.numGroups_lt)

theorem maxLocalId_ne_nil : nd.dims.map WorkSize.maxLocalId ≠ [] := by
  simpa using nd.workDim_pos

/-- A work-group index of the launch's grid. -/
def InGrid (index : List UInt64) : Prop :=
  List.Forall₂ (fun d i => UInt64.toNat i < d.groups) nd.dims index

/-- A global id in `[offset, offset + global)`. -/
def InRange (id : List UInt64) : Prop := List.Forall₂ WorkSize.InRange nd.dims id

theorem forall₂_lt_iff {ds : List WorkSize} {max : WorkSize → UInt64} {bound : WorkSize → Nat}
    (h : ∀ d ∈ ds, (max d).toNat + 1 = bound d) (v : List UInt64) :
    List.Forall₂ (fun d x => UInt64.toNat x < bound d) ds v ↔
      Valid (nats (ds.map max)) (nats v) := by
  induction ds generalizing v with
  | nil => simp [Valid, nats]
  | cons d ds ih =>
    have hd := h d (by simp)
    have ih := ih fun x hx => h x (List.mem_cons_of_mem _ hx)
    cases v with
    | nil => simp [Valid]
    | cons x v =>
      have hx : x.toNat < bound d ↔ x.toNat ≤ (max d).toNat := by omega
      simp only [List.forall₂_cons, ih, hx, Valid, List.map_cons, nats_cons]

theorem inGrid_iff (index : List UInt64) : nd.InGrid index ↔ Valid nd.maxGroups (nats index) :=
  forall₂_lt_iff (fun d hd => (nd.accepted d hd).maxWorkGroup_toNat) index

end NDRange

end Shamrock.Cpu
