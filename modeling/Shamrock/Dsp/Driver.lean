import Shamrock.Dsp.DeviceMemory

/-!
# The driver

The driver keeps areas of device memory. An access looks up the area of its address, gets a pointer
into memory that is mapped for the host, and keeps the cache of the host coherent: what is read is
invalidated before, what is written is written back.
-/
namespace Shamrock.Dsp

/-! ## Pointers and the memory behind them -/

/-- A range of physical memory that is mapped for the host. -/
structure Mapping where
  phys : Nat
  size : Nat
  deriving DecidableEq, Repr

/-- A pointer of the host. -/
structure HostPtr where
  mapping : Mapping
  offset : Nat
  deriving DecidableEq, Repr

inductive HostCall
  | cmemMap (m : Mapping)
  | cmemUnmap (ptr : HostPtr) (size : Nat)
  | cacheInv (ptr : HostPtr) (size : Nat)
  | cacheWb (ptr : HostPtr) (size : Nat)
  | load (ptr : HostPtr) (size : Nat)
  | store (ptr : HostPtr) (size : Nat)
  deriving DecidableEq, Repr

/-- What the operating system answers: the size of a page, whether `/dev/dsp0` to `/dev/dsp7` can be
opened, and whether memory can be mapped. -/
structure HostOs where
  pageSize : UInt64
  mpmTransportOpen : Nat → Bool
  mpmTransportMmap : UInt64 → UInt64 → Bool
  cmemMap : UInt64 → UInt64 → Bool

/-- The mappings of the host, the physical memory and the calls so far. -/
structure HostState where
  mappings : List Mapping
  memory : Nat → UInt8
  calls : List HostCall

/-- The bytes of `buf` from `a` on. -/
def setBytes (memory : Nat → UInt8) (a : Nat) (buf : List UInt8) : Nat → UInt8 := fun b =>
  if a ≤ b then (buf[b - a]?).getD (memory b) else memory b

def getBytes (memory : Nat → UInt8) (a n : Nat) : List UInt8 :=
  (List.range n).map fun i => memory (a + i)

namespace HostState

def call (h : HostState) (c : HostCall) : HostState := { h with calls := h.calls ++ [c] }

/-- `n` bytes at the pointer are mapped. -/
def Mapped (h : HostState) (ptr : HostPtr) (n : Nat) : Prop :=
  ptr.mapping ∈ h.mappings ∧ ptr.offset + n ≤ ptr.mapping.size

instance (h : HostState) (ptr : HostPtr) (n : Nat) : Decidable (h.Mapped ptr n) :=
  inferInstanceAs (Decidable (_ ∧ _))

/-- `memcpy` to the pointer. -/
def store (h : HostState) (ptr : HostPtr) (buf : List UInt8) : Option HostState :=
  if h.Mapped ptr buf.length then
    some { h with
      memory := setBytes h.memory (ptr.mapping.phys + ptr.offset) buf
      calls := h.calls ++ [.store ptr buf.length] }
  else none

/-- `memcpy` from the pointer. -/
def load (h : HostState) (ptr : HostPtr) (n : Nat) : Option (List UInt8 × HostState) :=
  if h.Mapped ptr n then
    some (getBytes h.memory (ptr.mapping.phys + ptr.offset) n, h.call (.load ptr n))
  else none

/-- `CMEM_map` -/
def cmemMap (os : HostOs) (h : HostState) (phys size : UInt64) : Option (Mapping × HostState) :=
  let m : Mapping := ⟨phys.toNat, size.toNat⟩
  if os.cmemMap phys size then
    some (m, { h with mappings := m :: h.mappings, calls := h.calls ++ [.cmemMap m] })
  else none

/-- `CMEM_unmap` -/
def cmemUnmap (h : HostState) (ptr : HostPtr) (size : Nat) : HostState :=
  { h with
    mappings := h.mappings.erase ⟨ptr.mapping.phys + ptr.offset, size⟩
    calls := h.calls ++ [.cmemUnmap ptr size] }

end HostState

/-! ## Areas -/

/-- `shmem_persistent`, `shmem_cmem_persistent`, `shmem_cmem_ondemand` -/
inductive ShmemKind
  | persistent
  | cmemPersistent
  | cmemOndemand
  deriving DecidableEq, Repr

/-- An area; `mapping` stands for `p_host_addr`. -/
structure Shmem where
  kind : ShmemKind
  start : UInt64
  size : UInt64
  mapping : Option Mapping
  deriving DecidableEq, Repr

namespace Shmem

/-- The number in the name of the device that `configure_base` opens. -/
def devCore (addr : UInt64) : Nat :=
  if 0x11800000 ≤ addr ∧ addr < 0x17900000 then (addr >>> 24).toNat - 0x10 else 0

/-- `shmem_persistent::configure`. What is reported leaves the area without a mapping. -/
def configurePersistent (os : HostOs) (addr size : UInt64) (h : HostState) : Shmem × HostState :=
  if os.mpmTransportOpen (devCore addr) then
    if addr % os.pageSize = 0 ∧ size % os.pageSize = 0 ∧ os.mpmTransportMmap addr size then
      let m : Mapping := ⟨addr.toNat, size.toNat⟩
      (⟨.persistent, addr, size, some m⟩, { h with mappings := m :: h.mappings })
    else (⟨.persistent, addr, size, none⟩, h)
  else (⟨.persistent, 0, 0, none⟩, h)

/-- `shmem_cmem_persistent::configure` -/
def configureCmemPersistent (os : HostOs) (addr size : UInt64) (h : HostState) :
    Option (Shmem × HostState) :=
  let cmemAddr :=
    if 0xA0000000 ≤ addr ∧ addr < 0xFFFFFFFF then addr - 0xA0000000 + 0x820000000 else addr
  (h.cmemMap os cmemAddr size).map fun r => (⟨.cmemPersistent, addr, size, some r.1⟩, r.2)

/-- `map` of the three kinds. Where it returns 0 the driver exits. -/
def map (os : HostOs) (r : Shmem) (addr : UInt64) (size : UInt32) (isRead : Bool) (h : HostState) :
    Option (HostPtr × HostState) :=
  match r.kind with
  | .persistent =>
    match r.mapping with
    | none => none
    | some m =>
      if r.start ≤ addr ∧ addr + size.toUInt64 ≤ r.start + r.size then
        some (⟨m, (addr - r.start).toNat⟩, h)
      else none
  | .cmemPersistent =>
    match r.mapping with
    | none => none
    | some m =>
      if addr < r.start ∨ r.start + r.size < addr + size.toUInt64 then none
      else
        let ptr : HostPtr := ⟨m, (addr - r.start).toNat⟩
        some (ptr, if isRead then h.call (.cacheInv ptr size.toNat) else h)
  | .cmemOndemand =>
    (h.cmemMap os addr size.toUInt64).map fun p =>
      let ptr : HostPtr := ⟨p.1, 0⟩
      (ptr, if isRead then p.2.call (.cacheInv ptr size.toNat) else p.2)

/-- `unmap` of the three kinds -/
def unmap (r : Shmem) (ptr : HostPtr) (size : UInt32) (isWrite : Bool) (h : HostState) :
    HostState :=
  match r.kind with
  | .persistent => h
  | .cmemPersistent => if isWrite then h.call (.cacheWb ptr size.toNat) else h
  | .cmemOndemand =>
    let h := if isWrite then h.call (.cacheWb ptr size.toNat) else h
    h.cmemUnmap ptr size.toNat

end Shmem

/-! ## The driver -/

structure DriverState where
  areas : List Shmem
  host : HostState

/-- The areas that the constructor of `DSPDevice` configures besides those of DDR. -/
structure DeviceLayout where
  addrMsmcMem : UInt32
  sizeMsmcMem : UInt32
  addrMboxD2h : UInt32
  sizeMboxD2h : UInt32
  addrMboxH2d : UInt32
  sizeMboxH2d : UInt32
  addrLocalMem : UInt32
  sizeLocalMem : UInt32

def totalNumCoresPerChip : Nat := 8

namespace DriverState

/-- `Driver::shmem_configure` -/
def shmemConfigure (os : HostOs) (addr size : UInt64) (cmemBlock : Option Nat) (s : DriverState) :
    Option DriverState :=
  if size = 0 then some s
  else if mpaxUserMappedDspAddr ≤ addr then
    some { s with areas := s.areas ++ [⟨.cmemOndemand, addr, size, none⟩] }
  else if cmemBlock.isSome then
    (Shmem.configureCmemPersistent os addr size s.host).map fun r =>
      ⟨s.areas ++ [r.1], r.2⟩
  else
    let r := Shmem.configurePersistent os addr size s.host
    some ⟨s.areas ++ [r.1], r.2⟩

/-- `Driver::get_memory_region` -/
def getMemoryRegion (s : DriverState) (addr : UInt64) : Option Shmem :=
  s.areas.find? fun r => r.start ≤ addr ∧ addr < r.start + r.size

/-- `Driver::write_core` -/
def writeCore (os : HostOs) (addr : UInt64) (buf : List UInt8) (s : DriverState) :
    Option DriverState := do
  let size := UInt32.ofNat buf.length
  let region ← s.getMemoryRegion addr
  let (ptr, h) ← region.map os addr size false s.host
  let h ← h.store ptr buf
  some { s with host := region.unmap ptr size true h }

/-- The address of L2 memory on one core. -/
def globalL2 (core : Nat) (addr : UInt64) : UInt64 := (UInt64.ofNat (0x10 + core) <<< 24) + addr

/-- `Driver::write`; L2 is written on each core. -/
def write (os : HostOs) (addr : UInt64) (buf : List UInt8) (s : DriverState) :
    Option DriverState :=
  if addr >>> 20 = 0x008 then
    (List.range totalNumCoresPerChip).foldlM
      (fun s core => s.writeCore os (globalL2 core addr) buf) s
  else s.writeCore os addr buf

/-- `Driver::read` -/
def read (os : HostOs) (addr : UInt64) (size : UInt32) (s : DriverState) :
    Option (List UInt8 × DriverState) := do
  let region ← s.getMemoryRegion addr
  let (ptr, h) ← region.map os addr size true s.host
  let (buf, h) ← h.load ptr size.toNat
  some (buf, { s with host := region.unmap ptr size false h })

/-- `Driver::map` -/
def map (os : HostOs) (addr : UInt64) (size : UInt32) (isRead : Bool) (s : DriverState) :
    Option (HostPtr × DriverState) := do
  let region ← s.getMemoryRegion addr
  let (ptr, h) ← region.map os addr size isRead s.host
  some (ptr, { s with host := h })

/-- `Driver::unmap` -/
def unmap (ptr : HostPtr) (addr : UInt64) (size : UInt32) (isWrite : Bool) (s : DriverState) :
    Option DriverState := do
  let region ← s.getMemoryRegion addr
  some { s with host := region.unmap ptr size isWrite s.host }

/-- The case `CopyBuffer` of the worker for two buffers on the device. -/
def copyBuffer (os : HostOs) (src dst cb : UInt64) (s : DriverState) : Option DriverState := do
  let (psrc, s) ← s.map os src cb.toUInt32 true
  let (pdst, s) ← s.map os dst cb.toUInt32 false
  let (buf, h) ← s.host.load psrc cb.toNat
  let h ← h.store pdst buf
  let s ← DriverState.unmap psrc src cb.toUInt32 false { s with host := h }
  s.unmap pdst dst cb.toUInt32 true

/-- The areas of the constructor of `DSPDevice`, in its order. -/
def configureDevice (os : HostOs) (c : CmemBlocks) (nomap : Bool) (l : DeviceLayout)
    (s : DriverState) : Option DriverState := do
  let split := c.split nomap
  let s ← s.shmemConfigure os split.addr1 split.size1 (some 0)
  let s ← s.shmemConfigure os split.addr2 split.size2 (some 0)
  let s ← s.shmemConfigure os c.addr3 split.size3 (some 0)
  let s ← s.shmemConfigure os l.addrMsmcMem.toUInt64 l.sizeMsmcMem.toUInt64 (some 1)
  let s ← s.shmemConfigure os l.addrMboxD2h.toUInt64 l.sizeMboxD2h.toUInt64 none
  let s ← s.shmemConfigure os l.addrMboxH2d.toUInt64 l.sizeMboxH2d.toUInt64 none
  (List.range totalNumCoresPerChip).foldlM (fun s core => s.shmemConfigure os
    ((UInt32.ofNat (0x10 + core) <<< 24) + l.addrLocalMem).toUInt64 l.sizeLocalMem.toUInt64 none) s

end DriverState

/-! ## The areas of DDR -/

/-- The area for a range of a heap: mapped on demand if it is not mapped for the DSP by default. -/
def ddrArea (addr size : UInt64) : Shmem :=
  if mpaxUserMappedDspAddr ≤ addr then ⟨.cmemOndemand, addr, size, none⟩
  else ⟨.cmemPersistent, addr, size, some ⟨physAddr addr.toNat, size.toNat⟩⟩

/-- The areas for those of the ranges that are not empty. -/
def rangeAreas (ranges : List (UInt64 × UInt64)) : List Shmem :=
  (ranges.filter fun r => r.2 ≠ 0).map fun r => ddrArea r.1 r.2

def ddrAreas (c : CmemBlocks) (nomap : Bool) : List Shmem :=
  rangeAreas [((c.split nomap).addr1, (c.split nomap).size1),
    ((c.split nomap).addr2, (c.split nomap).size2), (c.addr3, (c.split nomap).size3)]

section Areas

variable {os : HostOs} {c : CmemBlocks} {nomap : Bool} {l : DeviceLayout} {s t : DriverState}
  {addr size : UInt64} {block : Option Nat}

/-- Areas and mappings are only added. -/
structure Extends (s t : DriverState) : Prop where
  areas : ∃ areas, t.areas = s.areas ++ areas
  mappings : s.host.mappings ⊆ t.host.mappings
  calls : ∃ ms : List Mapping, t.host.calls = s.host.calls ++ ms.map .cmemMap

theorem Extends.refl (s : DriverState) : Extends s s :=
  ⟨⟨[], (List.append_nil _).symm⟩, List.Subset.refl _, ⟨[], (List.append_nil _).symm⟩⟩

theorem Extends.trans {u : DriverState} (h : Extends s t) (h' : Extends t u) : Extends s u := by
  obtain ⟨areas, hareas⟩ := h.areas
  obtain ⟨areas', hareas'⟩ := h'.areas
  obtain ⟨ms, hcalls⟩ := h.calls
  obtain ⟨ms', hcalls'⟩ := h'.calls
  refine ⟨⟨areas ++ areas', ?_⟩, List.Subset.trans h.mappings h'.mappings, ⟨ms ++ ms', ?_⟩⟩
  · rw [hareas', hareas, List.append_assoc]
  · rw [hcalls', hcalls, List.append_assoc, List.map_append]

theorem cmemMap_spec {h h' : HostState} {m : Mapping} {phys : UInt64}
    (hmap : h.cmemMap os phys size = some (m, h')) :
    os.cmemMap phys size = true ∧ m = ⟨phys.toNat, size.toNat⟩ ∧
      h' = { h with mappings := m :: h.mappings, calls := h.calls ++ [.cmemMap m] } := by
  unfold HostState.cmemMap at hmap
  split_ifs at hmap with hos
  obtain ⟨rfl, rfl⟩ := Prod.mk.inj (Option.some.inj hmap)
  exact ⟨hos, rfl, rfl⟩

theorem shmemConfigure_extends (h : s.shmemConfigure os addr size block = some t) :
    Extends s t := by
  unfold DriverState.shmemConfigure at h
  split_ifs at h
  · cases h
    exact .refl s
  · cases h
    exact ⟨⟨_, rfl⟩, List.Subset.refl _, ⟨[], (List.append_nil _).symm⟩⟩
  · obtain ⟨⟨r, host⟩, hr, rfl⟩ := Option.map_eq_some_iff.mp h
    unfold Shmem.configureCmemPersistent at hr
    obtain ⟨⟨m, host'⟩, hm, heq⟩ := Option.map_eq_some_iff.mp hr
    obtain ⟨-, rfl⟩ := Prod.mk.inj heq
    rw [(cmemMap_spec hm).2.2]
    exact ⟨⟨_, rfl⟩, List.subset_cons_self _ _, ⟨[m], rfl⟩⟩
  · cases h
    have hhost : s.host.mappings ⊆ (Shmem.configurePersistent os addr size s.host).2.mappings ∧
        (Shmem.configurePersistent os addr size s.host).2.calls = s.host.calls := by
      unfold Shmem.configurePersistent
      split_ifs
      · exact ⟨List.subset_cons_self _ _, rfl⟩
      · exact ⟨List.Subset.refl _, rfl⟩
      · exact ⟨List.Subset.refl _, rfl⟩
    exact ⟨⟨_, rfl⟩, hhost.1, ⟨[], hhost.2.trans (List.append_nil _).symm⟩⟩

theorem foldlM_extends {cores : List Nat} {f : DriverState → Nat → Option DriverState}
    (hf : ∀ s core t, f s core = some t → Extends s t) (h : cores.foldlM f s = some t) :
    Extends s t := by
  induction cores generalizing s with
  | nil =>
    cases h
    exact .refl _
  | cons core cores ih =>
    rw [List.foldlM_cons] at h
    obtain ⟨u, hu, h⟩ := Option.bind_eq_some_iff.mp h
    exact (hf _ _ _ hu).trans (ih h)

/-- A range of a block of CMEM becomes an area, and what is not mapped on demand is mapped. -/
theorem shmemConfigure_ddr (hlast : size ≠ 0 → addr.toNat ≠ 0xFFFFFFFF)
    (h : s.shmemConfigure os addr size (some 0) = some t) :
    t.areas = s.areas ++ rangeAreas [(addr, size)] ∧
    (size ≠ 0 → ∀ m, (ddrArea addr size).mapping = some m → m ∈ t.host.mappings) := by
  unfold DriverState.shmemConfigure at h
  by_cases hsize : size = 0
  · rw [if_pos hsize] at h
    cases h
    exact ⟨by simp [rangeAreas, hsize], fun hne => absurd hsize hne⟩
  · rw [if_neg hsize] at h
    rw [rangeAreas, List.filter_cons_of_pos (by simpa using hsize)]
    simp only [ddrArea, List.filter_nil, List.map_cons, List.map_nil]
    by_cases hhigh : mpaxUserMappedDspAddr ≤ addr
    · rw [if_pos hhigh] at h ⊢
      cases h
      exact ⟨rfl, fun _ => nofun⟩
    · rw [if_neg hhigh, if_pos Option.isSome_some] at h
      rw [if_neg hhigh]
      obtain ⟨⟨r, host⟩, hr, rfl⟩ := Option.map_eq_some_iff.mp h
      unfold Shmem.configureCmemPersistent at hr
      generalize hphys : (if 0xA0000000 ≤ addr ∧ addr < 0xFFFFFFFF then
        addr - 0xA0000000 + 0x820000000 else addr) = phys at hr
      obtain ⟨⟨m, host'⟩, hm, heq⟩ := Option.map_eq_some_iff.mp hr
      obtain ⟨rfl, rfl⟩ := Prod.mk.inj heq
      obtain ⟨-, rfl, rfl⟩ := cmemMap_spec hm
      have hsame : phys.toNat = physAddr addr.toNat := by
        have hbegin : (0xA0000000 : UInt64).toNat = 0xA0000000 := rfl
        have hend : (0xFFFFFFFF : UInt64).toNat = 0xFFFFFFFF := rfl
        have hbase : (0x820000000 : UInt64).toNat = 0x820000000 := rfl
        have hlt := addr.toNat_lt
        have hne := hlast hsize
        rw [← hphys]
        unfold physAddr
        split_ifs with hin hin' hin'
        · rw [UInt64.toNat_add, UInt64.toNat_sub, hbegin, hbase]
          omega
        · rw [UInt64.le_iff_toNat_le, UInt64.lt_iff_toNat_lt, hbegin, hend] at hin
          omega
        · rw [UInt64.le_iff_toNat_le, UInt64.lt_iff_toNat_lt, hbegin, hend] at hin
          omega
        · rfl
      rw [hsame]
      refine ⟨rfl, fun _ m hmap => ?_⟩
      cases hmap
      exact List.mem_cons_self

/-- The device begins with the areas of DDR, which are mapped as they say. -/
theorem configureDevice_areas {host : HostState}
    (h : DriverState.configureDevice os c nomap l ⟨[], host⟩ = some s) :
    (∃ areas, s.areas = ddrAreas c nomap ++ areas) ∧
      (∀ r ∈ ddrAreas c nomap, ∀ m, r.mapping = some m → m ∈ s.host.mappings) ∧
      ∃ ms : List Mapping, s.host.calls = host.calls ++ ms.map .cmemMap := by
  have hsafe := split_safe c nomap
  have hmapped := UInt64.lt_iff_toNat_lt.mp c.mapped
  have hlimit : mpaxUserMappedDspAddr.toNat = 0x840000000 := rfl
  have hend : ((0xFFFFFFFF : UInt64)).toNat = 0xFFFFFFFF := rfl
  have haddr1 := split_addr1 c nomap
  unfold DriverState.configureDevice at h
  obtain ⟨s1, h1, h⟩ := Option.bind_eq_some_iff.mp h
  obtain ⟨s2, h2, h⟩ := Option.bind_eq_some_iff.mp h
  obtain ⟨s3, h3, h⟩ := Option.bind_eq_some_iff.mp h
  obtain ⟨s4, h4, h⟩ := Option.bind_eq_some_iff.mp h
  obtain ⟨s5, h5, h⟩ := Option.bind_eq_some_iff.mp h
  obtain ⟨s6, h6, h⟩ := Option.bind_eq_some_iff.mp h
  have hrest : Extends s3 s := (shmemConfigure_extends h4).trans ((shmemConfigure_extends h5).trans
    ((shmemConfigure_extends h6).trans
      (foldlM_extends (fun _ _ _ hcore => shmemConfigure_extends hcore) h)))
  have hpos : ∀ n : UInt64, n ≠ 0 → 0 < n.toNat := by
    intro n hn
    exact Nat.pos_of_ne_zero fun hzero => hn (UInt64.toNat_inj.mp hzero)
  obtain ⟨hareas1, hmaps1⟩ := shmemConfigure_ddr (fun _ => by omega) h1
  obtain ⟨hareas2, hmaps2⟩ := shmemConfigure_ddr (fun hne => by
    have hhigh := hsafe.high2 (hpos _ hne)
    unfold dsp36BitAddr DdrSplit.range2 at hhigh
    omega) h2
  obtain ⟨hareas3, hmaps3⟩ := shmemConfigure_ddr (fun hne => by
    have hhigh := hsafe.high3 (hpos _ hne)
    unfold dsp36BitAddr CmemBlocks.range3 at hhigh
    omega) h3
  have hfrom2 := (shmemConfigure_extends h3).trans hrest
  have hfrom1 := (shmemConfigure_extends h2).trans hfrom2
  refine ⟨?_, ?_, ((shmemConfigure_extends h1).trans hfrom1).calls⟩
  · obtain ⟨areas, hareas⟩ := hrest.areas
    refine ⟨areas, ?_⟩
    rw [hareas, hareas3, hareas2, hareas1, List.nil_append]
    simp only [ddrAreas, rangeAreas, ← List.map_append, ← List.filter_append]
    rfl
  · intro r hr m hm
    simp only [ddrAreas, rangeAreas, List.mem_map, List.mem_filter, decide_eq_true_eq] at hr
    obtain ⟨p, ⟨hp, hne⟩, rfl⟩ := hr
    simp only [List.mem_cons, List.not_mem_nil, or_false] at hp
    rcases hp with rfl | rfl | rfl
    · exact hfrom1.mappings (hmaps1 hne m hm)
    · exact hfrom2.mappings (hmaps2 hne m hm)
    · exact hrest.mappings (hmaps3 hne m hm)

end Areas

/-! ## Addresses and areas -/

section Lookup

variable {lossless : Prop} {c : CmemBlocks} {nomap : Bool} {d : DdrHeaps} {s : DriverState}
  {start size : UInt64} {addr n a : Nat}

@[simp] theorem ddrArea_start (start size : UInt64) : (ddrArea start size).start = start := by
  unfold ddrArea
  split_ifs <;> rfl

@[simp] theorem ddrArea_size (start size : UInt64) : (ddrArea start size).size = size := by
  unfold ddrArea
  split_ifs <;> rfl

theorem contains_iff (hwrap : start.toNat + size.toNat < 2 ^ 64) (ha : a < 2 ^ 64) :
    (start ≤ UInt64.ofNat a ∧ UInt64.ofNat a < start + size) ↔
      start.toNat ≤ a ∧ a < start.toNat + size.toNat := by
  rw [UInt64.le_iff_toNat_le, UInt64.lt_iff_toNat_lt, UInt64.toNat_add, UInt64.toNat_ofNat',
    Nat.mod_eq_of_lt ha, Nat.mod_eq_of_lt hwrap]

/-- An area that holds a range of device memory. -/
structure Holds (start size : UInt64) (addr n : Nat) : Prop where
  lower : start.toNat ≤ addr
  upper : addr + n ≤ start.toNat + size.toNat
  wrap : start.toNat + size.toNat < 2 ^ 64
  phys : ∀ x, start.toNat ≤ x → x < start.toNat + size.toNat →
    physAddr x = physAddr start.toNat + (x - start.toNat)

theorem find_rangeAreas {x : UInt64} (l₁ l₂ : List (UInt64 × UInt64)) {areas : List Shmem}
    (hbefore : ∀ r ∈ l₁, ¬(r.1 ≤ x ∧ x < r.1 + r.2)) (hsize : size ≠ 0)
    (hin : start ≤ x ∧ x < start + size) :
    (rangeAreas (l₁ ++ (start, size) :: l₂) ++ areas).find?
      (fun r => r.start ≤ x ∧ x < r.start + r.size) = some (ddrArea start size) := by
  induction l₁ with
  | nil =>
    rw [List.nil_append, rangeAreas, List.filter_cons_of_pos (by simpa using hsize), List.map_cons,
      List.cons_append, List.find?_cons_of_pos (by simpa using hin)]
  | cons r l₁ ih =>
    have hrest := ih fun r' hr' => hbefore r' (List.mem_cons_of_mem _ hr')
    have hr := hbefore r List.mem_cons_self
    rw [List.cons_append, rangeAreas]
    by_cases hzero : r.2 = 0
    · rw [List.filter_cons_of_neg (by simpa using hzero)]
      exact hrest
    · rw [List.filter_cons_of_pos (by simpa using hzero), List.map_cons, List.cons_append,
        List.find?_cons_of_neg (by simpa using hr)]
      exact hrest

theorem mem_rangeAreas {ranges : List (UInt64 × UInt64)} (hmem : (start, size) ∈ ranges)
    (hsize : size ≠ 0) : ddrArea start size ∈ rangeAreas ranges :=
  List.mem_map.mpr ⟨(start, size), List.mem_filter.mpr ⟨hmem, by simpa using hsize⟩, rfl⟩

/-- The driver finds the area of each byte of a block that has been handed out. -/
theorem region_of_live (hareas : ∃ areas, s.areas = ddrAreas c nomap ++ areas)
    (h : MemoryValid lossless c nomap d) (hmem : (addr, n) ∈ d.live) (hlo : addr ≤ a)
    (hhi : a < addr + n) :
    ∃ start size, ddrArea start size ∈ ddrAreas c nomap ∧
      s.getMemoryRegion (UInt64.ofNat a) = some (ddrArea start size) ∧
      Holds start size addr n := by
  obtain ⟨areas, hareas⟩ := hareas
  obtain ⟨hlow, -, -, -, -, -, -, -, hapart23, -⟩ := split_safe c nomap
  have hwrap1 := range1_wrap c nomap
  have hwrap2 := range2_wrap c nomap
  have hwrap3 := range3_wrap c nomap
  simp only [DdrSplit.range1, DdrSplit.range2, CmemBlocks.range3] at hwrap1 hwrap2 hwrap3 hlow
  simp only [DdrSplit.range2, CmemBlocks.range3] at hapart23
  have hne : ∀ {m : UInt64}, 0 < m.toNat → m ≠ 0 := by
    rintro m hpos rfl
    cases hpos
  unfold DriverState.getMemoryRegion
  rw [hareas]
  rcases mem_live.mp hmem with hmem | hmem | hmem
  · obtain ⟨hstart, hend, hpos⟩ := h.heap1.mem_bounds hmem
    simp only [DdrSplit.range1] at hstart hend
    refine ⟨(c.split nomap).addr1, (c.split nomap).size1,
      mem_rangeAreas (by simp) (hne (by omega)),
      find_rangeAreas [] _ nofun (hne (by omega))
        ((contains_iff hwrap1 (by omega)).mpr ⟨by omega, by omega⟩),
      hstart, hend, hwrap1, fun x hx hx' => ?_⟩
    rw [physAddr_low (by omega) (by omega), physAddr_low (by omega) (by omega)]
    omega
  · obtain ⟨hstart, hend, hpos⟩ := h.heap2.mem_bounds hmem
    have hhigh := (h.heap2_bounds hmem).1
    have hbase := (split_safe c nomap).high2
    simp only [DdrSplit.range2, dsp36BitAddr] at hstart hend hhigh hbase
    have hbase := hbase (by omega)
    refine ⟨(c.split nomap).addr2, (c.split nomap).size2,
      mem_rangeAreas (by simp) (hne (by omega)),
      find_rangeAreas [((c.split nomap).addr1, (c.split nomap).size1)] _ ?_ (hne (by omega))
        ((contains_iff hwrap2 (by omega)).mpr ⟨by omega, by omega⟩),
      hstart, hend, hwrap2, fun x hx hx' => ?_⟩
    · intro r hr
      rw [List.mem_singleton.mp hr, contains_iff hwrap1 (by omega)]
      omega
    · rw [physAddr_high (by omega), physAddr_high (by omega)]
      omega
  · obtain ⟨hstart, hend, hpos⟩ := h.heap3.mem_bounds hmem
    have hhigh := (h.heap3_bounds hmem).1
    have hbase := (split_safe c nomap).high3
    simp only [CmemBlocks.range3, dsp36BitAddr] at hstart hend hhigh hbase
    have hbase := hbase (by omega)
    refine ⟨c.addr3, (c.split nomap).size3, mem_rangeAreas (by simp) (hne (by omega)),
      find_rangeAreas [((c.split nomap).addr1, (c.split nomap).size1),
        ((c.split nomap).addr2, (c.split nomap).size2)] _ ?_ (hne (by omega))
        ((contains_iff hwrap3 (by omega)).mpr ⟨by omega, by omega⟩),
      hstart, hend, hwrap3, fun x hx hx' => ?_⟩
    · intro r hr
      rcases List.mem_pair.mp hr with rfl | rfl
      · rw [contains_iff hwrap1 (by omega)]
        omega
      · rw [contains_iff hwrap2 (by omega)]
        rintro ⟨hlo2, hhi2⟩
        rcases hapart23 (by omega) (by omega) with hle | hle <;> dsimp only at hle <;> omega
    · rw [physAddr_high (by omega), physAddr_high (by omega)]
      omega

end Lookup

end Shamrock.Dsp
