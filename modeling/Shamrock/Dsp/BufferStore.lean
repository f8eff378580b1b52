import Shamrock.Dsp.Driver
import Mathlib.Data.List.Pairwise

/-!
# Buffers in the memory of the device

Allocation, translation of addresses and the accesses of the driver together: every buffer keeps the
bytes that were last written to it, by the host or by the DSP, whatever happens to the others.
-/
namespace Shamrock.Dsp

open Transition

/-! ## The cache of the host -/

/-- What has been invalidated and not been read, and what has been written and not been written
back. -/
structure CacheState where
  fresh : List (HostPtr × Nat)
  dirty : List (HostPtr × Nat)
  deriving DecidableEq, Repr

namespace CacheState

/-- Nothing is read that has not been invalidated, and nothing is unmapped that is dirty. -/
def next (s : CacheState) : HostCall → Option CacheState
  | .cmemMap _ => some s
  | .cmemUnmap ptr size => if (ptr, size) ∈ s.dirty then none else some s
  | .cacheInv ptr size => some { s with fresh := (ptr, size) :: s.fresh }
  | .cacheWb ptr size => some { s with dirty := s.dirty.erase (ptr, size) }
  | .load ptr size =>
    if (ptr, size) ∈ s.fresh then some { s with fresh := s.fresh.erase (ptr, size) } else none
  | .store ptr size => some { s with dirty := (ptr, size) :: s.dirty }

end CacheState

/-- The calls keep the cache coherent, and nothing is left to be written back. -/
def Coherent (calls : List HostCall) : Prop := calls.foldlM CacheState.next ⟨[], []⟩ = some ⟨[], []⟩

/-- Mapping memory does not touch the cache. -/
theorem next_maps (s : CacheState) (ms : List Mapping) :
    (ms.map HostCall.cmemMap).foldlM CacheState.next s = some s := by
  induction ms with
  | nil => rfl
  | cons m ms ih => exact ih

/-- What is not dirty may be unmapped. -/
theorem next_unmaps {s : CacheState} {ptr : HostPtr} {n : Nat} (h : (ptr, n) ∉ s.dirty)
    (k : Nat) : (List.replicate k (.cmemUnmap ptr n)).foldlM CacheState.next s = some s := by
  induction k with
  | zero => rfl
  | succ k ih =>
    rw [List.replicate_succ, List.foldlM_cons, CacheState.next, if_neg h]
    exact ih

theorem Coherent.append {calls calls' : List HostCall} (h : Coherent calls)
    (h' : Coherent calls') : Coherent (calls ++ calls') := by
  unfold Coherent at *
  rw [List.foldlM_append, h]
  exact h'

/-! ## Accesses -/

/-- What is mapped for an access. -/
def Shmem.opens (r : Shmem) (ptr : HostPtr) : List Mapping :=
  if r.kind = .cmemOndemand then [ptr.mapping] else []

/-- A pointer to `size` bytes from `a` on, as `map` gives it. -/
structure Opened (r : Shmem) (a size : Nat) (isRead : Bool) (h h' : HostState) (ptr : HostPtr) :
    Prop where
  phys : ptr.mapping.phys + ptr.offset = physAddr a
  mapped : h'.Mapped ptr size
  memory : h'.memory = h.memory
  mappings : h'.mappings = r.opens ptr ++ h.mappings
  calls : h'.calls = h.calls ++ ((r.opens ptr).map .cmemMap ++
    if isRead then [.cacheInv ptr size] else [])
  whole : r.kind = .cmemOndemand → ptr.offset = 0 ∧ ptr.mapping.size = size

section Access

variable {os : HostOs} {start areaSize : UInt64} {addr n a : Nat}

theorem toNat_toUInt64 (size : UInt32) : size.toUInt64.toNat = size.toNat := UInt32.toNat_toUInt64 _

/-- `map` in an area of DDR gives a pointer, unless CMEM does not map the memory. -/
theorem map_ddrArea (size : UInt32) (h : HostState) (hholds : Holds start areaSize addr n)
    (hlo : addr ≤ a) (hlt : a < addr + n) (hhi : a + size.toNat ≤ addr + n)
    (hmapped : ∀ m, (ddrArea start areaSize).mapping = some m → m ∈ h.mappings) (isRead : Bool) :
    os.cmemMap (UInt64.ofNat a) size.toUInt64 = false ∧
      (ddrArea start areaSize).map os (UInt64.ofNat a) size isRead h = none ∨
    ∃ ptr h', (ddrArea start areaSize).map os (UInt64.ofNat a) size isRead h = some (ptr, h') ∧
      Opened (ddrArea start areaSize) a size.toNat isRead h h' ptr := by
  obtain ⟨hlower, hupper, hwrap, hphys⟩ := hholds
  have ha : (UInt64.ofNat a).toNat = a := by
    rw [UInt64.toNat_ofNat']
    exact Nat.mod_eq_of_lt (by omega)
  have hsz := toNat_toUInt64 size
  unfold ddrArea at hmapped ⊢
  split at hmapped
  · -- mapped on demand, where no address is an alias
    rename_i hhigh
    rw [if_pos hhigh]
    have hhigh := UInt64.le_iff_toNat_le.mp hhigh
    have hlimit : mpaxUserMappedDspAddr.toNat = 0x840000000 := rfl
    cases hos : os.cmemMap (UInt64.ofNat a) size.toUInt64 with
    | false =>
      have hcall : h.cmemMap os (UInt64.ofNat a) size.toUInt64 = none :=
        if_neg (by simp [hos])
      exact Or.inl ⟨rfl, by simp only [Shmem.map, hcall, Option.map_none]⟩
    | true =>
      right
      let m : Mapping := ⟨(UInt64.ofNat a).toNat, size.toUInt64.toNat⟩
      have hcall : h.cmemMap os (UInt64.ofNat a) size.toUInt64 = some (m, { h with
          mappings := m :: h.mappings, calls := h.calls ++ [.cmemMap m] }) := if_pos hos
      simp only [Shmem.map, hcall, Option.map_some]
      refine ⟨_, _, rfl, ?_⟩
      have hsame : physAddr a = a := physAddr_high (by omega)
      cases isRead
      · exact ⟨by simp [m, ha, hsame], ⟨List.mem_cons_self, by simp [m, hsz]⟩, rfl, rfl, rfl,
          fun _ => ⟨rfl, hsz⟩⟩
      · exact ⟨by simp [m, ha, hsame], ⟨List.mem_cons_self, by simp [m, hsz]⟩, rfl, rfl,
          by simp [HostState.call, Shmem.opens], fun _ => ⟨rfl, hsz⟩⟩
  · rename_i hlow
    rw [if_neg hlow]
    right
    have hin : ¬(UInt64.ofNat a < start ∨
        start + areaSize < UInt64.ofNat a + size.toUInt64) := by
      rw [UInt64.lt_iff_toNat_lt, UInt64.lt_iff_toNat_lt, UInt64.toNat_add, UInt64.toNat_add, ha,
        hsz, Nat.mod_eq_of_lt hwrap]
      rw [Nat.mod_eq_of_lt (by omega)]
      omega
    have hoffset : (UInt64.ofNat a - start).toNat = a - start.toNat := by
      rw [UInt64.toNat_sub_of_le _ _ (UInt64.le_iff_toNat_le.mpr (by omega)), ha]
    have hmem := hmapped _ rfl
    have hplace := hphys a (by omega) (by omega)
    simp only [Shmem.map, if_neg hin]
    refine ⟨_, _, rfl, ?_⟩
    cases isRead
    · exact ⟨by simp [hoffset, hplace], ⟨hmem, by simp [hoffset]; omega⟩, rfl, rfl,
        (List.append_nil _).symm, nofun⟩
    · exact ⟨by simp [hoffset, hplace], ⟨hmem, by simp [hoffset]; omega⟩, rfl, rfl, rfl, nofun⟩

/-- `unmap` takes away what `map` has mapped, and writes back what has been written. -/
theorem unmap_ddrArea {size : UInt32} {ptr : HostPtr} (h : HostState)
    (hwhole : (ddrArea start areaSize).kind = .cmemOndemand →
      ptr.offset = 0 ∧ ptr.mapping.size = size.toNat) (isWrite : Bool) :
    let h' := (ddrArea start areaSize).unmap ptr size isWrite h
    h'.memory = h.memory ∧
    h'.mappings = h.mappings.diff ((ddrArea start areaSize).opens ptr) ∧
    h'.calls = h.calls ++ ((if isWrite then [.cacheWb ptr size.toNat] else []) ++
      ((ddrArea start areaSize).opens ptr).map fun _ => .cmemUnmap ptr size.toNat) := by
  unfold ddrArea at hwhole ⊢
  split at hwhole
  · rename_i hhigh
    obtain ⟨hzero, hsize⟩ := hwhole rfl
    simp only [if_pos hhigh, Shmem.unmap, Shmem.opens, if_true, HostState.cmemUnmap, hzero,
      Nat.add_zero, List.map_cons, List.map_nil, List.diff_cons, List.diff_nil]
    rw [← hsize]
    cases isWrite
    · exact ⟨rfl, rfl, rfl⟩
    · exact ⟨rfl, rfl, by simp [HostState.call]⟩
  · rename_i hlow
    simp only [if_neg hlow, Shmem.unmap, Shmem.opens]
    cases isWrite
    · exact ⟨rfl, rfl, (List.append_nil _).symm⟩
    · exact ⟨rfl, rfl, rfl⟩

end Access

/-- An access leaves areas and mappings as they were, and its calls are coherent. -/
structure Leaves (s t : DriverState) : Prop where
  areas : t.areas = s.areas
  mappings : t.host.mappings = s.host.mappings
  calls : ∃ calls, t.host.calls = s.host.calls ++ calls ∧ Coherent calls

/-- The driver has the areas of DDR. -/
structure DriverReady (c : CmemBlocks) (nomap : Bool) (s : DriverState) : Prop where
  areas : ∃ areas, s.areas = ddrAreas c nomap ++ areas
  mapped : ∀ r ∈ ddrAreas c nomap, ∀ m, r.mapping = some m → m ∈ s.host.mappings

section Live

variable {c : CmemBlocks} {nomap : Bool} {d : DdrHeaps} {s t : DriverState} {addr n a : Nat}

theorem DriverReady.leaves (h : DriverReady c nomap s) (hleaves : Leaves s t) :
    DriverReady c nomap t := by
  refine ⟨hleaves.areas ▸ h.areas, fun r hr m hm => ?_⟩
  rw [hleaves.mappings]
  exact h.mapped r hr m hm

theorem opens_cases (r : Shmem) (ptr : HostPtr) :
    r.opens ptr = [] ∨ r.opens ptr = [ptr.mapping] := by
  unfold Shmem.opens
  split_ifs
  · exact Or.inr rfl
  · exact Or.inl rfl

/-- What has been opened is closed again. -/
theorem diff_opens (r : Shmem) (ptr : HostPtr) (l : List Mapping) :
    (r.opens ptr ++ l).diff (r.opens ptr) = l := by
  rcases opens_cases r ptr with hnone | hone
  · rw [hnone, List.nil_append, List.diff_nil]
  · rw [hone, List.cons_append, List.nil_append, List.diff_cons, List.erase_cons_head,
      List.diff_nil]

/-- Two openings are closed in the order in which they were opened. -/
theorem diff_two_opens (r r' : Shmem) (ptr ptr' : HostPtr) (l : List Mapping) :
    ((r'.opens ptr' ++ (r.opens ptr ++ l)).diff (r.opens ptr)).diff (r'.opens ptr') = l := by
  rcases opens_cases r ptr with hnone | hone
  · rw [hnone, List.diff_nil, List.nil_append]
    exact diff_opens r' ptr' l
  · rcases opens_cases r' ptr' with hnone' | hone'
    · rw [hnone', List.nil_append, List.diff_nil]
      exact diff_opens r ptr l
    · rw [hone, hone']
      simp only [List.cons_append, List.nil_append, List.diff_cons, List.diff_nil]
      by_cases hsame : ptr'.mapping = ptr.mapping
      · rw [hsame, List.erase_cons_head, List.erase_cons_head]
      · rw [List.erase_cons_tail (by simpa using hsame), List.erase_cons_head,
          List.erase_cons_head]

theorem live_bounds (h : MemoryValid False c nomap d) (hmem : (addr, n) ∈ d.live) :
    0xA0000000 ≤ addr ∧ addr + n < 2 ^ 64 := by
  have hwrap1 := range1_wrap c nomap
  have hwrap2 := range2_wrap c nomap
  have hwrap3 := range3_wrap c nomap
  rcases mem_live.mp hmem with hmem | hmem | hmem
  · have hlo := (h.heap1_bounds hmem).1
    have hhi := (h.heap1.mem_bounds hmem).2.1
    exact ⟨hlo, by omega⟩
  · have hlo := (h.heap2_bounds hmem).1
    have hhi := (h.heap2.mem_bounds hmem).2.1
    unfold dsp36BitAddr at hlo
    exact ⟨by omega, by omega⟩
  · have hlo := (h.heap3_bounds hmem).1
    have hhi := (h.heap3.mem_bounds hmem).2.1
    unfold dsp36BitAddr at hlo
    exact ⟨by omega, by omega⟩

/-- `Driver::read` of bytes of a block gives them, unless CMEM does not map them. -/
theorem read_live (os : HostOs) (size : UInt32) (hready : DriverReady c nomap s)
    (h : MemoryValid False c nomap d) (hmem : (addr, n) ∈ d.live) (hlo : addr ≤ a)
    (hlt : a < addr + n) (hhi : a + size.toNat ≤ addr + n) :
    os.cmemMap (UInt64.ofNat a) size.toUInt64 = false ∧ s.read os (UInt64.ofNat a) size = none ∨
    ∃ t, s.read os (UInt64.ofNat a) size =
        some (getBytes s.host.memory (physAddr a) size.toNat, t) ∧
      Leaves s t ∧ t.host.memory = s.host.memory := by
  obtain ⟨start, areaSize, hr, hregion, hholds⟩ := region_of_live hready.areas h hmem hlo hlt
  rcases map_ddrArea size s.host hholds hlo hlt hhi (hready.mapped _ hr) true with
    ⟨hos, hnone⟩ | ⟨ptr, h', hmap, hopened⟩
  · left
    refine ⟨hos, ?_⟩
    simp only [DriverState.read, hregion, Option.bind_eq_bind, Option.bind_some, hnone,
      Option.bind_none]
  · right
    obtain ⟨hmemory, hmappings, hcalls⟩ :=
      unmap_ddrArea (h'.call (.load ptr size.toNat)) hopened.whole false
    simp only [DriverState.read, hregion, Option.bind_eq_bind, Option.bind_some, hmap,
      HostState.load, if_pos hopened.mapped, hopened.phys, hopened.memory]
    refine ⟨_, rfl, ⟨rfl, ?_, ?_⟩, ?_⟩
    · rw [hmappings, HostState.call, hopened.mappings]
      exact diff_opens _ _ _
    · refine ⟨_, by rw [hcalls, HostState.call, hopened.calls, List.append_assoc,
        List.append_assoc], ?_⟩
      simp [Coherent, List.foldlM_append, next_maps, next_unmaps, CacheState.next]
    · rw [hmemory]
      exact hopened.memory

/-- `Driver::write` of bytes of a block sets them, unless CMEM does not map them. -/
theorem write_live (os : HostOs) {buf : List UInt8} (hready : DriverReady c nomap s)
    (h : MemoryValid False c nomap d) (hmem : (addr, n) ∈ d.live) (hlo : addr ≤ a)
    (hlt : a < addr + n) (hhi : a + buf.length ≤ addr + n) (hfits : buf.length < 2 ^ 32) :
    os.cmemMap (UInt64.ofNat a) (UInt32.ofNat buf.length).toUInt64 = false ∧
      s.write os (UInt64.ofNat a) buf = none ∨
    ∃ t, s.write os (UInt64.ofNat a) buf = some t ∧ Leaves s t ∧
      t.host.memory = setBytes s.host.memory (physAddr a) buf := by
  have hlen : (UInt32.ofNat buf.length).toNat = buf.length := by
    rw [UInt32.toNat_ofNat']
    exact Nat.mod_eq_of_lt hfits
  obtain ⟨start, areaSize, hr, hregion, hholds⟩ := region_of_live hready.areas h hmem hlo hlt
  -- no block is in L2 memory
  have hl2 : UInt64.ofNat a >>> 20 ≠ 0x008 := by
    obtain ⟨hbase, hend⟩ := live_bounds h hmem
    intro heq
    have hshift := congrArg UInt64.toNat heq
    rw [UInt64.toNat_shiftRight, UInt64.toNat_ofNat', Nat.mod_eq_of_lt (by omega)] at hshift
    have hdiv : a / 2 ^ 20 = 8 := by
      rw [← Nat.shiftRight_eq_div_pow]
      exact hshift
    omega
  rcases map_ddrArea (UInt32.ofNat buf.length) s.host hholds hlo hlt (by rw [hlen]; exact hhi)
    (hready.mapped _ hr) false with ⟨hos, hnone⟩ | ⟨ptr, h', hmap, hopened⟩
  · left
    refine ⟨hos, ?_⟩
    simp only [DriverState.write, if_neg hl2, DriverState.writeCore, hregion, Option.bind_eq_bind,
      Option.bind_some, hnone, Option.bind_none]
  · right
    have hmapped : h'.Mapped ptr buf.length := hlen ▸ hopened.mapped
    obtain ⟨hmemory, hmappings, hcalls⟩ := unmap_ddrArea { h' with
      memory := setBytes h'.memory (ptr.mapping.phys + ptr.offset) buf
      calls := h'.calls ++ [.store ptr buf.length] } hopened.whole true
    simp only [DriverState.write, if_neg hl2, DriverState.writeCore, hregion, Option.bind_eq_bind,
      Option.bind_some, hmap, HostState.store, if_pos hmapped]
    refine ⟨_, rfl, ⟨rfl, ?_, ?_⟩, ?_⟩
    · rw [hmappings, hopened.mappings]
      exact diff_opens _ _ _
    · refine ⟨_, by rw [hcalls, hopened.calls, List.append_assoc, List.append_assoc], ?_⟩
      rw [hlen]
      simp [Coherent, List.foldlM_append, next_maps, next_unmaps, CacheState.next]
    · rw [hmemory, hopened.phys, hopened.memory]

/-- `CopyBuffer` copies bytes of one block to another place, unless CMEM does not map them. -/
theorem copy_live (os : HostOs) {addr' n' a' : Nat} {cb : UInt64} (hready : DriverReady c nomap s)
    (h : MemoryValid False c nomap d) (hmem : (addr, n) ∈ d.live) (hlo : addr ≤ a)
    (hlt : a < addr + n) (hhi : a + cb.toNat ≤ addr + n) (hmem' : (addr', n') ∈ d.live)
    (hlo' : addr' ≤ a') (hlt' : a' < addr' + n') (hhi' : a' + cb.toNat ≤ addr' + n')
    (hfits : cb.toNat < 2 ^ 32) (hne : physAddr a ≠ physAddr a') :
    (∃ a, os.cmemMap (UInt64.ofNat a) cb = false) ∧
      s.copyBuffer os (UInt64.ofNat a) (UInt64.ofNat a') cb = none ∨
    ∃ t, s.copyBuffer os (UInt64.ofNat a) (UInt64.ofNat a') cb = some t ∧ Leaves s t ∧
      t.host.memory = setBytes s.host.memory (physAddr a')
        (getBytes s.host.memory (physAddr a) cb.toNat) := by
  have hlen : cb.toUInt32.toNat = cb.toNat := by
    rw [UInt64.toNat_toUInt32]
    exact Nat.mod_eq_of_lt hfits
  have hcb : cb.toUInt32.toUInt64 = cb := by
    apply UInt64.toNat_inj.mp
    rw [UInt32.toNat_toUInt64, hlen]
  obtain ⟨start, areaSize, hr, hregion, hholds⟩ := region_of_live hready.areas h hmem hlo hlt
  obtain ⟨start', areaSize', hr', hregion', hholds'⟩ :=
    region_of_live hready.areas h hmem' hlo' hlt'
  rcases map_ddrArea cb.toUInt32 s.host hholds hlo hlt (by rw [hlen]; exact hhi)
    (hready.mapped _ hr) true with ⟨hos, hnone⟩ | ⟨ptr, h1, hmap, hopened⟩
  · left
    refine ⟨⟨a, hcb ▸ hos⟩, ?_⟩
    simp only [DriverState.copyBuffer, DriverState.map, hregion, Option.bind_eq_bind,
      Option.bind_some, hnone, Option.bind_none]
  rcases map_ddrArea cb.toUInt32 h1 hholds' hlo' hlt' (by rw [hlen]; exact hhi')
    (fun m hm => by
      rw [hopened.mappings]
      exact List.mem_append_right _ (hready.mapped _ hr' m hm)) false with
    ⟨hos, hnone⟩ | ⟨ptr', h2, hmap', hopened'⟩
  · left
    refine ⟨⟨a', hcb ▸ hos⟩, ?_⟩
    unfold DriverState.getMemoryRegion at hregion hregion'
    simp only [DriverState.copyBuffer, DriverState.map, DriverState.getMemoryRegion, hregion,
      hregion', Option.bind_eq_bind, Option.bind_some, hmap, hnone, Option.bind_none]
  right
  rw [hlen] at hopened hopened'
  have hload : h2.Mapped ptr cb.toNat := by
    refine ⟨?_, hopened.mapped.2⟩
    rw [hopened'.mappings]
    exact List.mem_append_right _ hopened.mapped.1
  have hget : (getBytes h2.memory (ptr.mapping.phys + ptr.offset) cb.toNat).length = cb.toNat := by
    simp [getBytes]
  have hstore : (h2.call (.load ptr cb.toNat)).Mapped ptr'
      (getBytes h2.memory (ptr.mapping.phys + ptr.offset) cb.toNat).length := by
    rw [hget]
    exact hopened'.mapped
  let h3 : HostState := { h2 with
    memory := setBytes h2.memory (ptr'.mapping.phys + ptr'.offset)
      (getBytes h2.memory (ptr.mapping.phys + ptr.offset) cb.toNat)
    calls := h2.calls ++ [.load ptr cb.toNat] ++ [.store ptr' cb.toNat] }
  obtain ⟨hmemory3, hmappings3, hcalls3⟩ := unmap_ddrArea h3 (hlen ▸ hopened.whole) false
  obtain ⟨hmemory4, hmappings4, hcalls4⟩ := unmap_ddrArea
    ((ddrArea start areaSize).unmap ptr cb.toUInt32 false h3) (hlen ▸ hopened'.whole) true
  have hrun : s.copyBuffer os (UInt64.ofNat a) (UInt64.ofNat a') cb = some { s with
      host := (ddrArea start' areaSize').unmap ptr' cb.toUInt32 true
        ((ddrArea start areaSize).unmap ptr cb.toUInt32 false h3) } := by
    unfold DriverState.getMemoryRegion at hregion hregion'
    simp only [DriverState.copyBuffer, DriverState.map, DriverState.unmap,
      DriverState.getMemoryRegion, hregion, hregion', Option.bind_eq_bind, Option.bind_some, hmap,
      hmap', HostState.load, if_pos hload, HostState.store, if_pos hstore]
    rw [hget]
    rfl
  refine ⟨_, hrun, ⟨rfl, ?_, ?_⟩, ?_⟩
  · rw [hmappings4, hmappings3]
    show ((h2.mappings.diff _).diff _) = _
    rw [hopened'.mappings, hopened.mappings]
    exact diff_two_opens _ _ _ _ _
  · have hptr : ptr ≠ ptr' := by
      rintro rfl
      exact hne (hopened.phys.symm.trans hopened'.phys)
    have hcalls2 : h3.calls = s.host.calls ++ (((ddrArea start areaSize).opens ptr).map .cmemMap ++
        [.cacheInv ptr cb.toNat] ++ ((ddrArea start' areaSize').opens ptr').map .cmemMap ++
        [.load ptr cb.toNat, .store ptr' cb.toNat]) := by
      show h2.calls ++ _ ++ _ = _
      rw [hopened'.calls, hopened.calls]
      simp only [if_true, Bool.false_eq_true, if_false, List.append_nil, List.append_assoc,
        List.cons_append, List.nil_append]
    refine ⟨_, by rw [hcalls4, hcalls3, hcalls2, List.append_assoc, List.append_assoc], ?_⟩
    rw [hlen]
    simp [Coherent, List.foldlM_append, next_maps, next_unmaps, CacheState.next, hptr]
  · rw [hmemory4, hmemory3]
    show setBytes h2.memory _ (getBytes h2.memory _ _) = _
    rw [hopened'.phys, hopened.phys, hopened'.memory, hopened.memory]

end Live

/-! ## Blocks and bytes -/

section Blocks

variable {c : CmemBlocks} {nomap : Bool} {d : DdrHeaps} {addr n addr' n' i j : Nat}

/-- In a block, what follows is behind what follows. -/
theorem phys_live (h : MemoryValid False c nomap d) (hmem : (addr, n) ∈ d.live) (hi : i < n) :
    physAddr (addr + i) = physAddr addr + i := by
  rcases mem_live.mp hmem with hmem | hmem | hmem
  · obtain ⟨hlo, hhi, -⟩ := h.heap1_bounds hmem
    dsimp only at hlo hhi
    rw [physAddr_low (by omega) (by omega), physAddr_low (by omega) (by omega)]
    omega
  · have hlo := (h.heap2_bounds hmem).1
    unfold dsp36BitAddr at hlo
    rw [physAddr_high (by omega), physAddr_high (by omega)]
  · have hlo := (h.heap3_bounds hmem).1
    unfold dsp36BitAddr at hlo
    rw [physAddr_high (by omega), physAddr_high (by omega)]

/-- Blocks at different addresses have no byte in common. -/
theorem apart_live (h : MemoryValid False c nomap d) (hmem : (addr, n) ∈ d.live)
    (hmem' : (addr', n') ∈ d.live) (hne : addr ≠ addr') (hi : i < n) (hj : j < n') :
    physAddr addr + i ≠ physAddr addr' + j := by
  have hsymm : Std.Symm fun b b' : Nat × Nat => Apart (physRange b) (physRange b') :=
    ⟨fun _ _ hapart => hapart.symm⟩
  have hapart := h.apart.forall hmem hmem' fun heq => hne (congrArg Prod.fst heq)
  simp only [Apart, physRange] at hapart
  omega

theorem setBytes_outside {memory : Nat → UInt8} {a b : Nat} {buf : List UInt8}
    (h : b < a ∨ a + buf.length ≤ b) : setBytes memory a buf b = memory b := by
  unfold setBytes
  split_ifs with hle
  · rw [List.getElem?_eq_none (by omega), Option.getD_none]
  · rfl

/-- The same bytes are set in a memory and in what a block of it holds. -/
theorem setBytes_shift {memory contents : Nat → UInt8} {p off : Nat} {buf : List UInt8}
    (h : memory (p + i) = contents i) :
    setBytes memory (p + off) buf (p + i) = setBytes contents off buf i := by
  unfold setBytes
  rw [Nat.add_sub_add_left, h]
  simp only [Nat.add_le_add_iff_left]

theorem getBytes_shift {memory contents : Nat → UInt8} {p off : Nat} {m : Nat}
    (h : ∀ i < n, memory (p + i) = contents i) (hle : off + m ≤ n) :
    getBytes memory (p + off) m = getBytes contents off m := by
  apply List.map_congr_left
  intro i hi
  rw [Nat.add_assoc]
  exact h _ (by have := List.mem_range.mp hi; omega)

/-- A new block is not at the address of another. -/
theorem Granted.ne_live {size : UInt64} {r : Nat × DdrHeaps} {m : Nat}
    (h : Granted False c nomap d size r) (hask : CanAskGlobal size) (hlarge : size.toNat ≤ m)
    (hperm : r.2.live.Perm ((r.1, m) :: d.live)) (hmem : (addr, n) ∈ d.live) (hn : 0 < n) :
    r.1 ≠ addr := by
  have hdisjoint := h.valid.apart.perm hperm fun hd => hd.symm
  have hfirst := (List.pairwise_cons.mp hdisjoint).1 _ hmem
  have hsize := hask.1
  rintro rfl
  simp only [Apart, physRange] at hfirst
  omega

end Blocks

/-! ## The store -/

/-- The device with its heaps and the driver; `contents` is what the buffers ought to hold. -/
structure StoreState where
  ddr : DdrHeaps
  driver : DriverState
  contents : Nat → Nat → UInt8

/-- What host and DSP do with blocks of memory; a block is given by its address and its length. -/
inductive StoreAction
  | malloc (size : UInt64) (prefer32bit : Bool)
  | free (addr : Nat)
  | write (block : Nat × Nat) (offset : Nat) (buf : List UInt8)
  | read (block : Nat × Nat) (offset : Nat) (size : UInt32)
  | copy (src : Nat × Nat) (srcOffset : Nat) (dst : Nat × Nat) (dstOffset : Nat) (cb : UInt64)
  | dsp (block : Nat × Nat) (offset : Nat) (value : UInt8)

/-- The bytes lie in a block that has been handed out. -/
def DdrHeaps.Within (d : DdrHeaps) (block : Nat × Nat) (offset size : Nat) : Prop :=
  block ∈ d.live ∧ offset < block.2 ∧ offset + size ≤ block.2

instance (d : DdrHeaps) (block : Nat × Nat) (offset size : Nat) :
    Decidable (d.Within block offset size) :=
  inferInstanceAs (Decidable (_ ∧ _ ∧ _))

def StoreState.setContents (s : StoreState) (addr offset : Nat) (buf : List UInt8) :
    Nat → Nat → UInt8 :=
  Function.update s.contents addr (setBytes (s.contents addr) offset buf)

def storeStep (os : HostOs) (s : StoreState) : StoreAction → Option StoreState
  | .malloc size prefer32bit =>
    if CanAskGlobal size then
      let r := s.ddr.mallocGlobal size prefer32bit
      some { s with
        ddr := r.2
        contents := Function.update s.contents r.1 fun i =>
          s.driver.host.memory (physAddr r.1 + i) }
    else none
  | .free addr => some { s with ddr := s.ddr.freeGlobal addr }
  | .write block offset buf =>
    if s.ddr.Within block offset buf.length ∧ buf.length < 2 ^ 32 then
      (s.driver.write os (UInt64.ofNat (block.1 + offset)) buf).map fun driver =>
        { s with driver := driver, contents := s.setContents block.1 offset buf }
    else none
  | .read block offset size =>
    if s.ddr.Within block offset size.toNat then
      (s.driver.read os (UInt64.ofNat (block.1 + offset)) size).map fun r =>
        { s with driver := r.2 }
    else none
  | .copy src srcOffset dst dstOffset cb =>
    if s.ddr.Within src srcOffset cb.toNat ∧ s.ddr.Within dst dstOffset cb.toNat ∧
        0 < cb.toNat ∧ cb.toNat < 2 ^ 32 ∧ (src.1 ≠ dst.1 ∨
          srcOffset + cb.toNat ≤ dstOffset ∨ dstOffset + cb.toNat ≤ srcOffset) then
      (s.driver.copyBuffer os (UInt64.ofNat (src.1 + srcOffset)) (UInt64.ofNat (dst.1 + dstOffset))
        cb).map fun driver =>
        { s with
          driver := driver
          contents := s.setContents dst.1 dstOffset
            (getBytes (s.contents src.1) srcOffset cb.toNat) }
    else none
  | .dsp block offset value =>
    if s.ddr.Within block offset 1 then
      some { s with
        driver := { s.driver with
          host := { s.driver.host with
            memory := setBytes s.driver.host.memory (physAddr (block.1 + offset)) [value] } }
        contents := s.setContents block.1 offset [value] }
    else none

/-- The store from the end of the constructor on, with the driver that it has configured. -/
def storeSystem (os : HostOs) (c : CmemBlocks) (nomap : Bool) (driver : DriverState) :
    LTS StoreState StoreAction :=
  ofStep (fun s => s = ⟨c.heaps nomap, driver, fun _ _ => 0⟩) (storeStep os)

/-- Heaps and driver are as their operations leave them, and the blocks hold what they ought to. -/
structure Stored (c : CmemBlocks) (nomap : Bool) (driver : DriverState) (s : StoreState) :
    Prop where
  valid : MemoryValid False c nomap s.ddr
  ready : DriverReady c nomap s.driver
  mappings : s.driver.host.mappings = driver.host.mappings
  coherent : Coherent s.driver.host.calls
  holds : ∀ addr n, (addr, n) ∈ s.ddr.live → ∀ i < n,
    s.driver.host.memory (physAddr addr + i) = s.contents addr i

section Store

variable {os : HostOs} {c : CmemBlocks} {nomap : Bool} {driver : DriverState} {s t : StoreState}

/-- An access through the driver that leaves in the memory what the blocks ought to hold. -/
theorem Stored.leaves (h : Stored c nomap driver s) {driver' : DriverState}
    {contents : Nat → Nat → UInt8} (hleaves : Leaves s.driver driver')
    (hholds : ∀ addr n, (addr, n) ∈ s.ddr.live → ∀ i < n,
      driver'.host.memory (physAddr addr + i) = contents addr i) :
    Stored c nomap driver { s with driver := driver', contents := contents } := by
  obtain ⟨calls, hcalls, hcoherent⟩ := hleaves.calls
  exact ⟨h.valid, h.ready.leaves hleaves, hleaves.mappings.trans h.mappings,
    hcalls ▸ h.coherent.append hcoherent, hholds⟩

/-- Bytes that are set in one block are set in what it ought to hold, and in no other block. -/
theorem Stored.set_holds (h : Stored c nomap driver s) {block : Nat × Nat} {offset : Nat}
    {buf : List UInt8} (hin : s.ddr.Within block offset buf.length) (addr n : Nat)
    (hmem : (addr, n) ∈ s.ddr.live) (i : Nat) (hi : i < n) :
    setBytes s.driver.host.memory (physAddr (block.1 + offset)) buf (physAddr addr + i) =
      s.setContents block.1 offset buf addr i := by
  obtain ⟨hblock, hlt, hle⟩ := hin
  rw [phys_live h.valid hblock hlt, StoreState.setContents]
  by_cases hsame : addr = block.1
  · subst hsame
    rw [Function.update_self]
    exact setBytes_shift (h.holds _ n hmem i hi)
  · rw [Function.update_of_ne hsame, setBytes_outside, h.holds addr n hmem i hi]
    by_contra hinside
    have hapart := apart_live (j := physAddr addr + i - physAddr block.1) h.valid hmem hblock hsame
      hi (by omega)
    omega

theorem Stored.step {act : StoreAction} (h : Stored c nomap driver s)
    (hstep : storeStep os s act = some t) : Stored c nomap driver t := by
  cases act with
  | malloc size prefer32bit =>
    simp only [storeStep] at hstep
    split at hstep
    · rename_i hask
      cases hstep
      rcases mallocGlobal_cases h.valid hask prefer32bit with ⟨-, hzero⟩ | ⟨-, hgrant⟩
      · -- no block is at address 0
        rw [hzero]
        refine ⟨h.valid, h.ready, h.mappings, h.coherent, fun addr n hmem i hi => ?_⟩
        have hlo := (live_bounds h.valid hmem).1
        dsimp only
        rw [Function.update_of_ne (by omega)]
        exact h.holds addr n hmem i hi
      · obtain ⟨m, hlarge, hperm⟩ := hgrant.block
        refine ⟨hgrant.valid, h.ready, h.mappings, h.coherent, fun addr n hmem i hi => ?_⟩
        dsimp only at hmem ⊢
        rcases List.mem_cons.mp (hperm.subset hmem) with heq | hold
        · cases heq
          rw [Function.update_self]
        · have hne := hgrant.ne_live hask hlarge hperm hold (Nat.zero_lt_of_lt hi)
          rw [Function.update_of_ne hne.symm]
          exact h.holds addr n hold i hi
    · cases hstep
  | free addr =>
    cases hstep
    refine ⟨h.valid.freeGlobal_valid False.elim, h.ready, h.mappings, h.coherent,
      fun addr' n hmem i hi => h.holds addr' n ?_ i hi⟩
    by_cases hlive : ∃ m, (addr, m) ∈ s.ddr.live
    · obtain ⟨m, hm⟩ := hlive
      exact (h.valid.freeGlobal_perm hm).symm.subset (List.mem_cons_of_mem _ hmem)
    · rwa [freeGlobal_other (not_exists.mp hlive)] at hmem
  | write block offset buf =>
    simp only [storeStep] at hstep
    split at hstep
    · rename_i hask
      obtain ⟨⟨hblock, hlt, hle⟩, hfits⟩ := hask
      obtain ⟨driver', hwrite, rfl⟩ := Option.map_eq_some_iff.mp hstep
      rcases write_live os h.ready h.valid hblock (Nat.le_add_right _ offset) (by omega)
        (by omega) hfits with ⟨-, hnone⟩ | ⟨u, hsome, hleaves, hmemory⟩
      · cases hwrite.symm.trans hnone
      · cases hwrite.symm.trans hsome
        refine h.leaves hleaves fun addr n hmem i hi => ?_
        rw [hmemory]
        exact h.set_holds ⟨hblock, hlt, hle⟩ addr n hmem i hi
    · cases hstep
  | read block offset size =>
    simp only [storeStep] at hstep
    split at hstep
    · rename_i hask
      obtain ⟨hblock, hlt, hle⟩ := hask
      obtain ⟨r, hread, rfl⟩ := Option.map_eq_some_iff.mp hstep
      rcases read_live os size h.ready h.valid hblock (Nat.le_add_right _ offset) (by omega)
        (by omega) with ⟨-, hnone⟩ | ⟨u, hsome, hleaves, hmemory⟩
      · cases hread.symm.trans hnone
      · cases hread.symm.trans hsome
        refine h.leaves hleaves fun addr n hmem i hi => ?_
        rw [hmemory]
        exact h.holds addr n hmem i hi
    · cases hstep
  | copy src srcOffset dst dstOffset cb =>
    simp only [storeStep] at hstep
    split at hstep
    · rename_i hask
      obtain ⟨⟨hsrc, hlt, hle⟩, ⟨hdst, hlt', hle'⟩, hpos, hfits, hover⟩ := hask
      obtain ⟨driver', hcopy, rfl⟩ := Option.map_eq_some_iff.mp hstep
      have hne : physAddr (src.1 + srcOffset) ≠ physAddr (dst.1 + dstOffset) := by
        rw [phys_live h.valid hsrc hlt, phys_live h.valid hdst hlt']
        by_cases hsame : src.1 = dst.1
        · rw [hsame]
          omega
        · exact apart_live h.valid hsrc hdst hsame hlt hlt'
      rcases copy_live os h.ready h.valid hsrc (Nat.le_add_right _ srcOffset) (by omega) (by omega)
        hdst (Nat.le_add_right _ dstOffset) (by omega) (by omega) hfits hne with
        ⟨-, hnone⟩ | ⟨u, hsome, hleaves, hmemory⟩
      · cases hcopy.symm.trans hnone
      · cases hcopy.symm.trans hsome
        have hbytes : getBytes s.driver.host.memory (physAddr (src.1 + srcOffset)) cb.toNat =
            getBytes (s.contents src.1) srcOffset cb.toNat := by
          rw [phys_live h.valid hsrc hlt]
          exact getBytes_shift (h.holds src.1 src.2 hsrc) hle
        refine h.leaves hleaves fun addr n hmem i hi => ?_
        rw [hmemory, hbytes]
        refine h.set_holds ⟨hdst, hlt', ?_⟩ addr n hmem i hi
        rw [getBytes, List.length_map, List.length_range]
        exact hle'
    · cases hstep
  | dsp block offset value =>
    simp only [storeStep] at hstep
    split at hstep
    · rename_i hask
      cases hstep
      exact ⟨h.valid, ⟨h.ready.areas, h.ready.mapped⟩, h.mappings, h.coherent,
        h.set_holds hask⟩
    · cases hstep

end Store

/-- The driver and the heaps make a store: a read of bytes of a buffer gives what was written to
these bytes last, a write of bytes of a buffer does not fail, unless CMEM does not map them; nothing
stays mapped, and what is read from and written to the cache is kept coherent. -/
structure StoreSafe (os : HostOs) (c : CmemBlocks) (nomap : Bool) (driver : DriverState)
    (s : StoreState) : Prop where
  reads : ∀ block offset (size : UInt32), s.ddr.Within block offset size.toNat →
    os.cmemMap (UInt64.ofNat (block.1 + offset)) size.toUInt64 = false ∧
      s.driver.read os (UInt64.ofNat (block.1 + offset)) size = none ∨
    ∃ t, s.driver.read os (UInt64.ofNat (block.1 + offset)) size =
      some (getBytes (s.contents block.1) offset size.toNat, t)
  writes : ∀ block offset (buf : List UInt8), s.ddr.Within block offset buf.length →
    buf.length < 2 ^ 32 →
    os.cmemMap (UInt64.ofNat (block.1 + offset)) (UInt32.ofNat buf.length).toUInt64 = false ∧
      s.driver.write os (UInt64.ofNat (block.1 + offset)) buf = none ∨
    ∃ t, s.driver.write os (UInt64.ofNat (block.1 + offset)) buf = some t
  memory : MemorySafe c nomap s.ddr
  mappings : s.driver.host.mappings = driver.host.mappings
  coherent : Coherent s.driver.host.calls

section Runs

variable {os : HostOs} {c : CmemBlocks} {nomap : Bool} {l : DeviceLayout} {memory : Nat → UInt8}
  {driver : DriverState} {s : StoreState}

theorem stored_reachable
    (hconf : DriverState.configureDevice os c nomap l ⟨[], [], memory, []⟩ = some driver)
    (h : Reachable (storeSystem os c nomap driver) s) : Stored c nomap driver s := by
  refine h.invariant (fun s hi => ?_) fun s act t _ hstored hstep => hstored.step hstep
  obtain rfl : s = _ := hi
  obtain ⟨hareas, hmapped, ms, hcalls⟩ := configureDevice_areas hconf
  refine ⟨memoryValid_heaps _ _ _, ⟨hareas, hmapped⟩, rfl, ?_, fun addr n hmem => ?_⟩
  · dsimp only
    rw [hcalls]
    exact next_maps _ ms
  · have hnone : (c.heaps nomap).live = [] := rfl
    rw [hnone] at hmem
    cases hmem

/-- Everything can be opened and mapped. -/
def grantingOs : HostOs := ⟨4096, fun _ => true, fun _ _ => true, fun _ _ => true⟩

def smallLayout : DeviceLayout where
  addrMsmcMem := 0x0C040000
  sizeMsmcMem := 0x4C0000
  addrMboxD2h := 0x0C000000
  sizeMboxD2h := 0x1000
  addrMboxH2d := 0x0C001000
  sizeMboxH2d := 0x1000
  addrLocalMem := 0x00820000
  sizeLocalMem := 0x20000

end Runs

end Shamrock.Dsp
