import Shamrock.Dsp.HeapRuns
import Shamrock.Dsp.KernelRun

/-!
# How the memory is divided

`Driver::split_ddr_memory` cuts the block that CMEM gives into a part that stays mapped, whose
addresses have 32 bits, and a part that is mapped on demand.
-/
namespace Shamrock.Dsp

def mpaxUserMappedDspAddr : UInt64 := 0x840000000
def allPersistentMaxDspAddr : UInt64 := 0x880000000

structure DdrSplit where
  addr1 : UInt64
  size1 : UInt64
  addr2 : UInt64
  size2 : UInt64
  size3 : UInt64
  deriving DecidableEq, Repr

/-- `Driver::split_ddr_memory`; `nomap` says that `TI_OCL_DSP_NOMAP` is set. -/
def splitDdrMemory (nomap : Bool) (addr size size3 : UInt64) : DdrSplit :=
  let s : DdrSplit := ⟨addr, size, 0, 0, size3⟩
  let s :=
    if nomap then { s with size3 := 0 }
    else if allPersistentMaxDspAddr < addr + size ∨
        0 < size3 ∧ mpaxUserMappedDspAddr < addr + size then
      let size2 := addr + size - mpaxUserMappedDspAddr
      { s with
        size1 := size - size2
        addr2 := addr + (size - size2)
        size2 := size2 }
    else s
  if dsp36BitAddr < addr.toNat then
    let ddrSizeLimit := allPersistentMaxDspAddr - addr
    { s with
      addr1 := addr + 0xA0000000 - 0x820000000
      size1 := if ddrSizeLimit < s.size1 then ddrSizeLimit else s.size1 }
  else s

/-- The blocks of CMEM for DDR. There may be no second one; then its size is 0. They begin behind
what Linux keeps, the first where it is still mapped, and end within 36 bits. -/
structure CmemBlocks where
  addr : UInt64
  size : UInt64
  addr3 : UInt64
  size3 : UInt64
  begins : 0x820000000 ≤ addr.toNat
  mapped : addr < mpaxUserMappedDspAddr
  ends : addr.toNat + size.toNat ≤ 2 ^ 36
  begins3 : 0 < size3 → dsp36BitAddr ≤ addr3.toNat
  ends3 : addr3.toNat + size3.toNat ≤ 2 ^ 36
  apart : 0 < size3 →
    addr.toNat + size.toNat ≤ addr3.toNat ∨ addr3.toNat + size3.toNat ≤ addr.toNat

/-- The physical address behind an address of the device. -/
def physAddr (addr : Nat) : Nat :=
  if 0xA0000000 ≤ addr ∧ addr < 2 ^ 32 then addr - 0xA0000000 + 0x820000000 else addr

def CmemBlocks.split (c : CmemBlocks) (nomap : Bool) : DdrSplit :=
  splitDdrMemory nomap c.addr c.size c.size3

variable (c : CmemBlocks) (nomap : Bool)

/-- The part that stays mapped begins where the block does. -/
theorem split_addr1 : (c.split nomap).addr1.toNat + 0x780000000 = c.addr.toNat := by
  have hbegin := c.begins
  have hmapped := UInt64.lt_iff_toNat_lt.mp c.mapped
  have hlimit : mpaxUserMappedDspAddr.toNat = 0x840000000 := rfl
  have hwide : dsp36BitAddr < c.addr.toNat := by
    unfold dsp36BitAddr
    omega
  have haddr : (c.split nomap).addr1 = c.addr + 0xA0000000 - 0x820000000 := by
    unfold CmemBlocks.split splitDdrMemory
    rw [if_pos hwide]
  have hlow : (0xA0000000 : UInt64).toNat = 0xA0000000 := rfl
  have hhigh : (0x820000000 : UInt64).toNat = 0x820000000 := rfl
  rw [haddr, UInt64.toNat_sub, UInt64.toNat_add, hlow, hhigh]
  omega

/-- The second part is empty, or begins where the memory is no longer mapped. -/
theorem split_sizes :
    (c.split nomap).size2 = 0 ∧ (nomap = false → c.addr.toNat + c.size.toNat ≤ 0x880000000) ∧
      (c.split nomap).size1.toNat = min c.size.toNat (0x880000000 - c.addr.toNat) ∨
    nomap = false ∧ 0x840000000 < c.addr.toNat + c.size.toNat ∧
      (c.split nomap).addr2.toNat = 0x840000000 ∧
      (c.split nomap).size2.toNat = c.addr.toNat + c.size.toNat - 0x840000000 ∧
      (c.split nomap).size1.toNat = 0x840000000 - c.addr.toNat := by
  have hbegin := c.begins
  have hends := c.ends
  have hmapped := UInt64.lt_iff_toNat_lt.mp c.mapped
  have hlimit : mpaxUserMappedDspAddr.toNat = 0x840000000 := rfl
  have hmax : allPersistentMaxDspAddr.toNat = 0x880000000 := rfl
  have hwide : dsp36BitAddr < c.addr.toNat := by
    unfold dsp36BitAddr
    omega
  have hsum : (c.addr + c.size).toNat = c.addr.toNat + c.size.toNat := by
    rw [UInt64.toNat_add]
    omega
  have hroom : (allPersistentMaxDspAddr - c.addr).toNat = 0x880000000 - c.addr.toNat := by
    rw [UInt64.toNat_sub, hmax]
    omega
  have hcut : ∀ n : UInt64, (if allPersistentMaxDspAddr - c.addr < n then
      allPersistentMaxDspAddr - c.addr else n).toNat =
        min n.toNat (0x880000000 - c.addr.toNat) := by
    intro n
    split_ifs with hlt
    · rw [UInt64.lt_iff_toNat_lt, hroom] at hlt
      omega
    · rw [UInt64.lt_iff_toNat_lt, hroom] at hlt
      omega
  unfold CmemBlocks.split splitDdrMemory
  simp only [if_pos hwide]
  cases nomap with
  | true => exact Or.inl ⟨rfl, nofun, hcut _⟩
  | false =>
    by_cases hsplit : allPersistentMaxDspAddr < c.addr + c.size ∨
        0 < c.size3 ∧ mpaxUserMappedDspAddr < c.addr + c.size
    · have hover : 0x840000000 < c.addr.toNat + c.size.toNat := by
        rcases hsplit with hlt | ⟨-, hlt⟩
        · rw [UInt64.lt_iff_toNat_lt, hsum, hmax] at hlt
          omega
        · rwa [UInt64.lt_iff_toNat_lt, hsum, hlimit] at hlt
      have hsize2 : (c.addr + c.size - mpaxUserMappedDspAddr).toNat =
          c.addr.toNat + c.size.toNat - 0x840000000 := by
        rw [UInt64.toNat_sub, hsum, hlimit]
        omega
      have hsize1 : (c.size - (c.addr + c.size - mpaxUserMappedDspAddr)).toNat =
          0x840000000 - c.addr.toNat := by
        rw [UInt64.toNat_sub, hsize2]
        omega
      refine Or.inr ⟨rfl, hover, ?_⟩
      simp only [Bool.false_eq_true, if_false, if_pos hsplit]
      refine ⟨?_, hsize2, ?_⟩
      · rw [UInt64.toNat_add, hsize1]
        omega
      · rw [hcut, hsize1]
        omega
    · have hunder : c.addr.toNat + c.size.toNat ≤ 0x880000000 := by
        by_contra hlt
        refine hsplit (Or.inl ?_)
        rw [UInt64.lt_iff_toNat_lt, hsum, hmax]
        omega
      refine Or.inl ⟨?_, fun _ => hunder, ?_⟩
      · simp only [Bool.false_eq_true, if_false, if_neg hsplit]
      · simp only [Bool.false_eq_true, if_false, if_neg hsplit]
        exact hcut _

/-- The ranges of the three heaps, as addresses of the device. -/
def DdrSplit.range1 (s : DdrSplit) : Nat × Nat := (s.addr1.toNat, s.size1.toNat)
def DdrSplit.range2 (s : DdrSplit) : Nat × Nat := (s.addr2.toNat, s.size2.toNat)
def CmemBlocks.range3 (c : CmemBlocks) (nomap : Bool) : Nat × Nat :=
  (c.addr3.toNat, (c.split nomap).size3.toNat)

/-- The physical memory of a range. -/
def physRange (r : Nat × Nat) : Nat × Nat := (physAddr r.1, r.2)

/-- `b` lies in `r`. -/
def Inside (b r : Nat × Nat) : Prop := r.1 ≤ b.1 ∧ b.1 + b.2 ≤ r.1 + r.2

/-- How the ranges of the heaps lie: the first has addresses of 32 bits, the others have addresses
of more. They are parts of the blocks of CMEM that do not overlap, and unless `nomap` is set the
first two make up the first block. -/
structure SplitSafe (c : CmemBlocks) (nomap : Bool) : Prop where
  low : 0xA0000000 ≤ (c.split nomap).range1.1 ∧
    (c.split nomap).range1.1 + (c.split nomap).range1.2 ≤ 2 ^ 32
  high2 : 0 < (c.split nomap).range2.2 → dsp36BitAddr ≤ (c.split nomap).range2.1
  high3 : 0 < (c.range3 nomap).2 → dsp36BitAddr ≤ (c.range3 nomap).1
  inside1 : Inside (physRange (c.split nomap).range1) (c.addr.toNat, c.size.toNat)
  inside2 : 0 < (c.split nomap).range2.2 →
    Inside (c.split nomap).range2 (c.addr.toNat, c.size.toNat)
  inside3 : (c.range3 nomap).2 = 0 ∨ (c.range3 nomap).2 = c.size3.toNat
  apart12 : 0 < (c.split nomap).range2.2 →
    Apart (physRange (c.split nomap).range1) (c.split nomap).range2
  apart13 : 0 < (c.range3 nomap).2 →
    Apart (physRange (c.split nomap).range1) (c.range3 nomap)
  apart23 : 0 < (c.split nomap).range2.2 → 0 < (c.range3 nomap).2 →
    Apart (c.split nomap).range2 (c.range3 nomap)
  total : nomap = false →
    (c.split nomap).range1.2 + (c.split nomap).range2.2 = c.size.toNat

theorem split_size3 : (c.split nomap).size3 = if nomap then 0 else c.size3 := by
  unfold CmemBlocks.split splitDdrMemory
  cases nomap <;> dsimp only [Bool.false_eq_true, if_false] <;> split_ifs <;> rfl

/-- Addresses of the first heap that have 32 bits stand for memory at `0x820000000`. -/
theorem physAddr_low {addr : Nat} (hlow : 0xA0000000 ≤ addr) (hlt : addr < 2 ^ 32) :
    physAddr addr = addr + 0x780000000 := by
  rw [physAddr, if_pos ⟨hlow, hlt⟩]
  omega

theorem physAddr_high {addr : Nat} (hhigh : 2 ^ 32 ≤ addr) : physAddr addr = addr :=
  if_neg fun h => absurd h.2 (Nat.not_lt.mpr hhigh)

/-- The heaps divide the memory of CMEM. -/
theorem split_safe : SplitSafe c nomap := by
  have hbegin := c.begins
  have hends := c.ends
  have hmapped : c.addr.toNat < 0x840000000 := UInt64.lt_iff_toNat_lt.mp c.mapped
  have haddr1 := split_addr1 c nomap
  have hsizes := split_sizes c nomap
  have hthird : (c.split nomap).size3 = 0 ∨ (c.split nomap).size3 = c.size3 := by
    rw [split_size3]
    cases nomap <;> simp
  have hlow : physAddr (c.split nomap).addr1.toNat = c.addr.toNat := by
    rw [physAddr_low (by omega) (by omega)]
    exact haddr1
  have hcut : (c.split nomap).size1.toNat ≤ c.size.toNat ∧
      (c.split nomap).addr1.toNat + (c.split nomap).size1.toNat ≤ 2 ^ 32 := by
    rcases hsizes with ⟨-, -, hsize1⟩ | ⟨-, hover, -, -, hsize1⟩ <;> omega
  have hsecond : 0 < (c.split nomap).size2.toNat →
      (c.split nomap).addr2.toNat = 0x840000000 ∧
      0x840000000 + (c.split nomap).size2.toNat = c.addr.toNat + c.size.toNat ∧
      (c.split nomap).size1.toNat = 0x840000000 - c.addr.toNat := by
    intro hpos
    rcases hsizes with ⟨hzero, -⟩ | ⟨-, hover, haddr2, hsize2, hsize1⟩
    · rw [hzero] at hpos
      exact absurd hpos (Nat.lt_irrefl 0)
    · exact ⟨haddr2, by omega, hsize1⟩
  have hblock3 : 0 < (c.split nomap).size3.toNat → 0 < c.size3 ∧
      (c.split nomap).size3.toNat = c.size3.toNat := by
    intro hpos
    rcases hthird with hzero | hsame
    · rw [hzero] at hpos
      exact absurd hpos (Nat.lt_irrefl 0)
    · rw [hsame] at hpos ⊢
      exact ⟨hpos, rfl⟩
  refine ⟨⟨?_, hcut.2⟩, fun hpos => ?_, fun hpos => ?_, ⟨?_, ?_⟩, fun hpos => ⟨?_, ?_⟩, ?_,
    fun hpos => ?_, fun hpos => ?_, fun hpos hpos3 => ?_, fun hmap => ?_⟩
  · show 0xA0000000 ≤ (c.split nomap).addr1.toNat
    omega
  · have haddr2 := (hsecond hpos).1
    show dsp36BitAddr ≤ (c.split nomap).addr2.toNat
    rw [haddr2]
    decide
  · exact c.begins3 (hblock3 hpos).1
  · exact Nat.le_of_eq hlow.symm
  · show physAddr (c.split nomap).addr1.toNat + (c.split nomap).size1.toNat ≤ _
    rw [hlow]
    exact Nat.add_le_add_left hcut.1 _
  · show c.addr.toNat ≤ (c.split nomap).addr2.toNat
    have haddr2 := (hsecond hpos).1
    omega
  · show (c.split nomap).addr2.toNat + (c.split nomap).size2.toNat ≤ _
    obtain ⟨haddr2, hend, -⟩ := hsecond hpos
    rw [haddr2]
    exact Nat.le_of_eq hend
  · show (c.split nomap).size3.toNat = 0 ∨ (c.split nomap).size3.toNat = c.size3.toNat
    rcases hthird with hzero | hsame
    · exact Or.inl (by rw [hzero]; rfl)
    · exact Or.inr (by rw [hsame])
  · obtain ⟨haddr2, -, hsize1⟩ := hsecond hpos
    refine Or.inl ?_
    show physAddr (c.split nomap).addr1.toNat + (c.split nomap).size1.toNat ≤
      (c.split nomap).addr2.toNat
    omega
  · obtain ⟨hsome, hsame⟩ := hblock3 hpos
    show physAddr (c.split nomap).addr1.toNat + (c.split nomap).size1.toNat ≤ c.addr3.toNat ∨
      c.addr3.toNat + (c.split nomap).size3.toNat ≤ physAddr (c.split nomap).addr1.toNat
    have hapart := c.apart hsome
    omega
  · obtain ⟨hsome, hsame⟩ := hblock3 hpos3
    obtain ⟨haddr2, hend, -⟩ := hsecond hpos
    show (c.split nomap).addr2.toNat + (c.split nomap).size2.toNat ≤ c.addr3.toNat ∨
      c.addr3.toNat + (c.split nomap).size3.toNat ≤ (c.split nomap).addr2.toNat
    have hapart := c.apart hsome
    omega
  · show (c.split nomap).size1.toNat + (c.split nomap).size2.toNat = c.size.toNat
    rcases hsizes with ⟨hzero, hunder, hsize1⟩ | ⟨-, hover, -, hsize2, hsize1⟩
    · have hfits := hunder hmap
      have hnone : (c.split nomap).size2.toNat = 0 := by rw [hzero]; rfl
      omega
    · omega

end Shamrock.Dsp
