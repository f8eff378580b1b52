import Shamrock.Dsp.DdrSplit
import Mathlib.Data.List.Perm.Basic

/-!
# The memory of the device

`malloc_global` and `free_global` over the three heaps that `split_ddr_memory` divides the memory
into.
-/
namespace Shamrock.Dsp

open Segments Transition

/-- The heaps as the constructor of `DSPDevice` configures them. -/
def CmemBlocks.heaps (c : CmemBlocks) (nomap : Bool) : DdrHeaps where
  heap1 := Heap.new.configure (c.split nomap).range1.1 (c.split nomap).range1.2 false
  heap2 := Heap.new.configure (c.split nomap).range2.1 (c.split nomap).range2.2 true
  heap3 := Heap.new.configure (c.range3 nomap).1 (c.range3 nomap).2 true

inductive MemoryAction
  | mallocGlobal (size : UInt64) (prefer32bit : Bool)
  | freeGlobal (addr : Nat)
  deriving DecidableEq, Repr

/-- The sizes that can be rounded up to blocks of any of the heaps. -/
def CanAskGlobal (size : UInt64) : Prop := 1 ≤ size.toNat ∧ size.toNat ≤ 2 ^ 32 - 4096

instance (size : UInt64) : Decidable (CanAskGlobal size) :=
  inferInstanceAs (Decidable (1 ≤ size.toNat ∧ size.toNat ≤ 2 ^ 32 - 4096))

def memoryStep (d : DdrHeaps) : MemoryAction → Option DdrHeaps
  | .mallocGlobal size prefer32bit =>
    if CanAskGlobal size then some (d.mallocGlobal size prefer32bit).2 else none
  | .freeGlobal addr => some (d.freeGlobal addr)

def memorySystem (c : CmemBlocks) (nomap : Bool) : LTS DdrHeaps MemoryAction :=
  ofStep (fun d => d = c.heaps nomap) memoryStep

namespace DdrHeaps

/-- The blocks that have been handed out. -/
def live (d : DdrHeaps) : BlockList :=
  d.heap1.allocList ++ d.heap2.allocList ++ d.heap3.allocList

/-- The heaps that are asked for a size have no room for it. -/
def Exhausted (d : DdrHeaps) (size : UInt64) (prefer32bit : Bool) : Prop :=
  d.heap1.malloc size.toUInt32 = none ∧
    (prefer32bit = false → d.heap2.malloc size.toUInt32 = none ∧
      d.heap3.malloc size.toUInt32 = none)

end DdrHeaps

/-! ## One heap -/

section OneHeap

variable {startAddr length : Nat} {hp hp' : Heap} {size : UInt32} {addr n : Nat} {lossless : Prop}

/-- A heap as its operations leave it, without lost blocks if no merged block has been too long. -/
structure HeapValid (lossless : Prop) (startAddr length : Nat) (hp : Heap) : Prop where
  sized : BlockSized hp
  layout : ∃ segs, Represents startAddr length hp segs ∧ (lossless → NoneLost segs)

theorem heapValid_configure (lossless : Prop) (startAddr length : Nat) (onDemand : Bool) :
    HeapValid lossless startAddr length (Heap.new.configure startAddr length onDemand) where
  sized := blockSized_configure
  layout := ⟨_, represents_configure, fun _ => by simp [NoneLost]⟩

theorem HeapValid.step {act : HeapAction} (hwrap : startAddr + length < 2 ^ 64)
    (h : HeapValid lossless startAddr length hp) (hstep : heapStep hp act = some hp')
    (hfits : lossless → MergeFits hp act) : HeapValid lossless startAddr length hp' := by
  obtain ⟨hsize, segs, hrep, hlost⟩ := h
  obtain ⟨segs', hrep', hlost'⟩ := represents_step hwrap hsize hrep hstep
  refine ⟨?_, segs', hrep', fun hl => hlost' (hlost hl) (hfits hl)⟩
  rw [BlockSized, blockSize_step hstep]
  exact hsize

theorem HeapValid.free_valid (h : HeapValid lossless startAddr length hp)
    (hwrap : startAddr + length < 2 ^ 64) (hfits : lossless → MergeFits hp (.free addr)) :
    HeapValid lossless startAddr length (hp.free addr).2 :=
  h.step hwrap (show heapStep hp (.free addr) = _ from rfl) hfits

/-- A block lies in the range of its heap and is not empty. -/
theorem HeapValid.mem_bounds (h : HeapValid lossless startAddr length hp) {b : Nat × Nat}
    (hmem : b ∈ hp.allocList) :
    startAddr ≤ b.1 ∧ b.1 + b.2 ≤ startAddr + length ∧ 0 < b.2 := by
  obtain ⟨-, segs, hrep, -⟩ := h
  rw [hrep.alloc] at hmem
  obtain ⟨hlo, hhi⟩ := blocks_bounds hmem
  rw [hrep.total] at hhi
  exact ⟨hlo, hhi, hrep.layout.used _ (exists_segment hmem) (by simp)⟩

theorem set_perm {l : BlockList} (hnew : ∀ b ∈ l, b.1 ≠ addr) :
    (BlockList.set addr n l).Perm ((addr, n) :: l) := by
  induction l with
  | nil => exact List.Perm.refl _
  | cons b l ih =>
    have hb : addr ≠ b.1 := fun heq => hnew b List.mem_cons_self heq.symm
    have hrest := ih fun c hc => hnew c (List.mem_cons_of_mem _ hc)
    simp only [BlockList.set, if_neg hb]
    split
    · exact List.Perm.refl _
    · exact (hrest.cons b).trans (List.Perm.swap _ _ _)

/-- What one heap answers: nothing and no change, or a new block that is large enough. -/
theorem HeapValid.malloc_cases (hwrap : startAddr + length < 2 ^ 64)
    (h : HeapValid lossless startAddr length hp) (hask : hp.CanAsk size) :
    hp.malloc size = none ∧ hp.mallocOrZero size = (0, hp) ∨
    ∃ addr n hp', hp.malloc size = some (addr, hp') ∧ hp.mallocOrZero size = (addr, hp') ∧
      HeapValid lossless startAddr length hp' ∧ size.toNat ≤ n ∧
      hp'.allocList.Perm ((addr, n) :: hp.allocList) := by
  cases hcall : hp.malloc size with
  | none => exact Or.inl ⟨rfl, by simp [Heap.mallocOrZero, hcall]⟩
  | some r =>
    rcases r with ⟨addr, hp'⟩
    obtain ⟨l₁, m, l₂, hfree, hle, -, halloc⟩ := malloc_split rfl hcall
    have hstep : heapStep hp (.malloc size) = some hp' := by simp [heapStep, hask, hcall]
    refine Or.inr ⟨addr, _, hp', rfl, by simp [Heap.mallocOrZero, hcall],
      h.step hwrap hstep fun _ => trivial, h.sized.le_roundUp hask, ?_⟩
    rw [halloc]
    apply set_perm
    rintro ⟨a, k⟩ hb rfl
    -- the block was free, so no other one begins there
    have hpos := (h.mem_bounds hb).2.2
    obtain ⟨-, segs, hrep, -⟩ := id h
    have hroom : 0 < (roundUp size hp.blockSize).toNat :=
      Nat.lt_of_lt_of_le hask.1 (h.sized.le_roundUp hask)
    rcases hrep.safe h.sized |>.free (a, k) hb (a, m) (by simp [hfree]) with hlt | hlt
    · dsimp only at hlt hpos
      omega
    · dsimp only at hlt hle
      omega

/-- The blocks stand in the order of their addresses. -/
theorem HeapValid.sorted (h : HeapValid lossless startAddr length hp) :
    hp.allocList.Pairwise fun b b' => b.1 < b'.1 := by
  obtain ⟨-, segs, hrep, -⟩ := id h
  have hle : hp.allocList.Pairwise fun b b' => b.1 + b.2 ≤ b'.1 := by
    rw [hrep.alloc]
    exact blocks_pairwise _ _ _
  apply hle.imp_of_mem
  intro b b' hb _ hlt
  have hpos := (h.mem_bounds hb).2.2
  omega

/-- A block that has been handed out is taken back. -/
theorem HeapValid.free_perm (h : HeapValid lossless startAddr length hp)
    (hmem : (addr, n) ∈ hp.allocList) :
    (hp.free addr).1 = 0 ∧ hp.allocList.Perm ((addr, n) :: (hp.free addr).2.allocList) := by
  cases hfind : hp.allocList.find addr with
  | none =>
    simp only [BlockList.find, Option.map_eq_none_iff, List.find?_eq_none] at hfind
    exact absurd (decide_eq_true rfl) (hfind (addr, n) hmem)
  | some k =>
    obtain ⟨l₁, l₂, halloc, halloc', -⟩ := free_split hfind
    have hsame : n = k := by
      have hsorted := h.sorted
      rw [halloc] at hmem hsorted
      obtain ⟨-, hright, hleft⟩ := List.pairwise_append.mp hsorted
      rcases List.mem_append.mp hmem with hin | hin
      · exact absurd (hleft _ hin _ List.mem_cons_self) (Nat.lt_irrefl _)
      · rcases List.mem_cons.mp hin with heq | hin
        · exact (Prod.mk.inj heq).2
        · exact absurd ((List.pairwise_cons.mp hright).1 _ hin) (Nat.lt_irrefl _)
    subst hsame
    refine ⟨by simp [Heap.free, hfind], ?_⟩
    rw [halloc', halloc]
    exact List.perm_middle

/-- Anything else is not. -/
theorem free_other (hnone : ∀ n, (addr, n) ∉ hp.allocList) : hp.free addr = (-1, hp) := by
  simp only [Heap.free, find_none hnone]

end OneHeap

/-! ## The three heaps -/

/-- The heaps as the operations leave them. -/
structure MemoryValid (lossless : Prop) (c : CmemBlocks) (nomap : Bool) (d : DdrHeaps) : Prop where
  heap1 : HeapValid lossless (c.split nomap).range1.1 (c.split nomap).range1.2 d.heap1
  heap2 : HeapValid lossless (c.split nomap).range2.1 (c.split nomap).range2.2 d.heap2
  heap3 : HeapValid lossless (c.range3 nomap).1 (c.range3 nomap).2 d.heap3

/-- No block that `free` makes is too long. -/
def MemoryFits (d : DdrHeaps) : MemoryAction → Prop
  | .mallocGlobal _ _ => True
  | .freeGlobal addr => MergeFits d.heap1 (.free addr) ∧ MergeFits d.heap2 (.free addr) ∧
      MergeFits d.heap3 (.free addr)

instance (d : DdrHeaps) (a : MemoryAction) : Decidable (MemoryFits d a) :=
  match a with
  | .mallocGlobal _ _ => inferInstanceAs (Decidable True)
  | .freeGlobal addr => inferInstanceAs (Decidable (MergeFits d.heap1 (.free addr) ∧
      MergeFits d.heap2 (.free addr) ∧ MergeFits d.heap3 (.free addr)))

section Heaps

variable {lossless : Prop} {c : CmemBlocks} {nomap : Bool} {d d' : DdrHeaps} {size : UInt64}
  {addr n : Nat}

theorem range1_wrap (c : CmemBlocks) (nomap : Bool) :
    (c.split nomap).range1.1 + (c.split nomap).range1.2 < 2 ^ 64 :=
  Nat.lt_of_le_of_lt (split_safe c nomap).low.2 (by omega)

theorem range2_wrap (c : CmemBlocks) (nomap : Bool) :
    (c.split nomap).range2.1 + (c.split nomap).range2.2 < 2 ^ 64 := by
  rcases Nat.eq_zero_or_pos (c.split nomap).range2.2 with hzero | hpos
  · rw [hzero]
    exact (c.split nomap).addr2.toNat_lt
  · have hend := ((split_safe c nomap).inside2 hpos).2
    have hblock := c.ends
    dsimp only at hend
    omega

theorem range3_wrap (c : CmemBlocks) (nomap : Bool) :
    (c.range3 nomap).1 + (c.range3 nomap).2 < 2 ^ 64 := by
  have hblock := c.ends3
  rcases (split_safe c nomap).inside3 with hsize | hsize
  · rw [hsize]
    exact c.addr3.toNat_lt
  · rw [hsize]
    exact Nat.lt_of_le_of_lt hblock (by omega)

theorem CanAskGlobal.canAsk (hask : CanAskGlobal size) {hp : Heap} (hsize : BlockSized hp) :
    hp.CanAsk size.toUInt32 ∧ size.toUInt32.toNat = size.toNat := by
  have hlow : size.toUInt32.toNat = size.toNat := by
    rw [UInt64.toNat_toUInt32]
    exact Nat.mod_eq_of_lt (by have := hask.2; omega)
  refine ⟨⟨by rw [hlow]; exact hask.1, ?_⟩, hlow⟩
  rw [hlow]
  have hmax := hask.2
  rcases hsize with hblock | hblock <;> rw [hblock]
  · have hbytes : minBlockSize.toNat = 128 := rfl
    omega
  · exact hmax

/-- A new block, at an address that is not 0. -/
structure Granted (lossless : Prop) (c : CmemBlocks) (nomap : Bool) (d : DdrHeaps) (size : UInt64)
    (r : Nat × DdrHeaps) : Prop where
  address : r.1 ≠ 0
  valid : MemoryValid lossless c nomap r.2
  block : ∃ n, size.toNat ≤ n ∧ r.2.live.Perm ((r.1, n) :: d.live)

/-- One of the heaps is asked; `put` puts it back among the others. -/
theorem attempt_cases {startAddr length : Nat} {hp : Heap} (put : Heap → DdrHeaps)
    (hwrap : startAddr + length < 2 ^ 64) (h : HeapValid lossless startAddr length hp)
    (hask : CanAskGlobal size) (hbase : 0 < length → 0 < startAddr)
    (hvalid : ∀ hp', HeapValid lossless startAddr length hp' →
      MemoryValid lossless c nomap (put hp'))
    (hlive : ∀ hp' b, hp'.allocList.Perm (b :: hp.allocList) →
      (put hp').live.Perm (b :: (put hp).live)) :
    hp.malloc size.toUInt32 = none ∧ hp.mallocOrZero size.toUInt32 = (0, hp) ∨
    hp.malloc size.toUInt32 ≠ none ∧ Granted lossless c nomap (put hp) size
      ((hp.mallocOrZero size.toUInt32).1, put (hp.mallocOrZero size.toUInt32).2) := by
  obtain ⟨hcan, hlow⟩ := hask.canAsk h.sized
  rcases h.malloc_cases hwrap hcan with
    hnone | ⟨addr, n, hp', hsome, hcall, hvalid', hle, hperm⟩
  · exact Or.inl hnone
  · obtain ⟨hlo, hhi, hpos⟩ := hvalid'.mem_bounds (hperm.symm.subset List.mem_cons_self)
    have hbase := hbase (by omega)
    refine Or.inr ⟨by simp [hsome], ?_⟩
    rw [hcall]
    exact ⟨by dsimp only; omega, hvalid hp' hvalid', n, hlow ▸ hle, hlive hp' (addr, n) hperm⟩

theorem malloc1_cases (h : MemoryValid lossless c nomap d) (hask : CanAskGlobal size) :
    d.heap1.malloc size.toUInt32 = none ∧ d.malloc1 size.toUInt32 = (0, d) ∨
    d.heap1.malloc size.toUInt32 ≠ none ∧
      Granted lossless c nomap d size (d.malloc1 size.toUInt32) := by
  have hbase := (split_safe c nomap).low.1
  have hcases := attempt_cases (fun hp => { d with heap1 := hp }) (range1_wrap c nomap)
    h.heap1 hask (fun _ => by omega) (fun _ hvalid => ⟨hvalid, h.heap2, h.heap3⟩) fun hp' b hperm =>
      (hperm.append_right _).append_right _
  refine hcases.imp_left fun hzero => ⟨hzero.1, ?_⟩
  simp only [DdrHeaps.malloc1, hzero.2]

theorem malloc2_cases (h : MemoryValid lossless c nomap d) (hask : CanAskGlobal size) :
    d.heap2.malloc size.toUInt32 = none ∧ d.malloc2 size.toUInt32 = (0, d) ∨
    d.heap2.malloc size.toUInt32 ≠ none ∧
      Granted lossless c nomap d size (d.malloc2 size.toUInt32) := by
  have hcases := attempt_cases (fun hp => { d with heap2 := hp }) (range2_wrap c nomap)
    h.heap2 hask (fun hpos => Nat.lt_of_lt_of_le (by decide) ((split_safe c nomap).high2 hpos))
    (fun _ hvalid => ⟨h.heap1, hvalid, h.heap3⟩) fun hp' b hperm =>
      ((hperm.append_left _).trans List.perm_middle).append_right _
  refine hcases.imp_left fun hzero => ⟨hzero.1, ?_⟩
  simp only [DdrHeaps.malloc2, hzero.2]

theorem malloc3_cases (h : MemoryValid lossless c nomap d) (hask : CanAskGlobal size) :
    d.heap3.malloc size.toUInt32 = none ∧ d.malloc3 size.toUInt32 = (0, d) ∨
    d.heap3.malloc size.toUInt32 ≠ none ∧
      Granted lossless c nomap d size (d.malloc3 size.toUInt32) := by
  have hcases := attempt_cases (fun hp => { d with heap3 := hp }) (range3_wrap c nomap)
    h.heap3 hask (fun hpos => Nat.lt_of_lt_of_le (by decide) ((split_safe c nomap).high3 hpos))
    (fun _ hvalid => ⟨h.heap1, h.heap2, hvalid⟩) fun hp' b hperm =>
      (hperm.append_left _).trans List.perm_middle
  refine hcases.imp_left fun hzero => ⟨hzero.1, ?_⟩
  simp only [DdrHeaps.malloc3, hzero.2]

/-- `malloc_global` finds no room in the heaps that it asks, or grants a block. -/
theorem mallocGlobal_cases (h : MemoryValid lossless c nomap d) (hask : CanAskGlobal size)
    (prefer32bit : Bool) :
    d.Exhausted size prefer32bit ∧ d.mallocGlobal size prefer32bit = (0, d) ∨
    ¬ d.Exhausted size prefer32bit ∧
      Granted lossless c nomap d size (d.mallocGlobal size prefer32bit) := by
  cases prefer32bit with
  | true =>
    rcases malloc1_cases h hask with ⟨hnone, hzero⟩ | ⟨hsome, hgrant⟩
    · exact Or.inl ⟨⟨hnone, nofun⟩, by simpa [DdrHeaps.mallocGlobal] using hzero⟩
    · exact Or.inr ⟨fun hfull => hsome hfull.1, by simpa [DdrHeaps.mallocGlobal] using hgrant⟩
  | false =>
    simp only [DdrHeaps.mallocGlobal, DdrHeaps.Exhausted, Bool.false_eq_true, if_false,
      forall_const]
    -- the first heap is asked at once if it has a block that is much larger
    rcases malloc1_cases h hask with ⟨hnone1, hzero1⟩ | ⟨hsome1, hgrant1⟩
    · rcases malloc2_cases h hask with ⟨hnone2, hzero2⟩ | ⟨hsome2, hgrant2⟩
      · rcases malloc3_cases h hask with ⟨hnone3, hzero3⟩ | ⟨hsome3, hgrant3⟩
        · exact Or.inl ⟨⟨hnone1, hnone2, hnone3⟩, by simp [hzero1, hzero2, hzero3]⟩
        · refine Or.inr ⟨fun hfull => hsome3 hfull.2.2, ?_⟩
          simpa [hzero1, hzero2, hgrant3.address] using hgrant3
      · refine Or.inr ⟨fun hfull => hsome2 hfull.2.1, ?_⟩
        simpa [hzero1, hgrant2.address] using hgrant2
    · refine Or.inr ⟨fun hfull => hsome1 hfull.1, ?_⟩
      by_cases hlarge : DdrHeaps.fractionPersistentForBuffer <
          d.heap1.maxBlockSize.size / size.toNat
      · simpa [hlarge, hgrant1.address] using hgrant1
      · rcases malloc2_cases h hask with ⟨hnone2, hzero2⟩ | ⟨hsome2, hgrant2⟩
        · rcases malloc3_cases h hask with ⟨hnone3, hzero3⟩ | ⟨hsome3, hgrant3⟩
          · simpa [hlarge, hzero2, hzero3] using hgrant1
          · simpa [hlarge, hzero2, hgrant3.address] using hgrant3
        · simpa [hlarge, hgrant2.address] using hgrant2

theorem MemoryValid.heap1_bounds (h : MemoryValid lossless c nomap d) {b : Nat × Nat}
    (hmem : b ∈ d.heap1.allocList) :
    0xA0000000 ≤ b.1 ∧ b.1 + b.2 ≤ 2 ^ 32 ∧
      Inside (physRange b) (physRange (c.split nomap).range1) := by
  obtain ⟨hlo, hhi, hpos⟩ := h.heap1.mem_bounds hmem
  obtain ⟨hbase, hend⟩ := (split_safe c nomap).low
  refine ⟨by omega, by omega, ?_⟩
  simp only [Inside, physRange]
  rw [physAddr_low (by omega) (by omega), physAddr_low (by omega) (by omega)]
  omega

theorem MemoryValid.heap2_bounds (h : MemoryValid lossless c nomap d) {b : Nat × Nat}
    (hmem : b ∈ d.heap2.allocList) :
    dsp36BitAddr ≤ b.1 ∧ 0 < (c.split nomap).range2.2 ∧
      Inside (physRange b) (c.split nomap).range2 := by
  obtain ⟨hlo, hhi, hpos⟩ := h.heap2.mem_bounds hmem
  have hbase := (split_safe c nomap).high2 (by omega)
  unfold dsp36BitAddr at hbase ⊢
  refine ⟨by omega, by omega, ?_⟩
  simp only [Inside, physRange]
  rw [physAddr_high (by omega)]
  exact ⟨hlo, hhi⟩

theorem MemoryValid.heap3_bounds (h : MemoryValid lossless c nomap d) {b : Nat × Nat}
    (hmem : b ∈ d.heap3.allocList) :
    dsp36BitAddr ≤ b.1 ∧ 0 < (c.range3 nomap).2 ∧
      Inside (physRange b) (c.range3 nomap) := by
  obtain ⟨hlo, hhi, hpos⟩ := h.heap3.mem_bounds hmem
  have hbase := (split_safe c nomap).high3 (by omega)
  unfold dsp36BitAddr at hbase ⊢
  refine ⟨by omega, by omega, ?_⟩
  simp only [Inside, physRange]
  rw [physAddr_high (by omega)]
  exact ⟨hlo, hhi⟩

theorem mem_live {b : Nat × Nat} : b ∈ d.live ↔
    b ∈ d.heap1.allocList ∨ b ∈ d.heap2.allocList ∨ b ∈ d.heap3.allocList := by
  simp only [DdrHeaps.live, List.mem_append, or_assoc]

theorem Apart.of_inside {b b' r r' : Nat × Nat} (h : Apart r r') (hb : Inside b r)
    (hb' : Inside b' r') : Apart b b' := by
  unfold Apart Inside at *
  omega

/-- Blocks of different heaps do not share memory. -/
theorem MemoryValid.apart_heaps (h : MemoryValid lossless c nomap d) {b b' : Nat × Nat} :
    (b ∈ d.heap1.allocList → b' ∈ d.heap2.allocList → Apart (physRange b) (physRange b')) ∧
    (b ∈ d.heap1.allocList → b' ∈ d.heap3.allocList → Apart (physRange b) (physRange b')) ∧
    (b ∈ d.heap2.allocList → b' ∈ d.heap3.allocList → Apart (physRange b) (physRange b')) := by
  have hsafe := split_safe c nomap
  refine ⟨fun hmem hmem' => ?_, fun hmem hmem' => ?_, fun hmem hmem' => ?_⟩
  · obtain ⟨-, hpos, hinside'⟩ := h.heap2_bounds hmem'
    exact (hsafe.apart12 hpos).of_inside (h.heap1_bounds hmem).2.2 hinside'
  · obtain ⟨-, hpos, hinside'⟩ := h.heap3_bounds hmem'
    exact (hsafe.apart13 hpos).of_inside (h.heap1_bounds hmem).2.2 hinside'
  · obtain ⟨-, hpos, hinside⟩ := h.heap2_bounds hmem
    obtain ⟨-, hpos', hinside'⟩ := h.heap3_bounds hmem'
    exact (hsafe.apart23 hpos hpos').of_inside hinside hinside'

/-- No two blocks share memory. -/
theorem MemoryValid.apart (h : MemoryValid lossless c nomap d) :
    d.live.Pairwise fun b b' => Apart (physRange b) (physRange b') := by
  have hone : ∀ {s l hp}, HeapValid lossless s l hp → hp.allocList.Pairwise Apart := by
    rintro s l hp ⟨hsize, segs, hrep, -⟩
    exact (hrep.safe hsize).alloc
  refine List.pairwise_append.mpr ⟨List.pairwise_append.mpr ⟨?_, ?_, ?_⟩, ?_, ?_⟩
  · apply (hone h.heap1).imp_of_mem
    intro b b' hb hb' hapart
    obtain ⟨hlo, hhi, -⟩ := h.heap1_bounds hb
    obtain ⟨hlo', hhi', -⟩ := h.heap1_bounds hb'
    have hpos := (h.heap1.mem_bounds hb).2.2
    have hpos' := (h.heap1.mem_bounds hb').2.2
    unfold Apart physRange at *
    dsimp only
    rw [physAddr_low hlo (by omega), physAddr_low hlo' (by omega)]
    omega
  · apply (hone h.heap2).imp_of_mem
    intro b b' hb hb' hapart
    have hlo := (h.heap2_bounds hb).1
    have hlo' := (h.heap2_bounds hb').1
    unfold dsp36BitAddr at hlo hlo'
    unfold Apart physRange at *
    dsimp only
    rw [physAddr_high (by omega), physAddr_high (by omega)]
    exact hapart
  · intro b hb b' hb'
    exact h.apart_heaps.1 hb hb'
  · apply (hone h.heap3).imp_of_mem
    intro b b' hb hb' hapart
    have hlo := (h.heap3_bounds hb).1
    have hlo' := (h.heap3_bounds hb').1
    unfold dsp36BitAddr at hlo hlo'
    unfold Apart physRange at *
    dsimp only
    rw [physAddr_high (by omega), physAddr_high (by omega)]
    exact hapart
  · intro b hb b' hb'
    rcases List.mem_append.mp hb with hb | hb
    · exact h.apart_heaps.2.1 hb hb'
    · exact h.apart_heaps.2.2 hb hb'

/-- A block that is live is taken back by the heap that it came from. -/
theorem MemoryValid.freeGlobal_perm (h : MemoryValid lossless c nomap d)
    (hmem : (addr, n) ∈ d.live) : d.live.Perm ((addr, n) :: (d.freeGlobal addr).live) := by
  rcases mem_live.mp hmem with hmem | hmem | hmem
  · have hlow : addr < dsp36BitAddr := by
      have hend := (h.heap1_bounds hmem).2.1
      unfold dsp36BitAddr
      omega
    simp only [DdrHeaps.freeGlobal, if_pos hlow, DdrHeaps.live]
    exact ((h.heap1.free_perm hmem).2.append_right _).append_right _
  · have hhigh := Nat.not_lt.mpr (h.heap2_bounds hmem).1
    obtain ⟨hfound, hperm⟩ := h.heap2.free_perm hmem
    simp only [DdrHeaps.freeGlobal, if_neg hhigh, hfound, DdrHeaps.live]
    exact ((hperm.append_left _).trans List.perm_middle).append_right _
  · have hhigh := Nat.not_lt.mpr (h.heap3_bounds hmem).1
    have hother : ∀ k, (addr, k) ∉ d.heap2.allocList := by
      intro k hmem'
      have hpos := (h.heap3.mem_bounds hmem).2.2
      have hpos' := (h.heap2.mem_bounds hmem').2.2
      rcases h.apart_heaps.2.2 hmem' hmem with hle | hle <;> dsimp only [physRange] at hle <;> omega
    simp only [DdrHeaps.freeGlobal, if_neg hhigh, free_other hother, if_true, DdrHeaps.live]
    exact ((h.heap3.free_perm hmem).2.append_left _).trans List.perm_middle

/-- Nothing happens for an address at which no block is live. -/
theorem freeGlobal_other (hnone : ∀ n, (addr, n) ∉ d.live) : d.freeGlobal addr = d := by
  have hother : ∀ n, (addr, n) ∉ d.heap1.allocList ∧ (addr, n) ∉ d.heap2.allocList ∧
      (addr, n) ∉ d.heap3.allocList := by
    intro n
    have hmem := hnone n
    rw [mem_live, not_or, not_or] at hmem
    exact hmem
  unfold DdrHeaps.freeGlobal
  rw [free_other fun n => (hother n).1, free_other fun n => (hother n).2.1,
    free_other fun n => (hother n).2.2, if_pos rfl, ite_self]

theorem MemoryValid.freeGlobal_valid (h : MemoryValid lossless c nomap d)
    (hfits : lossless → MemoryFits d (.freeGlobal addr)) :
    MemoryValid lossless c nomap (d.freeGlobal addr) := by
  have hone := h.heap1.free_valid (range1_wrap c nomap) fun hl => (hfits hl).1
  have htwo := h.heap2.free_valid (range2_wrap c nomap) fun hl => (hfits hl).2.1
  have hthree := h.heap3.free_valid (range3_wrap c nomap) fun hl => (hfits hl).2.2
  simp only [DdrHeaps.freeGlobal]
  split_ifs
  · exact ⟨hone, h.heap2, h.heap3⟩
  · exact ⟨h.heap1, htwo, hthree⟩
  · exact ⟨h.heap1, htwo, h.heap3⟩

theorem memoryValid_heaps (lossless : Prop) (c : CmemBlocks) (nomap : Bool) :
    MemoryValid lossless c nomap (c.heaps nomap) :=
  ⟨heapValid_configure _ _ _ _, heapValid_configure _ _ _ _, heapValid_configure _ _ _ _⟩

theorem MemoryValid.step {act : MemoryAction} (h : MemoryValid lossless c nomap d)
    (hstep : memoryStep d act = some d') (hfits : lossless → MemoryFits d act) :
    MemoryValid lossless c nomap d' := by
  cases act with
  | mallocGlobal size prefer32bit =>
    simp only [memoryStep] at hstep
    split at hstep
    · rename_i hask
      obtain rfl := Option.some.inj hstep
      rcases mallocGlobal_cases h hask prefer32bit with
        ⟨-, hzero⟩ | ⟨-, hgrant⟩
      · rw [hzero]
        exact h
      · exact hgrant.valid
    · cases hstep
  | freeGlobal addr =>
    obtain rfl := Option.some.inj hstep
    exact h.freeGlobal_valid hfits

theorem memoryValid_reachable (h : Reachable (memorySystem c nomap) d) :
    MemoryValid False c nomap d := by
  refine h.invariant (P := MemoryValid False c nomap) (fun d hi => ?_)
    fun d act d' _ hvalid hstep => hvalid.step hstep False.elim
  obtain rfl : d = _ := hi
  exact memoryValid_heaps _ _ _

end Heaps

/-! ## What the device relies on -/

/-- The memory of the device is safe: what has been handed out shares no memory and lies in the
range of its heap and in the blocks of CMEM, `malloc_global` fails only for want of room and gives a
32-bit address if it is asked for one, and `free_global` takes back the block at its address and
nothing else. -/
structure MemorySafe (c : CmemBlocks) (nomap : Bool) (d : DdrHeaps) : Prop where
  apart : d.live.Pairwise fun b b' => Apart (physRange b) (physRange b')
  ranges : (∀ b ∈ d.heap1.allocList, Inside b (c.split nomap).range1) ∧
    (∀ b ∈ d.heap2.allocList, Inside b (c.split nomap).range2) ∧
    ∀ b ∈ d.heap3.allocList, Inside b (c.range3 nomap)
  inside : ∀ b ∈ d.live, Inside (physRange b) (c.addr.toNat, c.size.toNat) ∨
    Inside (physRange b) (c.addr3.toNat, c.size3.toNat)
  words : ∀ b ∈ d.live, b.1 + b.2 ≤ 2 ^ 32 ∨ dsp36BitAddr ≤ b.1
  refused : ∀ size prefer32bit, CanAskGlobal size → d.Exhausted size prefer32bit →
    d.mallocGlobal size prefer32bit = (0, d)
  granted : ∀ size prefer32bit, CanAskGlobal size → ¬ d.Exhausted size prefer32bit →
    (d.mallocGlobal size prefer32bit).1 ≠ 0 ∧ ∃ n, size.toNat ≤ n ∧
      (d.mallocGlobal size prefer32bit).2.live.Perm
        (((d.mallocGlobal size prefer32bit).1, n) :: d.live)
  preferred : ∀ size, CanAskGlobal size → (d.mallocGlobal size true).1 ≠ 0 →
    (d.mallocGlobal size true).1 + size.toNat ≤ 2 ^ 32
  freed : ∀ addr n, (addr, n) ∈ d.live → d.live.Perm ((addr, n) :: (d.freeGlobal addr).live)
  kept : ∀ addr, (∀ n, (addr, n) ∉ d.live) → d.freeGlobal addr = d

section Safe

variable {lossless : Prop} {c : CmemBlocks} {nomap : Bool} {d : DdrHeaps}

theorem MemoryValid.inside (h : MemoryValid lossless c nomap d) {b : Nat × Nat}
    (hmem : b ∈ d.live) : Inside (physRange b) (c.addr.toNat, c.size.toNat) ∨
      Inside (physRange b) (c.addr3.toNat, c.size3.toNat) := by
  have hsafe := split_safe c nomap
  have htrans : ∀ {b r s : Nat × Nat}, Inside b r → Inside r s → Inside b s := by
    intro b r s hbr hrs
    unfold Inside at *
    omega
  rcases mem_live.mp hmem with hmem | hmem | hmem
  · exact Or.inl (htrans (h.heap1_bounds hmem).2.2 hsafe.inside1)
  · obtain ⟨-, hpos, hinside⟩ := h.heap2_bounds hmem
    exact Or.inl (htrans hinside (hsafe.inside2 hpos))
  · obtain ⟨-, hpos, hinside⟩ := h.heap3_bounds hmem
    refine Or.inr (htrans hinside ⟨Nat.le_refl _, ?_⟩)
    rcases hsafe.inside3 with hzero | hsize
    · exact absurd hpos (by omega)
    · exact Nat.le_of_eq (congrArg (c.addr3.toNat + ·) hsize)

theorem HeapValid.inside {startAddr length : Nat} {hp : Heap}
    (h : HeapValid lossless startAddr length hp) :
    ∀ b ∈ hp.allocList, Inside b (startAddr, length) := by
  intro b hmem
  obtain ⟨hlo, hhi, -⟩ := h.mem_bounds hmem
  exact ⟨hlo, hhi⟩

/-- The first heap ends below 4 GB. -/
theorem MemoryValid.preferred (h : MemoryValid lossless c nomap d) {size : UInt64}
    (hask : CanAskGlobal size) (hgot : (d.mallocGlobal size true).1 ≠ 0) :
    (d.mallocGlobal size true).1 + size.toNat ≤ 2 ^ 32 := by
  obtain ⟨hcan, hlow⟩ := hask.canAsk h.heap1.sized
  simp only [DdrHeaps.mallocGlobal, DdrHeaps.malloc1, if_true] at hgot ⊢
  rcases h.heap1.malloc_cases (range1_wrap c nomap) hcan with
    ⟨-, hzero⟩ | ⟨addr, n, hp', -, hcall, hvalid', hle, hperm⟩
  · rw [hzero] at hgot
    exact absurd rfl hgot
  · rw [hcall]
    have hend := (hvalid'.mem_bounds (hperm.symm.subset List.mem_cons_self)).2.1
    have hlast := (split_safe c nomap).low.2
    dsimp only at hend ⊢
    omega

theorem MemoryValid.safe (h : MemoryValid lossless c nomap d) : MemorySafe c nomap d where
  apart := h.apart
  ranges := ⟨h.heap1.inside, h.heap2.inside, h.heap3.inside⟩
  inside _ hmem := h.inside hmem
  words b hmem := by
    rcases mem_live.mp hmem with hmem | hmem | hmem
    · exact Or.inl (h.heap1_bounds hmem).2.1
    · exact Or.inr (h.heap2_bounds hmem).1
    · exact Or.inr (h.heap3_bounds hmem).1
  refused size prefer32bit hask hfull := by
    rcases mallocGlobal_cases h hask prefer32bit with ⟨-, hzero⟩ | ⟨hroom, -⟩
    · exact hzero
    · exact absurd hfull hroom
  granted size prefer32bit hask hroom := by
    rcases mallocGlobal_cases h hask prefer32bit with ⟨hfull, -⟩ | ⟨-, hgrant⟩
    · exact absurd hfull hroom
    · exact ⟨hgrant.address, hgrant.block⟩
  preferred _ hask hgot := h.preferred hask hgot
  freed _ _ hmem := h.freeGlobal_perm hmem
  kept _ hnone := freeGlobal_other hnone

/-- The blocks of a board with 8 GB. -/
def largeBlocks : CmemBlocks where
  addr := 0x823000000
  size := 0x1DD000000
  addr3 := 0
  size3 := 0
  begins := by decide
  mapped := by decide
  ends := by decide
  begins3 := by decide
  ends3 := by decide
  apart := by decide

theorem exists_memory (c : CmemBlocks) (acts : List MemoryAction) (p : DdrHeaps → Bool)
    (h : (exec memoryStep (c.heaps false) acts).map p = some true) :
    ∃ d, Reachable (memorySystem c false) d ∧ p d = true :=
  exists_exec (I := (· = c.heaps false)) rfl acts p h

theorem exists_memory_fitting (c : CmemBlocks) (acts : List MemoryAction) (p : DdrHeaps → Bool)
    (h : (execGuarded memoryStep (fun d act => decide (MemoryFits d act)) (c.heaps false)
      acts).map p = some true) :
    ∃ d, Reachable ((memorySystem c false).restrict MemoryFits) d ∧ p d = true :=
  exists_execGuarded (I := (· = c.heaps false)) MemoryFits rfl acts p h

/-- All memory is free or handed out, and when all has been given back the heaps are as they
were. -/
structure MemoryWhole (c : CmemBlocks) (nomap : Bool) (d : DdrHeaps) : Prop where
  sum : ((d.heap1.freeList ++ d.heap2.freeList ++ d.heap3.freeList).map Prod.snd).sum +
    (d.live.map Prod.snd).sum =
      (c.split nomap).range1.2 + (c.split nomap).range2.2 + (c.range3 nomap).2
  whole : d.live = [] → d.heap1.freeList = [(c.split nomap).range1] ∧
    d.heap2.freeList = [(c.split nomap).range2] ∧ d.heap3.freeList = [c.range3 nomap]

theorem HeapValid.whole {startAddr length : Nat} {hp : Heap}
    (h : HeapValid lossless startAddr length hp) (hl : lossless) :
    HeapWhole startAddr length hp := by
  obtain ⟨-, segs, hrep, hlost⟩ := h
  exact hrep.whole (hlost hl)

/-- As long as no block that is given back becomes longer than 32 bits can say, nothing is lost. -/
theorem device_memory_whole (h : Reachable ((memorySystem c nomap).restrict MemoryFits) d) :
    MemoryWhole c nomap d := by
  have hvalid : MemoryValid True c nomap d := by
    refine h.invariant (P := MemoryValid True c nomap) (fun d hi => ?_)
      fun d act d' _ hvalid hstep => hvalid.step hstep.1 fun _ => hstep.2
    obtain rfl : d = _ := hi
    exact memoryValid_heaps _ _ _
  have hone := hvalid.heap1.whole trivial
  have htwo := hvalid.heap2.whole trivial
  have hthree := hvalid.heap3.whole trivial
  constructor
  · simp only [DdrHeaps.live, List.map_append, List.sum_append]
    have hsum1 := hone.sum
    have hsum2 := htwo.sum
    have hsum3 := hthree.sum
    omega
  · intro hnone
    simp only [DdrHeaps.live, List.append_eq_nil_iff] at hnone
    exact ⟨hone.whole hnone.1.1, htwo.whole hnone.1.2, hthree.whole hnone.2⟩

theorem two_buffers_whole : ∃ d, d.live = [] ∧ MemoryWhole largeBlocks false d := by
  obtain ⟨d, hreach, hcheck⟩ := exists_memory_fitting largeBlocks
    [.mallocGlobal 4000 true, .mallocGlobal 0x10000 true, .freeGlobal 0xA3000000,
      .freeGlobal 0xA3001000]
    (fun d => d.live = []) (by decide +kernel)
  exact ⟨d, of_decide_eq_true hcheck, device_memory_whole hreach⟩

end Safe

end Shamrock.Dsp
