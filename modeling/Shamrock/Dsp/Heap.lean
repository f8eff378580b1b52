import Shamrock.Lib.Transition
import Mathlib.Data.Nat.Bitwise

/-!
# The heap of a DSP

`dspheap` keeps the blocks of a range of device addresses in two maps. Addresses and lengths have
64 bits, but a size that is asked for or given back has 32.
-/
namespace Shamrock.Dsp

open Transition

def minBlockSize : UInt32 := 128
def minCmemOndemandBlockSize : UInt32 := 4096

/-- `std::map<DSPDevicePtr64, uint64_t>`, in the order of the addresses. -/
abbrev BlockList := List (Nat × Nat)

namespace BlockList

/-- `l[addr] = size` -/
def set (addr size : Nat) : BlockList → BlockList
  | [] => [(addr, size)]
  | b :: l =>
    if addr < b.1 then (addr, size) :: b :: l
    else if addr = b.1 then (addr, size) :: l
    else b :: set addr size l

def find (addr : Nat) (l : BlockList) : Option Nat := (l.find? fun b => b.1 = addr).map Prod.snd

def erase (addr : Nat) (l : BlockList) : BlockList := l.eraseP fun b => b.1 = addr

/-- The first block that is large enough, and the others. -/
def takeFit (size : Nat) : BlockList → Option ((Nat × Nat) × BlockList)
  | [] => none
  | b :: l => if size ≤ b.2 then some (b, l) else (takeFit size l).map fun r => (r.1, b :: r.2)

end BlockList

/-- `ROUNDUP` -/
def roundUp (val pow2 : UInt32) : UInt32 := (val + pow2 - 1) &&& ~~~(pow2 - 1)

structure Heap where
  freeList : BlockList
  allocList : BlockList
  startAddr : Nat
  length : Nat
  blockSize : UInt32
  deriving DecidableEq, Repr

/-- The local variables at the end of the loop in `free`, and what it leaves of `free_list`. -/
structure Merged where
  addr : Nat
  size : Nat
  rest : BlockList
  deriving DecidableEq, Repr

namespace Heap

/-- Before `configure`; the numbers are not set. -/
def new : Heap where
  freeList := []
  allocList := []
  startAddr := 0
  length := 0
  blockSize := 0

def configure (h : Heap) (startAddr length : Nat) (isCmemOndemandHeap : Bool) : Heap :=
  { h with
    startAddr := startAddr
    length := length
    blockSize := if isCmemOndemandHeap then minCmemOndemandBlockSize else minBlockSize
    freeList := if h.freeList.isEmpty then h.freeList.set startAddr length else h.freeList }

/-- The address, if there is a block. -/
def malloc (h : Heap) (size : UInt32) : Option (Nat × Heap) :=
  let size := (roundUp size h.blockSize).toNat
  (h.freeList.takeFit size).map fun r =>
    (r.1.1, { h with
      allocList := h.allocList.set r.1.1 size
      freeList := if size < r.1.2 then r.2.set ((r.1.1 + size) % 2 ^ 64) (r.1.2 - size) else r.2 })

/-- The loop over `free_list`: `addr` and `size` grow by each neighbour, `size` in 32 bits. -/
def merge (addr size : Nat) : BlockList → Merged
  | [] => ⟨addr, size, []⟩
  | b :: l =>
    if (b.1 + b.2) % 2 ^ 64 = addr ∨ (addr + size) % 2 ^ 64 = b.1 then
      merge (if b.1 < addr then b.1 else addr) ((b.2 + size) % 2 ^ 32) l
    else
      let r := merge addr size l
      { r with rest := b :: r.rest }

def free (h : Heap) (addr : Nat) : Int × Heap :=
  match h.allocList.find addr with
  | none => (-1, h)
  | some size =>
    let r := merge addr (size % 2 ^ 32) h.freeList
    (0, { h with
      allocList := h.allocList.erase addr
      freeList := r.rest.set r.addr r.size })

end Heap

inductive HeapAction
  | malloc (size : UInt32)
  | free (addr : Nat)
  deriving DecidableEq, Repr

/-- The sizes that can be rounded up. -/
def Heap.CanAsk (h : Heap) (size : UInt32) : Prop :=
  1 ≤ size.toNat ∧ size.toNat ≤ 2 ^ 32 - h.blockSize.toNat

instance (h : Heap) (size : UInt32) : Decidable (h.CanAsk size) :=
  inferInstanceAs (Decidable (1 ≤ size.toNat ∧ size.toNat ≤ 2 ^ 32 - h.blockSize.toNat))

/-- A call that finds no block changes nothing. -/
def heapStep (h : Heap) : HeapAction → Option Heap
  | .malloc size => if h.CanAsk size then some ((h.malloc size).elim h Prod.snd) else none
  | .free addr => some (h.free addr).2

def heapSystem (startAddr length : Nat) (isCmemOndemandHeap : Bool) : LTS Heap HeapAction :=
  ofStep (fun h => h = Heap.new.configure startAddr length isCmemOndemandHeap) heapStep

/-- The blocks do not overlap. -/
def Apart (b b' : Nat × Nat) : Prop := b.1 + b.2 ≤ b'.1 ∨ b'.1 + b'.2 ≤ b.1

instance (b b' : Nat × Nat) : Decidable (Apart b b') :=
  inferInstanceAs (Decidable (b.1 + b.2 ≤ b'.1 ∨ b'.1 + b'.2 ≤ b.1))

/-- What has been handed out overlaps with nothing and lies in the range; what is handed out next is
large enough, and only that can be given back. -/
structure HeapSafe (startAddr length : Nat) (h : Heap) : Prop where
  alloc : h.allocList.Pairwise Apart
  free : ∀ b ∈ h.allocList, ∀ b' ∈ h.freeList, Apart b b'
  within : ∀ b ∈ h.allocList, startAddr ≤ b.1 ∧ b.1 + b.2 ≤ startAddr + length
  enough : ∀ size, h.CanAsk size → ∀ addr h', h.malloc size = some (addr, h') →
    ∃ n, (addr, n) ∈ h'.allocList ∧ size.toNat ≤ n
  refused : ∀ addr, (∀ n, (addr, n) ∉ h.allocList) → h.free addr = (-1, h)

/-- Nothing is lost: the sizes add up, free blocks are merged, and a heap with no allocated block is
one block. -/
structure HeapWhole (startAddr length : Nat) (h : Heap) : Prop where
  sum : (h.freeList.map Prod.snd).sum + (h.allocList.map Prod.snd).sum = length
  merged : h.freeList.Pairwise fun b b' => b.1 + b.2 ≠ b'.1 ∧ b'.1 + b'.2 ≠ b.1
  whole : h.allocList = [] → h.freeList = [(startAddr, length)]

/-- The free blocks next to the allocated one. -/
def Heap.neighbours (h : Heap) (addr size : Nat) : BlockList :=
  h.freeList.filter fun b => b.1 + b.2 = addr ∨ addr + size = b.1

/-- The block that `free` makes has less than 2^32 bytes. -/
def MergeFits (h : Heap) : HeapAction → Prop
  | .free addr => ∀ size ∈ h.allocList.find addr,
      size + ((h.neighbours addr size).map Prod.snd).sum < 2 ^ 32
  | .malloc _ => True

instance (h : Heap) (a : HeapAction) : Decidable (MergeFits h a) :=
  match a with
  | .free addr => inferInstanceAs (Decidable (∀ size ∈ h.allocList.find addr,
      size + ((h.neighbours addr size).map Prod.snd).sum < 2 ^ 32))
  | .malloc _ => inferInstanceAs (Decidable True)

section BlockLists

variable {addr size : Nat} {b : Nat × Nat} {l r : BlockList}

theorem set_between (hl : ∀ b ∈ l, b.1 < addr) (hr : ∀ b ∈ r, addr < b.1) :
    BlockList.set addr size (l ++ r) = l ++ (addr, size) :: r := by
  induction l with
  | nil =>
    cases r with
    | nil => rfl
    | cons b r => exact if_pos (hr b List.mem_cons_self)
  | cons b l ih =>
    have hb := hl b List.mem_cons_self
    rw [List.cons_append, BlockList.set, if_neg (by omega), if_neg (by omega),
      ih fun c hc => hl c (List.mem_cons_of_mem _ hc)]
    rfl

theorem mem_set (addr size : Nat) (l : BlockList) : (addr, size) ∈ BlockList.set addr size l := by
  induction l with
  | nil => exact List.mem_cons_self
  | cons b l ih =>
    simp only [BlockList.set]
    split
    · exact List.mem_cons_self
    split
    · exact List.mem_cons_self
    · exact List.mem_cons_of_mem _ ih

theorem erase_between (hl : ∀ b ∈ l, b.1 ≠ addr) :
    BlockList.erase addr (l ++ (addr, size) :: r) = l ++ r := by
  simp only [BlockList.erase]
  rw [List.eraseP_append_right _ (by simpa using hl)]
  simp

/-- First fit. -/
theorem takeFit_split (h : BlockList.takeFit size l = some (b, r)) :
    ∃ l₁ l₂, l = l₁ ++ b :: l₂ ∧ r = l₁ ++ l₂ ∧ size ≤ b.2 := by
  induction l generalizing r with
  | nil => cases h
  | cons c l ih =>
    simp only [BlockList.takeFit] at h
    split at h
    · rename_i hle
      cases h
      exact ⟨[], l, rfl, rfl, hle⟩
    · obtain ⟨⟨b', r'⟩, hr, heq⟩ := Option.map_eq_some_iff.mp h
      cases heq
      obtain ⟨l₁, l₂, rfl, rfl, hle⟩ := ih hr
      exact ⟨c :: l₁, l₂, rfl, rfl, hle⟩

theorem find_split (h : BlockList.find addr l = some size) :
    ∃ l₁ l₂, l = l₁ ++ (addr, size) :: l₂ ∧ ∀ b ∈ l₁, b.1 ≠ addr := by
  simp only [BlockList.find, Option.map_eq_some_iff] at h
  obtain ⟨⟨a, n⟩, hfind, rfl⟩ := h
  obtain ⟨ha, l₁, l₂, rfl, hno⟩ := List.find?_eq_some_iff_append.mp hfind
  obtain rfl : a = addr := by simpa using ha
  exact ⟨l₁, l₂, rfl, by simpa using hno⟩

theorem find_none (h : ∀ n, (addr, n) ∉ l) : BlockList.find addr l = none := by
  simp only [BlockList.find, Option.map_eq_none_iff, List.find?_eq_none, decide_eq_true_eq]
  rintro ⟨a, n⟩ hmem rfl
  exact h n hmem

/-- What a successful `malloc` does. -/
theorem malloc_split {h h' : Heap} {size : UInt32} {n : Nat}
    (hn : (roundUp size h.blockSize).toNat = n) (hcall : h.malloc size = some (addr, h')) :
    ∃ l₁ m l₂, h.freeList = l₁ ++ (addr, m) :: l₂ ∧ n ≤ m ∧
      h'.freeList = (if n < m then
        BlockList.set ((addr + n) % 2 ^ 64) (m - n) (l₁ ++ l₂) else l₁ ++ l₂) ∧
      h'.allocList = BlockList.set addr n h.allocList := by
  obtain ⟨⟨⟨a, m⟩, rest⟩, htake, heq⟩ := Option.map_eq_some_iff.mp hcall
  obtain ⟨rfl, rfl⟩ := Prod.mk.inj heq
  rw [hn] at htake
  obtain ⟨l₁, l₂, hfree, rfl, hle⟩ := takeFit_split htake
  exact ⟨l₁, m, l₂, hfree, hle, by rw [hn], by rw [hn]⟩

/-- What a successful `free` does. -/
theorem free_split {h : Heap} (hfind : h.allocList.find addr = some size) :
    ∃ l₁ l₂, h.allocList = l₁ ++ (addr, size) :: l₂ ∧
      (h.free addr).2.allocList = l₁ ++ l₂ ∧
      (h.free addr).2.freeList =
        BlockList.set (Heap.merge addr (size % 2 ^ 32) h.freeList).addr
          (Heap.merge addr (size % 2 ^ 32) h.freeList).size
          (Heap.merge addr (size % 2 ^ 32) h.freeList).rest := by
  obtain ⟨l₁, l₂, hl, hno⟩ := find_split hfind
  refine ⟨l₁, l₂, hl, ?_, ?_⟩
  · simp only [Heap.free, hfind]
    rw [hl, erase_between hno]
  · simp only [Heap.free, hfind]

/-- A block that touches neither end stays. -/
theorem merge_skip (hl : ∀ b ∈ l, (b.1 + b.2) % 2 ^ 64 ≠ addr ∧ (addr + size) % 2 ^ 64 ≠ b.1) :
    Heap.merge addr size (l ++ r) =
      { Heap.merge addr size r with rest := l ++ (Heap.merge addr size r).rest } := by
  induction l with
  | nil => rfl
  | cons b l ih =>
    obtain ⟨hb, hb'⟩ := hl b List.mem_cons_self
    rw [List.cons_append, Heap.merge, if_neg (not_or.mpr ⟨hb, hb'⟩),
      ih fun c hc => hl c (List.mem_cons_of_mem _ hc)]
    rfl

end BlockLists

/-! ## Rounding -/

section RoundUp

/-- The mask clears the low `k` bits. -/
theorem and_mask (v k : Nat) (hk : k ≤ 32) (hv : v < 2 ^ 32) :
    v &&& (2 ^ 32 - 2 ^ k) = v / 2 ^ k * 2 ^ k := by
  have hmask : 2 ^ 32 - 2 ^ k = (2 ^ (32 - k) - 1) * 2 ^ k := by
    rw [Nat.sub_mul, ← Nat.pow_add, Nat.one_mul, Nat.sub_add_cancel hk]
  apply Nat.eq_of_testBit_eq
  intro i
  rw [hmask, Nat.testBit_and, Nat.testBit_mul_two_pow, Nat.testBit_mul_two_pow,
    Nat.testBit_two_pow_sub_one, Nat.testBit_div_two_pow]
  by_cases hi : k ≤ i
  · by_cases hlt : i - k < 32 - k
    · simp [hi, hlt, Nat.sub_add_cancel hi]
    · have hhigh : v.testBit i = false :=
        Nat.testBit_lt_two_pow (Nat.lt_of_lt_of_le hv (Nat.pow_le_pow_right (by omega) (by omega)))
      simp [hi, hhigh, Nat.sub_add_cancel hi]
  · simp [hi]

theorem roundUp_toNat {val pow2 : UInt32} {k : Nat} (hk : k < 32) (hpow : pow2.toNat = 2 ^ k)
    (hval : val.toNat ≤ 2 ^ 32 - 2 ^ k) :
    (roundUp val pow2).toNat = (val.toNat + 2 ^ k - 1) / 2 ^ k * 2 ^ k := by
  have hpos : 0 < 2 ^ k := Nat.two_pow_pos k
  have hlt : 2 ^ k < 2 ^ 32 := Nat.pow_lt_pow_right (by omega) hk
  have hone : (pow2 - 1).toNat = 2 ^ k - 1 := by
    rw [UInt32.toNat_sub_of_le _ _ (UInt32.le_iff_toNat_le.mpr (by simp [hpow]; omega)), hpow]
    rfl
  have hsum : (val + pow2 - 1).toNat = val.toNat + 2 ^ k - 1 := by
    have hv := val.toNat_lt
    simp only [UInt32.toNat_sub, UInt32.toNat_add, hpow]
    have hone : (1 : UInt32).toNat = 1 := rfl
    rw [hone]
    omega
  rw [roundUp, UInt32.toNat_and, UInt32.toNat_not, hone, hsum]
  have hmask : UInt32.size - 1 - (2 ^ k - 1) = 2 ^ 32 - 2 ^ k := by
    simp only [UInt32.size]
    omega
  rw [hmask]
  exact and_mask _ k (by omega) (by omega)

theorem le_roundUp {val pow2 : UInt32} {k : Nat} (hk : k < 32) (hpow : pow2.toNat = 2 ^ k)
    (hval : val.toNat ≤ 2 ^ 32 - 2 ^ k) : val.toNat ≤ (roundUp val pow2).toNat := by
  have hpos : 0 < 2 ^ k := Nat.two_pow_pos k
  have hdiv := Nat.div_add_mod' (val.toNat + 2 ^ k - 1) (2 ^ k)
  have hmod := Nat.mod_lt (val.toNat + 2 ^ k - 1) hpos
  rw [roundUp_toNat hk hpow hval]
  omega

end RoundUp

end Shamrock.Dsp
