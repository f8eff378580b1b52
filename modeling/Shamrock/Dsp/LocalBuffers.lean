import Shamrock.Dsp.Heap
import Shamrock.Codes

/-!
# Local buffers of a kernel

When a kernel is sent to the DSP, its `__local` arguments get addresses in the largest free block of
the L2 heap. The block is only looked at. Addresses and sizes of the arguments have 32 bits.
-/
namespace Shamrock.Dsp

open Transition

/-- What `max_block_size` answers. -/
structure Scratch where
  addr : Nat
  size : Nat
  blockSize : UInt32
  deriving DecidableEq, Repr

/-- The last of the largest blocks; the search begins with the block size. -/
def Heap.maxBlockSize (h : Heap) : Scratch :=
  if h.length < h.blockSize.toNat then ⟨0, 0, h.blockSize⟩
  else
    let r := h.freeList.foldl (fun m b => if m.2 ≤ b.2 then b else m) (0, h.blockSize.toNat)
    ⟨r.1, r.2, h.blockSize⟩

/-- The loop of `DSPKernelEvent::run` over `p_local_bufs`: address and rounded size of each
buffer. -/
def assignLocal (localScratch totalSz blockSz : UInt32) :
    List UInt32 → Except Int (List (UInt32 × UInt32))
  | [] => .ok []
  | size :: sizes =>
    let roundedSz := roundUp size blockSz
    if totalSz < roundedSz then .error clMemObjectAllocationFailure
    else (assignLocal (localScratch + roundedSz) (totalSz - roundedSz) blockSz sizes).map
      fun ranges => (localScratch, roundedSz) :: ranges

/-- The local buffers of a run, from `get_local_scratch` on. -/
def Heap.localBuffers (h : Heap) (sizes : List UInt32) : Except Int (List (UInt32 × UInt32)) :=
  let s := h.maxBlockSize
  assignLocal s.addr.toUInt32 s.size.toUInt32 s.blockSize sizes

def asRange (r : UInt32 × UInt32) : Nat × Nat := (r.1.toNat, r.2.toNat)

/-- The buffers lie apart from each other in the free block that was found, and are large enough. -/
structure PlacedIn (h : Heap) (sizes : List UInt32) (ranges : List (UInt32 × UInt32)) : Prop where
  enough : List.Forall₂ (fun size r => size.toNat ≤ r.2.toNat) sizes ranges
  apart : (ranges.map asRange).Pairwise Apart
  inside : (∃ r ∈ ranges, 0 < r.2.toNat) →
    (h.maxBlockSize.addr, h.maxBlockSize.size) ∈ h.freeList ∧
    ∀ r ∈ ranges, 0 < r.2.toNat → h.maxBlockSize.addr ≤ r.1.toNat ∧
      r.1.toNat + r.2.toNat ≤ h.maxBlockSize.addr + h.maxBlockSize.size

/-- What is promised of the local buffers. -/
def LocalBuffersSafe (h : Heap) (sizes : List UInt32) : Prop :=
  (∀ ranges, h.localBuffers sizes = .ok ranges → PlacedIn h sizes ranges) ∧
  ((∀ b ∈ h.freeList, b.2 < h.blockSize.toNat) → (∃ size ∈ sizes, 0 < size.toNat) →
    ∃ e, h.localBuffers sizes = .error e)

/-- The rounded sizes together. -/
def roundedTotal (blockSz : UInt32) (sizes : List UInt32) : Nat :=
  (sizes.map fun size => (roundUp size blockSz).toNat).sum

/-- The buffers are larger than a minimal block and than every free block, or there is no minimal
block at all. -/
def Heap.TooSmall (h : Heap) (sizes : List UInt32) : Prop :=
  0 < roundedTotal h.blockSize sizes ∧ (h.length < h.blockSize.toNat ∨
    h.blockSize.toNat < roundedTotal h.blockSize sizes ∧
    ∀ b ∈ h.freeList, b.2 < roundedTotal h.blockSize sizes)

/-- Calls on the L2 heap, of any size. -/
def l2Step (h : Heap) : HeapAction → Option Heap
  | .malloc size => some ((h.malloc size).elim h Prod.snd)
  | .free addr => some (h.free addr).2

/-- Address and size of the local memory have 32 bits. -/
def l2System (addrLocalMem sizeLocalMem : UInt32) : LTS Heap HeapAction :=
  ofStep (fun h => h = Heap.new.configure addrLocalMem.toNat sizeLocalMem.toNat false) l2Step

variable {startAddr length size : Nat} {h h' : Heap} {a : HeapAction} {l : BlockList}
  {b m : Nat × Nat} {sizes : List UInt32} {ranges : List (UInt32 × UInt32)}

/-! ## The blocks of the heap -/

/-- A block of the range that the heap was configured with. -/
def InRange (startAddr length : Nat) (b : Nat × Nat) : Prop :=
  startAddr ≤ b.1 ∧ b.1 + b.2 ≤ startAddr + length

structure Within (startAddr length : Nat) (h : Heap) : Prop where
  free : ∀ b ∈ h.freeList, InRange startAddr length b
  alloc : ∀ b ∈ h.allocList, InRange startAddr length b
  length : h.length = length
  blockSize : h.blockSize = minBlockSize

theorem mem_of_mem_set {addr : Nat} (hb : b ∈ BlockList.set addr size l) :
    b = (addr, size) ∨ b ∈ l := by
  induction l with
  | nil => exact Or.inl (List.mem_singleton.mp hb)
  | cons c l ih =>
    unfold BlockList.set at hb
    split_ifs at hb
    · exact List.mem_cons.mp hb
    · rcases List.mem_cons.mp hb with rfl | hl
      · exact Or.inl rfl
      · exact Or.inr (List.mem_cons_of_mem c hl)
    · rcases List.mem_cons.mp hb with rfl | hl
      · exact Or.inr List.mem_cons_self
      · exact (ih hl).imp id (List.mem_cons_of_mem c)

/-- A block next to one of the range, merged with it. -/
theorem merged_in_range {addr : Nat} (hend : startAddr + length < 2 ^ 64)
    (hb : InRange startAddr length b) (hnew : InRange startAddr length (addr, size))
    (hnext : (b.1 + b.2) % 2 ^ 64 = addr ∨ (addr + size) % 2 ^ 64 = b.1) :
    InRange startAddr length (if b.1 < addr then b.1 else addr, (b.2 + size) % 2 ^ 32) := by
  obtain ⟨hlow, hhigh⟩ := hb
  obtain ⟨hlow', hhigh'⟩ := hnew
  have hcut := Nat.mod_le (b.2 + size) (2 ^ 32)
  dsimp only at hlow' hhigh'
  rw [Nat.mod_eq_of_lt (by omega), Nat.mod_eq_of_lt (by omega)] at hnext
  unfold InRange
  split_ifs <;> dsimp only <;> omega

/-- Merging stays in the range, also when the size is cut to 32 bits. -/
theorem merge_in_range {addr : Nat} (hend : startAddr + length < 2 ^ 64)
    (hl : ∀ b ∈ l, InRange startAddr length b) (hb : InRange startAddr length (addr, size)) :
    InRange startAddr length ((Heap.merge addr size l).addr, (Heap.merge addr size l).size) ∧
    ∀ b ∈ (Heap.merge addr size l).rest, b ∈ l := by
  induction l generalizing addr size with
  | nil => exact ⟨hb, fun b hb => absurd hb List.not_mem_nil⟩
  | cons c l ih =>
    have hc := hl c List.mem_cons_self
    have hl' : ∀ b ∈ l, InRange startAddr length b := fun b hb => hl b (List.mem_cons_of_mem c hb)
    by_cases hnext : (c.1 + c.2) % 2 ^ 64 = addr ∨ (addr + size) % 2 ^ 64 = c.1
    · rw [Heap.merge, if_pos hnext]
      obtain ⟨hrange, hrest⟩ := ih hl' (merged_in_range hend hc hb hnext)
      exact ⟨hrange, fun b hb => List.mem_cons_of_mem c (hrest b hb)⟩
    · rw [Heap.merge, if_neg hnext]
      obtain ⟨hrange, hrest⟩ := ih hl' hb
      refine ⟨hrange, fun b hb => ?_⟩
      rcases List.mem_cons.mp hb with rfl | hb
      · exact List.mem_cons_self
      · exact List.mem_cons_of_mem c (hrest b hb)

theorem initial_within :
    Within startAddr length (Heap.new.configure startAddr length false) where
  free b hb := by
    obtain rfl := List.mem_singleton.mp hb
    exact ⟨Nat.le_refl startAddr, Nat.le_refl (startAddr + length)⟩
  alloc b hb := absurd hb List.not_mem_nil
  length := rfl
  blockSize := rfl

theorem malloc_within {size : UInt32} {addr : Nat} (hend : startAddr + length < 2 ^ 64)
    (hw : Within startAddr length h) (hcall : h.malloc size = some (addr, h')) :
    Within startAddr length h' := by
  obtain ⟨r, htake, heq⟩ := Option.map_eq_some_iff.mp hcall
  obtain ⟨l₁, m, l₂, hfree, hle, hfree', halloc'⟩ := malloc_split rfl hcall
  have hm : InRange startAddr length (addr, m) := hw.free (addr, m) (by simp [hfree])
  have hrest : ∀ b ∈ l₁ ++ l₂, InRange startAddr length b := by
    intro b hb
    apply hw.free b
    rw [hfree]
    rcases List.mem_append.mp hb with hb | hb <;> simp [hb]
  unfold InRange at hm
  refine ⟨fun b hb => ?_, fun b hb => ?_, ?_, ?_⟩
  · rw [hfree'] at hb
    split_ifs at hb with hlt
    · rcases mem_of_mem_set hb with rfl | hb
      · unfold InRange
        dsimp only at hm ⊢
        rw [Nat.mod_eq_of_lt (by omega)]
        omega
      · exact hrest b hb
    · exact hrest b hb
  · rw [halloc'] at hb
    rcases mem_of_mem_set hb with rfl | hb
    · unfold InRange
      dsimp only at hm ⊢
      omega
    · exact hw.alloc b hb
  · rw [← (Prod.mk.inj heq).2]
    exact hw.length
  · rw [← (Prod.mk.inj heq).2]
    exact hw.blockSize

theorem free_within (addr : Nat) (hend : startAddr + length < 2 ^ 64)
    (hw : Within startAddr length h) : Within startAddr length (h.free addr).2 := by
  cases hfind : h.allocList.find addr with
  | none =>
    simp only [Heap.free, hfind]
    exact hw
  | some size =>
    obtain ⟨l₁, l₂, halloc, halloc', hfree'⟩ := free_split hfind
    have hb : InRange startAddr length (addr, size % 2 ^ 32) := by
      have hsize : InRange startAddr length (addr, size) :=
        hw.alloc (addr, size) (by simp [halloc])
      have hcut := Nat.mod_le size (2 ^ 32)
      exact ⟨hsize.1, Nat.le_trans (Nat.add_le_add_left hcut addr) hsize.2⟩
    obtain ⟨hrange, hrest⟩ := merge_in_range hend hw.free hb
    refine ⟨fun b hb => ?_, fun b hb => ?_, ?_, ?_⟩
    · rw [hfree'] at hb
      rcases mem_of_mem_set hb with rfl | hb
      · exact hrange
      · exact hw.free b (hrest b hb)
    · rw [halloc'] at hb
      apply hw.alloc b
      rw [halloc]
      rcases List.mem_append.mp hb with hb | hb <;> simp [hb]
    · simp only [Heap.free, hfind]
      exact hw.length
    · simp only [Heap.free, hfind]
      exact hw.blockSize

theorem step_within (hend : startAddr + length < 2 ^ 64) (hw : Within startAddr length h)
    (hstep : l2Step h a = some h') : Within startAddr length h' := by
  cases a with
  | malloc size =>
    obtain rfl := Option.some.inj hstep
    cases hcall : h.malloc size with
    | none => exact hw
    | some r => exact malloc_within hend hw hcall
  | free addr =>
    obtain rfl := Option.some.inj hstep
    exact free_within addr hend hw

theorem reachable_within {addrLocalMem sizeLocalMem : UInt32}
    (hreach : Reachable (l2System addrLocalMem sizeLocalMem) h) :
    Within addrLocalMem.toNat sizeLocalMem.toNat h := by
  have hend : addrLocalMem.toNat + sizeLocalMem.toNat < 2 ^ 64 := by
    have haddr := addrLocalMem.toNat_lt
    have hsize := sizeLocalMem.toNat_lt
    omega
  apply hreach.invariant
  · intro h hinit
    obtain rfl : h = _ := hinit
    exact initial_within
  · intro h a h' _ hw hstep
    exact step_within hend hw hstep

/-! ## The largest block -/

/-- The search keeps a block that is at least as large as all it has seen, or what it began with. -/
theorem largest_spec (m : Nat × Nat) (l : BlockList) :
    let r := l.foldl (fun m b => if m.2 ≤ b.2 then b else m) m
    m.2 ≤ r.2 ∧ (∀ b ∈ l, b.2 ≤ r.2) ∧ (r ∈ l ∨ r = m ∧ ∀ b ∈ l, b.2 < m.2) := by
  induction l generalizing m with
  | nil => exact ⟨Nat.le_refl m.2, nofun, Or.inr ⟨rfl, nofun⟩⟩
  | cons b l ih =>
    by_cases hb : m.2 ≤ b.2
    · simp only [List.foldl_cons, if_pos hb]
      obtain ⟨hle, hall, hmem⟩ := ih b
      refine ⟨Nat.le_trans hb hle, ?_, Or.inl ?_⟩
      · intro c hc
        rcases List.mem_cons.mp hc with rfl | hc
        · exact hle
        · exact hall c hc
      · rcases hmem with hmem | ⟨heq, -⟩
        · exact List.mem_cons_of_mem b hmem
        · rw [heq]
          exact List.mem_cons_self
    · simp only [List.foldl_cons, if_neg hb]
      obtain ⟨hle, hall, hmem⟩ := ih m
      refine ⟨hle, ?_, ?_⟩
      · intro c hc
        rcases List.mem_cons.mp hc with rfl | hc
        · omega
        · exact hall c hc
      · rcases hmem with hmem | ⟨heq, hsmall⟩
        · exact Or.inl (List.mem_cons_of_mem b hmem)
        · refine Or.inr ⟨heq, fun c hc => ?_⟩
          rcases List.mem_cons.mp hc with rfl | hc
          · omega
          · exact hsmall c hc

/-- What is found in a heap of at least one block. -/
theorem maxBlockSize_spec (hlen : h.blockSize.toNat ≤ h.length) :
    h.blockSize.toNat ≤ h.maxBlockSize.size ∧ (∀ b ∈ h.freeList, b.2 ≤ h.maxBlockSize.size) ∧
    ((h.maxBlockSize.addr, h.maxBlockSize.size) ∈ h.freeList ∨
      h.maxBlockSize.size = h.blockSize.toNat ∧ ∀ b ∈ h.freeList, b.2 < h.blockSize.toNat) := by
  obtain ⟨hle, hall, hmem⟩ := largest_spec (0, h.blockSize.toNat) h.freeList
  rw [Heap.maxBlockSize, if_neg (by omega)]
  refine ⟨hle, hall, ?_⟩
  rcases hmem with hmem | ⟨heq, hsmall⟩
  · exact Or.inl hmem
  · exact Or.inr ⟨by rw [heq], hsmall⟩

theorem maxBlockSize_blockSize (h : Heap) : h.maxBlockSize.blockSize = h.blockSize := by
  unfold Heap.maxBlockSize
  split_ifs <;> rfl

theorem maxBlockSize_le (hw : Within startAddr length h) : h.maxBlockSize.size ≤ length := by
  by_cases hlen : h.blockSize.toNat ≤ h.length
  · obtain ⟨-, -, hmem | ⟨heq, -⟩⟩ := maxBlockSize_spec hlen
    · have hin := hw.free _ hmem
      unfold InRange at hin
      dsimp only at hin
      omega
    · rw [heq, ← hw.length]
      exact hlen
  · rw [Heap.maxBlockSize, if_pos (by omega)]
    exact Nat.zero_le length

/-- The request is refused exactly when its rounded sizes exceed what was found. -/
theorem tooSmall_iff :
    h.TooSmall sizes ↔ h.maxBlockSize.size < roundedTotal h.blockSize sizes := by
  unfold Heap.TooSmall
  by_cases hlen : h.blockSize.toNat ≤ h.length
  · obtain ⟨hle, hall, hmem⟩ := maxBlockSize_spec hlen
    constructor
    · rintro ⟨-, hshort | ⟨hblock, hfree⟩⟩
      · omega
      · rcases hmem with hmem | ⟨heq, -⟩
        · exact hfree _ hmem
        · omega
    · intro hlt
      refine ⟨by omega, Or.inr ⟨by omega, fun b hb => ?_⟩⟩
      have hb := hall b hb
      omega
  · have hzero : h.maxBlockSize.size = 0 := by rw [Heap.maxBlockSize, if_pos (by omega)]
    rw [hzero]
    exact ⟨fun hlt => hlt.1, fun hlt => ⟨hlt, Or.inl (by omega)⟩⟩

/-! ## The buffers -/

section Assign

variable {scratch totalSz blockSz : UInt32}

theorem roundedTotal_cons (size : UInt32) :
    roundedTotal blockSz (size :: sizes) =
      (roundUp size blockSz).toNat + roundedTotal blockSz sizes := by
  simp [roundedTotal]

theorem assignLocal_ok_iff : (∃ ranges, assignLocal scratch totalSz blockSz sizes = .ok ranges) ↔
    roundedTotal blockSz sizes ≤ totalSz.toNat := by
  induction sizes generalizing scratch totalSz with
  | nil => exact ⟨fun _ => Nat.zero_le totalSz.toNat, fun _ => ⟨[], rfl⟩⟩
  | cons size sizes ih =>
    rw [roundedTotal_cons]
    by_cases hlt : totalSz < roundUp size blockSz
    · have hltNat := UInt32.lt_iff_toNat_lt.mp hlt
      rw [assignLocal, if_pos hlt]
      exact ⟨nofun, fun hle => absurd hle (by omega)⟩
    · have hle : roundUp size blockSz ≤ totalSz := UInt32.not_lt.mp hlt
      have hleNat := UInt32.le_iff_toNat_le.mp hle
      have hih : (∃ ranges, assignLocal (scratch + roundUp size blockSz)
          (totalSz - roundUp size blockSz) blockSz sizes = .ok ranges) ↔ _ := ih
      rw [UInt32.toNat_sub_of_le _ _ hle] at hih
      rw [assignLocal, if_neg hlt]
      constructor
      · rintro ⟨ranges, hranges⟩
        cases hrest : assignLocal (scratch + roundUp size blockSz)
            (totalSz - roundUp size blockSz) blockSz sizes with
        | error e =>
          rw [hrest] at hranges
          cases hranges
        | ok rest =>
          have hsum := hih.mp ⟨rest, hrest⟩
          omega
      · intro hsum
        obtain ⟨rest, hrest⟩ := hih.mpr (by omega)
        rw [hrest]
        exact ⟨_, rfl⟩

/-- The two steps of a loop that goes through. -/
theorem assignLocal_cons {size : UInt32}
    (hok : assignLocal scratch totalSz blockSz (size :: sizes) = .ok ranges) :
    roundUp size blockSz ≤ totalSz ∧ ∃ rest, ranges = (scratch, roundUp size blockSz) :: rest ∧
      assignLocal (scratch + roundUp size blockSz) (totalSz - roundUp size blockSz) blockSz sizes =
        .ok rest := by
  by_cases hlt : totalSz < roundUp size blockSz
  · rw [assignLocal, if_pos hlt] at hok
    cases hok
  · rw [assignLocal, if_neg hlt] at hok
    cases hrest : assignLocal (scratch + roundUp size blockSz)
        (totalSz - roundUp size blockSz) blockSz sizes with
    | error e =>
      rw [hrest] at hok
      cases hok
    | ok rest =>
      rw [hrest] at hok
      cases hok
      exact ⟨UInt32.not_lt.mp hlt, rest, rfl, rfl⟩

/-- Each buffer gets its rounded size. -/
theorem assignLocal_sizes (hok : assignLocal scratch totalSz blockSz sizes = .ok ranges) :
    ranges.map Prod.snd = sizes.map fun size => roundUp size blockSz := by
  induction sizes generalizing scratch totalSz ranges with
  | nil =>
    cases hok
    rfl
  | cons size sizes ih =>
    obtain ⟨-, rest, rfl, hrest⟩ := assignLocal_cons hok
    rw [List.map_cons, List.map_cons, ih hrest]

theorem enough_iff (hok : assignLocal scratch totalSz blockSz sizes = .ok ranges) :
    List.Forall₂ (fun size r => size.toNat ≤ r.2.toNat) sizes ranges ↔
      ∀ size ∈ sizes, size.toNat ≤ (roundUp size blockSz).toNat := by
  induction sizes generalizing scratch totalSz ranges with
  | nil =>
    cases hok
    exact ⟨fun _ => nofun, fun _ => .nil⟩
  | cons size sizes ih =>
    obtain ⟨-, rest, rfl, hrest⟩ := assignLocal_cons hok
    rw [List.forall₂_cons, ih hrest, List.forall_mem_cons]

/-- A buffer between two addresses; an empty one may also have wrapped to address 0. -/
def Between (low high : Nat) (r : UInt32 × UInt32) : Prop :=
  r.1.toNat = 0 ∧ r.2.toNat = 0 ∨ low ≤ r.1.toNat ∧ r.1.toNat + r.2.toNat ≤ high

/-- The buffers follow each other. The address of the next one is `p`, which is 2^32 when nothing
is left of a block that ends there. -/
theorem assignLocal_between {p : Nat} (hp : scratch.toNat = p % 2 ^ 32)
    (hend : p + totalSz.toNat ≤ 2 ^ 32)
    (hok : assignLocal scratch totalSz blockSz sizes = .ok ranges) :
    (∀ r ∈ ranges, Between p (p + totalSz.toNat) r) ∧
    (ranges.map asRange).Pairwise Apart := by
  induction sizes generalizing scratch totalSz ranges p with
  | nil =>
    cases hok
    exact ⟨nofun, List.Pairwise.nil⟩
  | cons size sizes ih =>
    obtain ⟨hle, rest, rfl, hrest⟩ := assignLocal_cons hok
    have hleNat := UInt32.le_iff_toNat_le.mp hle
    have hleft := UInt32.toNat_sub_of_le _ _ hle
    obtain ⟨hbetween, hapart⟩ := ih (p := p + (roundUp size blockSz).toNat)
      (by rw [UInt32.toNat_add, hp]; omega) (by rw [hleft]; omega) hrest
    rw [hleft] at hbetween
    refine ⟨?_, List.pairwise_cons.mpr ⟨?_, hapart⟩⟩
    · intro r hr
      rcases List.mem_cons.mp hr with rfl | hr
      · unfold Between
        dsimp only
        omega
      · have hr := hbetween r hr
        unfold Between at hr ⊢
        omega
    · intro b hb
      obtain ⟨r, hr, rfl⟩ := List.mem_map.mp hb
      have hr := hbetween r hr
      unfold Between at hr
      unfold Apart asRange
      dsimp only
      omega

end Assign

/-! ## Rounding in 32 bits -/

/-- Larger sizes wrap around. -/
theorem le_roundUp_iff (size : UInt32) :
    size.toNat ≤ (roundUp size minBlockSize).toNat ↔
      size.toNat ≤ 2 ^ 32 - minBlockSize.toNat := by
  constructor
  · intro hle
    by_contra hlarge
    have hsize := size.toNat_lt
    have hsum : (size + minBlockSize - 1).toNat = size.toNat + 127 - 2 ^ 32 := by
      rw [UInt32.toNat_sub, UInt32.toNat_add]
      change (2 ^ 32 - 1 + (size.toNat + 128) % 2 ^ 32) % 2 ^ 32 = _
      change ¬ size.toNat ≤ 2 ^ 32 - 128 at hlarge
      omega
    have hzero : (roundUp size minBlockSize).toNat = 0 := by
      rw [roundUp, UInt32.toNat_and, hsum]
      change (size.toNat + 127 - 2 ^ 32) &&& (2 ^ 32 - 2 ^ 7) = 0
      rw [and_mask _ 7 (by omega) (by omega)]
      omega
    change ¬ size.toNat ≤ 2 ^ 32 - 128 at hlarge
    omega
  · exact le_roundUp (k := 7) (by decide) rfl

/-! ## The local buffers of a run -/

section Safe

variable {addrLocalMem sizeLocalMem : UInt32}

theorem localBuffers_ok_iff (hw : Within startAddr sizeLocalMem.toNat h) :
    (∃ ranges, h.localBuffers sizes = .ok ranges) ↔ ¬ h.TooSmall sizes := by
  have hsize : h.maxBlockSize.size.toUInt32.toNat = h.maxBlockSize.size :=
    Nat.mod_eq_of_lt (Nat.lt_of_le_of_lt (maxBlockSize_le hw) sizeLocalMem.toNat_lt)
  rw [tooSmall_iff, Nat.not_lt, Heap.localBuffers, assignLocal_ok_iff, hsize,
    maxBlockSize_blockSize]

/-- Buffers in a block that was found, if none of the sizes wraps. -/
theorem placed_of_found (hend : startAddr + sizeLocalMem.toNat ≤ 2 ^ 32)
    (hw : Within startAddr sizeLocalMem.toNat h)
    (hfound : (h.maxBlockSize.addr, h.maxBlockSize.size) ∈ h.freeList)
    (hsizes : ∀ size ∈ sizes, size.toNat ≤ 2 ^ 32 - minBlockSize.toNat)
    (hok : h.localBuffers sizes = .ok ranges) : PlacedIn h sizes ranges := by
  have hin := hw.free _ hfound
  unfold InRange at hin
  dsimp only at hin
  have hsize : h.maxBlockSize.size.toUInt32.toNat = h.maxBlockSize.size :=
    Nat.mod_eq_of_lt (Nat.lt_of_le_of_lt (maxBlockSize_le hw) sizeLocalMem.toNat_lt)
  obtain ⟨hbetween, hapart⟩ :=
    assignLocal_between (p := h.maxBlockSize.addr) rfl (by rw [hsize]; omega) hok
  rw [hsize] at hbetween
  refine ⟨(enough_iff hok).mpr ?_, hapart, fun _ => ⟨hfound, ?_⟩⟩
  · intro size hmem
    rw [maxBlockSize_blockSize, hw.blockSize]
    exact (le_roundUp_iff size).mpr (hsizes size hmem)
  · intro r hr hpos
    rcases hbetween r hr with ⟨-, hzero⟩ | hbounds
    · omega
    · exact hbounds

/-- Requests for nothing get empty buffers. -/
theorem placed_of_empty (hw : Within startAddr length h) (hzero : ∀ size ∈ sizes, size = 0)
    (hok : h.localBuffers sizes = .ok ranges) : PlacedIn h sizes ranges := by
  have hround : ∀ r ∈ ranges, r.2.toNat = 0 := by
    intro r hr
    have hmem : r.2 ∈ sizes.map fun size => roundUp size h.maxBlockSize.blockSize :=
      assignLocal_sizes hok ▸ List.mem_map_of_mem hr
    obtain ⟨size, hsize, heq⟩ := List.mem_map.mp hmem
    rw [← heq, hzero size hsize, maxBlockSize_blockSize, hw.blockSize]
    rfl
  refine ⟨(enough_iff hok).mpr ?_, ?_, ?_⟩
  · intro size hsize
    rw [hzero size hsize]
    exact Nat.zero_le _
  · apply List.pairwise_of_forall_mem_list
    intro b hb b' hb'
    obtain ⟨r, hr, rfl⟩ := List.mem_map.mp hb
    obtain ⟨r', hr', rfl⟩ := List.mem_map.mp hb'
    have hzero := hround r hr
    have hzero' := hround r' hr'
    unfold Apart asRange
    dsimp only
    omega
  · rintro ⟨r, hr, hpos⟩
    have hzero := hround r hr
    omega

/-- The local buffers are disjoint and free exactly when the request asks for nothing, or is larger
than the heap can serve, or finds a free block and asks for no size that wraps when it is rounded.
A heap with no free block answers with its block size. -/
theorem local_buffers_safe_iff (haddr : addrLocalMem.toNat + sizeLocalMem.toNat ≤ 2 ^ 32)
    (hreach : Reachable (l2System addrLocalMem sizeLocalMem) h) :
    LocalBuffersSafe h sizes ↔
      (∀ size ∈ sizes, size = 0) ∨ h.TooSmall sizes ∨
      (∃ b ∈ h.freeList, h.blockSize.toNat ≤ b.2) ∧
        ∀ size ∈ sizes, size.toNat ≤ 2 ^ 32 - h.blockSize.toNat := by
  have hw := reachable_within hreach
  constructor
  · rintro ⟨hplaced, hfull⟩
    by_cases hempty : ∀ size ∈ sizes, size = 0
    · exact Or.inl hempty
    by_cases hsmall : h.TooSmall sizes
    · exact Or.inr (Or.inl hsmall)
    obtain ⟨ranges, hok⟩ := (localBuffers_ok_iff hw).mpr hsmall
    refine Or.inr (Or.inr ⟨?_, ?_⟩)
    · by_contra hnone
      have hpos : ∃ size ∈ sizes, 0 < size.toNat := by
        push Not at hempty
        obtain ⟨size, hmem, hne⟩ := hempty
        exact ⟨size, hmem, Nat.pos_of_ne_zero fun h0 => hne (UInt32.toNat_inj.mp h0)⟩
      have hsmaller : ∀ b ∈ h.freeList, b.2 < h.blockSize.toNat := by
        intro b hb
        by_contra hle
        exact hnone ⟨b, hb, Nat.not_lt.mp hle⟩
      obtain ⟨e, herror⟩ := hfull hsmaller hpos
      rw [hok] at herror
      cases herror
    · intro size hmem
      have henough := (enough_iff hok).mp (hplaced ranges hok).enough size hmem
      rw [maxBlockSize_blockSize, hw.blockSize] at henough
      rw [hw.blockSize]
      exact (le_roundUp_iff size).mp henough
  · rintro (hempty | hsmall | ⟨⟨b, hb, hle⟩, hsizes⟩)
    · refine ⟨fun ranges hok => placed_of_empty hw hempty hok, ?_⟩
      rintro - ⟨size, hmem, hpos⟩
      rw [hempty size hmem] at hpos
      exact absurd hpos (by decide)
    · have hrefused := mt (localBuffers_ok_iff hw).mp (not_not.mpr hsmall)
      cases hresult : h.localBuffers sizes with
      | error e =>
        refine ⟨fun ranges hok => ?_, fun _ _ => ⟨e, hresult⟩⟩
        rw [hresult] at hok
        cases hok
      | ok ranges => exact absurd ⟨ranges, hresult⟩ hrefused
    · have hlen : h.blockSize.toNat ≤ h.length := by
        have hin := hw.free b hb
        unfold InRange at hin
        rw [hw.length]
        omega
      obtain ⟨-, -, hfound | ⟨-, hnone⟩⟩ := maxBlockSize_spec hlen
      · rw [hw.blockSize] at hsizes
        refine ⟨fun ranges hok => placed_of_found haddr hw hfound hsizes hok, ?_⟩
        intro hnone
        exact absurd (hnone b hb) (by omega)
      · exact absurd (hnone b hb) (by omega)

/-- A heap of two minimal blocks serves three requests for nothing, and one byte and 200 bytes
exceed it. -/
theorem small_heap_safe :
    LocalBuffersSafe (Heap.new.configure 0x00800000 256 false) [1, 100] ∧
    (Heap.new.configure 0x00800000 256 false).localBuffers [1, 100] =
      .ok [(0x00800000, 128), (0x00800080, 128)] := by
  have hreach : Reachable (l2System 0x00800000 256) (Heap.new.configure 0x00800000 256 false) :=
    .initial rfl
  have hsizes : ∀ size ∈ [(1 : UInt32), 100], size.toNat ≤ 2 ^ 32 - minBlockSize.toNat :=
    List.forall_mem_cons.mpr ⟨by decide, List.forall_mem_cons.mpr ⟨by decide, nofun⟩⟩
  exact ⟨(local_buffers_safe_iff (by decide) hreach).mpr
    (Or.inr (Or.inr ⟨⟨(0x00800000, 256), List.mem_cons_self, by decide⟩, hsizes⟩)), by decide⟩

/-- When everything is allocated, a request for one byte still gets address 0. -/
theorem full_heap_answers_zero :
    ∃ h, Reachable (l2System 0x00800000 0x20000) h ∧ h.freeList = [] ∧
      h.localBuffers [1] = .ok [(0, 128)] ∧ ¬ LocalBuffersSafe h [1] := by
  let h : Heap := ⟨[], [(0x00800000, 0x20000)], 0x00800000, 0x20000, 128⟩
  have hreach : Reachable (l2System 0x00800000 0x20000) h :=
    .step (s := Heap.new.configure 0x00800000 0x20000 false) (a := .malloc 0x20000) (.initial rfl)
      rfl
  have hanswer : h.localBuffers [1] = .ok [(0, 128)] := by decide
  refine ⟨h, hreach, rfl, hanswer, fun hsafe => ?_⟩
  obtain ⟨e, herror⟩ := hsafe.2 (fun b hb => absurd hb List.not_mem_nil)
    ⟨1, List.mem_singleton_self 1, by decide⟩
  rw [hanswer] at herror
  cases herror

end Safe

end Shamrock.Dsp
