import Shamrock.Dsp.HeapLayout

/-!
# Runs of a heap

Every reachable heap represents a layout. Blocks are lost only when a merged block is too long.
-/
namespace Shamrock.Dsp

open Segments Transition

variable {startAddr length : Nat} {onDemand : Bool} {hp hp' : Heap} {segs : List Seg}
  {size : UInt32} {act : HeapAction}

/-! ## Sizes -/

def BlockSized (hp : Heap) : Prop :=
  hp.blockSize = minBlockSize ∨ hp.blockSize = minCmemOndemandBlockSize

theorem BlockSized.le_roundUp (h : BlockSized hp) (hsize : hp.CanAsk size) :
    size.toNat ≤ (roundUp size hp.blockSize).toNat := by
  obtain ⟨-, hmax⟩ := hsize
  rcases h with hb | hb
  · rw [hb] at hmax ⊢
    exact Dsp.le_roundUp (k := 7) (by decide) rfl hmax
  · rw [hb] at hmax ⊢
    exact Dsp.le_roundUp (k := 12) (by decide) rfl hmax

theorem blockSize_step (h : heapStep hp act = some hp') : hp'.blockSize = hp.blockSize := by
  cases act with
  | malloc size =>
    simp only [heapStep] at h
    split at h
    · cases hcall : hp.malloc size with
      | none =>
        rw [hcall] at h
        cases h
        rfl
      | some r =>
        rw [hcall] at h
        obtain rfl := Option.some.inj h
        obtain ⟨_, _, rfl⟩ := Option.map_eq_some_iff.mp hcall
        rfl
    · cases h
  | free addr =>
    cases h
    simp only [Heap.free]
    split <;> rfl

/-! ## Layouts -/

/-- Nothing has been cut off. -/
def NoneLost (segs : List Seg) : Prop := ∀ s ∈ segs, s.kind ≠ .lost

/-- A step keeps the heap a layout, and loses nothing if the merged block fits. -/
theorem represents_step (hwrap : startAddr + length < 2 ^ 64) (hsize : BlockSized hp)
    (h : Represents startAddr length hp segs) (hstep : heapStep hp act = some hp') :
    ∃ segs', Represents startAddr length hp' segs' ∧
      (NoneLost segs → MergeFits hp act → NoneLost segs') := by
  cases act with
  | malloc size =>
    simp only [heapStep] at hstep
    split at hstep
    · rename_i hask
      cases hcall : hp.malloc size with
      | none =>
        rw [hcall] at hstep
        cases hstep
        exact ⟨segs, h, fun hlost _ => hlost⟩
      | some r =>
        obtain ⟨addr, hp''⟩ := r
        rw [hcall] at hstep
        cases hstep
        have hpos : 0 < (roundUp size hp.blockSize).toNat :=
          Nat.lt_of_lt_of_le hask.1 (hsize.le_roundUp hask)
        obtain ⟨segs', h', hlost'⟩ := malloc_represents hwrap h hpos hcall
        exact ⟨segs', h', fun hlost _ => hlost' hlost⟩
    · cases hstep
  | free addr =>
    cases hstep
    exact free_represents hwrap h addr

theorem represents_configure :
    Represents startAddr length (Heap.new.configure startAddr length onDemand)
      [⟨.free, length⟩] where
  layout := layout_nil.cons (by simp) (by simp) (by simp)
  free := rfl
  alloc := rfl
  total := by simp
  nonempty := by simp

theorem blockSized_configure : BlockSized (Heap.new.configure startAddr length onDemand) := by
  cases onDemand with
  | false => exact .inl rfl
  | true => exact .inr rfl

theorem represents_reachable (hwrap : startAddr + length < 2 ^ 64)
    (h : Reachable (heapSystem startAddr length onDemand) hp) :
    BlockSized hp ∧ ∃ segs, Represents startAddr length hp segs := by
  refine h.invariant (P := fun hp => BlockSized hp ∧ ∃ segs, Represents startAddr length hp segs)
    (fun hp hi => ?_) fun hp act hp' _ ⟨hsize, segs, hrep⟩ hstep => ?_
  · obtain rfl : hp = _ := hi
    exact ⟨blockSized_configure, _, represents_configure⟩
  · obtain ⟨segs', hrep', -⟩ := represents_step hwrap hsize hrep hstep
    exact ⟨(by rw [BlockSized, blockSize_step hstep]; exact hsize), segs', hrep'⟩

theorem whole_reachable (hwrap : startAddr + length < 2 ^ 64)
    (h : Reachable ((heapSystem startAddr length onDemand).restrict MergeFits) hp) :
    BlockSized hp ∧ ∃ segs, Represents startAddr length hp segs ∧ NoneLost segs := by
  refine h.invariant
    (P := fun hp => BlockSized hp ∧ ∃ segs, Represents startAddr length hp segs ∧ NoneLost segs)
    (fun hp hi => ?_)
    fun hp act hp' _ ⟨hsize, segs, hrep, hlost⟩ ⟨hstep, hfits⟩ => ?_
  · obtain rfl : hp = _ := hi
    exact ⟨blockSized_configure, _, represents_configure, by simp [NoneLost]⟩
  · obtain ⟨segs', hrep', hlost'⟩ := represents_step hwrap hsize hrep hstep
    exact ⟨(by rw [BlockSized, blockSize_step hstep]; exact hsize), segs', hrep',
      hlost' hlost hfits⟩

section Examples

variable (startAddr length : Nat) (onDemand : Bool) (acts : List HeapAction) (c : Heap → Bool)

theorem exists_heap
    (h : (exec heapStep (Heap.new.configure startAddr length onDemand) acts).map c = some true) :
    ∃ hp, Reachable (heapSystem startAddr length onDemand) hp ∧ c hp = true :=
  exists_exec (I := (· = Heap.new.configure startAddr length onDemand)) rfl acts c h

theorem exists_heap_fitting
    (h : (execGuarded heapStep (fun hp act => decide (MergeFits hp act))
      (Heap.new.configure startAddr length onDemand) acts).map c = some true) :
    ∃ hp, Reachable ((heapSystem startAddr length onDemand).restrict MergeFits) hp ∧ c hp = true :=
  exists_execGuarded (I := (· = Heap.new.configure startAddr length onDemand))
    MergeFits rfl acts c h

end Examples

/-! ## What clients see -/

theorem Represents.safe (h : Represents startAddr length hp segs) (hsize : BlockSized hp) :
    HeapSafe startAddr length hp where
  alloc := by
    rw [h.alloc]
    exact (blocks_pairwise _ _ _).imp fun hle => .inl hle
  free b hb b' hb' := by
    rw [h.alloc] at hb
    rw [h.free] at hb'
    exact blocks_apart (by simp) hb hb'
  within b hb := by
    rw [h.alloc] at hb
    rw [← h.total]
    exact blocks_bounds hb
  enough size hask addr hp' hcall := by
    obtain ⟨l₁, m, l₂, -, -, -, halloc'⟩ := malloc_split rfl hcall
    refine ⟨_, ?_, hsize.le_roundUp hask⟩
    rw [halloc']
    exact mem_set _ _ _
  refused addr hno := by
    simp only [Heap.free, find_none hno]

/-- No two blocks handed out overlap, whatever is allocated and freed. -/
theorem heap_never_overlaps (hwrap : startAddr + length < 2 ^ 64)
    (h : Reachable (heapSystem startAddr length onDemand) hp) : HeapSafe startAddr length hp := by
  obtain ⟨hsize, segs, hrep⟩ := represents_reachable hwrap h
  exact hrep.safe hsize

/-- Three blocks are taken, the first is given back twice and taken again in part. -/
theorem small_heap_never_overlaps : ∃ hp, hp.allocList = [(4096, 128), (4352, 256), (4608, 128)] ∧
    HeapSafe 4096 1024 hp := by
  obtain ⟨hp, hreach, hcheck⟩ := exists_heap 4096 1024 false
    [.malloc 200, .malloc 256, .malloc 1, .free 4096, .free 4096, .malloc 100]
    (fun hp => hp.allocList = [(4096, 128), (4352, 256), (4608, 128)]) (by decide +kernel)
  exact ⟨hp, of_decide_eq_true hcheck, heap_never_overlaps (by decide) hreach⟩

/-- Free segments are merged, so there is one if there is nothing else. -/
theorem Layout.eq_singleton (h : Layout segs) (hne : segs ≠ [])
    (hfree : ∀ s ∈ segs, s.kind = .free) : segs = [⟨.free, total segs⟩] := by
  match segs with
  | [] => exact absurd rfl hne
  | [s] => rw [total_cons, total_nil, Nat.add_zero, ← hfree s (by simp)]
  | s :: y :: segs =>
    have hbeside : Beside s y := (List.isChain_cons_cons.mp h.beside).1
    exact absurd (hfree y (by simp)) (hbeside (hfree s (by simp))).1

theorem Represents.whole (h : Represents startAddr length hp segs) (hlost : NoneLost segs) :
    HeapWhole startAddr length hp where
  sum := by
    rw [h.free, h.alloc, ← h.total]
    refine sum_blocks (by simp) fun s hs => ?_
    have hk := hlost s hs
    cases hkind : s.kind with
    | free => exact .inl rfl
    | allocated => exact .inr rfl
    | lost => exact absurd hkind hk
  merged := by
    rw [h.free]
    refine (free_blocks_gap h.layout).imp fun hgap => ?_
    omega
  whole hnone := by
    rw [h.alloc, blocks_eq_nil] at hnone
    have hfree : ∀ s ∈ segs, s.kind = .free := by
      intro s hs
      have hk := hlost s hs
      have hk' := hnone s hs
      cases hkind : s.kind <;> simp_all
    rw [h.free, h.layout.eq_singleton h.nonempty hfree, h.total]
    rfl

/-- As long as every block that is put together has less than 2^32 bytes, nothing is lost. -/
theorem heap_loses_nothing (hwrap : startAddr + length < 2 ^ 64)
    (h : Reachable ((heapSystem startAddr length onDemand).restrict MergeFits) hp) :
    HeapWhole startAddr length hp := by
  obtain ⟨-, segs, hrep, hlost⟩ := whole_reachable hwrap h
  exact hrep.whole hlost

theorem small_heap_loses_nothing : ∃ hp, hp.freeList = [(4096, 1024)] ∧
    HeapWhole 4096 1024 hp := by
  obtain ⟨hp, hreach, hcheck⟩ := exists_heap_fitting 4096 1024 false
    [.malloc 200, .malloc 256, .malloc 1, .free 4096, .free 4608, .free 4352]
    (fun hp => hp.freeList = [(4096, 1024)]) (by decide +kernel)
  exact ⟨hp, of_decide_eq_true hcheck, heap_loses_nothing (by decide) hreach⟩

/-- In a heap of 4 GB the first block that is given back leaves an empty heap. -/
theorem large_heap_lost : ¬ ∀ (startAddr length : Nat) (onDemand : Bool) (hp : Heap),
    length ≤ 2 ^ 63 → startAddr + length < 2 ^ 64 →
    Reachable (heapSystem startAddr length onDemand) hp → HeapWhole startAddr length hp := by
  intro h
  obtain ⟨hp, hreach, hcheck⟩ := exists_heap (2 ^ 31) (2 ^ 32) false
    [.malloc 128, .free (2 ^ 31)]
    (fun hp => hp.allocList = [] ∧ hp.freeList = [(2 ^ 31, 0)]) (by decide +kernel)
  obtain ⟨halloc, hfree⟩ := of_decide_eq_true hcheck
  have hwhole := (h _ _ false hp (by decide) (by decide) hreach).whole halloc
  rw [hfree] at hwhole
  simp at hwhole

end Shamrock.Dsp
