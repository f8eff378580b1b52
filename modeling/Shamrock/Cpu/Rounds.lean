import Shamrock.Cpu.WorkGroup
import Mathlib.Data.List.Nodup
import Mathlib.Data.List.ProdSigma

/-! How a thread goes round the work-items of a group that call `barrier()` equally often. -/
namespace Shamrock.Cpu

open Odometer

variable {g : WorkGroup} {w : Worker} {r r' r'' : Run} {a i j k : Nat}

namespace WorkGroup

/-- The size of the work-group. -/
def workItems (g : WorkGroup) : Nat := (g.event.dims.map fun d => d.localWorkSize.toNat).prod

theorem foldl_mul_mod (l : List WorkSize) (n : Nat) (hn : n < 2 ^ 32) :
    l.foldl (fun n d => n * d.localWorkSize.toNat % 2 ^ 32) n =
      n * (l.map fun d => d.localWorkSize.toNat).prod % 2 ^ 32 := by
  induction l generalizing n with
  | nil => rw [List.foldl_nil, List.map_nil, List.prod_nil, Nat.mul_one, Nat.mod_eq_of_lt hn]
  | cons d l ih =>
    rw [List.foldl_cons, ih _ (Nat.mod_lt _ (by decide)), List.map_cons, List.prod_cons,
      Nat.mod_mul_mod, Nat.mul_assoc]

theorem numWorkItems_eq (g : WorkGroup) : g.numWorkItems = g.workItems % 2 ^ 32 := by
  rw [numWorkItems, foldl_mul_mod _ _ (by decide), Nat.one_mul]
  rfl

theorem numWorkItems_lt (g : WorkGroup) : g.numWorkItems < 2 ^ 32 := by
  rw [numWorkItems_eq]
  exact Nat.mod_lt _ (by decide)

theorem numWorkItems_le (g : WorkGroup) : g.numWorkItems ≤ g.workItems := by
  rw [numWorkItems_eq]
  exact Nat.mod_le _ _

theorem size_maxLocalId (g : WorkGroup) : size (nats g.group.maxLocalId) = g.workItems := by
  have h := g.event.accepted
  unfold workItems group CPUKernelWorkGroup.create
  generalize g.event.dims = ds at h
  induction ds with
  | nil => rfl
  | cons d ds ih =>
    have ih' := ih fun x hx => h x (List.mem_cons_of_mem _ hx)
    simp only [List.map_cons, nats_cons, size_cons, List.prod_cons] at ih' ⊢
    rw [ih', (h d (by simp)).maxLocalId_toNat]

theorem workItems_pos (g : WorkGroup) : 0 < g.workItems := by
  rw [← size_maxLocalId]
  exact size_pos _

theorem bounded (g : WorkGroup) : Bounded g.group.maxLocalId :=
  bounded_maxLocalId g.event.accepted

theorem maxLocalId_ne_nil (g : WorkGroup) : g.group.maxLocalId ≠ [] := g.event.maxLocalId_ne_nil

/-- The local id of the `i`-th work-item, counted by `incVec`. -/
def localId (g : WorkGroup) : Nat → List UInt64
  | 0 => g.zeroId
  | i + 1 => (incVec (g.localId i) g.group.maxLocalId).1

theorem localId_rank (hi : i < g.workItems) :
    Valid (nats g.group.maxLocalId) (nats (g.localId i)) ∧
      rank (nats g.group.maxLocalId) (nats (g.localId i)) = i := by
  induction i with
  | zero =>
    obtain ⟨h₀, h₁⟩ := rank_zeros g.group.maxLocalId
    exact ⟨h₁, h₀⟩
  | succ i ih =>
    obtain ⟨hv, hr⟩ := ih (Nat.lt_of_succ_lt hi)
    have hn := incVec_next g.bounded hv (by rw [hr, size_maxLocalId]; exact hi)
    exact ⟨incVec_valid g.bounded hv, hn.2.trans (congrArg (· + 1) hr)⟩

/-- `incVec` overflows at the last work-item. -/
theorem incVec_localId (hi : i < g.workItems) :
    (incVec (g.localId i) g.group.maxLocalId).2 = decide (i + 1 = g.workItems) := by
  obtain ⟨hv, hr⟩ := localId_rank hi
  by_cases hl : i + 1 = g.workItems
  · have hlast := incVec_last g.maxLocalId_ne_nil g.bounded hv
      (by rw [hr, size_maxLocalId]; exact hl)
    simp [hlast.1, hl]
  · have hn := incVec_next g.bounded hv (by rw [hr, size_maxLocalId]; omega)
    simp [hn.1, hl]

/-- What is recorded of a segment in which the built-ins see this local id. -/
def executed (g : WorkGroup) (i k : Nat) (id : List UInt64) : Executed where
  item := i
  segment := k
  localId := id
  globalId := g.group.getGlobalId id
  groupId := g.group.index

/-- The invocation of the kernel for the `i`-th work-item, once there are contexts. -/
def invocation (a : Nat) : Nat → Invocation
  | 0 => .called 0
  | i + 1 => .made (i + 1) (.slot a 0)

@[simp] theorem invocation_item (a i : Nat) : (invocation a i).item = i := by
  cases i <;> rfl

/-- The context of a work-item that waits at the barrier after segment `k`. -/
def parked (g : WorkGroup) (a i k : Nat) : Context where
  localId := g.localId i
  context := .barrier (invocation a i) k
  initialized := true

end WorkGroup

open WorkGroup

/-- The contexts while the `i`-th work-item runs its segment `k`: those before it have finished
this segment, those behind it the one before. -/
structure Shape (g : WorkGroup) (a k i : Nat) (r : Run) : Prop where
  contexts : r.contexts = some a
  currentWorkItem : r.currentWorkItem = i
  currentContext : r.currentContext = .slot a i
  hadBarrier : r.hadBarrier = true
  mapped : neededSize g.numWorkItems ≤ r.worker.mapped a
  before : ∀ j < i, r.worker.memory a j = g.parked a j k
  initialized : (r.worker.memory a i).initialized = true
  localId : (r.worker.memory a i).localId = g.localId i
  after : ∀ j, i < j → j < g.numWorkItems →
    r.worker.memory a j = if k = 0 then .zero else g.parked a j (k - 1)

theorem Reaches.head (h : r.next g = some r') (h' : Reaches g r' r'') : Reaches g r r'' :=
  Relation.ReflTransGen.head h h'

theorem Reaches.single (h : r.next g = some r') : Reaches g r r' := .head h .refl

/-- A work-item runs a segment and calls `barrier()`. -/
theorem Shape.run_segment (hs : Shape g a k i r) (hc : r.control = .kernel (invocation a i) k)
    (hk : k < g.barriers i) : ∃ r', Reaches g r r' ∧ Shape g a k i r' ∧
      r'.control = .switch (invocation a i) k ∧
      r'.executed = r.executed ++ [g.executed i k (g.localId i)] := by
  have h₁ : r.next g =
      some ((r.runSegment g (invocation a i) k).goto (.barrier (invocation a i) k)) := by
    simp [Run.next, hc, hk]
  have h₂ : ((r.runSegment g (invocation a i) k).goto (.barrier (invocation a i) k)).next g =
      some ({ r.runSegment g (invocation a i) k with hadBarrier := true }.goto
        (.switch (invocation a i) k)) := by
    simp [Run.next, Run.goto, Run.runSegment, hs.contexts]
  refine ⟨_, .head h₁ (.single h₂), ?_, rfl, ?_⟩
  · exact ⟨hs.contexts, hs.currentWorkItem, hs.currentContext, rfl, hs.mapped, hs.before,
      hs.initialized, hs.localId, hs.after⟩
  · simp [Run.goto, Run.runSegment, Run.read, hs.currentContext, hs.localId, executed]

@[simp] theorem setRegion_memory {m : Nat → Context} : (r.setRegion a m).worker.memory a = m := by
  simp [Run.setRegion]

/-- The context of work-item `j` as `barrier()` resumes it. -/
def Run.prepared (r : Run) (g : WorkGroup) (a j : Nat) : Context :=
  if (r.worker.memory a j).initialized then r.worker.memory a j
  else
    { localId := (incVec (r.read r.currentContext).localId g.group.maxLocalId).1
      context := .entry j (.slot a 0)
      initialized := true }

theorem initContext_eq (r : Run) (g : WorkGroup) (a j : Nat) :
    r.initContext g a j =
      r.setRegion a (Function.update (r.worker.memory a) j (r.prepared g a j)) := by
  unfold Run.initContext Run.prepared
  split
  · rename_i h
    have h' : (r.worker.memory a j).initialized = true := h
    simp [h', Run.setRegion]
  · rename_i h
    have h' : ¬ (r.worker.memory a j).initialized = true := h
    rw [if_neg h']
    rfl

/-- `barrier()` prepares the context of the next work-item and parks the current one. -/
theorem moveTo_eq (inv : Invocation) (hc : r.currentContext = .slot a i)
    (hj : j = i → (r.worker.memory a i).initialized = true) :
    r.moveTo g a j inv k =
      { r.setRegion a (Function.update (Function.update (r.worker.memory a) j (r.prepared g a j)) i
          { r.worker.memory a i with context := .barrier inv k }) with
        currentWorkItem := j
        currentContext := .slot a j } := by
  have hprep : { r with currentWorkItem := j }.prepared g a j = r.prepared g a j := rfl
  have hold : Function.update (r.worker.memory a) j (r.prepared g a j) i = r.worker.memory a i := by
    by_cases hij : j = i
    · subst hij
      simp [Run.prepared, hj rfl]
    · exact Function.update_of_ne (Ne.symm hij) _ _
  unfold Run.moveTo
  rw [initContext_eq, hprep]
  simp only [hc, Run.setRegion, Run.save, Run.read, Run.write, Function.update_self, hold,
    Function.update_idem]

theorem Shape.parks (hs : Shape g a k i r) :
    { r.worker.memory a i with context := .barrier (invocation a i) k } = g.parked a i k := by
  simp [parked, hs.localId, hs.initialized]

/-- The context of the next work-item can be resumed. -/
theorem Shape.prepared_next (hs : Shape g a k i r) (hi : i + 1 < g.numWorkItems) :
    r.prepared g a (i + 1) =
      { localId := g.localId (i + 1)
        context := if k = 0 then .entry (i + 1) (.slot a 0)
          else .barrier (invocation a (i + 1)) (k - 1)
        initialized := true } := by
  have hnext := hs.after (i + 1) (Nat.lt_succ_self i) hi
  by_cases hk : k = 0
  · simp [Run.prepared, hnext, hk, Context.zero, Run.read, hs.currentContext, hs.localId,
      WorkGroup.localId]
  · simp [Run.prepared, hnext, hk, parked]

theorem Shape.holds (hs : Shape g a k i r) (hj : j < g.numWorkItems) : r.worker.Holds a j :=
  Nat.le_trans (Nat.mul_le_mul_right _ hj) hs.mapped

/-- The thread goes on with the next work-item. -/
theorem Shape.switch_next (hs : Shape g a k i r) (hc : r.control = .switch (invocation a i) k)
    (hi : i + 1 < g.numWorkItems) : ∃ r', r.next g = some r' ∧ Shape g a k (i + 1) r' ∧
      r'.control = .kernel (invocation a (i + 1)) k ∧ r'.executed = r.executed := by
  have hlt : (i + 1) % 2 ^ 32 = i + 1 := Nat.mod_eq_of_lt (Nat.lt_trans hi g.numWorkItems_lt)
  have hitem : r.nextItem g = i + 1 := by
    rw [Run.nextItem, hs.currentWorkItem, hlt, if_neg (Nat.ne_of_lt hi)]
  have hmove := moveTo_eq (g := g) (k := k) (j := i + 1) (invocation a i) hs.currentContext
    (fun h => absurd h (Nat.succ_ne_self i))
  rw [hs.prepared_next hi, hs.parks] at hmove
  refine ⟨(r.moveTo g a (i + 1) (invocation a i) k).goto (.kernel (invocation a (i + 1)) k),
    ?_, ?_, rfl, ?_⟩
  · rw [Run.next, hc]
    simp only [hs.contexts, hitem, if_pos (hs.holds hi)]
    rw [hmove]
    cases k with
    | zero => simp [Run.resume, Run.goto, invocation, Run.read, Run.setRegion]
    | succ k => simp [Run.resume, Run.goto, Run.read, Run.setRegion]
  · rw [hmove]
    refine ⟨hs.contexts, rfl, rfl, hs.hadBarrier, hs.mapped, ?_, ?_, ?_, ?_⟩
    · intro j hj
      obtain hlt' | rfl := Nat.lt_succ_iff_lt_or_eq.mp hj
      · have h₁ : j ≠ i := Nat.ne_of_lt hlt'
        have h₂ : j ≠ i + 1 := Nat.ne_of_lt hj
        simp [Run.goto, Run.setRegion, h₁, h₂, hs.before j hlt']
      · simp [Run.goto, Run.setRegion]
    · simp [Run.goto, Run.setRegion]
    · simp [Run.goto, Run.setRegion]
    · intro j hj hjn
      have h₁ : j ≠ i := by omega
      have h₂ : j ≠ i + 1 := by omega
      simp [Run.goto, Run.setRegion, h₁, h₂, hs.after j (by omega) hjn]
  · rw [hmove]
    rfl

theorem Shape.first (hs : Shape g a k i r) : (r.worker.memory a 0).initialized = true := by
  obtain rfl | hi := Nat.eq_zero_or_pos i
  · exact hs.initialized
  · rw [hs.before 0 hi]
    rfl

/-- After the last work-item the thread goes on with the first one, in the next segment. -/
theorem Shape.switch_wrap (hs : Shape g a k i r) (hc : r.control = .switch (invocation a i) k)
    (hi : i + 1 = g.numWorkItems) : ∃ r', r.next g = some r' ∧ Shape g a (k + 1) 0 r' ∧
      r'.control = .kernel (invocation a 0) (k + 1) ∧ r'.executed = r.executed := by
  have hlt : (i + 1) % 2 ^ 32 = g.numWorkItems := by
    rw [hi]
    exact Nat.mod_eq_of_lt g.numWorkItems_lt
  have hitem : r.nextItem g = 0 := by
    rw [Run.nextItem, hs.currentWorkItem, hlt, if_pos rfl]
  have hmove := moveTo_eq (g := g) (k := k) (j := 0) (invocation a i) hs.currentContext
    (fun _ => hs.initialized)
  have hprep : r.prepared g a 0 = r.worker.memory a 0 := if_pos hs.first
  rw [hprep, Function.update_eq_self, hs.parks] at hmove
  have hparked : ∀ j < g.numWorkItems,
      Function.update (r.worker.memory a) i (g.parked a i k) j = g.parked a j k := by
    intro j hj
    by_cases hji : j = i
    · rw [hji, Function.update_self]
    · rw [Function.update_of_ne hji, hs.before j (by omega)]
  refine ⟨(r.moveTo g a 0 (invocation a i) k).goto (.kernel (invocation a 0) (k + 1)),
    ?_, ?_, rfl, ?_⟩
  · rw [Run.next, hc]
    simp only [hs.contexts, hitem, if_pos (hs.holds (j := 0) (by omega))]
    rw [hmove]
    simp only [Run.read, setRegion_memory, hparked 0 (by omega)]
    rfl
  · rw [hmove]
    refine ⟨hs.contexts, rfl, rfl, hs.hadBarrier, hs.mapped, ?_, ?_, ?_, ?_⟩
    · exact fun j hj => absurd hj (Nat.not_lt_zero j)
    · simp only [Run.goto, setRegion_memory, hparked 0 (by omega)]
      rfl
    · simp only [Run.goto, setRegion_memory, hparked 0 (by omega)]
      rfl
    · intro j _ hjn
      simp only [Run.goto, setRegion_memory, hparked j hjn]
      rfl
  · rw [hmove]
    rfl

/-- The segments `k` of `m` work-items from the `i`-th on, each with its own local id. -/
def WorkGroup.segments (g : WorkGroup) (k i m : Nat) : List Executed :=
  (List.range' i m).map fun i => g.executed i k (g.localId i)

/-- Every work-item of the group calls `barrier()` this often. -/
def WorkGroup.Uniform (g : WorkGroup) (B : Nat) : Prop := ∀ i < g.workItems, g.barriers i = B

theorem WorkGroup.Uniform.barriers {B : Nat} (hu : g.Uniform B) (hi : i < g.numWorkItems) :
    g.barriers i = B := hu i (Nat.lt_of_lt_of_le hi g.numWorkItems_le)

variable {B : Nat}

/-- From the end of a segment the thread gets to the first work-item's next one, after the other
work-items have run theirs. -/
theorem Shape.finish_round (hu : g.Uniform B) (hk : k < B) (hs : Shape g a k i r)
    (hc : r.control = .switch (invocation a i) k) (m : Nat) (hm : i + 1 + m = g.numWorkItems) :
    ∃ r', Reaches g r r' ∧ Shape g a (k + 1) 0 r' ∧
      r'.control = .kernel (invocation a 0) (k + 1) ∧
      r'.executed = r.executed ++ g.segments k (i + 1) m := by
  induction m generalizing i r with
  | zero =>
    obtain ⟨r', hr, hs', hc', he⟩ := hs.switch_wrap hc hm
    exact ⟨r', .single hr, hs', hc', by simp [he, segments]⟩
  | succ m ih =>
    have hi : i + 1 < g.numWorkItems := by omega
    obtain ⟨r₁, hr₁, hs₁, hc₁, he₁⟩ := hs.switch_next hc hi
    obtain ⟨r₂, hr₂, hs₂, hc₂, he₂⟩ := hs₁.run_segment hc₁ (by rw [hu.barriers hi]; exact hk)
    obtain ⟨r₃, hr₃, hs₃, hc₃, he₃⟩ := ih hs₂ hc₂ (by omega)
    refine ⟨r₃, .head hr₁ (hr₂.trans hr₃), hs₃, hc₃, ?_⟩
    simp [he₃, he₂, he₁, segments, List.range'_succ]

/-- The thread runs one segment of every work-item. -/
theorem Shape.round (hu : g.Uniform B) (hk : k < B) (hn : 0 < g.numWorkItems)
    (hs : Shape g a k 0 r) (hc : r.control = .kernel (invocation a 0) k) :
    ∃ r', Reaches g r r' ∧ Shape g a (k + 1) 0 r' ∧
      r'.control = .kernel (invocation a 0) (k + 1) ∧
      r'.executed = r.executed ++ g.segments k 0 g.numWorkItems := by
  obtain ⟨m, hm⟩ := Nat.exists_eq_succ_of_ne_zero hn.ne'
  obtain ⟨r₁, hr₁, hs₁, hc₁, he₁⟩ := hs.run_segment hc (by rw [hu.barriers hn]; exact hk)
  obtain ⟨r₂, hr₂, hs₂, hc₂, he₂⟩ := hs₁.finish_round hu hk hc₁ m (by omega)
  refine ⟨r₂, hr₁.trans hr₂, hs₂, hc₂, ?_⟩
  simp [he₂, he₁, segments, hm, List.range'_succ]

/-- The first call of `barrier()` maps a new region, as the stored size stays 0. -/
theorem stacks_eq (hw : w.workItemsSize = 0) (hn : 0 < g.numWorkItems) :
    w.stacks (neededSize g.numWorkItems) = w.mmap (neededSize g.numWorkItems) := by
  have hsize : 0 < neededSize g.numWorkItems := Nat.mul_pos hn (by decide)
  unfold Worker.stacks
  split
  · rfl
  · rw [hw, if_pos hsize]

/-- The first work-item runs up to its first barrier and sets up the contexts. -/
theorem start_switch (hw : w.workItemsSize = 0) (hn : 0 < g.numWorkItems)
    (hB : 0 < g.barriers 0) : ∃ r, Reaches g (.start w g) r ∧ Shape g w.nextRegion 0 0 r ∧
      r.control = .switch (invocation w.nextRegion 0) 0 ∧
      r.executed = g.segments 0 0 1 := by
  have hsize : neededSize g.numWorkItems ≠ 0 := (Nat.mul_pos hn (by decide)).ne'
  have h₁ : (Run.start w g).next g =
      some (((Run.start w g).runSegment g (.called 0) 0).goto (.barrier (.called 0) 0)) := by
    simp [Run.next, Run.start, Invocation.item, hB]
  have h₂ := show (((Run.start w g).runSegment g (.called 0) 0).goto
      (.barrier (.called 0) 0)).next g = _ by
    simp only [Run.next, Run.goto, Run.runSegment, Run.start, Run.setUp, stacks_eq hw hn,
      Worker.mmap, if_neg hsize, Option.map_some, ne_eq, not_true_eq_false, if_false]
    rfl
  refine ⟨_, .head h₁ (.single h₂), ?_, rfl, rfl⟩
  refine ⟨rfl, rfl, rfl, rfl, ?_, ?_, ?_, ?_, ?_⟩
  · simp [Run.write, Run.setRegion]
  · exact fun j hj => absurd hj (Nat.not_lt_zero j)
  · simp [Run.write, Run.setRegion]
  · simp [Run.write, Run.setRegion, WorkGroup.localId]
  · intro j hj _
    have hj' : j ≠ 0 := Nat.ne_of_gt hj
    simp [Run.write, Run.setRegion, hj']

/-- Before the last segment, everything is in lock-step and every work-item sees its own id. -/
theorem start_rounds (hw : w.workItemsSize = 0) (hn : 0 < g.numWorkItems) (hu : g.Uniform B)
    (hk : k < B) : ∃ r, Reaches g (.start w g) r ∧ Shape g w.nextRegion (k + 1) 0 r ∧
      r.control = .kernel (invocation w.nextRegion 0) (k + 1) ∧
      r.executed = (List.range (k + 1)).flatMap fun k => g.segments k 0 g.numWorkItems := by
  induction k with
  | zero =>
    obtain ⟨m, hm⟩ := Nat.exists_eq_succ_of_ne_zero hn.ne'
    obtain ⟨r₁, hr₁, hs₁, hc₁, he₁⟩ := start_switch hw hn (by rw [hu.barriers hn]; exact hk)
    obtain ⟨r₂, hr₂, hs₂, hc₂, he₂⟩ := hs₁.finish_round hu hk hc₁ m (by omega)
    refine ⟨r₂, hr₁.trans hr₂, hs₂, hc₂, ?_⟩
    simp [he₂, he₁, segments, hm, List.range'_succ]
  | succ k ih =>
    obtain ⟨r₁, hr₁, hs₁, hc₁, he₁⟩ := ih (Nat.lt_of_succ_lt hk)
    obtain ⟨r₂, hr₂, hs₂, hc₂, he₂⟩ := hs₁.round hu hk hn hc₁
    refine ⟨r₂, hr₁.trans hr₂, hs₂, hc₂, ?_⟩
    rw [he₂, he₁, List.range_succ (n := k + 1), List.flatMap_append, List.flatMap_singleton]

/-- The contexts while `run` lets the work-items from the `i`-th on finish. `p_current_context`
is still the one of the first work-item. -/
structure Draining (g : WorkGroup) (a B i : Nat) (r : Run) : Prop where
  contexts : r.contexts = some a
  currentContext : r.currentContext = .slot a 0
  mapped : neededSize g.numWorkItems ≤ r.worker.mapped a
  localId : (r.worker.memory a 0).localId = g.zeroId
  waiting : ∀ j, i ≤ j → j < g.numWorkItems → r.worker.memory a j = g.parked a j (B - 1)
  control : r.control = .drain (.slot a 0) i

/-- The last segments of `m` work-items from the `i`-th on, as the built-ins see them. -/
def WorkGroup.lastSegments (g : WorkGroup) (B i m : Nat) : List Executed :=
  (List.range' i m).map fun i => g.executed i B g.zeroId

/-- One work-item runs its last segment and resumes the main context. -/
theorem Draining.next (hu : g.Uniform B) (hB : 0 < B) (hi : i + 1 < g.numWorkItems)
    (hd : Draining g a B (i + 1) r) : ∃ r', Reaches g r r' ∧ Draining g a B (i + 2) r' ∧
      r'.executed = r.executed ++ [g.executed (i + 1) B g.zeroId] := by
  obtain ⟨b, rfl⟩ := Nat.exists_eq_succ_of_ne_zero hB.ne'
  have hholds : r.worker.Holds a (i + 1) := Nat.le_trans (Nat.mul_le_mul_right _ hi) hd.mapped
  have hlt : i + 1 + 1 < 4294967296 := Nat.lt_of_le_of_lt hi g.numWorkItems_lt
  have hwait := hd.waiting (i + 1) (Nat.le_refl _) hi
  have hlast : ¬ b + 1 < g.barriers (i + 1) := by
    rw [hu.barriers hi]
    exact Nat.lt_irrefl _
  let r₁ := (r.save (.slot a 0) (.drain (.slot a 0) (i + 1))).goto
    (.kernel (invocation a (i + 1)) (b + 1))
  have h₁ : r.next g = some r₁ := by
    rw [Run.next, hd.control]
    simp only [hd.contexts, if_pos hi, if_pos hholds]
    simp [r₁, Run.save, Run.read, Run.write, Run.setRegion, hwait, parked, Run.resume]
  have h₂ : r₁.next g = some ((r₁.runSegment g (invocation a (i + 1)) (b + 1)).goto
      (.drain (.slot a 0) (i + 2))) := by
    simp [r₁, Run.next, Run.goto, invocation, Invocation.item, hlast, Run.runSegment, Run.resume,
      Run.read, Run.save, Run.write, Run.setRegion, hlt]
  refine ⟨_, .head h₁ (.single h₂), ⟨hd.contexts, hd.currentContext, hd.mapped, ?_, ?_, rfl⟩, ?_⟩
  · simp [r₁, Run.goto, Run.runSegment, Run.save, Run.read, Run.write, Run.setRegion, hd.localId]
  · intro j hj hjn
    have hj' : j ≠ 0 := by omega
    simp [r₁, Run.goto, Run.runSegment, Run.save, Run.write, Run.setRegion, hj',
      hd.waiting j (by omega) hjn]
  · simp [r₁, Run.goto, Run.runSegment, Run.save, Run.read, Run.write, Run.setRegion,
      hd.currentContext, hd.localId, executed]

/-- The other work-items finish one after the other. -/
theorem Draining.all (hu : g.Uniform B) (hB : 0 < B) (m : Nat) (hm : i + 1 + m = g.numWorkItems)
    (hd : Draining g a B (i + 1) r) : ∃ r', Reaches g r r' ∧ r'.control = .done ∧
      r'.executed = r.executed ++ g.lastSegments B (i + 1) m := by
  induction m generalizing i r with
  | zero =>
    have hend : ¬ i + 1 < g.numWorkItems := by omega
    have h : r.next g = some (r.goto .done) := by
      rw [Run.next, hd.control]
      exact if_neg hend
    exact ⟨_, .single h, rfl, by simp [Run.goto, lastSegments]⟩
  | succ m ih =>
    obtain ⟨r₁, hr₁, hd₁, he₁⟩ := hd.next hu hB (by omega)
    obtain ⟨r₂, hr₂, hc₂, he₂⟩ := ih (by omega) hd₁
    exact ⟨r₂, hr₁.trans hr₂, hc₂, by simp [he₂, he₁, lastSegments, List.range'_succ]⟩

/-- The first work-item runs its last segment and returns to `run`. -/
theorem Shape.last (hu : g.Uniform (k + 1)) (hn : 0 < g.numWorkItems) (hs : Shape g a (k + 1) 0 r)
    (hc : r.control = .kernel (invocation a 0) (k + 1)) : ∃ r', Reaches g r r' ∧
      Draining g a (k + 1) 1 r' ∧ r'.executed = r.executed ++ g.lastSegments (k + 1) 0 1 := by
  have hlast : ¬ k + 1 < g.barriers 0 := by
    rw [hu.barriers hn]
    exact Nat.lt_irrefl _
  have h₁ : r.next g = some ((r.runSegment g (.called 0) (k + 1)).goto (.returned 0)) := by
    simp [Run.next, hc, invocation, Invocation.item, hlast]
  have h₂ : ((r.runSegment g (.called 0) (k + 1)).goto (.returned 0)).next g =
      some ((r.runSegment g (.called 0) (k + 1)).goto (.drain (.slot a 0) 1)) := by
    simp [Run.next, Run.goto, Run.runSegment, hs.hadBarrier, hs.currentContext]
  refine ⟨_, .head h₁ (.single h₂), ?_, ?_⟩
  · refine ⟨hs.contexts, hs.currentContext, hs.mapped, hs.localId, ?_, rfl⟩
    exact fun j hj hjn => hs.after j hj hjn
  · simp [Run.goto, Run.runSegment, Run.read, hs.currentContext, hs.localId, lastSegments, executed,
      Invocation.item, WorkGroup.localId]

/-- What `run` executes when every work-item calls `barrier()`: the last segments all see the
local id of the first work-item. -/
def WorkGroup.barrierTrace (g : WorkGroup) (B : Nat) : List Executed :=
  ((List.range B).flatMap fun k => g.segments k 0 g.numWorkItems) ++
    g.lastSegments B 0 g.numWorkItems

theorem returns_barriers (hw : w.workItemsSize = 0) (hn : 0 < g.numWorkItems) (hu : g.Uniform B)
    (hB : 0 < B) : ∃ w', Returns w g (g.barrierTrace B) w' := by
  obtain ⟨b, rfl⟩ := Nat.exists_eq_succ_of_ne_zero hB.ne'
  obtain ⟨m, hm⟩ := Nat.exists_eq_succ_of_ne_zero hn.ne'
  obtain ⟨r₁, hr₁, hs₁, hc₁, he₁⟩ := start_rounds hw hn hu (Nat.lt_succ_self b)
  obtain ⟨r₂, hr₂, hd₂, he₂⟩ := hs₁.last hu hn hc₁
  obtain ⟨r₃, hr₃, hc₃, he₃⟩ := hd₂.all hu hB m (by omega)
  refine ⟨r₃.worker, r₃, hr₁.trans (hr₂.trans hr₃), hc₃, ?_, rfl⟩
  simp [he₃, he₂, he₁, barrierTrace, lastSegments, hm, List.range'_succ]

/-- The state of the first loop of `run` before the kernel is called for the `i`-th work-item. -/
structure Calling (g : WorkGroup) (i : Nat) (r : Run) : Prop where
  control : r.control = .kernel (.called i) 0
  currentContext : r.currentContext = .dummy
  hadBarrier : r.hadBarrier = false
  localId : r.dummyContext.localId = g.localId i
  executed : r.executed = g.segments 0 0 i

/-- A call of a kernel without barriers. -/
theorem Calling.next (hu : g.Uniform 0) (hi : i < g.workItems) (hr : Calling g i r) :
    ∃ r', Reaches g r r' ∧ r'.executed = g.segments 0 0 (i + 1) ∧
      (i + 1 = g.workItems → r'.control = .done) ∧
        (i + 1 ≠ g.workItems → Calling g (i + 1) r') := by
  have h₁ : r.next g = some ((r.runSegment g (.called i) 0).goto (.returned i)) := by
    simp [Run.next, hr.control, Invocation.item, hu i hi]
  have h₂ := show ((r.runSegment g (.called i) 0).goto (.returned i)).next g = _ by
    simp only [Run.next, Run.goto, Run.runSegment, hr.hadBarrier, hr.localId, incVec_localId hi]
    rfl
  have he : (r.runSegment g (.called i) 0).executed = g.segments 0 0 (i + 1) := by
    simp [Run.runSegment, hr.executed, segments, List.range'_1_concat, Run.read, hr.currentContext,
      hr.localId, WorkGroup.executed, Invocation.item]
  refine ⟨_, .head h₁ (.single h₂), he, fun hl => ?_, fun hl => ?_⟩
  · simp [hl]
  · exact ⟨by simp [hl], hr.currentContext, rfl, rfl, he⟩

/-- Without barriers the kernel is called once for each work-item. -/
theorem returns_plain (hu : g.Uniform 0) : ∃ w', Returns w g (g.segments 0 0 g.workItems) w' := by
  have hcalls : ∀ i < g.workItems, ∃ r, Reaches g (.start w g) r ∧ Calling g i r := by
    intro i hi
    induction i with
    | zero => exact ⟨.start w g, .refl, rfl, rfl, rfl, rfl, rfl⟩
    | succ i ih =>
      obtain ⟨r, hr, hc⟩ := ih (Nat.lt_of_succ_lt hi)
      obtain ⟨r', hr', -, -, hnext⟩ := hc.next hu (Nat.lt_of_succ_lt hi)
      exact ⟨r', hr.trans hr', hnext (Nat.ne_of_lt hi)⟩
  obtain ⟨m, hm⟩ := Nat.exists_eq_succ_of_ne_zero g.workItems_pos.ne'
  obtain ⟨r, hr, hc⟩ := hcalls m (by omega)
  obtain ⟨r', hr', he, hdone, -⟩ := hc.next hu (by omega)
  exact ⟨r'.worker, r', hr.trans hr', hdone hm.symm, by rw [he, hm], rfl⟩

end Shamrock.Cpu
