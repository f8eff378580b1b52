import Shamrock.Cpu.Rounds
import Mathlib.Data.List.ProdSigma
import Mathlib.Data.UInt

/-! Work-groups run by a worker thread execute in lock-step, and what the built-ins answer. -/
namespace Shamrock.Cpu

open WorkGroup Odometer

variable {g : WorkGroup} {w w' : Worker} {r r' : Run} {B : Nat} {trace trace' : List Executed}

/-- What holds of a thread's memory after any work-groups: the stored size is still 0, no region
has room for `2 ^ 32` contexts, so that no work-item was given one beyond that. -/
structure Sound (w : Worker) (dummy : Context) : Prop where
  workItemsSize : w.workItemsSize = 0
  mapped : ∀ a, w.mapped a < neededSize (2 ^ 32)
  entry : ∀ a j i link, (w.memory a j).context = .entry i link → i < 2 ^ 32 - 1
  dummy : ∀ i link, dummy.context ≠ .entry i link

def Run.Sound (r : Run) : Prop := Cpu.Sound r.worker r.dummyContext

theorem Worker.Holds.lt {a j : Nat} {d : Context} (hs : Sound w d) (h : w.Holds a j) :
    j < 2 ^ 32 - 1 := by
  have hm := hs.mapped a
  unfold Worker.Holds neededSize sizeofContext at h
  unfold neededSize sizeofContext at hm
  omega

theorem Run.Sound.read {p : ContextPtr} {i : Nat} {link : ContextPtr} (hs : r.Sound)
    (h : (r.read p).context = .entry i link) : i < 2 ^ 32 - 1 := by
  cases p with
  | dummy => exact absurd h (hs.dummy i link)
  | slot a j => exact hs.entry a j i link h

theorem Run.Sound.write {p : ContextPtr} {c : Context} (hs : r.Sound)
    (hc : ∀ i link, c.context ≠ .entry i link) : (r.write p c).Sound := by
  cases p with
  | dummy => exact ⟨hs.workItemsSize, hs.mapped, hs.entry, hc⟩
  | slot a j =>
    refine ⟨hs.workItemsSize, hs.mapped, ?_, hs.dummy⟩
    intro b i x link h
    simp only [Run.write, Run.setRegion, Function.update_apply] at h
    split at h
    · rename_i hb
      subst hb
      rw [Function.update_apply] at h
      split at h
      · exact absurd h (hc x link)
      · exact hs.entry b i x link h
    · exact hs.entry b i x link h

theorem Run.Sound.save {p : ContextPtr} {u : UContext} (hs : r.Sound)
    (hu : ∀ i link, u ≠ .entry i link) : (r.save p u).Sound := hs.write hu

theorem Run.Sound.initContext {a j : Nat} (hs : r.Sound) (hj : r.worker.Holds a j) :
    (r.initContext g a j).Sound := by
  rw [initContext_eq]
  refine ⟨hs.workItemsSize, hs.mapped, ?_, hs.dummy⟩
  intro b i x link h
  simp only [Run.setRegion, Function.update_apply] at h
  split at h
  · rename_i hb
    subst hb
    rw [Function.update_apply] at h
    split at h
    · unfold Run.prepared at h
      split at h
      · exact hs.entry b j x link h
      · cases h
        exact hj.lt hs
    · exact hs.entry b i x link h
  · exact hs.entry b i x link h

theorem Run.Sound.moveTo {a j k : Nat} {inv : Invocation} (hs : r.Sound)
    (hj : r.worker.Holds a j) : (r.moveTo g a j inv k).Sound := by
  have hs' : ({ r with currentWorkItem := j }.initContext g a j).Sound :=
    Run.Sound.initContext (r := { r with currentWorkItem := j }) hs hj
  exact hs'.save (fun _ _ h => by cases h)

theorem Sound.stacks {d : Context} {a n : Nat} (hs : Sound w d) (hn : n < 2 ^ 32)
    (h : w.stacks (neededSize n) = some (a, w')) : Sound w' d := by
  have hmap : w.mmap (neededSize n) = some (a, w') → Sound w' d := by
    intro h
    unfold Worker.mmap at h
    split at h
    · cases h
    · cases h
      refine ⟨hs.workItemsSize, ?_, ?_, hs.dummy⟩
      · intro b
        simp only [Function.update_apply]
        split
        · exact Nat.mul_lt_mul_of_pos_right hn (by decide)
        · exact hs.mapped b
      · intro b j i link h
        simp only [Function.update_apply] at h
        split at h
        · cases h
        · exact hs.entry b j i link h
  unfold Worker.stacks at h
  split at h
  · exact hmap h
  · split at h
    · exact hmap h
    · cases h
      exact hs

theorem Run.Sound.setUp {inv : Invocation} {k : Nat} (hs : r.Sound)
    (h : r.setUp g inv k = some r') : r'.Sound := by
  obtain ⟨⟨a, w⟩, hw, rfl⟩ := Option.map_eq_some_iff.mp h
  have hs' := Sound.stacks hs g.numWorkItems_lt hw
  exact Run.Sound.write
    (r := { r with worker := w, contexts := some a, currentContext := .slot a 0 }) hs'
    (fun _ _ h => by cases h)

theorem resume_sound {u : UContext} (hs : r.Sound) (h : r.resume u = some r') : r'.Sound := by
  cases u <;> cases h <;> exact hs

/-- What one step of the thread can do. -/
inductive Moves (g : WorkGroup) (r : Run) : Run → Prop
  | segment {inv : Invocation} {k : Nat} : r.control = .kernel inv k → k < g.barriers inv.item →
      Moves g r ((r.runSegment g inv k).goto (.barrier inv k))
  | calledEnds {i k : Nat} : r.control = .kernel (.called i) k → ¬ k < g.barriers i →
      Moves g r ((r.runSegment g (.called i) k).goto (.returned i))
  | madeEnds {i k : Nat} {link : ContextPtr} {r' : Run} : r.control = .kernel (.made i link) k →
      ¬ k < g.barriers i →
      (r.runSegment g (.made i link) k).resume (r.read link).context = some r' → Moves g r r'
  | barrier {inv : Invocation} {k : Nat} : r.control = .barrier inv k →
      Moves g r ({ r with hadBarrier := true }.goto (.switch inv k))
  | skip {inv : Invocation} {k : Nat} : r.control = .barrier inv k →
      Moves g r ({ r with hadBarrier := true }.goto (.kernel inv (k + 1)))
  | setUp {inv : Invocation} {k : Nat} {r' : Run} : r.control = .barrier inv k →
      { r with hadBarrier := true }.setUp g inv k = some r' → Moves g r r'
  | switch {inv : Invocation} {k a j : Nat} {r' : Run} : r.control = .switch inv k →
      r.worker.Holds a j → (r.moveTo g a j inv k).resume
        ((r.moveTo g a j inv k).read (.slot a j)).context = some r' → Moves g r r'
  | finish {i : Nat} : r.control = .returned i → r.hadBarrier = true →
      Moves g r (r.goto (.drain r.currentContext 1))
  | call {i : Nat} {id : List UInt64} {c : Control} : r.control = .returned i →
      r.hadBarrier = false →
      Moves g r ({ r with dummyContext := { r.dummyContext with localId := id } }.goto c)
  | drain {main : ContextPtr} {i a : Nat} {r' : Run} : r.control = .drain main i →
      (r.save main (.drain main i)).resume
        ((r.save main (.drain main i)).read (.slot a i)).context = some r' → Moves g r r'
  | done {main : ContextPtr} {i : Nat} : r.control = .drain main i → Moves g r (r.goto .done)

theorem next_moves (h : r.next g = some r') : Moves g r r' := by
  unfold Run.next at h
  split at h
  · rename_i inv k hc
    split at h
    · rename_i hk
      cases h
      exact .segment hc hk
    · rename_i hk
      cases inv with
      | called i =>
        cases h
        exact .calledEnds hc hk
      | made i link => exact .madeEnds hc hk h
  · rename_i inv k hc
    cases hctx : r.contexts with
    | some a =>
      simp only [hctx] at h
      cases h
      rw [← hctx]
      exact .barrier hc
    | none =>
      simp only [hctx] at h
      split at h
      · cases h
        rw [← hctx]
        exact .skip hc
      · refine .setUp hc ?_
        rw [hctx]
        exact h
  · rename_i inv k hc
    split at h
    · cases h
    · split at h
      · rename_i hj
        exact .switch hc hj h
      · cases h
  · rename_i i hc
    split at h
    · rename_i hb
      cases h
      exact .finish hc hb
    · rename_i hb
      cases h
      exact .call hc (by simpa using hb)
  · rename_i main i hc
    split at h
    · split at h
      · cases h
      · split at h
        · exact .drain hc h
        · cases h
    · cases h
      exact .done hc
  · cases h

/-- Every step keeps the thread's memory in this shape. -/
theorem next_sound (hs : r.Sound) (h : r.next g = some r') : r'.Sound := by
  cases next_moves h with
  | madeEnds _ _ hr => exact resume_sound (r := r.runSegment g _ _) hs hr
  | setUp _ hr => exact Run.Sound.setUp (r := { r with hadBarrier := true }) hs hr
  | switch _ hj hr => exact resume_sound (hs.moveTo hj) hr
  | drain _ hr => exact resume_sound (hs.save fun _ _ h => by cases h) hr
  | call => exact ⟨hs.workItemsSize, hs.mapped, hs.entry, hs.dummy⟩
  | _ => exact hs

theorem Reaches.sound (h : Reaches g r r') (hs : r.Sound) : r'.Sound := by
  induction h with
  | refl => exact hs
  | tail _ hstep ih => exact next_sound ih hstep

theorem Sound.start {d : Context} (hs : Sound w d) : (Run.start w g).Sound :=
  ⟨hs.workItemsSize, hs.mapped, hs.entry, fun _ _ h => by cases h⟩

/-- What any sequence of work-groups leaves. -/
theorem Worker.Reachable.sound (hw : w.Reachable) : Sound w .zero := by
  induction hw with
  | init =>
    refine ⟨rfl, fun _ => ?_, fun _ _ _ _ h => ?_, fun _ _ h => ?_⟩
    · exact show 0 < neededSize (2 ^ 32) by decide
    · cases h
    · cases h
  | next _ hr ih =>
    obtain ⟨r, hreach, -, -, rfl⟩ := hr
    have hs := hreach.sound ih.start
    exact ⟨hs.workItemsSize, hs.mapped, hs.entry, fun _ _ h => by cases h⟩

theorem Returns.unique {w₁ w₂ : Worker} (h : Returns w g trace w₁) (h' : Returns w g trace' w₂) :
    trace = trace' := by
  obtain ⟨r, hr, hd, rfl, -⟩ := h
  obtain ⟨r', hr', hd', rfl, -⟩ := h'
  have hstuck : ∀ {r₁ r₂ : Run}, r₁.control = .done → Reaches g r₁ r₂ → r₂ = r₁ := by
    intro r₁ r₂ hd h
    cases Relation.ReflTransGen.cases_head h with
    | inl h => exact h.symm
    | inr h =>
      obtain ⟨c, hc, -⟩ := h
      simp [Run.next, hd] at hc
  have htotal := Relation.ReflTransGen.total_of_right_unique
    (fun r₁ r₂ r₃ h₁ h₂ => Option.some.inj (h₁.symm.trans h₂)) hr hr'
  obtain h | h := htotal
  · rw [hstuck hd h]
  · rw [hstuck hd' h]

/-- Which segment of which work-item. -/
def Executed.key (e : Executed) : Nat × Nat := (e.segment, e.item)

/-- Each segment of each work-item is run exactly once, in program order and never before all
work-items have finished the segment before it. -/
structure InLockStep (N B : Nat) (trace : List Executed) : Prop where
  once : ∀ k i, (trace.map Executed.key).count (k, i) = if k ≤ B ∧ i < N then 1 else 0
  order : trace.Pairwise fun e e' =>
    e.segment ≤ e'.segment ∧ (e.item = e'.item → e.segment < e'.segment)

/-- A trace that goes through all work-items segment by segment is in lock-step. -/
theorem inLockStep_of_keys {N : Nat}
    (h : trace.map Executed.key = (List.range (B + 1)) ×ˢ (List.range N)) :
    InLockStep N B trace := by
  constructor
  · intro k i
    have hnd : (List.range (B + 1) ×ˢ List.range N).Nodup :=
      List.nodup_range.product List.nodup_range
    rw [h, hnd.count]
    simp only [List.mem_product, List.mem_range, Nat.lt_succ_iff]
  · suffices hp : (trace.map Executed.key).Pairwise fun x y =>
        x.1 ≤ y.1 ∧ (x.2 = y.2 → x.1 < y.1) from List.pairwise_map.mp hp
    rw [h]
    refine List.pairwise_flatMap.mpr ⟨?_, ?_⟩
    · intro k _
      refine List.pairwise_map.mpr (List.pairwise_lt_range.imp ?_)
      intro i j hij
      exact ⟨Nat.le_refl k, fun h => absurd h (Nat.ne_of_lt hij)⟩
    · refine List.pairwise_lt_range.imp ?_
      intro k k' hk x hx y hy
      obtain ⟨i, -, rfl⟩ := List.mem_map.mp hx
      obtain ⟨j, -, rfl⟩ := List.mem_map.mp hy
      exact ⟨Nat.le_of_lt hk, fun _ => hk⟩

theorem segments_keys (g : WorkGroup) (k n : Nat) :
    (g.segments k 0 n).map Executed.key = (List.range n).map (Prod.mk k) := by
  simp [segments, Executed.key, executed, List.range_eq_range']

theorem lastSegments_keys (g : WorkGroup) (n : Nat) :
    (g.lastSegments B 0 n).map Executed.key = (List.range n).map (Prod.mk B) := by
  simp [lastSegments, Executed.key, executed, List.range_eq_range']

theorem barrierTrace_inLockStep (g : WorkGroup) (B : Nat) :
    InLockStep g.numWorkItems B (g.barrierTrace B) := by
  apply inLockStep_of_keys
  rw [barrierTrace, List.map_append, lastSegments_keys, List.map_flatMap]
  simp only [segments_keys]
  change _ = (List.range (B + 1)).flatMap fun k => (List.range g.numWorkItems).map (Prod.mk k)
  rw [List.range_succ, List.flatMap_append, List.flatMap_singleton]

theorem plainTrace_inLockStep (g : WorkGroup) :
    InLockStep g.workItems 0 (g.segments 0 0 g.workItems) := by
  apply inLockStep_of_keys
  rw [segments_keys]
  simp

/-- A group with barriers that is too large for `p_num_work_items` never gets to its work-items
from `2 ^ 32 - 1` on. -/
structure Short (r : Run) : Prop where
  sound : r.Sound
  hadBarrier : r.hadBarrier = true ∨ r.control = .kernel (.called 0) 0 ∨
    r.control = .barrier (.called 0) 0
  control : ∀ inv, r.control = .kernel inv 0 → inv.item < 2 ^ 32 - 1
  executed : ∀ e ∈ r.executed, e.segment = 0 → e.item < 2 ^ 32 - 1

theorem resume_short {u : UContext} (hs : r.Sound) (hb : r.hadBarrier = true)
    (hu : ∀ i link, u = .entry i link → i < 2 ^ 32 - 1)
    (he : ∀ e ∈ r.executed, e.segment = 0 → e.item < 2 ^ 32 - 1) (h : r.resume u = some r') :
    Short r' := by
  refine ⟨resume_sound hs h, .inl ?_, ?_, ?_⟩
  · cases u <;> cases h <;> exact hb
  · intro inv hc
    cases u <;> cases h <;> cases hc
    exact hu _ _ rfl
  · cases u <;> cases h <;> exact he

theorem Short.runSegment (hs : Short r) {inv : Invocation} {k : Nat}
    (hc : r.control = .kernel inv k) : ∀ e ∈ (r.runSegment g inv k).executed,
      e.segment = 0 → e.item < 2 ^ 32 - 1 := by
  intro e he h0
  obtain he | he := List.mem_append.mp he
  · exact hs.executed e he h0
  · obtain rfl := List.mem_singleton.mp he
    obtain rfl : k = 0 := h0
    exact hs.control inv hc

@[simp] theorem save_frame (r : Run) (p : ContextPtr) (u : UContext) :
    (r.save p u).hadBarrier = r.hadBarrier ∧ (r.save p u).executed = r.executed := by
  cases p <;> exact ⟨rfl, rfl⟩

theorem moveTo_frame (r : Run) (g : WorkGroup) (a j : Nat) (inv : Invocation) (k : Nat) :
    (r.moveTo g a j inv k).hadBarrier = r.hadBarrier ∧
      (r.moveTo g a j inv k).executed = r.executed := by
  unfold Run.moveTo
  rw [initContext_eq]
  simp [Run.setRegion]

/-- Past the first call of `barrier()` only. -/
theorem Short.past (hs : Short r) (hk : r.control ≠ .kernel (.called 0) 0)
    (hb : r.control ≠ .barrier (.called 0) 0) : r.hadBarrier = true := by
  obtain h | h | h := hs.hadBarrier
  · exact h
  · exact absurd h hk
  · exact absurd h hb

theorem Short.past_end (hu : g.Uniform B) (hB : 0 < B) (hs : Short r) {inv : Invocation} {k : Nat}
    (hc : r.control = .kernel inv k) (hk : ¬ k < g.barriers inv.item) : r.hadBarrier = true := by
  refine hs.past (fun h => ?_) (fun h => ?_)
  · rw [hc] at h
    cases h
    have h0 : g.barriers 0 = B := hu 0 g.workItems_pos
    exact hk (Nat.lt_of_lt_of_eq hB h0.symm)
  · rw [hc] at h
    cases h

theorem Short.next (hu : g.Uniform B) (hB : 0 < B) (hs : Short r) (h : r.next g = some r') :
    Short r' := by
  have hsound := next_sound hs.sound h
  cases next_moves h with
  | segment hc hk =>
    refine ⟨hsound, ?_, fun _ h => (by cases h), hs.runSegment hc⟩
    by_cases h0 : r.control = .kernel (.called 0) 0
    · rw [hc] at h0
      cases h0
      exact .inr (.inr rfl)
    · exact .inl (hs.past h0 (by simp [hc]))
  | calledEnds hc hk =>
    have hb := hs.past_end hu hB hc hk
    exact ⟨hsound, .inl hb, fun _ h => (by cases h), hs.runSegment hc⟩
  | madeEnds hc hk hr =>
    have hb := hs.past_end hu hB hc hk
    exact resume_short (r := r.runSegment g _ _) hs.sound hb (fun _ _ h => hs.sound.read h)
      (hs.runSegment hc) hr
  | barrier hc => exact ⟨hsound, .inl rfl, fun _ h => (by cases h), hs.executed⟩
  | skip hc => exact ⟨hsound, .inl rfl, fun _ h => (by cases h), hs.executed⟩
  | setUp hc hr =>
    obtain ⟨⟨a, w⟩, -, rfl⟩ := Option.map_eq_some_iff.mp hr
    exact ⟨hsound, .inl rfl, fun _ h => (by cases h), hs.executed⟩
  | @switch inv k a j _ hc hj hr =>
    have hframe := moveTo_frame r g a j inv k
    refine resume_short (hs.sound.moveTo hj) ?_ (fun _ _ h => (hs.sound.moveTo hj).read h) ?_ hr
    · exact hframe.1.trans (hs.past (by simp [hc]) (by simp [hc]))
    · exact hframe.2.symm ▸ hs.executed
  | finish hc hb => exact ⟨hsound, .inl hb, fun _ h => (by cases h), hs.executed⟩
  | call hc hb => exact absurd (hs.past (by simp [hc]) (by simp [hc])) (by simp [hb])
  | @drain main i a _ hc hr =>
    have hframe := save_frame r main (.drain main i)
    have hs' : (r.save main (.drain main i)).Sound := hs.sound.save fun _ _ h => by cases h
    refine resume_short hs' ?_ (fun _ _ h => hs'.read h) ?_ hr
    · exact hframe.1.trans (hs.past (by simp [hc]) (by simp [hc]))
    · exact hframe.2.symm ▸ hs.executed
  | done hc =>
    exact ⟨hsound, .inl (hs.past (by simp [hc]) (by simp [hc])), fun _ h => (by cases h),
      hs.executed⟩

/-- In a group with barriers only items that fit into `p_num_work_items` are started. -/
theorem Returns.short (hw : w.Reachable) (hu : g.Uniform B) (hB : 0 < B)
    (h : Returns w g trace w') : ∀ e ∈ trace, e.segment = 0 → e.item < 2 ^ 32 - 1 := by
  obtain ⟨r, hr, -, rfl, -⟩ := h
  have hs : Short (Run.start w g) := by
    refine ⟨hw.sound.start, .inr (.inl rfl), ?_, fun e he => ?_⟩
    · intro inv h
      cases h
      decide
    · cases he
  have hrun : Short r := by
    induction hr with
    | refl => exact hs
    | tail _ hstep ih => exact ih.next hu hB hstep
  exact hrun.executed

/-- Every segment of every work-item is in the trace. -/
def Complete (N B : Nat) (trace : List Executed) : Prop :=
  ∀ i < N, ∀ k ≤ B, ∃ e ∈ trace, e.item = i ∧ e.segment = k

theorem InLockStep.complete {N : Nat} (h : InLockStep N B trace) : Complete N B trace := by
  intro i hi k hk
  have hone := h.once k i
  rw [if_pos ⟨hk, hi⟩] at hone
  have hmem : (k, i) ∈ trace.map Executed.key := List.count_pos_iff.mp (by omega)
  obtain ⟨e, he, hkey⟩ := List.mem_map.mp hmem
  cases hkey
  exact ⟨e, he, rfl, rfl⟩

theorem Returns.small (hw : w.Reachable) (hu : g.Uniform B) (hB : 0 < B)
    (h : Returns w g trace w') (hc : Complete g.workItems B trace) : g.workItems < 2 ^ 32 := by
  by_contra hlarge
  obtain ⟨e, he, hi, hk⟩ := hc (2 ^ 32 - 1) (by omega) 0 (Nat.zero_le B)
  have hlt := h.short hw hu hB e he hk
  omega

/-- `run` executes a work-group in lock-step, after any work-groups, unless it has barriers and is
too large for the `unsigned int` that counts its work-items. -/
theorem barrier_lock_step (hw : w.Reachable) (hu : g.Uniform B) :
    (∃ trace w', Returns w g trace w' ∧ InLockStep g.workItems B trace) ↔
      B = 0 ∨ g.workItems < 2 ^ 32 := by
  constructor
  · rintro ⟨trace, w', hr, hl⟩
    obtain rfl | hB := Nat.eq_zero_or_pos B
    · exact .inl rfl
    · exact .inr (hr.small hw hu hB hl.complete)
  · intro h
    obtain rfl | hB := Nat.eq_zero_or_pos B
    · obtain ⟨w', hr⟩ := returns_plain (w := w) hu
      exact ⟨_, w', hr, plainTrace_inLockStep g⟩
    · have hN : g.numWorkItems = g.workItems := by
        rw [numWorkItems_eq]
        exact Nat.mod_eq_of_lt (h.resolve_left hB.ne')
      obtain ⟨w', hr⟩ := returns_barriers hw.sound.workItemsSize (hN ▸ g.workItems_pos) hu hB
      exact ⟨_, w', hr, hN ▸ barrierTrace_inLockStep g B⟩

/-- One work-group of this size in one dimension, whose kernel calls `barrier()` once. -/
def lineGroup (n : UInt64) (hn : 0 < n.toNat) : WorkGroup where
  event :=
    { dims := [{ globalWorkOffset := 0, globalWorkSize := n, localWorkSize := n }]
      workDim_pos := by simp
      workDim_le := by simp
      global_pos := by simpa using hn
      local_pos := by simpa using hn
      local_dvd := by simp
      groups_lt := by simp [Nat.div_self hn] }
  index := [0]
  barriers := fun _ => 1

theorem barrier_lock_step_two : ∃ trace w',
    Returns .init (lineGroup 2 (by decide)) trace w' ∧ InLockStep 2 1 trace :=
  (barrier_lock_step .init fun _ _ => rfl).mpr (.inr (by decide))

/-- `clEnqueueNDRangeKernel` takes this size when it is asked to guess a local size. -/
theorem large_group_not_lock_step : ¬ ∃ trace w',
    Returns .init (lineGroup (2 ^ 32 + 1) (by decide)) trace w' ∧
      InLockStep (2 ^ 32 + 1) 1 trace := by
  rintro ⟨trace, w', hr, hl⟩
  have hsmall := hr.small (B := 1) .init (fun _ _ => rfl) (by decide) hl.complete
  revert hsmall
  decide

/-- The local ids of the work-group. -/
def WorkGroup.InLocalRange (g : WorkGroup) (id : List UInt64) : Prop :=
  List.Forall₂ (fun d l => UInt64.toNat l < d.localWorkSize.toNat) g.event.dims id

theorem inLocalRange_iff (g : WorkGroup) (id : List UInt64) :
    g.InLocalRange id ↔ Valid (nats g.group.maxLocalId) (nats id) :=
  NDRange.forall₂_lt_iff (fun d hd => (g.event.accepted d hd).maxLocalId_toNat) id

theorem localId_injective {i j : Nat} (hi : i < g.workItems) (hj : j < g.workItems)
    (h : g.localId i = g.localId j) : i = j := by
  rw [← (localId_rank hi).2, ← (localId_rank hj).2, h]

/-- Counting by `incVec` goes through the local range. -/
theorem inLocalRange_iff_localId (g : WorkGroup) (id : List UInt64) :
    g.InLocalRange id ↔ ∃ i < g.workItems, g.localId i = id := by
  rw [inLocalRange_iff]
  constructor
  · intro hv
    have hlt : rank (nats g.group.maxLocalId) (nats id) < g.workItems := by
      rw [← size_maxLocalId]
      exact rank_lt hv
    obtain ⟨hv', hr⟩ := localId_rank hlt
    exact ⟨_, hlt, nats_injective (rank_injective hv' hv hr)⟩
  · rintro ⟨i, hi, rfl⟩
    exact (localId_rank hi).1

/-- Every segment of every work-item is run and sees the ids of its own work-item, and these go
through the local range. -/
structure OwnIds (g : WorkGroup) (B : Nat) (trace : List Executed) : Prop where
  complete : Complete g.workItems B trace
  localId : ∀ e ∈ trace, e.localId = g.localId e.item
  globalId : ∀ e ∈ trace, e.globalId = globalIds g.event.dims g.index e.localId
  groupId : ∀ e ∈ trace, e.groupId = g.index
  range : ∀ id, g.InLocalRange id ↔ ∃ i < g.workItems, g.localId i = id
  distinct : ∀ i < g.workItems, ∀ j < g.workItems, g.localId i = g.localId j → i = j

/-- Only the local ids can be wrong. -/
theorem ownIds_of (hc : Complete g.workItems B trace)
    (h : ∀ e ∈ trace, e = g.executed e.item e.segment (g.localId e.item)) : OwnIds g B trace where
  complete := hc
  localId e he := congrArg Executed.localId (h e he)
  globalId e he := by
    rw [h e he]
    exact getGlobalId_eq g.event g.index _
  groupId e he := congrArg Executed.groupId (h e he)
  range := inLocalRange_iff_localId g
  distinct _ hi _ hj h := localId_injective hi hj h

theorem mem_segments {k n : Nat} {e : Executed} (he : e ∈ g.segments k 0 n) :
    e = g.executed e.item e.segment (g.localId e.item) := by
  obtain ⟨i, -, rfl⟩ := List.mem_map.mp he
  rfl

/-- The built-ins return the ids of the work-item they are called in for groups without barriers
and groups of one work-item: the last segments of all others see those of the first one. -/
theorem own_ids (hw : w.Reachable) (hu : g.Uniform B) :
    (∃ trace w', Returns w g trace w' ∧ OwnIds g B trace) ↔ B = 0 ∨ g.workItems = 1 := by
  constructor
  · rintro ⟨trace, w', hr, ho⟩
    obtain rfl | hB := Nat.eq_zero_or_pos B
    · exact .inl rfl
    · right
      have hN : g.numWorkItems = g.workItems := by
        rw [numWorkItems_eq]
        exact Nat.mod_eq_of_lt (hr.small hw hu hB ho.complete)
      obtain ⟨w₁, hr₁⟩ := returns_barriers hw.sound.workItemsSize (hN ▸ g.workItems_pos) hu hB
      obtain rfl := hr.unique hr₁
      by_contra hne
      have hpos := g.workItems_pos
      have hlast : g.executed 1 B g.zeroId ∈ g.barrierTrace B := by
        refine List.mem_append_right _ (List.mem_map.mpr ⟨1, ?_, rfl⟩)
        rw [List.mem_range']
        exact ⟨1, by omega, rfl⟩
      have hid : g.localId 0 = g.localId 1 := ho.localId _ hlast
      exact absurd (localId_injective hpos (by omega) hid) (by decide)
  · intro h
    obtain rfl | hB := Nat.eq_zero_or_pos B
    · obtain ⟨w', hr⟩ := returns_plain (w := w) hu
      exact ⟨_, w', hr, ownIds_of (plainTrace_inLockStep g).complete fun e he => mem_segments he⟩
    · have hone := h.resolve_left hB.ne'
      have hN : g.numWorkItems = g.workItems := by
        rw [numWorkItems_eq, hone]
        rfl
      obtain ⟨w', hr⟩ := returns_barriers hw.sound.workItemsSize (hN ▸ g.workItems_pos) hu hB
      refine ⟨_, w', hr, ownIds_of (hN ▸ (barrierTrace_inLockStep g B).complete) fun e he => ?_⟩
      obtain he | he := List.mem_append.mp he
      · obtain ⟨k, -, he⟩ := List.mem_flatMap.mp he
        exact mem_segments he
      · rw [hN, hone] at he
        obtain rfl := List.mem_singleton.mp he
        rfl

theorem own_ids_one : ∃ trace w',
    Returns .init (lineGroup 1 (by decide)) trace w' ∧ OwnIds (lineGroup 1 (by decide)) 1 trace :=
  (own_ids .init fun _ _ => rfl).mpr (.inr rfl)

/-- After the barrier both work-items see the local id of the first one. -/
theorem two_items_share_id : ∃ trace w', Returns .init (lineGroup 2 (by decide)) trace w' ∧
    trace.map (fun e => (e.segment, e.item, e.localId)) =
      [(0, 0, [0]), (0, 1, [1]), (1, 0, [0]), (1, 1, [0])] ∧
    ¬ OwnIds (lineGroup 2 (by decide)) 1 trace := by
  obtain ⟨w', hr⟩ := returns_barriers (w := .init) (g := lineGroup 2 (by decide)) (B := 1) rfl
    (by decide) (fun _ _ => rfl) (by decide)
  refine ⟨_, w', hr, by decide, fun ho => ?_⟩
  have hlast : (lineGroup 2 (by decide)).executed 1 1 [0] ∈
      (lineGroup 2 (by decide)).barrierTrace 1 := by decide
  exact absurd (ho.localId _ hlast) (by decide)

end Shamrock.Cpu
