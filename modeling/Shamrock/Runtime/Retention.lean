import Shamrock.Runtime.Kernel
import Shamrock.Lib.Before
import Shamrock.Lib.RefCount
import Shamrock.Lib.Transition
import Mathlib.Algebra.BigOperators.Group.List.Basic
import Mathlib.Algebra.GroupWithZero.Nat

/-!
# The memory objects of commands

A memory object is known by its address. Its references are held by commands or by anyone else:
the application and sub-buffers.
-/
namespace Shamrock.Runtime

open Transition RefCount ListOrder

/-- A command with the memory objects it was given. -/
inductive CommandEvent
  | readBuffer (buffer : UInt64)
  | writeBuffer (buffer : UInt64)
  | readBufferRect (buffer : UInt64)
  | writeBufferRect (buffer : UInt64)
  | readImage (image : UInt64)
  | writeImage (image : UInt64)
  | mapBuffer (buffer : UInt64)
  | mapImage (image : UInt64)
  | unmapMemObject (buffer : UInt64)
  | fillBuffer (buffer : UInt64)
  | copyBuffer (source destination : UInt64)
  | copyBufferRect (source destination : UInt64)
  | copyImage (source destination : UInt64)
  | copyImageToBuffer (source destination : UInt64)
  | copyBufferToImage (source destination : UInt64)
  | ndRangeKernel (kernel : KernelId)
  | taskKernel (kernel : KernelId)
  | nativeKernel (memList : List UInt64)
  | migrateMemObjects (memObjects : List UInt64)
  | marker
  | barrier
  | waitForEvents
  deriving DecidableEq, Repr

namespace CommandEvent

/-- The calls of `clRetainMemObject` in the constructors, base classes first. Only `BufferEvent`,
`CopyBufferEvent` and `KernelEvent` have any. -/
def retains (kernels : KernelId → Kernel) : CommandEvent → List UInt64
  | .readBuffer b | .writeBuffer b | .readBufferRect b | .writeBufferRect b | .readImage b
  | .writeImage b | .mapBuffer b | .mapImage b | .unmapMemObject b | .fillBuffer b => [b]
  | .copyBuffer source destination => [source, destination]
  | .copyBufferRect source _ | .copyImage source _ | .copyImageToBuffer source _
  | .copyBufferToImage source _ => [source]
  | .ndRangeKernel k | .taskKernel k => (kernels k).bufferArgs
  | .nativeKernel _ | .migrateMemObjects _ | .marker | .barrier | .waitForEvents => []

/-- The calls of `clReleaseMemObject` in the destructors, derived classes first. The kernel's
arguments are read again. -/
def releases (kernels : KernelId → Kernel) : CommandEvent → List UInt64
  | .readBuffer b | .writeBuffer b | .readBufferRect b | .writeBufferRect b | .readImage b
  | .writeImage b | .mapBuffer b | .mapImage b | .unmapMemObject b | .fillBuffer b => [b]
  | .copyBuffer source destination => [destination, source]
  | .copyBufferRect source _ | .copyImage source _ | .copyImageToBuffer source _
  | .copyBufferToImage source _ => [source]
  | .ndRangeKernel k | .taskKernel k => (kernels k).bufferArgs
  | .nativeKernel _ | .migrateMemObjects _ | .marker | .barrier | .waitForEvents => []

/-- What the device works on when it executes the command. -/
def accesses (kernels : KernelId → Kernel) : CommandEvent → List UInt64
  | .readBuffer b | .writeBuffer b | .readBufferRect b | .writeBufferRect b | .readImage b
  | .writeImage b | .mapBuffer b | .mapImage b | .unmapMemObject b | .fillBuffer b => [b]
  | .copyBuffer source destination | .copyBufferRect source destination
  | .copyImage source destination | .copyImageToBuffer source destination
  | .copyBufferToImage source destination => [source, destination]
  | .ndRangeKernel k | .taskKernel k => (kernels k).bufferArgs ++ (kernels k).imageArgs
  | .nativeKernel memList => memList
  | .migrateMemObjects memObjects => memObjects
  | .marker | .barrier | .waitForEvents => []

/-- The kernel that the command keeps a pointer to. -/
def kernel : CommandEvent → Option KernelId
  | .ndRangeKernel k | .taskKernel k => some k
  | _ => none

end CommandEvent

/-- A command that has been constructed and not destroyed yet. `retained` is a history variable:
the known objects among those that its constructor retained. -/
structure LiveCommand where
  event : CommandEvent
  retained : List UInt64
  deriving DecidableEq, Repr

/-- The memory objects with their `p_references`. `others` counts the references that are not
held by commands. -/
structure Objects where
  kernels : KernelId → Kernel
  references : Counts UInt64
  others : UInt64 → Nat
  commands : List LiveCommand

inductive ObjectAction
  /-- any `clCreate*` of a memory object, at an address that is not in use -/
  | createMemObject (object : UInt64)
  | retainMemObject (object : UInt64)
  | releaseMemObject (object : UInt64)
  | setKernelArg (kernel : KernelId) (index size : Nat) (value : Option (List UInt8))
  /-- the constructor of a command -/
  | construct (event : CommandEvent)
  /-- the destructor of the command at this position -/
  | destroy (command : Nat)

namespace Objects

/-- A null pointer or a known object. -/
def Valid (s : Objects) (m : UInt64) : Prop := m = 0 ∨ s.references m ≠ none

instance (s : Objects) (m : UInt64) : Decidable (s.Valid m) :=
  inferInstanceAs (Decidable (m = 0 ∨ s.references m ≠ none))

def AllValid (s : Objects) (ms : List UInt64) : Prop := ∀ m ∈ ms, s.Valid m

instance (s : Objects) (ms : List UInt64) : Decidable (s.AllValid ms) :=
  List.decidableBAll s.Valid ms

/-- The constructor of a command. -/
def construct (s : Objects) (event : CommandEvent) : Objects :=
  { s with
    references := (event.retains s.kernels).foldl retain s.references
    commands := s.commands ++ [{
      event := event
      retained := (event.retains s.kernels).filter fun m => s.references m ≠ none }] }

/-- The destructor of command `c`, at position `i`. -/
def destroy (s : Objects) (i : Nat) (c : LiveCommand) : Objects :=
  { s with
    references := (c.event.releases s.kernels).foldl release s.references
    commands := s.commands.eraseIdx i }

/-- The application releases its own references only, and names existing objects. -/
def step (sampler : UInt64 → Option UInt32) (s : Objects) : ObjectAction → Option Objects
  | .createMemObject m =>
    if m ≠ 0 ∧ s.references m = none ∧ s.others m = 0 then
      some { s with
        references := Function.update s.references m (some 1)
        others := Function.update s.others m 1 }
    else none
  | .retainMemObject m =>
    if s.references m ≠ none then
      some { s with
        references := retain s.references m
        others := Function.update s.others m (s.others m + 1) }
    else none
  | .releaseMemObject m =>
    if 0 < s.others m then
      some { s with
        references := release s.references m
        others := Function.update s.others m (s.others m - 1) }
    else none
  | .setKernelArg k index size value =>
    ((s.kernels k).setArg sampler index size value).map fun r =>
      { s with kernels := Function.update s.kernels k r.1 }
  | .construct event =>
    if s.AllValid (event.accesses s.kernels) then some (s.construct event) else none
  | .destroy i => s.commands[i]?.map (s.destroy i)

end Objects

/-- No object is known and no kernel has been given an object. -/
def objectRuns (sampler : UInt64 → Option UInt32) : LTS Objects ObjectAction :=
  ofStep (fun s => s.references = (fun _ => none) ∧ s.others = (fun _ => 0) ∧ s.commands = [])
    (Objects.step sampler)

/-- The constructor retains what the command will access: it copies within one object, gives no
object to a native kernel, migrates none, and its kernel has no image. -/
def CommandEvent.covered (kernels : KernelId → Kernel) : CommandEvent → Bool
  | .copyBufferRect source destination | .copyImage source destination
  | .copyImageToBuffer source destination | .copyBufferToImage source destination =>
    destination = source
  | .nativeKernel memList => memList = []
  | .migrateMemObjects memObjects => memObjects = []
  | .ndRangeKernel k | .taskKernel k => (kernels k).imageArgs = []
  | _ => true

/-- Commands are constructed only where everything is retained, and an argument that is a memory
object is set only while its kernel has no live command. -/
def ObjectsKept (s : Objects) : ObjectAction → Prop
  | .setKernelArg k index .. =>
    (∀ arg ∈ (s.kernels k).args[index]?, arg.isBuffer = false ∧ arg.isImage = false) ∨
      ∀ c ∈ s.commands, c.event.kernel ≠ some k
  | .construct event => event.covered s.kernels = true
  | _ => True

instance (s : Objects) (a : ObjectAction) : Decidable (ObjectsKept s a) :=
  match a with
  | .setKernelArg k index .. => inferInstanceAs (Decidable (
      (∀ arg ∈ (s.kernels k).args[index]?, arg.isBuffer = false ∧ arg.isImage = false) ∨
        ∀ c ∈ s.commands, c.event.kernel ≠ some k))
  | .construct event => inferInstanceAs (Decidable (event.covered s.kernels = true))
  | .createMemObject _ | .retainMemObject _ | .releaseMemObject _ | .destroy _ =>
    inferInstanceAs (Decidable True)

/-- The references on `m` that live commands hold since their construction. -/
def Objects.byCommands (s : Objects) (m : UInt64) : Nat :=
  (s.commands.map fun c => c.retained.count m).sum

/-- Every reference is accounted for, and the live commands hold what they access and what they
will release. -/
structure Outlive (s : Objects) : Prop where
  counts : s.references = held fun m => s.others m + s.byCommands m
  accessed : ∀ c ∈ s.commands, ∀ m ∈ c.event.accesses s.kernels, m ≠ 0 →
    m ∈ c.retained ∧ s.references m ≠ none
  released : ∀ c ∈ s.commands, ∀ m, m ≠ 0 →
    (c.event.releases s.kernels).count m = c.retained.count m

structure RetentionInv (s : Objects) : Prop where
  counts : s.references = held fun m => s.others m + s.byCommands m
  null : s.others 0 = 0 ∧ s.byCommands 0 = 0
  accessed : ∀ c ∈ s.commands, ∀ m ∈ c.event.accesses s.kernels, m ≠ 0 → m ∈ c.retained
  released : ∀ c ∈ s.commands, ∀ m, m ≠ 0 →
    (c.event.releases s.kernels).count m = c.retained.count m

section Facts

variable {kernels kernels' : KernelId → Kernel} {event : CommandEvent} {m : UInt64}

theorem retains_subset_accesses (h : m ∈ event.retains kernels) : m ∈ event.accesses kernels := by
  cases event <;> simp_all [CommandEvent.retains, CommandEvent.accesses]

theorem accesses_subset_retains (hc : event.covered kernels = true)
    (h : m ∈ event.accesses kernels) : m ∈ event.retains kernels := by
  cases event <;> simp_all [CommandEvent.retains, CommandEvent.accesses, CommandEvent.covered]

theorem count_releases : (event.releases kernels).count m = (event.retains kernels).count m := by
  cases event with
  | copyBuffer source destination => exact (List.Perm.swap source destination []).count_eq m
  | _ => rfl

/-- Only the arguments of its own kernel matter to a command. -/
theorem objects_congr (h : ∀ k, event.kernel = some k →
    (kernels' k).bufferArgs = (kernels k).bufferArgs ∧
      (kernels' k).imageArgs = (kernels k).imageArgs) :
    event.accesses kernels' = event.accesses kernels ∧
      event.releases kernels' = event.releases kernels := by
  cases event with
  | ndRangeKernel k =>
    obtain ⟨hb, hi⟩ := h k rfl
    simp only [CommandEvent.accesses, CommandEvent.releases, hb, hi, and_self]
  | taskKernel k =>
    obtain ⟨hb, hi⟩ := h k rfl
    simp only [CommandEvent.accesses, CommandEvent.releases, hb, hi, and_self]
  | _ => exact ⟨rfl, rfl⟩

end Facts

variable {sampler : UInt64 → Option UInt32} {s s' : Objects} {a : ObjectAction} {m : UInt64}

theorem RetentionInv.known_iff (hi : RetentionInv s) :
    s.references m ≠ none ↔ 0 < s.others m + s.byCommands m := by
  rw [hi.counts, held_ne_none_iff]

/-- A change of the references that nobody's commands hold. -/
theorem held_update_others {n : Nat} (hi : RetentionInv s) :
    (held fun y => Function.update s.others m n y + s.byCommands y) =
      Function.update s.references m
        (if n + s.byCommands m = 0 then none else some (n + s.byCommands m)) := by
  funext y
  by_cases hy : y = m
  · subst hy
    simp [held]
  · simp only [held, Function.update_of_ne hy, hi.counts]

/-- What a constructor has retained of one object. -/
theorem count_filter_known {l : List UInt64} :
    (l.filter fun m => s.references m ≠ none).count m =
      if s.references m = none then 0 else l.count m := by
  split
  · rename_i hm
    rw [List.count_eq_zero]
    simp [List.mem_filter, hm]
  · rename_i hm
    exact List.count_filter (by simpa using hm)

theorem byCommands_construct (event : CommandEvent) :
    (s.construct event).byCommands m = s.byCommands m +
      if s.references m = none then 0 else (event.retains s.kernels).count m := by
  rw [← count_filter_known]
  simp [Objects.byCommands, Objects.construct]

theorem retentionInv_construct {event : CommandEvent}
    (hvalid : ∀ m ∈ event.accesses s.kernels, s.Valid m)
    (hc : event.covered s.kernels = true) (hi : RetentionInv s) :
    RetentionInv (s.construct event) := by
  have hknown : ∀ m, m ∈ event.accesses s.kernels → m ≠ 0 → s.references m ≠ none :=
    fun m hm hm0 => (hvalid m hm).resolve_left hm0
  have hnull : s.references 0 = none := by
    rw [hi.counts, held_eq_none_iff, hi.null.1, hi.null.2]
  refine ⟨?_, ⟨hi.null.1, ?_⟩, fun c hmem m hm hm0 => ?_, fun c hmem m hm0 => ?_⟩
  · change (event.retains s.kernels).foldl retain s.references = _
    rw [hi.counts, foldl_retain_held]
    refine held_congr fun y => ?_
    have hnone : s.references y = none ↔ s.others y + s.byCommands y = 0 := by
      rw [hi.counts, held_eq_none_iff]
    rw [byCommands_construct]
    change _ = s.others y + _
    split
    · rename_i hy
      rw [if_pos (hnone.mpr hy)]
      omega
    · rename_i hy
      rw [if_neg (fun h => hy (hnone.mp h))]
      omega
  · rw [byCommands_construct, if_pos hnull, hi.null.2]
  · rcases List.mem_append.mp hmem with hmem | hmem
    · exact hi.accessed c hmem m hm hm0
    · obtain rfl := List.mem_singleton.mp hmem
      exact List.mem_filter.mpr ⟨accesses_subset_retains hc hm, by simpa using hknown m hm hm0⟩
  · rcases List.mem_append.mp hmem with hmem | hmem
    · exact hi.released c hmem m hm0
    · obtain rfl := List.mem_singleton.mp hmem
      change (event.releases s.kernels).count m = _
      rw [count_releases, count_filter_known]
      split
      · rename_i hm
        rw [List.count_eq_zero]
        exact fun hmem => hknown m (retains_subset_accesses hmem) hm0 hm
      · rfl

theorem byCommands_destroy {i : Nat} {c : LiveCommand} (hc : s.commands[i]? = some c) :
    s.byCommands m = c.retained.count m + (s.destroy i c).byCommands m := by
  have hsum := ((perm_eraseIdx hc).map fun c => c.retained.count m).sum_eq
  rwa [List.map_cons, List.sum_cons] at hsum

theorem retentionInv_destroy {i : Nat} {c : LiveCommand} (hc : s.commands[i]? = some c)
    (hi : RetentionInv s) : RetentionInv (s.destroy i c) := by
  have hsub : ∀ d, d ∈ (s.destroy i c).commands → d ∈ s.commands :=
    fun d hd => List.mem_of_mem_eraseIdx hd
  refine ⟨?_, ⟨hi.null.1, ?_⟩, fun d hd => hi.accessed d (hsub d hd),
    fun d hd => hi.released d (hsub d hd)⟩
  · change (c.event.releases s.kernels).foldl release s.references = _
    rw [hi.counts, foldl_release_held]
    refine held_congr fun y => ?_
    change _ = s.others y + _
    rw [byCommands_destroy hc]
    by_cases hy : y = 0
    · have hzero := byCommands_destroy (m := 0) hc
      have := hi.null
      subst hy
      omega
    · rw [hi.released c (List.mem_of_getElem? hc) y hy]
      omega
  · have hzero := byCommands_destroy (m := 0) hc
    have := hi.null.2
    omega

/-- Other owners of an object get or give back references. -/
theorem retentionInv_others {n : Nat} {refs : Counts UInt64} (hi : RetentionInv s) (hm : m ≠ 0)
    (hcounts : refs = held fun y => Function.update s.others m n y + s.byCommands y) :
    RetentionInv { s with references := refs, others := Function.update s.others m n } where
  counts := hcounts
  null := by
    refine ⟨?_, hi.null.2⟩
    simp only [Function.update_of_ne (Ne.symm hm)]
    exact hi.null.1
  accessed := hi.accessed
  released := hi.released

theorem retentionInv_step (ht : s.step sampler a = some s') (hg : ObjectsKept s a)
    (hi : RetentionInv s) : RetentionInv s' := by
  cases a with
  | createMemObject m =>
    simp only [Objects.step] at ht
    split at ht
    · rename_i hm
      cases ht
      have hzero : s.byCommands m = 0 := by
        have hnone := hm.2.1
        rw [hi.counts, held_eq_none_iff] at hnone
        omega
      refine retentionInv_others hi hm.1 ?_
      rw [held_update_others hi, hzero]
      rfl
    · cases ht
  | retainMemObject m =>
    simp only [Objects.step] at ht
    split at ht
    · rename_i hm
      cases ht
      have hpos := hi.known_iff.mp hm
      have hm0 : m ≠ 0 := by
        rintro rfl
        have := hi.null
        omega
      refine retentionInv_others hi hm0 ?_
      rw [hi.counts, retain_held]
      refine held_congr fun y => ?_
      by_cases hy : y = m
      · subst hy
        rw [if_pos ⟨rfl, by omega⟩, Function.update_self]
        omega
      · simp [hy]
    · cases ht
  | releaseMemObject m =>
    simp only [Objects.step] at ht
    split at ht
    · rename_i hm
      cases ht
      have hm0 : m ≠ 0 := by
        rintro rfl
        have := hi.null
        omega
      refine retentionInv_others hi hm0 ?_
      rw [hi.counts, release_held]
      refine held_congr fun y => ?_
      by_cases hy : y = m
      · subst hy
        rw [if_pos rfl, Function.update_self]
        omega
      · simp [hy]
    · cases ht
  | setKernelArg k index size value =>
    obtain ⟨⟨k', rs⟩, hset, rfl⟩ := Option.map_eq_some_iff.mp ht
    have hsame : ∀ c ∈ s.commands,
        c.event.accesses (Function.update s.kernels k k') = c.event.accesses s.kernels ∧
          c.event.releases (Function.update s.kernels k k') = c.event.releases s.kernels := by
      intro c hc
      apply objects_congr
      intro k'' hk
      by_cases hkk : k'' = k
      · subst hkk
        rcases hg with hno | hno
        · rw [Function.update_self]
          exact Kernel.setArg_objects hset hno
        · exact absurd hk (hno c hc)
      · rw [Function.update_of_ne hkk]
        exact ⟨rfl, rfl⟩
    refine ⟨hi.counts, hi.null, fun c hc m hm => ?_, fun c hc m => ?_⟩
    · rw [(hsame c hc).1] at hm
      exact hi.accessed c hc m hm
    · rw [(hsame c hc).2]
      exact hi.released c hc m
  | construct event =>
    simp only [Objects.step] at ht
    split at ht
    · rename_i hvalid
      cases ht
      exact retentionInv_construct hvalid hg hi
    · cases ht
  | destroy i =>
    obtain ⟨c, hc, rfl⟩ := Option.map_eq_some_iff.mp ht
    exact retentionInv_destroy hc hi

theorem retentionInv_reachable (hr : Reachable ((objectRuns sampler).restrict ObjectsKept) s) :
    RetentionInv s := by
  apply hr.invariant
  · rintro s ⟨href, hothers, hcommands⟩
    refine ⟨?_, ?_, ?_, ?_⟩
    · funext m
      simp [href, hothers, hcommands, held, Objects.byCommands]
    · simp [hothers, hcommands, Objects.byCommands]
    · simp [hcommands]
    · simp [hcommands]
  · rintro s a s' - hi ⟨ht, hg⟩
    exact retentionInv_step ht hg hi

/-- A kernel with one buffer argument that is not set, and no objects. -/
def noObjects : Objects where
  kernels := fun _ => { args := [Arg.create 1 .global .buffer 8 8], hasLocals := false }
  references := fun _ => none
  others := fun _ => 0
  commands := []

theorem exists_objects (as : List ObjectAction) (c : Objects → Bool)
    (h : (exec (Objects.step fun _ => none) noObjects as).map c = some true) :
    ∃ s, Reachable (objectRuns fun _ => none) s ∧ c s = true :=
  exists_exec ⟨rfl, rfl, rfl⟩ as c h

end Shamrock.Runtime
