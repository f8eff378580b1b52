import Shamrock.Runtime.Kernel
import Shamrock.Cpu.NDRange
import Shamrock.Lib.Transition
import Mathlib.Logic.Function.Basic

/-! When commands read the kernel arguments and the host memory that they were enqueued with. -/
namespace Shamrock.Runtime

open Transition Cpu

/-- What a command keeps of its call: pointers to the kernel, to the pattern and to the array. -/
inductive Input
  /-- `clEnqueueNDRangeKernel` and `clEnqueueTask` -/
  | kernel (kernel : KernelId) (range : NDRange)
  | fillBuffer (pattern : UInt64) (patternSize size : Nat)
  | migrateMemObjects (memObjects : UInt64) (numMemObjects : Nat)

/-- What a command is executed with. -/
inductive Read
  /-- the arguments of one work-group -/
  | args (args : List Passed)
  /-- the pattern, for one turn of the loop -/
  | pattern (bytes : List UInt8)
  /-- the next entry of the array -/
  | memObject (object : UInt64)
  deriving DecidableEq, Repr

/-- An enqueued command. `kernelArgs` is what `cacheKernelArgs` was given, and `reads` is a
history variable. -/
structure Command where
  input : Input
  kernelArgs : Option (List Passed)
  reads : List Read

structure Host where
  kernels : KernelId → Kernel
  memory : UInt64 → UInt8
  commands : List Command

inductive HostAction
  /-- `clSetKernelArg` -/
  | setKernelArg (kernel : KernelId) (index size : Nat) (value : Option (List UInt8))
  /-- the application writes to its own memory -/
  | hostWrite (address : UInt64) (bytes : List UInt8)
  /-- a call that returned success -/
  | enqueue (input : Input)
  /-- a worker runs one work-group of a kernel, or one turn of the loop of another command -/
  | execute (command : Nat)

/-- How often the command reads its input. -/
def Input.numReads : Input → Nat
  | .kernel _ range => (CPUKernelEvent.create Unit range).numWg.toNat
  | .fillBuffer _ patternSize size => (size + patternSize - 1) / patternSize
  | .migrateMemObjects _ numMemObjects => numMemObjects

def Command.Pending (c : Command) : Prop := c.reads.length < c.input.numReads

instance (c : Command) : Decidable c.Pending :=
  inferInstanceAs (Decidable (c.reads.length < c.input.numReads))

namespace Host

/-- The bytes at `address + offset`. -/
def bytes (h : Host) (address : UInt64) (offset n : Nat) : List UInt8 :=
  (List.range n).map fun i => h.memory (address + (offset + i).toUInt64)

/-- What read number `i` of the command yields now, and what is cached after it. -/
def read (h : Host) (c : Command) (i : Nat) : Read × Option (List Passed) :=
  match c.input with
  | .kernel k _ =>
    (.args ((h.kernels k).callArgs c.kernelArgs).1, ((h.kernels k).callArgs c.kernelArgs).2)
  | .fillBuffer pattern patternSize _ => (.pattern (h.bytes pattern 0 patternSize), c.kernelArgs)
  | .migrateMemObjects memObjects _ =>
    (.memObject (readPointer (h.bytes memObjects (8 * i) 8)), c.kernelArgs)

def write (h : Host) (address : UInt64) (bytes : List UInt8) : Host :=
  { h with memory := fun a => (bytes[(a - address).toNat]?).getD (h.memory a) }

def enqueue (h : Host) (input : Input) : Host :=
  { h with commands := h.commands ++ [{ input := input, kernelArgs := none, reads := [] }] }

def step (sampler : UInt64 → Option UInt32) (h : Host) : HostAction → Option Host
  | .setKernelArg k index size value =>
    ((h.kernels k).setArg sampler index size value).map fun r =>
      { h with kernels := Function.update h.kernels k r.1 }
  | .hostWrite address bytes => some (h.write address bytes)
  | .enqueue input => some (h.enqueue input)
  | .execute i =>
    match h.commands[i]? with
    | none => none
    | some c =>
      if c.Pending then
        some { h with commands := h.commands.set i { c with
          kernelArgs := (h.read c c.reads.length).2
          reads := c.reads ++ [(h.read c c.reads.length).1] } }
      else none

end Host

/-- The runs that go on from one state. -/
def hostRuns (sampler : UInt64 → Option UInt32) (h : Host) : LTS Host HostAction :=
  ofStep (· = h) (Host.step sampler)

def Input.usesKernel (k : KernelId) : Input → Bool
  | .kernel k' _ => k' = k
  | _ => false

/-- The command still has to read the arguments of kernel `k`. -/
def Command.ReadsArgs (h : Host) (c : Command) (k : KernelId) : Prop :=
  c.Pending ∧ ((h.kernels k).hasLocals = true ∨ c.kernelArgs = none) ∧ c.input.usesKernel k = true

instance (h : Host) (c : Command) (k : KernelId) : Decidable (c.ReadsArgs h k) :=
  inferInstanceAs (Decidable (c.Pending ∧ ((h.kernels k).hasLocals = true ∨ c.kernelArgs = none) ∧
    c.input.usesKernel k = true))

/-- The host memory that the command still has to read. -/
def Command.sources (c : Command) : List UInt64 :=
  if c.Pending then
    match c.input with
    | .kernel .. => []
    | .fillBuffer pattern patternSize _ =>
      (List.range patternSize).map fun i => pattern + (0 + i).toUInt64
    | .migrateMemObjects memObjects numMemObjects =>
      ((List.range (8 * numMemObjects)).filter (8 * c.reads.length ≤ ·)).map fun i =>
        memObjects + i.toUInt64
  else []

/-- Nothing is changed that the command at position `n` still has to read. -/
def InputsKept (n : Nat) (h : Host) : HostAction → Prop
  | .setKernelArg k .. => ∀ c ∈ h.commands[n]?, ¬ c.ReadsArgs h k
  | .hostWrite address bytes => ∀ c ∈ h.commands[n]?, ∀ a ∈ c.sources,
      bytes.length ≤ (a - address).toNat
  | _ => True

instance (n : Nat) (h : Host) (a : HostAction) : Decidable (InputsKept n h a) :=
  match a with
  | .setKernelArg k .. =>
    inferInstanceAs (Decidable (∀ c ∈ h.commands[n]?, ¬ c.ReadsArgs h k))
  | .hostWrite address bytes => inferInstanceAs (Decidable (∀ c ∈ h.commands[n]?, ∀ a ∈ c.sources,
      bytes.length ≤ (a - address).toNat))
  | .enqueue _ | .execute _ => inferInstanceAs (Decidable True)

/-- The cached arguments are used again, and they are those of the work-group that cached them. -/
theorem Kernel.callArgs_idem (k : Kernel) (kernelArgs : Option (List Passed)) :
    (k.callArgs (k.callArgs kernelArgs).2).1 = (k.callArgs kernelArgs).1 := by
  unfold Kernel.callArgs
  cases kernelArgs <;> cases hl : k.hasLocals <;> simp

theorem Kernel.callArgs_cached {k : Kernel} (args : List Passed) (h : k.hasLocals = false) :
    (k.callArgs (some args)).1 = args := by
  simp [Kernel.callArgs, h]

/-- The command at position `n` reads what it would have read in the state `h₀`. -/
def ReadsFrom (h₀ : Host) (c₀ : Command) (n : Nat) (h : Host) : Prop :=
  ∃ c, h.commands[n]? = some c ∧ c.input = c₀.input ∧
    (∀ i r, c.reads[i]? = some r → r = (h₀.read c₀ i).1) ∧
    ∀ i, c.reads.length ≤ i → i < c.input.numReads → (h.read c i).1 = (h₀.read c₀ i).1

variable {sampler : UInt64 → Option UInt32} {h h' h₀ : Host} {c c₀ : Command} {n : Nat}

/-- An argument that the command does not have to read any more may be set. -/
theorem read_setKernelArg {k : KernelId} {k' : Kernel} {i : Nat} (hc : ¬ c.ReadsArgs h k)
    (hi : c.reads.length ≤ i) (hn : i < c.input.numReads)
    (hl : k'.hasLocals = (h.kernels k).hasLocals) :
    (Host.read { h with kernels := Function.update h.kernels k k' } c i).1 = (h.read c i).1 := by
  have hp : c.Pending := Nat.lt_of_le_of_lt hi hn
  unfold Host.read
  cases hin : c.input with
  | kernel k'' range =>
    by_cases hk : k'' = k
    · subst hk
      have hcached : (h.kernels k'').hasLocals = false ∧ c.kernelArgs ≠ none := by
        unfold Command.ReadsArgs at hc
        rw [hin] at hc
        simpa [hp, Input.usesKernel] using hc
      obtain ⟨args, hargs⟩ := Option.ne_none_iff_exists'.mp hcached.2
      simp only [Function.update_self, hargs]
      rw [Kernel.callArgs_cached args (hl.trans hcached.1), Kernel.callArgs_cached args hcached.1]
    · simp only [Function.update_of_ne hk]
  | fillBuffer => rfl
  | migrateMemObjects => rfl

/-- A write elsewhere leaves the bytes alone. -/
theorem bytes_write {p address : UInt64} {bs : List UInt8} {offset m : Nat}
    (hout : ∀ i, i < m → bs.length ≤ (p + (offset + i).toUInt64 - address).toNat) :
    (h.write address bs).bytes p offset m = h.bytes p offset m := by
  unfold Host.bytes Host.write
  apply List.map_congr_left
  intro i hi
  have hnone := List.getElem?_eq_none (hout i (List.mem_range.mp hi))
  simp only [hnone, Option.getD_none]

theorem read_hostWrite {address : UInt64} {bs : List UInt8} {i : Nat}
    (hc : ∀ a ∈ c.sources, bs.length ≤ (a - address).toNat)
    (hi : c.reads.length ≤ i) (hn : i < c.input.numReads) :
    ((h.write address bs).read c i).1 = (h.read c i).1 := by
  have hp : c.Pending := Nat.lt_of_le_of_lt hi hn
  unfold Command.sources at hc
  rw [if_pos hp] at hc
  unfold Host.read
  cases hin : c.input with
  | kernel => rfl
  | fillBuffer pattern patternSize size =>
    rw [hin] at hc
    have hb : (h.write address bs).bytes pattern 0 patternSize = h.bytes pattern 0 patternSize :=
      bytes_write fun j hj => hc _ (List.mem_map.mpr ⟨j, List.mem_range.mpr hj, rfl⟩)
    simp only [hb]
  | migrateMemObjects memObjects numMemObjects =>
    rw [hin] at hc hn
    have hb : (h.write address bs).bytes memObjects (8 * i) 8 = h.bytes memObjects (8 * i) 8 := by
      refine bytes_write fun j hj => hc _ (List.mem_map.mpr ⟨8 * i + j, ?_, rfl⟩)
      simp only [Input.numReads] at hn
      simp only [List.mem_filter, List.mem_range, decide_eq_true_eq]
      omega
    simp only [hb]

theorem readsFrom_step {a : HostAction} (ht : h.step sampler a = some h') (hg : InputsKept n h a)
    (hi : ReadsFrom h₀ c₀ n h) : ReadsFrom h₀ c₀ n h' := by
  obtain ⟨c, hc, hin, hold, hnext⟩ := hi
  cases a with
  | setKernelArg k index size value =>
    obtain ⟨⟨k', rs⟩, hset, rfl⟩ := Option.map_eq_some_iff.mp ht
    refine ⟨c, hc, hin, hold, fun i hi hn => ?_⟩
    rw [← hnext i hi hn]
    exact read_setKernelArg (hg c hc) hi hn (Kernel.setArg_hasLocals hset)
  | hostWrite address bytes =>
    cases ht
    refine ⟨c, hc, hin, hold, fun i hi hn => ?_⟩
    rw [← hnext i hi hn]
    exact read_hostWrite (hg c hc) hi hn
  | enqueue input =>
    cases ht
    have hlt := (List.getElem?_eq_some_iff.mp hc).1
    refine ⟨c, ?_, hin, hold, hnext⟩
    rw [Host.enqueue, List.getElem?_append_left hlt]
    exact hc
  | execute m =>
    simp only [Host.step] at ht
    split at ht
    · cases ht
    · rename_i d hd
      split at ht
      · rename_i hp
        cases ht
        by_cases hmn : m = n
        · subst hmn
          rw [hc] at hd
          cases hd
          have hlt := (List.getElem?_eq_some_iff.mp hc).1
          refine ⟨_, List.getElem?_set_self hlt, hin, fun i r hr => ?_, fun i hi hn => ?_⟩
          · rw [List.getElem?_append] at hr
            split at hr
            · exact hold i r hr
            · rename_i hge
              have heq : i = c.reads.length := by
                have := (List.getElem?_eq_some_iff.mp hr).1
                simp only [List.length_singleton] at this
                omega
              subst heq
              rw [← hnext c.reads.length (Nat.le_refl _) hp]
              simpa using hr.symm
          · have hi' : c.reads.length ≤ i := by
              simp only [List.length_append, List.length_singleton] at hi
              omega
            rw [← hnext i hi' hn]
            -- a kernel may have cached its arguments by this read
            unfold Host.read
            cases hk : c.input with
            | kernel k range => simp only [Kernel.callArgs_idem]
            | fillBuffer => rfl
            | migrateMemObjects => rfl
        · refine ⟨c, ?_, hin, hold, hnext⟩
          rw [List.getElem?_set_ne hmn]
          exact hc
      · cases ht

/-- In every run a command reads what it was enqueued with. -/
theorem readsFrom_reachable {input : Input}
    (hr : Reachable ((hostRuns sampler (h₀.enqueue input)).restrict
      (InputsKept h₀.commands.length)) h) :
    ReadsFrom h₀ { input := input, kernelArgs := none, reads := [] } h₀.commands.length h := by
  apply hr.invariant
  · rintro _ rfl
    refine ⟨_, List.getElem?_concat_length, rfl, fun i r hr => ?_, fun i hi hn => ?_⟩
    · simp at hr
    · unfold Host.read
      cases input <;> rfl
  · rintro s a s' - hi ⟨ht, hg⟩
    exact readsFrom_step ht hg hi

/-- The launch of `clEnqueueTask`. -/
def task : NDRange where
  dims := [⟨0, 1, 1⟩]
  workDim_pos := by decide
  workDim_le := by decide
  global_pos := by decide
  local_pos := by decide
  local_dvd := by decide
  groups_lt := by decide

/-- A host with a kernel of one integer argument, set to seven, and a pattern of ones. -/
def smallHost : Host where
  kernels := fun _ =>
    { args := [{ Arg.create 1 .priv .int32 4 4 with data := some [7, 0, 0, 0], defined := true }]
      hasLocals := false }
  memory := fun _ => 1
  commands := []

/-- The steps lead to a state in which the first command has made these reads. -/
theorem exists_reads (h : Host) (as : List HostAction) (reads : List Read)
    (he : (exec (Host.step fun _ => none) h as).map
      (fun h => decide (h.commands[0]?.map Command.reads = some reads)) = some true) :
    ∃ h', Reachable (hostRuns (fun _ => none) h) h' ∧
      h'.commands[0]?.map Command.reads = some reads := by
  obtain ⟨h', hr, hc⟩ := exists_exec (I := (· = h)) rfl as _ he
  exact ⟨h', hr, of_decide_eq_true hc⟩

/-- As `exists_reads`, for steps that leave the input of the first command alone. -/
theorem exists_guarded_reads (h : Host) (as : List HostAction) (r : Read)
    (he : (execGuarded (Host.step fun _ => none) (fun h a => decide (InputsKept 0 h a)) h as).map
      (fun h => decide (h.commands[0]?.map Command.reads = some [r])) = some true) :
    ∃ h' c, Reachable ((hostRuns (fun _ => none) h).restrict (InputsKept 0)) h' ∧
      h'.commands[0]? = some c ∧ c.reads[0]? = some r := by
  obtain ⟨h', hr, hc⟩ := exists_execGuarded (I := (· = h)) (InputsKept 0) rfl as _ he
  obtain ⟨c, hc, hreads⟩ := Option.map_eq_some_iff.mp (of_decide_eq_true hc)
  exact ⟨h', c, hr, hc, by rw [hreads]; rfl⟩

end Shamrock.Runtime
