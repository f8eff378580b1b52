import Shamrock.Cpu.NDRange
import Mathlib.Logic.Function.Basic
import Mathlib.Logic.Relation

/-!
# Work-items as user contexts

`CPUKernelWorkGroup::run` and `barrier()` on one worker thread. The kernel is a coroutine: a
work-item runs from one call of `barrier()` to the next, and the calls of `swapcontext` decide
which one goes on. `unsigned int` is `Nat` with the wrap-around written out.
-/
namespace Shamrock.Cpu

/-- A work-group of a launch, with the number of calls of `barrier()` in each work-item. -/
structure WorkGroup where
  event : NDRange
  index : List UInt64
  barriers : Nat → Nat

namespace WorkGroup

def group (g : WorkGroup) : CPUKernelWorkGroup := .create g.event g.index

/-- `p_num_work_items`, an `unsigned int`. -/
def numWorkItems (g : WorkGroup) : Nat :=
  g.event.dims.foldl (fun n d => n * d.localWorkSize.toNat % 2 ^ 32) 1

/-- `std::memset` of a local id. -/
def zeroId (g : WorkGroup) : List UInt64 := g.group.maxLocalId.map fun _ => 0

end WorkGroup

/-- A `Context` of the dummy one or at an index of a mapped region. -/
inductive ContextPtr
  | dummy
  | slot (region i : Nat)
  deriving DecidableEq, Repr

/-- A running kernel function: called by `run`, or started by `makecontext` with its `uc_link`. -/
inductive Invocation
  | called (item : Nat)
  | made (item : Nat) (link : ContextPtr)
  deriving DecidableEq, Repr

def Invocation.item : Invocation → Nat
  | .called i | .made i _ => i

/-- What a `ucontext_t` goes on with. -/
inductive UContext
  /-- zeroed memory -/
  | zero
  /-- the start of the kernel function -/
  | entry (item : Nat) (link : ContextPtr)
  /-- the `getcontext` in `barrier()` after a segment -/
  | gotten (inv : Invocation) (segment : Nat)
  /-- the `swapcontext` in `barrier()` after a segment -/
  | barrier (inv : Invocation) (segment : Nat)
  /-- the `swapcontext` in `run` -/
  | drain (main : ContextPtr) (i : Nat)
  deriving DecidableEq, Repr

structure Context where
  localId : List UInt64
  context : UContext
  initialized : Bool
  deriving DecidableEq, Repr

/-- A `Context` in memory fresh from `mmap`. -/
def Context.zero : Context where
  localId := []
  context := .zero
  initialized := false

/-- What a worker thread carries from one work-group to the next: `work_items_data`,
`work_items_size` and the mapped regions with their sizes. -/
structure Worker where
  workItemsData : Option Nat
  workItemsSize : Nat
  memory : Nat → Nat → Context
  mapped : Nat → Nat
  nextRegion : Nat

/-- `setWorkItemsData(0, 0)`. -/
def Worker.init : Worker where
  workItemsData := none
  workItemsSize := 0
  memory := fun _ _ => .zero
  mapped := fun _ => 0
  nextRegion := 0

/-- The size of `Context` on a 64-bit host. -/
def sizeofContext : Nat := 1000

/-- `p_stack_size + sizeof(Context)` for each work-item. -/
def neededSize (numWorkItems : Nat) : Nat := numWorkItems * (8192 + sizeofContext)

/-- `mmap` of a new region, refused if it is empty, and `setWorkItemsData` with the old size. -/
def Worker.mmap (w : Worker) (size : Nat) : Option (Nat × Worker) :=
  if size = 0 then none
  else some (w.nextRegion,
    { w with
      workItemsData := some w.nextRegion
      memory := Function.update w.memory w.nextRegion fun _ => .zero
      mapped := Function.update w.mapped w.nextRegion size
      nextRegion := w.nextRegion + 1 })

/-- Allocate or reuse the stacks. A region that is given back is never read again. -/
def Worker.stacks (w : Worker) (size : Nat) : Option (Nat × Worker) :=
  match w.workItemsData with
  | none => w.mmap size
  | some region => if w.workItemsSize < size then w.mmap size else some (region, w)

/-- `getContextAddr` of `i` lies inside the region. -/
def Worker.Holds (w : Worker) (region i : Nat) : Prop := neededSize (i + 1) ≤ w.mapped region

instance (w : Worker) (region i : Nat) : Decidable (w.Holds region i) :=
  inferInstanceAs (Decidable (_ ≤ _))

/-- Where the thread is. -/
inductive Control
  /-- a work-item is about to run a segment -/
  | kernel (inv : Invocation) (segment : Nat)
  /-- the segment ended in a call of `barrier()` -/
  | barrier (inv : Invocation) (segment : Nat)
  /-- "take the next context" in `barrier()` -/
  | switch (inv : Invocation) (segment : Nat)
  /-- the kernel function has returned to the first loop of `run` -/
  | returned (item : Nat)
  /-- the second loop of `run` -/
  | drain (main : ContextPtr) (i : Nat)
  | done
  deriving DecidableEq, Repr

/-- A segment that was run, with the answers of the built-ins in it. -/
structure Executed where
  item : Nat
  segment : Nat
  localId : List UInt64
  globalId : List UInt64
  groupId : List UInt64
  deriving DecidableEq, Repr

/-- A call of `CPUKernelWorkGroup::run`; `executed` is history. -/
structure Run where
  worker : Worker
  control : Control
  contexts : Option Nat
  currentWorkItem : Nat
  currentContext : ContextPtr
  dummyContext : Context
  hadBarrier : Bool
  executed : List Executed

namespace Run

def start (w : Worker) (g : WorkGroup) : Run where
  worker := w
  control := .kernel (.called 0) 0
  contexts := none
  currentWorkItem := 0
  currentContext := .dummy
  dummyContext := { localId := g.zeroId, context := .zero, initialized := false }
  hadBarrier := false
  executed := []

def read (r : Run) : ContextPtr → Context
  | .dummy => r.dummyContext
  | .slot region i => r.worker.memory region i

def setRegion (r : Run) (region : Nat) (m : Nat → Context) : Run :=
  { r with worker := { r.worker with memory := Function.update r.worker.memory region m } }

def write (r : Run) (p : ContextPtr) (c : Context) : Run :=
  match p with
  | .dummy => { r with dummyContext := c }
  | .slot region i => r.setRegion region (Function.update (r.worker.memory region) i c)

/-- `getcontext` and the first half of `swapcontext`. -/
def save (r : Run) (p : ContextPtr) (u : UContext) : Run :=
  r.write p { r.read p with context := u }

def goto (r : Run) (control : Control) : Run := { r with control := control }

/-- The other half of `swapcontext`; a context that was never set cannot be resumed. -/
def resume (r : Run) : UContext → Option Run
  | .zero => none
  | .entry i link => some (r.goto (.kernel (.made i link) 0))
  | .gotten inv k => some (r.goto (.switch inv k))
  | .barrier inv k => some (r.goto (.kernel inv (k + 1)))
  | .drain main i => some (r.goto (.drain main ((i + 1) % 2 ^ 32)))

/-- Run one segment. The built-ins read the local id of `p_current_context`. -/
def runSegment (r : Run) (g : WorkGroup) (inv : Invocation) (k : Nat) : Run :=
  let localId := (r.read r.currentContext).localId
  { r with executed := r.executed ++
      [{ item := inv.item
         segment := k
         localId := localId
         globalId := g.group.getGlobalId localId
         groupId := g.group.index }] }

/-- The part of `barrier()` that sets up the contexts. -/
def setUp (r : Run) (g : WorkGroup) (inv : Invocation) (k : Nat) : Option Run :=
  (r.worker.stacks (neededSize g.numWorkItems)).map fun (region, w) =>
    let main : ContextPtr := .slot region 0
    let r := { r with worker := w, contexts := some region, currentContext := main }
    (r.write main { localId := g.zeroId, context := .gotten inv k, initialized := true }).goto
      (.switch inv k)

/-- The part of `barrier()` that gives a fresh context its local id and the kernel to run. -/
def initContext (r : Run) (g : WorkGroup) (region i : Nat) : Run :=
  if (r.read (.slot region i)).initialized then r
  else
    r.write (.slot region i)
      { localId := (incVec (r.read r.currentContext).localId g.group.maxLocalId).1
        context := .entry i (.slot region 0)
        initialized := true }

/-- The work-item after the current one. -/
def nextItem (r : Run) (g : WorkGroup) : Nat :=
  if (r.currentWorkItem + 1) % 2 ^ 32 = g.numWorkItems then 0
  else (r.currentWorkItem + 1) % 2 ^ 32

/-- The part of `barrier()` that makes the context of work-item `i` the current one. -/
def moveTo (r : Run) (g : WorkGroup) (region i : Nat) (inv : Invocation) (k : Nat) : Run :=
  let r := { r with currentWorkItem := i }.initContext g region i
  { r.save r.currentContext (.barrier inv k) with currentContext := .slot region i }

/-- The thread runs up to the next point of control. -/
def next (g : WorkGroup) (r : Run) : Option Run :=
  match r.control with
  | .kernel inv k =>
    let r := r.runSegment g inv k
    if k < g.barriers inv.item then some (r.goto (.barrier inv k))
    else match inv with
      | .called i => some (r.goto (.returned i))
      | .made _ link => r.resume (r.read link).context
  | .barrier inv k =>
    let r := { r with hadBarrier := true }
    match r.contexts with
    | some _ => some (r.goto (.switch inv k))
    | none =>
      -- not every work-item calls barrier()
      if r.currentWorkItem ≠ 0 then some (r.goto (.kernel inv (k + 1)))
      else r.setUp g inv k
  | .switch inv k =>
    match r.contexts with
    | none => none
    | some region =>
      if r.worker.Holds region (r.nextItem g) then
        let r := r.moveTo g region (r.nextItem g) inv k
        r.resume (r.read r.currentContext).context
      else none
  | .returned i =>
    if r.hadBarrier then some (r.goto (.drain r.currentContext 1))
    else
      let next := incVec r.dummyContext.localId g.group.maxLocalId
      let r := { r with dummyContext := { r.dummyContext with localId := next.1 } }
      some (r.goto (if next.2 then .done else .kernel (.called (i + 1)) 0))
  | .drain main i =>
    if i < g.numWorkItems then
      match r.contexts with
      | none => none
      | some region =>
        if r.worker.Holds region i then
          let r := r.save main (.drain main i)
          r.resume (r.read (.slot region i)).context
        else none
    else some (r.goto .done)
  | .done => none

end Run

/-- `r'` is reached from `r` without other work in between. -/
def Reaches (g : WorkGroup) (r r' : Run) : Prop :=
  Relation.ReflTransGen (fun r r' => r.next g = some r') r r'

/-- `run` returns, having executed these segments and leaving the worker like this. -/
def Returns (w : Worker) (g : WorkGroup) (executed : List Executed) (w' : Worker) : Prop :=
  ∃ r, Reaches g (.start w g) r ∧ r.control = .done ∧ r.executed = executed ∧ r.worker = w'

/-- What a worker thread can be left with after any sequence of work-groups. -/
inductive Worker.Reachable : Worker → Prop
  | init : Reachable .init
  | next {w w' : Worker} {g : WorkGroup} {executed : List Executed} : Reachable w →
      Returns w g executed w' → Reachable w'

end Shamrock.Cpu
