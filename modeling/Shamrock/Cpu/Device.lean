import Shamrock.Cpu.NDRange
import Shamrock.Lib.Transition
import Mathlib.Logic.Function.Basic

/-!
# The CPU device and its workers

A worker takes one critical section at a time, in any order with the others. Only the list of
events and the work-groups of kernel events are modelled; the other types of events are run in
one go.
-/
namespace Shamrock.Cpu

open Transition

variable {W : Type} [DecidableEq W]

abbrev EventId := Nat

/-- An event that was pushed. `data` is `deviceData()`, which only kernel events have. The last
four fields are history: the work-groups taken, the work-items executed, and the calls of
`setStatus` with `CL_COMPLETE` and with an error code. -/
structure DeviceEvent (W : Type) where
  data : Option (CPUKernelEvent W)
  taken : List CPUKernelWorkGroup
  executed : List (CPUKernelWorkGroup × List UInt64)
  completions : Nat
  failures : Nat

def DeviceEvent.push (W : Type) (kernel : Option NDRange) : DeviceEvent W where
  data := kernel.map (CPUKernelEvent.create W)
  taken := []
  executed := []
  completions := 0
  failures := 0

/-- Where a worker is with the event it works on. -/
inductive Stage
  /-- in `getEvent`, holding `p_events_mutex`, before `reserve` -/
  | reserve
  /-- `getEvent` returned the event; before `setStatus(CL_RUNNING)` -/
  | start
  /-- the switch over the type of the event -/
  | execute
  /-- `instance->run()`, before `callFunction` -/
  | call (wg : CPUKernelWorkGroup)
  /-- the loop of `run`, about to call the kernel for one work-item -/
  | item (wg : CPUKernelWorkGroup) (localId : List UInt64)
  /-- `delete instance`; `ok` is `errcode == CL_SUCCESS` -/
  | delete (ok : Bool)
  /-- after the switch -/
  | cleanup (ok : Bool)
  /-- `setStatus` with `CL_COMPLETE` or the error code -/
  | report (ok : Bool)
  deriving DecidableEq

/-- The device; a worker without an event is at the head of its loop. -/
structure State (W : Type) where
  events : List EventId
  numEvents : UInt32
  eventsMutex : Option W
  slots : EventId → DeviceEvent W
  nextEvent : EventId
  workers : W → Option (EventId × Stage)

namespace State

def setWorker (s : State W) (w : W) (at' : Option (EventId × Stage)) : State W :=
  { s with workers := Function.update s.workers w at' }

def setSlot (s : State W) (e : EventId) (ev : DeviceEvent W) : State W :=
  { s with slots := Function.update s.slots e ev }

def setData (s : State W) (e : EventId) (ke : CPUKernelEvent W) : State W :=
  s.setSlot e { s.slots e with data := some ke }

/-- `p_num_events--; p_events.pop_front()`. -/
def popFront (s : State W) : State W :=
  { s with events := s.events.tail, numEvents := s.numEvents - 1 }

def setMutex (s : State W) (m : Option W) : State W := { s with eventsMutex := m }

end State

inductive Action (W : Type)
  /-- `pushEvent` of a new event, for a kernel event with its launch -/
  | pushEvent (kernel : Option NDRange)
  /-- worker `w` runs to the end of its next critical section; `callable` is whether
  `callFunction` gives a function if it is asked -/
  | resume (w : W) (callable : Bool)

/-- `CPUDevice::getEvent` up to `reserve`. -/
def getEvent (s : State W) (w : W) : Option (State W) :=
  if s.eventsMutex.isSome || s.numEvents = 0 then none
  else match s.events.head? with
    | none => none
    | some e => match (s.slots e).data with
      | some _ => some ((s.setMutex (some w)).setWorker w (some (e, .reserve)))
      | none => some (s.popFront.setWorker w (some (e, .start)))

/-- The end of `getEvent` for a kernel event. -/
def reserve (s : State W) (w : W) (e : EventId) (ke : CPUKernelEvent W) : Option (State W) :=
  if ke.mutex.isSome then none
  else
    let s' := if (ke.reserve w).2 then s.popFront else s
    some (((s'.setData e (ke.reserve w).1).setMutex none).setWorker w (some (e, .start)))

def takeInstance (s : State W) (w : W) (e : EventId) (ke : CPUKernelEvent W) : State W :=
  let wg := ke.takeInstance.2
  (s.setSlot e { s.slots e with
    data := some ke.takeInstance.1
    taken := (s.slots e).taken ++ [wg] }).setWorker w (some (e, .call wg))

/-- One round of the loop of `CPUKernelWorkGroup::run`. -/
def runItem (s : State W) (w : W) (e : EventId) (wg : CPUKernelWorkGroup)
    (localId : List UInt64) : State W :=
  (s.setSlot e { s.slots e with executed := (s.slots e).executed ++ [(wg, localId)] }).setWorker w
    (some (e, if (incVec localId wg.maxLocalId).2 then .delete true
      else .item wg (incVec localId wg.maxLocalId).1))

/-- `setStatus` with the outcome of the event. -/
def report (s : State W) (w : W) (e : EventId) (ok : Bool) : State W :=
  let ev := s.slots e
  (s.setSlot e (if ok then { ev with completions := ev.completions + 1 }
    else { ev with failures := ev.failures + 1 })).setWorker w none

/-- The body of the loop in `worker`. -/
def resume (s : State W) (w : W) (callable : Bool) : Option (State W) :=
  match s.workers w with
  | none => getEvent s w
  | some (e, stage) =>
    match stage, (s.slots e).data with
    | .reserve, some ke => reserve s w e ke
    | .reserve, none => none
    | .start, _ => some (s.setWorker w (some (e, .execute)))
    | .execute, some ke => some (takeInstance s w e ke)
    | .execute, none => some (s.setWorker w (some (e, .cleanup true)))
    | .call wg, _ =>
      if callable then some (s.setWorker w (some (e, .item wg (wg.maxLocalId.map fun _ => 0))))
      else some (s.setWorker w (some (e, .delete false)))
    | .item wg localId, _ => some (runItem s w e wg localId)
    | .delete ok, some ke =>
      if ke.mutex.isSome then none
      else some ((s.setData e ke.workGroupFinished).setWorker w (some (e, .cleanup ok)))
    | .delete _, none => none
    | .cleanup true, some ke =>
      if ke.mutex.isSome then none
      else if ke.finished then some (s.setWorker w (some (e, .report true)))
      else some (s.setWorker w none)
    | .cleanup ok, _ => some (s.setWorker w (some (e, .report ok)))
    | .report ok, _ => some (report s w e ok)

/-- `CPUDevice::pushEvent`. -/
def pushEvent (s : State W) (kernel : Option NDRange) : Option (State W) :=
  if s.eventsMutex.isSome then none
  else some
    { s with
      events := s.events ++ [s.nextEvent]
      numEvents := s.numEvents + 1
      slots := Function.update s.slots s.nextEvent (.push W kernel)
      nextEvent := s.nextEvent + 1 }

def step (s : State W) : Action W → Option (State W)
  | .pushEvent kernel => pushEvent s kernel
  | .resume w callable => resume s w callable

def initial (W : Type) : State W where
  events := []
  numEvents := 0
  eventsMutex := none
  slots := fun _ => .push W none
  nextEvent := 0
  workers := fun _ => none

def device (W : Type) [DecidableEq W] : LTS (State W) (Action W) :=
  ofStep (· = initial W) step

/-- `callFunction` gives every kernel a function to call. -/
def RunsSucceed (_ : State W) : Action W → Prop
  | .pushEvent _ => True
  | .resume _ callable => callable = true

instance (s : State W) : ∀ a, Decidable (RunsSucceed s a)
  | .pushEvent _ => isTrue trivial
  | .resume _ callable => inferInstanceAs (Decidable (callable = true))

theorem exists_succeeding_run (as : List (Action W)) (check : State W → Bool)
    (h : (execGuarded step (fun s a => decide (RunsSucceed s a)) (initial W) as).map check =
      some true) : ∃ s, Reachable ((device W).restrict RunsSucceed) s ∧ check s = true :=
  exists_execGuarded (I := (· = initial W)) RunsSucceed rfl as check h

end Shamrock.Cpu
