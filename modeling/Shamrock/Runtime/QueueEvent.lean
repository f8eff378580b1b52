import Shamrock.Lib.Transition

/-!
# The object of one command

From its constructor to its destructor, on the way through the helper `queueEvent` of the API.
It is touched by the call itself, by the queue, by the workers of the device, by the threads of
events that it waits for and by the application.
-/
namespace Shamrock.Runtime

open Transition

inductive CommandKind
  /-- a command that one worker executes -/
  | transfer
  | map
  | kernel (workGroups : Nat)
  | instantaneous
  deriving DecidableEq, Repr

namespace CommandKind

/-- How often the device gives the command to a worker. -/
def slots : CommandKind → Nat
  | .kernel workGroups => workGroups
  | _ => 1

def isKernel : CommandKind → Bool
  | .kernel _ => true
  | _ => false

end CommandKind

/-- A call of `clEnqueue*`: whether it is given a place for the event, whether it blocks, whether
the queue has `CL_QUEUE_PROFILING_ENABLE`, and the events of the wait list that are not complete. -/
structure EnqueueCall where
  kind : CommandKind
  event : Bool
  blocking : Bool
  profiling : Bool
  waits : List Nat
  deriving DecidableEq, Repr

/-- The next line of the call. -/
inductive ApiPc
  | mapReference
  | eventReference
  | blockingReference
  | initEventDeviceData
  | pushBack
  | updateTiming
  | checkStatus
  | waitForStatus
  | dereference
  | ptr
  | clReleaseEvent
  | delete
  | deleteAgain
  | returned (failed : Bool)
  deriving DecidableEq, Repr

/-- A thread inside `setStatus` with a final status: it calls the callbacks, notifies `num`
dependent events and, if it is the queue itself, releases the command. -/
structure Setter where
  calling : Bool
  num : Nat
  release : Bool
  deriving DecidableEq, Repr

/-- `listed` says whether the command is in `p_events` and `taken` whether `pushEventsOnDevice` has
erased it to complete it. `waitEvents` is `p_wait_events`, and `notices` are the places that the
command still has in the `p_dependent_events` of these events. `slots` is how often a worker still
gets it, `running` and `checking` are the workers that execute it and those that are about to look
whether it is finished. `terminators` are the threads of failed events between `removeWaitEvent` and
`setStatusHelper`. `dependents` is the size of `p_dependent_events`. The last block are history
variables: the references of the application, of dependent events and of the list of maps of the
buffer, the deletions, and whether the object was used after one. -/
structure CommandObject where
  call : EnqueueCall
  api : ApiPc
  references : Nat
  status : Int
  waitEvents : List Nat
  notices : List Nat
  dependents : Nat
  listed : Bool
  taken : Bool
  slots : Nat
  running : Nat
  checking : Nat
  setters : List Setter
  terminators : Nat
  handles : Nat
  edges : Nat
  maps : Nat
  deletes : Nat
  stale : Bool
  deriving DecidableEq, Repr

namespace CommandObject

def access (s : CommandObject) : CommandObject :=
  { s with stale := s.stale || 0 < s.deletes }

def delete (s : CommandObject) : CommandObject :=
  { s.access with deletes := s.deletes + 1 }

def reference (s : CommandObject) : CommandObject :=
  { s.access with references := s.references + 1 }

def dereference (s : CommandObject) : CommandObject :=
  { s.access with references := s.references - 1 }

/-- `isA` does not touch an object that is not known any more. -/
def clReleaseEvent (s : CommandObject) : CommandObject :=
  if s.deletes = 0 then
    if s.dereference.references = 0 then s.dereference.delete else s.dereference
  else s

/-- `setStatus` up to the callbacks. A command has a parent, so that only `CL_COMPLETE` leads into
the loop over the dependent events. -/
def setStatus (s : CommandObject) (status : Int) (release : Bool) : CommandObject :=
  { s.access with
    status := status
    setters := s.setters ++ [⟨true, if status = 0 then s.dependents else 0, release⟩] }

def returnCall (s : CommandObject) (failed : Bool) : CommandObject :=
  { s with
    api := .returned failed
    handles := if s.call.event ∧ failed = false then 1 else 0 }

/-- The caller of the helper reads a map command once more. -/
def leaveHelper (s : CommandObject) : CommandObject :=
  if s.call.kind = .map then { s with api := .ptr } else s.returnCall false

/-- The next line of the call. `ok` is the outcome of `initEventDeviceData`, which fails for
kernels only. -/
def apiStep (s : CommandObject) (ok : Bool) : Option CommandObject :=
  match s.api with
  | .mapReference =>
    some { if s.call.kind = .map then s.reference else s with api := .eventReference }
  | .eventReference =>
    some { if s.call.event then s.reference else s with api := .blockingReference }
  | .blockingReference =>
    some { if s.call.blocking then s.reference else s with api := .initEventDeviceData }
  | .initEventDeviceData =>
    some { s.access with
      api := if ok ∨ s.call.kind.isKernel = false then .pushBack else .delete }
  | .pushBack => some { s.access with listed := true, api := .updateTiming }
  | .updateTiming =>
    let t := if s.call.profiling then s.access else s
    some (if s.call.blocking then { t with api := .checkStatus } else t.leaveHelper)
  | .checkStatus =>
    some { s.access with
      api := if 0 < s.deletes ∨ s.status < 0 then .delete else .waitForStatus }
  | .waitForStatus =>
    if s.status ≤ 0 then some { s.access with api := .dereference } else none
  | .dereference => some s.dereference.leaveHelper
  | .ptr => some { s.access with api := .clReleaseEvent }
  | .clReleaseEvent => some (s.clReleaseEvent.returnCall false)
  | .delete =>
    some (if s.call.kind = .map then { s.delete with api := .deleteAgain }
      else s.delete.returnCall true)
  | .deleteAgain => some (s.delete.returnCall true)
  | .returned _ => none

end CommandObject

inductive CommandAction
  | api (ok : Bool)
  /-- a traversal of the queue or of the maps of the buffer looks at the command -/
  | examine
  /-- and hands it to the device -/
  | push
  /-- or erases an instantaneous one -/
  | take
  /-- and completes it -/
  | complete
  /-- `pushEventsOnDevice` or `cleanEvents` erases a command with a final status -/
  | erase
  /-- a worker gets the command and sets `CL_RUNNING` -/
  | getEvent
  /-- it executes its part -/
  | run
  /-- it executes a map on the DSP, which retains the command until the buffer is unmapped -/
  | runMap
  | unmap
  /-- it completes the command if that is finished -/
  | finish
  /-- its part of the kernel has failed -/
  | fail
  /-- the callbacks that a thread calls, then one pass of its loop, then its end -/
  | callbacks (setter : Nat)
  | notify (setter : Nat)
  | leave (setter : Nat)
  /-- an event that the command waits for has got its final status and comes to it in its list -/
  | removeWaitEvent (event : Nat) (failed : Bool)
  | terminate (status : Int)
  /-- the application, with a handle -/
  | retain
  | release
  | use
  | addDependentEvent

namespace CommandObject

def step (s : CommandObject) : CommandAction → Option CommandObject
  | .api ok => s.apiStep ok
  | .examine => if s.listed ∨ 0 < s.maps then some s.access else none
  | .push =>
    if s.listed ∧ s.status = 3 ∧ s.waitEvents = [] ∧ s.call.kind ≠ .instantaneous then
      some { s.access with status := 2, slots := s.call.kind.slots }
    else none
  | .take =>
    if s.listed ∧ s.status = 3 ∧ s.waitEvents = [] ∧ s.call.kind = .instantaneous then
      some { s.access with listed := false, taken := true }
    else none
  | .complete =>
    if s.taken then some ({ s with taken := false }.setStatus 0 true) else none
  | .erase =>
    if s.listed ∧ s.status ≤ 0 then
      some { s.access with listed := false }.clReleaseEvent
    else none
  | .getEvent =>
    if 0 < s.slots then
      some { s.access with status := 1, slots := s.slots - 1, running := s.running + 1 }
    else none
  | .run =>
    if 0 < s.running then
      some { s.access with running := s.running - 1, checking := s.checking + 1 }
    else none
  | .runMap =>
    if 0 < s.running ∧ s.call.kind = .map then
      some { s.reference with
        running := s.running - 1
        checking := s.checking + 1
        maps := s.maps + 1 }
    else none
  | .unmap =>
    if 0 < s.maps then some { s.access with maps := s.maps - 1 }.clReleaseEvent else none
  | .finish =>
    if 0 < s.checking then
      if s.slots = 0 ∧ s.running = 0 then
        some ({ s with checking := s.checking - 1 }.setStatus 0 false)
      else some { s.access with checking := s.checking - 1 }
    else none
  | .fail =>
    if 0 < s.checking ∧ s.call.kind.isKernel then
      some ({ s with checking := s.checking - 1 }.setStatus (-45) false)
    else none
  | .callbacks k =>
    match s.setters[k]? with
    | some ⟨true, num, release⟩ =>
      some { s.access with setters := s.setters.set k ⟨false, num, release⟩ }
    | _ => none
  | .notify k =>
    match s.setters[k]? with
    | some ⟨false, num + 1, release⟩ =>
      some { s.access with
        setters := s.setters.set k ⟨false, num, release⟩
        edges := s.edges - 1 }.clReleaseEvent
    | _ => none
  | .leave k =>
    match s.setters[k]? with
    | some ⟨false, 0, release⟩ =>
      let t := { s with setters := s.setters.eraseIdx k }
      some (if release then t.clReleaseEvent else t)
    | _ => none
  | .removeWaitEvent event failed =>
    -- `remove` takes away every entry, also for an event that comes to the command twice
    let rest := s.waitEvents.filter (· ≠ event)
    if event ∈ s.notices then
      some { s.access with
        waitEvents := rest
        notices := s.notices.erase event
        terminators := if failed ∧ rest = [] then s.terminators + 1 else s.terminators }
    else none
  | .terminate status =>
    if 0 < s.terminators ∧ status < 0 then
      some ({ s with terminators := s.terminators - 1 }.setStatus status false)
    else none
  | .retain =>
    if 0 < s.handles then some { s.reference with handles := s.handles + 1 } else none
  | .release =>
    if 0 < s.handles then some { s with handles := s.handles - 1 }.clReleaseEvent else none
  | .use => if 0 < s.handles then some s.access else none
  | .addDependentEvent =>
    if 0 < s.handles then
      some (if s.status = 0 then s.access
        else { s.reference with edges := s.edges + 1, dependents := s.dependents + 1 })
    else none

/-- What the constructor leaves. -/
def constructed (call : EnqueueCall) : CommandObject where
  call := call
  api := .mapReference
  references := 1
  status := 3
  waitEvents := call.waits
  notices := call.waits
  dependents := 0
  listed := false
  taken := false
  slots := 0
  running := 0
  checking := 0
  setters := []
  terminators := 0
  handles := 0
  edges := 0
  maps := 0
  deletes := 0
  stale := false

end CommandObject

def commandRuns : LTS CommandObject CommandAction :=
  ofStep (fun s => ∃ call, s = .constructed call) CommandObject.step

end Shamrock.Runtime
