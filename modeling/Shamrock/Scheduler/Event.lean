import Mathlib.Data.List.Basic
import Shamrock.Codes

/-! Events: their types and the operations under `p_state_mutex`. -/
namespace Shamrock.Scheduler

abbrev EventId := Nat
abbrev QueueId := Nat
abbrev CallbackId := Nat

inductive EventType
  | ndRangeKernel
  | taskKernel
  | nativeKernel
  | readBuffer
  | writeBuffer
  | copyBuffer
  | readImage
  | writeImage
  | copyImage
  | copyImageToBuffer
  | copyBufferToImage
  | mapBuffer
  | mapImage
  | unmapMemObject
  | marker
  | acquireGLObjects
  | releaseGLObjects
  | readBufferRect
  | writeBufferRect
  | copyBufferRect
  | fillBuffer
  | migrateMemObjects
  | user
  | barrier
  | waitForEvents
  deriving DecidableEq, Repr

/-- Dummy events, completed directly instead of being pushed on the device. -/
def EventType.isInstantaneous : EventType → Bool
  | .marker | .user | .barrier | .waitForEvents => true
  | _ => false

/-- An event. `waitList`, `statuses` and `invoked` are history variables: the list given to
the constructor, every value `p_status` has held (latest first) and the callbacks called. -/
structure Event where
  type : EventType
  parent : Option QueueId
  status : Int
  /-- `p_state_mutex` is held over the constructor's loop; its other uses are one step each. -/
  stateMutex : Bool
  waitEvents : List EventId
  dependentEvents : List EventId
  callbacks : List (Int × CallbackId)
  waitList : List EventId
  statuses : List Int
  invoked : List CallbackId
  deriving DecidableEq, Repr

namespace Event

/-- A command under construction: `Event(parent, CL_QUEUED, ...)` once its wait list has been
checked. The mutex is taken only if there is something to wait for. -/
def command (type : EventType) (q : QueueId) (waitList : List EventId) : Event where
  type := type
  parent := some q
  status := clQueued
  stateMutex := !waitList.isEmpty
  waitEvents := []
  dependentEvents := []
  callbacks := []
  waitList := waitList
  statuses := [clQueued]
  invoked := []

/-- `UserEvent(context)`: no parent queue, created in the submitted state. -/
def userEvent : Event where
  type := .user
  parent := none
  status := clSubmitted
  stateMutex := false
  waitEvents := []
  dependentEvents := []
  callbacks := []
  waitList := []
  statuses := [clSubmitted]
  invoked := []

/-- An abort code or `CL_COMPLETE`. -/
def Terminal (ev : Event) : Prop := ev.status ≤ 0

instance (ev : Event) : Decidable ev.Terminal := inferInstanceAs (Decidable (ev.status ≤ 0))

/-- The event has had a terminal status at some time. -/
def Ended (ev : Event) : Prop := ∃ st ∈ ev.statuses, st ≤ 0

instance (ev : Event) : Decidable ev.Ended :=
  inferInstanceAs (Decidable (∃ st ∈ ev.statuses, st ≤ 0))

/-- On the device: submitted or running. -/
def OnDevice (ev : Event) : Prop := ev.status = clSubmitted ∨ ev.status = clRunning

instance (ev : Event) : Decidable ev.OnDevice :=
  inferInstanceAs (Decidable (ev.status = clSubmitted ∨ ev.status = clRunning))

/-- `Event::setStatusHelper`. The registered callbacks are collected under the mutex and run
before the helper returns; the number of dependents it returns is read by the caller. -/
def setStatusHelper (ev : Event) (st : Int) : Event :=
  { ev with
    status := st
    statuses := st :: ev.statuses
    invoked := ev.invoked ++
      (ev.callbacks.filter (fun c => c.1 = if 0 < st then st else clComplete)).map Prod.snd }

/-- `Event::setCallback`: call now if the status is in or past the given one. -/
def setCallback (ev : Event) (type : Int) (callback : CallbackId) : Event :=
  if ev.status ≤ type then { ev with invoked := ev.invoked ++ [callback] }
  else { ev with callbacks := ev.callbacks ++ [(type, callback)] }

/-- `Event::addDependentEvent`: only `CL_COMPLETE` is refused, an abort code is not. -/
def addDependentEvent (ev : Event) (d : EventId) : Event × Bool :=
  if ev.status = clComplete then (ev, false)
  else ({ ev with dependentEvents := ev.dependentEvents ++ [d] }, true)

/-- `p_wait_events.push_back` in the constructor. -/
def addWaitEvent (ev : Event) (w : EventId) : Event :=
  { ev with waitEvents := ev.waitEvents ++ [w] }

/-- `Event::removeWaitEvent`: `std::list::remove` drops every occurrence; the result says
whether nothing is left to wait for. -/
def removeWaitEvent (ev : Event) (w : EventId) : Event × Bool :=
  ({ ev with waitEvents := ev.waitEvents.filter (· ≠ w) },
    (ev.waitEvents.filter (· ≠ w)).isEmpty)

def waitEventsAllCompleted (ev : Event) : Bool := ev.waitEvents.isEmpty

/-- `Event::setStatus` notifies dependents for user events and for completed commands only. -/
def propagates (ev : Event) (st : Int) : Bool :=
  ev.type = .user || (ev.parent.isSome && st = clComplete)

end Event

end Shamrock.Scheduler
