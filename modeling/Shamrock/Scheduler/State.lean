import Shamrock.Scheduler.Event
import Mathlib.Logic.Function.Basic

/-!
# The scheduler's state

Threads are call stacks of frames that stop between two critical sections. Each use of an
event's `p_state_mutex` is one step, while `p_event_list_mutex` is held over many.
-/
namespace Shamrock.Scheduler

/-- A command queue with the holder of `p_event_list_mutex`. `p_event_list_cond` is the number
of broadcasts so far. The last block are history variables: the events in the order they were
appended, erased, handed to the device, taken as instantaneous and released after an erasure,
and the values found when the mutex was last taken. -/
structure Queue (T : Type) where
  outOfOrder : Bool
  events : List EventId
  numEventsInQueue : Int
  numEventsOnDevice : Int
  numEventsCompleted : Int
  flushed : Bool
  mutex : Option T
  cond : Nat
  queued : List EventId
  erased : List EventId
  handed : List EventId
  taken : List EventId
  released : List EventId
  entryNumEvents : Int
  entryCond : Nat

/-- Where a thread is in `pushEventsOnDevice`; each `examine` reads the event at `it`. -/
inductive PushPC
  /-- before `pthread_mutex_lock` -/
  | acquire
  /-- the loop test and `event->status() == CL_COMPLETE` -/
  | examineComplete
  /-- `event->status() < 0`, then the tests that need no lock -/
  | examineError
  /-- `event->status() != CL_QUEUED` -/
  | examineQueued
  /-- `event->waitEventsAllCompleted()` -/
  | examineWait
  /-- `event->setStatus(CL_SUBMITTED)` -/
  | submit
  /-- `p_device->pushEvent(event)` -/
  | handOver
  /-- after the loop -/
  | leave
  deriving DecidableEq, Repr

/-- A call of `pushEventsOnDevice` with its local variables; `it` is the iterator's position. -/
structure PushFrame where
  queue : QueueId
  readyEvent : Option EventId
  oneEventCompleted : Bool
  pc : PushPC
  it : Nat
  first : Bool
  traversed : Nat
  deriving DecidableEq, Repr

def PushFrame.call (q : QueueId) (readyEvent : Option EventId) (oneEventCompleted : Bool) :
    PushFrame where
  queue := q
  readyEvent := readyEvent
  oneEventCompleted := oneEventCompleted
  pc := .acquire
  it := 0
  first := true
  traversed := 0

inductive StatusPC
  /-- before `setStatusHelper` -/
  | helper
  /-- the head of the notification loop at index `i` of `num` -/
  | notify (i num : Nat)
  /-- dependent `d` of queue `q` was left with nothing to wait for, by a failed event -/
  | terminate (i num : Nat) (d : EventId) (q : QueueId)
  deriving DecidableEq, Repr

/-- A call of `Event::setStatus`. -/
structure StatusFrame where
  event : EventId
  status : Int
  pc : StatusPC
  alreadyPushed : Bool
  deriving DecidableEq, Repr

def StatusFrame.call (e : EventId) (st : Int) : StatusFrame where
  event := e
  status := st
  pc := .helper
  alreadyPushed := false

inductive CleanPC
  | acquire
  | examine
  | leave
  deriving DecidableEq, Repr

/-- A call of `cleanEvents`. -/
structure CleanFrame where
  queue : QueueId
  pc : CleanPC
  it : Nat
  deriving DecidableEq, Repr

inductive Frame
  /-- the constructor's search for failed events in the wait list -/
  | check (type : EventType) (q : QueueId) (waitList rest : List EventId)
  /-- the constructor's second loop, under the new event's mutex -/
  | register (e : EventId) (rest : List EventId)
  /-- `addDependentEvent` on `w` returned true -/
  | appendWait (e w : EventId) (rest : List EventId)
  /-- `queueEvent`, before the event is appended -/
  | queueEvent (e : EventId)
  | push (f : PushFrame)
  | setStatus (f : StatusFrame)
  /-- `clReleaseEvent` after an instantaneous event has been completed -/
  | release (e : EventId)
  | clean (f : CleanFrame)
  /-- the loop of `finish`, about to take the mutex -/
  | finish (q : QueueId)
  /-- `pthread_cond_wait` after `g` broadcasts -/
  | asleep (q : QueueId) (g : Nat)
  deriving DecidableEq, Repr

structure State (T : Type) where
  events : EventId → Event
  queues : QueueId → Queue T
  threads : T → List Frame
  nextEvent : EventId

variable {T : Type} [DecidableEq T]

namespace Queue

/-- `queueEvent`: append at the end of the list. -/
def append (Q : Queue T) (e : EventId) : Queue T :=
  { Q with
    events := Q.events ++ [e]
    numEventsInQueue := Q.numEventsInQueue + 1
    flushed := false
    queued := Q.queued ++ [e] }

/-- `one_event_completed_on_device`. -/
def countCompletion (Q : Queue T) (oneEventCompleted : Bool) : Queue T :=
  if oneEventCompleted then
    { Q with
      numEventsOnDevice := Q.numEventsOnDevice - 1
      numEventsCompleted := Q.numEventsCompleted + 1 }
  else Q

def lock (Q : Queue T) (t : T) : Queue T :=
  { Q with mutex := some t, entryNumEvents := Q.numEventsInQueue, entryCond := Q.cond }

def unlock (Q : Queue T) : Queue T := { Q with mutex := none }

def broadcast (Q : Queue T) : Queue T := { Q with cond := Q.cond + 1 }

def setFlushed (Q : Queue T) (b : Bool) : Queue T := { Q with flushed := b }

/-- Remove the terminal event `e` at position `it` and release it. -/
def eraseTerminal (Q : Queue T) (it : Nat) (e : EventId) : Queue T :=
  { Q with
    events := Q.events.eraseIdx it
    numEventsInQueue := Q.numEventsInQueue - 1
    numEventsCompleted := Q.numEventsCompleted - 1
    erased := Q.erased ++ [e]
    released := Q.released ++ [e] }

/-- Remove the instantaneous event `e` at position `it`, pretending that it was pushed. -/
def takeInstantaneous (Q : Queue T) (it : Nat) (e : EventId) : Queue T :=
  { Q with
    events := Q.events.eraseIdx it
    numEventsInQueue := Q.numEventsInQueue - 1
    flushed := Q.numEventsInQueue - 1 = 0
    numEventsOnDevice := Q.numEventsOnDevice + 1
    erased := Q.erased ++ [e]
    taken := Q.taken ++ [e] }

/-- `p_num_events_on_device += 1; p_device->pushEvent(event)`. -/
def pushEvent (Q : Queue T) (e : EventId) : Queue T :=
  { Q with
    numEventsOnDevice := Q.numEventsOnDevice + 1
    handed := Q.handed ++ [e] }

def release (Q : Queue T) (e : EventId) : Queue T := { Q with released := Q.released ++ [e] }

/-- Broadcast if `p_flushed`, then unlock. -/
def wakeAndUnlock (Q : Queue T) : Queue T :=
  (if Q.flushed then Q.broadcast else Q).unlock

/-- The end of `pushEventsOnDevice`. -/
def leavePush (Q : Queue T) (readyEvent : Option EventId) : Queue T :=
  (if readyEvent.isSome && Q.flushed then Q.setFlushed (Q.numEventsInQueue = 0)
    else Q).wakeAndUnlock

/-- The end of `cleanEvents`. -/
def leaveClean (Q : Queue T) : Queue T :=
  (if Q.numEventsInQueue = 0 then Q.broadcast else Q).unlock

end Queue

namespace State

def setEvent (s : State T) (e : EventId) (ev : Event) : State T :=
  { s with events := Function.update s.events e ev }

def setQueue (s : State T) (q : QueueId) (Q : Queue T) : State T :=
  { s with queues := Function.update s.queues q Q }

def setStack (s : State T) (t : T) (k : List Frame) : State T :=
  { s with threads := Function.update s.threads t k }

/-- Allocate the next event. -/
def newEvent (s : State T) (ev : Event) : State T :=
  { s with events := Function.update s.events s.nextEvent ev, nextEvent := s.nextEvent + 1 }

end State

/-- `OOO_QUEUE_PUSH_EVENTS_THRESHOLD` -/
def pushEventsThreshold : Nat := 64

end Shamrock.Scheduler
