import Shamrock.Scheduler.State
import Shamrock.Lib.Transition

/-!
# Steps of the scheduler

A call starts on an idle thread. A thread that is inside a call is resumed for one critical
section at a time, in any order with the others.
-/
namespace Shamrock.Scheduler

open Transition

variable {T : Type} [DecidableEq T]

inductive Action (T : Type)
  /-- `clCreateUserEvent` -/
  | createUserEvent (t : T)
  /-- `clSetUserEventStatus`, up to the call of `setStatus` -/
  | setUserEventStatus (t : T) (e : EventId) (st : Int)
  /-- `clSetEventCallback` -/
  | setCallback (t : T) (e : EventId) (type : Int) (callback : CallbackId)
  /-- any `clEnqueue*` with its wait list -/
  | enqueue (t : T) (type : EventType) (q : QueueId) (waitList : List EventId)
  /-- `clFlush` -/
  | flush (t : T) (q : QueueId)
  /-- `clFinish` -/
  | finish (t : T) (q : QueueId)
  /-- a device worker calls `setStatus` on an event it was given -/
  | deviceSetStatus (t : T) (e : EventId) (st : Int)
  /-- thread `t` runs to the end of its next critical section; `enough` is what
  `gotEnoughToWorkOn` answers if it is asked -/
  | resume (t : T) (enough : Bool)

/-- The event at the iterator of `f`. -/
def PushFrame.event (f : PushFrame) (Q : Queue T) : Option EventId := Q.events[f.it]?

def CleanFrame.event (f : CleanFrame) (Q : Queue T) : Option EventId := Q.events[f.it]?

/-- `CommandQueue::pushEventsOnDevice`. -/
def resumePush (s : State T) (t : T) (enough : Bool) (f : PushFrame) (k : List Frame) :
    Option (State T) :=
  let Q := s.queues f.queue
  let go (f' : PushFrame) : State T := s.setStack t (.push f' :: k)
  match f.pc, f.event Q with
  | .acquire, _ =>
    if Q.mutex.isSome then none
    else
      let Q := Q.countCompletion f.oneEventCompleted
      if Q.outOfOrder && f.readyEvent.isNone && 2 < Q.numEventsOnDevice && enough then
        some ((s.setQueue f.queue Q).setStack t k)
      else
        some ((s.setQueue f.queue ((Q.lock t).setFlushed true)).setStack t
          (.push { f with pc := .examineComplete, it := 0, first := true, traversed := 0 } :: k))
  | .examineComplete, none => some (go { f with pc := .leave })
  | .examineComplete, some e =>
    if (s.events e).status = clComplete then
      some ((s.setQueue f.queue (Q.eraseTerminal f.it e)).setStack t (.push f :: k))
    else some (go { f with pc := .examineError })
  | .examineError, some e =>
    if (s.events e).status < 0 then
      some ((s.setQueue f.queue (Q.eraseTerminal f.it e)).setStack t
        (.push { f with pc := .examineComplete } :: k))
    else if f.readyEvent.isNone && pushEventsThreshold < f.traversed then
      some (go { f with pc := .leave })
    else if !Q.outOfOrder && !f.first || (s.events e).type = .barrier && !f.first then
      some ((s.setQueue f.queue (Q.setFlushed false)).setStack t
        (.push { f with pc := .leave, traversed := f.traversed + 1 } :: k))
    else
      some (go { f with pc := .examineQueued, first := false, traversed := f.traversed + 1 })
  | .examineQueued, some e =>
    if (s.events e).status ≠ clQueued then
      if f.readyEvent = some e then some (go { f with pc := .leave })
      else some (go { f with pc := .examineComplete, it := f.it + 1 })
    else some (go { f with pc := .examineWait })
  | .examineWait, some e =>
    if !(s.events e).waitEventsAllCompleted then
      some ((s.setQueue f.queue (Q.setFlushed false)).setStack t
        (.push (if (s.events e).type = .waitForEvents then { f with pc := .leave }
          else { f with pc := .examineComplete, it := f.it + 1 }) :: k))
    else if (s.events e).type.isInstantaneous then
      some ((s.setQueue f.queue (Q.takeInstantaneous f.it e).wakeAndUnlock).setStack t
        (.setStatus (.call e clComplete) :: .release e :: k))
    else some (go { f with pc := .submit })
  | .submit, some e =>
    some ((s.setEvent e ((s.events e).setStatusHelper clSubmitted)).setStack t
      (.push { f with pc := .handOver } :: k))
  | .handOver, some e =>
    some ((s.setQueue f.queue (Q.pushEvent e)).setStack t
      (.push { f with pc := .examineComplete } :: k))
  | .leave, _ =>
    some ((s.setQueue f.queue (Q.leavePush f.readyEvent)).setStack t k)
  | _, none => none

/-- `Event::setStatus` after dependent `d` was left with nothing to wait for: push its queue,
then go on with the next dependent. -/
def pushDependent (s : State T) (t : T) (f : StatusFrame) (i num : Nat) (d : EventId)
    (q : QueueId) (k : List Frame) : State T :=
  let same : Bool := (s.events f.event).parent = some q
  s.setStack t (.push (.call q (some d) same) ::
    .setStatus { f with pc := .notify (i + 1) num, alreadyPushed := f.alreadyPushed || same } :: k)

/-- `Event::setStatus`. -/
def resumeSetStatus (s : State T) (t : T) (f : StatusFrame) (k : List Frame) :
    Option (State T) :=
  let ev := s.events f.event
  match f.pc with
  | .helper =>
    let s' := s.setEvent f.event (ev.setStatusHelper f.status)
    if ev.propagates f.status then
      some (s'.setStack t
        (.setStatus { f with pc := .notify 0 ev.dependentEvents.length } :: k))
    else some (s'.setStack t k)
  | .notify i num =>
    if i < num then
      match ev.dependentEvents[i]? with
      | none => none
      | some d =>
        if (s.events d).stateMutex then none
        else
          let s' := s.setEvent d ((s.events d).removeWaitEvent f.event).1
          match ((s.events d).removeWaitEvent f.event).2, (s.events d).parent with
          | true, some q =>
            if f.status < 0 then
              some (s'.setStack t (.setStatus { f with pc := .terminate i num d q } :: k))
            else some (pushDependent s' t f i num d q k)
          | _, _ => some (s'.setStack t (.setStatus { f with pc := .notify (i + 1) num } :: k))
    else
      match ev.parent with
      | none => some (s.setStack t k)
      | some q =>
        if f.alreadyPushed then some (s.setStack t k)
        else some (s.setStack t (.push (.call q none true) :: k))
  | .terminate i num d q =>
    some (pushDependent (s.setEvent d ((s.events d).setStatusHelper f.status)) t f i num d q k)

/-- `CommandQueue::cleanEvents`. -/
def resumeClean (s : State T) (t : T) (f : CleanFrame) (k : List Frame) : Option (State T) :=
  let Q := s.queues f.queue
  match f.pc, f.event Q with
  | .acquire, _ =>
    if Q.mutex.isSome then none
    else if Q.numEventsCompleted < 16 && 0 < Q.numEventsOnDevice &&
        0 < Q.numEventsInQueue - Q.numEventsCompleted then
      some (s.setStack t k)
    else
      some ((s.setQueue f.queue (Q.lock t)).setStack t
        (.clean { f with pc := .examine, it := 0 } :: k))
  | .examine, none => some (s.setStack t (.clean { f with pc := .leave } :: k))
  | .examine, some e =>
    if (s.events e).status = clComplete then
      some ((s.setQueue f.queue (Q.eraseTerminal f.it e)).setStack t (.clean f :: k))
    else if !Q.outOfOrder then some (s.setStack t (.clean { f with pc := .leave } :: k))
    else some (s.setStack t (.clean { f with it := f.it + 1 } :: k))
  | .leave, _ => some ((s.setQueue f.queue Q.leaveClean).setStack t k)

/-- The base constructor `Event::Event` for a command. -/
def resumeCheck (s : State T) (t : T) (type : EventType) (q : QueueId)
    (waitList rest : List EventId) (k : List Frame) : Option (State T) :=
  match rest with
  | w :: ws =>
    if (s.events w).status < 0 then some (s.setStack t k)
    else some (s.setStack t (.check type q waitList ws :: k))
  | [] =>
    let e := s.nextEvent
    some ((s.newEvent (Event.command type q waitList)).setStack t
      ((if waitList.isEmpty then .queueEvent e else .register e waitList) :: k))

/-- The loop of the constructor that builds the wait list. -/
def resumeRegister (s : State T) (t : T) (e : EventId) (rest : List EventId) (k : List Frame) :
    Option (State T) :=
  match rest with
  | w :: ws =>
    let r := (s.events w).addDependentEvent e
    if r.2 then some ((s.setEvent w r.1).setStack t (.appendWait e w ws :: k))
    else some (s.setStack t (.register e ws :: k))
  | [] =>
    some ((s.setEvent e { s.events e with stateMutex := false }).setStack t (.queueEvent e :: k))

/-- `CommandQueue::queueEvent`: append, then push. -/
def resumeQueueEvent (s : State T) (t : T) (e : EventId) (k : List Frame) : Option (State T) :=
  match (s.events e).parent with
  | none => none
  | some q =>
    let Q := s.queues q
    if Q.mutex.isSome then none
    else some ((s.setQueue q (Q.append e)).setStack t (.push (.call q none false) :: k))

/-- `clReleaseEvent` on an event that was taken as instantaneous. -/
def resumeRelease (s : State T) (t : T) (e : EventId) (k : List Frame) : Option (State T) :=
  match (s.events e).parent with
  | none => none
  | some q => some ((s.setQueue q ((s.queues q).release e)).setStack t k)

def resume (s : State T) (t : T) (enough : Bool) : Option (State T) :=
  match s.threads t with
  | [] => none
  | .check type q waitList rest :: k => resumeCheck s t type q waitList rest k
  | .register e rest :: k => resumeRegister s t e rest k
  | .appendWait e w rest :: k =>
    some ((s.setEvent e ((s.events e).addWaitEvent w)).setStack t (.register e rest :: k))
  | .queueEvent e :: k => resumeQueueEvent s t e k
  | .push f :: k => resumePush s t enough f k
  | .setStatus f :: k => resumeSetStatus s t f k
  | .release e :: k => resumeRelease s t e k
  | .clean f :: k => resumeClean s t f k
  | .finish q :: k =>
    let Q := s.queues q
    if Q.mutex.isSome then none
    else if Q.numEventsInQueue ≠ 0 then some (s.setStack t (.asleep q Q.cond :: k))
    else some (s.setStack t k)
  | .asleep q g :: k =>
    if g < (s.queues q).cond then some (s.setStack t (.finish q :: k)) else none

/-- A wait list the application can name: events whose constructor has returned. -/
def State.knows (s : State T) (waitList : List EventId) : Bool :=
  waitList.all fun w => w < s.nextEvent && !(s.events w).stateMutex

/-- The event was handed to the device of its queue. -/
def State.handedOver (s : State T) (e : EventId) : Bool :=
  match (s.events e).parent with
  | none => false
  | some q => e ∈ (s.queues q).handed

def step (s : State T) : Action T → Option (State T)
  | .createUserEvent t =>
    if s.threads t = [] then some (s.newEvent .userEvent) else none
  | .setUserEventStatus t e st =>
    if s.threads t = [] ∧ e < s.nextEvent ∧ (s.events e).type = .user ∧ st ≤ 0 ∧
        (s.events e).status = clSubmitted then
      some (s.setStack t [.setStatus (.call e st)])
    else none
  | .setCallback t e type callback =>
    if s.threads t = [] ∧ e < s.nextEvent ∧ ¬ (s.events e).stateMutex ∧
        (type = clSubmitted ∨ type = clRunning ∨ type = clComplete) then
      some (s.setEvent e ((s.events e).setCallback type callback))
    else none
  | .enqueue t type q waitList =>
    if s.threads t = [] ∧ type ≠ .user ∧ s.knows waitList then
      some (s.setStack t [.check type q waitList waitList])
    else none
  | .flush t q =>
    if s.threads t = [] then some (s.setStack t [.push (.call q none false)]) else none
  | .finish t q =>
    if s.threads t = [] then
      some (s.setStack t [.clean { queue := q, pc := .acquire, it := 0 }, .finish q])
    else none
  | .deviceSetStatus t e st =>
    if s.threads t = [] ∧ s.handedOver e ∧ (st = clRunning ∨ st ≤ 0) then
      some (s.setStack t [.setStatus (.call e st)])
    else none
  | .resume t enough => resume s t enough

def Queue.empty (T : Type) (outOfOrder : Bool) : Queue T where
  outOfOrder := outOfOrder
  events := []
  numEventsInQueue := 0
  numEventsOnDevice := 0
  numEventsCompleted := 0
  flushed := true
  mutex := none
  cond := 0
  queued := []
  erased := []
  handed := []
  taken := []
  released := []
  entryNumEvents := 0
  entryCond := 0

/-- No event yet, every thread idle; `outOfOrder` tells the two kinds of queues apart. -/
def initial (T : Type) (outOfOrder : QueueId → Bool) : State T where
  events := fun _ => .userEvent
  queues := fun q => .empty T (outOfOrder q)
  threads := fun _ => []
  nextEvent := 0

/-- The scheduler over the threads `T`, with any set of queues. -/
def scheduler (T : Type) [DecidableEq T] : LTS (State T) (Action T) :=
  ofStep (fun s => ∃ outOfOrder, s = initial T outOfOrder) step

/-- `n` critical sections of thread `t` in a row. -/
def resumes (t : T) (n : Nat) : List (Action T) := List.replicate n (.resume t false)

/-- A run that is checked by evaluation. -/
theorem run_checked (o : QueueId → Bool) (as : List (Action T)) (c : State T → Bool)
    (h : (exec step (initial T o) as).map c = some true) :
    ∃ s, Run (scheduler T) as s ∧ c s = true :=
  run_of_exec ⟨o, rfl⟩ as c h

/-- As `run_checked`, for runs whose steps all meet a guard. -/
theorem guarded_run_checked (G : State T → Action T → Prop) [∀ s a, Decidable (G s a)]
    (o : QueueId → Bool) (as : List (Action T)) (c : State T → Bool)
    (h : (execGuarded step (fun s a => decide (G s a)) (initial T o) as).map c = some true) :
    ∃ s, Run ((scheduler T).restrict G) as s ∧ c s = true :=
  run_of_execGuarded G ⟨o, rfl⟩ as c h

theorem exists_run (o : QueueId → Bool) (as : List (Action T)) (c : State T → Bool)
    (h : (exec step (initial T o) as).map c = some true) :
    ∃ s, Reachable (scheduler T) s ∧ c s = true := by
  obtain ⟨s, hr, hc⟩ := run_checked o as c h
  exact ⟨s, hr.reachable, hc⟩

theorem exists_guarded_run (G : State T → Action T → Prop) [∀ s a, Decidable (G s a)]
    (o : QueueId → Bool) (as : List (Action T)) (c : State T → Bool)
    (h : (execGuarded step (fun s a => decide (G s a)) (initial T o) as).map c = some true) :
    ∃ s, Reachable ((scheduler T).restrict G) s ∧ c s = true := by
  obtain ⟨s, hr, hc⟩ := guarded_run_checked G o as c h
  exact ⟨s, hr.reachable, hc⟩

/-- As `exists_run`, with what the steps leave a note of. -/
theorem exists_noted_run {Note : Type} (note : State T → Action T → Option Note)
    (o : QueueId → Bool) (as : List (Action T)) (c : State T × List Note → Bool)
    (h : (execNoted step note (initial T o) [] as).map c = some true) :
    ∃ p, Reachable ((scheduler T).record note) p ∧ c p = true :=
  exists_execNoted ⟨o, rfl⟩ as c h

end Shamrock.Scheduler
