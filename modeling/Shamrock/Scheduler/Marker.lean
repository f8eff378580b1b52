import Shamrock.Scheduler.Edges
import Mathlib.Data.Fintype.Basic

/-!
# Markers without a wait list

`clEnqueueMarkerWithWaitList` without a list waits for what `CommandQueue::events` finds in the
queue. The call is a sequence of steps of its own, between those of the scheduler.
-/
namespace Shamrock.Scheduler

open Transition

variable {T : Type} [DecidableEq T] {s s' : State T} {a : Action T} {q : QueueId} {e x : EventId}

/-- The queue whose mutex a step takes. -/
def State.acquires (s : State T) : Action T → Option QueueId
  | .resume t _ =>
    match s.threads t with
    | .push f :: _ => if f.pc = .acquire then some f.queue else none
    | .clean f :: _ => if f.pc = .acquire then some f.queue else none
    | .finish q :: _ => some q
    | .queueEvent e :: _ => (s.events e).parent
    | _ => none
  | _ => none

/-- The queue that a step appends a command to. -/
def State.appends (s : State T) : Action T → Option QueueId
  | .resume t _ =>
    match s.threads t with
    | .queueEvent e :: _ => (s.events e).parent
    | _ => none
  | _ => none

/-- The event that a step takes out of its queue and releases. -/
def State.erases (s : State T) : Action T → Option EventId
  | .resume t _ =>
    match s.threads t with
    | .push f :: _ => (f.event (s.queues f.queue)).filter fun e =>
        f.pc = .examineComplete && (s.events e).status = clComplete ||
          f.pc = .examineError && (s.events e).status < 0
    | .clean f :: _ => (f.event (s.queues f.queue)).filter fun e =>
        f.pc = .examine && (s.events e).status = clComplete
    | .release e :: _ => some e
    | _ => none
  | _ => none

/-- The event that a step takes a reference on. -/
def State.retains (s : State T) (a : Action T) : Option EventId :=
  match s.noted a with
  | some (.taken e _) => some e
  | _ => none

/-- The event that a step calls `clReleaseEvent` for. -/
def State.releases (s : State T) (a : Action T) : Option EventId :=
  match s.noted a with
  | some (.released e _) => some e
  | some (.taken _ _) => none
  | none => s.erases a

/-- Where a thread is in `clEnqueueMarkerWithWaitList`; `events` are those it has retained. -/
inductive MarkerPC
  /-- the loop of `CommandQueue::events` at position `i`, under the mutex of the queue -/
  | snapshot (q : QueueId) (i : Nat) (events : List EventId)
  /-- `CommandQueue::events` has returned -/
  | listed (q : QueueId) (events : List EventId)
  /-- `Event::Event` checks the list -/
  | constructing (q : QueueId) (events : List EventId)
  /-- `Event::Event` registers with the events of the list -/
  | registering (events : List EventId)
  /-- the loop of `dereference` at position `i` -/
  | givingBack (events : List EventId) (i : Nat)
  deriving DecidableEq, Repr

/-- The call has looked at the queue, and its event does not exist yet. -/
def MarkerPC.opens : MarkerPC → Option QueueId
  | .snapshot q _ _ | .listed q _ | .constructing q _ => some q
  | .registering _ | .givingBack _ _ => none

/-- What a call has answered, with the events it has retained and dereferenced. -/
structure MarkerReturn where
  code : Int
  taken : List EventId
  given : List EventId
  deriving DecidableEq, Repr

/-- A marker, with the events of the queue that were not complete when it was created. -/
structure Marker where
  event : EventId
  pending : List EventId
  deriving DecidableEq, Repr

/-- The scheduler with the calls for markers, the thread that holds the mutex of a queue in one of
them, `p_references` of the events and the references of the application. -/
structure MarkerState (T : Type) where
  sched : State T
  calls : T → Option MarkerPC
  locked : QueueId → Option T
  references : EventId → Int
  application : EventId → Nat
  deleted : EventId → Bool
  returns : List MarkerReturn
  markers : List Marker

namespace MarkerState

variable {m : MarkerState T}

def setCall (m : MarkerState T) (t : T) (pc : Option MarkerPC) : MarkerState T :=
  { m with calls := Function.update m.calls t pc }

/-- `Object::reference` -/
def reference (m : MarkerState T) (e : EventId) : MarkerState T :=
  { m with references := Function.update m.references e (m.references e + 1) }

/-- `Object::dereference`, whose result is not looked at. -/
def dereference (m : MarkerState T) (e : EventId) : MarkerState T :=
  { m with references := Function.update m.references e (m.references e - 1) }

/-- `clReleaseEvent`: the last reference deletes the event. -/
def releaseEvent (m : MarkerState T) (e : EventId) : MarkerState T :=
  { m.dereference e with
    deleted := if m.references e = 1 then Function.update m.deleted e true else m.deleted }

/-- A step of the scheduler, with what it does to the references. -/
def observe (m : MarkerState T) (a : Action T) (s' : State T) : MarkerState T :=
  let created : MarkerState T := { m with
    sched := s'
    references := if m.sched.nextEvent < s'.nextEvent then
      Function.update m.references m.sched.nextEvent 1 else m.references }
  match m.sched.retains a, m.sched.releases a with
  | some e, _ => created.reference e
  | none, some e => created.releaseEvent e
  | none, none => created

/-- The end of a call. -/
def leave (m : MarkerState T) (t : T) (code : Int) (taken given : List EventId) : MarkerState T :=
  { m.setCall t none with returns := m.returns ++ [⟨code, taken, given⟩] }

/-- The events of `q` that are not complete. -/
def pending (m : MarkerState T) (q : QueueId) : List EventId :=
  (m.sched.queues q).events.filter fun e => (m.sched.events e).status ≠ clComplete

end MarkerState

inductive MarkerAction (T : Type)
  | sched (a : Action T)
  /-- `clRetainEvent` and `clReleaseEvent` -/
  | retainEvent (e : EventId)
  | releaseEvent (e : EventId)
  /-- `clEnqueueMarkerWithWaitList` without a list, up to `pthread_mutex_lock` -/
  | enqueueMarker (t : T) (q : QueueId)
  /-- the next step of such a call -/
  | proceed (t : T)

/-- The next step of the call that thread `t` is in; `mallocZero` tells whether an allocation of no
bytes is not null. -/
def proceed (mallocZero : Bool) (m : MarkerState T) (t : T) : MarkerPC → Option (MarkerState T)
  | .snapshot q i events =>
    match (m.sched.queues q).events[i]? with
    | some e =>
      if (m.sched.events e).status = clComplete then
        some (m.setCall t (some (.snapshot q (i + 1) events)))
      else some ((m.reference e).setCall t (some (.snapshot q (i + 1) (events ++ [e]))))
    | none =>
      some ({ m with locked := Function.update m.locked q none }.setCall t
        (some (.listed q events)))
  | .listed q events =>
    if events = [] ∧ mallocZero = true then
      some (m.leave t clInvalidEventWaitList events [])
    else
      (step m.sched (.enqueue t .marker q events)).map fun s' =>
        (m.observe (.enqueue t .marker q events) s').setCall t (some (.constructing q events))
  | .constructing q events =>
    (step m.sched (.resume t false)).map fun s' =>
      let m' := m.observe (.resume t false) s'
      if s'.threads t = [] then m'.leave t clExecStatusErrorForEventsInWaitList events []
      else if m.sched.nextEvent < s'.nextEvent then
        { m'.setCall t (some (.registering events)) with
          markers := m.markers ++ [⟨m.sched.nextEvent, m.pending q⟩] }
      else m'
  | .registering events =>
    match m.sched.threads t with
    | .queueEvent _ :: _ => some (m.setCall t (some (.givingBack events 0)))
    | _ => (step m.sched (.resume t false)).map (m.observe (.resume t false))
  | .givingBack events i =>
    match events[i]? with
    | some e => some ((m.dereference e).setCall t (some (.givingBack events (i + 1))))
    | none => some (m.leave t clSuccess events (events.take i))

def markerStep (mallocZero : Bool) (m : MarkerState T) : MarkerAction T → Option (MarkerState T)
  | .sched a =>
    if (m.calls a.actor).isNone ∧ ∀ q ∈ m.sched.acquires a, m.locked q = none then
      (step m.sched a).map (m.observe a)
    else none
  | .retainEvent e =>
    if e < m.sched.nextEvent ∧ m.deleted e = false then
      some { m.reference e with
        application := Function.update m.application e (m.application e + 1) }
    else none
  | .releaseEvent e =>
    if 0 < m.application e then
      some { m.releaseEvent e with
        application := Function.update m.application e (m.application e - 1) }
    else none
  | .enqueueMarker t q =>
    if (m.calls t).isNone ∧ m.sched.threads t = [] ∧ (m.sched.queues q).mutex = none ∧
        m.locked q = none then
      some ({ m with locked := Function.update m.locked q (some t) }.setCall t
        (some (.snapshot q 0 [])))
    else none
  | .proceed t => (m.calls t).bind (proceed mallocZero m t)

/-- No event and no call yet. -/
def markerInitial (T : Type) (outOfOrder : QueueId → Bool) : MarkerState T where
  sched := initial T outOfOrder
  calls := fun _ => none
  locked := fun _ => none
  references := fun _ => 0
  application := fun _ => 0
  deleted := fun _ => false
  returns := []
  markers := []

def markerSystem (T : Type) [DecidableEq T] (mallocZero : Bool) :
    LTS (MarkerState T) (MarkerAction T) :=
  ofStep (fun m => ∃ outOfOrder, m = markerInitial T outOfOrder) (markerStep mallocZero)

namespace MarkerState

/-- The list that thread `t` is about to give to the constructor. -/
def listing (m : MarkerState T) (t : T) : Option (List EventId) :=
  match m.calls t with
  | some (.listed _ events) => some events
  | _ => none

/-- The event that the constructor is about to look at. -/
def checking (m : MarkerState T) (t : T) : Option EventId :=
  match m.calls t, m.sched.threads t with
  | some (.constructing _ _), .check _ _ _ (w :: _) :: _ => some w
  | _, _ => none

/-- The event that is about to be dereferenced. -/
def returning (m : MarkerState T) (t : T) : Option EventId :=
  match m.calls t with
  | some (.givingBack events i) => events[i]?
  | _ => none

end MarkerState

/-- The queue has an event that is not complete, none of those found has failed when the
constructor looks at it, each is still referenced by someone else when it is dereferenced, and no
other command is appended to the queue before the marker exists. -/
def MarkerKept (mallocZero : Bool) (m : MarkerState T) : MarkerAction T → Prop
  | .proceed t =>
    (∀ events ∈ m.listing t, events ≠ [] ∨ mallocZero = false) ∧
    (∀ w ∈ m.checking t, 0 ≤ (m.sched.events w).status) ∧
    ∀ e ∈ m.returning t, 2 ≤ m.references e
  | .sched a => ∀ q ∈ m.sched.appends a, ∀ u, ∀ pc ∈ m.calls u, pc.opens ≠ some q
  | _ => True

instance [Fintype T] (mallocZero : Bool) (m : MarkerState T) (b : MarkerAction T) :
    Decidable (MarkerKept mallocZero m b) :=
  match b with
  | .proceed t => inferInstanceAs (Decidable (
      (∀ events ∈ m.listing t, events ≠ [] ∨ mallocZero = false) ∧
      (∀ w ∈ m.checking t, 0 ≤ (m.sched.events w).status) ∧
      ∀ e ∈ m.returning t, 2 ≤ m.references e))
  | .sched a => inferInstanceAs (Decidable (
      ∀ q ∈ m.sched.appends a, ∀ u, ∀ pc ∈ m.calls u, pc.opens ≠ some q))
  | .retainEvent _ | .releaseEvent _ | .enqueueMarker _ _ => inferInstanceAs (Decidable True)

/-- The calls keep their promises: each has succeeded and has given back what it took, a marker is
complete only when all it was created behind has ended, an event without references is deleted,
and a call that is under way can go on. -/
structure MarkersOk (mallocZero : Bool) (m : MarkerState T) : Prop where
  returned : ∀ r ∈ m.returns, r.code = clSuccess ∧ r.given = r.taken
  awaited : ∀ x ∈ m.markers, clComplete ∈ (m.sched.events x.event).statuses →
    ∀ e ∈ x.pending, (m.sched.events e).Ended
  deleted : ∀ e, e < m.sched.nextEvent → m.references e ≤ 0 → m.deleted e = true
  enabled : ∀ t, m.calls t ≠ none → markerStep mallocZero m (.proceed t) ≠ none

section Scheduler

/-- A step keeps or frees the mutex of a queue, unless it takes it. -/
theorem step_mutex (h : Step s a s') (q : QueueId) :
    (s'.queues q).mutex = (s.queues q).mutex ∨ (s'.queues q).mutex = none ∨
      s.acquires a = some q := by
  have hfree : ∀ p (Q : Queue T), Q.mutex = none →
      (Function.update s.queues p Q q).mutex = (s.queues q).mutex ∨
        (Function.update s.queues p Q q).mutex = none ∨ s.acquires a = some q := by
    intro p Q hQ
    by_cases hq : q = p
    · subst hq
      exact .inr (.inl (by rwa [Function.update_self]))
    · exact .inl (by rw [Function.update_of_ne hq])
  have htake : ∀ p (Q : Queue T), s.acquires a = some p →
      (Function.update s.queues p Q q).mutex = (s.queues q).mutex ∨
        (Function.update s.queues p Q q).mutex = none ∨ s.acquires a = some q := by
    intro p Q hp
    by_cases hq : q = p
    · exact .inr (.inr (hq ▸ hp))
    · exact .inl (by rw [Function.update_of_ne hq])
  cases h
  case pushEnter hk hpc _ => exact htake _ _ (by simp [State.acquires, hk, hpc])
  case cleanEnter hk hpc _ => exact htake _ _ (by simp [State.acquires, hk, hpc])
  case pushTake => exact hfree _ _ rfl
  case pushLeave => exact hfree _ _ rfl
  case cleanLeave => exact hfree _ _ rfl
  case pushReturn => exact .inl (update_field_same (F := Queue.mutex) (by simp) q)
  all_goals first | exact .inl rfl | exact .inl (update_field_same (F := Queue.mutex) (by rfl) q)

/-- What is in the list of a queue was there before, or has just been appended. -/
theorem mem_events_step (h : Step s a s') (hm : MutexInv s) (hx : x ∈ (s'.queues q).events) :
    x ∈ (s.queues q).events ∨ s.appends a = some q := by
  have hc := step_ledger h hm q
  have hl : x ∈ (s'.queues q).ledger.events := hx
  generalize (s'.queues q).ledger = l at hc hl
  cases hc with
  | same => exact .inl hl
  | append hk hp =>
    right
    obtain ⟨g, ha⟩ := resume_of_top h hk
    rw [ha]
    simp only [State.appends, hk, hp]
  | erase => exact .inl (List.mem_of_mem_eraseIdx hl)
  | take => exact .inl (List.mem_of_mem_eraseIdx hl)
  | hand => exact .inl hl

/-- The list of a queue whose mutex is free changes only in a step that takes it. -/
theorem events_of_free (h : Step s a s') (hm : MutexInv s) (hq : (s.queues q).mutex = none)
    (ha : s.acquires a ≠ some q) : (s'.queues q).events = (s.queues q).events := by
  have hc := step_ledger h hm q
  change (s'.queues q).ledger.events = _
  generalize (s'.queues q).ledger = l at hc
  cases hc with
  | same => rfl
  | append hk hp =>
    obtain ⟨g, hg⟩ := resume_of_top h hk
    rw [hg] at ha
    simp only [State.acquires, hk, hp, ne_eq, not_true_eq_false] at ha
  | erase hmutex => simp [hq] at hmutex
  | take hk hf hpc =>
    subst hf
    have hmutex := hm.of_push hk (by simp [hpc])
    simp [hq] at hmutex
  | hand => rfl

theorem queued_mono (h : Step s a s') (hm : MutexInv s) (q : QueueId) :
    (s.queues q).queued ⊆ (s'.queues q).queued := by
  have hc := step_ledger h hm q
  change _ ⊆ (s'.queues q).ledger.queued
  generalize (s'.queues q).ledger = l at hc
  cases hc with
  | append => exact List.subset_append_left _ _
  | _ => exact List.Subset.refl _

/-- What a queue has taken as instantaneous had nothing left to wait for. -/
theorem taken_ended (h : Reachable (scheduler T) s) (he : e ∈ (s.queues q).taken) :
    ∀ w ∈ (s.events e).waitList, (s.events w).Ended := by
  induction h with
  | initial hi =>
    obtain ⟨o, rfl⟩ := hi
    simp [initial, Queue.empty] at he
  | @step s s' a hr ht ih =>
    have hs := step_cases ht
    have hw := wf_reachable hr
    have hc := callsOk_reachable hr
    have hold : e < s.nextEvent → (∀ w ∈ (s.events e).waitList, (s.events w).Ended) →
        ∀ w ∈ (s'.events e).waitList, (s'.events w).Ended := by
      intro hlt hended w hmem
      rw [(step_identity hs hlt).waitList] at hmem
      exact step_ended hs ((hc.event e hlt).waitList w hmem) (hended w hmem)
    rcases taken_step hs hw.mutex he with he | ⟨f, k, hk, rfl, -, he, hn, -⟩
    · have hlt := (hw.owned.queued (hw.erased_queued ((hw.owned.ledger q).taken he))).1
      exact hold hlt (ih he)
    · exact hold (hw.event_lt he).1 ((waitInv_reachable hr).ended hw he hn)

/-- A dummy is completed by its queue alone. -/
theorem completed_taken (h : Reachable (scheduler T) s) (he : e < s.nextEvent)
    (hp : (s.events e).parent = some q) (hi : (s.events e).type.isInstantaneous = true)
    (hst : clComplete ∈ (s.events e).statuses) : e ∈ (s.queues q).taken := by
  induction h with
  | initial hs =>
    obtain ⟨o, rfl⟩ := hs
    exact absurd he (Nat.not_lt_zero e)
  | @step s s' a hr ht ih =>
    have hs := step_cases ht
    have hw := wf_reachable hr
    have hc := callsOk_reachable hr
    by_cases hlt : e < s.nextEvent
    · have hid := step_identity hs hlt
      rw [hid.parent] at hp
      rw [hid.type] at hi
      have hkeep : clComplete ∈ (s.events e).statuses → e ∈ (s'.queues q).taken :=
        fun hmem => taken_mono hs hw.mutex q (ih hlt hp hi hmem)
      have hev := step_event hs e
      generalize s'.events e = ev at hev hst
      cases hev with
      | created hx _ => exact absurd hx (Nat.ne_of_lt hlt)
      | @callback type c _ =>
        obtain ⟨l, m, hl⟩ := (s.events e).setCallback_eq type c
        rw [hl] at hst
        exact hkeep hst
      | @dependent d _ _ _ _ =>
        obtain ⟨l, hl⟩ := (s.events e).addDependentEvent_eq d
        rw [hl] at hst
        exact hkeep hst
      | submitted => exact hkeep ((List.mem_cons.mp hst).resolve_left (by decide))
      | @reported f k hk hpc hf =>
        rcases List.mem_cons.mp hst with hst | hst
        · -- who reports on a dummy
          have hok : ReportOk s (.setStatus f) :=
            reportInv_reachable hr a.actor _ (by rw [hk]; exact List.mem_cons_self)
          have hreport := hok.1 hpc
          rw [hf] at hreport
          rcases hreport with ⟨huser, -⟩ | ⟨p, hp', ⟨hh, -⟩ | ⟨htaken, -⟩⟩
          · exact absurd huser ((hc.event e hlt).parent (by simp [hp]))
          · have hkind := (kindInv_reachable hr).handed p e hh
            simp [hi] at hkind
          · obtain rfl : q = p := Option.some.inj (hp.symm.trans hp')
            exact taken_mono hs hw.mutex q htaken
        · exact hkeep hst
      | @terminated f i num p k hk hpc =>
        rcases List.mem_cons.mp hst with hst | hst
        · have hok : ReportOk s (.setStatus f) :=
            reportInv_reachable hr a.actor _ (by rw [hk]; exact List.mem_cons_self)
          have hneg := (hok.2.2 _ _ _ _ hpc).1
          rw [← hst] at hneg
          exact absurd hneg (by decide)
        · exact hkeep hst
      | _ => exact hkeep hst
    · have hnew := new_event_history hs hlt he
      rw [hnew.1, List.mem_singleton] at hst
      exact absurd hnew.2 (by simp [← hst])

/-- An event that is or was in a queue has left its constructor. -/
def UnlockedInv (s : State T) : Prop :=
  (∀ q, ∀ e ∈ (s.queues q).queued, (s.events e).stateMutex = false) ∧
    ∀ t e k, s.threads t = .queueEvent e :: k → (s.events e).stateMutex = false

theorem stateMutex_step (h : Step s a s') (hlt : e < s.nextEvent)
    (hm : (s.events e).stateMutex = false) : (s'.events e).stateMutex = false := by
  have hev := step_event h e
  generalize s'.events e = ev at hev
  cases hev with
  | created hx _ => exact absurd hx (Nat.ne_of_lt hlt)
  | @callback type c _ =>
    obtain ⟨l, m, hl⟩ := (s.events e).setCallback_eq type c
    rw [hl]
    exact hm
  | @dependent d _ _ _ _ =>
    obtain ⟨l, hl⟩ := (s.events e).addDependentEvent_eq d
    rw [hl]
    exact hm
  | constructed => rfl
  | _ => exact hm

/-- `queueEvent` is called at the end of a constructor. -/
theorem queueEvent_top (h : Step s a s') (hs : ∀ t, StackShape (s.threads t)) {k : List Frame}
    (hk : s'.threads a.actor = .queueEvent e :: k) : (s'.events e).stateMutex = false := by
  have htail : ∀ {f : Frame} {l : List Frame}, s.threads a.actor = f :: l →
      l ≠ .queueEvent e :: k := by
    intro f l hl heq
    have hsh := hs a.actor
    rw [hl] at hsh
    rcases stackShape_tail hsh (.queueEvent e) (by simp [heq]) with hf | ⟨q, hf⟩
    · exact hf
    · cases hf
  cases h
  case createUserEvent t ht =>
    change s.threads t = _ at hk
    simp [ht] at hk
  case setCallback t _ _ _ ht _ =>
    change s.threads t = _ at hk
    simp [ht] at hk
  all_goals
    simp only [actor_resume, actor_setUserEventStatus, actor_enqueue, actor_flush, actor_finish,
      actor_deviceSetStatus, State.setStack_threads, State.pushDependent_threads,
      Function.update_self, List.cons.injEq, reduceCtorEq, false_and] at hk
  case construct t g type q ws l ht =>
    cases ws with
    | nil =>
      simp only [List.isEmpty_nil, if_true, Frame.queueEvent.injEq] at hk
      rw [← hk.1]
      simp [Event.command]
    | cons w ws => simp at hk
  case constructed t g d l ht =>
    rw [← Frame.queueEvent.inj hk.1]
    simp
  all_goals
    exact absurd hk (htail (by assumption))

theorem unlockedInv_reachable (h : Reachable (scheduler T) s) : UnlockedInv s := by
  apply h.invariant
  · rintro _ ⟨o, rfl⟩
    constructor <;> simp [initial, Queue.empty]
  · intro s a s' hr hi ht
    have hs := step_cases ht
    have hw := wf_reachable hr
    constructor
    · intro q e he
      rcases queued_step hs hw.mutex he with he | hnew
      · exact stateMutex_step hs (hw.owned.queued he).1 (hi.1 q e he)
      · obtain ⟨-, k, hk⟩ := hnew
        have hb : Builds (s.threads a.actor) e := by simp [hk, Frame.building]
        exact stateMutex_step hs (hw.owned.builds hb).1 (hi.2 a.actor e k hk)
    · intro t e k hk
      by_cases hta : t = a.actor
      · subst hta
        exact queueEvent_top hs hw.shape hk
      · rw [step_threads_of_ne hs hta] at hk
        have hb : Builds (s.threads t) e := by simp [hk, Frame.building]
        exact stateMutex_step hs (hw.owned.builds hb).1 (hi.2 t e k hk)

end Scheduler

end Shamrock.Scheduler
