import Shamrock.Scheduler.Locks

/-! What a step can do to a single event, and which of its fields never change. -/
namespace Shamrock.Scheduler

open Transition

variable {T : Type} [DecidableEq T] {s s' : State T} {a : Action T} {x : EventId}

/-- The new value of event `x`, with the frame of the acting thread that writes it. -/
inductive EventChange (s : State T) (t : T) (x : EventId) : Event → Prop
  | same : EventChange s t x (s.events x)
  | created {ev : Event} : x = s.nextEvent →
      ev = .userEvent ∨ (∃ type q ws k, s.threads t = .check type q ws [] :: k ∧
        ev = .command type q ws) →
      EventChange s t x ev
  | callback {type : Int} {c : CallbackId} : x < s.nextEvent →
      EventChange s t x ((s.events x).setCallback type c)
  | dependent {e : EventId} {rest : List EventId} {k : List Frame} :
      s.threads t = .register e (x :: rest) :: k → (s.events x).status ≠ clComplete →
      EventChange s t x ((s.events x).addDependentEvent e).1
  | waiting {w : EventId} {rest : List EventId} {k : List Frame} :
      s.threads t = .appendWait x w rest :: k →
      EventChange s t x ((s.events x).addWaitEvent w)
  | constructed {k : List Frame} : s.threads t = .register x [] :: k →
      EventChange s t x { s.events x with stateMutex := false }
  | submitted {f : PushFrame} {k : List Frame} : s.threads t = .push f :: k →
      f.pc = .submit → f.event (s.queues f.queue) = some x →
      EventChange s t x ((s.events x).setStatusHelper clSubmitted)
  | reported {f : StatusFrame} {k : List Frame} : s.threads t = .setStatus f :: k →
      f.pc = .helper → f.event = x →
      EventChange s t x ((s.events x).setStatusHelper f.status)
  | terminated {f : StatusFrame} {i num : Nat} {q : QueueId} {k : List Frame} :
      s.threads t = .setStatus f :: k → f.pc = .terminate i num x q →
      EventChange s t x ((s.events x).setStatusHelper f.status)
  | notified {f : StatusFrame} {i num : Nat} {k : List Frame} :
      s.threads t = .setStatus f :: k → f.pc = .notify i num → i < num →
      (s.events f.event).dependentEvents[i]? = some x → (s.events x).stateMutex = false →
      EventChange s t x ((s.events x).removeWaitEvent f.event).1

omit [DecidableEq T] in
theorem eventChange_update {e : EventId} {ev : Event} {t : T}
    (h : EventChange s t e ev) (x : EventId) :
    EventChange s t x (Function.update s.events e ev x) := by
  by_cases hx : x = e
  · subst x
    simpa using h
  · rw [Function.update_of_ne hx]
    exact .same

theorem step_event (h : Step s a s') (x : EventId) :
    EventChange s a.actor x (s'.events x) := by
  cases h
  case createUserEvent => exact eventChange_update (.created rfl (.inl rfl)) x
  case setCallback hk he => exact eventChange_update (.callback he) x
  case construct hk =>
    exact eventChange_update (.created rfl (.inr ⟨_, _, _, _, hk, rfl⟩)) x
  case addDependent hk hs => exact eventChange_update (.dependent hk hs) x
  case appendWait hk => exact eventChange_update (.waiting hk) x
  case constructed hk => exact eventChange_update (.constructed hk) x
  case pushSubmit hk hpc he => exact eventChange_update (.submitted hk hpc he) x
  case helperNotify hk hpc _ => exact eventChange_update (.reported hk hpc rfl) x
  case helperReturn hk hpc _ => exact eventChange_update (.reported hk hpc rfl) x
  case notifyBlocked hk hpc hi hd hm _ =>
    exact eventChange_update (.notified hk hpc hi hd hm) x
  case notifyReady hk hpc hi hd hm _ _ _ =>
    exact eventChange_update (.notified hk hpc hi hd hm) x
  case notifyFailed hk hpc hi hd hm _ _ _ =>
    exact eventChange_update (.notified hk hpc hi hd hm) x
  case terminate hk hpc => exact eventChange_update (.terminated hk hpc) x
  all_goals exact .same

namespace Event

@[simp] theorem setStatusHelper_type (ev : Event) (st : Int) :
    (ev.setStatusHelper st).type = ev.type := rfl
@[simp] theorem setStatusHelper_parent (ev : Event) (st : Int) :
    (ev.setStatusHelper st).parent = ev.parent := rfl
@[simp] theorem setStatusHelper_status (ev : Event) (st : Int) :
    (ev.setStatusHelper st).status = st := rfl
@[simp] theorem setStatusHelper_stateMutex (ev : Event) (st : Int) :
    (ev.setStatusHelper st).stateMutex = ev.stateMutex := rfl
@[simp] theorem setStatusHelper_waitEvents (ev : Event) (st : Int) :
    (ev.setStatusHelper st).waitEvents = ev.waitEvents := rfl
@[simp] theorem setStatusHelper_dependentEvents (ev : Event) (st : Int) :
    (ev.setStatusHelper st).dependentEvents = ev.dependentEvents := rfl
@[simp] theorem setStatusHelper_waitList (ev : Event) (st : Int) :
    (ev.setStatusHelper st).waitList = ev.waitList := rfl
@[simp] theorem setStatusHelper_statuses (ev : Event) (st : Int) :
    (ev.setStatusHelper st).statuses = st :: ev.statuses := rfl

theorem setCallback_eq (ev : Event) (type : Int) (c : CallbackId) :
    ∃ l m, ev.setCallback type c = { ev with callbacks := l, invoked := m } := by
  unfold setCallback
  split <;> exact ⟨_, _, rfl⟩

theorem addDependentEvent_eq (ev : Event) (d : EventId) :
    ∃ l, (ev.addDependentEvent d).1 = { ev with dependentEvents := ev.dependentEvents ++ l } := by
  unfold addDependentEvent
  split
  · exact ⟨[], by simp⟩
  · exact ⟨[d], rfl⟩

theorem addDependentEvent_of_ne {ev : Event} (h : ev.status ≠ clComplete) (d : EventId) :
    (ev.addDependentEvent d).1 = { ev with dependentEvents := ev.dependentEvents ++ [d] } := by
  simp [addDependentEvent, h]

@[simp] theorem addWaitEvent_waitEvents (ev : Event) (w : EventId) :
    (ev.addWaitEvent w).waitEvents = ev.waitEvents ++ [w] := rfl
@[simp] theorem removeWaitEvent_waitEvents (ev : Event) (w : EventId) :
    (ev.removeWaitEvent w).1.waitEvents = ev.waitEvents.filter (· ≠ w) := rfl

end Event

/-- The fields fixed at construction. -/
structure SameIdentity (ev ev' : Event) : Prop where
  type : ev'.type = ev.type
  parent : ev'.parent = ev.parent
  waitList : ev'.waitList = ev.waitList

omit [DecidableEq T] in
theorem eventChange_identity {ev : Event} {t : T} (h : EventChange s t x ev)
    (hx : x < s.nextEvent) : SameIdentity (s.events x) ev := by
  cases h with
  | created he _ => exact absurd he (Nat.ne_of_lt hx)
  | @callback type c _ =>
    obtain ⟨l, m, hc⟩ := (s.events x).setCallback_eq type c
    rw [hc]
    exact ⟨rfl, rfl, rfl⟩
  | @dependent e _ _ _ _ =>
    obtain ⟨l, hl⟩ := (s.events x).addDependentEvent_eq e
    rw [hl]
    exact ⟨rfl, rfl, rfl⟩
  | _ => exact ⟨rfl, rfl, rfl⟩

theorem step_identity (h : Step s a s') (hx : x < s.nextEvent) :
    SameIdentity (s.events x) (s'.events x) :=
  eventChange_identity (step_event h x) hx

theorem step_nextEvent (h : Step s a s') : s.nextEvent ≤ s'.nextEvent := by
  cases h <;> first | exact Nat.le_refl _ | exact Nat.le_succ _

/-- A step leaves the history alone or adds the new status to it. -/
theorem statuses_step (h : Step s a s') (hx : x < s.nextEvent) :
    (s'.events x).statuses = (s.events x).statuses ∧
        (s'.events x).status = (s.events x).status ∨
      (s'.events x).statuses = (s'.events x).status :: (s.events x).statuses := by
  have hc := step_event h x
  generalize s'.events x = ev at hc
  cases hc with
  | created he _ => exact absurd he (Nat.ne_of_lt hx)
  | @callback type c _ =>
    obtain ⟨l, m, hc⟩ := (s.events x).setCallback_eq type c
    rw [hc]
    exact .inl ⟨rfl, rfl⟩
  | @dependent e _ _ _ _ =>
    obtain ⟨l, hl⟩ := (s.events x).addDependentEvent_eq e
    rw [hl]
    exact .inl ⟨rfl, rfl⟩
  | submitted | reported | terminated => exact .inr rfl
  | _ => exact .inl ⟨rfl, rfl⟩

/-- The status history only grows, so a terminal status once reached is not forgotten. -/
theorem step_statuses (h : Step s a s') (hx : x < s.nextEvent) :
    (s.events x).statuses ⊆ (s'.events x).statuses := by
  rcases statuses_step h hx with ⟨hss, -⟩ | hss
  · rw [hss]
    exact List.Subset.refl _
  · rw [hss]
    exact List.subset_cons_self _ _

/-- The only status a step adds to the history is the new one. -/
theorem mem_statuses_step (h : Step s a s') (hx : x < s.nextEvent) {st : Int}
    (hst : st ∈ (s'.events x).statuses) :
    st ∈ (s.events x).statuses ∨ st = (s'.events x).status := by
  rcases statuses_step h hx with ⟨hss, -⟩ | hss
  · exact .inl (hss ▸ hst)
  · rw [hss] at hst
    exact (List.mem_cons.mp hst).symm

theorem step_ended (h : Step s a s') (hx : x < s.nextEvent) (he : (s.events x).Ended) :
    (s'.events x).Ended := by
  obtain ⟨st, hst, hle⟩ := he
  exact ⟨st, step_statuses h hx hst, hle⟩

/-- The new status of event `x`, with the frame of the acting thread that sets it. -/
inductive StatusChange (s : State T) (t : T) (x : EventId) : Int → Prop
  | same : StatusChange s t x (s.events x).status
  | submitted {f : PushFrame} {k : List Frame} : s.threads t = .push f :: k →
      f.pc = .submit → f.event (s.queues f.queue) = some x → StatusChange s t x clSubmitted
  | reported {f : StatusFrame} {k : List Frame} : s.threads t = .setStatus f :: k →
      f.pc = .helper → f.event = x → StatusChange s t x f.status
  | terminated {f : StatusFrame} {i num : Nat} {q : QueueId} {k : List Frame} :
      s.threads t = .setStatus f :: k → f.pc = .terminate i num x q →
      StatusChange s t x f.status

theorem step_status (h : Step s a s') (hx : x < s.nextEvent) :
    StatusChange s a.actor x (s'.events x).status := by
  have hc := step_event h x
  generalize s'.events x = ev at hc
  cases hc with
  | created he _ => exact absurd he (Nat.ne_of_lt hx)
  | @callback type c _ =>
    obtain ⟨l, m, hc⟩ := (s.events x).setCallback_eq type c
    rw [hc]
    exact .same
  | @dependent e _ _ _ _ =>
    obtain ⟨l, hl⟩ := (s.events x).addDependentEvent_eq e
    rw [hl]
    exact .same
  | submitted hk hpc he => exact .submitted hk hpc he
  | reported hk hpc he => exact .reported hk hpc he
  | terminated hk hpc => exact .terminated hk hpc
  | _ => exact .same

/-- The new wait list of event `x`, with the frame of the acting thread that changes it. -/
inductive WaitChange (s : State T) (t : T) (x : EventId) : List EventId → Prop
  | same : WaitChange s t x (s.events x).waitEvents
  | waiting {w : EventId} {rest : List EventId} {k : List Frame} :
      s.threads t = .appendWait x w rest :: k →
      WaitChange s t x ((s.events x).waitEvents ++ [w])
  | notified {f : StatusFrame} {i num : Nat} {k : List Frame} :
      s.threads t = .setStatus f :: k → f.pc = .notify i num → i < num →
      (s.events f.event).dependentEvents[i]? = some x → (s.events x).stateMutex = false →
      WaitChange s t x ((s.events x).waitEvents.filter (· ≠ f.event))

theorem step_waitEvents (h : Step s a s') (hx : x < s.nextEvent) :
    WaitChange s a.actor x (s'.events x).waitEvents := by
  have hc := step_event h x
  generalize s'.events x = ev at hc
  cases hc with
  | created he _ => exact absurd he (Nat.ne_of_lt hx)
  | @callback type c _ =>
    obtain ⟨l, m, hc⟩ := (s.events x).setCallback_eq type c
    rw [hc]
    exact .same
  | @dependent e _ _ _ _ =>
    obtain ⟨l, hl⟩ := (s.events x).addDependentEvent_eq e
    rw [hl]
    exact .same
  | waiting hk => exact .waiting hk
  | notified hk hpc hi hd hm => exact .notified hk hpc hi hd hm
  | _ => exact .same

end Shamrock.Scheduler
