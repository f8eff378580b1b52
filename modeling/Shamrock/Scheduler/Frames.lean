import Shamrock.Scheduler.Cases

/-! Projections of the state updates, and the shape of a thread's call stack. -/
namespace Shamrock.Scheduler

open Transition

variable {T : Type}

namespace State

@[simp] theorem setEvent_events (s : State T) (e : EventId) (ev : Event) :
    (s.setEvent e ev).events = Function.update s.events e ev := rfl
@[simp] theorem setEvent_queues (s : State T) (e : EventId) (ev : Event) :
    (s.setEvent e ev).queues = s.queues := rfl
@[simp] theorem setEvent_threads (s : State T) (e : EventId) (ev : Event) :
    (s.setEvent e ev).threads = s.threads := rfl
@[simp] theorem setEvent_nextEvent (s : State T) (e : EventId) (ev : Event) :
    (s.setEvent e ev).nextEvent = s.nextEvent := rfl

@[simp] theorem setQueue_events (s : State T) (q : QueueId) (Q : Queue T) :
    (s.setQueue q Q).events = s.events := rfl
@[simp] theorem setQueue_queues (s : State T) (q : QueueId) (Q : Queue T) :
    (s.setQueue q Q).queues = Function.update s.queues q Q := rfl
@[simp] theorem setQueue_threads (s : State T) (q : QueueId) (Q : Queue T) :
    (s.setQueue q Q).threads = s.threads := rfl
@[simp] theorem setQueue_nextEvent (s : State T) (q : QueueId) (Q : Queue T) :
    (s.setQueue q Q).nextEvent = s.nextEvent := rfl

@[simp] theorem newEvent_events (s : State T) (ev : Event) :
    (s.newEvent ev).events = Function.update s.events s.nextEvent ev := rfl
@[simp] theorem newEvent_queues (s : State T) (ev : Event) :
    (s.newEvent ev).queues = s.queues := rfl
@[simp] theorem newEvent_threads (s : State T) (ev : Event) :
    (s.newEvent ev).threads = s.threads := rfl
@[simp] theorem newEvent_nextEvent (s : State T) (ev : Event) :
    (s.newEvent ev).nextEvent = s.nextEvent + 1 := rfl

variable [DecidableEq T]

@[simp] theorem setStack_events (s : State T) (t : T) (k : List Frame) :
    (s.setStack t k).events = s.events := rfl
@[simp] theorem setStack_queues (s : State T) (t : T) (k : List Frame) :
    (s.setStack t k).queues = s.queues := rfl
@[simp] theorem setStack_threads (s : State T) (t : T) (k : List Frame) :
    (s.setStack t k).threads = Function.update s.threads t k := rfl
@[simp] theorem setStack_nextEvent (s : State T) (t : T) (k : List Frame) :
    (s.setStack t k).nextEvent = s.nextEvent := rfl

@[simp] theorem pushDependent_events (s : State T) (t : T) (f : StatusFrame) (i num : Nat)
    (d : EventId) (q : QueueId) (k : List Frame) :
    (pushDependent s t f i num d q k).events = s.events := rfl
@[simp] theorem pushDependent_queues (s : State T) (t : T) (f : StatusFrame) (i num : Nat)
    (d : EventId) (q : QueueId) (k : List Frame) :
    (pushDependent s t f i num d q k).queues = s.queues := rfl
@[simp] theorem pushDependent_nextEvent (s : State T) (t : T) (f : StatusFrame) (i num : Nat)
    (d : EventId) (q : QueueId) (k : List Frame) :
    (pushDependent s t f i num d q k).nextEvent = s.nextEvent := rfl
@[simp] theorem pushDependent_threads (s : State T) (t : T) (f : StatusFrame) (i num : Nat)
    (d : EventId) (q : QueueId) (k : List Frame) :
    (pushDependent s t f i num d q k).threads = Function.update s.threads t
      (.push (.call q (some d) ((s.events f.event).parent = some q)) ::
        .setStatus { f with
          pc := .notify (i + 1) num
          alreadyPushed := f.alreadyPushed || decide ((s.events f.event).parent = some q) } ::
        k) := rfl

end State

/-- A frame below the top of a stack: it waits for a call of its own to return. -/
def Frame.Suspended : Frame → Prop
  | .setStatus f => ∃ i num, f.pc = .notify i num
  | .release _ => True
  | _ => False

/-- Which frames lie on which. Constructors and waiting for a queue call nothing. -/
def StackShape : List Frame → Prop
  | [] => True
  | .push _ :: k | .setStatus _ :: k | .release _ :: k => ∀ f ∈ k, f.Suspended
  | .clean f :: k => k = [.finish f.queue]
  | _ :: k => k = []

@[simp] theorem stackShape_push {f : PushFrame} {k : List Frame} :
    StackShape (.push f :: k) ↔ ∀ g ∈ k, g.Suspended := Iff.rfl
@[simp] theorem stackShape_setStatus {f : StatusFrame} {k : List Frame} :
    StackShape (.setStatus f :: k) ↔ ∀ g ∈ k, g.Suspended := Iff.rfl
@[simp] theorem stackShape_release {e : EventId} {k : List Frame} :
    StackShape (.release e :: k) ↔ ∀ g ∈ k, g.Suspended := Iff.rfl
@[simp] theorem stackShape_clean {f : CleanFrame} {k : List Frame} :
    StackShape (.clean f :: k) ↔ k = [.finish f.queue] := Iff.rfl
@[simp] theorem stackShape_check {type : EventType} {q : QueueId} {ws rest : List EventId}
    {k : List Frame} : StackShape (.check type q ws rest :: k) ↔ k = [] := Iff.rfl
@[simp] theorem stackShape_register {e : EventId} {rest : List EventId} {k : List Frame} :
    StackShape (.register e rest :: k) ↔ k = [] := Iff.rfl
@[simp] theorem stackShape_appendWait {e w : EventId} {rest : List EventId} {k : List Frame} :
    StackShape (.appendWait e w rest :: k) ↔ k = [] := Iff.rfl
@[simp] theorem stackShape_queueEvent {e : EventId} {k : List Frame} :
    StackShape (.queueEvent e :: k) ↔ k = [] := Iff.rfl
@[simp] theorem stackShape_finish {q : QueueId} {k : List Frame} :
    StackShape (.finish q :: k) ↔ k = [] := Iff.rfl
@[simp] theorem stackShape_asleep {q : QueueId} {g : Nat} {k : List Frame} :
    StackShape (.asleep q g :: k) ↔ k = [] := Iff.rfl

@[simp] theorem suspended_setStatus {f : StatusFrame} :
    (Frame.setStatus f).Suspended ↔ ∃ i num, f.pc = .notify i num := Iff.rfl
@[simp] theorem suspended_release {e : EventId} : (Frame.release e).Suspended := trivial

/-- The thread that a step belongs to. -/
def Action.actor : Action T → T
  | .createUserEvent t | .setUserEventStatus t _ _ | .setCallback t _ _ _ | .enqueue t _ _ _
  | .flush t _ | .finish t _ | .deviceSetStatus t _ _ | .resume t _ => t

section Actor

variable (t : T) (e : EventId) (q : QueueId) (st : Int) (type : EventType) (ws : List EventId)
  (c : CallbackId) (g : Bool)

@[simp] theorem actor_createUserEvent : (Action.createUserEvent t).actor = t := rfl
@[simp] theorem actor_setUserEventStatus : (Action.setUserEventStatus t e st).actor = t := rfl
@[simp] theorem actor_setCallback : (Action.setCallback t e st c).actor = t := rfl
@[simp] theorem actor_enqueue : (Action.enqueue t type q ws).actor = t := rfl
@[simp] theorem actor_flush : (Action.flush t q).actor = t := rfl
@[simp] theorem actor_finish : (Action.finish t q).actor = t := rfl
@[simp] theorem actor_deviceSetStatus : (Action.deviceSetStatus t e st).actor = t := rfl
@[simp] theorem actor_resume : (Action.resume t g).actor = t := rfl

end Actor

section UpdateField

variable {β : Type*} {f : QueueId → Queue T} {p : QueueId} {Q : Queue T}

/-- Replacing one queue by one with the same value of a field. -/
theorem update_field_same {F : Queue T → β} (h : F Q = F (f p)) (q : QueueId) :
    F (Function.update f p Q q) = F (f q) := by
  by_cases hq : q = p
  · subst q
    simpa using h
  · rw [Function.update_of_ne hq]

theorem update_field_append {F : Queue T → List β} {x : β} (h : F Q = F (f p) ++ [x])
    (q : QueueId) :
    F (Function.update f p Q q) = F (f q) ++ if q = p then [x] else [] := by
  by_cases hq : q = p
  · subst q
    simpa using h
  · simp [hq]

end UpdateField

variable [DecidableEq T] {s s' : State T} {a : Action T}

theorem stackShape_suspended {k : List Frame} (h : ∀ f ∈ k, f.Suspended) : StackShape k := by
  cases k with
  | nil => trivial
  | cons f k =>
    have hk : ∀ g ∈ k, g.Suspended := fun g hg => h g (List.mem_cons_of_mem _ hg)
    have hf := h f List.mem_cons_self
    cases f <;> first | exact hk | exact hf.elim

/-- Below the top of a stack there are only suspended calls, or the rest of `finish`. -/
theorem stackShape_tail {g : Frame} {k : List Frame} (h : StackShape (g :: k)) :
    ∀ f ∈ k, f.Suspended ∨ ∃ q, f = .finish q := by
  intro f hf
  cases g with
  | push | setStatus | release => exact .inl (h f hf)
  | clean g =>
    rw [stackShape_clean.mp h] at hf
    exact .inr ⟨g.queue, List.mem_singleton.mp hf⟩
  | _ =>
    obtain rfl : k = [] := h
    cases hf

theorem step_threads_of_ne (h : Step s a s') {t : T} (ht : t ≠ a.actor) :
    s'.threads t = s.threads t := by
  cases h <;> first | rfl | exact Function.update_of_ne ht _ _

/-- A thread inside a call goes on with it. -/
theorem resume_of_top (h : Step s a s') {f : Frame} {k : List Frame}
    (hk : s.threads a.actor = f :: k) : ∃ g, a = .resume a.actor g := by
  cases h <;> simp_all

omit [DecidableEq T] in
theorem cleanMove_queue {Q : Queue T} {ev : EventId → Event} {f f' : CleanFrame}
    (h : CleanMove Q ev f f') : f'.queue = f.queue := by
  cases h <;> rfl

omit [DecidableEq T] in
theorem pushMove_queue {Q : Queue T} {ev : EventId → Event} {f f' : PushFrame} {b : Bool}
    (h : PushMove Q ev f f' b) : f'.queue = f.queue := by
  cases h <;> rfl

theorem stackShape_step (h : Step s a s') (hs : ∀ t, StackShape (s.threads t)) :
    ∀ t, StackShape (s'.threads t) := by
  cases h
  case createUserEvent => exact hs
  case setCallback => exact hs
  all_goals
    simp only [State.setStack_threads, State.setEvent_threads, State.setQueue_threads,
      State.newEvent_threads, State.pushDependent_threads]
    rw [Function.forall_update_iff]
    refine ⟨?_, fun u _ => hs u⟩
    have ht := hs (by assumption)
    clear hs
  case construct hk =>
    rw [hk] at ht
    split <;> exact ht
  case cleanMove hk hm =>
    rw [hk] at ht
    simpa [cleanMove_queue hm] using ht
  all_goals simp_all [stackShape_suspended]

/-- A property of all frames is kept if it is stable and the acting thread keeps it. -/
theorem frames_step {P : State T → Frame → Prop} (h : Step s a s')
    (hs : ∀ t, ∀ f ∈ s.threads t, P s f) (hst : ∀ f, P s f → P s' f)
    (hn : (∀ f ∈ s.threads a.actor, P s' f) → ∀ f ∈ s'.threads a.actor, P s' f) :
    ∀ t, ∀ f ∈ s'.threads t, P s' f := by
  intro t f hf
  by_cases ht : t = a.actor
  · subst ht
    exact hn (fun g hg => hst g (hs _ g hg)) f hf
  · rw [step_threads_of_ne h ht] at hf
    exact hst f (hs t f hf)

end Shamrock.Scheduler
