import Shamrock.Scheduler.Failure

/-! Both ends of a dependency agree, and each reference it takes is given back once. -/
namespace Shamrock.Scheduler

open Transition

variable {T : Type} [DecidableEq T] {s s' : State T} {a : Action T} {d e w x : EventId}

/-- A reference on the first event: `addDependentEvent` takes one for the second event, and
`removeWaitEvent` of the second event gives one back. -/
inductive Reference
  | taken (e d : EventId)
  | released (e d : EventId)
  deriving DecidableEq

def Reference.event : Reference → EventId
  | .taken e _ | .released e _ => e

/-- The references that a step takes and gives back. Only the queue of an event releases it. -/
def State.noted (s : State T) : Action T → Option Reference
  | .resume t _ =>
    match s.threads t with
    | .register d (w :: _) :: _ =>
      if (s.events w).status = clComplete then none else some (.taken w d)
    | .setStatus f :: _ =>
      match f.pc with
      | .notify i num =>
        if i < num ∧ (s.events f.event).parent.isSome then
          (s.events f.event).dependentEvents[i]?.map fun d => .released f.event d
        else none
      | _ => none
    | _ => none
  | _ => none

/-- The command under construction by thread `t` and the event it is about to register with. -/
def State.registering (s : State T) (t : T) : Option (EventId × EventId) :=
  match s.threads t with
  | .register d (w :: _) :: _ => some (d, w)
  | _ => none

/-- An event with dependents is a command and does not fail, no status is written over a terminal
one, and a command registers neither with a failed event nor with the same event again. -/
def EdgesKept (s : State T) : Action T → Prop
  | .resume t _ =>
    (∀ f ∈ s.reporting t, 0 < (s.events f.event).status ∧
      (f.status < 0 ∨ (s.events f.event).parent = none →
        (s.events f.event).dependentEvents = [])) ∧
    ∀ r ∈ s.registering t, (s.events r.2).status = clComplete ∨
      0 < (s.events r.2).status ∧ r.1 ∉ (s.events r.2).dependentEvents
  | _ => True

instance (s : State T) (a : Action T) : Decidable (EdgesKept s a) :=
  match a with
  | .resume t _ => inferInstanceAs (Decidable (
      (∀ f ∈ s.reporting t, 0 < (s.events f.event).status ∧
        (f.status < 0 ∨ (s.events f.event).parent = none →
          (s.events f.event).dependentEvents = [])) ∧
      ∀ r ∈ s.registering t, (s.events r.2).status = clComplete ∨
        0 < (s.events r.2).status ∧ r.1 ∉ (s.events r.2).dependentEvents))
  | .createUserEvent _ | .setUserEventStatus .. | .setCallback .. | .flush .. | .finish ..
  | .enqueue .. | .deviceSetStatus .. => inferInstanceAs (Decidable True)

/-- The first position that a notification loop for `e` has not processed, and its end. -/
def Frame.loop (e : EventId) : Frame → Option (Nat × Nat)
  | .setStatus f =>
    if f.event = e then
      match f.pc with
      | .helper => none
      | .notify i num => some (i, num)
      | .terminate i num _ _ => some (i + 1, num)
    else none
  | _ => none

/-- The notification loops for `e` in a call stack. -/
def loops (e : EventId) (k : List Frame) : List (Nat × Nat) := k.filterMap (Frame.loop e)

/-- `d` is listed in the dependents of `e` at a position that is still to be processed: `e` is
not terminal, or its notification loop has not got there. -/
def Open (s : State T) (e d : EventId) : Prop :=
  ∃ j : Nat, (s.events e).dependentEvents[j]? = some d ∧ (¬ (s.events e).Terminal ∨
    ∃ t, ∃ p ∈ loops e (s.threads t), p.1 ≤ j ∧ j < p.2)

/-- How the notification loops for `e` on the acting thread change. -/
inductive LoopChange (s : State T) (t : T) (e : EventId) : List (Nat × Nat) → Prop
  | same : LoopChange s t e (loops e (s.threads t))
  | started {f : StatusFrame} {k : List Frame} : s.threads t = .setStatus f :: k →
      f.pc = .helper → f.event = e → (s.events e).propagates f.status = true →
      LoopChange s t e ((0, (s.events e).dependentEvents.length) :: loops e (s.threads t))
  | notified {f : StatusFrame} {i num : Nat} {k : List Frame} :
      s.threads t = .setStatus f :: k → f.pc = .notify i num → f.event = e → i < num →
      LoopChange s t e ((i + 1, num) :: loops e k)
  | ended {f : StatusFrame} {i num : Nat} {k : List Frame} :
      s.threads t = .setStatus f :: k → f.pc = .notify i num → f.event = e → num ≤ i →
      LoopChange s t e (loops e k)

theorem loops_cons (e : EventId) (f : Frame) (k : List Frame) :
    loops e (f :: k) = (f.loop e).toList ++ loops e k := by
  unfold loops
  rw [List.filterMap_cons]
  cases f.loop e <;> rfl

theorem loops_helper {f : StatusFrame} {k : List Frame} (hpc : f.pc = .helper) :
    loops e (.setStatus f :: k) = loops e k := by
  simp [loops_cons, Frame.loop, hpc]

theorem loops_notify {f : StatusFrame} {i num : Nat} {k : List Frame} (hpc : f.pc = .notify i num) :
    loops e (.setStatus f :: k) = (if f.event = e then [(i, num)] else []) ++ loops e k := by
  by_cases he : f.event = e <;> simp [loops_cons, Frame.loop, hpc, he]

theorem loops_terminate {f : StatusFrame} {i num : Nat} {q : QueueId} {k : List Frame}
    (hpc : f.pc = .terminate i num d q) :
    loops e (.setStatus f :: k) = (if f.event = e then [(i + 1, num)] else []) ++ loops e k := by
  by_cases he : f.event = e <;> simp [loops_cons, Frame.loop, hpc, he]

omit [DecidableEq T] in
/-- A loop goes on to the next position. -/
theorem loopChange_notified {t : T} {f : StatusFrame} {i num : Nat} {k : List Frame}
    (hk : s.threads t = .setStatus f :: k) (hpc : f.pc = .notify i num) (hi : i < num) :
    LoopChange s t e ((if f.event = e then [(i + 1, num)] else []) ++ loops e k) := by
  by_cases he : f.event = e
  · rw [if_pos he]
    exact .notified hk hpc he hi
  · have hold : loops e (s.threads t) = loops e k := by
      rw [hk, loops_notify hpc, if_neg he]
      rfl
    rw [if_neg he, List.nil_append, ← hold]
    exact .same

omit [DecidableEq T] in
theorem loopChange_ended {t : T} {f : StatusFrame} {i num : Nat} {k : List Frame}
    (hk : s.threads t = .setStatus f :: k) (hpc : f.pc = .notify i num) (hi : num ≤ i) :
    LoopChange s t e (loops e k) := by
  by_cases he : f.event = e
  · exact .ended hk hpc he hi
  · have hold : loops e (s.threads t) = loops e k := by
      rw [hk, loops_notify hpc, if_neg he]
      rfl
    rw [← hold]
    exact .same

omit [DecidableEq T] in
theorem LoopChange.of_eq {t : T} {l : List (Nat × Nat)} (h : l = loops e (s.threads t)) :
    LoopChange s t e l := h ▸ .same

theorem step_loops (h : Step s a s') (e : EventId) :
    LoopChange s a.actor e (loops e (s'.threads a.actor)) := by
  cases h
  case createUserEvent => exact .same
  case setCallback => exact .same
  all_goals
    simp only [actor_resume, actor_setUserEventStatus, actor_enqueue, actor_flush, actor_finish,
      actor_deviceSetStatus, State.setStack_threads, State.pushDependent_threads,
      Function.update_self]
  case helperNotify t g f k hk hpc hp =>
    rw [loops_notify rfl]
    have hold : loops e (s.threads t) = loops e k := by rw [hk, loops_helper hpc]
    rw [← hold]
    by_cases he : f.event = e
    · subst he
      rw [if_pos rfl]
      exact .started hk hpc rfl hp
    · rw [if_neg he]
      exact .same
  case notifyBlocked hk hpc hi _ _ _ =>
    rw [loops_notify rfl]
    exact (loopChange_notified hk hpc hi :)
  case notifyReady hk hpc hi _ _ _ _ _ =>
    rw [loops_cons, loops_notify rfl]
    exact (loopChange_notified hk hpc hi :)
  case notifyFailed hk hpc hi _ _ _ _ _ =>
    rw [loops_terminate rfl]
    exact (loopChange_notified hk hpc hi :)
  case notifyReturn hk hpc hi _ => exact loopChange_ended hk hpc hi
  case notifyPush hk hpc hi _ _ =>
    rw [loops_cons]
    exact loopChange_ended hk hpc hi
  case terminate t g f i num d q k hk hpc =>
    apply LoopChange.of_eq
    rw [hk, loops_terminate hpc, loops_cons, loops_notify rfl]
    rfl
  case helperReturn hk hpc _ =>
    apply LoopChange.of_eq
    rw [hk, loops_helper hpc]
  case construct hk =>
    apply LoopChange.of_eq
    rw [hk, loops_cons, loops_cons]
    split <;> rfl
  all_goals
    apply LoopChange.of_eq
    simp only [loops_cons, Frame.loop, StatusFrame.call, ite_self, *]
  all_goals rfl

/-- The constructor of the first event is about to enter the second in its wait list. -/
def Frame.appending : Frame → Option (EventId × EventId)
  | .appendWait d w _ => some (d, w)
  | _ => none

def appendings (k : List Frame) : List (EventId × EventId) := k.filterMap Frame.appending

theorem appendings_cons (f : Frame) (k : List Frame) :
    appendings (f :: k) = f.appending.toList ++ appendings k := by
  unfold appendings
  rw [List.filterMap_cons]
  cases f.appending <;> rfl

/-- `d` waits for `e`, or its constructor is about to enter `e` in the wait list. -/
def Waits (s : State T) (d e : EventId) : Prop :=
  e ∈ (s.events d).waitEvents ∨ ∃ t, (d, e) ∈ appendings (s.threads t)

/-- Who waits for `e`, as both ends see it, is the same. -/
structure SameEdges (s s' : State T) (e : EventId) : Prop where
  dependents : (s'.events e).dependentEvents = (s.events e).dependentEvents
  waits : ∀ d, d < s.nextEvent → (Waits s' d e ↔ Waits s d e)

/-- What a step does to the edges from event `e`. -/
inductive EdgeChange (s : State T) (a : Action T) (e : EventId) (s' : State T) : Prop
  | quiet : SameEdges s s' e → loops e (s'.threads a.actor) = loops e (s.threads a.actor) →
      (∀ r ∈ s.noted a, r.event ≠ e) → EdgeChange s a e s'
  | registered {d : EventId} {rest : List EventId} {k : List Frame} :
      s.threads a.actor = .register d (e :: rest) :: k →
      (s.events e).status ≠ clComplete →
      (s'.events e).dependentEvents = (s.events e).dependentEvents ++ [d] →
      (∀ x, x < s.nextEvent → (Waits s' x e ↔ Waits s x e ∨ x = d)) →
      loops e (s'.threads a.actor) = loops e (s.threads a.actor) →
      s.noted a = some (.taken e d) → EdgeChange s a e s'
  | started {f : StatusFrame} {k : List Frame} : s.threads a.actor = .setStatus f :: k →
      f.pc = .helper → f.event = e → (s.events e).propagates f.status = true →
      SameEdges s s' e → (s'.events e).status = f.status →
      loops e (s'.threads a.actor) =
        (0, (s.events e).dependentEvents.length) :: loops e (s.threads a.actor) →
      s.noted a = none → EdgeChange s a e s'
  | notified {f : StatusFrame} {i num : Nat} {d : EventId} {k : List Frame} :
      s.threads a.actor = .setStatus f :: k → f.pc = .notify i num → f.event = e → i < num →
      (s.events e).dependentEvents[i]? = some d → (s.events d).stateMutex = false →
      (s'.events e).dependentEvents = (s.events e).dependentEvents →
      (∀ x, e ∈ (s'.events x).waitEvents ↔ e ∈ (s.events x).waitEvents ∧ x ≠ d) →
      (∀ t, appendings (s'.threads t) = appendings (s.threads t)) →
      loops e (s'.threads a.actor) = (i + 1, num) :: loops e k →
      s.noted a = (if (s.events e).parent.isSome then some (.released e d) else none) →
      EdgeChange s a e s'
  | ended {f : StatusFrame} {i num : Nat} {k : List Frame} :
      s.threads a.actor = .setStatus f :: k → f.pc = .notify i num → f.event = e → num ≤ i →
      SameEdges s s' e → loops e (s'.threads a.actor) = loops e k → s.noted a = none →
      EdgeChange s a e s'

/-- The threads are those of `s`, but for one whose constructor calls are the same. -/
theorem appendings_of_update {t : T} {k : List Frame}
    (ht : s'.threads = Function.update s.threads t k)
    (hap : appendings k = appendings (s.threads t)) (u : T) :
    appendings (s'.threads u) = appendings (s.threads u) := by
  rw [ht, Function.update_apply]
  split
  · rename_i hu
    rw [hu, hap]
  · rfl

theorem sameEdges_of {t : T} {k : List Frame}
    (hd : (s'.events e).dependentEvents = (s.events e).dependentEvents)
    (hw : ∀ x, x < s.nextEvent →
      (e ∈ (s'.events x).waitEvents ↔ e ∈ (s.events x).waitEvents))
    (ht : s'.threads = Function.update s.threads t k)
    (hap : appendings k = appendings (s.threads t)) : SameEdges s s' e where
  dependents := hd
  waits x hx := by
    unfold Waits
    rw [hw x hx]
    simp only [appendings_of_update ht hap]

theorem sameEdges_of_events {t : T} {k : List Frame}
    (hev : s'.events = s.events) (ht : s'.threads = Function.update s.threads t k)
    (hap : appendings k = appendings (s.threads t)) : SameEdges s s' e :=
  sameEdges_of (by rw [hev]) (fun x _ => by rw [hev]) ht hap

/-- A write to one event that leaves its lists alone. -/
theorem sameEdges_of_update {t : T} {k : List Frame} {ev : Event}
    (hev : s'.events = Function.update s.events x ev)
    (hd : ev.dependentEvents = (s.events x).dependentEvents)
    (hw : ev.waitEvents = (s.events x).waitEvents)
    (ht : s'.threads = Function.update s.threads t k)
    (hap : appendings k = appendings (s.threads t)) : SameEdges s s' e := by
  refine sameEdges_of ?_ (fun y _ => ?_) ht hap
  · rw [hev, Function.update_apply]
    split
    · rename_i hx
      rw [hd, hx]
    · rfl
  · rw [hev, Function.update_apply]
    split
    · rename_i hx
      rw [hw, hx]
    · rfl

/-- A loop of another event removes only that event from wait lists. -/
theorem notified_change {t : T} {g : Bool} {f : StatusFrame} {i num : Nat} {d : EventId}
    {k k' : List Frame} (hk : s.threads t = .setStatus f :: k) (hpc : f.pc = .notify i num)
    (hi : i < num) (hd : (s.events f.event).dependentEvents[i]? = some d)
    (hm : (s.events d).stateMutex = false)
    (hev : s'.events = Function.update s.events d ((s.events d).removeWaitEvent f.event).1)
    (ht : s'.threads = Function.update s.threads t k')
    (hl : loops e k' = (if f.event = e then [(i + 1, num)] else []) ++ loops e k)
    (hap : appendings k' = appendings k) : EdgeChange s (.resume t g) e s' := by
  have hself : s'.threads t = k' := by rw [ht, Function.update_self]
  have hap' : appendings k' = appendings (s.threads t) := by
    rw [hap, hk, appendings_cons]
    rfl
  have hdep : ∀ x, (s'.events x).dependentEvents = (s.events x).dependentEvents := by
    intro x
    rw [hev, Function.update_apply]
    split
    · rename_i hx
      rw [hx]
      rfl
    · rfl
  have hwait : ∀ x, e ∈ (s'.events x).waitEvents ↔
      e ∈ (s.events x).waitEvents ∧ (x = d → e ≠ f.event) := by
    intro x
    rw [hev, Function.update_apply]
    split
    · rename_i hx
      simp [hx]
    · rename_i hx
      simp [hx]
  have hnote : s.noted (.resume t g) =
      if (s.events f.event).parent.isSome then some (.released f.event d) else none := by
    simp only [State.noted, hk, hpc, hi, true_and, hd]
    split <;> rfl
  by_cases he : f.event = e
  · subst he
    refine .notified hk hpc rfl hi hd hm (hdep _) ?_ (appendings_of_update ht hap') ?_ hnote
    · intro x
      rw [hwait]
      tauto
    · simp only [actor_resume]
      rw [hself, hl, if_pos rfl]
      rfl
  · refine .quiet (sameEdges_of (hdep e) (fun x _ => ?_) ht hap') ?_ ?_
    · rw [hwait]
      exact ⟨And.left, fun h => ⟨h, fun _ => Ne.symm he⟩⟩
    · simp only [actor_resume]
      rw [hself, hl, if_neg he, hk, loops_notify hpc, if_neg he]
    · intro r hr
      rw [hnote] at hr
      split at hr
      · cases hr
        exact he
      · cases hr

/-- The threads of `F'` are those of `F`, but for one in which a constructor is about to append. -/
theorem exists_appending_cons {F F' : T → List Frame} {t : T} {y z : EventId × EventId}
    (hother : ∀ u, u ≠ t → F' u = F u) (hcons : appendings (F' t) = y :: appendings (F t)) :
    (∃ u, z ∈ appendings (F' u)) ↔ (∃ u, z ∈ appendings (F u)) ∨ z = y := by
  constructor
  · rintro ⟨u, hu⟩
    by_cases hut : u = t
    · subst hut
      rw [hcons] at hu
      rcases List.mem_cons.mp hu with hz | hz
      · exact .inr hz
      · exact .inl ⟨u, hz⟩
    · exact .inl ⟨u, hother u hut ▸ hu⟩
  · rintro (⟨u, hu⟩ | rfl)
    · refine ⟨u, ?_⟩
      by_cases hut : u = t
      · subst hut
        rw [hcons]
        exact List.mem_cons_of_mem y hu
      · rwa [hother u hut]
    · exact ⟨t, by rw [hcons]; exact List.mem_cons_self⟩

/-- A constructor has registered with `w`, and its event is about to get `w` as one to wait for. -/
theorem addDependent_change {t : T} {g : Bool} {d w : EventId} {rest : List EventId}
    {k : List Frame} (hk : s.threads t = .register d (w :: rest) :: k)
    (hst : (s.events w).status ≠ clComplete) :
    EdgeChange s (.resume t g) e ((s.setEvent w ((s.events w).addDependentEvent d).1).setStack t
      (.appendWait d w rest :: k)) := by
  have hnote : s.noted (.resume t g) = some (.taken w d) := by simp [State.noted, hk, hst]
  have hdep := Event.addDependentEvent_of_ne hst d
  have hwait : ∀ x, ((s.setEvent w ((s.events w).addDependentEvent d).1).events x).waitEvents =
      (s.events x).waitEvents := by
    intro x
    rw [hdep, State.setEvent_events, Function.update_apply]
    split <;> simp_all
  have hloops : loops e (.appendWait d w rest :: k) = loops e (s.threads t) := by
    rw [hk, loops_cons, loops_cons]
    rfl
  have happ : ∀ x, (∃ u, (x, e) ∈ appendings (Function.update s.threads t
      (.appendWait d w rest :: k) u)) ↔
      (∃ u, (x, e) ∈ appendings (s.threads u)) ∨ (x, e) = (d, w) := by
    intro x
    refine exists_appending_cons (t := t) (fun u hu => Function.update_of_ne hu ..) ?_
    rw [Function.update_self, hk, appendings_cons, appendings_cons]
    rfl
  have hwaits : ∀ x, Waits ((s.setEvent w ((s.events w).addDependentEvent d).1).setStack t
      (.appendWait d w rest :: k)) x e ↔ Waits s x e ∨ x = d ∧ e = w := by
    intro x
    unfold Waits
    simp only [State.setStack_events, State.setStack_threads, hwait, State.setEvent_threads, happ,
      Prod.mk.injEq]
    exact or_assoc.symm
  by_cases hw : w = e
  · subst hw
    refine .registered hk hst ?_ (fun x _ => ?_) (by simpa using hloops) hnote
    · simp [hdep]
    · rw [hwaits x]
      exact or_congr_right (and_iff_left rfl)
  · refine .quiet ⟨?_, fun x _ => ?_⟩ (by simpa using hloops) ?_
    · simp [Function.update_of_ne (Ne.symm hw)]
    · rw [hwaits x]
      exact or_iff_left fun h => hw h.2.symm
    · rw [hnote]
      intro r hr
      cases hr
      exact hw

/-- What a constructor is about to append, it appends. -/
theorem appendWait_same {t : T} {d w : EventId} {rest : List EventId} {k : List Frame}
    (hk : s.threads t = .appendWait d w rest :: k) :
    SameEdges s ((s.setEvent d ((s.events d).addWaitEvent w)).setStack t (.register d rest :: k))
      e := by
  have happ : ∀ x, (∃ u, (x, e) ∈ appendings (s.threads u)) ↔
      (∃ u, (x, e) ∈ appendings (Function.update s.threads t (.register d rest :: k) u)) ∨
        (x, e) = (d, w) := by
    intro x
    refine exists_appending_cons (t := t) (fun u hu => (Function.update_of_ne hu ..).symm) ?_
    rw [Function.update_self, hk, appendings_cons, appendings_cons]
    rfl
  have hwait : ∀ x, e ∈ (Function.update s.events d ((s.events d).addWaitEvent w) x).waitEvents ↔
      e ∈ (s.events x).waitEvents ∨ (x, e) = (d, w) := by
    intro x
    by_cases hx : x = d
    · subst hx
      simp [Event.addWaitEvent]
    · simp [hx]
  refine ⟨?_, fun x _ => ?_⟩
  · simp only [State.setStack_events, State.setEvent_events, Function.update_apply]
    split <;> simp_all [Event.addWaitEvent]
  · unfold Waits
    simp only [State.setStack_events, State.setEvent_events, State.setStack_threads,
      State.setEvent_threads, hwait, happ]
    tauto

/-- The loop over the dependents begins. -/
theorem helperNotify_change {t : T} {g : Bool} {f : StatusFrame} {k : List Frame}
    (hk : s.threads t = .setStatus f :: k) (hpc : f.pc = .helper)
    (hp : (s.events f.event).propagates f.status = true) :
    EdgeChange s (.resume t g) e ((s.setEvent f.event ((s.events f.event).setStatusHelper
      f.status)).setStack t (.setStatus { f with
        pc := .notify 0 (s.events f.event).dependentEvents.length } :: k)) := by
  have hedges : SameEdges s ((s.setEvent f.event ((s.events f.event).setStatusHelper
      f.status)).setStack t (.setStatus { f with
        pc := .notify 0 (s.events f.event).dependentEvents.length } :: k)) e :=
    sameEdges_of_update rfl rfl rfl rfl (by simp [hk, appendings_cons, Frame.appending])
  by_cases hf : f.event = e
  · subst hf
    refine .started hk hpc rfl hp hedges ?_ ?_ (by simp [State.noted, hk, hpc])
    · simp
    · simp [hk, loops_helper hpc, loops_cons, Frame.loop]
  · refine .quiet hedges ?_ (by simp [State.noted, hk, hpc])
    simp [hk, loops_helper hpc, loops_cons, Frame.loop, hf]

/-- The loop over the dependents ends. -/
theorem ended_change {t : T} {g : Bool} {f : StatusFrame} {i num : Nat} {k k' : List Frame}
    (hk : s.threads t = .setStatus f :: k) (hpc : f.pc = .notify i num) (hi : num ≤ i)
    (ht : s' = s.setStack t k') (hap : appendings k' = appendings (s.threads t))
    (hl : loops e k' = loops e k) : EdgeChange s (.resume t g) e s' := by
  subst ht
  have hedges : SameEdges s (s.setStack t k') e := sameEdges_of_events rfl rfl hap
  have hnote : s.noted (.resume t g) = none := by simp [State.noted, hk, hpc, Nat.not_lt.mpr hi]
  by_cases hf : f.event = e
  · exact .ended hk hpc hf hi hedges (by simpa using hl) hnote
  · refine .quiet hedges ?_ (by simp [hnote])
    simp [hk, loops_notify hpc, hf, hl]

theorem step_edge (h : Step s a s') (he : e < s.nextEvent) : EdgeChange s a e s' := by
  cases h
  case createUserEvent t hk =>
    refine .quiet ⟨?_, fun x hx => ?_⟩ rfl (by simp [State.noted])
    · rw [State.newEvent_events, Function.update_of_ne (Nat.ne_of_lt he)]
    · unfold Waits
      rw [State.newEvent_events, Function.update_of_ne (Nat.ne_of_lt hx)]
      rfl
  case setCallback t e' type c hk he' =>
    obtain ⟨l, m, hc⟩ := (s.events e').setCallback_eq type c
    refine .quiet ⟨?_, fun x hx => ?_⟩ rfl (by simp [State.noted])
    · rw [hc, State.setEvent_events, Function.update_apply]
      split <;> simp_all
    · unfold Waits
      rw [hc, State.setEvent_events, Function.update_apply]
      split <;> simp_all
  case construct t g type q ws k hk =>
    have hap : appendings ((if ws.isEmpty then Frame.queueEvent s.nextEvent
        else .register s.nextEvent ws) :: k) = appendings (s.threads t) := by
      rw [hk, appendings_cons, appendings_cons]
      split <;> rfl
    refine .quiet (sameEdges_of ?_ (fun x hx => ?_) rfl hap) ?_ (by simp [State.noted, hk])
    · simp [Function.update_of_ne (Nat.ne_of_lt he)]
    · simp [Function.update_of_ne (Nat.ne_of_lt hx)]
    · simp only [actor_resume, State.setStack_threads, Function.update_self]
      rw [hk, loops_cons, loops_cons]
      split <;> rfl
  case addDependent hk hst => exact addDependent_change hk hst
  case appendWait t g d w rest k hk =>
    refine .quiet (appendWait_same hk) ?_ (by simp [State.noted, hk])
    simp [hk, loops_cons, Frame.loop]
  case constructed t g d k hk =>
    refine .quiet (sameEdges_of_update rfl rfl rfl rfl ?_) ?_ (by simp [State.noted, hk])
    · simp [hk, appendings_cons, Frame.appending]
    · simp [hk, loops_cons, Frame.loop]
  case pushSubmit t g f x k hk hpc hx =>
    refine .quiet (sameEdges_of_update rfl rfl rfl rfl ?_) ?_ (by simp [State.noted, hk])
    · simp [hk, appendings_cons, Frame.appending]
    · simp [hk, loops_cons, Frame.loop]
  case helperNotify hk hpc hp => exact helperNotify_change hk hpc hp
  case helperReturn t g f k hk hpc hp =>
    refine .quiet (sameEdges_of_update rfl rfl rfl rfl ?_) ?_ (by simp [State.noted, hk, hpc])
    · simp [hk, appendings_cons, Frame.appending]
    · simp [hk, loops_helper hpc]
  case notifyBlocked hk hpc hi hd hm _ =>
    exact notified_change hk hpc hi hd hm rfl rfl (loops_notify rfl)
      (by simp [appendings_cons, Frame.appending])
  case notifyReady hk hpc hi hd hm _ _ _ =>
    exact notified_change hk hpc hi hd hm rfl rfl (by rw [loops_cons, loops_notify rfl]; rfl)
      (by simp [appendings_cons, Frame.appending])
  case notifyFailed hk hpc hi hd hm _ _ _ =>
    exact notified_change hk hpc hi hd hm rfl rfl (loops_terminate rfl)
      (by simp [appendings_cons, Frame.appending])
  case terminate t g f i num d q k hk hpc =>
    refine .quiet (sameEdges_of_update rfl rfl rfl rfl ?_) ?_ (by simp [State.noted, hk, hpc])
    · simp [hk, appendings_cons, Frame.appending]
    · simp only [actor_resume, State.pushDependent_threads, Function.update_self]
      rw [hk, loops_cons, loops_notify rfl, loops_terminate hpc]
      rfl
  case notifyReturn hk hpc hi _ =>
    exact ended_change hk hpc hi rfl (by simp [hk, appendings_cons, Frame.appending]) rfl
  case notifyPush hk hpc hi _ _ =>
    refine ended_change hk hpc hi rfl (by simp [hk, appendings_cons, Frame.appending]) ?_
    simp [loops_cons, Frame.loop]
  all_goals
    refine .quiet (sameEdges_of_events rfl rfl ?_) ?_ ?_
    · simp [appendings_cons, Frame.appending, *]
    · simp [loops_cons, Frame.loop, StatusFrame.call, *]
    · simp [State.noted, *]

end Shamrock.Scheduler
