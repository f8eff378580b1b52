import Shamrock.Scheduler.Traversal

/-! An event is started only after everything in its wait list has ended. -/
namespace Shamrock.Scheduler

open Transition

variable {T : Type} [DecidableEq T] {s s' : State T} {a : Action T} {x : EventId}

/-- Facts about one event that do not depend on who works on it. -/
structure EventOk (n : EventId) (ev : Event) : Prop where
  parent : ev.parent ≠ none → ev.type ≠ .user
  waitList : ∀ w ∈ ev.waitList, w < n
  status : ev.status ∈ ev.statuses
  dependents : ∀ d ∈ ev.dependentEvents, d < n

/-- What a pending call knows about its event. -/
def FrameOk (s : State T) : Frame → Prop
  | .check type _ ws _ => type ≠ .user ∧ ∀ w ∈ ws, w < s.nextEvent
  | .setStatus f => f.event < s.nextEvent ∧
      (f.status ≤ 0 ∨ (s.events f.event).type ≠ .user) ∧
      (f.pc ≠ .helper → f.status ≤ 0 ∧ f.status ∈ (s.events f.event).statuses)
  | _ => True

theorem frameOk_mono (h : Step s a s') {f : Frame} (hf : FrameOk s f) : FrameOk s' f := by
  have hn := step_nextEvent h
  cases f with
  | check type q ws rest => exact ⟨hf.1, fun w hw => Nat.lt_of_lt_of_le (hf.2 w hw) hn⟩
  | setStatus f =>
    obtain ⟨hlt, ht, he⟩ := hf
    refine ⟨Nat.lt_of_lt_of_le hlt hn, ?_, ?_⟩
    · rwa [(step_identity h hlt).type]
    · intro hpc
      exact ⟨(he hpc).1, step_statuses h hlt (he hpc).2⟩
  | _ => trivial

theorem propagates_terminal {ev : Event} {st : Int} (h : ev.propagates st = true)
    (hu : st ≤ 0 ∨ ev.type ≠ .user) : st ≤ 0 := by
  simp only [Event.propagates, Bool.or_eq_true, Bool.and_eq_true, decide_eq_true_eq] at h
  rcases h with h | ⟨_, h⟩
  · exact hu.resolve_right (not_not.mpr h)
  · simp [h]

omit [DecidableEq T] in
theorem Wf.event_lt (hw : Wf s) {q : QueueId} {i : Nat} {e : EventId}
    (he : (s.queues q).events[i]? = some e) :
    e < s.nextEvent ∧ (s.events e).parent = some q :=
  hw.owned.queued ((hw.owned.ledger q).mem_queued he)

omit [DecidableEq T] in
theorem Wf.handed_lt (hw : Wf s) {q : QueueId} {e : EventId} (he : e ∈ (s.queues q).handed) :
    e < s.nextEvent ∧ (s.events e).parent = some q :=
  hw.owned.queued ((hw.owned.ledger q).handed he)

/-- Identities of events and what pending calls know about them. -/
structure CallsOk (s : State T) : Prop where
  event : ∀ e, e < s.nextEvent → EventOk s.nextEvent (s.events e)
  frame : ∀ t, ∀ f ∈ s.threads t, FrameOk s f

omit [DecidableEq T] in
theorem CallsOk.head (hc : CallsOk s) {t : T} {f : Frame} {k : List Frame}
    (hk : s.threads t = f :: k) : FrameOk s f :=
  hc.frame t f (by simp [hk])

/-- Only the constructor of an event enters it as a dependent. -/
theorem dependents_step (h : Step s a s') (hlt : x < s.nextEvent) {d : EventId}
    (hd : d ∈ (s'.events x).dependentEvents) :
    d ∈ (s.events x).dependentEvents ∨
      ∃ rest k, s.threads a.actor = .register d (x :: rest) :: k := by
  have hev := step_event h x
  generalize s'.events x = ev at hev hd
  cases hev with
  | created hx _ => exact absurd hx (Nat.ne_of_lt hlt)
  | @callback type c _ =>
    obtain ⟨l, m, hl⟩ := (s.events x).setCallback_eq type c
    rw [hl] at hd
    exact .inl hd
  | dependent hk hne =>
    rw [Event.addDependentEvent_of_ne hne] at hd
    rcases List.mem_append.mp hd with hd | hd
    · exact .inl hd
    · rw [List.mem_singleton.mp hd]
      exact .inr ⟨_, _, hk⟩
  | _ => exact .inl hd

theorem eventOk_step (h : Step s a s') (hw : Wf s) (hc : CallsOk s) {e : EventId}
    (he : e < s'.nextEvent) : EventOk s'.nextEvent (s'.events e) := by
  have hn := step_nextEvent h
  have hev := step_event h e
  by_cases hlt : e < s.nextEvent
  · have hold := hc.event e hlt
    have hid := step_identity h hlt
    refine ⟨?_, ?_, ?_, ?_⟩
    · rw [hid.parent, hid.type]
      exact hold.parent
    · rw [hid.waitList]
      exact fun w hw => Nat.lt_of_lt_of_le (hold.waitList w hw) hn
    · generalize s'.events e = ev at hev
      cases hev with
      | created hx _ => exact absurd hx (Nat.ne_of_lt hlt)
      | @callback type c _ =>
        obtain ⟨l, m, hl⟩ := (s.events e).setCallback_eq type c
        rw [hl]
        exact hold.status
      | @dependent d _ _ _ _ =>
        obtain ⟨l, hl⟩ := (s.events e).addDependentEvent_eq d
        rw [hl]
        exact hold.status
      | submitted | reported | terminated => exact List.mem_cons_self
      | _ => exact hold.status
    · intro d hd
      rcases dependents_step h hlt hd with hd | ⟨rest, k, hk⟩
      · exact Nat.lt_of_lt_of_le (hold.dependents d hd) hn
      · have hb : Builds (s.threads a.actor) d := by simp [hk, Frame.building]
        exact Nat.lt_of_lt_of_le (hw.owned.builds hb).1 hn
  · cases h
    case createUserEvent =>
      have he : e = s.nextEvent := Nat.le_antisymm (Nat.lt_succ_iff.mp he) (not_lt.mp hlt)
      subst he
      simp only [State.newEvent_events, Function.update_self]
      constructor <;> simp [Event.userEvent]
    case construct hk =>
      have he : e = s.nextEvent := Nat.le_antisymm (Nat.lt_succ_iff.mp he) (not_lt.mp hlt)
      subst he
      have hf := hc.head hk
      simp only [State.setStack_events, State.newEvent_events, Function.update_self]
      refine ⟨fun _ => hf.1, ?_, by simp [Event.command], by simp [Event.command]⟩
      exact fun w hw => Nat.lt_of_lt_of_le (hf.2 w hw) hn
    all_goals exact absurd he hlt

theorem frameOk_step (h : Step s a s') (hw : Wf s) (hc : CallsOk s) :
    ∀ t, ∀ f ∈ s'.threads t, FrameOk s' f := by
  apply frames_step h hc.frame (fun f hf => frameOk_mono h hf)
  intro hold
  cases h
  case createUserEvent => exact hold
  case setCallback => exact hold
  all_goals
    simp only [actor_resume, actor_setUserEventStatus, actor_enqueue, actor_flush, actor_finish,
      actor_deviceSetStatus, State.setStack_threads, State.pushDependent_threads,
      Function.update_self, List.forall_mem_cons, *] at hold ⊢
  case setUserEventStatus he hu hst _ =>
    exact ⟨⟨he, .inl hst, fun hp => absurd rfl hp⟩, hold⟩
  case enqueue ht hws =>
    refine ⟨⟨ht, fun w hmem => ?_⟩, hold⟩
    have := List.all_eq_true.mp hws w hmem
    simp only [Bool.and_eq_true, decide_eq_true_eq] at this
    exact this.1
  case flush => exact ⟨trivial, hold⟩
  case finish => exact ⟨trivial, trivial, hold⟩
  case deviceSetStatus e st q hk hp hh hst =>
    have he := (hw.handed_lt hh).1
    refine ⟨⟨he, .inr ((hc.event e he).parent ?_), fun hp => absurd rfl hp⟩, hold⟩
    simp [hp]
  case construct hk =>
    refine ⟨?_, hold.2⟩
    split <;> trivial
  case pushTake he _ _ =>
    exact ⟨⟨(hw.event_lt he).1, .inl (le_refl 0), fun hp => absurd rfl hp⟩, trivial, hold.2⟩
  case helperNotify f k hk hpc hp =>
    have hf := hc.head hk
    have hst := propagates_terminal hp hf.2.1
    refine ⟨⟨hf.1, .inl hst, fun _ => ⟨hst, ?_⟩⟩, hold.2⟩
    simp
  case notifyBlocked hk hpc _ _ _ _ =>
    have hp := hold.1.2.2 (by simp [hpc])
    exact ⟨⟨hold.1.1, hold.1.2.1, fun _ => hp⟩, hold.2⟩
  case notifyReady hk hpc _ _ _ _ _ _ =>
    have hp := hold.1.2.2 (by simp [hpc])
    exact ⟨trivial, ⟨hold.1.1, hold.1.2.1, fun _ => hp⟩, hold.2⟩
  case notifyFailed hk hpc _ _ _ _ _ _ =>
    have hp := hold.1.2.2 (by simp [hpc])
    exact ⟨⟨hold.1.1, hold.1.2.1, fun _ => hp⟩, hold.2⟩
  case terminate hk hpc =>
    have hp := hold.1.2.2 (by simp [hpc])
    exact ⟨trivial, ⟨hold.1.1, hold.1.2.1, fun _ => hp⟩, hold.2⟩
  all_goals first | exact hold.2 | exact ⟨trivial, hold.2⟩ | exact ⟨hold.1, hold.2⟩

theorem callsOk_step (h : Step s a s') (hw : Wf s) (hc : CallsOk s) : CallsOk s' where
  event _ he := eventOk_step h hw hc he
  frame := frameOk_step h hw hc

omit [DecidableEq T] in
theorem callsOk_initial (o : QueueId → Bool) : CallsOk (initial T o) where
  event e he := absurd he (Nat.not_lt_zero e)
  frame t f hf := by simp [initial] at hf

theorem callsOk_reachable (h : Reachable (scheduler T) s) : CallsOk s := by
  apply h.invariant
  · rintro _ ⟨o, rfl⟩
    exact callsOk_initial o
  · intro s a s' hr hc ht
    exact callsOk_step (step_cases ht) (wf_reachable hr) hc

/-- The constructor still has to look at `w` for `e`, or to enter it in the wait list. -/
def Frame.Awaits (e w : EventId) : Frame → Prop
  | .register e' rest => e' = e ∧ w ∈ rest
  | .appendWait e' w' rest => e' = e ∧ (w = w' ∨ w ∈ rest)
  | _ => False

/-- Everything an event was given to wait for has ended, is in its wait list, or is about to
be entered there. -/
def WaitInv (s : State T) : Prop :=
  ∀ e, e < s.nextEvent → ∀ w ∈ (s.events e).waitList,
    w ∈ (s.events e).waitEvents ∨ (s.events w).Ended ∨ ∃ t, ∃ f ∈ s.threads t, f.Awaits e w

theorem awaits_stack {k : List Frame} (hs : StackShape k) {f : Frame} (hf : f ∈ k)
    {e w : EventId} (ha : f.Awaits e w) : k = [f] := by
  cases k with
  | nil => cases hf
  | cons g k =>
    rcases List.mem_cons.mp hf with rfl | hf
    · cases f <;> first | exact ha.elim | (cases hs; rfl)
    · rcases stackShape_tail hs f hf with hn | ⟨q, rfl⟩
      · cases f <;> first | exact ha.elim | exact hn.elim
      · exact ha.elim

/-- The constructor of `e` enters `w` in the wait list, unless it finds it complete. -/
theorem awaits_step (h : Step s a s') (hw : Wf s) {t : T} {e w : EventId} {f : Frame}
    (hf : f ∈ s.threads t) (ha : f.Awaits e w) :
    w ∈ (s'.events e).waitEvents ∨ (s.events w).status = clComplete ∨
      ∃ t, ∃ f ∈ s'.threads t, f.Awaits e w := by
  by_cases ht : t = a.actor
  · subst ht
    have hk := awaits_stack (hw.shape _) hf ha
    clear hf
    cases h
    all_goals
      simp only [actor_resume, actor_createUserEvent, actor_setUserEventStatus,
        actor_setCallback, actor_enqueue, actor_flush, actor_finish, actor_deviceSetStatus,
        List.cons.injEq, reduceCtorEq, *] at hk
    all_goals try (obtain ⟨rfl, rfl⟩ := hk)
    case addDependent t g e' w' rest hk hne =>
      obtain ⟨rfl, hm⟩ := ha
      refine .inr (.inr ⟨t, .appendWait e' w' rest, by simp, rfl, List.mem_cons.mp hm⟩)
    case addDependentRefused t g e' w' rest hst hk =>
      obtain ⟨rfl, hm⟩ := ha
      rcases List.mem_cons.mp hm with rfl | hm
      · exact .inr (.inl hst)
      · exact .inr (.inr ⟨t, .register e' rest, by simp, rfl, hm⟩)
    case appendWait t g e' w' rest hk =>
      obtain ⟨rfl, rfl | hm⟩ := ha
      · exact .inl (by simp)
      · exact .inr (.inr ⟨t, .register e' rest, by simp, rfl, hm⟩)
    case constructed =>
      obtain ⟨rfl, hm⟩ := ha
      cases hm
    all_goals exact ha.elim
  · exact .inr (.inr ⟨t, f, by rwa [step_threads_of_ne h ht], ha⟩)

/-- The constructor of a new event still has to look at all of its wait list. -/
theorem new_event_awaits (h : Step s a s') {e w : EventId} (hlt : ¬ e < s.nextEvent)
    (he : e < s'.nextEvent) (hwl : w ∈ (s'.events e).waitList) :
    ∃ t, ∃ f ∈ s'.threads t, f.Awaits e w := by
  cases h
  case createUserEvent =>
    have he : e = s.nextEvent := Nat.le_antisymm (Nat.lt_succ_iff.mp he) (not_lt.mp hlt)
    subst he
    simp [Event.userEvent] at hwl
  case construct t g type q ws k hk =>
    have he : e = s.nextEvent := Nat.le_antisymm (Nat.lt_succ_iff.mp he) (not_lt.mp hlt)
    subst he
    have hwl : w ∈ ws := by simpa [Event.command] using hwl
    refine ⟨t, .register s.nextEvent ws, ?_, rfl, hwl⟩
    cases ws with
    | nil => cases hwl
    | cons => simp
  all_goals exact absurd he hlt

theorem waitInv_step (h : Step s a s') (hw : Wf s) (hc : CallsOk s) (hi : WaitInv s) :
    WaitInv s' := by
  intro e he w hwl
  by_cases hlt : e < s.nextEvent
  · rw [(step_identity h hlt).waitList] at hwl
    have hwlt := (hc.event e hlt).waitList w hwl
    rcases hi e hlt w hwl with hmem | hend | ⟨t, f, hf, ha⟩
    · have hev := step_waitEvents h hlt
      generalize (s'.events e).waitEvents = l at hev
      cases hev with
      | same => exact .inl hmem
      | waiting => exact .inl (List.mem_append_left _ hmem)
      | @notified f i num k hk hpc _ _ _ =>
        by_cases hwf : w = f.event
        · -- only an event that has ended notifies its dependents
          subst hwf
          obtain ⟨hle, hst⟩ := (hc.head hk).2.2 (by simp [hpc])
          exact .inr (.inl (step_ended h hwlt ⟨f.status, hst, hle⟩))
        · exact .inl (by simp [hmem, hwf])
    · exact .inr (.inl (step_ended h hwlt hend))
    · refine (awaits_step h hw hf ha).imp_right (Or.imp_left fun hst => ?_)
      exact step_ended h hwlt ⟨_, (hc.event w hwlt).status, le_of_eq hst⟩
  · exact .inr (.inr (new_event_awaits h hlt he hwl))

theorem waitInv_reachable (h : Reachable (scheduler T) s) : WaitInv s := by
  apply h.invariant
  · rintro _ ⟨o, rfl⟩ e he
    exact absurd he (Nat.not_lt_zero e)
  · intro s a s' hr hi ht
    exact waitInv_step (step_cases ht) (wf_reachable hr) (callsOk_reachable hr) hi

omit [DecidableEq T] in
/-- An event found in the list of a queue has left its constructor. -/
theorem Wf.not_awaits (hw : Wf s) {q : QueueId} {i : Nat} {e : EventId}
    (he : (s.queues q).events[i]? = some e) {t : T} {f : Frame} (hf : f ∈ s.threads t) :
    f.building ≠ some e := by
  intro hb
  exact (hw.owned.builds ⟨f, hf, hb⟩).2.2 q ((hw.owned.ledger q).mem_queued he)

theorem awaits_building {f : Frame} {e w : EventId} (h : f.Awaits e w) :
    f.building = some e := by
  cases f <;> first | exact h.elim | exact congrArg some h.1

omit [DecidableEq T] in
/-- With nothing left in its wait list, an event of the queue has only ended dependencies. -/
theorem WaitInv.ended (hi : WaitInv s) (hw : Wf s) {q : QueueId} {i : Nat} {e : EventId}
    (he : (s.queues q).events[i]? = some e) (hn : (s.events e).waitEvents = []) :
    ∀ w ∈ (s.events e).waitList, (s.events w).Ended := by
  intro w hmem
  rcases hi e (hw.event_lt he).1 w hmem with hx | hx | ⟨t, f, hf, ha⟩
  · simp [hn] at hx
  · exact hx
  · exact absurd (awaits_building ha) (hw.not_awaits he hf)

/-- Between the wait-list test and the hand-over nothing is added to the wait list. -/
def SubmitInv (s : State T) : Prop :=
  ∀ t f k e, s.threads t = .push f :: k → f.pc = .submit ∨ f.pc = .handOver →
    f.event (s.queues f.queue) = some e → (s.events e).waitEvents = []

/-- An empty wait list of a queued event stays empty. -/
theorem waitEvents_nil_step (h : Step s a s') (hw : Wf s) {q : QueueId} {i : Nat} {e : EventId}
    (he : (s.queues q).events[i]? = some e) (hn : (s.events e).waitEvents = []) :
    (s'.events e).waitEvents = [] := by
  have hev := step_waitEvents h (hw.event_lt he).1
  generalize (s'.events e).waitEvents = l at hev
  cases hev with
  | same => exact hn
  | waiting hk => exact absurd rfl (hw.not_awaits he (by rw [hk]; exact List.mem_cons_self))
  | notified => simp [hn]

theorem submitInv_step (h : Step s a s') (hw : Wf s) (hi : SubmitInv s) : SubmitInv s' := by
  intro t f k e hk hpc he
  by_cases ht : t = a.actor
  · subst ht
    cases push_top h hw hk with
    | called hc => simp [hc] at hpc
    | entered _ _ _ hf => simp [hf] at hpc
    | erased _ _ _ hf => simp [hf] at hpc
    | handed _ _ _ hf => simp [hf] at hpc
    | moved hk' hm hq hev =>
      rw [pushMove_queue hm, hq] at he
      cases hm with
      | pushable _ he' hn _ =>
        obtain rfl : _ = e := Option.some.inj (he'.symm.trans he)
        rw [hev]
        exact hn
      | _ => simp_all
    | submitted hk' hpc' he' hf hq hev =>
      subst hf
      rw [hq] at he
      obtain rfl : _ = e := Option.some.inj (he'.symm.trans he)
      rw [hev]
      simpa using hi _ _ _ _ hk' (.inl hpc') he'
  · rw [step_threads_of_ne h ht] at hk
    have hm := hw.mutex.of_push hk (by rcases hpc with hpc | hpc <;> simp [hpc])
    obtain ⟨l, hl⟩ := step_queue_locked h hw.mutex hm ht
    rw [hl] at he
    exact waitEvents_nil_step h hw he (hi t f k e hk hpc he)

theorem submitInv_reachable (h : Reachable (scheduler T) s) : SubmitInv s := by
  apply h.invariant
  · rintro _ ⟨o, rfl⟩ t f k e hk
    simp [initial] at hk
  · intro s a s' hr hi ht
    exact submitInv_step (step_cases ht) (wf_reachable hr) hi

/-- Dependency order: when an event is handed to the device, or taken out of the list as
instantaneous, every event of its wait list has already had a terminal status. -/
theorem dependencies_ended_before_start (h : Reachable (scheduler T) s) (hs : step s a = some s')
    {q : QueueId} {e : EventId}
    (he : (s'.queues q).handed = (s.queues q).handed ++ [e] ∨
      (s'.queues q).taken = (s.queues q).taken ++ [e]) :
    ∀ w ∈ (s.events e).waitList, (s.events w).Ended := by
  have hw := wf_reachable h
  obtain ⟨f, k, hk, rfl, hev, hpc⟩ := started_step (step_cases hs) hw.mutex he
  apply (waitInv_reachable h).ended hw hev
  rcases hpc with ⟨hpc, -⟩ | ⟨-, hn, -⟩
  · exact submitInv_reachable h _ _ _ _ hk (.inr hpc) hev
  · exact hn

/-- A read that waits for a user event is handed over once the user event is complete. -/
theorem read_handed_after_user_event :
    ∃ s s' : State Bool, Reachable (scheduler Bool) s ∧
      (s'.queues 0).handed = (s.queues 0).handed ++ [1] ∧ (s.events 1).waitList = [0] ∧
      (s.events 0).Ended := by
  obtain ⟨s, hr, hc⟩ := exists_run (fun _ => true)
    (List.flatten [[.createUserEvent true, .enqueue true .readBuffer 0 [0]], resumes true 13,
      [.setUserEventStatus true 0 0], resumes true 8])
    (fun s => (step s (.resume true false)).any fun s' =>
      (s'.queues 0).handed = (s.queues 0).handed ++ [1] ∧ (s.events 1).waitList = [0])
    (by decide +kernel)
  obtain ⟨s', hs, hc⟩ := (Option.any_eq_true _ _).mp hc
  obtain ⟨hh, hl⟩ := of_decide_eq_true hc
  refine ⟨s, s', hr, hh, hl, ?_⟩
  exact dependencies_ended_before_start hr hs (.inl hh) 0 (by simp [hl])

end Shamrock.Scheduler
