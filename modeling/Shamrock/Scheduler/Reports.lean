import Shamrock.Scheduler.Dependency

/-! Who reports a status on which event: the device on events it was given, the queue itself on
those it took as instantaneous, the application on user events. -/
namespace Shamrock.Scheduler

open Transition

variable {T : Type} [DecidableEq T] {s s' : State T} {a : Action T} {q : QueueId} {x : EventId}

section History

variable (h : Step s a s') (hm : MutexInv s)
include h hm

theorem handed_step (hx : x ∈ (s'.queues q).handed) :
    x ∈ (s.queues q).handed ∨ ∃ f k, s.threads a.actor = .push f :: k ∧ f.queue = q ∧
      f.pc = .handOver ∧ f.event (s.queues q) = some x := by
  have hc := step_ledger h hm q
  have hl : x ∈ (s'.queues q).ledger.handed := hx
  generalize (s'.queues q).ledger = l at hc hl
  cases hc with
  | hand hk hq hpc he =>
    rcases List.mem_append.mp hl with hl | hl
    · exact .inl hl
    · rw [List.mem_singleton.mp hl]
      exact .inr ⟨_, _, hk, hq, hpc, he⟩
  | same => exact .inl hl
  | append => exact .inl hl
  | erase => exact .inl hl
  | take => exact .inl hl

theorem taken_step (hx : x ∈ (s'.queues q).taken) :
    x ∈ (s.queues q).taken ∨ ∃ f k, s.threads a.actor = .push f :: k ∧ f.queue = q ∧
      f.pc = .examineWait ∧ f.event (s.queues q) = some x ∧ (s.events x).waitEvents = [] ∧
      (s.events x).type.isInstantaneous = true := by
  have hc := step_ledger h hm q
  have hl : x ∈ (s'.queues q).ledger.taken := hx
  generalize (s'.queues q).ledger = l at hc hl
  cases hc with
  | take hk hq hpc he hn hin =>
    rcases List.mem_append.mp hl with hl | hl
    · exact .inl hl
    · rw [List.mem_singleton.mp hl]
      exact .inr ⟨_, _, hk, hq, hpc, he, hn, hin⟩
  | same => exact .inl hl
  | append => exact .inl hl
  | erase => exact .inl hl
  | hand => exact .inl hl

theorem handed_mono (q : QueueId) : (s.queues q).handed ⊆ (s'.queues q).handed := by
  have hc := step_ledger h hm q
  change _ ⊆ (s'.queues q).ledger.handed
  generalize (s'.queues q).ledger = l at hc
  cases hc with
  | hand => exact List.subset_append_left _ _
  | _ => exact List.Subset.refl _

theorem taken_mono (q : QueueId) : (s.queues q).taken ⊆ (s'.queues q).taken := by
  have hc := step_ledger h hm q
  change _ ⊆ (s'.queues q).ledger.taken
  generalize (s'.queues q).ledger = l at hc
  cases hc with
  | take => exact List.subset_append_left _ _
  | _ => exact List.Subset.refl _

end History

/-- Where a pending call of `setStatus` comes from. -/
inductive StatusOrigin (s : State T) (a : Action T) (t : T) (f : StatusFrame) : Prop
  | old {g : StatusFrame} : .setStatus g ∈ s.threads t → g.event = f.event →
      g.status = f.status → StatusOrigin s a t f
  | user : a = .setUserEventStatus t f.event f.status → (s.events f.event).type = .user →
      StatusOrigin s a t f
  | device {q : QueueId} : a = .deviceSetStatus t f.event f.status →
      (s.events f.event).parent = some q → f.event ∈ (s.queues q).handed →
      StatusOrigin s a t f
  | taken {g : PushFrame} {k : List Frame} : s.threads t = .push g :: k → g.pc = .examineWait →
      g.event (s.queues g.queue) = some f.event → f.status = clComplete → StatusOrigin s a t f

omit [DecidableEq T] in
theorem StatusOrigin.below {t : T} {f : StatusFrame} {g : Frame} {k : List Frame}
    (hk : s.threads t = g :: k) (hf : .setStatus f ∈ k) : StatusOrigin s a t f :=
  .old (by rw [hk]; exact List.mem_cons_of_mem _ hf) rfl rfl

omit [DecidableEq T] in
/-- The top call may have moved on to its next critical section. -/
theorem StatusOrigin.changed {t : T} {f g g' : StatusFrame} {k : List Frame}
    (hk : s.threads t = .setStatus g :: k) (hf : f = g' ∨ .setStatus f ∈ k)
    (he : g'.event = g.event) (hs : g'.status = g.status) : StatusOrigin s a t f := by
  rcases hf with rfl | hf
  · exact .old (by rw [hk]; exact List.mem_cons_self) he.symm hs.symm
  · exact .below hk hf

theorem status_origin (h : Step s a s') {t : T} {f : StatusFrame}
    (hf : .setStatus f ∈ s'.threads t) : StatusOrigin s a t f := by
  by_cases ht : t = a.actor
  swap
  · rw [step_threads_of_ne h ht] at hf
    exact .old hf rfl rfl
  subst ht
  cases h
  case createUserEvent => exact .old hf rfl rfl
  case setCallback => exact .old hf rfl rfl
  all_goals
    simp only [actor_resume, actor_setUserEventStatus, actor_enqueue, actor_flush, actor_finish,
      actor_deviceSetStatus, State.setStack_threads, State.pushDependent_threads,
      Function.update_self, List.mem_cons, List.not_mem_nil, or_false, false_or, reduceCtorEq,
      Frame.setStatus.injEq] at hf ⊢
  case setUserEventStatus hu _ _ =>
    subst hf
    exact .user rfl hu
  case deviceSetStatus hp hh _ =>
    subst hf
    exact .device rfl hp hh
  case construct hk =>
    have hmem := hf.resolve_left (by split <;> simp)
    exact .below hk hmem
  case pushTake hk hpc he _ _ =>
    rcases hf with rfl | hf
    · exact .taken hk hpc he rfl
    · exact .below hk hf
  case helperNotify hk _ _ => exact .changed hk hf rfl rfl
  case notifyBlocked hk _ _ _ _ _ => exact .changed hk hf rfl rfl
  case notifyReady hk _ _ _ _ _ _ _ => exact .changed hk hf rfl rfl
  case notifyFailed hk _ _ _ _ _ _ _ => exact .changed hk hf rfl rfl
  case terminate hk _ => exact .changed hk hf rfl rfl
  all_goals
    refine .old (g := f) ?_ rfl rfl
    simp_all

/-- A pending report has the device, the queue or the application behind it. -/
def ReportOk (s : State T) : Frame → Prop
  | .setStatus f =>
    (f.pc = .helper → (s.events f.event).type = .user ∧ f.status ≤ 0 ∨
      ∃ q, (s.events f.event).parent = some q ∧
        (f.event ∈ (s.queues q).handed ∧ (f.status = clRunning ∨ f.status ≤ 0) ∨
          f.event ∈ (s.queues q).taken ∧ f.status = clComplete)) ∧
    (f.pc ≠ .helper → (s.events f.event).type = .user ∨ f.status = clComplete) ∧
    ∀ i num d q, f.pc = .terminate i num d q →
      f.status < 0 ∧ d < s.nextEvent ∧ (s.events d).parent = some q
  | _ => True

def ReportInv (s : State T) : Prop := ∀ t, ∀ f ∈ s.threads t, ReportOk s f

theorem reportOk_mono (h : Step s a s') (hw : Wf s) {f : Frame} (hok : FrameOk s f)
    (hf : ReportOk s f) : ReportOk s' f := by
  cases f with
  | setStatus f =>
    have hid := step_identity h hok.1
    refine ⟨fun hpc => ?_, ?_, ?_⟩
    · rw [hid.type, hid.parent]
      refine (hf.1 hpc).imp_right ?_
      rintro ⟨q, hp, hm⟩
      refine ⟨q, hp, hm.imp ?_ ?_⟩
      · exact fun hm => ⟨handed_mono h hw.mutex q hm.1, hm.2⟩
      · exact fun hm => ⟨taken_mono h hw.mutex q hm.1, hm.2⟩
    · rw [hid.type]
      exact hf.2.1
    · intro i num d q hpc
      obtain ⟨hst, hd, hp⟩ := hf.2.2 i num d q hpc
      exact ⟨hst, Nat.lt_of_lt_of_le hd (step_nextEvent h), (step_identity h hd).parent.trans hp⟩
  | _ => trivial

theorem reportInv_step (h : Step s a s') (hw : Wf s) (hc : CallsOk s) (hi : ReportInv s) :
    ReportInv s' := by
  have hboth : ∀ t, ∀ f ∈ s.threads t, FrameOk s f ∧ ReportOk s f :=
    fun t f hf => ⟨hc.frame t f hf, hi t f hf⟩
  have hmono : ∀ f, FrameOk s f ∧ ReportOk s f → FrameOk s' f ∧ ReportOk s' f :=
    fun f hf => ⟨frameOk_mono h hf.1, reportOk_mono h hw hf.1 hf.2⟩
  have hframe := frameOk_step h hw hc
  suffices hnew : (∀ f ∈ s.threads a.actor, ReportOk s' f) →
      ∀ f ∈ s'.threads a.actor, ReportOk s' f by
    have hall := frames_step (P := fun s f => FrameOk s f ∧ ReportOk s f) h hboth hmono
      fun hold f hf => ⟨hframe _ f hf, hnew (fun g hg => (hold g hg).2) f hf⟩
    exact fun t f hf => (hall t f hf).2
  intro hold
  cases h
  case createUserEvent => exact hold
  case setCallback => exact hold
  all_goals
    simp only [actor_resume, actor_setUserEventStatus, actor_enqueue, actor_flush, actor_finish,
      actor_deviceSetStatus, State.setStack_threads, State.pushDependent_threads,
      Function.update_self, List.forall_mem_cons, *] at hold ⊢
  case setUserEventStatus hu hst _ =>
    exact ⟨⟨fun _ => .inl ⟨hu, hst⟩, fun hp => absurd rfl hp, by simp [StatusFrame.call]⟩, hold⟩
  case enqueue => exact ⟨trivial, hold⟩
  case flush => exact ⟨trivial, hold⟩
  case finish => exact ⟨trivial, trivial, hold⟩
  case deviceSetStatus q _ hp hh hst =>
    exact ⟨⟨fun _ => .inr ⟨q, hp, .inl ⟨hh, hst⟩⟩, fun hp => absurd rfl hp,
      by simp [StatusFrame.call]⟩, hold⟩
  case construct hk =>
    refine ⟨?_, hold.2⟩
    split <;> trivial
  case pushTake f e k hk hpc he hn hin =>
    refine ⟨⟨fun _ => .inr ⟨f.queue, (hw.event_lt he).2, .inr ⟨?_, rfl⟩⟩, fun hp => absurd rfl hp,
      by simp [StatusFrame.call]⟩, trivial, hold.2⟩
    simp only [State.setStack_queues, State.setQueue_queues, Function.update_self,
      wakeAndUnlock_taken]
    exact List.mem_append_right _ (List.mem_singleton.mpr rfl)
  case helperNotify f k hk hpc hp =>
    refine ⟨⟨by simp, fun _ => ?_, by simp⟩, hold.2⟩
    simp only [Event.propagates, Bool.or_eq_true, Bool.and_eq_true, decide_eq_true_eq] at hp
    simpa using hp.imp_right And.right
  case notifyBlocked hk hpc _ _ _ _ =>
    exact ⟨⟨by simp, fun _ => hold.1.2.1 (by simp [hpc]), by simp⟩, hold.2⟩
  case notifyReady hk hpc _ _ _ _ _ _ =>
    exact ⟨trivial, ⟨by simp, fun _ => hold.1.2.1 (by simp [hpc]), by simp⟩, hold.2⟩
  case notifyFailed f i num d q k hk hpc hi' hd hm hn hp hst =>
    refine ⟨⟨by simp, fun _ => hold.1.2.1 (by simp [hpc]), ?_⟩, hold.2⟩
    intro _ _ d' q' hpc'
    obtain ⟨-, -, rfl, rfl⟩ := StatusPC.terminate.inj hpc'
    have hlt := (hc.event f.event (hc.head hk).1).dependents d (List.mem_of_getElem? hd)
    exact ⟨hst, hlt, by simp [Event.removeWaitEvent, hp]⟩
  case terminate hk hpc =>
    exact ⟨trivial, ⟨by simp, fun _ => hold.1.2.1 (by simp [hpc]), by simp⟩, hold.2⟩
  all_goals first | exact hold.2 | exact ⟨trivial, hold.2⟩

theorem reportInv_reachable (h : Reachable (scheduler T) s) : ReportInv s := by
  apply h.invariant
  · rintro _ ⟨o, rfl⟩ t f hf
    simp [initial] at hf
  · intro s a s' hr hi ht
    exact reportInv_step (step_cases ht) (wf_reachable hr) (callsOk_reachable hr) hi

/-- The device is given commands, the queue takes dummies. -/
structure KindInv (s : State T) : Prop where
  pushable : ∀ t f k e, s.threads t = .push f :: k → f.pc = .submit ∨ f.pc = .handOver →
    f.event (s.queues f.queue) = some e → (s.events e).type.isInstantaneous = false
  handed : ∀ q, ∀ e ∈ (s.queues q).handed, (s.events e).type.isInstantaneous = false
  taken : ∀ q, ∀ e ∈ (s.queues q).taken, (s.events e).type.isInstantaneous = true

theorem pushable_step (h : Step s a s') (hw : Wf s) (hi : KindInv s) {t : T} {f : PushFrame}
    {k : List Frame} {e : EventId} (hk : s'.threads t = .push f :: k)
    (hpc : f.pc = .submit ∨ f.pc = .handOver) (he : f.event (s'.queues f.queue) = some e) :
    (s'.events e).type.isInstantaneous = false := by
  by_cases ht : t = a.actor
  · subst ht
    cases push_top h hw hk with
    | called hc => simp [hc] at hpc
    | entered _ _ _ hf => simp [hf] at hpc
    | erased _ _ _ hf => simp [hf] at hpc
    | handed _ _ _ hf => simp [hf] at hpc
    | moved hk' hm hq hev =>
      rw [pushMove_queue hm, hq] at he
      cases hm with
      | pushable _ he' _ hin =>
        obtain rfl : _ = e := Option.some.inj (he'.symm.trans he)
        rw [hev]
        exact hin
      | _ => simp_all
    | submitted hk' hpc' he' hf hq hev =>
      subst hf
      rw [hq] at he
      rw [(step_identity h (hw.event_lt he).1).type]
      exact hi.pushable _ _ _ _ hk' (.inl hpc') he
  · rw [step_threads_of_ne h ht] at hk
    have hm := hw.mutex.of_push hk (by rcases hpc with hpc | hpc <;> simp [hpc])
    obtain ⟨l, hl⟩ := step_queue_locked h hw.mutex hm ht
    rw [hl] at he
    rw [(step_identity h (hw.event_lt he).1).type]
    exact hi.pushable t f k e hk hpc he

theorem kindInv_step (h : Step s a s') (hw : Wf s) (hi : KindInv s) : KindInv s' where
  pushable _ _ _ _ hk hpc he := pushable_step h hw hi hk hpc he
  handed := by
    intro q e he
    rcases handed_step h hw.mutex he with he | ⟨f, k, hk, rfl, hpc, he⟩
    · rw [(step_identity h (hw.handed_lt he).1).type]
      exact hi.handed q e he
    · rw [(step_identity h (hw.event_lt he).1).type]
      exact hi.pushable _ _ _ _ hk (.inr hpc) he
  taken := by
    intro q e he
    rcases taken_step h hw.mutex he with he | ⟨f, k, hk, rfl, hpc, he, -, hin⟩
    · have hlt := (hw.owned.queued (hw.erased_queued ((hw.owned.ledger q).taken he))).1
      rw [(step_identity h hlt).type]
      exact hi.taken q e he
    · rw [(step_identity h (hw.event_lt he).1).type]
      exact hin

theorem kindInv_reachable (h : Reachable (scheduler T) s) : KindInv s := by
  apply h.invariant
  · rintro _ ⟨o, rfl⟩
    constructor <;> simp [initial, Queue.empty]
  · intro s a s' hr hi ht
    exact kindInv_step (step_cases ht) (wf_reachable hr) hi

/-- A thread is between submitting `x` and giving it to the device. -/
def HandingOver (s : State T) (q : QueueId) (x : EventId) : Prop :=
  ∃ t f k, s.threads t = .push f :: k ∧ f.queue = q ∧ f.pc = .handOver ∧
    f.event (s.queues q) = some x

theorem handingOver_step (h : Step s a s') (hw : Wf s) (hx : HandingOver s q x) :
    HandingOver s' q x ∨ x ∈ (s'.queues q).handed := by
  obtain ⟨t, f, k, hk, rfl, hpc, he⟩ := hx
  by_cases ht : t = a.actor
  · subst ht
    right
    cases push_next h hk with
    | handed _ he' =>
      obtain rfl : _ = x := Option.some.inj (he'.symm.trans he)
      simp [Queue.pushEvent]
    | moved hm => cases hm <;> simp_all
    | _ => simp_all
  · left
    obtain ⟨l, hl⟩ := step_queue_locked h hw.mutex (hw.mutex.of_push hk (by simp [hpc])) ht
    exact ⟨t, f, k, by rwa [step_threads_of_ne h ht], rfl, hpc, by rw [hl]; exact he⟩

/-- An event that was neither given to the device nor taken has not been started, unless it
failed or is just being handed over. -/
def StartInv (s : State T) : Prop :=
  ∀ q x, x < s.nextEvent → (s.events x).parent = some q → x ∉ (s.queues q).handed →
    x ∉ (s.queues q).taken →
    (s.events x).status = clQueued ∨ (s.events x).status < 0 ∨ HandingOver s q x

/-- The history of a new event holds its first status, which is not terminal. -/
theorem new_event_history (h : Step s a s') (hlt : ¬ x < s.nextEvent) (hx : x < s'.nextEvent) :
    (s'.events x).statuses = [(s'.events x).status] ∧ 0 < (s'.events x).status := by
  cases h
  case createUserEvent =>
    have hx : x = s.nextEvent := Nat.le_antisymm (Nat.lt_succ_iff.mp hx) (not_lt.mp hlt)
    simp only [hx, State.newEvent_events, Function.update_self]
    decide
  case construct =>
    have hx : x = s.nextEvent := Nat.le_antisymm (Nat.lt_succ_iff.mp hx) (not_lt.mp hlt)
    simp only [hx, State.setStack_events, State.newEvent_events, Function.update_self]
    exact ⟨rfl, show 0 < clQueued by decide⟩
  all_goals exact absurd hx hlt

theorem new_event_statuses (h : Step s a s') (hlt : ¬ x < s.nextEvent) (hx : x < s'.nextEvent) :
    ∀ st ∈ (s'.events x).statuses, 0 < st := by
  obtain ⟨hss, hpos⟩ := new_event_history h hlt hx
  intro st hst
  rw [hss] at hst
  exact List.mem_singleton.mp hst ▸ hpos

theorem startInv_new (h : Step s a s') {e : EventId} (hlt : ¬ e < s.nextEvent)
    (he : e < s'.nextEvent) {q : QueueId} (hp : (s'.events e).parent = some q) :
    (s'.events e).status = clQueued := by
  cases h
  case createUserEvent =>
    have he : e = s.nextEvent := Nat.le_antisymm (Nat.lt_succ_iff.mp he) (not_lt.mp hlt)
    simp [he, Event.userEvent] at hp
  case construct =>
    have he : e = s.nextEvent := Nat.le_antisymm (Nat.lt_succ_iff.mp he) (not_lt.mp hlt)
    simp [he, Event.command]
  all_goals exact absurd he hlt

omit [DecidableEq T] in
theorem ReportInv.head (hi : ReportInv s) {t : T} {f : Frame} {k : List Frame}
    (hk : s.threads t = f :: k) : ReportOk s f :=
  hi t f (by simp [hk])

omit [DecidableEq T] in
/-- A report on an event of a queue is about a handed or taken one. -/
theorem ReportInv.started (hi : ReportInv s) (hc : CallsOk s) {t : T} {f : StatusFrame}
    {k : List Frame} (hk : s.threads t = .setStatus f :: k) (hpc : f.pc = .helper)
    (hp : (s.events f.event).parent = some q) :
    f.event ∈ (s.queues q).handed ∧ (f.status = clRunning ∨ f.status ≤ 0) ∨
      f.event ∈ (s.queues q).taken ∧ f.status = clComplete := by
  rcases (hi.head hk).1 hpc with ⟨hu, _⟩ | ⟨p, hp', hm⟩
  · exact absurd hu ((hc.event _ (hc.head hk).1).parent (by simp [hp]))
  · obtain rfl : p = q := Option.some.inj (hp'.symm.trans hp)
    exact hm

omit [DecidableEq T] in
theorem ReportInv.failed (hi : ReportInv s) {t : T} {f : StatusFrame} {k : List Frame}
    (hk : s.threads t = .setStatus f :: k) {i num : Nat} {d : EventId} {q : QueueId}
    (hpc : f.pc = .terminate i num d q) :
    f.status < 0 ∧ d < s.nextEvent ∧ (s.events d).parent = some q :=
  (hi.head hk).2.2 i num d q hpc

theorem startInv_step (h : Step s a s') (hw : Wf s) (hc : CallsOk s) (hr : ReportInv s)
    (hi : StartInv s) : StartInv s' := by
  intro q x hx hp hh ht
  by_cases hlt : x < s.nextEvent
  · rw [(step_identity h hlt).parent] at hp
    have hh' : x ∉ (s.queues q).handed := fun hm => hh (handed_mono h hw.mutex q hm)
    have ht' : x ∉ (s.queues q).taken := fun hm => ht (taken_mono h hw.mutex q hm)
    have hst := step_status h hlt
    generalize (s'.events x).status = st at hst
    cases hst with
    | same =>
      refine (hi q x hlt hp hh' ht').imp_right (Or.imp_right fun ho => ?_)
      exact (handingOver_step h hw ho).resolve_right hh
    | @submitted f k hk hpc he =>
      right
      right
      have hq : f.queue = q := Option.some.inj ((hw.event_lt he).2.symm.trans hp)
      cases push_next h hk with
      | submitted =>
        subst hq
        exact ⟨a.actor, { f with pc := .handOver }, k, by simp, rfl, rfl, he⟩
      | moved hm => cases hm <;> simp_all
      | _ => simp_all
    | reported hk hpc he =>
      subst he
      rcases hr.started hc hk hpc hp with hm | hm
      · exact absurd hm.1 hh'
      · exact absurd hm.1 ht'
    | terminated hk hpc => exact .inr (.inl (hr.failed hk hpc).1)
  · exact .inl (startInv_new h hlt hx hp)

theorem startInv_reachable (h : Reachable (scheduler T) s) : StartInv s := by
  apply h.invariant
  · rintro _ ⟨o, rfl⟩ q x hx
    exact absurd hx (Nat.not_lt_zero x)
  · intro s a s' hr hi ht
    exact startInv_step (step_cases ht) (wf_reachable hr) (callsOk_reachable hr)
      (reportInv_reachable hr) hi

omit [DecidableEq T] in
/-- No other thread is inside the queue while an event is handed over. -/
theorem HandingOver.eq_of_inside (hx : HandingOver s q x) (hm : MutexInv s) {t : T}
    {f : PushFrame} {k : List Frame} (hk : s.threads t = .push f :: k) (hq : f.queue = q)
    (hpc : f.pc ≠ .acquire) : f.pc = .handOver ∧ f.event (s.queues q) = some x := by
  obtain ⟨u, g, l, hu, hg, hgp, hge⟩ := hx
  subst hq
  have ht := hm.of_push hk hpc
  have hu' := hm.of_push hu (by simp [hgp])
  rw [hg, ht] at hu'
  obtain rfl := Option.some.inj hu'
  rw [hk] at hu
  cases hu
  exact ⟨hgp, hge⟩

/-- A report never puts an event back in the queued state. -/
theorem not_queued_step (h : Step s a s') (hr : ReportInv s) (hx : x < s.nextEvent)
    (hn : (s.events x).status ≠ clQueued) : (s'.events x).status ≠ clQueued := by
  have hst := step_status h hx
  generalize (s'.events x).status = st at hst
  cases hst with
  | same => exact hn
  | submitted => decide
  | reported hk hpc he =>
    unfold clQueued
    rcases (hr.head hk).1 hpc with ⟨_, hle⟩ | ⟨_, _, ⟨_, hrun | hle⟩ | ⟨_, hdone⟩⟩
    · omega
    · rw [hrun]
      decide
    · omega
    · rw [hdone]
      decide
  | terminated hk hpc =>
    have hst := (hr.failed hk hpc).1
    unfold clQueued
    omega

/-- Each event is handed over at most once, and has then left the queued state. -/
structure HandInv (s : State T) : Prop where
  status : ∀ q, ∀ x ∈ (s.queues q).handed, (s.events x).status ≠ clQueued
  handing : ∀ q x, HandingOver s q x → (s.events x).status ≠ clQueued
  fresh : ∀ t f k x, s.threads t = .push f :: k →
    f.pc = .examineWait ∨ f.pc = .submit ∨ f.pc = .handOver →
    f.event (s.queues f.queue) = some x → x ∉ (s.queues f.queue).handed
  nodup : ∀ q, (s.queues q).handed.Nodup

theorem handing_step (h : Step s a s') (hw : Wf s) (hr : ReportInv s) (hi : HandInv s)
    (hx : HandingOver s' q x) : (s'.events x).status ≠ clQueued := by
  obtain ⟨t, f, k, hk, rfl, hpc, he⟩ := hx
  by_cases ht : t = a.actor
  · subst ht
    cases push_top h hw hk with
    | called hc => simp [hc] at hpc
    | entered _ _ _ hf => simp [hf] at hpc
    | erased _ _ _ hf => simp [hf] at hpc
    | handed _ _ _ hf => simp [hf] at hpc
    | moved _ hm => cases hm <;> simp_all
    | submitted hk' hpc' he' hf hq hev =>
      subst hf
      rw [hq] at he
      obtain rfl : _ = x := Option.some.inj (he'.symm.trans he)
      rw [hev, Function.update_self, Event.setStatusHelper_status]
      decide
  · rw [step_threads_of_ne h ht] at hk
    obtain ⟨l, hl⟩ := step_queue_locked h hw.mutex (hw.mutex.of_push hk (by simp [hpc])) ht
    rw [hl] at he
    exact not_queued_step h hr (hw.event_lt he).1 (hi.handing _ x ⟨t, f, k, hk, rfl, hpc, he⟩)

theorem fresh_step (h : Step s a s') (hw : Wf s) (hi : HandInv s) {t : T} {f : PushFrame}
    {k : List Frame} (hk : s'.threads t = .push f :: k)
    (hpc : f.pc = .examineWait ∨ f.pc = .submit ∨ f.pc = .handOver)
    (he : f.event (s'.queues f.queue) = some x) : x ∉ (s'.queues f.queue).handed := by
  by_cases ht : t = a.actor
  · subst ht
    cases push_top h hw hk with
    | called hc => simp [hc] at hpc
    | entered _ _ _ hf => simp [hf] at hpc
    | erased _ _ _ hf => simp [hf] at hpc
    | handed _ _ _ hf => simp [hf] at hpc
    | moved hk' hm hq hev =>
      rw [pushMove_queue hm, hq] at he ⊢
      cases hm with
      | isQueued _ he' hst =>
        obtain rfl : _ = x := Option.some.inj (he'.symm.trans he)
        exact fun hx => hi.status _ _ hx hst
      | pushable hpc' he' _ _ => exact hi.fresh _ _ _ _ hk' (.inl hpc') he
      | _ => simp_all
    | submitted hk' hpc' he' hf hq hev =>
      subst hf
      rw [hq] at he ⊢
      exact (hi.fresh _ _ _ _ hk' (.inr (.inl hpc')) he :)
  · rw [step_threads_of_ne h ht] at hk
    have hm := hw.mutex.of_push hk (by rcases hpc with hpc | hpc | hpc <;> simp [hpc])
    obtain ⟨l, hl⟩ := step_queue_locked h hw.mutex hm ht
    rw [hl] at he ⊢
    exact hi.fresh t f k x hk hpc he

theorem handInv_step (h : Step s a s') (hw : Wf s) (hr : ReportInv s) (hi : HandInv s) :
    HandInv s' where
  status := by
    intro q x hx
    rcases handed_step h hw.mutex hx with hx | ⟨f, k, hk, rfl, hpc, he⟩
    · exact not_queued_step h hr (hw.handed_lt hx).1 (hi.status q x hx)
    · exact not_queued_step h hr (hw.event_lt he).1 (hi.handing _ x ⟨_, f, k, hk, rfl, hpc, he⟩)
  handing _ _ hx := handing_step h hw hr hi hx
  fresh _ _ _ _ hk hpc he := fresh_step h hw hi hk hpc he
  nodup := by
    intro q
    have hc := step_ledger h hw.mutex q
    change (s'.queues q).ledger.handed.Nodup
    generalize (s'.queues q).ledger = l at hc
    cases hc with
    | hand hk hq hpc he =>
      subst hq
      have hfresh := hi.fresh _ _ _ _ hk (.inr (.inr hpc)) he
      exact List.nodup_append_comm.mp (List.nodup_cons.mpr ⟨hfresh, hi.nodup _⟩)
    | _ => exact hi.nodup q

theorem handInv_reachable (h : Reachable (scheduler T) s) : HandInv s := by
  apply h.invariant
  · rintro _ ⟨o, rfl⟩
    constructor <;> simp [initial, Queue.empty, HandingOver]
  · intro s a s' hr hi ht
    exact handInv_step (step_cases ht) (wf_reachable hr) (reportInv_reachable hr) hi

omit [DecidableEq T] in
theorem Wf.taken_lt (hw : Wf s) (hx : x ∈ (s.queues q).taken) :
    x < s.nextEvent ∧ (s.events x).parent = some q :=
  hw.owned.queued (hw.erased_queued ((hw.owned.ledger q).taken hx))

omit [DecidableEq T] in
theorem Wf.not_mem_taken (hw : Wf s) {i : Nat} (hx : (s.queues q).events[i]? = some x) :
    x ∉ (s.queues q).taken := fun ht =>
  (hw.owned.ledger q).not_mem_erased (List.mem_of_getElem? hx) ((hw.owned.ledger q).taken ht)

/-- A dummy never looks as if it were on the device. -/
def TakenInv (s : State T) : Prop := ∀ q, ∀ x ∈ (s.queues q).taken, ¬ (s.events x).OnDevice

omit [DecidableEq T] in
/-- An event that is looked at for its wait list has not been started. -/
theorem StartInv.examined (hi : StartInv s) (hh : HandInv s) (hw : Wf s) {t : T} {f : PushFrame}
    {k : List Frame} (hk : s.threads t = .push f :: k)
    (hpc : f.pc = .examineWait ∨ f.pc = .submit)
    (he : f.event (s.queues f.queue) = some x) :
    (s.events x).status = clQueued ∨ (s.events x).status < 0 := by
  obtain ⟨hlt, hp⟩ := hw.event_lt he
  have hn := hw.not_mem_taken he
  rcases hi f.queue x hlt hp (hh.fresh _ _ _ _ hk (by tauto) he) hn with hs | hs | hs
  · exact .inl hs
  · exact .inr hs
  · have := hs.eq_of_inside hw.mutex hk rfl (by rcases hpc with hpc | hpc <;> simp [hpc])
    simp_all

theorem takenInv_step (h : Step s a s') (hw : Wf s) (hc : CallsOk s) (hr : ReportInv s)
    (hk : KindInv s) (hh : HandInv s) (hs : StartInv s) (hi : TakenInv s) : TakenInv s' := by
  intro q x hx
  rcases taken_step h hw.mutex hx with hx | ⟨f, k, hf, rfl, hpc, he, -, -⟩
  · obtain ⟨hlt, hp⟩ := hw.taken_lt hx
    have hst := step_status h hlt
    unfold Event.OnDevice clSubmitted clRunning
    generalize (s'.events x).status = st at hst
    cases hst with
    | same => exact hi q x hx
    | submitted _ _ he =>
      obtain rfl : _ = q := Option.some.inj ((hw.event_lt he).2.symm.trans hp)
      exact absurd hx (hw.not_mem_taken he)
    | reported hk' hpc he =>
      subst he
      rcases hr.started hc hk' hpc hp with ⟨hm, _⟩ | ⟨_, hm⟩
      · exact absurd (hk.taken q _ hx) (by simp [hk.handed q _ hm])
      · rw [hm]
        decide
    | terminated hk' hpc =>
      have hst := (hr.failed hk' hpc).1
      omega
  · have hst := hs.examined hh hw hf (.inl hpc) he
    have hev : s'.events = s.events := by
      cases push_next h hf with
      | moved hm => rfl
      | submitted => simp_all
      | _ => rfl
    rw [hev]
    unfold Event.OnDevice clSubmitted clRunning
    unfold clQueued at hst
    omega

theorem takenInv_reachable (h : Reachable (scheduler T) s) : TakenInv s := by
  apply h.invariant
  · rintro _ ⟨o, rfl⟩ q x hx
    simp [initial, Queue.empty] at hx
  · intro s a s' hr hi ht
    exact takenInv_step (step_cases ht) (wf_reachable hr) (callsOk_reachable hr)
      (reportInv_reachable hr) (kindInv_reachable hr) (handInv_reachable hr)
      (startInv_reachable hr) hi

/-- The invariants that hold whatever the device and the application do. -/
structure Sound (s : State T) : Prop where
  wf : Wf s
  calls : CallsOk s
  report : ReportInv s
  kind : KindInv s
  hand : HandInv s
  start : StartInv s
  taken : TakenInv s

theorem sound_reachable (h : Reachable (scheduler T) s) : Sound s where
  wf := wf_reachable h
  calls := callsOk_reachable h
  report := reportInv_reachable h
  kind := kindInv_reachable h
  hand := handInv_reachable h
  start := startInv_reachable h
  taken := takenInv_reachable h

/-- Events that were not started have not failed. -/
def PendingInv (s : State T) : Prop :=
  ∀ q x, x < s.nextEvent → (s.events x).parent = some q → x ∉ (s.queues q).handed →
    x ∉ (s.queues q).taken → 0 ≤ (s.events x).status

theorem pendingInv_step (h : Step s a s') (hs : Sound s)
    (hnt : ∀ {f k i num d q}, s.threads a.actor = .setStatus f :: k → f.pc ≠ .terminate i num d q)
    (hi : PendingInv s) : PendingInv s' := by
  intro q x hx hp hh ht
  by_cases hlt : x < s.nextEvent
  · rw [(step_identity h hlt).parent] at hp
    have hh' : x ∉ (s.queues q).handed := fun hm => hh (handed_mono h hs.wf.mutex q hm)
    have ht' : x ∉ (s.queues q).taken := fun hm => ht (taken_mono h hs.wf.mutex q hm)
    have hst := step_status h hlt
    generalize (s'.events x).status = st at hst
    cases hst with
    | same => exact hi q x hlt hp hh' ht'
    | submitted => decide
    | reported hk hpc he =>
      subst he
      rcases hs.report.started hs.calls hk hpc hp with hm | hm
      · exact absurd hm.1 hh'
      · exact absurd hm.1 ht'
    | terminated hk hpc => exact absurd hpc (hnt hk)
  · rw [startInv_new h hlt hx hp]
    decide

/-- The call of `setStatus` whose status thread `t` is about to write. -/
def State.reporting (s : State T) (t : T) : Option StatusFrame :=
  match s.threads t with
  | .setStatus f :: _ => if f.pc = .helper then some f else none
  | _ => none

omit [DecidableEq T] in
theorem reporting_eq {t : T} {f : StatusFrame} {k : List Frame}
    (hk : s.threads t = .setStatus f :: k) (hpc : f.pc = .helper) : s.reporting t = some f := by
  simp [State.reporting, hk, hpc]

end Shamrock.Scheduler
