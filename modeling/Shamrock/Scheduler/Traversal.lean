import Shamrock.Scheduler.Ledger

/-! Where a call of `pushEventsOnDevice` comes from, step by step. -/
namespace Shamrock.Scheduler

open Transition

variable {T : Type} [DecidableEq T] {s s' : State T} {a : Action T}

/-- A program point that is reached only for the first event the traversal does not remove. -/
def PushPC.Acting (pc : PushPC) : Prop :=
  pc = .examineQueued ∨ pc = .examineWait ∨ pc = .submit ∨ pc = .handOver

/-- How the top frame of the acting thread can come to be a call of `pushEventsOnDevice`. -/
inductive PushTop (s s' : State T) (t : T) (f' : PushFrame) (k : List Frame) : Prop
  | called : f'.pc = .acquire → PushTop s s' t f' k
  | entered {f : PushFrame} : s.threads t = .push f :: k → f.pc = .acquire →
      (s.queues f.queue).mutex = none →
      f' = { f with pc := .examineComplete, it := 0, first := true, traversed := 0 } →
      s'.queues f.queue =
        (((s.queues f.queue).countCompletion f.oneEventCompleted).lock t).setFlushed true →
      s'.events = s.events → PushTop s s' t f' k
  | moved {f : PushFrame} {b : Bool} : s.threads t = .push f :: k →
      PushMove (s.queues f.queue) s.events f f' b →
      s'.queues f.queue = (s.queues f.queue).setFlushed b → s'.events = s.events →
      PushTop s s' t f' k
  | erased {f : PushFrame} {e : EventId} : s.threads t = .push f :: k →
      f.pc = .examineComplete ∧ (s.events e).status = clComplete ∨
        f.pc = .examineError ∧ (s.events e).status < 0 →
      f.event (s.queues f.queue) = some e → f' = { f with pc := .examineComplete } →
      s'.queues f.queue = (s.queues f.queue).eraseTerminal f.it e → s'.events = s.events →
      PushTop s s' t f' k
  | submitted {f : PushFrame} {e : EventId} : s.threads t = .push f :: k → f.pc = .submit →
      f.event (s.queues f.queue) = some e → f' = { f with pc := .handOver } →
      s'.queues = s.queues →
      s'.events = Function.update s.events e ((s.events e).setStatusHelper clSubmitted) →
      PushTop s s' t f' k
  | handed {f : PushFrame} {e : EventId} : s.threads t = .push f :: k → f.pc = .handOver →
      f.event (s.queues f.queue) = some e → f' = { f with pc := .examineComplete } →
      s'.queues f.queue = (s.queues f.queue).pushEvent e → s'.events = s.events →
      PushTop s s' t f' k

theorem not_push_below {g : Frame} {k k' : List Frame} {f : PushFrame}
    (h : StackShape (g :: k)) (hk : k = .push f :: k') : False := by
  rcases stackShape_tail h (.push f) (by simp [hk]) with hs | ⟨q, hq⟩
  · exact hs
  · cases hq

theorem push_top (h : Step s a s') (hw : Wf s) {f' : PushFrame} {k : List Frame}
    (hk : s'.threads a.actor = .push f' :: k) : PushTop s s' a.actor f' k := by
  have hsh := hw.shape a.actor
  cases h
  case createUserEvent ht => cases ht.symm.trans hk
  case setCallback ht _ => cases ht.symm.trans hk
  all_goals
    simp only [actor_resume, actor_setUserEventStatus, actor_enqueue, actor_flush, actor_finish,
      actor_deviceSetStatus, State.setStack_threads, State.pushDependent_threads,
      Function.update_self, List.cons.injEq, Frame.push.injEq, reduceCtorEq, false_and] at hk
  case construct =>
    split at hk <;> cases hk.1
  case pushEnter ht hpc hn =>
    obtain ⟨rfl, rfl⟩ := hk
    exact .entered ht hpc hn rfl (by simp) rfl
  case pushMove ht hm =>
    obtain ⟨rfl, rfl⟩ := hk
    exact .moved ht hm (by simp) rfl
  case pushErase ht hpc he =>
    obtain ⟨rfl, rfl⟩ := hk
    exact .erased ht hpc he rfl (by simp) rfl
  case pushSubmit ht hpc he =>
    obtain ⟨rfl, rfl⟩ := hk
    exact .submitted ht hpc he rfl rfl rfl
  case pushHandOver ht hpc he =>
    obtain ⟨rfl, rfl⟩ := hk
    exact .handed ht hpc he rfl (by simp) rfl
  all_goals
    first
      | exact .called (hk.1 ▸ rfl)
      | -- a return uncovers no such call
        exact (not_push_below (by simpa only [actor_resume, *] using hsh) hk).elim

/-- What a thread inside `pushEventsOnDevice` does next. -/
inductive PushNext (s : State T) (t : T) (f : PushFrame) (k : List Frame) : State T → Prop
  | returned : f.pc = .acquire → (s.queues f.queue).mutex = none →
      (s.queues f.queue).outOfOrder = true → f.readyEvent = none →
      2 < ((s.queues f.queue).countCompletion f.oneEventCompleted).numEventsOnDevice →
      PushNext s t f k
        ((s.setQueue f.queue ((s.queues f.queue).countCompletion f.oneEventCompleted)).setStack
          t k)
  | entered : f.pc = .acquire → (s.queues f.queue).mutex = none →
      PushNext s t f k
        ((s.setQueue f.queue ((((s.queues f.queue).countCompletion f.oneEventCompleted).lock
          t).setFlushed true)).setStack t
          (.push { f with pc := .examineComplete, it := 0, first := true, traversed := 0 } :: k))
  | moved {f' : PushFrame} {b : Bool} : PushMove (s.queues f.queue) s.events f f' b →
      PushNext s t f k
        ((s.setQueue f.queue ((s.queues f.queue).setFlushed b)).setStack t (.push f' :: k))
  | erased {e : EventId} : f.pc = .examineComplete ∧ (s.events e).status = clComplete ∨
        f.pc = .examineError ∧ (s.events e).status < 0 →
      f.event (s.queues f.queue) = some e →
      PushNext s t f k
        ((s.setQueue f.queue ((s.queues f.queue).eraseTerminal f.it e)).setStack t
          (.push { f with pc := .examineComplete } :: k))
  | taken {e : EventId} : f.pc = .examineWait → f.event (s.queues f.queue) = some e →
      (s.events e).waitEvents = [] → (s.events e).type.isInstantaneous = true →
      PushNext s t f k
        ((s.setQueue f.queue ((s.queues f.queue).takeInstantaneous f.it e).wakeAndUnlock).setStack
          t (.setStatus (.call e clComplete) :: .release e :: k))
  | submitted {e : EventId} : f.pc = .submit → f.event (s.queues f.queue) = some e →
      PushNext s t f k
        ((s.setEvent e ((s.events e).setStatusHelper clSubmitted)).setStack t
          (.push { f with pc := .handOver } :: k))
  | handed {e : EventId} : f.pc = .handOver → f.event (s.queues f.queue) = some e →
      PushNext s t f k
        ((s.setQueue f.queue ((s.queues f.queue).pushEvent e)).setStack t
          (.push { f with pc := .examineComplete } :: k))
  | left : f.pc = .leave →
      PushNext s t f k
        ((s.setQueue f.queue ((s.queues f.queue).leavePush f.readyEvent)).setStack t k)

theorem push_next (h : Step s a s') {f : PushFrame} {k : List Frame}
    (hk : s.threads a.actor = .push f :: k) : PushNext s a.actor f k s' := by
  cases h
  all_goals
    simp only [actor_resume, actor_createUserEvent, actor_setUserEventStatus, actor_setCallback,
      actor_enqueue, actor_flush, actor_finish, actor_deviceSetStatus, List.cons.injEq,
      reduceCtorEq, Frame.push.injEq, false_and, *] at hk
  all_goals obtain ⟨rfl, rfl⟩ := hk
  case pushReturn _ hpc hn ho hr hc => exact .returned hpc hn ho hr hc
  case pushEnter _ hpc hn => exact .entered hpc hn
  case pushMove _ hm => exact .moved hm
  case pushErase _ hpc he => exact .erased hpc he
  case pushTake _ hpc he hw hin => exact .taken hpc he hw hin
  case pushSubmit _ hpc he => exact .submitted hpc he
  case pushHandOver _ hpc he => exact .handed hpc he
  case pushLeave _ hpc => exact .left hpc

/-- What a thread inside `setStatus` does next. -/
inductive StatusNext (s : State T) (t : T) (f : StatusFrame) (k : List Frame) : State T → Prop
  | helperNotify : f.pc = .helper → (s.events f.event).propagates f.status = true →
      StatusNext s t f k
        ((s.setEvent f.event ((s.events f.event).setStatusHelper f.status)).setStack t
          (.setStatus { f with pc := .notify 0 (s.events f.event).dependentEvents.length } :: k))
  | helperReturn : f.pc = .helper → (s.events f.event).propagates f.status = false →
      StatusNext s t f k
        ((s.setEvent f.event ((s.events f.event).setStatusHelper f.status)).setStack t k)
  | notifyBlocked {i num : Nat} {d : EventId} : f.pc = .notify i num → i < num →
      (s.events f.event).dependentEvents[i]? = some d → (s.events d).stateMutex = false →
      (s.events d).waitEvents.filter (· ≠ f.event) ≠ [] ∨ (s.events d).parent = none →
      StatusNext s t f k
        ((s.setEvent d ((s.events d).removeWaitEvent f.event).1).setStack t
          (.setStatus { f with pc := .notify (i + 1) num } :: k))
  | notifyReady {i num : Nat} {d : EventId} {q : QueueId} : f.pc = .notify i num → i < num →
      (s.events f.event).dependentEvents[i]? = some d → (s.events d).stateMutex = false →
      (s.events d).waitEvents.filter (· ≠ f.event) = [] → (s.events d).parent = some q →
      0 ≤ f.status →
      StatusNext s t f k
        (pushDependent (s.setEvent d ((s.events d).removeWaitEvent f.event).1) t f i num d q k)
  | notifyFailed {i num : Nat} {d : EventId} {q : QueueId} : f.pc = .notify i num → i < num →
      (s.events f.event).dependentEvents[i]? = some d → (s.events d).stateMutex = false →
      (s.events d).waitEvents.filter (· ≠ f.event) = [] → (s.events d).parent = some q →
      f.status < 0 →
      StatusNext s t f k
        ((s.setEvent d ((s.events d).removeWaitEvent f.event).1).setStack t
          (.setStatus { f with pc := .terminate i num d q } :: k))
  | terminate {i num : Nat} {d : EventId} {q : QueueId} : f.pc = .terminate i num d q →
      StatusNext s t f k
        (pushDependent (s.setEvent d ((s.events d).setStatusHelper f.status)) t f i num d q k)
  | notifyReturn {i num : Nat} : f.pc = .notify i num → num ≤ i →
      (s.events f.event).parent = none ∨ f.alreadyPushed = true →
      StatusNext s t f k (s.setStack t k)
  | notifyPush {i num : Nat} {q : QueueId} : f.pc = .notify i num → num ≤ i →
      (s.events f.event).parent = some q → f.alreadyPushed = false →
      StatusNext s t f k (s.setStack t (.push (.call q none true) :: k))

theorem status_next (h : Step s a s') {f : StatusFrame} {k : List Frame}
    (hk : s.threads a.actor = .setStatus f :: k) : StatusNext s a.actor f k s' := by
  cases h
  all_goals
    simp only [actor_resume, actor_createUserEvent, actor_setUserEventStatus, actor_setCallback,
      actor_enqueue, actor_flush, actor_finish, actor_deviceSetStatus, List.cons.injEq,
      reduceCtorEq, Frame.setStatus.injEq, false_and, *] at hk
  all_goals obtain ⟨rfl, rfl⟩ := hk
  case helperNotify _ hpc hp => exact .helperNotify hpc hp
  case helperReturn _ hpc hp => exact .helperReturn hpc hp
  case notifyBlocked _ hpc hi hd hm he => exact .notifyBlocked hpc hi hd hm he
  case notifyReady _ hpc hi hd hm he hq hst => exact .notifyReady hpc hi hd hm he hq hst
  case notifyFailed _ hpc hi hd hm he hq hst => exact .notifyFailed hpc hi hd hm he hq hst
  case terminate _ hpc => exact .terminate hpc
  case notifyReturn _ hpc hi he => exact .notifyReturn hpc hi he
  case notifyPush _ hpc hi hq ha => exact .notifyPush hpc hi hq ha

/-- How the notification of dependent `d` ends. -/
inductive NotifyNext (s : State T) (t : T) (f : StatusFrame) (k : List Frame) (i num : Nat)
    (d : EventId) : State T → Prop
  | blocked : (s.events d).waitEvents.filter (· ≠ f.event) ≠ [] ∨ (s.events d).parent = none →
      NotifyNext s t f k i num d
        ((s.setEvent d ((s.events d).removeWaitEvent f.event).1).setStack t
          (.setStatus { f with pc := .notify (i + 1) num } :: k))
  | ready {q : QueueId} : (s.events d).waitEvents.filter (· ≠ f.event) = [] →
      (s.events d).parent = some q → 0 ≤ f.status →
      NotifyNext s t f k i num d
        (pushDependent (s.setEvent d ((s.events d).removeWaitEvent f.event).1) t f i num d q k)
  | failed {q : QueueId} : (s.events d).waitEvents.filter (· ≠ f.event) = [] →
      (s.events d).parent = some q → f.status < 0 →
      NotifyNext s t f k i num d
        ((s.setEvent d ((s.events d).removeWaitEvent f.event).1).setStack t
          (.setStatus { f with pc := .terminate i num d q } :: k))

theorem notify_next (h : Step s a s') {f : StatusFrame} {k : List Frame}
    (hk : s.threads a.actor = .setStatus f :: k) {i num : Nat} (hpc : f.pc = .notify i num)
    (hi : i < num) {d : EventId} (hd : (s.events f.event).dependentEvents[i]? = some d) :
    NotifyNext s a.actor f k i num d s' := by
  cases status_next h hk with
  | notifyBlocked hpc' _ hd' _ hb =>
    obtain ⟨rfl, rfl⟩ := StatusPC.notify.inj (hpc.symm.trans hpc')
    obtain rfl := Option.some.inj (hd.symm.trans hd')
    exact .blocked hb
  | notifyReady hpc' _ hd' _ he hq hst =>
    obtain ⟨rfl, rfl⟩ := StatusPC.notify.inj (hpc.symm.trans hpc')
    obtain rfl := Option.some.inj (hd.symm.trans hd')
    exact .ready he hq hst
  | notifyFailed hpc' _ hd' _ he hq hst =>
    obtain ⟨rfl, rfl⟩ := StatusPC.notify.inj (hpc.symm.trans hpc')
    obtain rfl := Option.some.inj (hd.symm.trans hd')
    exact .failed he hq hst
  | notifyReturn hpc' hle _ | notifyPush hpc' hle _ _ =>
    obtain ⟨rfl, rfl⟩ := StatusPC.notify.inj (hpc.symm.trans hpc')
    omega
  | helperNotify hpc' _ | helperReturn hpc' _ | terminate hpc' =>
    rw [hpc] at hpc'
    cases hpc'

/-- Only the first event is considered in an in-order queue, and a barrier only if it is that. -/
def FirstInv (s : State T) : Prop :=
  ∀ t f k, s.threads t = .push f :: k → f.pc ≠ .acquire → (f.first = true → f.it = 0) ∧
    (f.pc.Acting → f.first = false ∧ ((s.queues f.queue).outOfOrder = false → f.it = 0) ∧
      ∀ e, f.event (s.queues f.queue) = some e → (s.events e).type = .barrier → f.it = 0)

theorem firstInv_step (h : Step s a s') (hw : Wf s) (hi : FirstInv s) : FirstInv s' := by
  intro t f k hk hpc
  by_cases ht : t = a.actor
  · subst ht
    cases push_top h hw hk with
    | called hc => exact absurd hc hpc
    | entered _ _ _ hf => simp [hf, PushPC.Acting]
    | @moved f₀ b hk' hm hq hev =>
      obtain ⟨hf, ha⟩ := hi _ _ _ hk' (pushMove_inside hm).1
      rw [pushMove_queue hm, hq, hev]
      cases hm with
      | candidate _ he _ hc =>
        refine ⟨by simp, fun _ => ⟨rfl, fun ho => ?_, fun e he' hb => ?_⟩⟩
        · exact hf (hc.resolve_right fun hc => by simp_all [Queue.setFlushed])
        · obtain rfl : _ = e := Option.some.inj (he.symm.trans he')
          exact hf (hc.resolve_right fun hc => hc.2 hb)
      | scheduled hpc' | blocked hpc' =>
        have hnf := (ha (by simp [hpc', PushPC.Acting])).1
        exact ⟨by simp [hnf], by simp [PushPC.Acting]⟩
      | isQueued hpc' | pushable hpc' =>
        exact ⟨hf, fun _ => ha (by simp [hpc', PushPC.Acting])⟩
      | _ => exact ⟨hf, by simp [PushPC.Acting]⟩
    | erased hk' hpc' _ hf _ _ =>
      subst hf
      have := hi _ _ _ hk' (by rcases hpc' with hpc' | hpc' <;> simp [hpc'.1])
      exact ⟨this.1, by simp [PushPC.Acting]⟩
    | @submitted f₀ e hk' hpc' he hf hq hev =>
      subst hf
      obtain ⟨hfirst, ha⟩ := hi _ _ _ hk' (by simp [hpc'])
      obtain ⟨hnf, hin, hbar⟩ := ha (by simp [hpc', PushPC.Acting])
      rw [hq]
      refine ⟨hfirst, fun _ => ⟨hnf, hin, fun x hx hb => ?_⟩⟩
      rw [hev] at hb
      obtain rfl : e = x := Option.some.inj (he.symm.trans hx)
      exact hbar e he (by simpa using hb)
    | handed hk' hpc' _ hf _ _ =>
      subst hf
      have := hi _ _ _ hk' (by simp [hpc'])
      exact ⟨this.1, by simp [PushPC.Acting]⟩
  · rw [step_threads_of_ne h ht] at hk
    obtain ⟨hf, ha⟩ := hi t f k hk hpc
    obtain ⟨l, hl⟩ := step_queue_locked h hw.mutex (hw.mutex.of_push hk hpc) ht
    rw [hl]
    refine ⟨hf, fun hact => ⟨(ha hact).1, (ha hact).2.1, fun e he hb => ?_⟩⟩
    have hlt := (hw.owned.queued ((hw.owned.ledger _).mem_queued he)).1
    rw [(step_identity h hlt).type] at hb
    exact (ha hact).2.2 e he hb

theorem firstInv_reachable (h : Reachable (scheduler T) s) : FirstInv s := by
  apply h.invariant
  · rintro _ ⟨o, rfl⟩ t f k hk
    simp [initial] at hk
  · intro s a s' hr hi ht
    exact firstInv_step (step_cases ht) (wf_reachable hr) hi

theorem PushPC.Acting.inside {pc : PushPC} (h : pc.Acting) : pc ≠ .acquire := by
  rcases h with h | h | h | h <;> simp [h]

omit [DecidableEq T] in
theorem FirstInv.head (hi : FirstInv s) {t : T} {f : PushFrame} {k : List Frame}
    (hk : s.threads t = .push f :: k) (hpc : f.pc.Acting)
    (ho : (s.queues f.queue).outOfOrder = false) : f.it = 0 :=
  ((hi t f k hk hpc.inside).2 hpc).2.1 ho

omit [DecidableEq T] in
theorem FirstInv.barrier (hi : FirstInv s) {t : T} {f : PushFrame} {k : List Frame}
    (hk : s.threads t = .push f :: k) (hpc : f.pc.Acting) {e : EventId}
    (he : f.event (s.queues f.queue) = some e) (hb : (s.events e).type = .barrier) : f.it = 0 :=
  ((hi t f k hk hpc.inside).2 hpc).2.2 e he hb

/-- An event is started, that is handed over or taken, by a traversal that stands on it. -/
theorem started_step (h : Step s a s') (hm : MutexInv s) {q : QueueId} {e : EventId}
    (he : (s'.queues q).handed = (s.queues q).handed ++ [e] ∨
      (s'.queues q).taken = (s.queues q).taken ++ [e]) :
    ∃ f k, s.threads a.actor = .push f :: k ∧ f.queue = q ∧ f.event (s.queues q) = some e ∧
      (f.pc = .handOver ∧ (s'.queues q).taken = (s.queues q).taken ∨
        f.pc = .examineWait ∧ (s.events e).waitEvents = [] ∧
          (s.events e).type.isInstantaneous = true) := by
  have hc := step_ledger h hm q
  have hh : (s'.queues q).handed = (s'.queues q).ledger.handed := rfl
  have ht : (s'.queues q).taken = (s'.queues q).ledger.taken := rfl
  rw [hh, ht] at he
  rw [ht]
  generalize (s'.queues q).ledger = l at hc he ⊢
  cases hc with
  | take hk hq hpc hev hn hin =>
    rcases he with he | he
    · simp [Ledger.take, Ledger.erase, Queue.ledger] at he
    · obtain rfl : _ = e := by simpa [Ledger.take, Queue.ledger] using he
      exact ⟨_, _, hk, hq, hev, .inr ⟨hpc, hn, hin⟩⟩
  | hand hk hq hpc hev =>
    rcases he with he | he
    · obtain rfl : _ = e := by simpa [Ledger.hand, Queue.ledger] using he
      exact ⟨_, _, hk, hq, hev, .inl ⟨hpc, rfl⟩⟩
    · simp [Ledger.hand, Queue.ledger] at he
  | _ => simp [Ledger.append, Ledger.erase, Queue.ledger] at he

/-- The call of `pushEventsOnDevice` that thread `t` is in. -/
def State.pushing (s : State T) (t : T) : Option PushFrame :=
  match s.threads t with
  | .push f :: _ => some f
  | _ => none

omit [DecidableEq T] in
theorem pushing_eq {t : T} {f : PushFrame} {k : List Frame}
    (hk : s.threads t = .push f :: k) : s.pushing t = some f := by
  simp [State.pushing, hk]

end Shamrock.Scheduler
