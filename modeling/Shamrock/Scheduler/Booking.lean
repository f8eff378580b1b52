import Shamrock.Scheduler.Failure
import Shamrock.Lib.Tally

/-!
# What a step books

A completed event of a queue is counted by a later call of `pushEventsOnDevice`. Until then some
thread owes the queue this count.
-/
namespace Shamrock.Scheduler

open Transition

variable {T : Type} [DecidableEq T] {s s' : State T} {a : Action T} {q : QueueId} {x : EventId}

/-- The call will count a completion in `q`. -/
def Frame.counts (ev : EventId → Event) (q : QueueId) : Frame → Bool
  | .push f => f.pc = .acquire && f.queue = q && f.oneEventCompleted
  | .setStatus f => f.pc ≠ .helper && (ev f.event).parent = some q && !f.alreadyPushed
  | _ => false

/-- The completions of `q` that are not counted yet. -/
noncomputable def State.owed (s : State T) (q : QueueId) : Nat :=
  ∑ᶠ t, (s.threads t).countP (Frame.counts s.events q)

/-- A call has not pushed before its helper ran. -/
def Frame.Fresh : Frame → Prop
  | .setStatus f => f.pc = .helper → f.alreadyPushed = false
  | _ => True

/-- Finitely many threads are inside a call. -/
structure Called (s : State T) : Prop where
  busy : {t | s.threads t ≠ []}.Finite
  fresh : ∀ t, ∀ f ∈ s.threads t, f.Fresh

theorem called_step (h : Step s a s') (hi : Called s) : Called s' where
  busy := by
    refine (hi.busy.insert a.actor).subset fun t ht => ?_
    by_cases hta : t = a.actor
    · exact .inl hta
    · have hne : s'.threads t ≠ [] := ht
      rw [step_threads_of_ne h hta] at hne
      exact .inr hne
  fresh := by
    refine frames_step (P := fun _ f => f.Fresh) h hi.fresh (fun _ hf => hf) fun hold => ?_
    cases h
    case createUserEvent => exact hold
    case setCallback => exact hold
    all_goals
      simp only [actor_resume, actor_setUserEventStatus, actor_enqueue, actor_flush, actor_finish,
        actor_deviceSetStatus, State.setStack_threads, State.pushDependent_threads,
        Function.update_self, List.forall_mem_cons, *] at hold ⊢
    case construct =>
      refine ⟨?_, hold.2⟩
      split <;> trivial
    case pushTake => exact ⟨fun _ => rfl, trivial, hold.2⟩
    case notifyReady => exact ⟨trivial, nofun, hold.2⟩
    case terminate => exact ⟨trivial, nofun, hold.2⟩
    case finish => exact ⟨trivial, trivial, hold⟩
    -- a new call starts with its helper, a call that goes on is past it
    all_goals
      first
      | exact hold
      | exact hold.2
      | exact ⟨trivial, hold.2⟩
      | exact ⟨nofun, hold.2⟩
      | exact ⟨fun _ => rfl, hold⟩
      | exact ⟨trivial, hold⟩

theorem called_reachable (h : Reachable (scheduler T) s) : Called s := by
  apply h.invariant
  · rintro _ ⟨o, rfl⟩
    exact ⟨by simp [initial], by simp [initial]⟩
  · intro s a s' _ hi ht
    exact called_step (step_cases ht) hi

/-- A pending report is about an event that existed before the step. -/
theorem status_event_lt (h : Step s a s') (hw : Wf s) (hc : CallsOk s) {t : T} {f : StatusFrame}
    (hf : .setStatus f ∈ s'.threads t) : f.event < s.nextEvent := by
  cases status_origin h hf with
  | old hg he _ => exact he ▸ (hc.frame t _ hg).1
  | user ha _ =>
    subst ha
    cases h
    assumption
  | device _ _ hm => exact (hw.handed_lt hm).1
  | taken _ _ he _ => exact (hw.event_lt he).1

theorem counts_step (h : Step s a s') (hw : Wf s) (hc : CallsOk s) {t : T} {f : Frame}
    (hf : f ∈ s'.threads t) (q : QueueId) : f.counts s'.events q = f.counts s.events q := by
  cases f with
  | setStatus f =>
    simp only [Frame.counts, (step_identity h (status_event_lt h hw hc hf)).parent]
  | _ => rfl

/-- What the queue is owed changes by what the acting thread owes. -/
theorem owed_step (h : Step s a s') (hs : Sound s) (hi : Called s) (q : QueueId) :
    s'.owed q + (s.threads a.actor).countP (Frame.counts s.events q) =
      s.owed q + (s'.threads a.actor).countP (Frame.counts s.events q) := by
  have heq : (fun t => (s'.threads t).countP (Frame.counts s'.events q)) =
      Function.update (fun t => (s.threads t).countP (Frame.counts s.events q)) a.actor
        ((s'.threads a.actor).countP (Frame.counts s.events q)) := by
    funext t
    have hcongr : (s'.threads t).countP (Frame.counts s'.events q) =
        (s'.threads t).countP (Frame.counts s.events q) :=
      List.countP_congr fun f hf => by rw [counts_step h hs.wf hs.calls hf]
    by_cases ht : t = a.actor
    · subst ht
      simp [hcongr]
    · rw [hcongr, step_threads_of_ne h ht]
      simp [ht]
  have hsup :
      (Function.support fun t => (s.threads t).countP (Frame.counts s.events q)).Finite := by
    refine hi.busy.subset fun t ht hk => ?_
    exact ht (by simp [hk])
  unfold State.owed
  rw [heq]
  exact Tally.finsum_update hsup a.actor _

/-- The lists and the counters of a queue. -/
structure Books where
  ledger : Ledger
  onDevice : Int
  completed : Int

def Queue.books (Q : Queue T) : Books where
  ledger := Q.ledger
  onDevice := Q.numEventsOnDevice
  completed := Q.numEventsCompleted

/-- What a step of thread `t` does to the books of `q`, to the status of its events and to what
it is owed. -/
inductive Booking (s s' : State T) (t : T) (q : QueueId) : Prop
  | other : (s'.queues q).books = (s.queues q).books → s'.owed q = s.owed q →
      (∀ x < s.nextEvent, (s.events x).parent = some q →
        (s'.events x).status = (s.events x).status) → Booking s s' t q
  | append {e : EventId} {k : List Frame} : s.threads t = .queueEvent e :: k →
      (s.events e).parent = some q →
      (s'.queues q).books =
        { (s.queues q).books with ledger := (s.queues q).ledger.append e } →
      s'.owed q = s.owed q → s'.events = s.events → Booking s s' t q
  | counted {f : PushFrame} {k : List Frame} : s.threads t = .push f :: k → f.pc = .acquire →
      f.queue = q → f.oneEventCompleted = true →
      (s'.queues q).books = { (s.queues q).books with
        onDevice := (s.queues q).numEventsOnDevice - 1
        completed := (s.queues q).numEventsCompleted + 1 } →
      s'.owed q + 1 = s.owed q → s'.events = s.events → Booking s s' t q
  | erased {i : Nat} {e : EventId} : (s.queues q).events[i]? = some e →
      (s.events e).status ≤ 0 →
      (s'.queues q).books =
        { (s.queues q).books with
          ledger := (s.queues q).ledger.erase i e
          completed := (s.queues q).numEventsCompleted - 1 } →
      s'.owed q = s.owed q → s'.events = s.events → Booking s s' t q
  | taken {f : PushFrame} {e : EventId} {k : List Frame} : s.threads t = .push f :: k →
      f.queue = q → f.pc = .examineWait → f.event (s.queues q) = some e →
      (s.events e).waitEvents = [] → (s.events e).type.isInstantaneous = true →
      (s'.queues q).books =
        { (s.queues q).books with
          ledger := (s.queues q).ledger.take f.it e
          onDevice := (s.queues q).numEventsOnDevice + 1 } →
      s'.owed q = s.owed q → s'.events = s.events → Booking s s' t q
  | handed {f : PushFrame} {e : EventId} {k : List Frame} : s.threads t = .push f :: k →
      f.queue = q → f.pc = .handOver → f.event (s.queues q) = some e →
      (s'.queues q).books =
        { (s.queues q).books with
          ledger := (s.queues q).ledger.hand e
          onDevice := (s.queues q).numEventsOnDevice + 1 } →
      s'.owed q = s.owed q → s'.events = s.events → Booking s s' t q
  | submitted {f : PushFrame} {e : EventId} {k : List Frame} : s.threads t = .push f :: k →
      f.queue = q → f.pc = .submit → f.event (s.queues q) = some e →
      (s'.queues q).books = (s.queues q).books → s'.owed q = s.owed q →
      s'.events = Function.update s.events e ((s.events e).setStatusHelper clSubmitted) →
      Booking s s' t q
  | reported {f : StatusFrame} {k : List Frame} : s.threads t = .setStatus f :: k →
      f.pc = .helper → (s.events f.event).parent = some q →
      (s'.queues q).books = (s.queues q).books →
      s'.owed q = s.owed q + (if f.status = clComplete then 1 else 0) →
      s'.events = Function.update s.events f.event
        ((s.events f.event).setStatusHelper f.status) → Booking s s' t q
  | terminated {f : StatusFrame} {i num : Nat} {d : EventId} {k : List Frame} :
      s.threads t = .setStatus f :: k → f.pc = .terminate i num d q →
      (s'.queues q).books = (s.queues q).books → s'.owed q = s.owed q →
      s'.events = Function.update s.events d ((s.events d).setStatusHelper f.status) →
      Booking s s' t q
  | repeated {f : StatusFrame} {i num : Nat} {d : EventId} {k : List Frame} :
      s.threads t = .setStatus f :: k → f.pc = .notify i num → i < num →
      (s.events f.event).dependentEvents[i]? = some d → (s.events f.event).parent = some q →
      (s.events d).parent = some q → (s.events d).waitEvents.filter (· ≠ f.event) = [] →
      f.alreadyPushed = true →
      (s'.queues q).books = (s.queues q).books → s'.owed q = s.owed q + 1 →
      (∀ x, (s'.events x).status = (s.events x).status) → Booking s s' t q

/-- Only three critical sections write a status. -/
theorem status_same (h : Step s a s') (hx : x < s.nextEvent)
    (hp : ∀ f k, s.threads a.actor = .push f :: k → f.pc ≠ .submit)
    (hs : ∀ f k, s.threads a.actor = .setStatus f :: k → ∃ i num, f.pc = .notify i num) :
    (s'.events x).status = (s.events x).status := by
  have hc := step_status h hx
  generalize (s'.events x).status = st at hc
  cases hc with
  | same => rfl
  | submitted hk hpc => exact absurd hpc (hp _ _ hk)
  | reported hk hpc =>
    obtain ⟨i, num, hpc'⟩ := hs _ _ hk
    rw [hpc] at hpc'
    cases hpc'
  | terminated hk hpc =>
    obtain ⟨i, num, hpc'⟩ := hs _ _ hk
    rw [hpc] at hpc'
    cases hpc'

omit [DecidableEq T] in
@[simp] theorem wakeAndUnlock_books (Q : Queue T) : Q.wakeAndUnlock.books = Q.books := by
  unfold Queue.wakeAndUnlock
  split <;> rfl

omit [DecidableEq T] in
@[simp] theorem leavePush_books (Q : Queue T) (r : Option EventId) :
    (Q.leavePush r).books = Q.books := by
  unfold Queue.leavePush
  rw [wakeAndUnlock_books]
  split <;> rfl

omit [DecidableEq T] in
@[simp] theorem leaveClean_books (Q : Queue T) : Q.leaveClean.books = Q.books := by
  unfold Queue.leaveClean
  split <;> rfl

@[simp] theorem counts_push {f : PushFrame} {ev : EventId → Event} :
    (Frame.push f).counts ev q =
      (decide (f.pc = .acquire) && decide (f.queue = q) && f.oneEventCompleted) := rfl

@[simp] theorem counts_setStatus {f : StatusFrame} {ev : EventId → Event} :
    (Frame.setStatus f).counts ev q =
      (decide (f.pc ≠ .helper) && decide ((ev f.event).parent = some q) && !f.alreadyPushed) := rfl

theorem update_parent (ev : EventId → Event) {d : EventId} {E : Event}
    (h : E.parent = (ev d).parent) (e : EventId) :
    (Function.update ev d E e).parent = (ev e).parent := by
  by_cases he : e = d
  · subst he
    simpa using h
  · simp [he]

omit [DecidableEq T] in
/-- A call counts the completion that it has to count. -/
theorem booking_counting {t : T} {f : PushFrame} {k : List Frame} (hk : s.threads t = .push f :: k)
    (hpc : f.pc = .acquire)
    (hbooks : (s'.queues f.queue).books =
      ((s.queues f.queue).countCompletion f.oneEventCompleted).books)
    (hother : q ≠ f.queue → s'.queues q = s.queues q) (hev : s'.events = s.events)
    (howed : s'.owed q + (if (Frame.push f).counts s.events q = true then 1 else 0) = s.owed q) :
    Booking s s' t q := by
  have hcounts : (Frame.push f).counts s.events q = true ↔
      f.queue = q ∧ f.oneEventCompleted = true := by simp [hpc]
  by_cases hq : f.queue = q ∧ f.oneEventCompleted = true
  · rw [if_pos (hcounts.mpr hq)] at howed
    obtain ⟨rfl, hone⟩ := hq
    refine .counted hk hpc rfl hone ?_ howed hev
    rw [hbooks, hone]
    rfl
  · rw [if_neg (mt hcounts.mp hq)] at howed
    refine .other ?_ howed fun x _ _ => by rw [hev]
    by_cases hqf : q = f.queue
    · subst hqf
      rw [hbooks, Queue.countCompletion, if_neg fun h => hq ⟨rfl, h⟩]
    · rw [hother hqf]

omit [DecidableEq T] in
/-- A helper has written its status. -/
theorem booking_reported {t : T} {f : StatusFrame} {k : List Frame}
    (hk : s.threads t = .setStatus f :: k) (hpc : f.pc = .helper)
    (hqueues : s'.queues = s.queues)
    (hev : s'.events = Function.update s.events f.event
      ((s.events f.event).setStatusHelper f.status))
    (howed : s'.owed q = s.owed q +
      if (s.events f.event).parent = some q ∧ f.status = clComplete then 1 else 0) :
    Booking s s' t q := by
  by_cases hq : (s.events f.event).parent = some q
  · refine .reported hk hpc hq (by rw [hqueues]) ?_ hev
    simpa only [hq, true_and] using howed
  · refine .other (by rw [hqueues]) (by simpa [hq] using howed) fun x _ hx => ?_
    have hne : x ≠ f.event := by
      rintro rfl
      exact hq hx
    rw [hev, Function.update_of_ne hne]

/-- What the loop and the call for a dependent of the queue `p` will count. -/
theorem counts_pushed {f : StatusFrame} {i num : Nat} {d : EventId} {p : QueueId}
    {ev : EventId → Event} (hpc : f.pc ≠ .helper) :
    [Frame.push (.call p (some d) (decide ((ev f.event).parent = some p))),
      .setStatus { f with
        pc := .notify (i + 1) num
        alreadyPushed := f.alreadyPushed || decide ((ev f.event).parent = some p) }].countP
        (Frame.counts ev q) =
      (if (Frame.setStatus f).counts ev q = true then 1 else 0) +
        if (ev f.event).parent = some q ∧ p = q ∧ f.alreadyPushed = true then 1 else 0 := by
  by_cases hq : (ev f.event).parent = some q
  · by_cases hpq : p = q
    · subst hpq
      cases hpushed : f.alreadyPushed <;> simp [PushFrame.call, hpc, hq, hpushed]
    · have hne : ¬q = p := fun h => hpq h.symm
      simp [PushFrame.call, hpc, hq, hpq, hne]
  · by_cases hpq : p = q
    · subst hpq
      simp [PushFrame.call, hq]
    · simp [PushFrame.call, hq, hpq]

/-- A loop that has pushed already pushes its own queue once more. -/
theorem owed_pushDependent (h : Step s a s') (hs : Sound s) (hi : Called s) {f : StatusFrame}
    {i num : Nat} {d : EventId} {p : QueueId} {k : List Frame} {E : Event}
    (hk : s.threads a.actor = .setStatus f :: k) (hpc : f.pc ≠ .helper)
    (hE : E.parent = (s.events d).parent)
    (hs' : s' = pushDependent (s.setEvent d E) a.actor f i num d p k) :
    s'.owed q = s.owed q +
      if (s.events f.event).parent = some q ∧ p = q ∧ f.alreadyPushed = true then 1 else 0 := by
  have hpar : ((s.setEvent d E).events f.event).parent = (s.events f.event).parent :=
    update_parent s.events hE f.event
  have hthreads : s'.threads a.actor =
      [Frame.push (.call p (some d) (decide ((s.events f.event).parent = some p))),
        .setStatus { f with
          pc := .notify (i + 1) num
          alreadyPushed := f.alreadyPushed ||
            decide ((s.events f.event).parent = some p) }] ++ k := by
    rw [hs', ← hpar]
    exact Function.update_self ..
  have ho := owed_step h hs hi q
  rw [hthreads, List.countP_append, counts_pushed hpc, hk, List.countP_cons] at ho
  omega

/-- A dependent has nothing left to wait for. -/
theorem booking_ready (hs : Sound s) (hi : Called s) {t : T} {g : Bool} {f : StatusFrame}
    {i num : Nat} {d : EventId} {p : QueueId} {k : List Frame}
    (hk : s.threads t = .setStatus f :: k) (hpc : f.pc = .notify i num)
    (h : Step s (.resume t g)
      (pushDependent (s.setEvent d ((s.events d).removeWaitEvent f.event).1) t f i num d p k))
    (hlt : i < num) (hd : (s.events f.event).dependentEvents[i]? = some d)
    (hw : (s.events d).waitEvents.filter (· ≠ f.event) = []) (hp : (s.events d).parent = some p) :
    Booking s (pushDependent (s.setEvent d ((s.events d).removeWaitEvent f.event).1) t f i num d p
      k) t q := by
  have howed := owed_pushDependent (q := q) h hs hi hk (by simp [hpc])
    (E := ((s.events d).removeWaitEvent f.event).1) rfl rfl
  by_cases hrep : (s.events f.event).parent = some q ∧ p = q ∧ f.alreadyPushed = true
  · rw [if_pos hrep] at howed
    obtain ⟨hq, rfl, hpushed⟩ := hrep
    refine .repeated hk hpc hlt hd hq hp hw hpushed rfl howed fun x => ?_
    by_cases hx : x = d
    · subst hx
      simp [Event.removeWaitEvent]
    · simp [hx]
  · rw [if_neg hrep] at howed
    refine .other rfl howed fun x hx _ => status_same h hx (by simp [hk]) ?_
    rintro f' k' hk'
    rw [actor_resume, hk] at hk'
    cases hk'
    exact ⟨i, num, hpc⟩

/-- The failed event is a user event, which is in no queue. -/
theorem booking_terminate (hs : Sound s) (hi : Called s) {t : T} {g : Bool} {f : StatusFrame}
    {i num : Nat} {d : EventId} {p : QueueId} {k : List Frame}
    (hk : s.threads t = .setStatus f :: k) (hpc : f.pc = .terminate i num d p)
    (h : Step s (.resume t g)
      (pushDependent (s.setEvent d ((s.events d).setStatusHelper f.status)) t f i num d p k)) :
    Booking s (pushDependent (s.setEvent d ((s.events d).setStatusHelper f.status)) t f i num d p
      k) t q := by
  obtain ⟨hneg, -, hp⟩ := hs.report.failed hk hpc
  have hnone : (s.events f.event).parent = none := by
    by_contra hne
    have hty := (hs.calls.event _ (hs.calls.head hk).1).parent hne
    have h0 := ((hs.report.head hk).2.1 (by simp [hpc])).resolve_left hty
    rw [h0] at hneg
    exact absurd hneg (by decide)
  have howed := owed_pushDependent (q := q) h hs hi hk (by simp [hpc])
    (E := (s.events d).setStatusHelper f.status) rfl rfl
  rw [if_neg (by simp [hnone])] at howed
  by_cases hq : p = q
  · subst hq
    exact .terminated hk hpc rfl howed rfl
  · refine .other rfl howed fun x _ hx => ?_
    have hne : x ≠ d := by
      rintro rfl
      exact hq (Option.some.inj (hp.symm.trans hx))
    simp [hne]

theorem booking_step (h : Step s a s') (hs : Sound s) (hi : Called s) (q : QueueId) :
    Booking s s' a.actor q := by
  have ho := owed_step h hs hi q
  have hsame : (∀ f k, s.threads a.actor = .push f :: k → f.pc ≠ .submit) →
      (∀ f k, s.threads a.actor = .setStatus f :: k → ∃ i num, f.pc = .notify i num) →
      ∀ x < s.nextEvent, (s.events x).parent = some q →
      (s'.events x).status = (s.events x).status := fun h₁ h₂ x hx _ => status_same h hx h₁ h₂
  cases h
  case createUserEvent ht => exact .other rfl (by simpa using ho) (by simpa [ht] using hsame)
  case setCallback ht hlt => exact .other rfl (by simpa using ho) (by simpa [ht] using hsame)
  all_goals
    simp only [actor_resume, actor_setUserEventStatus, actor_enqueue, actor_flush, actor_finish,
      actor_deviceSetStatus, State.setStack_threads, State.pushDependent_threads,
      Function.update_self, List.countP_cons, List.countP_nil, List.cons.injEq, reduceCtorEq,
      Frame.push.injEq, Frame.setStatus.injEq, *] at ho hsame
  case setUserEventStatus => exact .other rfl (by simpa [StatusFrame.call] using ho) (by simp)
  case deviceSetStatus => exact .other rfl (by simpa [StatusFrame.call] using ho) (by simp)
  case flush => exact .other rfl (by simpa [PushFrame.call] using ho) (by simp)
  case construct ws k hk =>
    have hz : Frame.counts s.events q (if ws.isEmpty then .queueEvent s.nextEvent
        else .register s.nextEvent ws) = false := by split <;> rfl
    rw [hz] at ho
    exact .other rfl (by simpa [Frame.counts] using ho) (by simpa using hsame)
  case queueEvent e p k hk hp hn =>
    by_cases hq : q = p
    · subst q
      refine .append hk hp ?_ (by simpa [Frame.counts, PushFrame.call] using ho) rfl
      simp [Queue.books, Queue.append, Queue.ledger, Ledger.append]
    · exact .other (by simp [hq]) (by simpa [Frame.counts, PushFrame.call] using ho) (by simp)
  case pushReturn f k hk hpc _ _ _ _ =>
    exact booking_counting hk hpc (by simp) (fun hq => by simp [hq]) rfl (by omega)
  case pushEnter f k hk hpc _ =>
    have hcounted : Frame.counts s.events q
        (.push { f with pc := .examineComplete, it := 0, first := true, traversed := 0 }) =
          false := by simp
    rw [hcounted, if_neg Bool.false_ne_true] at ho
    exact booking_counting hk hpc
      (by simp [Queue.books, Queue.lock, Queue.setFlushed, Queue.ledger])
      (fun hq => by simp [hq]) rfl (by omega)
  case pushMove f f' b k hk hm =>
    obtain ⟨h₁, h₂⟩ := pushMove_inside hm
    refine .other ?_ (by simpa [h₁, h₂] using ho) (by simp)
    exact update_field_same (F := Queue.books) (by rfl) q
  case pushErase f e k hk hpc he =>
    have hin : f.pc ≠ .acquire := by rcases hpc with ⟨hpc, _⟩ | ⟨hpc, _⟩ <;> simp [hpc]
    by_cases hq : q = f.queue
    · subst q
      refine .erased he ?_ ?_ (by simpa [hin] using ho) rfl
      · rcases hpc with ⟨-, hst⟩ | ⟨-, hst⟩
        · simp [hst]
        · omega
      · simp [Queue.books, Queue.eraseTerminal, Queue.ledger, Ledger.erase]
    · exact .other (by simp [hq]) (by simpa [hin] using ho) (by simp)
  case pushTake f e k hk hpc he hw hin =>
    by_cases hq : q = f.queue
    · subst q
      refine .taken hk rfl hpc he hw hin ?_
        (by simpa [hpc, StatusFrame.call, Frame.counts] using ho) rfl
      rw [State.setStack_queues, State.setQueue_queues, Function.update_self, wakeAndUnlock_books]
      rfl
    · exact .other (by simp [hq]) (by simpa [hpc, StatusFrame.call, Frame.counts] using ho)
        (by simp)
  case pushSubmit f e k hk hpc he =>
    by_cases hq : q = f.queue
    · subst q
      exact .submitted hk rfl hpc he rfl (by simpa [hpc] using ho) rfl
    · refine .other rfl (by simpa [hpc] using ho) fun x hx hp => ?_
      have hne : x ≠ e := by
        rintro rfl
        exact hq (Option.some.inj (hp.symm.trans (hs.wf.event_lt he).2))
      simp [hne]
  case pushHandOver f e k hk hpc he =>
    by_cases hq : q = f.queue
    · subst q
      refine .handed hk rfl hpc he ?_ (by simpa [hpc] using ho) rfl
      simp [Queue.books, Queue.pushEvent, Queue.ledger, Ledger.hand]
    · exact .other (by simp [hq]) (by simpa [hpc] using ho) (by simp)
  case pushLeave f k hk hpc =>
    refine .other ?_ (by simpa [hpc] using ho) (by simp)
    exact update_field_same (F := Queue.books) (by simp) q
  case helperNotify t g f k hk hpc hp =>
    have hfresh : f.alreadyPushed = false := hi.fresh t (.setStatus f) (by simp [hk]) hpc
    refine booking_reported hk hpc rfl rfl ?_
    by_cases hq : (s.events f.event).parent = some q
    · have hst : f.status = clComplete := by
        have hne := (hs.calls.event _ (hs.calls.head hk).1).parent (by simp [hq])
        simpa [Event.propagates, hne, hq] using hp
      rw [if_pos ⟨hq, hst⟩]
      simp [hpc, hq, hfresh] at ho ⊢
      omega
    · simpa [hpc, hq] using ho
  case helperReturn f k hk hpc hp =>
    refine booking_reported hk hpc rfl rfl ?_
    have hne : ¬((s.events f.event).parent = some q ∧ f.status = clComplete) := by
      rintro ⟨hq, hst⟩
      simp [Event.propagates, hq, hst] at hp
    rw [if_neg hne]
    simpa [hpc] using ho
  case notifyBlocked f i num d k hk hpc _ _ _ _ =>
    refine .other rfl (by simpa [hpc] using ho) (hsame (fun _ _ h => h.1.elim) ?_)
    rintro _ _ ⟨rfl, -⟩
    exact ⟨i, num, hpc⟩
  case notifyReady hk hpc hlt hd hm hw hp hst =>
    exact booking_ready hs hi hk hpc (.notifyReady (g := true) hk hpc hlt hd hm hw hp hst)
      hlt hd hw hp
  case notifyFailed f i num d p k hk hpc _ _ _ _ _ _ =>
    refine .other rfl (by simpa [hpc] using ho) (hsame (fun _ _ h => h.1.elim) ?_)
    rintro _ _ ⟨rfl, -⟩
    exact ⟨i, num, hpc⟩
  case terminate hk hpc => exact booking_terminate hs hi hk hpc (.terminate (g := true) hk hpc)
  case notifyReturn f i num k hk hpc _ hret =>
    refine .other rfl ?_ (by simp)
    rw [counts_setStatus, if_neg] at ho
    · omega
    · rcases hret with hret | hret <;> simp [hret]
  case notifyPush f i num p k hk hpc _ hp hpushed =>
    refine .other rfl ?_ (by simp)
    simpa [hpc, hp, hpushed, PushFrame.call] using ho
  case release =>
    refine .other ?_ (by simpa [Frame.counts] using ho) (by simp)
    exact update_field_same (F := Queue.books) (by rfl) q
  case cleanEnter =>
    refine .other ?_ (by simpa [Frame.counts] using ho) (by simp)
    exact update_field_same (F := Queue.books) (by rfl) q
  case cleanErase f e k hk hpc he hst =>
    by_cases hq : q = f.queue
    · subst q
      refine .erased he (by simp [hst]) ?_ (by simpa [Frame.counts] using ho) rfl
      simp [Queue.books, Queue.eraseTerminal, Queue.ledger, Ledger.erase]
    · exact .other (by simp [hq]) (by simpa [Frame.counts] using ho) (by simp)
  case cleanLeave =>
    refine .other ?_ (by simpa [Frame.counts] using ho) (by simp)
    exact update_field_same (F := Queue.books) (by simp) q
  case addDependent => exact .other rfl (by simpa [Frame.counts] using ho) (by simpa using hsame)
  case appendWait => exact .other rfl (by simpa [Frame.counts] using ho) (by simpa using hsame)
  case constructed => exact .other rfl (by simpa [Frame.counts] using ho) (by simpa using hsame)
  all_goals exact .other rfl (by simpa [Frame.counts] using ho) (by simp)

end Shamrock.Scheduler
