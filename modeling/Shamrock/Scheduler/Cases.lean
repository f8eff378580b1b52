import Shamrock.Scheduler.Step

/-! What one step can do: a case for each kind of critical section, with its guards. -/
namespace Shamrock.Scheduler

variable {T : Type} [DecidableEq T]

/-- Moves of `pushEventsOnDevice` inside the loop that leave the list and all events alone. The
last argument is the new value of `p_flushed`. -/
inductive PushMove (Q : Queue T) (events : EventId → Event) (f : PushFrame) :
    PushFrame → Bool → Prop
  | listEnd : f.pc = .examineComplete → f.event Q = none →
      PushMove Q events f { f with pc := .leave } Q.flushed
  | notComplete {e : EventId} : f.pc = .examineComplete → f.event Q = some e →
      (events e).status ≠ clComplete →
      PushMove Q events f { f with pc := .examineError } Q.flushed
  | threshold {e : EventId} : f.pc = .examineError → f.event Q = some e →
      0 ≤ (events e).status → f.readyEvent = none → pushEventsThreshold < f.traversed →
      PushMove Q events f { f with pc := .leave } Q.flushed
  | notFirst {e : EventId} : f.pc = .examineError → f.event Q = some e →
      0 ≤ (events e).status → f.first = false →
      Q.outOfOrder = false ∨ (events e).type = .barrier →
      PushMove Q events f { f with pc := .leave, traversed := f.traversed + 1 } false
  | candidate {e : EventId} : f.pc = .examineError → f.event Q = some e →
      0 ≤ (events e).status →
      f.first = true ∨ Q.outOfOrder = true ∧ (events e).type ≠ .barrier →
      PushMove Q events f
        { f with pc := .examineQueued, first := false, traversed := f.traversed + 1 } Q.flushed
  | readyScheduled {e : EventId} : f.pc = .examineQueued → f.event Q = some e →
      (events e).status ≠ clQueued → f.readyEvent = some e →
      PushMove Q events f { f with pc := .leave } Q.flushed
  | scheduled {e : EventId} : f.pc = .examineQueued → f.event Q = some e →
      (events e).status ≠ clQueued → f.readyEvent ≠ some e →
      PushMove Q events f { f with pc := .examineComplete, it := f.it + 1 } Q.flushed
  | isQueued {e : EventId} : f.pc = .examineQueued → f.event Q = some e →
      (events e).status = clQueued →
      PushMove Q events f { f with pc := .examineWait } Q.flushed
  | waitForEvents {e : EventId} : f.pc = .examineWait → f.event Q = some e →
      (events e).waitEvents ≠ [] → (events e).type = .waitForEvents →
      PushMove Q events f { f with pc := .leave } false
  | blocked {e : EventId} : f.pc = .examineWait → f.event Q = some e →
      (events e).waitEvents ≠ [] → (events e).type ≠ .waitForEvents →
      PushMove Q events f { f with pc := .examineComplete, it := f.it + 1 } false
  | pushable {e : EventId} : f.pc = .examineWait → f.event Q = some e →
      (events e).waitEvents = [] → (events e).type.isInstantaneous = false →
      PushMove Q events f { f with pc := .submit } Q.flushed

/-- Moves of `cleanEvents` inside the loop that leave the list alone. -/
inductive CleanMove (Q : Queue T) (events : EventId → Event) (f : CleanFrame) :
    CleanFrame → Prop
  | listEnd : f.pc = .examine → f.event Q = none →
      CleanMove Q events f { f with pc := .leave }
  | inOrder {e : EventId} : f.pc = .examine → f.event Q = some e →
      (events e).status ≠ clComplete → Q.outOfOrder = false →
      CleanMove Q events f { f with pc := .leave }
  | skip {e : EventId} : f.pc = .examine → f.event Q = some e →
      (events e).status ≠ clComplete → Q.outOfOrder = true →
      CleanMove Q events f { f with it := f.it + 1 }

/-- The transitions of the scheduler. -/
inductive Step (s : State T) : Action T → State T → Prop
  | createUserEvent {t : T} : s.threads t = [] →
      Step s (.createUserEvent t) (s.newEvent .userEvent)
  | setUserEventStatus {t : T} {e : EventId} {st : Int} : s.threads t = [] →
      e < s.nextEvent → (s.events e).type = .user → st ≤ 0 →
      (s.events e).status = clSubmitted →
      Step s (.setUserEventStatus t e st) (s.setStack t [.setStatus (.call e st)])
  | setCallback {t : T} {e : EventId} {type : Int} {c : CallbackId} : s.threads t = [] →
      e < s.nextEvent →
      Step s (.setCallback t e type c) (s.setEvent e ((s.events e).setCallback type c))
  | enqueue {t : T} {type : EventType} {q : QueueId} {ws : List EventId} : s.threads t = [] →
      type ≠ .user → s.knows ws →
      Step s (.enqueue t type q ws) (s.setStack t [.check type q ws ws])
  | flush {t : T} {q : QueueId} : s.threads t = [] →
      Step s (.flush t q) (s.setStack t [.push (.call q none false)])
  | finish {t : T} {q : QueueId} : s.threads t = [] →
      Step s (.finish t q)
        (s.setStack t [.clean { queue := q, pc := .acquire, it := 0 }, .finish q])
  | deviceSetStatus {t : T} {e : EventId} {st : Int} {q : QueueId} : s.threads t = [] →
      (s.events e).parent = some q → e ∈ (s.queues q).handed → st = clRunning ∨ st ≤ 0 →
      Step s (.deviceSetStatus t e st) (s.setStack t [.setStatus (.call e st)])
  | checkNext {t : T} {g : Bool} {type : EventType} {q : QueueId} {ws rest : List EventId}
      {w : EventId} {k : List Frame} : s.threads t = .check type q ws (w :: rest) :: k →
      0 ≤ (s.events w).status →
      Step s (.resume t g) (s.setStack t (.check type q ws rest :: k))
  | checkFailed {t : T} {g : Bool} {type : EventType} {q : QueueId} {ws rest : List EventId}
      {w : EventId} {k : List Frame} : s.threads t = .check type q ws (w :: rest) :: k →
      (s.events w).status < 0 →
      Step s (.resume t g) (s.setStack t k)
  | construct {t : T} {g : Bool} {type : EventType} {q : QueueId} {ws : List EventId}
      {k : List Frame} : s.threads t = .check type q ws [] :: k →
      Step s (.resume t g) ((s.newEvent (.command type q ws)).setStack t
        ((if ws.isEmpty then .queueEvent s.nextEvent else .register s.nextEvent ws) :: k))
  | addDependent {t : T} {g : Bool} {e w : EventId} {rest : List EventId} {k : List Frame} :
      s.threads t = .register e (w :: rest) :: k → (s.events w).status ≠ clComplete →
      Step s (.resume t g) ((s.setEvent w ((s.events w).addDependentEvent e).1).setStack t
        (.appendWait e w rest :: k))
  | addDependentRefused {t : T} {g : Bool} {e w : EventId} {rest : List EventId}
      {k : List Frame} : s.threads t = .register e (w :: rest) :: k →
      (s.events w).status = clComplete →
      Step s (.resume t g) (s.setStack t (.register e rest :: k))
  | appendWait {t : T} {g : Bool} {e w : EventId} {rest : List EventId} {k : List Frame} :
      s.threads t = .appendWait e w rest :: k →
      Step s (.resume t g) ((s.setEvent e ((s.events e).addWaitEvent w)).setStack t
        (.register e rest :: k))
  | constructed {t : T} {g : Bool} {e : EventId} {k : List Frame} :
      s.threads t = .register e [] :: k →
      Step s (.resume t g) ((s.setEvent e { s.events e with stateMutex := false }).setStack t
        (.queueEvent e :: k))
  | queueEvent {t : T} {g : Bool} {e : EventId} {q : QueueId} {k : List Frame} :
      s.threads t = .queueEvent e :: k → (s.events e).parent = some q →
      (s.queues q).mutex = none →
      Step s (.resume t g) ((s.setQueue q ((s.queues q).append e)).setStack t
        (.push (.call q none false) :: k))
  | pushReturn {t : T} {f : PushFrame} {k : List Frame} :
      s.threads t = .push f :: k → f.pc = .acquire → (s.queues f.queue).mutex = none →
      (s.queues f.queue).outOfOrder = true → f.readyEvent = none →
      2 < ((s.queues f.queue).countCompletion f.oneEventCompleted).numEventsOnDevice →
      Step s (.resume t true)
        ((s.setQueue f.queue ((s.queues f.queue).countCompletion f.oneEventCompleted)).setStack
          t k)
  | pushEnter {t : T} {g : Bool} {f : PushFrame} {k : List Frame} :
      s.threads t = .push f :: k → f.pc = .acquire → (s.queues f.queue).mutex = none →
      Step s (.resume t g)
        ((s.setQueue f.queue ((((s.queues f.queue).countCompletion f.oneEventCompleted).lock
          t).setFlushed true)).setStack t
          (.push { f with pc := .examineComplete, it := 0, first := true, traversed := 0 } :: k))
  | pushMove {t : T} {g : Bool} {f f' : PushFrame} {b : Bool} {k : List Frame} :
      s.threads t = .push f :: k → PushMove (s.queues f.queue) s.events f f' b →
      Step s (.resume t g)
        ((s.setQueue f.queue ((s.queues f.queue).setFlushed b)).setStack t (.push f' :: k))
  | pushErase {t : T} {g : Bool} {f : PushFrame} {e : EventId} {k : List Frame} :
      s.threads t = .push f :: k →
      f.pc = .examineComplete ∧ (s.events e).status = clComplete ∨
        f.pc = .examineError ∧ (s.events e).status < 0 →
      f.event (s.queues f.queue) = some e →
      Step s (.resume t g)
        ((s.setQueue f.queue ((s.queues f.queue).eraseTerminal f.it e)).setStack t
          (.push { f with pc := .examineComplete } :: k))
  | pushTake {t : T} {g : Bool} {f : PushFrame} {e : EventId} {k : List Frame} :
      s.threads t = .push f :: k → f.pc = .examineWait →
      f.event (s.queues f.queue) = some e → (s.events e).waitEvents = [] →
      (s.events e).type.isInstantaneous = true →
      Step s (.resume t g)
        ((s.setQueue f.queue ((s.queues f.queue).takeInstantaneous f.it e).wakeAndUnlock).setStack
          t (.setStatus (.call e clComplete) :: .release e :: k))
  | pushSubmit {t : T} {g : Bool} {f : PushFrame} {e : EventId} {k : List Frame} :
      s.threads t = .push f :: k → f.pc = .submit → f.event (s.queues f.queue) = some e →
      Step s (.resume t g)
        ((s.setEvent e ((s.events e).setStatusHelper clSubmitted)).setStack t
          (.push { f with pc := .handOver } :: k))
  | pushHandOver {t : T} {g : Bool} {f : PushFrame} {e : EventId} {k : List Frame} :
      s.threads t = .push f :: k → f.pc = .handOver → f.event (s.queues f.queue) = some e →
      Step s (.resume t g)
        ((s.setQueue f.queue ((s.queues f.queue).pushEvent e)).setStack t
          (.push { f with pc := .examineComplete } :: k))
  | pushLeave {t : T} {g : Bool} {f : PushFrame} {k : List Frame} :
      s.threads t = .push f :: k → f.pc = .leave →
      Step s (.resume t g)
        ((s.setQueue f.queue ((s.queues f.queue).leavePush f.readyEvent)).setStack t k)
  | helperNotify {t : T} {g : Bool} {f : StatusFrame} {k : List Frame} :
      s.threads t = .setStatus f :: k → f.pc = .helper →
      (s.events f.event).propagates f.status = true →
      Step s (.resume t g)
        ((s.setEvent f.event ((s.events f.event).setStatusHelper f.status)).setStack t
          (.setStatus { f with pc := .notify 0 (s.events f.event).dependentEvents.length } :: k))
  | helperReturn {t : T} {g : Bool} {f : StatusFrame} {k : List Frame} :
      s.threads t = .setStatus f :: k → f.pc = .helper →
      (s.events f.event).propagates f.status = false →
      Step s (.resume t g)
        ((s.setEvent f.event ((s.events f.event).setStatusHelper f.status)).setStack t k)
  | notifyBlocked {t : T} {g : Bool} {f : StatusFrame} {i num : Nat} {d : EventId}
      {k : List Frame} : s.threads t = .setStatus f :: k → f.pc = .notify i num → i < num →
      (s.events f.event).dependentEvents[i]? = some d → (s.events d).stateMutex = false →
      (s.events d).waitEvents.filter (· ≠ f.event) ≠ [] ∨ (s.events d).parent = none →
      Step s (.resume t g)
        ((s.setEvent d ((s.events d).removeWaitEvent f.event).1).setStack t
          (.setStatus { f with pc := .notify (i + 1) num } :: k))
  | notifyReady {t : T} {g : Bool} {f : StatusFrame} {i num : Nat} {d : EventId} {q : QueueId}
      {k : List Frame} : s.threads t = .setStatus f :: k → f.pc = .notify i num → i < num →
      (s.events f.event).dependentEvents[i]? = some d → (s.events d).stateMutex = false →
      (s.events d).waitEvents.filter (· ≠ f.event) = [] → (s.events d).parent = some q →
      0 ≤ f.status →
      Step s (.resume t g)
        (pushDependent (s.setEvent d ((s.events d).removeWaitEvent f.event).1) t f i num d q k)
  | notifyFailed {t : T} {g : Bool} {f : StatusFrame} {i num : Nat} {d : EventId} {q : QueueId}
      {k : List Frame} : s.threads t = .setStatus f :: k → f.pc = .notify i num → i < num →
      (s.events f.event).dependentEvents[i]? = some d → (s.events d).stateMutex = false →
      (s.events d).waitEvents.filter (· ≠ f.event) = [] → (s.events d).parent = some q →
      f.status < 0 →
      Step s (.resume t g)
        ((s.setEvent d ((s.events d).removeWaitEvent f.event).1).setStack t
          (.setStatus { f with pc := .terminate i num d q } :: k))
  | terminate {t : T} {g : Bool} {f : StatusFrame} {i num : Nat} {d : EventId} {q : QueueId}
      {k : List Frame} : s.threads t = .setStatus f :: k → f.pc = .terminate i num d q →
      Step s (.resume t g)
        (pushDependent (s.setEvent d ((s.events d).setStatusHelper f.status)) t f i num d q k)
  | notifyReturn {t : T} {g : Bool} {f : StatusFrame} {i num : Nat} {k : List Frame} :
      s.threads t = .setStatus f :: k → f.pc = .notify i num → num ≤ i →
      (s.events f.event).parent = none ∨ f.alreadyPushed = true →
      Step s (.resume t g) (s.setStack t k)
  | notifyPush {t : T} {g : Bool} {f : StatusFrame} {i num : Nat} {q : QueueId}
      {k : List Frame} : s.threads t = .setStatus f :: k → f.pc = .notify i num → num ≤ i →
      (s.events f.event).parent = some q → f.alreadyPushed = false →
      Step s (.resume t g) (s.setStack t (.push (.call q none true) :: k))
  | release {t : T} {g : Bool} {e : EventId} {q : QueueId} {k : List Frame} :
      s.threads t = .release e :: k → (s.events e).parent = some q →
      Step s (.resume t g) ((s.setQueue q ((s.queues q).release e)).setStack t k)
  | cleanReturn {t : T} {g : Bool} {f : CleanFrame} {k : List Frame} :
      s.threads t = .clean f :: k → f.pc = .acquire → (s.queues f.queue).mutex = none →
      Step s (.resume t g) (s.setStack t k)
  | cleanEnter {t : T} {g : Bool} {f : CleanFrame} {k : List Frame} :
      s.threads t = .clean f :: k → f.pc = .acquire → (s.queues f.queue).mutex = none →
      Step s (.resume t g)
        ((s.setQueue f.queue ((s.queues f.queue).lock t)).setStack t
          (.clean { f with pc := .examine, it := 0 } :: k))
  | cleanMove {t : T} {g : Bool} {f f' : CleanFrame} {k : List Frame} :
      s.threads t = .clean f :: k → CleanMove (s.queues f.queue) s.events f f' →
      Step s (.resume t g) (s.setStack t (.clean f' :: k))
  | cleanErase {t : T} {g : Bool} {f : CleanFrame} {e : EventId} {k : List Frame} :
      s.threads t = .clean f :: k → f.pc = .examine → f.event (s.queues f.queue) = some e →
      (s.events e).status = clComplete →
      Step s (.resume t g)
        ((s.setQueue f.queue ((s.queues f.queue).eraseTerminal f.it e)).setStack t
          (.clean f :: k))
  | cleanLeave {t : T} {g : Bool} {f : CleanFrame} {k : List Frame} :
      s.threads t = .clean f :: k → f.pc = .leave →
      Step s (.resume t g) ((s.setQueue f.queue (s.queues f.queue).leaveClean).setStack t k)
  | finishReturn {t : T} {g : Bool} {q : QueueId} {k : List Frame} :
      s.threads t = .finish q :: k → (s.queues q).mutex = none →
      (s.queues q).numEventsInQueue = 0 →
      Step s (.resume t g) (s.setStack t k)
  | finishSleep {t : T} {g : Bool} {q : QueueId} {k : List Frame} :
      s.threads t = .finish q :: k → (s.queues q).mutex = none →
      (s.queues q).numEventsInQueue ≠ 0 →
      Step s (.resume t g) (s.setStack t (.asleep q (s.queues q).cond :: k))
  | wake {t : T} {g : Bool} {q : QueueId} {n : Nat} {k : List Frame} :
      s.threads t = .asleep q n :: k → n < (s.queues q).cond →
      Step s (.resume t g) (s.setStack t (.finish q :: k))

omit [DecidableEq T] in
theorem setFlushed_self (s : State T) (q : QueueId) :
    s.setQueue q ((s.queues q).setFlushed (s.queues q).flushed) = s := by
  simp [State.setQueue, Queue.setFlushed]

/-- A move that keeps `p_flushed` writes nothing to the queue. -/
theorem Step.pushMove_same {s : State T} {t : T} {g : Bool} {f f' : PushFrame} {k : List Frame}
    (hk : s.threads t = .push f :: k)
    (h : PushMove (s.queues f.queue) s.events f f' (s.queues f.queue).flushed) :
    Step s (.resume t g) (s.setStack t (.push f' :: k)) := by
  have hm := Step.pushMove (g := g) hk h
  rwa [setFlushed_self] at hm

theorem resumePush_cases {s s' : State T} {t : T} {g : Bool} {f : PushFrame} {k : List Frame}
    (hk : s.threads t = .push f :: k) (h : resumePush s t g f k = some s') :
    Step s (.resume t g) s' := by
  unfold resumePush at h
  dsimp only at h
  split at h
  · rename_i hpc
    split at h
    · cases h
    · rename_i hm
      have hm : (s.queues f.queue).mutex = none := by simpa using hm
      split at h
      · rename_i hc
        simp only [Bool.and_eq_true, Option.isNone_iff_eq_none, decide_eq_true_eq] at hc
        obtain ⟨⟨⟨ho, hr⟩, hn⟩, rfl⟩ := hc
        cases h
        refine .pushReturn hk hpc hm ?_ hr hn
        revert ho
        unfold Queue.countCompletion
        split <;> exact id
      · cases h
        exact .pushEnter hk hpc hm
  · rename_i hpc he
    cases h
    exact .pushMove_same hk (.listEnd hpc he)
  · rename_i e hpc he
    split at h
    · rename_i hs
      cases h
      have hf : f = { f with pc := .examineComplete } := by rw [← hpc]
      have := Step.pushErase (g := g) hk (.inl ⟨hpc, hs⟩) he
      rwa [← hf] at this
    · rename_i hs
      cases h
      exact .pushMove_same hk (.notComplete hpc he hs)
  · rename_i e hpc he
    split at h
    · rename_i hs
      cases h
      exact .pushErase hk (.inr ⟨hpc, hs⟩) he
    · rename_i hs
      have hs : 0 ≤ (s.events e).status := by omega
      split at h
      · rename_i hc
        simp only [Bool.and_eq_true, Option.isNone_iff_eq_none, decide_eq_true_eq] at hc
        cases h
        exact .pushMove_same hk (.threshold hpc he hs hc.1 hc.2)
      · split at h
        · rename_i hc
          simp only [Bool.or_eq_true, Bool.and_eq_true, Bool.not_eq_true', decide_eq_true_eq] at hc
          cases h
          refine .pushMove hk (.notFirst hpc he hs ?_ ?_)
          · rcases hc with hc | hc <;> exact hc.2
          · exact hc.imp And.left And.left
        · rename_i hc
          cases h
          refine .pushMove_same hk (.candidate hpc he hs ?_)
          cases hf : f.first <;> simp_all
  · rename_i e hpc he
    split at h
    · rename_i hs
      split at h <;> cases h
      · rename_i hr
        exact .pushMove_same hk (.readyScheduled hpc he hs hr)
      · rename_i hr
        exact .pushMove_same hk (.scheduled hpc he hs hr)
    · rename_i hs
      cases h
      exact .pushMove_same hk (.isQueued hpc he (not_not.mp hs))
  · rename_i e hpc he
    split at h
    · rename_i hw
      have hw : (s.events e).waitEvents ≠ [] := by
        simpa [Event.waitEventsAllCompleted] using hw
      cases h
      by_cases ht : (s.events e).type = .waitForEvents
      · rw [if_pos ht]
        exact .pushMove hk (.waitForEvents hpc he hw ht)
      · rw [if_neg ht]
        exact .pushMove hk (.blocked hpc he hw ht)
    · rename_i hw
      have hw : (s.events e).waitEvents = [] := by
        simpa [Event.waitEventsAllCompleted] using hw
      split at h <;> cases h
      · rename_i hi
        exact .pushTake hk hpc he hw hi
      · rename_i hi
        exact .pushMove_same hk (.pushable hpc he hw (by simpa using hi))
  · rename_i e hpc he
    cases h
    exact .pushSubmit hk hpc he
  · rename_i e hpc he
    cases h
    exact .pushHandOver hk hpc he
  · rename_i hpc
    cases h
    exact .pushLeave hk hpc
  · cases h

theorem resumeSetStatus_cases {s s' : State T} {t : T} {g : Bool} {f : StatusFrame}
    {k : List Frame} (hk : s.threads t = .setStatus f :: k)
    (h : resumeSetStatus s t f k = some s') : Step s (.resume t g) s' := by
  unfold resumeSetStatus at h
  dsimp only at h
  split at h
  · rename_i hpc
    split at h <;> cases h
    · rename_i hp
      exact .helperNotify hk hpc hp
    · rename_i hp
      exact .helperReturn hk hpc (by simpa using hp)
  · rename_i i num hpc
    split at h
    · rename_i hi
      split at h
      · cases h
      · rename_i d hd
        split at h
        · cases h
        · rename_i hm
          have hm : (s.events d).stateMutex = false := by simpa using hm
          split at h
          · rename_i q he hq
            have he : (s.events d).waitEvents.filter (· ≠ f.event) = [] :=
              List.isEmpty_iff.mp he
            split at h <;> cases h
            · rename_i hst
              exact .notifyFailed hk hpc hi hd hm he hq hst
            · rename_i hst
              exact .notifyReady hk hpc hi hd hm he hq (not_lt.mp hst)
          · rename_i hn
            cases h
            refine .notifyBlocked hk hpc hi hd hm ?_
            by_cases he : (s.events d).waitEvents.filter (· ≠ f.event) = []
            · right
              cases hq : (s.events d).parent with
              | none => rfl
              | some q => exact absurd hq (hn q (List.isEmpty_iff.mpr he))
            · exact .inl he
    · rename_i hi
      have hi : num ≤ i := by omega
      split at h
      · rename_i hq
        cases h
        exact .notifyReturn hk hpc hi (.inl hq)
      · rename_i q hq
        split at h <;> cases h
        · rename_i ha
          exact .notifyReturn hk hpc hi (.inr ha)
        · rename_i ha
          exact .notifyPush hk hpc hi hq (by simpa using ha)
  · rename_i i num d q hpc
    cases h
    exact .terminate hk hpc

theorem resumeClean_cases {s s' : State T} {t : T} {g : Bool} {f : CleanFrame} {k : List Frame}
    (hk : s.threads t = .clean f :: k) (h : resumeClean s t f k = some s') :
    Step s (.resume t g) s' := by
  unfold resumeClean at h
  dsimp only at h
  split at h
  · rename_i hpc
    split at h
    · cases h
    · rename_i hm
      have hm : (s.queues f.queue).mutex = none := by simpa using hm
      split at h <;> cases h
      · exact .cleanReturn hk hpc hm
      · exact .cleanEnter hk hpc hm
  · rename_i hpc he
    cases h
    exact .cleanMove hk (.listEnd hpc he)
  · rename_i e hpc he
    split at h
    · rename_i hs
      cases h
      exact .cleanErase hk hpc he hs
    · rename_i hs
      split at h <;> cases h
      · rename_i ho
        exact .cleanMove hk (.inOrder hpc he hs (by simpa using ho))
      · rename_i ho
        exact .cleanMove hk (.skip hpc he hs (by simpa using ho))
  · rename_i hpc
    cases h
    exact .cleanLeave hk hpc

theorem resumeCheck_cases {s s' : State T} {t : T} {g : Bool} {type : EventType} {q : QueueId}
    {ws rest : List EventId} {k : List Frame} (hk : s.threads t = .check type q ws rest :: k)
    (h : resumeCheck s t type q ws rest k = some s') : Step s (.resume t g) s' := by
  cases rest with
  | nil =>
    cases h
    exact .construct hk
  | cons w rest =>
    simp only [resumeCheck] at h
    split at h <;> cases h
    · rename_i hs
      exact .checkFailed hk hs
    · rename_i hs
      exact .checkNext hk (by omega)

theorem resumeRegister_cases {s s' : State T} {t : T} {g : Bool} {e : EventId}
    {rest : List EventId} {k : List Frame} (hk : s.threads t = .register e rest :: k)
    (h : resumeRegister s t e rest k = some s') : Step s (.resume t g) s' := by
  cases rest with
  | nil =>
    cases h
    exact .constructed hk
  | cons w rest =>
    simp only [resumeRegister] at h
    by_cases hs : (s.events w).status = clComplete
    · have hr : ((s.events w).addDependentEvent e).2 = false := by
        simp [Event.addDependentEvent, hs]
      rw [hr] at h
      cases h
      exact .addDependentRefused hk hs
    · have hr : ((s.events w).addDependentEvent e).2 = true := by
        simp [Event.addDependentEvent, hs]
      rw [hr] at h
      cases h
      exact .addDependent hk hs

theorem resume_cases {s s' : State T} {t : T} {g : Bool} (h : resume s t g = some s') :
    Step s (.resume t g) s' := by
  unfold resume at h
  split at h
  · cases h
  · rename_i hk
    exact resumeCheck_cases hk h
  · rename_i hk
    exact resumeRegister_cases hk h
  · rename_i hk
    cases h
    exact .appendWait hk
  · rename_i e k hk
    unfold resumeQueueEvent at h
    split at h
    · cases h
    · rename_i q hq
      dsimp only at h
      split at h <;> cases h
      rename_i hm
      exact .queueEvent hk hq (by simpa using hm)
  · rename_i hk
    exact resumePush_cases hk h
  · rename_i hk
    exact resumeSetStatus_cases hk h
  · rename_i e k hk
    unfold resumeRelease at h
    split at h <;> cases h
    rename_i q hq
    exact .release hk hq
  · rename_i hk
    exact resumeClean_cases hk h
  · rename_i q k hk
    dsimp only at h
    split at h
    · cases h
    · rename_i hm
      have hm : (s.queues q).mutex = none := by simpa using hm
      split at h <;> cases h
      · rename_i hn
        exact .finishSleep hk hm hn
      · rename_i hn
        exact .finishReturn hk hm (not_not.mp hn)
  · rename_i hk
    split at h <;> cases h
    rename_i hg
    exact .wake hk hg

/-- Every step is one of the cases. -/
theorem step_cases {s s' : State T} {a : Action T} (h : step s a = some s') : Step s a s' := by
  cases a with
  | createUserEvent t =>
    simp only [step] at h
    split at h <;> cases h
    rename_i hk
    exact .createUserEvent hk
  | setUserEventStatus t e st =>
    simp only [step] at h
    split at h <;> cases h
    rename_i hc
    exact .setUserEventStatus hc.1 hc.2.1 hc.2.2.1 hc.2.2.2.1 hc.2.2.2.2
  | setCallback t e type c =>
    simp only [step] at h
    split at h <;> cases h
    rename_i hc
    exact .setCallback hc.1 hc.2.1
  | enqueue t type q ws =>
    simp only [step] at h
    split at h <;> cases h
    rename_i hc
    exact .enqueue hc.1 hc.2.1 hc.2.2
  | flush t q =>
    simp only [step] at h
    split at h <;> cases h
    rename_i hk
    exact .flush hk
  | finish t q =>
    simp only [step] at h
    split at h <;> cases h
    rename_i hk
    exact .finish hk
  | deviceSetStatus t e st =>
    simp only [step] at h
    split at h <;> cases h
    rename_i hc
    obtain ⟨hk, hh, hst⟩ := hc
    unfold State.handedOver at hh
    split at hh
    · cases hh
    · rename_i q hq
      exact .deviceSetStatus hk hq (by simpa using hh) hst
  | resume t g => exact resume_cases h

end Shamrock.Scheduler
