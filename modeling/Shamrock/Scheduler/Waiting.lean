import Shamrock.Scheduler.Callbacks
import Shamrock.Scheduler.Marker
import Shamrock.Scheduler.Profiling

/-!
# Waiting for events

`clWaitForEvents` and the blocking `clEnqueue*` calls that end with it. The calls are sequences of
steps of their own, between those of the scheduler.
-/
namespace Shamrock.Scheduler

open Transition

variable {T : Type} [DecidableEq T]

/-- Where a thread is in `clWaitForEvents`, or before it in a blocking `clEnqueue*`. -/
inductive WaitPC
  /-- the first loop at position `i`, with `global_ctx` -/
  | checking (events : List EventId) (i : Nat) (globalCtx : Option Nat)
  /-- the second loop, in `waitForStatus(CL_COMPLETE)` for the event at `i` -/
  | waiting (events : List EventId) (i : Nat)
  /-- the constructor of the command -/
  | constructing
  /-- `CommandQueue::queueEvent` -/
  | queueing (command : EventId)
  deriving DecidableEq, Repr

structure WaitCall where
  blocking : Bool
  pc : WaitPC
  deriving DecidableEq, Repr

/-- What a call has answered, with the statuses of its events at that time. -/
structure WaitReturn where
  blocking : Bool
  events : List EventId
  code : Int
  statuses : List Int
  deriving DecidableEq, Repr

/-- The scheduler with the contexts and the calls that wait. -/
structure WaitState (T : Type) where
  sched : State T
  queueContext : QueueId → Nat
  userContext : EventId → Nat
  calls : T → Option WaitCall
  returns : List WaitReturn

inductive WaitAction (T : Type)
  | sched (a : Action T)
  /-- `clWaitForEvents`; without a list the pointer is null -/
  | waitForEvents (t : T) (events : Option (List EventId))
  /-- a `clEnqueue*` with `blocking` set -/
  | enqueueBlocking (t : T) (type : EventType) (q : QueueId) (waitList : List EventId)
  /-- the next step of such a call -/
  | proceed (t : T) (enough : Bool)

namespace WaitState

def setCall (m : WaitState T) (t : T) (call : Option WaitCall) : WaitState T :=
  { m with calls := Function.update m.calls t call }

/-- The end of a call. -/
def leave (m : WaitState T) (t : T) (blocking : Bool) (events : List EventId) (code : Int) :
    WaitState T :=
  { m.setCall t none with
    returns := m.returns ++
      [⟨blocking, events, code, events.map fun e => (m.sched.events e).status⟩] }

/-- The context of a user event, or that of the queue of a command. -/
def contextOf (m : WaitState T) (e : EventId) : Nat :=
  if (m.sched.events e).type = .user then m.userContext e
  else m.queueContext ((m.sched.events e).parent.getD 0)

/-- The first loop, for one event. -/
def check (m : WaitState T) (t : T) (blocking : Bool) (events : List EventId) (i : Nat)
    (globalCtx : Option Nat) (e : EventId) : WaitState T :=
  if ¬ e < m.sched.nextEvent then m.leave t blocking events clInvalidEvent
  else if (m.sched.events e).status < 0 then
    m.leave t blocking events clExecStatusErrorForEventsInWaitList
  else if globalCtx.getD (m.contextOf e) = m.contextOf e then
    m.setCall t (some ⟨blocking, .checking events (i + 1) (some (m.contextOf e))⟩)
  else m.leave t blocking events clInvalidContext

/-- The next step of the call that thread `t` is in. -/
def proceedWait (m : WaitState T) (t : T) (enough : Bool) (call : WaitCall) :
    Option (WaitState T) :=
  match call.pc with
  | .checking events i globalCtx =>
    match events[i]? with
    | some e => some (m.check t call.blocking events i globalCtx e)
    | none => some (m.setCall t (some ⟨call.blocking, .waiting events 0⟩))
  | .waiting events i =>
    match events[i]? with
    | some e =>
      -- `pthread_cond_wait` until the loop test fails
      if (m.sched.events e).status ≠ clComplete ∧ 0 < (m.sched.events e).status then none
      else some (m.setCall t (some ⟨call.blocking, .waiting events (i + 1)⟩))
    | none => some (m.leave t call.blocking events clSuccess)
  | .constructing =>
    (step m.sched (.resume t enough)).map fun s' =>
      let m' := { m with sched := s' }
      if s'.threads t = [] then m'.leave t call.blocking [] clExecStatusErrorForEventsInWaitList
      else if m.sched.nextEvent < s'.nextEvent then
        m'.setCall t (some ⟨call.blocking, .queueing m.sched.nextEvent⟩)
      else m'
  | .queueing command =>
    if m.sched.threads t = [] then
      some (m.setCall t (some ⟨call.blocking, .checking [command] 0 none⟩))
    else (step m.sched (.resume t enough)).map fun s' => { m with sched := s' }

end WaitState

def waitStep (m : WaitState T) : WaitAction T → Option (WaitState T)
  | .sched a =>
    if (m.calls a.actor).isNone then (step m.sched a).map fun s' => { m with sched := s' } else none
  | .waitForEvents t events =>
    if (m.calls t).isNone ∧ m.sched.threads t = [] then
      match events with
      | none => some (m.leave t false [] clInvalidValue)
      | some events =>
        if events.isEmpty then some (m.leave t false [] clInvalidValue)
        else some (m.setCall t (some ⟨false, .checking events 0 none⟩))
    else none
  | .enqueueBlocking t type q waitList =>
    if (m.calls t).isNone then
      (step m.sched (.enqueue t type q waitList)).map fun s' =>
        { m with sched := s' }.setCall t (some ⟨true, .constructing⟩)
    else none
  | .proceed t enough => (m.calls t).bind (m.proceedWait t enough)

/-- No event and no call yet. -/
def waitInitial (T : Type) (outOfOrder : QueueId → Bool) (queueContext : QueueId → Nat)
    (userContext : EventId → Nat) : WaitState T where
  sched := initial T outOfOrder
  queueContext := queueContext
  userContext := userContext
  calls := fun _ => none
  returns := []

def waitSystem (T : Type) [DecidableEq T] : LTS (WaitState T) (WaitAction T) :=
  ofStep (fun m => ∃ outOfOrder queueContext userContext,
    m = waitInitial T outOfOrder queueContext userContext) waitStep

namespace WaitState

/-- The events that thread `t` has waited for in its call. -/
def awaited (m : WaitState T) (t : T) : List EventId :=
  match m.calls t with
  | some ⟨_, .waiting events i⟩ => events.take i
  | _ => []

/-- The event that thread `t` waits for. -/
def awaiting (m : WaitState T) (t : T) : Option EventId :=
  match m.calls t with
  | some ⟨_, .waiting events i⟩ => events[i]?
  | _ => none

/-- The next step of thread `t` does not fail an event that a call has waited for. -/
def Spares (m : WaitState T) (t : T) : Prop :=
  ∀ p ∈ m.sched.writing t, p.2 < 0 → ∀ u, p.1 ∉ m.awaited u

end WaitState

/-- No event has failed when the wait for it ends, or fails after it, while the call goes on. -/
def WaitsKept (m : WaitState T) : WaitAction T → Prop
  | .sched a => m.Spares a.actor
  | .proceed t _ => m.Spares t ∧ ∀ e ∈ m.awaiting t, 0 ≤ (m.sched.events e).status
  | _ => True

instance [Fintype T] (m : WaitState T) (t : T) : Decidable (m.Spares t) :=
  inferInstanceAs (Decidable (∀ p ∈ m.sched.writing t, p.2 < 0 → ∀ u, p.1 ∉ m.awaited u))

instance [Fintype T] (m : WaitState T) (b : WaitAction T) : Decidable (WaitsKept m b) :=
  match b with
  | .sched a => inferInstanceAs (Decidable (m.Spares a.actor))
  | .proceed t _ => inferInstanceAs (Decidable (
      m.Spares t ∧ ∀ e ∈ m.awaiting t, 0 ≤ (m.sched.events e).status))
  | .waitForEvents _ _ | .enqueueBlocking .. => inferInstanceAs (Decidable True)

/-- A call succeeds only if each of its events has completed, never if one has failed, and a
blocking command has an event. -/
structure WaitsReport (m : WaitState T) : Prop where
  complete : ∀ r ∈ m.returns, r.code = clSuccess →
    ∀ e ∈ r.events, clComplete ∈ (m.sched.events e).statuses
  failed : ∀ r ∈ m.returns, (∃ st ∈ r.statuses, st < 0) → r.code ≠ clSuccess
  blocking : ∀ r ∈ m.returns, r.blocking = true → r.code = clSuccess → ∃ e, r.events = [e]

variable {s s' : State T} {a : Action T} {m m' : WaitState T} {b : WaitAction T} {t : T}
  {call : WaitCall} {e x : EventId}

/-- A step that changes a status writes it. -/
theorem status_of_writing (h : Step s a s') (hx : x < s.nextEvent) :
    (s'.events x).status = (s.events x).status ∨
      s.writing a.actor = some (x, (s'.events x).status) := by
  have hc := step_callbacks h hx
  generalize s'.events x = ev at hc
  cases hc with
  | @registered t type c _ =>
    obtain ⟨l, k, heq⟩ := (s.events x).setCallback_eq type c
    rw [heq]
    exact .inl rfl
  | written _ hw => exact .inr hw
  | other _ hst => exact .inl hst

/-- What a call knows about its events. -/
def WaitCallOk (s : State T) (call : WaitCall) : Prop :=
  match call.pc with
  | .checking events i _ =>
    (∀ e ∈ events.take i, e < s.nextEvent) ∧ (call.blocking = true → ∃ e, events = [e])
  | .waiting events i =>
    (∀ e ∈ events, e < s.nextEvent) ∧
    (∀ e ∈ events.take i, clComplete ∈ (s.events e).statuses ∧ 0 ≤ (s.events e).status) ∧
    (call.blocking = true → ∃ e, events = [e])
  | .constructing | .queueing _ => True

/-- A success is about events that have completed. -/
structure WaitReturnOk (s : State T) (r : WaitReturn) : Prop where
  complete : r.code = clSuccess →
    ∀ e ∈ r.events, e < s.nextEvent ∧ clComplete ∈ (s.events e).statuses
  failed : (∃ st ∈ r.statuses, st < 0) → r.code ≠ clSuccess
  blocking : r.blocking = true → r.code = clSuccess → ∃ e, r.events = [e]

structure WaitingInv (m : WaitState T) : Prop where
  sched : Reachable (scheduler T) m.sched
  calls : ∀ t, ∀ call ∈ m.calls t, WaitCallOk m.sched call
  returned : ∀ r ∈ m.returns, WaitReturnOk m.sched r

theorem waitCallOk_step (h : Step s a s') (hok : WaitCallOk s call)
    (hspare : ∀ p ∈ s.writing a.actor, p.2 < 0 → ∀ events i, call.pc = .waiting events i →
      p.1 ∉ events.take i) : WaitCallOk s' call := by
  have hn := step_nextEvent h
  simp only [WaitCallOk] at hok ⊢
  cases hpc : call.pc with
  | checking events i globalCtx =>
    rw [hpc] at hok
    exact ⟨fun e he => Nat.lt_of_lt_of_le (hok.1 e he) hn, hok.2⟩
  | waiting events i =>
    rw [hpc] at hok
    obtain ⟨hlt, hdone, hblock⟩ := hok
    refine ⟨fun e he => Nat.lt_of_lt_of_le (hlt e he) hn, fun e he => ?_, hblock⟩
    have hlt' := hlt e (List.mem_of_mem_take he)
    obtain ⟨hmem, hpos⟩ := hdone e he
    refine ⟨step_statuses h hlt' hmem, ?_⟩
    rcases status_of_writing h hlt' with hsame | hwrite
    · rwa [hsame]
    · by_contra hneg
      exact hspare _ hwrite (by omega) events i hpc he
  | constructing => trivial
  | queueing command => trivial

theorem waitReturnOk_step (h : Step s a s') {r : WaitReturn} (hok : WaitReturnOk s r) :
    WaitReturnOk s' r := by
  refine ⟨fun hc e he => ?_, hok.failed, hok.blocking⟩
  obtain ⟨hlt, hmem⟩ := hok.complete hc e he
  exact ⟨Nat.lt_of_lt_of_le hlt (step_nextEvent h), step_statuses h hlt hmem⟩

/-- A step of the scheduler, in or outside of a call. -/
theorem waitingInv_sched (hi : WaitingInv m) (h : step m.sched a = some s')
    (hs : m.Spares a.actor) :
    WaitingInv { m with sched := s' } where
  sched := .step hi.sched h
  calls := by
    intro t call hcall
    refine waitCallOk_step (step_cases h) (hi.calls t call hcall) ?_
    intro p hp hneg events i hpc hmem
    apply hs p hp hneg t
    have hcall' : m.calls t = some call := hcall
    obtain ⟨blocking, pc⟩ := call
    simp only at hpc
    simpa [WaitState.awaited, hcall', hpc] using hmem
  returned r hr := waitReturnOk_step (step_cases h) (hi.returned r hr)

/-- A call goes on, or starts. -/
theorem waitingInv_setCall (hi : WaitingInv m) (hok : WaitCallOk m.sched call) (t : T) :
    WaitingInv (m.setCall t (some call)) where
  sched := hi.sched
  calls := by
    intro u c hc
    by_cases hu : u = t
    · subst hu
      obtain rfl : call = c := by simpa [WaitState.setCall] using hc
      exact hok
    · simp only [WaitState.setCall, Function.update_of_ne hu] at hc
      exact hi.calls u c hc
  returned := hi.returned

theorem waitingInv_leave (hi : WaitingInv m) (t : T) {blocking : Bool} {events : List EventId}
    {code : Int} (hok : WaitReturnOk m.sched
      ⟨blocking, events, code, events.map fun e => (m.sched.events e).status⟩) :
    WaitingInv (m.leave t blocking events code) where
  sched := hi.sched
  calls := by
    intro u c hc
    by_cases hu : u = t
    · subst hu
      simp [WaitState.leave, WaitState.setCall] at hc
    · simp only [WaitState.leave, WaitState.setCall, Function.update_of_ne hu] at hc
      exact hi.calls u c hc
  returned := by
    intro r hr
    rcases List.mem_append.mp hr with hr | hr
    · exact hi.returned r hr
    · rw [List.mem_singleton.mp hr]
      exact hok

/-- An error promises nothing. -/
theorem waitingInv_error (hi : WaitingInv m) (t : T) {blocking : Bool} {events : List EventId}
    {code : Int} (hne : code ≠ clSuccess) : WaitingInv (m.leave t blocking events code) :=
  waitingInv_leave hi t ⟨fun hc => absurd hc hne, fun _ => hne, fun _ hc => absurd hc hne⟩

theorem waitingInv_check (hi : WaitingInv m) (t : T) {blocking : Bool} {events : List EventId}
    {i : Nat} {globalCtx : Option Nat} (he : events[i]? = some e)
    (hok : WaitCallOk m.sched ⟨blocking, .checking events i globalCtx⟩) :
    WaitingInv (m.check t blocking events i globalCtx e) := by
  simp only [WaitState.check]
  split
  · exact waitingInv_error hi t (by decide)
  · rename_i hlt
    split
    · exact waitingInv_error hi t (by decide)
    · split
      · refine waitingInv_setCall hi ?_ t
        refine ⟨?_, hok.2⟩
        intro x hx
        rw [List.take_add_one, he] at hx
        rcases List.mem_append.mp hx with hx | hx
        · exact hok.1 x hx
        · obtain rfl : x = e := by simpa using hx
          exact not_not.mp hlt
      · exact waitingInv_error hi t (by decide)

/-- The wait for `e` ends, and it has not failed. -/
theorem waitingInv_waited (hi : WaitingInv m) (t : T) {blocking : Bool} {events : List EventId}
    {i : Nat} (he : events[i]? = some e) (hok : WaitCallOk m.sched ⟨blocking, .waiting events i⟩)
    (hdone : ¬ ((m.sched.events e).status ≠ clComplete ∧ 0 < (m.sched.events e).status))
    (hpos : 0 ≤ (m.sched.events e).status) :
    WaitingInv (m.setCall t (some ⟨blocking, .waiting events (i + 1)⟩)) := by
  obtain ⟨hlt, hall, hblock⟩ := hok
  have hzero : (m.sched.events e).status = clComplete := by
    unfold clComplete at hdone ⊢
    omega
  refine waitingInv_setCall hi ?_ t
  refine ⟨hlt, ?_, hblock⟩
  intro x hx
  rw [List.take_add_one, he] at hx
  rcases List.mem_append.mp hx with hx | hx
  · exact hall x hx
  · obtain rfl : x = e := by simpa using hx
    have hmem := ((callsOk_reachable hi.sched).event x (hlt x (List.mem_of_getElem? he))).status
    rw [hzero] at hmem
    exact ⟨hmem, hpos⟩

theorem waitingInv_proceed (hi : WaitingInv m) (hcall : m.calls t = some call) {enough : Bool}
    (hg : WaitsKept m (.proceed t enough)) (h : m.proceedWait t enough call = some m') :
    WaitingInv m' := by
  obtain ⟨hspare, hpos⟩ := hg
  have hok := hi.calls t call hcall
  obtain ⟨blocking, pc⟩ := call
  cases pc with
  | checking events i globalCtx =>
    simp only [WaitState.proceedWait] at h
    split at h
    · rename_i e he
      cases h
      exact waitingInv_check hi t he hok
    · rename_i hnone
      cases h
      have hall : events.take i = events := List.take_of_length_le (by simpa using hnone)
      refine waitingInv_setCall hi ?_ t
      refine ⟨?_, by simp, hok.2⟩
      have hlt := hok.1
      rwa [hall] at hlt
  | waiting events i =>
    simp only [WaitState.proceedWait] at h
    split at h
    · rename_i e he
      split at h
      · cases h
      · rename_i hdone
        cases h
        exact waitingInv_waited hi t he hok hdone (hpos e (by simp [WaitState.awaiting, hcall, he]))
    · rename_i hnone
      cases h
      obtain ⟨hlt, hall, hblock⟩ := hok
      rw [List.take_of_length_le (by simpa using hnone)] at hall
      refine waitingInv_leave hi t
        ⟨fun _ e he => ⟨hlt e he, (hall e he).1⟩, ?_, fun hb _ => hblock hb⟩
      rintro ⟨st, hst, hneg⟩
      obtain ⟨e, he, rfl⟩ := List.mem_map.mp hst
      have hge := (hall e he).2
      omega
  | constructing =>
    simp only [WaitState.proceedWait, Option.map_eq_some_iff] at h
    obtain ⟨s', hstep, rfl⟩ := h
    have hi' := waitingInv_sched hi hstep hspare
    split
    · exact waitingInv_error hi' t (by decide)
    · split
      · refine waitingInv_setCall hi' ?_ t
        trivial
      · exact hi'
  | queueing command =>
    simp only [WaitState.proceedWait] at h
    split at h
    · cases h
      refine waitingInv_setCall hi ?_ t
      exact ⟨by simp, fun _ => ⟨command, rfl⟩⟩
    · obtain ⟨s', hstep, rfl⟩ := Option.map_eq_some_iff.mp h
      exact waitingInv_sched hi hstep hspare

theorem waitingInv_step (hi : WaitingInv m) (hg : WaitsKept m b) (h : waitStep m b = some m') :
    WaitingInv m' := by
  cases b with
  | sched a =>
    simp only [waitStep] at h
    split at h
    · obtain ⟨s', hstep, rfl⟩ := Option.map_eq_some_iff.mp h
      exact waitingInv_sched hi hstep hg
    · cases h
  | waitForEvents t events =>
    simp only [waitStep] at h
    split at h
    · split at h
      · cases h
        exact waitingInv_error hi t (by decide)
      · split at h
        · cases h
          exact waitingInv_error hi t (by decide)
        · cases h
          refine waitingInv_setCall hi ?_ t
          exact ⟨by simp, by simp⟩
    · cases h
  | enqueueBlocking t type q waitList =>
    simp only [waitStep] at h
    split at h
    · obtain ⟨s', hstep, rfl⟩ := Option.map_eq_some_iff.mp h
      have hidle : m.sched.threads t = [] := by
        cases step_cases hstep with
        | enqueue hk => exact hk
      have hspare : m.Spares t := by
        intro p hp
        simp [State.writing, hidle] at hp
      refine waitingInv_setCall (waitingInv_sched hi hstep hspare) ?_ t
      trivial
    · cases h
  | proceed t enough =>
    obtain ⟨call, hcall, h⟩ := Option.bind_eq_some_iff.mp h
    exact waitingInv_proceed hi hcall hg h

theorem waitingInv_reachable (h : Reachable ((waitSystem T).restrict WaitsKept) m) :
    WaitingInv m := by
  apply h.invariant
  · rintro _ ⟨o, queueContext, userContext, rfl⟩
    refine ⟨.initial ⟨o, rfl⟩, ?_, ?_⟩ <;> simp [waitInitial]
  · intro m b m' _ hi ht
    exact waitingInv_step hi ht.2 ht.1

/-- Failures are reported if none comes between the check of an event and the end of the call. -/
theorem waits_report_failures (h : Reachable ((waitSystem T).restrict WaitsKept) m) :
    WaitsReport m := by
  have hi := waitingInv_reachable h
  exact ⟨fun r hr hc e he => ((hi.returned r hr).complete hc e he).2,
    fun r hr => (hi.returned r hr).failed, fun r hr => (hi.returned r hr).blocking⟩

theorem exists_kept_wait_run [Fintype T] (o : QueueId → Bool) (queueContext : QueueId → Nat)
    (userContext : EventId → Nat) (bs : List (WaitAction T)) (c : WaitState T → Bool)
    (h : (execGuarded waitStep (fun m b => decide (WaitsKept m b))
      (waitInitial T o queueContext userContext) bs).map c = some true) :
    ∃ m, Reachable ((waitSystem T).restrict WaitsKept) m ∧ c m = true :=
  exists_execGuarded WaitsKept ⟨o, queueContext, userContext, rfl⟩ bs c h

theorem exists_wait_run (o : QueueId → Bool) (queueContext : QueueId → Nat)
    (userContext : EventId → Nat) (bs : List (WaitAction T)) (c : WaitState T → Bool)
    (h : (exec waitStep (waitInitial T o queueContext userContext) bs).map c = some true) :
    ∃ m, Reachable (waitSystem T) m ∧ c m = true :=
  exists_exec ⟨o, queueContext, userContext, rfl⟩ bs c h

/-- The application waits for a user event, which the other thread ends with `st`. -/
def waitForUser (st : Int) : List (WaitAction Bool) :=
  [.sched (.createUserEvent true), .waitForEvents true (some [0]), .proceed true false,
    .proceed true false, .sched (.setUserEventStatus false 0 st), .sched (.resume false false),
    .proceed true false, .proceed true false]

/-- It reads a buffer with a blocking call, and the worker reports `st`. -/
def blockingRead (st : Int) : List (WaitAction Bool) :=
  List.flatten [[.enqueueBlocking true .readBuffer 0 []],
    List.replicate 17 (.proceed true false),
    [.sched (.deviceSetStatus false 0 st), .sched (.resume false false)],
    List.replicate 2 (.proceed true false)]

theorem completed_waits_succeed :
    (∃ m : WaitState Bool, Reachable ((waitSystem Bool).restrict WaitsKept) m ∧ WaitsReport m ∧
      m.returns = [⟨false, [0], clSuccess, [clComplete]⟩]) ∧
    ∃ m : WaitState Bool, Reachable ((waitSystem Bool).restrict WaitsKept) m ∧ WaitsReport m ∧
      m.returns = [⟨true, [0], clSuccess, [clComplete]⟩] := by
  constructor
  · obtain ⟨m, hr, hc⟩ := exists_kept_wait_run (fun _ => true) (fun _ => 0) (fun _ => 0)
      (waitForUser clComplete)
      (fun m => m.returns = [⟨false, [0], clSuccess, [clComplete]⟩]) (by decide +kernel)
    exact ⟨m, hr, waits_report_failures hr, of_decide_eq_true hc⟩
  · obtain ⟨m, hr, hc⟩ := exists_kept_wait_run (fun _ => true) (fun _ => 0) (fun _ => 0)
      (blockingRead clComplete)
      (fun m => m.returns = [⟨true, [0], clSuccess, [clComplete]⟩]) (by decide +kernel)
    exact ⟨m, hr, waits_report_failures hr, of_decide_eq_true hc⟩

/-- An event fails during the wait, and the call succeeds, a blocking read among them. -/
theorem failure_during_wait :
    (∃ m : WaitState Bool, Reachable (waitSystem Bool) m ∧ ¬ WaitsReport m ∧
      m.returns = [⟨false, [0], clSuccess, [-1]⟩]) ∧
    ∃ m : WaitState Bool, Reachable (waitSystem Bool) m ∧ ¬ WaitsReport m ∧
      m.returns = [⟨true, [0], clSuccess, [-1]⟩] := by
  have hno : ∀ (m : WaitState Bool) (blocking : Bool),
      m.returns = [⟨blocking, [0], clSuccess, [-1]⟩] → ¬ WaitsReport m := by
    intro m blocking hm hok
    exact hok.failed ⟨blocking, [0], clSuccess, [-1]⟩ (by simp [hm])
      ⟨-1, List.mem_singleton_self _, by decide⟩ rfl
  constructor
  · obtain ⟨m, hr, hc⟩ := exists_wait_run (fun _ => true) (fun _ => 0) (fun _ => 0)
      (waitForUser (-1)) (fun m => m.returns = [⟨false, [0], clSuccess, [-1]⟩]) (by decide +kernel)
    exact ⟨m, hr, hno m false (of_decide_eq_true hc), of_decide_eq_true hc⟩
  · obtain ⟨m, hr, hc⟩ := exists_wait_run (fun _ => true) (fun _ => 0) (fun _ => 0)
      (blockingRead (-1)) (fun m => m.returns = [⟨true, [0], clSuccess, [-1]⟩]) (by decide +kernel)
    exact ⟨m, hr, hno m true (of_decide_eq_true hc), of_decide_eq_true hc⟩

end Shamrock.Scheduler
