import Shamrock.Scheduler.Reports
import Mathlib.Data.UInt

/-!
# Profiling

The four stamps of an event, each made by the thread that moves the event on. `QUEUED` is made by
`queueEvent` after the event can be found in the list, so it is a step of its own.
-/
namespace Shamrock.Scheduler

open Transition

variable {T : Type} [DecidableEq T] {s s' : State T} {a : Action T} {q : QueueId} {e x : EventId}

def clProfilingCommandQueued : Nat := 0x1280
def clProfilingCommandSubmit : Nat := 0x1281
def clProfilingCommandStart : Nat := 0x1282
def clProfilingCommandEnd : Nat := 0x1283

/-- `Event::Timing`, the index of `p_timing` -/
inductive Timing
  | queue
  | submit
  | start
  | finish
  deriving DecidableEq, Repr

/-- What `updateTiming` makes of `clock_gettime` after `ns` nanoseconds of uptime. -/
def microseconds (ns : Nat) : UInt64 :=
  UInt64.ofNat (ns % 1000000000 / 1000) + UInt64.ofNat (ns / 1000000000 * 1000000)

/-- The scheduler with the clock and `p_timing` of the events. A thread in `stamping` has appended
an event and has not stamped it, one in `working` is a device worker between its two reports. The
last two are history variables: the clock when an event was created and when it was stamped. -/
structure TimedState (T : Type) where
  sched : State T
  profiling : QueueId → Bool
  now : Nat
  timing : EventId → Timing → UInt32
  stamping : T → Option EventId
  working : T → Option EventId
  created : EventId → Nat
  readings : EventId → List Nat

inductive TimedAction (T : Type)
  /-- the clock moves on -/
  | tick (ns : Nat)
  | sched (a : Action T)
  /-- `updateTiming(Event::Queue)` in `queueEvent` -/
  | stampQueue (t : T)
  /-- a worker leaves a kernel that is not finished -/
  | unfinished (t : T)

namespace TimedState

variable {m m' : TimedState T} {b : TimedAction T}

/-- The queue of `e` has `CL_QUEUE_PROFILING_ENABLE`. -/
def profiled (m : TimedState T) (e : EventId) : Bool := (m.sched.events e).parent.any m.profiling

/-- `Event::updateTiming`: a stamp that is not zero stays. -/
def updateTiming (m : TimedState T) (e : EventId) (i : Timing) : TimedState T :=
  if m.timing e i ≠ 0 then m
  else
    { m with
      timing := Function.update m.timing e
        (Function.update (m.timing e) i (microseconds m.now).toUInt32)
      readings := Function.update m.readings e (m.now :: m.readings e) }

/-- The stamp that a step makes, if the queue wants it. -/
def stamps (m : TimedState T) : TimedAction T → Option (EventId × Timing)
  | .stampQueue t => (m.stamping t).map fun e => (e, .queue)
  | .sched (.deviceSetStatus _ e st) => some (e, if st = clRunning then .start else .finish)
  | .sched (.resume t _) =>
    match m.sched.threads t with
    | .push f :: _ =>
      if f.pc = .submit then (f.event (m.sched.queues f.queue)).map fun e => (e, .submit) else none
    | _ => none
  | _ => none

/-- A worker reports `CL_RUNNING` on the event it took, and the result on the same event. -/
def workerReady (m : TimedState T) : Action T → Bool
  | .deviceSetStatus t e st => m.working t = if st = clRunning then none else some e
  | _ => true

/-- A step of the scheduler, without its stamp. -/
def observe (m : TimedState T) (a : Action T) (s' : State T) : TimedState T :=
  { m with
    sched := s'
    created := if m.sched.nextEvent < s'.nextEvent then
      Function.update m.created m.sched.nextEvent m.now else m.created
    stamping :=
      match a, m.sched.threads a.actor with
      | .resume t _, .queueEvent e :: _ => Function.update m.stamping t (some e)
      | _, _ => m.stamping
    working :=
      match a with
      | .deviceSetStatus t e st =>
        Function.update m.working t (if st = clRunning then some e else none)
      | _ => m.working }

/-- A step without its stamp. -/
def advance (m : TimedState T) : TimedAction T → Option (TimedState T)
  | .tick ns => some { m with now := m.now + ns }
  | .sched a =>
    if m.stamping a.actor = none ∧ m.workerReady a then (step m.sched a).map (m.observe a)
    else none
  | .stampQueue t =>
    if (m.stamping t).isSome then some { m with stamping := Function.update m.stamping t none }
    else none
  | .unfinished t =>
    if m.sched.threads t = [] ∧ (m.working t).isSome then
      some { m with working := Function.update m.working t none }
    else none

/-- `if (p_properties & CL_QUEUE_PROFILING_ENABLE) event->updateTiming(...)` -/
def stamp (m : TimedState T) : Option (EventId × Timing) → TimedState T
  | some (e, i) => if m.profiled e then m.updateTiming e i else m
  | none => m

/-- `Event::profilingInfo`; `paramValue` is the size of the caller's buffer, if there is one. -/
def profilingInfo (m : TimedState T) (e : EventId) (paramName : Nat) (paramValue : Option Nat) :
    Except Int UInt64 :=
  let ev := m.sched.events e
  if ev.type = .user then .error clProfilingInfoNotAvailable
  else if !m.profiled e then .error clProfilingInfoNotAvailable
  else if ev.status ≠ clComplete then .error clProfilingInfoNotAvailable
  else
    let answer (i : Timing) : Except Int UInt64 :=
      if paramValue.any (· < 8) then .error clInvalidValue
      else .ok (1000 * (m.timing e i).toUInt64)
    if paramName = clProfilingCommandQueued then answer .queue
    else if paramName = clProfilingCommandSubmit then answer .submit
    else if paramName = clProfilingCommandStart then answer .start
    else if paramName = clProfilingCommandEnd then answer .finish
    else .error clInvalidValue

/-- The dummy that a step takes out of its queue. -/
def takes (m : TimedState T) : TimedAction T → Option EventId
  | .sched (.resume t _) =>
    match m.sched.threads t with
    | .push f :: _ =>
      (f.event (m.sched.queues f.queue)).filter fun e =>
        f.pc = .examineWait && (m.sched.events e).waitEventsAllCompleted &&
          (m.sched.events e).type.isInstantaneous
    | _ => none
  | _ => none

/-- The value comes from a reading of the clock for `e`. -/
def Reads (m : TimedState T) (e : EventId) (v : UInt64) : Prop :=
  ∃ ns ∈ m.readings e, m.created e ≤ ns ∧ ns ≤ m.now ∧ v.toNat = 1000 * (ns / 1000)

/-- `profilingInfo` answers for `e` with ordered times. -/
structure TimesOrdered (m : TimedState T) (e : EventId) (queued submit start finish : UInt64) :
    Prop where
  queued_eq : m.profilingInfo e clProfilingCommandQueued (some 8) = .ok queued
  submit_eq : m.profilingInfo e clProfilingCommandSubmit (some 8) = .ok submit
  start_eq : m.profilingInfo e clProfilingCommandStart (some 8) = .ok start
  finish_eq : m.profilingInfo e clProfilingCommandEnd (some 8) = .ok finish
  queued_le_submit : queued ≤ submit
  submit_le_start : submit ≤ start
  start_le_finish : start ≤ finish
  reads : m.Reads e queued ∧ m.Reads e submit ∧ m.Reads e start ∧ m.Reads e finish

end TimedState

def timedStep (m : TimedState T) (b : TimedAction T) : Option (TimedState T) :=
  (m.advance b).map fun m' => m'.stamp (m.stamps b)

/-- No event yet, at any uptime. -/
def timedInitial (T : Type) (outOfOrder profiling : QueueId → Bool) (uptime : Nat) :
    TimedState T where
  sched := initial T outOfOrder
  profiling := profiling
  now := uptime
  timing := fun _ _ => 0
  stamping := fun _ => none
  working := fun _ => none
  created := fun _ => 0
  readings := fun _ => []

def timedScheduler (T : Type) [DecidableEq T] : LTS (TimedState T) (TimedAction T) :=
  ofStep (fun m => ∃ outOfOrder profiling uptime, m = timedInitial T outOfOrder profiling uptime)
    timedStep

/-- A stamp is made between 1 and 2^32 microseconds of uptime, that of `SUBMIT` after the one of
`QUEUED`, and no dummy goes through a queue that profiles. -/
def StampsKept (m : TimedState T) (b : TimedAction T) : Prop :=
  (∀ p ∈ m.stamps b, m.profiled p.1 → 1000 ≤ m.now ∧ m.now < 1000 * 2 ^ 32 ∧
    (p.2 = .submit → m.timing p.1 .queue ≠ 0)) ∧
  ∀ e ∈ m.takes b, m.profiled e = false

instance (m : TimedState T) (b : TimedAction T) : Decidable (StampsKept m b) :=
  inferInstanceAs (Decidable (_ ∧ _))

/-- The stamp that is made before. -/
def Timing.prev : Timing → Option Timing
  | .queue => none
  | .submit => some .queue
  | .start => some .submit
  | .finish => some .start

theorem microseconds_toUInt32 {ns : Nat} (h : ns < 1000 * 2 ^ 32) :
    (microseconds ns).toUInt32.toNat = ns / 1000 := by
  have hsplit : ns % 1000000000 / 1000 + ns / 1000000000 * 1000000 = ns / 1000 := by omega
  rw [microseconds, ← UInt64.ofNat_add, hsplit]
  simp only [UInt64.toNat_toUInt32, UInt64.toNat_ofNat']
  omega

section Stamp

variable {m m' : TimedState T} {b : TimedAction T} {i : Timing} {p : Option (EventId × Timing)}

/-- What a stamp does: nothing, or one entry of `p_timing` that was zero. -/
inductive StampChange (m : TimedState T) : Option (EventId × Timing) → TimedState T → Prop
  | kept {p : Option (EventId × Timing)} :
      (∀ r ∈ p, m.profiled r.1 → m.timing r.1 r.2 ≠ 0) → StampChange m p m
  | made {e : EventId} {i : Timing} : m.profiled e = true → m.timing e i = 0 →
      StampChange m (some (e, i))
        { m with
          timing := Function.update m.timing e
            (Function.update (m.timing e) i (microseconds m.now).toUInt32)
          readings := Function.update m.readings e (m.now :: m.readings e) }

section

omit [DecidableEq T]

theorem stamp_cases (m : TimedState T) (p : Option (EventId × Timing)) :
    StampChange m p (m.stamp p) := by
  cases p with
  | none => exact .kept (by simp)
  | some r =>
    obtain ⟨e, i⟩ := r
    by_cases hp : m.profiled e = true
    · by_cases hz : m.timing e i = 0
      · simp only [TimedState.stamp, TimedState.updateTiming, hp, hz, ne_eq, not_true_eq_false,
          if_true, if_false]
        exact .made hp hz
      · simp only [TimedState.stamp, TimedState.updateTiming, hp, hz, ne_eq, not_false_eq_true,
          if_true]
        exact .kept (by simp [hz])
    · simp only [TimedState.stamp, hp, if_false, Bool.false_eq_true]
      exact .kept (by simp [hp])

@[simp] theorem stamp_sched (m : TimedState T) (p : Option (EventId × Timing)) :
    (m.stamp p).sched = m.sched := by
  have hc := stamp_cases m p
  generalize m.stamp p = m' at hc
  cases hc <;> rfl

@[simp] theorem stamp_profiling (m : TimedState T) (p : Option (EventId × Timing)) :
    (m.stamp p).profiling = m.profiling := by
  have hc := stamp_cases m p
  generalize m.stamp p = m' at hc
  cases hc <;> rfl

@[simp] theorem stamp_stamping (m : TimedState T) (p : Option (EventId × Timing)) :
    (m.stamp p).stamping = m.stamping := by
  have hc := stamp_cases m p
  generalize m.stamp p = m' at hc
  cases hc <;> rfl

@[simp] theorem stamp_working (m : TimedState T) (p : Option (EventId × Timing)) :
    (m.stamp p).working = m.working := by
  have hc := stamp_cases m p
  generalize m.stamp p = m' at hc
  cases hc <;> rfl

theorem stamp_mono (m : TimedState T) (p : Option (EventId × Timing)) (h : m.timing e i ≠ 0) :
    (m.stamp p).timing e i = m.timing e i := by
  have hc := stamp_cases m p
  generalize m.stamp p = m' at hc
  cases hc with
  | kept => rfl
  | @made e' i' _ hz =>
    by_cases he : e = e'
    · subst he
      have hi : i ≠ i' := by
        rintro rfl
        exact h hz
      simp [Function.update_of_ne hi]
    · simp [Function.update_of_ne he]

end

/-- The clock can be told from zero and fits in 32 bits of microseconds. -/
def TimedState.Readable (m : TimedState T) : Prop := 1000 ≤ m.now ∧ m.now < 1000 * 2 ^ 32

omit [DecidableEq T] in
theorem TimedState.Readable.ne_zero (h : m.Readable) : (microseconds m.now).toUInt32 ≠ 0 := by
  intro hz
  have hn := microseconds_toUInt32 h.2
  rw [hz] at hn
  have hlow := h.1
  simp only [UInt32.toNat_zero] at hn
  omega

omit [DecidableEq T] in
theorem stamp_self (hp : m.profiled e = true) (hr : m.Readable) :
    (m.stamp (some (e, i))).timing e i ≠ 0 := by
  have hc := stamp_cases m (some (e, i))
  generalize m.stamp (some (e, i)) = m' at hc
  cases hc with
  | kept hz => exact hz (e, i) rfl hp
  | made => simpa using hr.ne_zero

/-- Every stamp is a reading of the clock since the event exists, and none is made before its
predecessor. -/
structure ClockInv (m : TimedState T) : Prop where
  created : ∀ e, e < m.sched.nextEvent → m.created e ≤ m.now
  past : ∀ e, ∀ ns ∈ m.readings e, e < m.sched.nextEvent ∧ m.created e ≤ ns ∧ ns ≤ m.now
  read : ∀ e i, m.timing e i ≠ 0 → ∃ ns ∈ m.readings e, (m.timing e i).toNat = ns / 1000
  ordered : ∀ e i, ∀ j ∈ i.prev, m.timing e i ≠ 0 →
    m.timing e j ≠ 0 ∧ m.timing e j ≤ m.timing e i

omit [DecidableEq T] in
/-- A stamp comes after its predecessor. -/
theorem clockInv_stamp (hi : ClockInv m)
    (hp : ∀ r ∈ p, m.profiled r.1 → r.1 < m.sched.nextEvent ∧ m.Readable ∧
      ∀ j ∈ r.2.prev, m.timing r.1 j ≠ 0) : ClockInv (m.stamp p) := by
  have hc := stamp_cases m p
  generalize m.stamp p = m' at hc
  cases hc with
  | kept => exact hi
  | @made e i hpe hz =>
    obtain ⟨hlt, hr, hprev⟩ := hp (e, i) rfl hpe
    have hnew := microseconds_toUInt32 hr.2
    refine ⟨hi.created, ?_, ?_, ?_⟩
    · intro x ns hns
      by_cases hx : x = e
      · subst hx
        simp only [Function.update_self, List.mem_cons] at hns
        rcases hns with rfl | hns
        · exact ⟨hlt, hi.created x hlt, Nat.le_refl _⟩
        · exact hi.past x ns hns
      · simp only [Function.update_of_ne hx] at hns
        exact hi.past x ns hns
    · intro x j hj
      by_cases hx : x = e
      · subst hx
        simp only [Function.update_self] at hj ⊢
        by_cases hji : j = i
        · subst hji
          simp only [Function.update_self]
          exact ⟨m.now, List.mem_cons_self, hnew⟩
        · simp only [Function.update_of_ne hji] at hj ⊢
          obtain ⟨ns, hns, heq⟩ := hi.read x j hj
          exact ⟨ns, List.mem_cons_of_mem _ hns, heq⟩
      · simp only [Function.update_of_ne hx] at hj ⊢
        exact hi.read x j hj
    · intro x j k hk hj
      by_cases hx : x = e
      · subst hx
        simp only [Function.update_self] at hj ⊢
        by_cases hji : j = i
        · -- the new stamp is the latest of all readings
          subst hji
          have hne : k ≠ j := by
            rintro rfl
            cases k <;> cases hk
          have hkz := hprev k hk
          simp only [Function.update_self, Function.update_of_ne hne]
          refine ⟨hkz, ?_⟩
          obtain ⟨ns, hns, heq⟩ := hi.read x k hkz
          have hle := (hi.past x ns hns).2.2
          rw [UInt32.le_iff_toNat_le, heq, hnew]
          exact Nat.div_le_div_right hle
        · simp only [Function.update_of_ne hji] at hj ⊢
          have hold := hi.ordered x j k hk hj
          have hki : k ≠ i := by
            rintro rfl
            exact hold.1 hz
          simp only [Function.update_of_ne hki]
          exact hold
      · simp only [Function.update_of_ne hx] at hj ⊢
        exact hi.ordered x j k hk hj

end Stamp

section Run

variable {m m' m₁ : TimedState T} {b : TimedAction T} {i : Timing}

/-- What a step does apart from its stamp. -/
inductive Advance (m : TimedState T) : TimedAction T → TimedState T → Prop
  | tick {ns : Nat} : Advance m (.tick ns) { m with now := m.now + ns }
  | sched {a : Action T} {s' : State T} : m.workerReady a = true → step m.sched a = some s' →
      Advance m (.sched a) (m.observe a s')
  | stampQueue {t : T} : Advance m (.stampQueue t)
      { m with stamping := Function.update m.stamping t none }
  | unfinished {t : T} : Advance m (.unfinished t)
      { m with working := Function.update m.working t none }

theorem advance_cases (h : m.advance b = some m₁) : Advance m b m₁ := by
  cases b with
  | tick ns =>
    cases h
    exact .tick
  | sched a =>
    simp only [TimedState.advance] at h
    split at h
    · rename_i hready
      obtain ⟨s', hs, rfl⟩ := Option.map_eq_some_iff.mp h
      exact .sched hready.2 hs
    · cases h
  | stampQueue t =>
    simp only [TimedState.advance] at h
    split at h <;> cases h
    exact .stampQueue
  | unfinished t =>
    simp only [TimedState.advance] at h
    split at h <;> cases h
    exact .unfinished

theorem timed_cases (h : timedStep m b = some m') :
    ∃ m₁, Advance m b m₁ ∧ m' = m₁.stamp (m.stamps b) := by
  obtain ⟨m₁, hm, rfl⟩ := Option.map_eq_some_iff.mp h
  exact ⟨m₁, advance_cases hm, rfl⟩

theorem Advance.timing (h : Advance m b m₁) : m₁.timing = m.timing := by
  cases h <;> rfl

theorem Advance.readings (h : Advance m b m₁) : m₁.readings = m.readings := by
  cases h <;> rfl

theorem Advance.profiling (h : Advance m b m₁) : m₁.profiling = m.profiling := by
  cases h <;> rfl

/-- The clock stands still while a stamp is made. -/
theorem Advance.now (h : Advance m b m₁) (hp : m.stamps b ≠ none) : m₁.now = m.now := by
  cases h with
  | tick => exact absurd rfl hp
  | _ => rfl

theorem Advance.nextEvent_le (h : Advance m b m₁) : m.sched.nextEvent ≤ m₁.sched.nextEvent := by
  cases h with
  | sched _ hs => exact step_nextEvent (step_cases hs)
  | _ => exact Nat.le_refl _

theorem Advance.profiled (h : Advance m b m₁) (he : e < m.sched.nextEvent) :
    m₁.profiled e = m.profiled e := by
  cases h with
  | sched _ hs =>
    simp only [TimedState.profiled, TimedState.observe, (step_identity (step_cases hs) he).parent]
  | _ => rfl

theorem timed_sched (h : Reachable (timedScheduler T) m) : Reachable (scheduler T) m.sched := by
  induction h with
  | initial hi =>
    obtain ⟨o, p, u, rfl⟩ := hi
    exact .initial ⟨o, rfl⟩
  | step _ ht ih =>
    obtain ⟨m₁, hm, rfl⟩ := timed_cases ht
    rw [stamp_sched]
    cases hm with
    | sched _ hs => exact .step ih hs
    | _ => exact ih

theorem clockInv_advance (h : Advance m b m₁) (hi : ClockInv m) : ClockInv m₁ := by
  cases h with
  | tick =>
    refine ⟨?_, ?_, hi.read, hi.ordered⟩
    · intro e he
      exact Nat.le_trans (hi.created e he) (Nat.le_add_right _ _)
    · intro e ns hns
      obtain ⟨hlt, hc, hn⟩ := hi.past e ns hns
      exact ⟨hlt, hc, Nat.le_trans hn (Nat.le_add_right _ _)⟩
  | @sched a s' _ hs =>
    have hn := step_nextEvent (step_cases hs)
    have hold : ∀ e, e < m.sched.nextEvent → (m.observe a s').created e = m.created e := by
      intro e he
      simp only [TimedState.observe]
      split
      · exact Function.update_of_ne (Nat.ne_of_lt he) _ _
      · rfl
    refine ⟨?_, ?_, hi.read, hi.ordered⟩
    · intro e he
      by_cases hlt : e < m.sched.nextEvent
      · rw [hold e hlt]
        exact hi.created e hlt
      · -- the event of this step
        have hnew : s'.nextEvent = m.sched.nextEvent ∨ s'.nextEvent = m.sched.nextEvent + 1 := by
          have hstep := step_cases hs
          cases hstep <;> first | exact .inl rfl | exact .inr rfl
        have he : e < s'.nextEvent := he
        rcases hnew with hnew | hnew
        · exact absurd (hnew ▸ he) hlt
        · rw [hnew] at he
          have heq : e = m.sched.nextEvent :=
            Nat.le_antisymm (Nat.le_of_lt_succ he) (not_lt.mp hlt)
          simp [TimedState.observe, hnew, heq]
    · intro e ns hns
      obtain ⟨hlt, hc, hle⟩ := hi.past e ns hns
      exact ⟨Nat.lt_of_lt_of_le hlt hn, by rwa [hold e hlt], hle⟩
  | stampQueue => exact ⟨hi.created, hi.past, hi.read, hi.ordered⟩
  | unfinished => exact ⟨hi.created, hi.past, hi.read, hi.ordered⟩

/-- `e` has this stamp, if its queue profiles. -/
def TimedState.Stamped (m : TimedState T) (e : EventId) (i : Timing) : Prop :=
  m.profiled e = true → m.timing e i ≠ 0

theorem stamped_step (h : Advance m b m₁) (he : e < m.sched.nextEvent) (hs : m.Stamped e i) :
    (m₁.stamp (m.stamps b)).Stamped e i := by
  intro hp
  have hp₁ : m₁.profiled e = true := by
    simpa only [TimedState.profiled, stamp_sched, stamp_profiling] using hp
  have hne : m₁.timing e i ≠ 0 := by
    rw [h.timing]
    exact hs (by rwa [h.profiled he] at hp₁)
  rwa [stamp_mono _ _ hne]

/-- The stamp of a step has been made after it. -/
theorem stamped_self (h : Advance m b m₁) (hg : StampsKept m b) (he : e < m.sched.nextEvent)
    (hb : m.stamps b = some (e, i)) : (m₁.stamp (m.stamps b)).Stamped e i := by
  intro hp
  have hp₁ : m₁.profiled e = true := by
    simpa only [TimedState.profiled, stamp_sched, stamp_profiling] using hp
  have hnow := h.now (by simp [hb])
  obtain ⟨hlow, hhigh, -⟩ := hg.1 (e, i) hb (by rwa [h.profiled he] at hp₁)
  rw [hb]
  exact stamp_self hp₁ (by rw [TimedState.Readable, hnow]; exact ⟨hlow, hhigh⟩)

/-- Where an event is, it has the stamps of the way there. -/
structure StampInv (m : TimedState T) : Prop where
  stamping : ∀ t e, m.stamping t = some e → e < m.sched.nextEvent
  handing : ∀ t f k e, m.sched.threads t = .push f :: k → f.pc = .handOver →
    f.event (m.sched.queues f.queue) = some e → m.Stamped e .submit
  handed : ∀ q, ∀ e ∈ (m.sched.queues q).handed, m.Stamped e .submit
  working : ∀ t e, m.working t = some e → e < m.sched.nextEvent ∧ m.Stamped e .start
  completing : ∀ t f, .setStatus f ∈ m.sched.threads t → f.status = clComplete →
    m.Stamped f.event .finish
  complete : ∀ e, e < m.sched.nextEvent → (m.sched.events e).status = clComplete →
    m.Stamped e .finish

/-- What the scheduler leaves alone keeps its stamps. -/
theorem stampInv_same (h : Advance m b m₁) (hw : Wf m.sched) (hc : CallsOk m.sched)
    (hi : StampInv m) (hs : m₁.sched = m.sched)
    (hst : ∀ t e, m₁.stamping t = some e → m.stamping t = some e)
    (hwk : ∀ t e, m₁.working t = some e → m.working t = some e) :
    StampInv (m₁.stamp (m.stamps b)) := by
  refine ⟨?_, ?_, ?_, ?_, ?_, ?_⟩
  all_goals simp only [stamp_sched, stamp_stamping, stamp_working, hs]
  · intro t e he
    exact hi.stamping t e (hst t e he)
  · intro t f k e hk hpc he
    exact stamped_step h (hw.event_lt he).1 (hi.handing t f k e hk hpc he)
  · intro q e he
    exact stamped_step h (hw.handed_lt he).1 (hi.handed q e he)
  · intro t e he
    obtain ⟨hlt, hstart⟩ := hi.working t e (hwk t e he)
    exact ⟨hlt, stamped_step h hlt hstart⟩
  · intro t f hf hst
    exact stamped_step h (hc.frame t _ hf).1 (hi.completing t f hf hst)
  · intro e he hst
    exact stamped_step h he (hi.complete e he hst)

section Sched

variable (hr : Reachable (scheduler T) m.sched) (hi : StampInv m) (hg : StampsKept m (.sched a))
  (ht : step m.sched a = some s') (h : Advance m (.sched a) (m.observe a s'))
include hr hi hg ht h

theorem handing_stamped {t : T} {f : PushFrame} {k : List Frame}
    (hk : s'.threads t = .push f :: k) (hpc : f.pc = .handOver)
    (he : f.event (s'.queues f.queue) = some e) :
    ((m.observe a s').stamp (m.stamps (.sched a))).Stamped e .submit := by
  have hs := step_cases ht
  have hw := wf_reachable hr
  by_cases hta : t = a.actor
  · subst hta
    cases push_top hs hw hk with
    | called hc => simp [hc] at hpc
    | entered _ _ _ hf => simp [hf] at hpc
    | erased _ _ _ hf => simp [hf] at hpc
    | handed _ _ _ hf => simp [hf] at hpc
    | moved _ hm => cases hm <;> simp_all
    | @submitted f₀ e₀ hk' hpc' he' hf hq hev =>
      -- this is the step that stamps the event
      subst hf
      rw [hq] at he
      obtain rfl : e₀ = e := Option.some.inj (he'.symm.trans he)
      obtain ⟨g, ha⟩ := resume_of_top hs hk'
      refine stamped_self h hg (hw.event_lt he').1 ?_
      rw [ha]
      simp [TimedState.stamps, hk', hpc', he']
  · rw [step_threads_of_ne hs hta] at hk
    obtain ⟨l, hl⟩ := step_queue_locked hs hw.mutex (hw.mutex.of_push hk (by simp [hpc])) hta
    rw [hl] at he
    exact stamped_step h (hw.event_lt he).1 (hi.handing t f k e hk hpc he)

omit hg in
theorem handed_stamped (he : e ∈ (s'.queues q).handed) :
    ((m.observe a s').stamp (m.stamps (.sched a))).Stamped e .submit := by
  have hw := wf_reachable hr
  rcases handed_step (step_cases ht) hw.mutex he with he | ⟨f, k, hk, rfl, hpc, he⟩
  · exact stamped_step h (hw.handed_lt he).1 (hi.handed q e he)
  · exact stamped_step h (hw.event_lt he).1 (hi.handing _ f k e hk hpc he)

/-- A worker has stamped the event it works on. -/
theorem working_step {t : T} (he : (m.observe a s').working t = some e) :
    e < s'.nextEvent ∧ ((m.observe a s').stamp (m.stamps (.sched a))).Stamped e .start := by
  have hs := step_cases ht
  have hold : m.working t = some e →
      e < s'.nextEvent ∧ ((m.observe a s').stamp (m.stamps (.sched a))).Stamped e .start := by
    intro hw
    obtain ⟨hlt, hstart⟩ := hi.working t e hw
    exact ⟨Nat.lt_of_lt_of_le hlt (step_nextEvent hs), stamped_step h hlt hstart⟩
  cases a with
  | deviceSetStatus u x st =>
    by_cases htu : t = u
    · subst htu
      simp only [TimedState.observe, Function.update_self] at he
      split at he
      · rename_i hrun
        obtain rfl : x = e := Option.some.inj he
        cases hs with
        | deviceSetStatus _ _ hh _ =>
          have hlt := ((wf_reachable hr).handed_lt hh).1
          refine ⟨hlt, stamped_self h hg hlt ?_⟩
          simp [TimedState.stamps, hrun]
      · cases he
    · simp only [TimedState.observe, Function.update_of_ne htu] at he
      exact hold he
  | _ => exact hold he

/-- A pending report of `CL_COMPLETE` comes from a worker that has stamped the end. -/
theorem completing_step {t : T} {f : StatusFrame} (hf : .setStatus f ∈ s'.threads t)
    (hst : f.status = clComplete) :
    ((m.observe a s').stamp (m.stamps (.sched a))).Stamped f.event .finish := by
  have hs := step_cases ht
  have hw := wf_reachable hr
  have hc := callsOk_reachable hr
  cases status_origin hs hf with
  | @old g hg' hev hst' =>
    rw [← hev]
    exact stamped_step h (hc.frame t _ hg').1 (hi.completing t g hg' (hst'.trans hst))
  | user ha hu =>
    -- a user event has no queue
    subst ha
    intro hp
    cases hs with
    | setUserEventStatus _ hlt _ _ _ =>
      rw [TimedState.profiled, stamp_sched] at hp
      change ((m.sched.events f.event).parent.any _) = true at hp
      have hnone : (m.sched.events f.event).parent = none := by
        by_contra hne
        exact (hc.event f.event hlt).parent hne hu
      simp [hnone] at hp
  | device ha hp hh =>
    subst ha
    refine stamped_self h hg (hw.handed_lt hh).1 ?_
    simp [TimedState.stamps, hst]
  | @taken g k hk hpc he _ =>
    by_cases hold : .setStatus f ∈ m.sched.threads t
    · exact stamped_step h (hc.frame t _ hold).1 (hi.completing t f hold hst)
    · -- the dummy that this step takes
      intro hp
      have hlt := (hw.event_lt he).1
      rw [TimedState.profiled, stamp_sched, stamp_profiling] at hp
      have hp : m.profiled f.event = true := (h.profiled hlt).symm.trans hp
      have hta : t = a.actor := by
        by_contra hta
        rw [step_threads_of_ne hs hta] at hf
        exact hold hf
      subst hta
      obtain ⟨b, ha⟩ := resume_of_top hs hk
      have hbelow : .setStatus f ∉ k := by
        intro hmem
        exact hold (by rw [hk]; exact List.mem_cons_of_mem _ hmem)
      have hnext := push_next hs hk
      generalize s' = u at hnext hf
      cases hnext with
      | @taken e' _ he' hn hin =>
        obtain rfl : f.event = e' := Option.some.inj (he.symm.trans he')
        have htakes : m.takes (.sched a) = some f.event := by
          rw [ha]
          simp [TimedState.takes, hk, he, hpc, Event.waitEventsAllCompleted, hn, hin]
        have hkept := hg.2 _ htakes
        rw [hp] at hkept
        cases hkept
      | _ => simp [hbelow] at hf

omit hg in
theorem complete_step (he : e < s'.nextEvent) (hst : (s'.events e).status = clComplete) :
    ((m.observe a s').stamp (m.stamps (.sched a))).Stamped e .finish := by
  have hs := step_cases ht
  by_cases hlt : e < m.sched.nextEvent
  · have hstatus := step_status hs hlt
    rw [hst] at hstatus
    generalize hz : clComplete = st at hstatus
    cases hstatus with
    | same => exact stamped_step h hlt (hi.complete e hlt hz.symm)
    | submitted => cases hz
    | @reported f k hk _ hf =>
      subst hf
      exact stamped_step h hlt (hi.completing a.actor f (by simp [hk]) hz.symm)
    | @terminated f j num p k hk hpc =>
      have hok : ReportOk m.sched (.setStatus f) :=
        reportInv_reachable hr a.actor _ (by rw [hk]; exact List.mem_cons_self)
      have hneg := (hok.2.2 _ _ _ _ hpc).1
      rw [← hz] at hneg
      exact absurd hneg (by decide)
  · have hnew := (new_event_history hs hlt he).2
    rw [hst] at hnew
    exact absurd hnew (by decide)

theorem stamping_step {t : T} (he : (m.observe a s').stamping t = some e) : e < s'.nextEvent := by
  have hn := step_nextEvent (step_cases ht)
  have hold : m.stamping t = some e → e < s'.nextEvent :=
    fun he => Nat.lt_of_lt_of_le (hi.stamping t e he) hn
  cases a with
  | resume u g =>
    cases hk : m.sched.threads u with
    | nil =>
      simp only [TimedState.observe, actor_resume, hk] at he
      exact hold he
    | cons f k =>
      cases f with
      | queueEvent x =>
        simp only [TimedState.observe, actor_resume, hk] at he
        by_cases htu : t = u
        · subst htu
          rw [Function.update_self] at he
          obtain rfl : x = e := Option.some.inj he
          have hb : Builds (m.sched.threads t) x := by simp [hk, Frame.building]
          exact Nat.lt_of_lt_of_le ((wf_reachable hr).owned.builds hb).1 hn
        · rw [Function.update_of_ne htu] at he
          exact hold he
      | _ =>
        simp only [TimedState.observe, actor_resume, hk] at he
        exact hold he
  | _ => exact hold he

theorem stampInv_sched : StampInv ((m.observe a s').stamp (m.stamps (.sched a))) := by
  refine ⟨?_, ?_, ?_, ?_, ?_, ?_⟩
  all_goals simp only [stamp_sched, stamp_stamping, stamp_working]
  · exact fun t e he => stamping_step hr hi hg ht h he
  · exact fun t f k e hk hpc he => handing_stamped hr hi hg ht h hk hpc he
  · exact fun q e he => handed_stamped hr hi ht h he
  · exact fun t e he => working_step hr hi hg ht h he
  · exact fun t f hf hst => completing_step hr hi hg ht h hf hst
  · exact fun e he hst => complete_step hr hi ht h he hst

end Sched

theorem stampInv_step (hr : Reachable (scheduler T) m.sched) (hi : StampInv m)
    (hg : StampsKept m b) (h : Advance m b m₁) : StampInv (m₁.stamp (m.stamps b)) := by
  have hw := wf_reachable hr
  have hc := callsOk_reachable hr
  have hclear : ∀ {o : T → Option EventId} {u t : T} {e : EventId},
      Function.update o u none t = some e → o t = some e := by
    intro o u t e he
    by_cases htu : t = u
    · subst htu
      simp at he
    · rwa [Function.update_of_ne htu] at he
  cases h with
  | tick => exact stampInv_same .tick hw hc hi rfl (fun _ _ he => he) (fun _ _ he => he)
  | sched hready hs => exact stampInv_sched hr hi hg hs (.sched hready hs)
  | stampQueue =>
    exact stampInv_same .stampQueue hw hc hi rfl (fun _ _ he => hclear he) (fun _ _ he => he)
  | unfinished =>
    exact stampInv_same .unfinished hw hc hi rfl (fun _ _ he => he) (fun _ _ he => hclear he)

/-- The steps that make a stamp. -/
inductive StampOrigin (m : TimedState T) : TimedAction T → EventId → Timing → Prop
  | queue {t : T} {e : EventId} : m.stamping t = some e → StampOrigin m (.stampQueue t) e .queue
  | submit {t : T} {g : Bool} {f : PushFrame} {e : EventId} :
      f.event (m.sched.queues f.queue) = some e →
      StampOrigin m (.sched (.resume t g)) e .submit
  | start {t : T} {e : EventId} {q : QueueId} : e ∈ (m.sched.queues q).handed →
      StampOrigin m (.sched (.deviceSetStatus t e clRunning)) e .start
  | finish {t : T} {e : EventId} {st : Int} {q : QueueId} : e ∈ (m.sched.queues q).handed →
      m.working t = some e → StampOrigin m (.sched (.deviceSetStatus t e st)) e .finish

theorem stamp_origin (h : Advance m b m₁) (hb : m.stamps b = some (e, i)) :
    StampOrigin m b e i := by
  cases h with
  | tick => cases hb
  | unfinished => cases hb
  | @stampQueue t =>
    obtain ⟨x, hx, heq⟩ := Option.map_eq_some_iff.mp hb
    cases heq
    exact .queue hx
  | @sched a s' hready hs =>
    cases a with
    | deviceSetStatus t x st =>
      cases step_cases hs with
      | deviceSetStatus _ _ hh _ =>
        by_cases hrun : st = clRunning
        · subst hrun
          cases hb
          exact .start hh
        · simp only [TimedState.stamps, hrun, if_false] at hb
          cases hb
          refine .finish hh ?_
          simpa [TimedState.workerReady, hrun] using hready
    | resume t g =>
      simp only [TimedState.stamps] at hb
      split at hb
      · split at hb
        · obtain ⟨x, hx, heq⟩ := Option.map_eq_some_iff.mp hb
          cases heq
          exact .submit hx
        · cases hb
      · cases hb
    | _ => cases hb

theorem StampOrigin.lt (h : StampOrigin m b e i) (hr : Reachable (scheduler T) m.sched)
    (hi : StampInv m) : e < m.sched.nextEvent := by
  have hw := wf_reachable hr
  cases h with
  | queue he => exact hi.stamping _ _ he
  | submit he => exact (hw.event_lt he).1
  | start hh => exact (hw.handed_lt hh).1
  | finish hh _ => exact (hw.handed_lt hh).1

omit [DecidableEq T] in
/-- A step that stamps an event finds the stamp before. -/
theorem StampOrigin.prev (h : StampOrigin m b e i) (hi : StampInv m)
    (hs : i = .submit → m.timing e .queue ≠ 0) (hp : m.profiled e = true) :
    ∀ j ∈ i.prev, m.timing e j ≠ 0 := by
  intro j hj
  cases h with
  | queue => cases hj
  | submit =>
    cases hj
    exact hs rfl
  | start hh =>
    cases hj
    exact hi.handed _ e hh hp
  | finish _ hw =>
    cases hj
    exact (hi.working _ e hw).2 hp

theorem timedInv_reachable (h : Reachable ((timedScheduler T).restrict StampsKept) m) :
    ClockInv m ∧ StampInv m := by
  induction h with
  | initial hi =>
    obtain ⟨o, p, u, rfl⟩ := hi
    refine ⟨⟨?_, ?_, ?_, ?_⟩, ⟨?_, ?_, ?_, ?_, ?_, ?_⟩⟩
    all_goals simp [timedInitial, initial, Queue.empty]
  | @step m m' b hr ht ih =>
    have hsched := timed_sched hr.of_restrict
    obtain ⟨m₁, hm, rfl⟩ := timed_cases ht.1
    refine ⟨?_, stampInv_step hsched ih.2 ht.2 hm⟩
    refine clockInv_stamp (clockInv_advance hm ih.1) ?_
    rintro ⟨e, i⟩ hb hp
    have horigin := stamp_origin hm hb
    have hlt := horigin.lt hsched ih.2
    rw [hm.profiled hlt] at hp
    obtain ⟨hlow, hhigh, hsubmit⟩ := ht.2.1 (e, i) hb hp
    rw [hm.timing, TimedState.Readable, hm.now (by simp [Option.mem_def.mp hb])]
    exact ⟨Nat.lt_of_lt_of_le hlt hm.nextEvent_le, ⟨hlow, hhigh⟩,
      horigin.prev ih.2 hsubmit hp⟩

/-- `1000*p_timing[i]` in 64 bits. -/
theorem nanoseconds_toNat (v : UInt32) : (1000 * v.toUInt64).toNat = 1000 * v.toNat := by
  have hv := v.toNat_lt
  rw [UInt64.toNat_mul, UInt32.toNat_toUInt64]
  exact Nat.mod_eq_of_lt (by simp; omega)

theorem nanoseconds_le {v w : UInt32} (h : v ≤ w) : 1000 * v.toUInt64 ≤ 1000 * w.toUInt64 := by
  rw [UInt64.le_iff_toNat_le, nanoseconds_toNat, nanoseconds_toNat]
  exact Nat.mul_le_mul_left 1000 (UInt32.le_iff_toNat_le.mp h)

omit [DecidableEq T] in
theorem ClockInv.reads (hi : ClockInv m) (h : m.timing e i ≠ 0) :
    m.Reads e (1000 * (m.timing e i).toUInt64) := by
  obtain ⟨ns, hns, heq⟩ := hi.read e i h
  obtain ⟨-, hc, hn⟩ := hi.past e ns hns
  exact ⟨ns, hns, hc, hn, by rw [nanoseconds_toNat, heq]⟩

/-- A complete command of a queue that profiles has its four times, in order, as long as the stamps
are made in order and within the range of `p_timing`. -/
theorem profiling_times_ordered (h : Reachable ((timedScheduler T).restrict StampsKept) m)
    (he : e < m.sched.nextEvent) (hp : m.profiled e = true)
    (hst : (m.sched.events e).status = clComplete) :
    ∃ queued submit start finish, m.TimesOrdered e queued submit start finish := by
  obtain ⟨hclock, hstamp⟩ := timedInv_reachable h
  have hsched := timed_sched h.of_restrict
  have hfinish := hstamp.complete e he hst hp
  obtain ⟨hstart, hle₃⟩ := hclock.ordered e .finish .start rfl hfinish
  obtain ⟨hsubmit, hle₂⟩ := hclock.ordered e .start .submit rfl hstart
  obtain ⟨hqueue, hle₁⟩ := hclock.ordered e .submit .queue rfl hsubmit
  have huser : (m.sched.events e).type ≠ .user := by
    apply ((callsOk_reachable hsched).event e he).parent
    intro hnone
    simp [TimedState.profiled, hnone] at hp
  refine ⟨_, _, _, _, ?_, ?_, ?_, ?_, nanoseconds_le hle₁, nanoseconds_le hle₂,
    nanoseconds_le hle₃, hclock.reads hqueue, hclock.reads hsubmit, hclock.reads hstart,
    hclock.reads hfinish⟩
  all_goals
    simp [TimedState.profilingInfo, huser, hp, hst, clProfilingCommandQueued,
      clProfilingCommandSubmit, clProfilingCommandStart, clProfilingCommandEnd]

theorem exists_timed_run (o p : QueueId → Bool) (u : Nat) (bs : List (TimedAction T))
    (c : TimedState T → Bool) (h : (exec timedStep (timedInitial T o p u) bs).map c = some true) :
    ∃ m, Reachable (timedScheduler T) m ∧ c m = true :=
  exists_exec ⟨o, p, u, rfl⟩ bs c h

theorem exists_kept_timed_run (o p : QueueId → Bool) (u : Nat) (bs : List (TimedAction T))
    (c : TimedState T → Bool) (h : (execGuarded timedStep (fun m b => decide (StampsKept m b))
      (timedInitial T o p u) bs).map c = some true) :
    ∃ m, Reachable ((timedScheduler T).restrict StampsKept) m ∧ c m = true :=
  exists_execGuarded StampsKept ⟨o, p, u, rfl⟩ bs c h

/-- A read that the worker `false` runs, with `ns` nanoseconds after the stamp of `QUEUED`. -/
def timedRead (ns : Nat) : List (TimedAction Bool) :=
  List.flatten [[.sched (.enqueue true .readBuffer 0 [])], (resumes true 2).map .sched,
    [.stampQueue true, .tick ns], (resumes true 10).map .sched,
    [.sched (.deviceSetStatus false 0 clRunning), .sched (.resume false false), .tick 1000,
      .sched (.deviceSetStatus false 0 clComplete), .sched (.resume false false)]]

/-- At an uptime of two microseconds. -/
theorem read_times_ordered :
    ∃ m : TimedState Bool, (m.sched.events 0).status = clComplete ∧
      ∃ queued submit start finish, m.TimesOrdered 0 queued submit start finish := by
  obtain ⟨m, hr, hc⟩ := exists_kept_timed_run (fun _ => false) (fun _ => true) 2000
    (timedRead 1000)
    (fun m => 0 < m.sched.nextEvent && m.profiled 0 && (m.sched.events 0).status = clComplete)
    (by decide +kernel)
  simp only [Bool.and_eq_true, decide_eq_true_eq] at hc
  exact ⟨m, hc.2, profiling_times_ordered hr hc.1.1 hc.1.2 hc.2⟩

/-- The last microsecond that `p_timing` can hold: `SUBMIT` starts again at zero. -/
theorem submit_time_wraps :
    ¬ ∀ m : TimedState Bool, Reachable (timedScheduler Bool) m → ∀ e, e < m.sched.nextEvent →
      m.profiled e = true → (m.sched.events e).status = clComplete →
      ∃ queued submit start finish, m.TimesOrdered e queued submit start finish := by
  intro hall
  obtain ⟨m, hr, hc⟩ := exists_timed_run (fun _ => false) (fun _ => true) 4294967295000
    (timedRead 1000)
    (fun m => 0 < m.sched.nextEvent && m.profiled 0 && (m.sched.events 0).status = clComplete &&
      (m.profilingInfo 0 clProfilingCommandQueued (some 8)).toOption = some 4294967295000 &&
      (m.profilingInfo 0 clProfilingCommandSubmit (some 8)).toOption = some 0)
    (by decide +kernel)
  simp only [Bool.and_eq_true, decide_eq_true_eq] at hc
  obtain ⟨⟨⟨⟨hlt, hp⟩, hst⟩, hqueued⟩, hsubmit⟩ := hc
  obtain ⟨queued, submit, start, finish, htimes⟩ := hall m hr 0 hlt hp hst
  rw [htimes.queued_eq] at hqueued
  rw [htimes.submit_eq] at hsubmit
  have hle := htimes.queued_le_submit
  rw [Option.some.inj hqueued, Option.some.inj hsubmit] at hle
  exact absurd hle (by decide)

end Run

end Shamrock.Scheduler
