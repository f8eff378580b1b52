import Shamrock.Scheduler.Monotone
import Shamrock.Lib.Tally

/-! Callbacks are called once each, as long as no status they wait for is skipped or repeated. -/
namespace Shamrock.Scheduler

open Transition

variable {T : Type} [DecidableEq T] {s s' : State T} {a : Action T} {as : List (Action T)}
  {x : EventId} {id : CallbackId}

/-- The callback that a call of `clSetEventCallback` registers on event `x`. -/
def Action.registers (x : EventId) : Action T → Option CallbackId
  | .setCallback _ e _ callback => if e = x then some callback else none
  | _ => none

/-- The callbacks registered on event `x` in a run. -/
def registered (x : EventId) (as : List (Action T)) : List CallbackId :=
  as.filterMap (Action.registers x)

/-- The status that thread `t` is about to write, with its event. -/
def State.writing (s : State T) (t : T) : Option (EventId × Int) :=
  match s.threads t with
  | .push f :: _ =>
    if f.pc = .submit then (f.event (s.queues f.queue)).map fun e => (e, clSubmitted) else none
  | .setStatus f :: _ =>
    match f.pc with
    | .helper => some (f.event, f.status)
    | .terminate _ _ d _ => some (d, f.status)
    | .notify _ _ => none
  | _ => none

/-- Callbacks for an abort code are those for `CL_COMPLETE`. -/
def callbackStatus (st : Int) : Int := if 0 < st then st else clComplete

/-- Writing `st` over `old` neither skips nor repeats the status `c`. -/
def Passes (old st c : Int) : Prop := if c < old then st ≤ c → c = callbackStatus st
  else callbackStatus st < c

instance (old st c : Int) : Decidable (Passes old st c) :=
  inferInstanceAs (Decidable (if c < old then st ≤ c → c = callbackStatus st
    else callbackStatus st < c))

/-- No status that a callback was registered for is skipped or written again. -/
def CallbacksPassed (s : State T) : Action T → Prop
  | .resume t _ => ∀ p ∈ s.writing t, ∀ c ∈ (s.events p.1).callbacks,
      Passes (s.events p.1).status p.2 c.1
  | _ => True

instance (s : State T) (a : Action T) : Decidable (CallbacksPassed s a) :=
  match a with
  | .resume t _ => inferInstanceAs (Decidable (∀ p ∈ s.writing t,
      ∀ c ∈ (s.events p.1).callbacks, Passes (s.events p.1).status p.2 c.1))
  | .createUserEvent _ | .setUserEventStatus .. | .setCallback .. | .enqueue .. | .flush ..
  | .finish .. | .deviceSetStatus .. => inferInstanceAs (Decidable True)

/-- What a step does to the callbacks of event `x`. -/
inductive CallbackChange (s : State T) (a : Action T) (x : EventId) : Event → Prop
  | registered {t : T} {type : Int} {c : CallbackId} : a = .setCallback t x type c →
      CallbackChange s a x ((s.events x).setCallback type c)
  | written {st : Int} : a.registers x = none → s.writing a.actor = some (x, st) →
      CallbackChange s a x ((s.events x).setStatusHelper st)
  | other {ev : Event} : a.registers x = none → ev.status = (s.events x).status →
      ev.callbacks = (s.events x).callbacks → ev.invoked = (s.events x).invoked →
      CallbackChange s a x ev

omit [DecidableEq T] in
theorem callbackChange_update {e : EventId} {ev : Event} (h : CallbackChange s a e ev)
    (hn : ∀ x, x ≠ e → a.registers x = none) (x : EventId) :
    CallbackChange s a x (Function.update s.events e ev x) := by
  by_cases hx : x = e
  · subst x
    simpa using h
  · rw [Function.update_of_ne hx]
    exact .other (hn x hx) rfl rfl rfl

theorem step_callbacks (h : Step s a s') (hx : x < s.nextEvent) :
    CallbackChange s a x (s'.events x) := by
  cases h
  case createUserEvent =>
    rw [State.newEvent_events, Function.update_of_ne (Nat.ne_of_lt hx)]
    exact .other rfl rfl rfl rfl
  case setCallback t e type c hk he =>
    refine callbackChange_update (.registered rfl) (fun y hy => ?_) x
    simp [Action.registers, Ne.symm hy]
  case construct =>
    rw [State.setStack_events, State.newEvent_events, Function.update_of_ne (Nat.ne_of_lt hx)]
    exact .other rfl rfl rfl rfl
  case addDependent e w rest k hk hs =>
    refine callbackChange_update ?_ (fun _ _ => rfl) x
    rw [Event.addDependentEvent_of_ne hs]
    exact .other rfl rfl rfl rfl
  case appendWait =>
    refine callbackChange_update ?_ (fun _ _ => rfl) x
    exact .other rfl rfl rfl rfl
  case constructed =>
    refine callbackChange_update ?_ (fun _ _ => rfl) x
    exact .other rfl rfl rfl rfl
  case pushSubmit hk hpc he =>
    refine callbackChange_update (.written rfl ?_) (fun _ _ => rfl) x
    simp [State.writing, hk, hpc, he]
  case helperNotify hk hpc _ =>
    refine callbackChange_update (.written rfl ?_) (fun _ _ => rfl) x
    simp [State.writing, hk, hpc]
  case helperReturn hk hpc _ =>
    refine callbackChange_update (.written rfl ?_) (fun _ _ => rfl) x
    simp [State.writing, hk, hpc]
  case notifyBlocked =>
    refine callbackChange_update ?_ (fun _ _ => rfl) x
    exact .other rfl rfl rfl rfl
  case notifyReady =>
    refine callbackChange_update ?_ (fun _ _ => rfl) x
    exact .other rfl rfl rfl rfl
  case notifyFailed =>
    refine callbackChange_update ?_ (fun _ _ => rfl) x
    exact .other rfl rfl rfl rfl
  case terminate hk hpc =>
    refine callbackChange_update (.written rfl ?_) (fun _ _ => rfl) x
    simp [State.writing, hk, hpc]
  all_goals exact .other rfl rfl rfl rfl

/-- Callbacks wait for one of the three statuses that can be asked for. -/
theorem setCallback_type {t : T} {e : EventId} {type : Int} {c : CallbackId}
    (h : step s (.setCallback t e type c) = some s') : 0 ≤ type := by
  simp only [step] at h
  split at h
  · rename_i hc
    obtain hc | hc | hc := hc.2.2.2 <;> simp [hc]
  · cases h

/-- Registered callbacks have been called, or wait for a status that is still to come. -/
structure CallbackInv (as : List (Action T)) (s : State T) : Prop where
  new : ∀ x, s.nextEvent ≤ x → registered x as = []
  types : ∀ x, x < s.nextEvent → ∀ c ∈ (s.events x).callbacks, 0 ≤ c.1
  counts : ∀ x, x < s.nextEvent → ∀ id, (s.events x).invoked.count id +
    (s.events x).callbacks.countP (fun c => c.1 < (s.events x).status ∧ c.2 = id) =
      (registered x as).count id

omit [DecidableEq T] in
theorem registered_append (x : EventId) (as : List (Action T)) (a : Action T) :
    registered x (as ++ [a]) = registered x as ++ (a.registers x).toList := by
  unfold registered
  rw [List.filterMap_append]
  cases h : a.registers x <;> simp [h]

theorem Passes.split {old st c : Int} (hc : 0 ≤ c) (h : Passes old st c) :
    (c = callbackStatus st ↔ c < old ∧ ¬ c < st) ∧ (c < st → c < old) := by
  unfold Passes callbackStatus clComplete at h
  unfold callbackStatus clComplete
  split_ifs at h ⊢ <;> omega

/-- A status is written: the callbacks it calls are those that no longer wait. -/
theorem countP_passes {l : List (Int × CallbackId)} {old st : Int} (ht : ∀ c ∈ l, 0 ≤ c.1)
    (hp : ∀ c ∈ l, Passes old st c.1) (id : CallbackId) :
    l.countP (fun c => c.1 = callbackStatus st ∧ c.2 = id) +
        l.countP (fun c => c.1 < st ∧ c.2 = id) =
      l.countP (fun c => c.1 < old ∧ c.2 = id) := by
  apply Tally.countP_add
  intro c hc
  obtain ⟨hcall, hwait⟩ := (hp c hc).split (ht c hc)
  simp only [decide_eq_true_eq, decide_eq_false_iff_not]
  tauto

theorem CallbackInv.counts_written {ev : Event} {st : Int} (ht : ∀ c ∈ ev.callbacks, 0 ≤ c.1)
    (hp : ∀ c ∈ ev.callbacks, Passes ev.status st c.1) (id : CallbackId) :
    (ev.setStatusHelper st).invoked.count id +
        ev.callbacks.countP (fun c => c.1 < st ∧ c.2 = id) =
      ev.invoked.count id + ev.callbacks.countP (fun c => c.1 < ev.status ∧ c.2 = id) := by
  have hcalled : ((ev.callbacks.filter fun c => c.1 = callbackStatus st).map Prod.snd).count id =
      ev.callbacks.countP (fun c => c.1 = callbackStatus st ∧ c.2 = id) := by
    rw [List.count, List.countP_map, List.countP_filter]
    refine List.countP_congr fun c _ => ?_
    simp [and_comm]
  have hinv : (ev.setStatusHelper st).invoked =
      ev.invoked ++ (ev.callbacks.filter fun c => c.1 = callbackStatus st).map Prod.snd := rfl
  rw [hinv, List.count_append, hcalled, Nat.add_assoc, countP_passes ht hp]

theorem CallbackInv.counts_registered (ev : Event) (type : Int) (c id : CallbackId) :
    (ev.setCallback type c).invoked.count id + (ev.setCallback type c).callbacks.countP
        (fun p => p.1 < (ev.setCallback type c).status ∧ p.2 = id) =
      ev.invoked.count id + ev.callbacks.countP (fun p => p.1 < ev.status ∧ p.2 = id) +
        [c].count id := by
  unfold Event.setCallback
  split
  · simp only [List.count_append]
    omega
  · rename_i hlt
    have hlt : type < ev.status := not_le.mp hlt
    simp only [List.countP_append, List.countP_singleton, List.count_singleton, hlt, true_and,
      decide_eq_true_eq, beq_iff_eq]
    omega

theorem CallbackInv.types_step (hi : CallbackInv as s) (h : step s a = some s')
    (hx : x < s.nextEvent) : ∀ c ∈ (s'.events x).callbacks, 0 ≤ c.1 := by
  have hc := step_callbacks (step_cases h) hx
  generalize s'.events x = ev at hc
  cases hc with
  | registered ha =>
    subst ha
    intro c hc
    unfold Event.setCallback at hc
    split at hc
    · exact hi.types x hx c hc
    · obtain hc | hc := List.mem_append.mp hc
      · exact hi.types x hx c hc
      · rw [List.mem_singleton.mp hc]
        exact setCallback_type h
  | written => exact hi.types x hx
  | other _ _ hcb _ =>
    rw [hcb]
    exact hi.types x hx

theorem CallbackInv.counts_step (hi : CallbackInv as s) (h : Step s a s')
    (hg : CallbacksPassed s a) (hx : x < s.nextEvent) (id : CallbackId) :
    (s'.events x).invoked.count id +
        (s'.events x).callbacks.countP (fun c => c.1 < (s'.events x).status ∧ c.2 = id) =
      (registered x (as ++ [a])).count id := by
  rw [registered_append, List.count_append, ← hi.counts x hx id]
  have hc := step_callbacks h hx
  generalize s'.events x = ev at hc
  cases hc with
  | registered ha =>
    subst ha
    simpa [Action.registers] using CallbackInv.counts_registered (s.events x) _ _ id
  | @written st hr hw =>
    have hpass : ∀ c ∈ (s.events x).callbacks, Passes (s.events x).status st c.1 := by
      obtain ⟨f, k, hk⟩ : ∃ f k, s.threads a.actor = f :: k := by
        cases hth : s.threads a.actor with
        | nil => simp [State.writing, hth] at hw
        | cons f k => exact ⟨f, k, rfl⟩
      obtain ⟨g, ha⟩ := resume_of_top h hk
      rw [ha] at hg
      exact hg _ hw
    rw [hr]
    exact CallbackInv.counts_written (hi.types x hx) hpass id
  | other hr hst hcb hin =>
    rw [hr, hst, hcb, hin]
    rfl

/-- A new event has no callbacks. -/
theorem new_event_callbacks (h : Step s a s') (hlt : ¬ x < s.nextEvent) (hx : x < s'.nextEvent) :
    (s'.events x).callbacks = [] ∧ (s'.events x).invoked = [] ∧ a.registers x = none := by
  cases h
  case createUserEvent =>
    have hx : x = s.nextEvent := Nat.le_antisymm (Nat.lt_succ_iff.mp hx) (not_lt.mp hlt)
    simp [hx, Event.userEvent, Action.registers]
  case construct =>
    have hx : x = s.nextEvent := Nat.le_antisymm (Nat.lt_succ_iff.mp hx) (not_lt.mp hlt)
    simp [hx, Event.command, Action.registers]
  all_goals exact absurd hx hlt

theorem callbackInv_step (h : step s a = some s') (hg : CallbacksPassed s a)
    (hi : CallbackInv as s) : CallbackInv (as ++ [a]) s' where
  new := by
    intro x hx
    have hle := Nat.le_trans (step_nextEvent (step_cases h)) hx
    rw [registered_append, hi.new x hle]
    cases step_cases h with
    | setCallback _ he => simp [Action.registers, Nat.ne_of_lt (Nat.lt_of_lt_of_le he hle)]
    | _ => rfl
  types := by
    intro x hx
    by_cases hlt : x < s.nextEvent
    · exact hi.types_step h hlt
    · simp [(new_event_callbacks (step_cases h) hlt hx).1]
  counts := by
    intro x hx id
    by_cases hlt : x < s.nextEvent
    · exact hi.counts_step (step_cases h) hg hlt id
    · obtain ⟨hc, hin, hr⟩ := new_event_callbacks (step_cases h) hlt hx
      simp [hc, hin, registered_append, hr, hi.new x (not_lt.mp hlt)]

theorem callbackInv_run (h : Run ((scheduler T).restrict CallbacksPassed) as s) :
    CallbackInv as s := by
  apply h.invariant
  · rintro _ ⟨o, rfl⟩
    constructor
    · exact fun _ _ => rfl
    · exact fun x hx => absurd hx (Nat.not_lt_zero x)
    · exact fun x hx => absurd hx (Nat.not_lt_zero x)
  · intro as s a s' _ hi ht
    exact callbackInv_step ht.1 ht.2 hi

/-- Every callback has been called as often as it was registered when the event has ended. -/
theorem callbacks_called_once (h : Run ((scheduler T).restrict CallbacksPassed) as s)
    (hx : x < s.nextEvent) (ht : (s.events x).Terminal) (id : CallbackId) :
    (s.events x).invoked.count id = (registered x as).count id := by
  have hi := callbackInv_run h
  have hnone : (s.events x).callbacks.countP
      (fun c => c.1 < (s.events x).status ∧ c.2 = id) = 0 := by
    rw [List.countP_eq_zero]
    intro c hc
    have hpos := hi.types x hx c hc
    unfold Event.Terminal at ht
    simp only [decide_eq_true_eq, not_and]
    intro hlt
    omega
  rw [← hi.counts x hx id, hnone, Nat.add_zero]

/-- A read with a callback for each status, one of them registered when the read already runs. -/
theorem callbacks_called_once_of_read :
    ∃ (as : List (Action Bool)) (s : State Bool),
      Run ((scheduler Bool).restrict CallbacksPassed) as s ∧ (s.events 1).Terminal ∧
      registered 1 as = [7, 8, 9] ∧ ∀ id, (s.events 1).invoked.count id = [7, 8, 9].count id := by
  let as : List (Action Bool) :=
    List.flatten [[.createUserEvent true, .enqueue true .readBuffer 0 [0]], resumes true 13,
      [.setCallback true 1 2 7, .setCallback true 1 0 8, .setUserEventStatus true 0 0],
      resumes true 13, [.deviceSetStatus true 1 1], resumes true 1,
      [.setCallback true 1 1 9, .deviceSetStatus true 1 0], resumes true 1]
  obtain ⟨s, hr, hc⟩ := guarded_run_checked CallbacksPassed (fun _ => false) as
    (fun s => 1 < s.nextEvent ∧ (s.events 1).Terminal) (by decide +kernel)
  obtain ⟨hx, ht⟩ := of_decide_eq_true hc
  have hreg : registered 1 as = [7, 8, 9] := by decide
  refine ⟨as, s, hr, ht, hreg, fun id => ?_⟩
  rw [← hreg]
  exact callbacks_called_once hr hx ht id

/-- A marker that waits for a user event is completed without ever running, while a kernel is
reported as running by each work-group. -/
theorem callbacks_skipped_and_repeated :
    (∃ (as : List (Action Bool)) (s : State Bool), Run (scheduler Bool) as s ∧
      (s.events 1).Terminal ∧ s.threads true = [] ∧ s.threads false = [] ∧
      registered 1 as = [7] ∧ (s.events 1).invoked = []) ∧
    ∃ (as : List (Action Bool)) (s : State Bool), Run (scheduler Bool) as s ∧
      (s.events 0).Terminal ∧ s.threads true = [] ∧ s.threads false = [] ∧
      registered 0 as = [7] ∧ (s.events 0).invoked = [7, 7] := by
  let marker : List (Action Bool) :=
    List.flatten [[.createUserEvent true, .enqueue true .marker 0 [0]], resumes true 13,
      [.setCallback true 1 1 7, .setUserEventStatus true 0 0], resumes true 14]
  let kernel : List (Action Bool) :=
    List.flatten [[.enqueue true .ndRangeKernel 0 []], resumes true 12,
      [.setCallback true 0 1 7, .deviceSetStatus true 0 1], resumes true 1,
      [.deviceSetStatus false 0 1], resumes false 1, [.deviceSetStatus true 0 0], resumes true 6]
  obtain ⟨s, hr, hc⟩ := run_checked (fun _ => false) marker (fun s => (s.events 1).Terminal ∧
    s.threads true = [] ∧ s.threads false = [] ∧ (s.events 1).invoked = []) (by decide +kernel)
  obtain ⟨s', hr', hc'⟩ := run_checked (fun _ => false) kernel (fun s => (s.events 0).Terminal ∧
    s.threads true = [] ∧ s.threads false = [] ∧ (s.events 0).invoked = [7, 7]) (by decide +kernel)
  obtain ⟨ht, h₁, h₂, hin⟩ := of_decide_eq_true hc
  obtain ⟨ht', h₁', h₂', hin'⟩ := of_decide_eq_true hc'
  exact ⟨⟨marker, s, hr, ht, h₁, h₂, by decide, hin⟩,
    kernel, s', hr', ht', h₁', h₂', by decide, hin'⟩

end Shamrock.Scheduler
