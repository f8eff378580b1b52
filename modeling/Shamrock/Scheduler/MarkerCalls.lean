import Shamrock.Scheduler.Marker

/-! What the calls for markers without a wait list keep, in every interleaving. -/
namespace Shamrock.Scheduler

open Transition

variable {T : Type} [DecidableEq T] {s s' : State T} {a : Action T} {q : QueueId} {e : EventId}
  {m m' : MarkerState T} {mallocZero : Bool} {t u : T}

/-- Every event of the queue is one of these, or has ended. -/
def Covered (s : State T) (q : QueueId) (events : List EventId) : Prop :=
  ∀ e ∈ (s.queues q).events, e ∈ events ∨ (s.events e).Ended

/-- What holds of the thread and the queue at each point of a call. -/
def PhaseOk (s : State T) (locked : QueueId → Option T) (t : T) : MarkerPC → Prop
  | .snapshot q i events => s.threads t = [] ∧ locked q = some t ∧ (s.queues q).mutex = none ∧
      events ⊆ (s.queues q).queued ∧
      ∀ e ∈ (s.queues q).events.take i, e ∈ events ∨ (s.events e).Ended
  | .listed q events => s.threads t = [] ∧ events ⊆ (s.queues q).queued ∧ Covered s q events
  | .constructing q events => (∃ rest, s.threads t = [.check .marker q events rest]) ∧
      Covered s q events
  | .registering _ => (∃ e rest, s.threads t = [.register e rest]) ∨
      (∃ e w rest, s.threads t = [.appendWait e w rest]) ∨ ∃ e, s.threads t = [.queueEvent e]
  | .givingBack events i => i ≤ events.length

/-- What holds of a marker that exists. -/
structure MarkerOk (s : State T) (x : Marker) : Prop where
  event : x.event < s.nextEvent
  type : (s.events x.event).type = .marker
  parent : (s.events x.event).parent ≠ none
  pending : ∀ e ∈ x.pending, e < s.nextEvent ∧
    (e ∈ (s.events x.event).waitList ∨ (s.events e).Ended)

def DeletedOk (m : MarkerState T) : Prop :=
  ∀ e, e < m.sched.nextEvent → m.references e ≤ 0 → m.deleted e = true

structure MarkerInv (m : MarkerState T) : Prop where
  sched : Reachable (scheduler T) m.sched
  phase : ∀ t pc, m.calls t = some pc → PhaseOk m.sched m.locked t pc
  returned : ∀ r ∈ m.returns, r.code = clSuccess ∧ r.given = r.taken
  markers : ∀ x ∈ m.markers, MarkerOk m.sched x
  deleted : DeletedOk m

section References

theorem nextEvent_le_succ (h : Step s a s') : s'.nextEvent ≤ s.nextEvent + 1 := by
  cases h <;> first | exact Nat.le_refl _ | exact Nat.le_succ _

omit [DecidableEq T] in
theorem deletedOk_reference (h : DeletedOk m) (e : EventId) : DeletedOk (m.reference e) := by
  intro x hx hle
  by_cases hxe : x = e
  · subst hxe
    simp only [MarkerState.reference, Function.update_self] at hle
    exact h x hx (by omega)
  · simp only [MarkerState.reference, Function.update_of_ne hxe] at hle
    exact h x hx hle

omit [DecidableEq T] in
/-- Only a reference that is not the last one is given back without deleting the event. -/
theorem deletedOk_dereference (h : DeletedOk m) (he : 2 ≤ m.references e) :
    DeletedOk (m.dereference e) := by
  intro x hx hle
  by_cases hxe : x = e
  · subst hxe
    simp only [MarkerState.dereference, Function.update_self] at hle
    omega
  · simp only [MarkerState.dereference, Function.update_of_ne hxe] at hle
    exact h x hx hle

omit [DecidableEq T] in
theorem deletedOk_releaseEvent (h : DeletedOk m) (e : EventId) : DeletedOk (m.releaseEvent e) := by
  intro x hx hle
  by_cases hxe : x = e
  · subst hxe
    simp only [MarkerState.releaseEvent, MarkerState.dereference, Function.update_self] at hle ⊢
    by_cases hlast : m.references x = 1
    · rw [if_pos hlast, Function.update_self]
    · rw [if_neg hlast]
      exact h x hx (by omega)
  · simp only [MarkerState.releaseEvent, MarkerState.dereference,
      Function.update_of_ne hxe] at hle ⊢
    have hold := h x hx hle
    split
    · rwa [Function.update_of_ne hxe]
    · exact hold

theorem deletedOk_observe (h : DeletedOk m) (hs : Step m.sched a s') :
    DeletedOk (m.observe a s') := by
  have hn := nextEvent_le_succ hs
  unfold MarkerState.observe
  extract_lets created
  have hcreated : DeletedOk created := by
    intro x hx hle
    change x < s'.nextEvent at hx
    change (if m.sched.nextEvent < s'.nextEvent then
      Function.update m.references m.sched.nextEvent 1 else m.references) x ≤ 0 at hle
    by_cases hnew : m.sched.nextEvent < s'.nextEvent
    · rw [if_pos hnew] at hle
      by_cases hxn : x = m.sched.nextEvent
      · rw [hxn, Function.update_self] at hle
        omega
      · rw [Function.update_of_ne hxn] at hle
        have hlt := Nat.lt_of_lt_of_le hx hn
        exact h x (Nat.lt_of_le_of_ne (Nat.lt_succ_iff.mp hlt) hxn) hle
    · rw [if_neg hnew] at hle
      exact h x (Nat.lt_of_lt_of_le hx (not_lt.mp hnew)) hle
  split
  · exact deletedOk_reference hcreated _
  · exact deletedOk_releaseEvent hcreated _
  · exact hcreated

end References

section Observe

variable (m a s')

section

omit [DecidableEq T]

@[simp] theorem observe_sched : (m.observe a s').sched = s' := by
  unfold MarkerState.observe
  dsimp only
  split <;> rfl

@[simp] theorem observe_calls : (m.observe a s').calls = m.calls := by
  unfold MarkerState.observe
  dsimp only
  split <;> rfl

@[simp] theorem observe_locked : (m.observe a s').locked = m.locked := by
  unfold MarkerState.observe
  dsimp only
  split <;> rfl

@[simp] theorem observe_returns : (m.observe a s').returns = m.returns := by
  unfold MarkerState.observe
  dsimp only
  split <;> rfl

@[simp] theorem observe_markers : (m.observe a s').markers = m.markers := by
  unfold MarkerState.observe
  dsimp only
  split <;> rfl

end

end Observe

section Phases

variable {locked locked' : QueueId → Option T} {pc : MarkerPC} {events : List EventId}

omit [DecidableEq T] in
theorem Wf.mem_events_lt (hw : Wf s) (he : e ∈ (s.queues q).events) :
    e < s.nextEvent ∧ (s.events e).parent = some q := by
  obtain ⟨i, hi⟩ := List.getElem?_of_mem he
  exact hw.event_lt hi

/-- Nothing is added to the queue that the call does not know of. -/
theorem covered_step (hr : Reachable (scheduler T) s) (h : Step s a s')
    (ha : s.appends a ≠ some q) (hc : Covered s q events) : Covered s' q events := by
  have hw := wf_reachable hr
  intro e he
  have hold := (mem_events_step h hw.mutex he).resolve_right ha
  exact (hc e hold).imp_right (step_ended h (hw.mem_events_lt hold).1)

/-- The steps of other threads. -/
theorem phaseOk_step (hr : Reachable (scheduler T) s) (h : Step s a s') (ht : t ≠ a.actor)
    (hacq : ∀ q, locked q = some t → s.acquires a ≠ some q)
    (happ : ∀ q, pc.opens = some q → s.appends a ≠ some q) (hp : PhaseOk s locked t pc) :
    PhaseOk s' locked t pc := by
  have hw := wf_reachable hr
  have hthreads := step_threads_of_ne h ht
  cases pc with
  | snapshot q i events =>
    obtain ⟨hidle, hl, hmutex, hqueued, hread⟩ := hp
    have ha := hacq q hl
    refine ⟨by rwa [hthreads], hl, ?_, fun e he => queued_mono h hw.mutex q (hqueued he), ?_⟩
    · rcases step_mutex h q with hm | hm | hm
      · rwa [hm]
      · exact hm
      · exact absurd hm ha
    · rw [events_of_free h hw.mutex hmutex ha]
      intro e he
      exact (hread e he).imp_right (step_ended h (hw.mem_events_lt (List.mem_of_mem_take he)).1)
  | listed q events =>
    obtain ⟨hidle, hqueued, hcov⟩ := hp
    exact ⟨by rwa [hthreads], fun e he => queued_mono h hw.mutex q (hqueued he),
      covered_step hr h (happ q rfl) hcov⟩
  | constructing q events =>
    obtain ⟨hstack, hcov⟩ := hp
    exact ⟨by rwa [hthreads], covered_step hr h (happ q rfl) hcov⟩
  | registering events =>
    unfold PhaseOk
    rwa [hthreads]
  | givingBack events i => exact hp

omit [DecidableEq T] in
/-- A call knows of the mutex it holds itself. -/
theorem phaseOk_locked (h : ∀ q, locked q = some t → locked' q = some t)
    (hp : PhaseOk s locked t pc) : PhaseOk s locked' t pc := by
  cases pc with
  | snapshot q i events => exact ⟨hp.1, h q hp.2.1, hp.2.2⟩
  | listed q events => exact hp
  | constructing q events => exact hp
  | registering events => exact hp
  | givingBack events i => exact hp

theorem markerOk_step {x : Marker} (h : Step s a s') (hx : MarkerOk s x) : MarkerOk s' x := by
  have hid := step_identity h hx.event
  have hn := step_nextEvent h
  refine ⟨Nat.lt_of_lt_of_le hx.event hn, by rw [hid.type]; exact hx.type,
    by rw [hid.parent]; exact hx.parent, ?_⟩
  intro e he
  obtain ⟨hlt, hor⟩ := hx.pending e he
  rw [hid.waitList]
  exact ⟨Nat.lt_of_lt_of_le hlt hn, hor.imp_right (step_ended h hlt)⟩

end Phases

section Steps

/-- A step of the scheduler, by a thread whose call then goes on at `pc'`. -/
theorem MarkerInv.run (hi : MarkerInv m) (pc' : Option MarkerPC) (hs : step m.sched a = some s')
    (hacq : ∀ q t, m.locked q = some t → m.sched.acquires a ≠ some q)
    (happ : ∀ t pc q, m.calls t = some pc → pc.opens = some q → m.sched.appends a ≠ some q)
    (hpc : ∀ pc, pc' = some pc → PhaseOk s' m.locked a.actor pc) :
    MarkerInv ((m.observe a s').setCall a.actor pc') := by
  have h := step_cases hs
  refine ⟨?_, ?_, ?_, ?_, ?_⟩
  · rw [show ((m.observe a s').setCall a.actor pc').sched = s' from observe_sched ..]
    exact .step hi.sched hs
  · intro t pc hcall
    rw [show ((m.observe a s').setCall a.actor pc').sched = s' from observe_sched ..,
      show ((m.observe a s').setCall a.actor pc').locked = m.locked from observe_locked ..]
    by_cases ht : t = a.actor
    · subst ht
      simp only [MarkerState.setCall, Function.update_self] at hcall
      exact hpc pc hcall
    · simp only [MarkerState.setCall, Function.update_of_ne ht, observe_calls] at hcall
      exact phaseOk_step hi.sched h ht (fun q hq => hacq q t hq) (fun q hq => happ t pc q hcall hq)
        (hi.phase t pc hcall)
  · rw [show ((m.observe a s').setCall a.actor pc').returns = m.returns from observe_returns ..]
    exact hi.returned
  · rw [show ((m.observe a s').setCall a.actor pc').sched = s' from observe_sched ..,
      show ((m.observe a s').setCall a.actor pc').markers = m.markers from observe_markers ..]
    exact fun x hx => markerOk_step h (hi.markers x hx)
  · exact deletedOk_observe hi.deleted h

/-- A step of a call that leaves the scheduler alone. -/
theorem MarkerInv.move {pc' : Option MarkerPC} (hi : MarkerInv m) (hsched : m'.sched = m.sched)
    (hlocked : ∀ u q, u ≠ t → m.locked q = some u → m'.locked q = some u)
    (hcalls : m'.calls = Function.update m.calls t pc')
    (hpc : ∀ pc, pc' = some pc → PhaseOk m.sched m'.locked t pc)
    (hreturned : ∀ r ∈ m'.returns, r ∈ m.returns ∨ r.code = clSuccess ∧ r.given = r.taken)
    (hmarkers : m'.markers = m.markers) (hdeleted : DeletedOk m') : MarkerInv m' := by
  refine ⟨hsched ▸ hi.sched, ?_, ?_, ?_, hdeleted⟩
  · intro u pc hcall
    rw [hcalls] at hcall
    rw [hsched]
    by_cases hu : u = t
    · subst hu
      rw [Function.update_self] at hcall
      exact hpc pc hcall
    · rw [Function.update_of_ne hu] at hcall
      exact phaseOk_locked (fun q hq => hlocked u q hu hq) (hi.phase u pc hcall)
  · intro r hr
    exact (hreturned r hr).elim (hi.returned r) id
  · rw [hmarkers, hsched]
    exact hi.markers

end Steps

section Calls

variable {events : List EventId} {i : Nat}

/-- One event of the list is looked at under the mutex of the queue. -/
theorem inv_snapshot (hi : MarkerInv m) (hcall : m.calls t = some (.snapshot q i events))
    (h : proceed mallocZero m t (.snapshot q i events) = some m') : MarkerInv m' := by
  have hp := hi.phase t _ hcall
  obtain ⟨hidle, hl, hmutex, hqueued, hread⟩ := hp
  have hw := wf_reachable hi.sched
  unfold proceed at h
  cases hx : (m.sched.queues q).events[i]? with
  | none =>
    simp only [hx, Option.some.injEq] at h
    subst h
    refine hi.move (t := t) rfl ?_ rfl ?_ (fun r hr => .inl hr) rfl hi.deleted
    · intro u p hu hp
      have hqp : p ≠ q := by
        rintro rfl
        exact hu (Option.some.inj (hp.symm.trans hl))
      exact (Function.update_of_ne hqp _ _).trans hp
    · rintro pc ⟨⟩
      refine ⟨hidle, hqueued, ?_⟩
      intro e he
      rw [List.take_of_length_le (List.getElem?_eq_none_iff.mp hx)] at hread
      exact hread e he
  | some e =>
    have hmem := List.mem_of_getElem? hx
    simp only [hx] at h
    have htake : (m.sched.queues q).events.take (i + 1) =
        (m.sched.queues q).events.take i ++ [e] := by
      rw [List.take_add_one, hx]
      rfl
    by_cases hst : (m.sched.events e).status = clComplete
    · rw [if_pos hst, Option.some.injEq] at h
      subst h
      refine hi.move (t := t) rfl (fun _ _ _ hp => hp) rfl ?_ (fun r hr => .inl hr) rfl hi.deleted
      rintro pc ⟨⟩
      refine ⟨hidle, hl, hmutex, hqueued, ?_⟩
      rw [htake]
      intro x hx'
      rcases List.mem_append.mp hx' with hx' | hx'
      · exact hread x hx'
      · rw [List.mem_singleton.mp hx']
        have hok := (callsOk_reachable hi.sched).event e (hw.mem_events_lt hmem).1
        exact .inr ⟨_, hok.status, le_of_eq hst⟩
    · rw [if_neg hst, Option.some.injEq] at h
      subst h
      refine hi.move (t := t) rfl (fun _ _ _ hp => hp) rfl ?_ (fun r hr => .inl hr) rfl
        (deletedOk_reference hi.deleted e)
      rintro pc ⟨⟩
      refine ⟨hidle, hl, hmutex, ?_, ?_⟩
      · intro x hx'
        rcases List.mem_append.mp hx' with hx' | hx'
        · exact hqueued hx'
        · rw [List.mem_singleton.mp hx']
          exact (hw.owned.ledger q).mem_queued hx
      · rw [htake]
        intro x hx'
        rcases List.mem_append.mp hx' with hx' | hx'
        · exact (hread x hx').imp_left (List.mem_append_left [e])
        · exact .inl (List.mem_append_right _ hx')

theorem inv_listed (hi : MarkerInv m) (hcall : m.calls t = some (.listed q events))
    (hg : events ≠ [] ∨ mallocZero = false)
    (h : proceed mallocZero m t (.listed q events) = some m') : MarkerInv m' := by
  obtain ⟨hidle, hqueued, hcov⟩ := hi.phase t _ hcall
  have hne : ¬(events = [] ∧ mallocZero = true) := by
    rintro ⟨rfl, hz⟩
    simp [hz] at hg
  simp only [proceed, if_neg hne] at h
  obtain ⟨s', hs, rfl⟩ := Option.map_eq_some_iff.mp h
  refine hi.run _ hs (by simp [State.acquires]) (by simp [State.appends]) ?_
  rintro pc ⟨⟩
  have hstep := step_cases hs
  refine ⟨?_, covered_step hi.sched hstep (by simp [State.appends]) hcov⟩
  cases hstep
  exact ⟨events, by simp⟩

theorem setCall_self {pc : Option MarkerPC} (h : m.calls t = pc) : m.setCall t pc = m := by
  unfold MarkerState.setCall
  rw [← h, Function.update_eq_self]

/-- The constructor goes on to the next event of its list. -/
theorem inv_check {w : EventId} {ws : List EventId} (hi : MarkerInv m)
    (hcall : m.calls t = some (.constructing q events))
    (hk : m.sched.threads t = [.check .marker q events (w :: ws)])
    (hg : 0 ≤ (m.sched.events w).status)
    (h : proceed mallocZero m t (.constructing q events) = some m') : MarkerInv m' := by
  obtain ⟨-, hcov⟩ := hi.phase t _ hcall
  have hs : step m.sched (.resume t false) =
      some (m.sched.setStack t [.check .marker q events ws]) := by
    simp only [step, resume, hk, resumeCheck, if_neg (not_lt.mpr hg)]
  have hacq : m.sched.acquires (.resume t false) = none := by simp [State.acquires, hk]
  have happ : m.sched.appends (.resume t false) = none := by simp [State.appends, hk]
  have hcall' : (m.observe (.resume t false) (m.sched.setStack t
      [.check .marker q events ws])).calls t = some (.constructing q events) := by
    rw [observe_calls, hcall]
  simp only [proceed, hs, Option.map_some, State.setStack_threads, Function.update_self,
    State.setStack_nextEvent, Nat.lt_irrefl, if_false, reduceCtorEq, Option.some.injEq] at h
  subst h
  rw [← setCall_self hcall']
  refine hi.run _ hs (by simp [hacq]) (by simp [happ]) ?_
  rintro pc ⟨⟩
  exact ⟨⟨ws, by simp⟩, covered_step hi.sched (step_cases hs) (by simp [happ]) hcov⟩

/-- The constructor creates the event once it has found no failed one. -/
theorem inv_create (hi : MarkerInv m) (hcall : m.calls t = some (.constructing q events))
    (hk : m.sched.threads t = [.check .marker q events []])
    (h : proceed mallocZero m t (.constructing q events) = some m') : MarkerInv m' := by
  obtain ⟨-, hcov⟩ := hi.phase t _ hcall
  have hw := wf_reachable hi.sched
  obtain ⟨s', hs, hm'⟩ := Option.map_eq_some_iff.mp h
  have hacq : m.sched.acquires (.resume t false) = none := by simp [State.acquires, hk]
  have happ : m.sched.appends (.resume t false) = none := by simp [State.appends, hk]
  have hval : s' = (m.sched.newEvent (.command .marker q events)).setStack t
      [if events.isEmpty then .queueEvent m.sched.nextEvent
        else .register m.sched.nextEvent events] := by
    simp only [step, resume, hk, resumeCheck, Option.some.injEq] at hs
    exact hs.symm
  have hstep := step_cases hs
  have hthreads : s'.threads t = [if events.isEmpty then .queueEvent m.sched.nextEvent
      else .register m.sched.nextEvent events] := by
    simp [hval]
  have hnext : s'.nextEvent = m.sched.nextEvent + 1 := by simp [hval]
  have hnew : s'.events m.sched.nextEvent = .command .marker q events := by simp [hval]
  have hrun := hi.run (some (.registering events)) hs (by simp [hacq]) (by simp [happ]) ?_
  · rw [if_neg (by simp [hthreads]), if_pos (hnext ▸ Nat.lt_succ_self _)] at hm'
    subst hm'
    refine { hrun with markers := ?_ }
    intro x hx
    rw [show (MarkerState.setCall _ t (some (.registering events))).sched = s' from
      observe_sched ..]
    rcases List.mem_append.mp hx with hx | hx
    · exact markerOk_step hstep (hi.markers x hx)
    · rw [List.mem_singleton.mp hx]
      refine ⟨hnext ▸ Nat.lt_succ_self _, by rw [hnew]; rfl, by simp [hnew, Event.command], ?_⟩
      intro e he
      have hmem := (List.mem_filter.mp he).1
      have hlt := (hw.mem_events_lt hmem).1
      rw [hnew]
      refine ⟨Nat.lt_of_lt_of_le hlt (step_nextEvent hstep), ?_⟩
      exact (hcov e hmem).imp_right (step_ended hstep hlt)
  · rintro pc ⟨⟩
    rw [PhaseOk, actor_resume, hthreads]
    cases hempty : events.isEmpty with
    | true => exact .inr (.inr ⟨_, rfl⟩)
    | false => exact .inl ⟨_, _, rfl⟩

theorem inv_constructing (hi : MarkerInv m) (hcall : m.calls t = some (.constructing q events))
    (hg : MarkerKept mallocZero m (.proceed t))
    (h : proceed mallocZero m t (.constructing q events) = some m') : MarkerInv m' := by
  obtain ⟨⟨rest, hk⟩, -⟩ := hi.phase t _ hcall
  cases rest with
  | nil => exact inv_create hi hcall hk h
  | cons w ws =>
    exact inv_check hi hcall hk (hg.2.1 w (by simp [MarkerState.checking, hcall, hk])) h

/-- The constructor registers with one event after the other. -/
theorem inv_registering (hi : MarkerInv m) (hcall : m.calls t = some (.registering events))
    (h : proceed mallocZero m t (.registering events) = some m') : MarkerInv m' := by
  have hstay : ∀ s', step m.sched (.resume t false) = some s' →
      m.sched.acquires (.resume t false) = none → m.sched.appends (.resume t false) = none →
      PhaseOk s' m.locked t (.registering events) → MarkerInv (m.observe (.resume t false) s') := by
    intro s' hs hacq happ hp
    have hcall' : (m.observe (.resume t false) s').calls t = some (.registering events) := by
      rw [observe_calls, hcall]
    rw [← setCall_self hcall']
    refine hi.run _ hs (by simp [hacq]) (by simp [happ]) ?_
    rintro pc ⟨⟩
    exact hp
  rcases hi.phase t _ hcall with ⟨e, rest, hk⟩ | ⟨e, w, rest, hk⟩ | ⟨e, hk⟩
  · simp only [proceed, hk] at h
    obtain ⟨s', hs, rfl⟩ := Option.map_eq_some_iff.mp h
    refine hstay s' hs (by simp [State.acquires, hk]) (by simp [State.appends, hk]) ?_
    simp only [step, resume, hk, resumeRegister] at hs
    cases rest with
    | nil =>
      cases hs
      exact .inr (.inr ⟨e, by simp⟩)
    | cons w ws =>
      dsimp only at hs
      split at hs
      · cases hs
        exact .inr (.inl ⟨e, w, ws, by simp⟩)
      · cases hs
        exact .inl ⟨e, ws, by simp⟩
  · simp only [proceed, hk] at h
    obtain ⟨s', hs, rfl⟩ := Option.map_eq_some_iff.mp h
    refine hstay s' hs (by simp [State.acquires, hk]) (by simp [State.appends, hk]) ?_
    simp only [step, resume, hk] at hs
    cases hs
    exact .inl ⟨e, rest, by simp⟩
  · simp only [proceed, hk, Option.some.injEq] at h
    subst h
    refine hi.move (t := t) rfl (fun _ _ _ hp => hp) rfl ?_ (fun r hr => .inl hr) rfl hi.deleted
    rintro pc ⟨⟩
    exact Nat.zero_le _

/-- Each event that was retained is dereferenced once. -/
theorem inv_givingBack (hi : MarkerInv m) (hcall : m.calls t = some (.givingBack events i))
    (hg : ∀ e ∈ events[i]?, 2 ≤ m.references e)
    (h : proceed mallocZero m t (.givingBack events i) = some m') : MarkerInv m' := by
  have hle : i ≤ events.length := hi.phase t _ hcall
  cases hx : events[i]? with
  | some e =>
    simp only [proceed, hx, Option.some.injEq] at h
    subst h
    refine hi.move (t := t) rfl (fun _ _ _ hp => hp) rfl ?_ (fun r hr => .inl hr) rfl
      (deletedOk_dereference hi.deleted (hg e hx))
    rintro pc ⟨⟩
    exact (List.getElem?_eq_some_iff.mp hx).1
  | none =>
    simp only [proceed, hx, Option.some.injEq] at h
    subst h
    refine hi.move (t := t) rfl (fun _ _ _ hp => hp) rfl nofun ?_ rfl hi.deleted
    intro r hr
    refine (List.mem_append.mp hr).imp_right ?_
    intro hr
    rw [List.mem_singleton.mp hr]
    exact ⟨rfl, List.take_of_length_le (List.getElem?_eq_none_iff.mp hx)⟩

end Calls

theorem markerInv_step {b : MarkerAction T} (hi : MarkerInv m) (hg : MarkerKept mallocZero m b)
    (h : markerStep mallocZero m b = some m') : MarkerInv m' := by
  cases b with
  | sched a =>
    obtain ⟨⟨hnone, hfree⟩, h⟩ := Option.ite_none_right_eq_some.mp h
    obtain ⟨s', hs, rfl⟩ := Option.map_eq_some_iff.mp h
    have hcall : (m.observe a s').calls a.actor = none := by
      rw [observe_calls]
      exact Option.isNone_iff_eq_none.mp hnone
    rw [← setCall_self hcall]
    refine hi.run none hs ?_ ?_ nofun
    · intro q t hl ha
      simp [hfree q ha] at hl
    · intro t pc q hcall hopen ha
      exact hg q ha t pc hcall hopen
  | retainEvent e =>
    obtain ⟨-, ⟨⟩⟩ := Option.ite_none_right_eq_some.mp h
    exact { hi with deleted := deletedOk_reference hi.deleted e }
  | releaseEvent e =>
    obtain ⟨-, ⟨⟩⟩ := Option.ite_none_right_eq_some.mp h
    exact { hi with deleted := deletedOk_releaseEvent hi.deleted e }
  | enqueueMarker t q =>
    obtain ⟨⟨-, hidle, hmutex, hl⟩, ⟨⟩⟩ := Option.ite_none_right_eq_some.mp h
    refine hi.move (t := t) rfl ?_ rfl ?_ (fun r hr => .inl hr) rfl hi.deleted
    · intro u p _ hp
      have hqp : p ≠ q := by
        rintro rfl
        simp [hl] at hp
      exact (Function.update_of_ne hqp _ _).trans hp
    · rintro pc ⟨⟩
      exact ⟨hidle, Function.update_self .., hmutex, nofun, nofun⟩
  | proceed t =>
    obtain ⟨pc, hcall, h⟩ := Option.bind_eq_some_iff.mp h
    cases pc with
    | snapshot q i events => exact inv_snapshot hi hcall h
    | listed q events =>
      exact inv_listed hi hcall (hg.1 events (by simp [MarkerState.listing, hcall])) h
    | constructing q events => exact inv_constructing hi hcall hg h
    | registering events => exact inv_registering hi hcall h
    | givingBack events i =>
      refine inv_givingBack hi hcall (fun e he => hg.2.2 e ?_) h
      simpa [MarkerState.returning, hcall] using he

theorem markerInv_reachable
    (h : Reachable ((markerSystem T mallocZero).restrict (MarkerKept mallocZero)) m) :
    MarkerInv m := by
  apply h.invariant
  · rintro _ ⟨o, rfl⟩
    exact ⟨.initial ⟨o, rfl⟩, nofun, nofun, nofun, fun e he => absurd he (Nat.not_lt_zero e)⟩
  · rintro m b m' _ hi ⟨ht, hg⟩
    exact markerInv_step hi hg ht

/-- A call that is under way waits for nobody. -/
theorem MarkerInv.enabled (hi : MarkerInv m) (hcall : m.calls t ≠ none) :
    markerStep mallocZero m (.proceed t) ≠ none := by
  obtain ⟨pc, hpc⟩ := Option.ne_none_iff_exists'.mp hcall
  have hp := hi.phase t pc hpc
  simp only [markerStep, hpc, Option.bind_some]
  cases pc with
  | snapshot q i events =>
    cases hx : (m.sched.queues q).events[i]? with
    | none => simp [proceed, hx]
    | some e =>
      simp only [proceed, hx]
      split <;> simp
  | listed q events =>
    have hw := wf_reachable hi.sched
    have hunlocked := (unlockedInv_reachable hi.sched).1 q
    have hknows : m.sched.knows events = true := by
      refine List.all_eq_true.mpr fun e he => ?_
      have hlt := (hw.owned.queued (hp.2.1 he)).1
      simp [hlt, hunlocked e (hp.2.1 he)]
    have hs : step m.sched (.enqueue t .marker q events) ≠ none := by
      simp [step, hp.1, hknows]
    simp only [proceed]
    split
    · simp
    · simpa using hs
  | constructing q events =>
    obtain ⟨⟨rest, hk⟩, -⟩ := hp
    have hs : step m.sched (.resume t false) ≠ none := by
      simp only [step, resume, hk, resumeCheck]
      cases rest with
      | nil => simp
      | cons w ws =>
        dsimp only
        split <;> simp
    simpa [proceed] using hs
  | registering events =>
    rcases hp with ⟨e, rest, hk⟩ | ⟨e, w, rest, hk⟩ | ⟨e, hk⟩
    · have hs : step m.sched (.resume t false) ≠ none := by
        simp only [step, resume, hk, resumeRegister]
        cases rest with
        | nil => simp
        | cons w ws =>
          dsimp only
          split <;> simp
      simpa [proceed, hk] using hs
    · have hs : step m.sched (.resume t false) ≠ none := by simp [step, resume, hk]
      simpa [proceed, hk] using hs
    · simp [proceed, hk]
  | givingBack events i =>
    cases hx : events[i]? with
    | none => simp [proceed, hx]
    | some e => simp [proceed, hx]

/-- Markers without a wait list, under every interleaving with the workers. -/
theorem markers_succeed_and_give_back
    (h : Reachable ((markerSystem T mallocZero).restrict (MarkerKept mallocZero)) m) :
    MarkersOk mallocZero m := by
  have hi := markerInv_reachable h
  refine ⟨hi.returned, ?_, hi.deleted, fun t hcall => hi.enabled hcall⟩
  intro x hx hst e he
  have hok := hi.markers x hx
  obtain ⟨q, hq⟩ := Option.ne_none_iff_exists'.mp hok.parent
  have htaken := completed_taken hi.sched hok.event hq (by rw [hok.type]; rfl) hst
  exact (hok.pending e he).2.elim (taken_ended hi.sched htaken e) id

theorem exists_kept_marker_run [Fintype T] (mallocZero : Bool) (o : QueueId → Bool)
    (bs : List (MarkerAction T)) (c : MarkerState T → Bool)
    (h : (execGuarded (markerStep mallocZero)
      (fun m b => decide (MarkerKept mallocZero m b)) (markerInitial T o) bs).map c = some true) :
    ∃ m, Reachable ((markerSystem T mallocZero).restrict (MarkerKept mallocZero)) m ∧ c m = true :=
  exists_execGuarded (MarkerKept mallocZero) ⟨o, rfl⟩ bs c h

theorem exists_marker_run (mallocZero : Bool) (o : QueueId → Bool) (bs : List (MarkerAction T))
    (c : MarkerState T → Bool)
    (h : (exec (markerStep mallocZero) (markerInitial T o) bs).map c = some true) :
    ∃ m, Reachable (markerSystem T mallocZero) m ∧ c m = true :=
  exists_exec ⟨o, rfl⟩ bs c h

/-- A marker behind a read that the worker `false` completes. -/
def markerBehindRead : List (MarkerAction Bool) :=
  List.flatten [[.sched (.enqueue true .readBuffer 0 [])], (resumes true 14).map .sched,
    [.enqueueMarker true 0], List.replicate 11 (.proceed true), (resumes true 11).map .sched,
    [.sched (.deviceSetStatus false 0 clComplete)], (resumes false 9).map .sched]

theorem marker_behind_read_completes : ∃ m : MarkerState Bool,
    Reachable ((markerSystem Bool true).restrict (MarkerKept true)) m ∧ MarkersOk true m ∧
      m.returns = [⟨clSuccess, [0], [0]⟩] ∧ m.markers = [⟨1, [0]⟩] ∧
      clComplete ∈ (m.sched.events 1).statuses ∧ m.deleted 0 = true := by
  obtain ⟨m, hr, hc⟩ := exists_kept_marker_run true (fun _ => true) markerBehindRead
    (fun m => m.returns = [⟨clSuccess, [0], [0]⟩] ∧ m.markers = [⟨1, [0]⟩] ∧
      clComplete ∈ (m.sched.events 1).statuses ∧ m.deleted 0 = true) (by decide +kernel)
  exact ⟨m, hr, markers_succeed_and_give_back hr, of_decide_eq_true hc⟩

/-- The queue is empty, and the call allocates a list of no bytes. -/
theorem marker_on_empty_queue_refused : ∃ m : MarkerState Bool,
    Reachable (markerSystem Bool true) m ∧ ¬MarkersOk true m := by
  obtain ⟨m, hr, hc⟩ := exists_marker_run true (fun _ => true)
    [.enqueueMarker true 0, .proceed true, .proceed true]
    (fun m => m.returns = [⟨clInvalidEventWaitList, [], []⟩]) (by decide +kernel)
  refine ⟨m, hr, fun hok => ?_⟩
  have hcode := (hok.returned ⟨clInvalidEventWaitList, [], []⟩ (by simp [of_decide_eq_true hc])).1
  exact absurd hcode (by decide)

end Shamrock.Scheduler
