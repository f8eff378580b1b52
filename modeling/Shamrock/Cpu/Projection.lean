import Shamrock.Cpu.Launch

/-!
# The device as seen by one kernel event

Every step of the device is a step of `Launch` for the event it works on and invisible to the
others.
-/
namespace Shamrock.Cpu

open Transition

variable {W : Type} [DecidableEq W] {s t : State W} {w : W} {e : EventId} {c : Bool}
  {ke : CPUKernelEvent W}

/-- The stage of a worker that works on `e`. -/
def onEvent (e : EventId) : Option (EventId × Stage) → Option Stage
  | some (e', stage) => if e' = e then some stage else none
  | none => none

@[simp] theorem onEvent_none (e : EventId) : onEvent e none = none := rfl

@[simp] theorem onEvent_self (e : EventId) (stage : Stage) :
    onEvent e (some (e, stage)) = some stage := by simp [onEvent]

theorem onEvent_of_ne {e' : EventId} (h : e' ≠ e) (stage : Stage) :
    onEvent e (some (e', stage)) = none := by simp [onEvent, h]

theorem onEvent_eq_some {x : Option (EventId × Stage)} {stage : Stage} :
    onEvent e x = some stage ↔ x = some (e, stage) := by
  rcases x with _ | ⟨e', stage'⟩
  · simp
  · by_cases h : e' = e
    · simp [h]
    · simp [onEvent_of_ne h, h]

/-- What `s` tells of the kernel event `e`, whose device data is `ke`. -/
def State.project (s : State W) (e : EventId) (ke : CPUKernelEvent W) : Launch W where
  listed := e ∈ s.events
  ke := ke
  taken := (s.slots e).taken
  executed := (s.slots e).executed
  completions := (s.slots e).completions
  failures := (s.slots e).failures
  workers := fun v => onEvent e (s.workers v)

/-- The device's list and its mutex. -/
structure Wf (s : State W) : Prop where
  nodup : s.events.Nodup
  listed : ∀ e ∈ s.events, e < s.nextEvent
  count : s.numEvents = UInt32.ofNat s.events.length
  fresh : ∀ e, s.nextEvent ≤ e → s.slots e = .push W none
  working : ∀ v e stage, s.workers v = some (e, stage) → e < s.nextEvent
  locked : ∀ v, s.eventsMutex = some v ↔ ∃ e, s.workers v = some (e, .reserve)
  front : ∀ v e, s.workers v = some (e, .reserve) →
    s.events.head? = some e ∧ (s.slots e).data.isSome

omit [DecidableEq W] in
theorem Wf.events_eq (h : Wf s) (he : s.events.head? = some e) :
    s.events = e :: s.events.tail ∧ e ∉ s.events.tail := by
  have heq := (List.cons_head?_tail he).symm
  have hn := h.nodup
  rw [heq] at hn
  exact ⟨heq, (List.nodup_cons.mp hn).1⟩

section Frame

variable {x : Option (EventId × Stage)}

/-- A step that moves a worker away from and to other events is invisible. -/
theorem project_of_other (hs : t.slots e = s.slots e) (hl : e ∈ t.events ↔ e ∈ s.events)
    (hw : t.workers = Function.update s.workers w x) (hx : onEvent e x = none)
    (ho : onEvent e (s.workers w) = none) : t.project e ke = s.project e ke := by
  ext1 <;> simp only [State.project, hs, hl]
  funext v
  by_cases hv : v = w
  · simp [hv, hw, hx, ho]
  · simp [hv, hw]

theorem project_workers (hw : t.workers = Function.update s.workers w x)
    (ke ke' : CPUKernelEvent W) :
    (t.project e ke').workers = Function.update (s.project e ke).workers w (onEvent e x) := by
  funext v
  by_cases hv : v = w
  · simp [State.project, hv, hw]
  · simp [State.project, hv, hw]

end Frame

/-- A step of worker `w` that concerns `e` alone. -/
structure Touches (s t : State W) (w : W) (e : EventId) : Prop where
  slots : ∀ e', e' ≠ e → t.slots e' = s.slots e'
  listed : ∀ e', e' ≠ e → (e' ∈ t.events ↔ e' ∈ s.events)
  workers : ∃ x, t.workers = Function.update s.workers w x ∧ ∀ e', e' ≠ e → onEvent e' x = none
  before : ∀ e', e' ≠ e → onEvent e' (s.workers w) = none
  nextEvent : t.nextEvent = s.nextEvent

theorem Touches.project (h : Touches s t w e) {e' : EventId} (he : e' ≠ e) :
    t.project e' ke = s.project e' ke := by
  obtain ⟨x, hw, hx⟩ := h.workers
  exact project_of_other (h.slots e' he) (h.listed e' he) hw (hx e' he) (h.before e' he)

/-- Worker `w` goes on with its event `e`, outside of `getEvent`. -/
def State.work (s : State W) (w : W) (e : EventId) (ev : DeviceEvent W) (x : Option Stage) :
    State W :=
  (s.setSlot e ev).setWorker w (x.map (e, ·))

@[simp] theorem work_workers (s : State W) (w : W) (e : EventId) (ev : DeviceEvent W)
    (x : Option Stage) :
    (s.work w e ev x).workers = Function.update s.workers w (x.map (e, ·)) := rfl

@[simp] theorem work_slots (s : State W) (w : W) (e : EventId) (ev : DeviceEvent W)
    (x : Option Stage) : (s.work w e ev x).slots = Function.update s.slots e ev := rfl

@[simp] theorem work_events (s : State W) (w : W) (e : EventId) (ev : DeviceEvent W)
    (x : Option Stage) : (s.work w e ev x).events = s.events := rfl

@[simp] theorem work_eventsMutex (s : State W) (w : W) (e : EventId) (ev : DeviceEvent W)
    (x : Option Stage) : (s.work w e ev x).eventsMutex = s.eventsMutex := rfl

@[simp] theorem work_nextEvent (s : State W) (w : W) (e : EventId) (ev : DeviceEvent W)
    (x : Option Stage) : (s.work w e ev x).nextEvent = s.nextEvent := rfl

theorem setWorker_eq_work (s : State W) (w : W) (e : EventId) (x : Option Stage) :
    s.setWorker w (x.map (e, ·)) = s.work w e (s.slots e) x := by
  simp [State.work, State.setSlot]

theorem onEvent_map_of_ne {e' : EventId} (h : e' ≠ e) (x : Option Stage) :
    onEvent e' (x.map (e, ·)) = none := by
  cases x with
  | none => rfl
  | some stage => exact onEvent_of_ne (Ne.symm h) stage

section Work

variable {stage : Stage} {ev : DeviceEvent W} {x : Option Stage}

theorem touches_work (hw : s.workers w = some (e, stage)) : Touches s (s.work w e ev x) w e where
  slots e' he := by simp [he]
  listed _ _ := Iff.rfl
  workers := ⟨x.map (e, ·), rfl, fun _ he => onEvent_map_of_ne he x⟩
  before e' he := by simp [hw, onEvent_of_ne (Ne.symm he)]
  nextEvent := rfl

theorem map_ne_reserve (hx : x ≠ some .reserve) (e' : EventId) :
    x.map (e, ·) ≠ some (e', .reserve) := by
  cases x with
  | none => simp
  | some st =>
    intro h
    exact hx (congrArg some (congrArg Prod.snd (Option.some.inj h)))

theorem wf_work (hs : Wf s) (hw : s.workers w = some (e, stage)) (hr : stage ≠ .reserve)
    (hx : x ≠ some .reserve) (hd : ev.data.isSome = (s.slots e).data.isSome) :
    Wf (s.work w e ev x) where
  nodup := hs.nodup
  listed := hs.listed
  count := hs.count
  fresh e' he := by
    have hlt := hs.working w e stage hw
    have hne : e' ≠ e := by
      rintro rfl
      exact absurd he (Nat.not_le.mpr hlt)
    simpa [hne] using hs.fresh e' he
  working v e' stage' hv := by
    by_cases hvw : v = w
    · subst v
      obtain ⟨st, -, hst⟩ : ∃ st, x = some st ∧ (e, st) = (e', stage') := by simpa using hv
      obtain rfl : e = e' := congrArg Prod.fst hst
      exact hs.working w e stage hw
    · exact hs.working v e' stage' (by simpa [hvw] using hv)
  locked v := by
    have hv := hs.locked v
    by_cases hvw : v = w
    · subst v
      have hm : s.eventsMutex ≠ some w := by simp [hv, hw, hr]
      simp only [work_eventsMutex, work_workers, Function.update_self]
      exact iff_of_false hm fun ⟨e', he'⟩ => map_ne_reserve hx e' he'
    · simpa [hvw] using hv
  front v e' hv := by
    by_cases hvw : v = w
    · subst v
      exact absurd (by simpa using hv) (map_ne_reserve hx e')
    · obtain ⟨h₁, h₂⟩ := hs.front v e' (by simpa [hvw] using hv)
      refine ⟨h₁, ?_⟩
      by_cases he : e' = e
      · subst e'
        simpa [hd] using h₂
      · simpa [he] using h₂

/-- The event's own view of such a step. -/
theorem project_work {ke' : CPUKernelEvent W} :
    (s.work w e ev x).project e ke' = { s.project e ke with
      ke := ke'
      taken := ev.taken
      executed := ev.executed
      completions := ev.completions
      failures := ev.failures }.move w x := by
  have hx : onEvent e (x.map (e, ·)) = x := by
    cases x with
    | none => rfl
    | some st => simp
  ext1
  case workers =>
    rw [project_workers rfl ke ke', hx]
    rfl
  case listed => rfl
  all_goals simp [State.project, Launch.move]

end Work

/-- The event that the next critical section of `w` accesses: its own, or the front of the list
that `getEvent` looks at. -/
def State.accessed (s : State W) (w : W) : Option EventId :=
  match s.workers w with
  | some (e, _) => some e
  | none => s.events.head?

/-- What a critical section of a worker means for the event it works on. -/
structure Seen (s t : State W) (w : W) (c : Bool) (e : EventId) : Prop where
  wf : Wf t
  accessed : s.accessed w = some e
  touches : Touches s t w e
  other : (s.slots e).data = none → (t.slots e).data = none
  kernel : ∀ ke, (s.slots e).data = some ke → ∃ ke', (t.slots e).data = some ke' ∧
    Launch.Step (s.project e ke) w c (t.project e ke')

theorem seen_work {stage : Stage} {ev : DeviceEvent W} {x : Option Stage} (hs : Wf s)
    (hw : s.workers w = some (e, stage)) (hr : stage ≠ .reserve) (hx : x ≠ some .reserve)
    (hd : ev.data.isSome = (s.slots e).data.isSome)
    (hk : ∀ ke ke', (s.slots e).data = some ke → ev.data = some ke' →
      (s.project e ke).workers w = some stage → Launch.Step (s.project e ke) w c
        ({ s.project e ke with
          ke := ke'
          taken := ev.taken
          executed := ev.executed
          completions := ev.completions
          failures := ev.failures }.move w x)) : Seen s (s.work w e ev x) w c e where
  wf := wf_work hs hw hr hx hd
  accessed := by simp [State.accessed, hw]
  touches := touches_work hw
  other hn := by
    rw [hn] at hd
    simpa using hd
  kernel ke hke := by
    rw [hke] at hd
    obtain ⟨ke', hke'⟩ := Option.isSome_iff_exists.mp (hd.trans rfl)
    refine ⟨ke', by simpa using hke', ?_⟩
    rw [project_work]
    exact hk ke ke' hke hke' (by simp [State.project, hw])

theorem seen_setWorker {stage : Stage} {x : Option Stage} (hs : Wf s)
    (hw : s.workers w = some (e, stage)) (hr : stage ≠ .reserve) (hx : x ≠ some .reserve)
    (hk : ∀ ke, (s.slots e).data = some ke → (s.project e ke).workers w = some stage →
      Launch.Step (s.project e ke) w c ((s.project e ke).move w x)) :
    Seen s (s.setWorker w (x.map (e, ·))) w c e := by
  rw [setWorker_eq_work]
  refine seen_work hs hw hr hx rfl ?_
  intro ke ke' hke hke' hst
  obtain rfl : ke = ke' := Option.some.inj (hke.symm.trans hke')
  exact hk ke hke hst

/-- The end of `getEvent`: the worker leaves with `e`, which is popped or stays. -/
def State.leave (s : State W) (w : W) (e : EventId) (ev : DeviceEvent W) (last : Bool) : State W :=
  (((if last then s.popFront else s).setSlot e ev).setMutex none).setWorker w (some (e, .start))

section Leave

variable {ev : DeviceEvent W} {last : Bool}

@[simp] theorem leave_workers : (s.leave w e ev last).workers =
    Function.update s.workers w (some (e, .start)) := by
  cases last <;> rfl

@[simp] theorem leave_slots : (s.leave w e ev last).slots = Function.update s.slots e ev := by
  cases last <;> rfl

@[simp] theorem leave_nextEvent : (s.leave w e ev last).nextEvent = s.nextEvent := by
  cases last <;> rfl

@[simp] theorem leave_eventsMutex : (s.leave w e ev last).eventsMutex = none := by
  cases last <;> rfl

@[simp] theorem leave_events : (s.leave w e ev last).events =
    if last then s.events.tail else s.events := by
  cases last <;> rfl

theorem wf_leave (hs : Wf s) (he : s.events.head? = some e)
    (ha : ∀ v e', s.workers v = some (e', .reserve) → v = w) : Wf (s.leave w e ev last) := by
  obtain ⟨heq, -⟩ := hs.events_eq he
  have hsub : ∀ e', e' ∈ (s.leave w e ev last).events → e' ∈ s.events := by
    intro e' he'
    cases last with
    | false => exact he'
    | true => exact List.mem_of_mem_tail he'
  have hlt : e < s.nextEvent := hs.listed e (List.mem_of_head? he)
  -- nobody is left inside `getEvent`
  have hno : ∀ v e', (s.leave w e ev last).workers v ≠ some (e', .reserve) := by
    intro v e' hv
    by_cases hvw : v = w
    · simp [hvw] at hv
    · exact hvw (ha v e' (by simpa [hvw] using hv))
  exact
    { nodup := by
        cases last with
        | false => exact hs.nodup
        | true => exact hs.nodup.tail
      listed := fun e' he' => by simpa using hs.listed e' (hsub e' he')
      count := by
        cases last with
        | false => exact hs.count
        | true =>
          have hlen : s.events.length = s.events.tail.length + 1 := by
            rw [List.length_tail]
            have := List.length_pos_of_mem (List.mem_of_head? he)
            omega
          change s.numEvents - 1 = UInt32.ofNat s.events.tail.length
          rw [hs.count, hlen, UInt32.ofNat_add]
          exact UInt32.add_sub_cancel _ _
      fresh := by
        intro e' he'
        have hne : e' ≠ e := by
          rintro rfl
          exact absurd (by simpa using he') (Nat.not_le.mpr hlt)
        simpa [hne] using hs.fresh e' (by simpa using he')
      working := by
        intro v e' stage hv
        by_cases hvw : v = w
        · have h : e = e' ∧ Stage.start = stage := by simpa [hvw] using hv
          simpa [← h.1] using hlt
        · simpa using hs.working v e' stage (by simpa [hvw] using hv)
      locked := by
        intro v
        rw [leave_eventsMutex]
        exact iff_of_false (by simp) fun ⟨e', he'⟩ => hno v e' he'
      front := fun v e' hv => absurd hv (hno v e') }

theorem touches_leave (hs : Wf s) (he : s.events.head? = some e)
    (hb : ∀ e', e' ≠ e → onEvent e' (s.workers w) = none) :
    Touches s (s.leave w e ev last) w e where
  slots e' hne := by simp [hne]
  listed e' hne := by
    obtain ⟨heq, -⟩ := hs.events_eq he
    cases last with
    | false => exact Iff.rfl
    | true =>
      rw [leave_events, heq]
      simp [hne]
  workers := ⟨_, leave_workers, fun _ hne => onEvent_of_ne (Ne.symm hne) _⟩
  before := hb
  nextEvent := leave_nextEvent

end Leave

theorem seen_getEvent (hs : Wf s) (hw : s.workers w = none) (h : getEvent s w = some t) :
    ∃ e, Seen s t w c e := by
  unfold getEvent at h
  split at h
  · cases h
  rename_i hfree
  have hm : s.eventsMutex = none := by simp_all
  have hno : ∀ v e', s.workers v ≠ some (e', .reserve) := by
    intro v e' hv
    have := (hs.locked v).mpr ⟨e', hv⟩
    simp [hm] at this
  split at h
  · cases h
  rename_i e he
  have hlt : e < s.nextEvent := hs.listed e (List.mem_of_head? he)
  refine ⟨e, ?_⟩
  split at h
  · rename_i ke hke
    obtain rfl := Option.some.inj h
    refine ⟨?_, by simp [State.accessed, hw, he], ?_,
      fun hn => absurd (hke.symm.trans hn) (by simp), ?_⟩
    · exact
        { hs with
          working := by
            intro v e' stage hv
            by_cases hvw : v = w
            · have h : e = e' ∧ Stage.reserve = stage := by
                simpa [State.setWorker, State.setMutex, hvw] using hv
              exact h.1 ▸ hlt
            · exact hs.working v e' stage (by
                simpa [State.setWorker, State.setMutex, hvw] using hv)
          locked := by
            intro v
            by_cases hvw : v = w
            · simp [State.setWorker, State.setMutex, hvw]
            · simp [State.setWorker, State.setMutex, hvw, hno, Ne.symm hvw]
          front := by
            intro v e' hv
            by_cases hvw : v = w
            · have h : e = e' := by simpa [State.setWorker, State.setMutex, hvw] using hv
              exact h ▸ ⟨he, by simp [State.setWorker, State.setMutex, hke]⟩
            · exact absurd (by simpa [State.setWorker, State.setMutex, hvw] using hv)
                (hno v e') }
    · exact ⟨fun _ _ => rfl, fun _ _ => Iff.rfl,
        ⟨_, rfl, fun _ hne => onEvent_of_ne (Ne.symm hne) _⟩, fun _ _ => by simp [hw], rfl⟩
    · intro ke₁ hke₁
      obtain rfl : ke = ke₁ := Option.some.inj (hke.symm.trans hke₁)
      refine ⟨ke, hke, ?_⟩
      have hproj : ((s.setMutex (some w)).setWorker w (some (e, .reserve))).project e ke =
          (s.project e ke).move w (some .reserve) := by
        ext1
        case workers =>
          rw [project_workers (rfl : _ = Function.update s.workers w _) ke ke, onEvent_self]
          rfl
        all_goals rfl
      rw [hproj]
      refine .getEvent c (by simp [State.project, hw]) ?_ ?_
      · simpa [State.project] using List.mem_of_head? he
      · intro v hv
        exact hno v e (onEvent_eq_some.mp hv)
  · rename_i hke
    obtain rfl := Option.some.inj h
    have heq : s.popFront.setWorker w (some (e, .start)) = s.leave w e (s.slots e) true := by
      simp [State.leave, State.setMutex, State.popFront, State.setSlot, State.setWorker, hm]
    rw [heq]
    exact ⟨wf_leave hs he fun v e' hv => absurd hv (hno v e'), by simp [State.accessed, hw, he],
      touches_leave hs he fun e' _ => by simp [hw],
      fun _ => by simpa using hke, fun ke₁ hke₁ => absurd (hke.symm.trans hke₁) (by simp)⟩

theorem seen_reserve (hs : Wf s) (hw : s.workers w = some (e, .reserve))
    (hd : (s.slots e).data = some ke) (h : reserve s w e ke = some t) : Seen s t w c e := by
  unfold reserve at h
  split at h
  · cases h
  rename_i hm
  obtain ⟨he, -⟩ := hs.front w e hw
  obtain ⟨heq, hnot⟩ := hs.events_eq he
  have ha : ∀ v e', s.workers v = some (e', .reserve) → v = w := by
    intro v e' hv
    have h₁ := (hs.locked v).mpr ⟨e', hv⟩
    have h₂ := (hs.locked w).mpr ⟨e, hw⟩
    exact Option.some.inj (h₁.symm.trans h₂)
  have ht : t = s.leave w e { s.slots e with data := some (ke.reserve w).1 }
      (ke.reserve w).2 := by
    rw [← Option.some.inj h]
    cases (ke.reserve w).2 <;> rfl
  rw [ht]
  refine ⟨wf_leave hs he ha, by simp [State.accessed, hw], touches_leave hs he fun e' hne => ?_,
    fun hn => absurd (hd.symm.trans hn) (by simp), ?_⟩
  · simp [hw, onEvent_of_ne (Ne.symm hne)]
  · intro ke₁ hke₁
    obtain rfl : ke = ke₁ := Option.some.inj (hd.symm.trans hke₁)
    refine ⟨(ke.reserve w).1, by simp, ?_⟩
    have hproj : (s.leave w e { s.slots e with data := some (ke.reserve w).1 }
        (ke.reserve w).2).project e (ke.reserve w).1 =
        { s.project e ke with
          listed := (s.project e ke).listed && !(ke.reserve w).2
          ke := (ke.reserve w).1 }.move w (some .start) := by
      ext1
      case workers =>
        rw [project_workers leave_workers ke, onEvent_self]
        rfl
      case listed =>
        have hin : e ∈ s.events := List.mem_of_head? he
        cases hl : (ke.reserve w).2 <;> simp [State.project, Launch.move, hin, hnot]
      all_goals simp [State.project, Launch.move]
    rw [hproj]
    exact .reserve c (by simp [State.project, hw]) (by simpa [State.project] using hm)

theorem seen_takeInstance (hs : Wf s) (hw : s.workers w = some (e, .execute))
    (hd : (s.slots e).data = some ke) : Seen s (takeInstance s w e ke) w c e := by
  refine seen_work (x := some (.call ke.takeInstance.2)) hs hw (by simp) (by simp) (by simp [hd]) ?_
  intro ke₁ ke' hke hke' hst
  obtain rfl : ke = ke₁ := Option.some.inj (hd.symm.trans hke)
  obtain rfl : ke.takeInstance.1 = ke' := Option.some.inj hke'
  exact .takeInstance c hst

theorem seen_runItem {wg : CPUKernelWorkGroup} {l : List UInt64} (hs : Wf s)
    (hw : s.workers w = some (e, .item wg l)) : Seen s (runItem s w e wg l) w c e := by
  refine seen_work (x := some (if (incVec l wg.maxLocalId).2 then .delete true
    else .item wg (incVec l wg.maxLocalId).1)) hs hw (by simp) ?_ (by simp) ?_
  · split <;> simp
  · intro ke ke' hke hke' hst
    obtain rfl : ke = ke' := Option.some.inj (hke.symm.trans hke')
    exact .item c hst

theorem seen_workGroupFinished {ok : Bool} (hs : Wf s) (hw : s.workers w = some (e, .delete ok))
    (hd : (s.slots e).data = some ke) (hm : ke.mutex = none) :
    Seen s ((s.setData e ke.workGroupFinished).setWorker w (some (e, .cleanup ok))) w c e := by
  refine seen_work (x := some (.cleanup ok)) hs hw (by simp) (by simp) (by simp [hd]) ?_
  intro ke₁ ke' hke hke' hst
  obtain rfl : ke = ke₁ := Option.some.inj (hd.symm.trans hke)
  obtain rfl : ke.workGroupFinished = ke' := Option.some.inj hke'
  exact .delete c hst hm

/-- The worker that finds all groups finished reports, any other is free. -/
theorem seen_finished (hs : Wf s) (hw : s.workers w = some (e, .cleanup true))
    (hd : (s.slots e).data = some ke) (hm : ke.mutex = none) :
    Seen s (if ke.finished then s.setWorker w (some (e, .report true)) else s.setWorker w none)
      w c e := by
  have hm' : ∀ ke₁, (s.slots e).data = some ke₁ → (s.project e ke₁).ke.mutex = none := by
    intro ke₁ hke₁
    obtain rfl : ke = ke₁ := Option.some.inj (hd.symm.trans hke₁)
    exact hm
  split
  · rename_i hf
    refine seen_setWorker (x := some (.report true)) hs hw (by simp) (by simp) ?_
    intro ke₁ hke₁ hst
    refine .finished c hst (hm' ke₁ hke₁) ?_
    obtain rfl : ke = ke₁ := Option.some.inj (hd.symm.trans hke₁)
    exact hf
  · rename_i hf
    refine seen_setWorker (x := none) hs hw (by simp) (by simp) ?_
    intro ke₁ hke₁ hst
    refine .unfinished c hst (hm' ke₁ hke₁) ?_
    obtain rfl : ke = ke₁ := Option.some.inj (hd.symm.trans hke₁)
    simpa [State.project] using hf

theorem seen_report {ok : Bool} (hs : Wf s) (hw : s.workers w = some (e, .report ok)) :
    Seen s (report s w e ok) w c e := by
  refine seen_work (x := none) hs hw (by simp) (by simp) ?_ ?_
  · cases ok <;> rfl
  · intro ke ke' hke hke' hst
    cases ok with
    | true =>
      obtain rfl : ke = ke' := Option.some.inj (hke.symm.trans hke')
      exact .complete c hst
    | false =>
      obtain rfl : ke = ke' := Option.some.inj (hke.symm.trans hke')
      exact .fail c hst

theorem seen_resume (hs : Wf s) (h : resume s w c = some t) : ∃ e, Seen s t w c e := by
  unfold resume at h
  split at h
  · rename_i hw
    exact seen_getEvent hs hw h
  rename_i e stage hw
  split at h
  · rename_i ke hd
    exact ⟨e, seen_reserve hs hw hd h⟩
  · cases h
  · obtain rfl := Option.some.inj h
    exact ⟨e, seen_setWorker (x := some .execute) hs hw (by simp) (by simp)
      fun ke _ hst => .start c hst⟩
  · rename_i ke hd
    obtain rfl := Option.some.inj h
    exact ⟨e, seen_takeInstance hs hw hd⟩
  · rename_i hd
    obtain rfl := Option.some.inj h
    exact ⟨e, seen_setWorker (x := some (.cleanup true)) hs hw (by simp) (by simp)
      fun ke hke _ => absurd (hd.symm.trans hke) (by simp)⟩
  · rename_i wg
    split at h
    · rename_i hc
      obtain rfl := Option.some.inj h
      subst c
      exact ⟨e, seen_setWorker (x := some (.item wg (wg.maxLocalId.map fun _ => 0))) hs hw
        (by simp) (by simp) fun ke _ hst => .call hst⟩
    · rename_i hc
      obtain rfl := Option.some.inj h
      obtain rfl : c = false := by simpa using hc
      exact ⟨e, seen_setWorker (x := some (.delete false)) hs hw (by simp) (by simp)
        fun ke _ hst => .noFunction hst⟩
  · obtain rfl := Option.some.inj h
    exact ⟨e, seen_runItem hs hw⟩
  · rename_i ok ke hd
    obtain ⟨hm, h⟩ := Option.ite_none_left_eq_some.mp h
    obtain rfl := Option.some.inj h
    exact ⟨e, seen_workGroupFinished hs hw hd (by simpa using hm)⟩
  · cases h
  · rename_i ke hd
    obtain ⟨hm, h⟩ := Option.ite_none_left_eq_some.mp h
    rw [← apply_ite] at h
    obtain rfl := Option.some.inj h
    exact ⟨e, seen_finished hs hw hd (by simpa using hm)⟩
  · rename_i ok hok
    obtain rfl := Option.some.inj h
    refine ⟨e, seen_setWorker (x := some (.report ok)) hs hw (by simp) (by simp) ?_⟩
    intro ke hke hst
    cases ok with
    | true => exact absurd rfl (hok ke hke)
    | false => exact .failed c hst
  · obtain rfl := Option.some.inj h
    exact ⟨e, seen_report hs hw⟩

omit [DecidableEq W] in
theorem wf_pushEvent {kernel : Option NDRange} (hs : Wf s) (h : pushEvent s kernel = some t) :
    Wf t := by
  unfold pushEvent at h
  split at h
  · cases h
  rename_i hm
  have hm' : s.eventsMutex = none := by simpa using hm
  have hno : ∀ v e', s.workers v ≠ some (e', .reserve) := by
    intro v e' hv
    have := (hs.locked v).mpr ⟨e', hv⟩
    simp [hm'] at this
  obtain rfl := Option.some.inj h
  refine ⟨?_, ?_, ?_, ?_, ?_, hs.locked, fun v e' hv => absurd hv (hno v e')⟩
  · refine List.nodup_append.mpr ⟨hs.nodup, by simp, ?_⟩
    intro x hx y hy hxy
    obtain rfl := List.mem_singleton.mp hy
    exact absurd hxy (Nat.ne_of_lt (hs.listed x hx))
  · intro e he
    rcases List.mem_append.mp he with he | he
    · exact Nat.lt_succ_of_lt (hs.listed e he)
    · exact List.mem_singleton.mp he ▸ Nat.lt_succ_self _
  · change s.numEvents + 1 = UInt32.ofNat (s.events ++ [s.nextEvent]).length
    rw [hs.count, List.length_append, UInt32.ofNat_add]
    rfl
  · intro e he
    have hne : e ≠ s.nextEvent := Nat.ne_of_gt he
    simpa [hne] using hs.fresh e (Nat.le_of_succ_le he)
  · intro v e stage hv
    exact Nat.lt_succ_of_lt (hs.working v e stage hv)

omit [DecidableEq W] in
theorem wf_initial : Wf (initial W) := by
  refine ⟨by simp [initial], by simp [initial], rfl, fun _ _ => rfl, ?_, ?_, ?_⟩ <;>
    simp [initial]

theorem wf_step {a : Action W} (hs : Wf s) (h : step s a = some t) : Wf t := by
  cases a with
  | pushEvent kernel => exact wf_pushEvent hs h
  | resume w c =>
    obtain ⟨_, hseen⟩ := seen_resume hs h
    exact hseen.wf

theorem wf_reachable (h : Reachable (device W) s) : Wf s :=
  h.invariant (fun _ hi => hi ▸ wf_initial) fun _ _ _ _ hs ht => wf_step hs ht

omit [DecidableEq W] in
/-- A new event looks as `Launch.create`, the others do not change. -/
theorem project_pushEvent {kernel : Option NDRange} (hs : Wf s)
    (h : pushEvent s kernel = some t) (hd : (t.slots e).data = some ke) :
    (e = s.nextEvent ∧ ∃ nd, t.project e ke = .create W nd) ∨
      (s.slots e).data = some ke ∧ t.project e ke = s.project e ke := by
  unfold pushEvent at h
  split at h
  · cases h
  obtain rfl := Option.some.inj h
  by_cases he : e = s.nextEvent
  · refine .inl ⟨he, ?_⟩
    obtain ⟨nd, rfl, rfl⟩ : ∃ nd, kernel = some nd ∧ CPUKernelEvent.create W nd = ke := by
      simpa [he, DeviceEvent.push] using hd
    refine ⟨nd, ?_⟩
    ext1 <;> simp [State.project, Launch.create, he, DeviceEvent.push]
    funext v
    cases hv : onEvent s.nextEvent (s.workers v) with
    | none => rfl
    | some stage =>
      exact absurd (hs.working v _ _ (onEvent_eq_some.mp hv)) (Nat.lt_irrefl _)
  · refine .inr ⟨by simpa [he] using hd, ?_⟩
    ext1 <;> simp [State.project, he]

/-- The runs of one kernel event in which every kernel has a function to call. -/
def succeeding (W : Type) [DecidableEq W] (nd : NDRange) : LTS (Launch W) (W × Bool) :=
  (launch W nd).restrict fun _ a => a.2 = true

/-- Every kernel event of the device goes through a run of `launch`. -/
theorem project_run (h : Reachable ((device W).restrict RunsSucceed) s)
    (hd : (s.slots e).data = some ke) : ∃ nd, Reachable (succeeding W nd) (s.project e ke) := by
  induction h generalizing e ke with
  | initial hi =>
    subst hi
    simp [initial, DeviceEvent.push] at hd
  | @step s t a hr ht ih =>
    have hs := wf_reachable hr.of_restrict
    cases a with
    | pushEvent kernel =>
      obtain ⟨-, nd, hnd⟩ | ⟨hd', hp⟩ := project_pushEvent hs ht.1 hd
      · exact ⟨nd, .initial hnd⟩
      · exact hp ▸ ih hd'
    | resume w c =>
      obtain ⟨e₀, hseen⟩ := seen_resume hs ht.1
      by_cases he : e = e₀
      · subst e₀
        cases hd₀ : (s.slots e).data with
        | none => exact absurd ((hseen.other hd₀).symm.trans hd) (by simp)
        | some ke₀ =>
          obtain ⟨ke', hke', hstep⟩ := hseen.kernel ke₀ hd₀
          obtain rfl : ke' = ke := Option.some.inj (hke'.symm.trans hd)
          obtain ⟨nd, hnd⟩ := ih hd₀
          exact ⟨nd, .step (a := (w, c)) hnd ⟨hstep, ht.2⟩⟩
      · rw [hseen.touches.slots e he] at hd
        rw [hseen.touches.project he]
        exact ih hd

theorem project_reachable (h : Reachable ((device W).restrict RunsSucceed) s)
    (hd : (s.slots e).data = some ke) : Reachable (succeeding W ke.event) (s.project e ke) := by
  obtain ⟨nd, hnd⟩ := project_run h hd
  have hev : ke.event = nd := (Launch.counted_reachable hnd.of_restrict).event
  exact hev ▸ hnd

end Shamrock.Cpu
