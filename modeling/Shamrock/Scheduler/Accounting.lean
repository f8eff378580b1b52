import Shamrock.Scheduler.Traversal

/-! The counter of `p_events`, the release of erased events and the wake-up of `finish`. -/
namespace Shamrock.Scheduler

open Transition

variable {T : Type} [DecidableEq T] {s s' : State T} {a : Action T}

/-- The iterator stays inside the list, and `p_flushed` is cleared only while an event is left. -/
def FlushInv (s : State T) : Prop :=
  ∀ t f k, s.threads t = .push f :: k → f.pc ≠ .acquire →
    f.it ≤ (s.queues f.queue).events.length ∧
      ((s.queues f.queue).flushed = false →
        (s.queues f.queue).events ≠ [] ∧ (f.pc ≠ .leave → 0 < f.it))

omit [DecidableEq T] in
theorem PushFrame.event_lt {f : PushFrame} {Q : Queue T} {e : EventId}
    (h : f.event Q = some e) : f.it < Q.events.length :=
  (List.getElem?_eq_some_iff.mp h).1

omit [DecidableEq T] in
theorem PushFrame.events_ne_nil {f : PushFrame} {Q : Queue T} {e : EventId}
    (h : f.event Q = some e) : Q.events ≠ [] := by
  intro hn
  simp [PushFrame.event, hn] at h

omit [DecidableEq T] in
theorem flushInv_move {Q : Queue T} {ev : EventId → Event} {f f' : PushFrame} {b : Bool}
    (h : PushMove Q ev f f' b)
    (hi : f.it ≤ Q.events.length ∧
      (Q.flushed = false → Q.events ≠ [] ∧ (f.pc ≠ .leave → 0 < f.it))) :
    f'.it ≤ Q.events.length ∧ (b = false → Q.events ≠ [] ∧ (f'.pc ≠ .leave → 0 < f'.it)) := by
  obtain ⟨hle, hfl⟩ := hi
  cases h with
  | listEnd hpc _ | notComplete hpc _ _ => exact ⟨hle, fun hb => ⟨(hfl hb).1, by simp_all⟩⟩
  | threshold _ he _ _ _ | notFirst _ he _ _ _ | readyScheduled _ he _ _
  | waitForEvents _ he _ _ => exact ⟨hle, fun _ => ⟨f.events_ne_nil he, by simp⟩⟩
  | candidate hpc he _ _ | isQueued hpc he _ | pushable hpc he _ _ =>
    exact ⟨hle, fun hb => ⟨f.events_ne_nil he, by simp_all⟩⟩
  | scheduled _ he _ _ | blocked _ he _ _ =>
    exact ⟨f.event_lt he, fun _ => ⟨f.events_ne_nil he, fun _ => Nat.succ_pos _⟩⟩

theorem flushInv_step (h : Step s a s') (hw : Wf s) (hi : FlushInv s) : FlushInv s' := by
  intro t f k hk hpc
  by_cases ht : t = a.actor
  · subst ht
    cases push_top h hw hk with
    | called hc => exact absurd hc hpc
    | entered _ _ _ hf hq _ =>
      subst hf
      rw [hq]
      simp [Queue.setFlushed]
    | moved hk' hm hq _ =>
      rw [pushMove_queue hm, hq]
      exact (flushInv_move hm (hi _ _ _ hk' (pushMove_inside hm).1) :)
    | @erased f₀ e hk' hpc' he hf hq _ =>
      subst hf
      rw [hq]
      obtain ⟨hle, hfl⟩ := hi _ _ _ hk' (by rcases hpc' with hpc' | hpc' <;> simp [hpc'.1])
      have hlt := f₀.event_lt he
      have hlen := List.length_eraseIdx_of_lt hlt
      refine ⟨by simp only [Queue.eraseTerminal, hlen]; omega, fun hb => ?_⟩
      have hpos := (hfl hb).2 (by rcases hpc' with hpc' | hpc' <;> simp [hpc'.1])
      refine ⟨?_, fun _ => hpos⟩
      apply List.ne_nil_of_length_pos
      simp only [Queue.eraseTerminal, hlen]
      omega
    | submitted hk' hpc' _ hf hq _ =>
      subst hf
      rw [hq]
      obtain ⟨hle, hfl⟩ := hi _ _ _ hk' (by simp [hpc'])
      exact ⟨hle, fun hb => ⟨(hfl hb).1, fun _ => (hfl hb).2 (by simp [hpc'])⟩⟩
    | handed hk' hpc' _ hf hq _ =>
      subst hf
      rw [hq]
      obtain ⟨hle, hfl⟩ := hi _ _ _ hk' (by simp [hpc'])
      exact ⟨hle, fun hb => ⟨(hfl hb).1, fun _ => (hfl hb).2 (by simp [hpc'])⟩⟩
  · rw [step_threads_of_ne h ht] at hk
    obtain ⟨l, hl⟩ := step_queue_locked h hw.mutex (hw.mutex.of_push hk hpc) ht
    rw [hl]
    exact hi t f k hk hpc

theorem flushInv_reachable (h : Reachable (scheduler T) s) : FlushInv s := by
  apply h.invariant
  · rintro _ ⟨o, rfl⟩ t f k hk
    simp [initial] at hk
  · intro s a s' hr hi ht
    exact flushInv_step (step_cases ht) (wf_reachable hr) hi

/-- How a step changes the monitor of a queue: its mutex, counter and condition variable. -/
inductive MonitorChange (Q Q' : Queue T) : Prop
  | same : Q'.mutex = Q.mutex → Q'.numEventsInQueue = Q.numEventsInQueue → Q'.cond = Q.cond →
      Q'.entryCond = Q.entryCond → MonitorChange Q Q'
  | append : Q.mutex = none → Q'.mutex = none →
      Q'.numEventsInQueue = Q.numEventsInQueue + 1 → Q'.cond = Q.cond →
      Q'.entryCond = Q.entryCond → MonitorChange Q Q'
  | lock : Q.mutex = none → Q'.mutex ≠ none → Q'.numEventsInQueue = Q.numEventsInQueue →
      Q'.cond = Q.cond → Q'.entryCond = Q.cond → MonitorChange Q Q'
  | erase : Q.mutex ≠ none → Q'.mutex ≠ none → Q'.cond = Q.cond →
      Q'.entryCond = Q.entryCond → MonitorChange Q Q'
  | unlock : Q.mutex ≠ none → Q'.mutex = none → Q.cond ≤ Q'.cond →
      (Q'.numEventsInQueue = 0 → Q.cond < Q'.cond) → Q'.entryCond = Q.entryCond →
      MonitorChange Q Q'

omit [DecidableEq T] in
theorem monitorChange_update {p : QueueId} {Q : Queue T}
    (h : MonitorChange (s.queues p) Q) (q : QueueId) :
    MonitorChange (s.queues q) (Function.update s.queues p Q q) := by
  by_cases hq : q = p
  · subst q
    simpa using h
  · rw [Function.update_of_ne hq]
    exact .same rfl rfl rfl rfl

section

omit [DecidableEq T]

@[simp] theorem countCompletion_numEventsInQueue (Q : Queue T) (b : Bool) :
    (Q.countCompletion b).numEventsInQueue = Q.numEventsInQueue := by
  cases b <;> rfl
@[simp] theorem countCompletion_cond (Q : Queue T) (b : Bool) :
    (Q.countCompletion b).cond = Q.cond := by
  cases b <;> rfl
@[simp] theorem countCompletion_entryCond (Q : Queue T) (b : Bool) :
    (Q.countCompletion b).entryCond = Q.entryCond := by
  cases b <;> rfl

end

omit [DecidableEq T] in
theorem monitorChange_wake {Q Q' : Queue T} (hm : Q.mutex ≠ none) (hc : Q'.cond = Q.cond)
    (he : Q'.entryCond = Q.entryCond) (hf : Q'.numEventsInQueue = 0 → Q'.flushed = true) :
    MonitorChange Q Q'.wakeAndUnlock := by
  unfold Queue.wakeAndUnlock
  split
  · exact .unlock hm rfl (hc ▸ Nat.le_succ _) (fun _ => hc ▸ Nat.lt_succ_self _) he
  · rename_i hn
    exact .unlock hm rfl (Nat.le_of_eq hc.symm) (fun h0 => absurd (hf h0) hn) he

theorem step_monitor (h : Step s a s') (hw : Wf s) (hi : FlushInv s) (q : QueueId) :
    MonitorChange (s.queues q) (s'.queues q) := by
  cases h
  case queueEvent hk hp hn =>
    refine monitorChange_update ?_ q
    exact .append hn hn rfl rfl rfl
  case pushReturn hk hpc hn _ _ _ =>
    refine monitorChange_update ?_ q
    exact .same (by simp) (by simp) (by simp) (by simp)
  case pushEnter hk hpc hn =>
    refine monitorChange_update ?_ q
    apply MonitorChange.lock hn <;> simp [Queue.lock, Queue.setFlushed]
  case pushMove =>
    refine monitorChange_update ?_ q
    exact .same rfl rfl rfl rfl
  case pushErase hk hpc he =>
    have hm := hw.mutex.of_push hk (by rcases hpc with hpc | hpc <;> simp [hpc.1])
    refine monitorChange_update ?_ q
    exact .erase (by simp [hm]) (by simp [hm, Queue.eraseTerminal]) rfl rfl
  case pushTake f e k hk hpc he _ _ =>
    have hm := hw.mutex.of_push hk (by simp [hpc])
    refine monitorChange_update ?_ q
    refine monitorChange_wake (by simp [hm]) rfl rfl ?_
    intro h0
    simpa [Queue.takeInstantaneous] using h0
  case pushHandOver hk hpc _ =>
    refine monitorChange_update ?_ q
    exact .same rfl rfl rfl rfl
  case pushLeave f k hk hpc =>
    have hm := hw.mutex.of_push hk (by simp [hpc])
    have hnum := (hw.owned.ledger f.queue).numEvents
    have hfl : (s.queues f.queue).numEventsInQueue = 0 → (s.queues f.queue).flushed = true := by
      intro h0
      by_contra hn
      have hne := ((hi _ _ _ hk (by simp [hpc])).2 (by simpa using hn)).1
      exact hne (List.length_eq_zero_iff.mp (by exact_mod_cast hnum.symm.trans h0))
    refine monitorChange_update ?_ q
    unfold Queue.leavePush
    split
    · refine monitorChange_wake (by simp [hm]) rfl rfl ?_
      intro h0
      simpa [Queue.setFlushed] using h0
    · exact monitorChange_wake (by simp [hm]) rfl rfl hfl
  case release =>
    refine monitorChange_update ?_ q
    exact .same rfl rfl rfl rfl
  case cleanEnter hk hpc hn =>
    refine monitorChange_update ?_ q
    exact .lock hn (by simp [Queue.lock]) rfl rfl rfl
  case cleanErase hk hpc _ _ =>
    have hm := hw.mutex.of_clean hk (by simp [hpc])
    refine monitorChange_update ?_ q
    exact .erase (by simp [hm]) (by simp [hm, Queue.eraseTerminal]) rfl rfl
  case cleanLeave f k hk hpc =>
    have hm := hw.mutex.of_clean hk (by simp [hpc])
    refine monitorChange_update ?_ q
    unfold Queue.leaveClean
    split
    · exact .unlock (by simp [hm]) rfl (Nat.le_succ _) (fun _ => Nat.lt_succ_self _) rfl
    · rename_i hn
      exact .unlock (by simp [hm]) rfl (Nat.le_refl _) (fun h0 => absurd h0 hn) rfl
  all_goals exact .same rfl rfl rfl rfl

/-- No broadcast is taken back during a critical section. -/
def CondInv (s : State T) : Prop :=
  ∀ q, (s.queues q).mutex ≠ none → (s.queues q).entryCond ≤ (s.queues q).cond

theorem condInv_step (h : Step s a s') (hw : Wf s) (hi : FlushInv s) (hc : CondInv s) :
    CondInv s' := by
  intro q hq
  cases step_monitor h hw hi q with
  | same hm _ hcond he => rw [hcond, he]; exact hc q (hm ▸ hq)
  | append _ hm _ _ _ => exact absurd hm hq
  | lock _ _ _ hcond he => rw [hcond, he]
  | erase hm _ hcond he => rw [hcond, he]; exact hc q hm
  | unlock _ hm _ _ _ => exact absurd hm hq

theorem condInv_reachable (h : Reachable (scheduler T) s) : CondInv s := by
  apply h.invariant
  · rintro _ ⟨o, rfl⟩ q hq
    exact absurd rfl hq
  · intro s a s' hr hc ht
    exact condInv_step (step_cases ht) (wf_reachable hr) (flushInv_reachable hr) hc

/-- A thread asleep in `finish` has been woken since its queue ran empty. -/
def SleepInv (s : State T) : Prop :=
  ∀ t q g k, s.threads t = .asleep q g :: k → g ≤ (s.queues q).cond ∧
    ((s.queues q).mutex = none → (s.queues q).numEventsInQueue = 0 → g < (s.queues q).cond)

/-- A thread falls asleep only while its queue is not empty. -/
theorem asleep_step (h : Step s a s') (hw : Wf s) {q : QueueId} {g : Nat} {k : List Frame}
    (hk : s'.threads a.actor = .asleep q g :: k) :
    s.threads a.actor = .asleep q g :: k ∨
      g = (s'.queues q).cond ∧ (s'.queues q).numEventsInQueue ≠ 0 := by
  have hsh := hw.shape a.actor
  cases h
  case createUserEvent => exact .inl hk
  case setCallback => exact .inl hk
  all_goals
    simp only [actor_resume, actor_setUserEventStatus, actor_enqueue, actor_flush, actor_finish,
      actor_deviceSetStatus, State.setStack_threads, State.pushDependent_threads,
      Function.update_self, List.cons.injEq, Frame.asleep.injEq, reduceCtorEq, false_and] at hk
  case construct =>
    split at hk <;> cases hk.1
  case finishSleep hn =>
    obtain ⟨⟨rfl, rfl⟩, rfl⟩ := hk
    exact .inr ⟨rfl, hn⟩
  all_goals
    -- a return uncovers no sleeping thread
    simp only [actor_resume, *] at hsh
    rcases stackShape_tail hsh (.asleep q g) (by simp) with hs | ⟨_, hs⟩
    · exact hs.elim
    · cases hs

theorem sleepInv_step (h : Step s a s') (hw : Wf s) (hi : FlushInv s) (hs : SleepInv s) :
    SleepInv s' := by
  intro t q g k hk
  have hold : s.threads t = .asleep q g :: k ∨
      g = (s'.queues q).cond ∧ (s'.queues q).numEventsInQueue ≠ 0 := by
    by_cases ht : t = a.actor
    · subst ht
      exact asleep_step h hw hk
    · exact .inl (by rwa [step_threads_of_ne h ht] at hk)
  rcases hold with hold | ⟨rfl, hne⟩
  · obtain ⟨hle, hlt⟩ := hs t q g k hold
    cases step_monitor h hw hi q with
    | same hm hn hc _ =>
      rw [hm, hn, hc]
      exact ⟨hle, hlt⟩
    | append _ _ hn hc _ =>
      have hnum : (s.queues q).numEventsInQueue = (s.queues q).events.length :=
        (hw.owned.ledger q).numEvents
      rw [hc]
      exact ⟨hle, fun _ h0 => by omega⟩
    | lock _ hm _ hc _ => exact ⟨hc ▸ hle, fun hm' => absurd hm' hm⟩
    | erase _ hm hc _ => exact ⟨hc ▸ hle, fun hm' => absurd hm' hm⟩
    | unlock _ _ hc h0 _ =>
      exact ⟨Nat.le_trans hle hc, fun _ hz => Nat.lt_of_le_of_lt hle (h0 hz)⟩
  · exact ⟨Nat.le_refl _, fun _ h0 => absurd h0 hne⟩

theorem sleepInv_reachable (h : Reachable (scheduler T) s) : SleepInv s := by
  apply h.invariant
  · rintro _ ⟨o, rfl⟩ t q g k hk
    simp [initial] at hk
  · intro s a s' hr hs ht
    exact sleepInv_step (step_cases ht) (wf_reachable hr) (flushInv_reachable hr) hs

/-- The pending calls of `clReleaseEvent` for events taken as instantaneous. -/
def releases (k : List Frame) : List EventId :=
  k.filterMap fun
    | .release e => some e
    | _ => none

section Releases

variable {k : List Frame} {e w : EventId} {rest ws : List EventId} {q : QueueId} {g : Nat}
  {type : EventType}

@[simp] theorem releases_nil : releases [] = [] := rfl
@[simp] theorem releases_release : releases (.release e :: k) = e :: releases k := rfl
@[simp] theorem releases_push {f : PushFrame} : releases (.push f :: k) = releases k := rfl
@[simp] theorem releases_setStatus {f : StatusFrame} :
    releases (.setStatus f :: k) = releases k := rfl
@[simp] theorem releases_clean {f : CleanFrame} : releases (.clean f :: k) = releases k := rfl
@[simp] theorem releases_check : releases (.check type q ws rest :: k) = releases k := rfl
@[simp] theorem releases_register : releases (.register e rest :: k) = releases k := rfl
@[simp] theorem releases_appendWait : releases (.appendWait e w rest :: k) = releases k := rfl
@[simp] theorem releases_queueEvent : releases (.queueEvent e :: k) = releases k := rfl
@[simp] theorem releases_finish : releases (.finish q :: k) = releases k := rfl
@[simp] theorem releases_asleep : releases (.asleep q g :: k) = releases k := rfl

theorem count_releases : (releases k).count e = k.count (.release e) := by
  induction k with
  | nil => simp
  | cons f k ih => cases f <;> simp [ih, List.count_cons]

theorem mem_releases : e ∈ releases k ↔ .release e ∈ k := by
  rw [← List.count_pos_iff, count_releases, List.count_pos_iff]

end Releases

/-- How a step by `t` changes what is erased, released and still to be released. -/
inductive ReleaseChange (s s' : State T) (t : T) : Prop
  | same : releases (s'.threads t) = releases (s.threads t) →
      (∀ q, (s'.queues q).erased = (s.queues q).erased) →
      (∀ q, (s'.queues q).released = (s.queues q).released) → ReleaseChange s s' t
  | erase {q : QueueId} {e : EventId} : releases (s'.threads t) = releases (s.threads t) →
      e ∈ (s.queues q).events →
      (∀ p, (s'.queues p).erased = (s.queues p).erased ++ if p = q then [e] else []) →
      (∀ p, (s'.queues p).released = (s.queues p).released ++ if p = q then [e] else []) →
      ReleaseChange s s' t
  | take {q : QueueId} {e : EventId} : releases (s'.threads t) = e :: releases (s.threads t) →
      e ∈ (s.queues q).events →
      (∀ p, (s'.queues p).erased = (s.queues p).erased ++ if p = q then [e] else []) →
      (∀ p, (s'.queues p).released = (s.queues p).released) → ReleaseChange s s' t
  | release {q : QueueId} {e : EventId} : releases (s.threads t) = e :: releases (s'.threads t) →
      (s.events e).parent = some q →
      (∀ p, (s'.queues p).erased = (s.queues p).erased) →
      (∀ p, (s'.queues p).released = (s.queues p).released ++ if p = q then [e] else []) →
      ReleaseChange s s' t

omit [DecidableEq T] in
theorem wakeAndUnlock_released (Q : Queue T) : Q.wakeAndUnlock.released = Q.released := by
  unfold Queue.wakeAndUnlock
  split <;> rfl

theorem step_releases (h : Step s a s') : ReleaseChange s s' a.actor := by
  cases h
  case createUserEvent => exact .same rfl (fun _ => rfl) (fun _ => rfl)
  case setCallback => exact .same rfl (fun _ => rfl) (fun _ => rfl)
  case construct hk =>
    refine .same ?_ (fun _ => rfl) (fun _ => rfl)
    simp only [actor_resume, State.setStack_threads, Function.update_self, hk]
    split <;> simp
  case queueEvent hk _ _ =>
    exact .same (by simp [hk]) (update_field_same (F := Queue.erased) (by rfl))
      (update_field_same (F := Queue.released) (by rfl))
  case pushErase f e k hk _ he =>
    exact .erase (by simp [hk]) (List.mem_of_getElem? he)
      (update_field_append (F := Queue.erased) (by rfl))
      (update_field_append (F := Queue.released) (by rfl))
  case cleanErase f e k hk _ he _ =>
    exact .erase (by simp [hk]) (List.mem_of_getElem? he)
      (update_field_append (F := Queue.erased) (by rfl))
      (update_field_append (F := Queue.released) (by rfl))
  case pushTake f e k hk _ he _ _ =>
    refine .take (by simp [hk]) (List.mem_of_getElem? he)
      (update_field_append (F := Queue.erased) ?_) (update_field_same (F := Queue.released) ?_)
    · rw [wakeAndUnlock_erased]
      rfl
    · rw [wakeAndUnlock_released]
      rfl
  case release hk hp =>
    exact .release (by simp [hk]) hp (update_field_same (F := Queue.erased) (by rfl))
      (update_field_append (F := Queue.released) (by rfl))
  case pushReturn f k hk _ _ _ _ _ =>
    refine .same (by simp [hk]) (update_field_same (F := Queue.erased) ?_)
      (update_field_same (F := Queue.released) ?_)
    all_goals cases f.oneEventCompleted <;> rfl
  case pushEnter f k hk _ _ =>
    refine .same (by simp [hk]) (update_field_same (F := Queue.erased) ?_)
      (update_field_same (F := Queue.released) ?_)
    all_goals cases f.oneEventCompleted <;> rfl
  case pushLeave f k hk _ =>
    refine .same (by simp [hk]) (update_field_same (F := Queue.erased) ?_)
      (update_field_same (F := Queue.released) ?_)
    all_goals
      unfold Queue.leavePush
      first | rw [wakeAndUnlock_erased] | rw [wakeAndUnlock_released]
      split <;> rfl
  case cleanLeave f k hk _ =>
    refine .same (by simp [hk]) (update_field_same (F := Queue.erased) ?_)
      (update_field_same (F := Queue.released) ?_)
    all_goals
      unfold Queue.leaveClean
      split <;> rfl
  case pushMove hk _ =>
    exact .same (by simp [hk]) (update_field_same (F := Queue.erased) (by rfl))
      (update_field_same (F := Queue.released) (by rfl))
  case pushHandOver hk _ _ =>
    exact .same (by simp [hk]) (update_field_same (F := Queue.erased) (by rfl))
      (update_field_same (F := Queue.released) (by rfl))
  case cleanEnter hk _ _ =>
    exact .same (by simp [hk]) (update_field_same (F := Queue.erased) (by rfl))
      (update_field_same (F := Queue.released) (by rfl))
  all_goals
    refine .same ?_ (fun _ => rfl) (fun _ => rfl)
    simp [*]

/-- Every erased event has been released once, or one thread will do so. -/
structure ReleaseInv (s : State T) : Prop where
  released : ∀ q, (s.queues q).released.Nodup
  erased : ∀ q, (s.queues q).released ⊆ (s.queues q).erased
  nodup : ∀ t, (releases (s.threads t)).Nodup
  unique : ∀ {t u e}, e ∈ releases (s.threads t) → e ∈ releases (s.threads u) → t = u
  pending : ∀ {t e}, e ∈ releases (s.threads t) →
    ∃ q, e ∈ (s.queues q).erased ∧ e ∉ (s.queues q).released
  settled : ∀ q, ∀ e ∈ (s.queues q).erased,
    e ∈ (s.queues q).released ∨ ∃ t, e ∈ releases (s.threads t)

omit [DecidableEq T] in
/-- An event still in the list is neither released nor about to be. -/
theorem ReleaseInv.fresh (hi : ReleaseInv s) (hw : Wf s) {q : QueueId} {e : EventId}
    (he : e ∈ (s.queues q).events) :
    (∀ p, e ∉ (s.queues p).erased) ∧ (∀ p, e ∉ (s.queues p).released) ∧
      ∀ t, e ∉ releases (s.threads t) := by
  have her : ∀ p, e ∉ (s.queues p).erased := by
    intro p hp
    have hqp := hw.queued_unique (hw.erased_queued hp) ((hw.owned.ledger q).sublist.subset he)
    subst hqp
    exact (hw.owned.ledger p).not_mem_erased he hp
  refine ⟨her, fun p hp => her p (hi.erased p hp), fun t ht => ?_⟩
  obtain ⟨p, hp, _⟩ := hi.pending ht
  exact her p hp

theorem mem_append_ite {p q : QueueId} {e x : EventId} {l : List EventId} :
    x ∈ l ++ (if p = q then [e] else []) ↔ x ∈ l ∨ p = q ∧ x = e := by
  split <;> simp [*]

theorem nodup_append_ite {p q : QueueId} {e : EventId} {l : List EventId} (hl : l.Nodup)
    (he : e ∉ l) : (l ++ if p = q then [e] else []).Nodup := by
  split
  · rw [List.nodup_append_comm]
    exact List.nodup_cons.mpr ⟨he, hl⟩
  · simpa using hl

section ReleaseStep

variable {t : T} {q : QueueId} {e : EventId} (hi : ReleaseInv s)
  (hne : ∀ {u}, u ≠ t → releases (s'.threads u) = releases (s.threads u))
include hi hne

theorem ReleaseInv.same (hr : releases (s'.threads t) = releases (s.threads t))
    (he : ∀ p, (s'.queues p).erased = (s.queues p).erased)
    (hl : ∀ p, (s'.queues p).released = (s.queues p).released) : ReleaseInv s' := by
  have hall : ∀ u, releases (s'.threads u) = releases (s.threads u) := by
    intro u
    by_cases hu : u = t
    · rw [hu, hr]
    · exact hne hu
  constructor
  · intro q
    rw [hl]
    exact hi.released q
  · intro q
    rw [hl, he]
    exact hi.erased q
  · intro t
    rw [hall]
    exact hi.nodup t
  · intro t u e
    rw [hall, hall]
    exact hi.unique
  · intro t e hm
    rw [hall] at hm
    simpa only [he, hl] using hi.pending hm
  · intro q e hm
    rw [he] at hm
    simpa only [hl, hall] using hi.settled q e hm

theorem ReleaseInv.erase (hw : Wf s) (hr : releases (s'.threads t) = releases (s.threads t))
    (hev : e ∈ (s.queues q).events)
    (he : ∀ p, (s'.queues p).erased = (s.queues p).erased ++ if p = q then [e] else [])
    (hl : ∀ p, (s'.queues p).released = (s.queues p).released ++ if p = q then [e] else []) :
    ReleaseInv s' := by
  have hall : ∀ u, releases (s'.threads u) = releases (s.threads u) := by
    intro u
    by_cases hu : u = t
    · rw [hu, hr]
    · exact hne hu
  obtain ⟨-, hrl, hrs⟩ := hi.fresh hw hev
  constructor
  · intro p
    rw [hl]
    exact nodup_append_ite (hi.released p) (hrl p)
  · intro p x
    rw [hl, he, mem_append_ite, mem_append_ite]
    exact Or.imp_left fun hx => hi.erased p hx
  · intro t
    rw [hall]
    exact hi.nodup t
  · intro t u e
    rw [hall, hall]
    exact hi.unique
  · intro t x hm
    rw [hall] at hm
    obtain ⟨p, hp, hnp⟩ := hi.pending hm
    have hxe : x ≠ e := fun hxe => hrs t (hxe ▸ hm)
    exact ⟨p, by simp [he, hp], by simp [hl, hnp, hxe]⟩
  · intro p x hm
    rw [he, mem_append_ite] at hm
    simp only [hl, hall, mem_append_ite]
    rcases hm with hm | hm
    · exact (hi.settled p x hm).imp_left .inl
    · exact .inl (.inr hm)

theorem ReleaseInv.take (hw : Wf s) (hr : releases (s'.threads t) = e :: releases (s.threads t))
    (hev : e ∈ (s.queues q).events)
    (he : ∀ p, (s'.queues p).erased = (s.queues p).erased ++ if p = q then [e] else [])
    (hl : ∀ p, (s'.queues p).released = (s.queues p).released) : ReleaseInv s' := by
  obtain ⟨-, hrl, hrs⟩ := hi.fresh hw hev
  have hmem : ∀ u x, x ∈ releases (s'.threads u) ↔
      x ∈ releases (s.threads u) ∨ u = t ∧ x = e := by
    intro u x
    by_cases hu : u = t
    · rw [hu, hr]
      simp [or_comm]
    · simp [hne hu, hu]
  constructor
  · intro p
    rw [hl]
    exact hi.released p
  · intro p x hx
    rw [hl] at hx
    rw [he, mem_append_ite]
    exact .inl (hi.erased p hx)
  · intro u
    by_cases hu : u = t
    · rw [hu, hr]
      exact List.nodup_cons.mpr ⟨hrs _, hi.nodup _⟩
    · rw [hne hu]
      exact hi.nodup u
  · intro u v x hu hv
    rw [hmem] at hu hv
    rcases hu with hu | ⟨hu, hx⟩ <;> rcases hv with hv | ⟨hv, hx'⟩
    · exact hi.unique hu hv
    · exact absurd (hx' ▸ hu) (hrs u)
    · exact absurd (hx ▸ hv) (hrs v)
    · rw [hu, hv]
  · intro u x hm
    rw [hmem] at hm
    rcases hm with hm | ⟨-, rfl⟩
    · obtain ⟨p, hp, hnp⟩ := hi.pending hm
      exact ⟨p, by simp [he, hp], by rwa [hl]⟩
    · exact ⟨q, by simp [he], by rw [hl]; exact hrl q⟩
  · intro p x hm
    rw [he, mem_append_ite] at hm
    simp only [hl, hmem]
    rcases hm with hm | ⟨-, rfl⟩
    · exact (hi.settled p x hm).imp_right fun ⟨u, hu⟩ => ⟨u, .inl hu⟩
    · exact .inr ⟨t, .inr ⟨rfl, rfl⟩⟩

theorem ReleaseInv.release (hw : Wf s)
    (hr : releases (s.threads t) = e :: releases (s'.threads t))
    (hp : (s.events e).parent = some q)
    (he : ∀ p, (s'.queues p).erased = (s.queues p).erased)
    (hl : ∀ p, (s'.queues p).released = (s.queues p).released ++ if p = q then [e] else []) :
    ReleaseInv s' := by
  have hmem : ∀ u x, x ∈ releases (s.threads u) ↔
      x ∈ releases (s'.threads u) ∨ u = t ∧ x = e := by
    intro u x
    by_cases hu : u = t
    · rw [hu, hr]
      simp [or_comm]
    · simp [hne hu, hu]
  have hnd : e ∉ releases (s'.threads t) ∧ (releases (s'.threads t)).Nodup := by
    have := hi.nodup t
    rw [hr] at this
    exact List.nodup_cons.mp this
  have hrel : e ∈ releases (s.threads t) := (hmem _ _).mpr (.inr ⟨rfl, rfl⟩)
  -- the queue it was erased from is its parent
  obtain ⟨hpe, hpn⟩ : e ∈ (s.queues q).erased ∧ e ∉ (s.queues q).released := by
    obtain ⟨p, hpe, hpn⟩ := hi.pending hrel
    have hqp : p = q :=
      Option.some.inj ((hw.owned.queued (hw.erased_queued hpe)).2.symm.trans hp)
    exact hqp ▸ ⟨hpe, hpn⟩
  have hpn' : ∀ p, e ∉ (s.queues p).released := by
    intro p hx
    have hqp := hw.queued_unique (hw.erased_queued (hi.erased p hx)) (hw.erased_queued hpe)
    exact hpn (hqp ▸ hx)
  constructor
  · intro p
    rw [hl]
    exact nodup_append_ite (hi.released p) (hpn' p)
  · intro p x hx
    rw [hl, mem_append_ite] at hx
    rw [he]
    rcases hx with hx | ⟨rfl, rfl⟩
    · exact hi.erased p hx
    · exact hpe
  · intro u
    by_cases hu : u = t
    · rw [hu]
      exact hnd.2
    · rw [hne hu]
      exact hi.nodup u
  · intro u v x hu hv
    exact hi.unique ((hmem u x).mpr (.inl hu)) ((hmem v x).mpr (.inl hv))
  · intro u x hm
    have hx := (hmem u x).mpr (.inl hm)
    have hxe : x ≠ e := by
      rintro rfl
      have hu := hi.unique hx hrel
      exact hnd.1 (hu ▸ hm)
    obtain ⟨p, hpx, hnp⟩ := hi.pending hx
    exact ⟨p, by rwa [he], by simp [hl, hnp, hxe]⟩
  · intro p x hm
    rw [he] at hm
    simp only [hl, mem_append_ite]
    rcases hi.settled p x hm with hx | ⟨u, hu⟩
    · exact .inl (.inl hx)
    · rcases (hmem u x).mp hu with hu | ⟨-, rfl⟩
      · exact .inr ⟨u, hu⟩
      · exact .inl (.inr ⟨hw.queued_unique (hw.erased_queued hm) (hw.erased_queued hpe), rfl⟩)

end ReleaseStep

theorem releaseInv_step (h : Step s a s') (hw : Wf s) (hi : ReleaseInv s) : ReleaseInv s' := by
  have hne : ∀ {u}, u ≠ a.actor → releases (s'.threads u) = releases (s.threads u) := by
    intro u hu
    rw [step_threads_of_ne h hu]
  cases step_releases h with
  | same hr he hl => exact hi.same hne hr he hl
  | erase hr hev he hl => exact hi.erase hne hw hr hev he hl
  | take hr hev he hl => exact hi.take hne hw hr hev he hl
  | release hr hp he hl => exact hi.release hne hw hr hp he hl

theorem releaseInv_reachable (h : Reachable (scheduler T) s) : ReleaseInv s := by
  apply h.invariant
  · rintro _ ⟨o, rfl⟩
    constructor <;> simp [initial, Queue.empty]
  · intro s a s' hr hi ht
    exact releaseInv_step (step_cases ht) (wf_reachable hr) hi

/-- The accounting of one queue, in a state and over the step that follows. -/
structure Accounted (s : State T) (q : QueueId) : Prop where
  /-- `p_num_events_in_queue` counts `p_events`. -/
  counted : (s.queues q).numEventsInQueue = (s.queues q).events.length
  /-- Every queued event is in the list or has been erased, and only once. -/
  erasedOnce : (s.queues q).queued.Nodup ∧
    (s.queues q).queued.Perm ((s.queues q).erased ++ (s.queues q).events)
  /-- An erased event is released exactly once, by now or by the one thread that took it. -/
  releasedOnce : ∀ e ∈ (s.queues q).erased,
    (s.queues q).released.count e = 1 ∧ (∀ t, .release e ∉ s.threads t) ∨
      (s.queues q).released.count e = 0 ∧ ∃ t, (s.threads t).count (.release e) = 1 ∧
        ∀ u, .release e ∈ s.threads u → u = t
  /-- Nothing else is released on behalf of the list. -/
  releasedErased : (s.queues q).released ⊆ (s.queues q).erased
  /-- A critical section that empties the list broadcasts before its end. -/
  broadcast : ∀ a s', step s a = some s' → (s.queues q).mutex ≠ none →
    (s'.queues q).mutex = none → 0 < (s.queues q).entryNumEvents →
    (s'.queues q).numEventsInQueue = 0 → (s.queues q).entryCond < (s'.queues q).cond
  /-- The sections that are a single step do not empty the list. -/
  kept : ∀ a s', step s a = some s' → (s.queues q).mutex = none →
    (s'.queues q).mutex = none → 0 < (s.queues q).numEventsInQueue →
    0 < (s'.queues q).numEventsInQueue
  /-- No thread sleeps in `finish` on an empty queue without having been woken. -/
  awake : ∀ t g k, s.threads t = .asleep q g :: k → (s.queues q).mutex = none →
    (s.queues q).events = [] → g < (s.queues q).cond

omit [DecidableEq T] in
theorem ReleaseInv.releasedOnce (hi : ReleaseInv s) (hw : Wf s) {q : QueueId} {e : EventId}
    (he : e ∈ (s.queues q).erased) :
    (s.queues q).released.count e = 1 ∧ (∀ t, .release e ∉ s.threads t) ∨
      (s.queues q).released.count e = 0 ∧ ∃ t, (s.threads t).count (.release e) = 1 ∧
        ∀ u, .release e ∈ s.threads u → u = t := by
  have hpend : ∀ t, .release e ∈ s.threads t → e ∉ (s.queues q).released := by
    intro t ht
    obtain ⟨p, hp, hn⟩ := hi.pending (mem_releases.mpr ht)
    have hpq := hw.queued_unique (hw.erased_queued hp) (hw.erased_queued he)
    exact hpq ▸ hn
  rcases hi.settled q e he with hr | ⟨t, ht⟩
  · left
    exact ⟨List.count_eq_one_of_mem (hi.released q) hr, fun t ht => hpend t ht hr⟩
  · right
    refine ⟨List.count_eq_zero_of_not_mem (hpend t (mem_releases.mp ht)), t, ?_, ?_⟩
    · rw [← count_releases]
      exact List.count_eq_one_of_mem (hi.nodup t) ht
    · intro u hu
      exact hi.unique (mem_releases.mpr hu) ht

/-- The list is counted, every event leaves it once and is released once for that, and a thread
that waits in `finish` is woken when the list runs empty. -/
theorem queue_accounting (h : Reachable (scheduler T) s) (q : QueueId) : Accounted s q := by
  have hw := wf_reachable h
  have hfl := flushInv_reachable h
  have hnum : (s.queues q).numEventsInQueue = (s.queues q).events.length :=
    (hw.owned.ledger q).numEvents
  constructor
  case counted => exact hnum
  case erasedOnce => exact ⟨(hw.owned.ledger q).nodup, (hw.owned.ledger q).perm⟩
  case releasedOnce => exact fun e he => (releaseInv_reachable h).releasedOnce hw he
  case releasedErased => exact (releaseInv_reachable h).erased q
  case broadcast =>
    intro a s' hs hl hu _ h0
    cases step_monitor (step_cases hs) hw hfl q with
    | same hm _ _ _ => exact absurd (hm.symm.trans hu) hl
    | append hm _ _ _ _ => exact absurd hm hl
    | lock hm _ _ _ _ => exact absurd hm hl
    | erase _ hm _ _ => exact absurd hu hm
    | unlock _ _ _ hc _ => exact Nat.lt_of_le_of_lt (condInv_reachable h q hl) (hc h0)
  case kept =>
    intro a s' hs hl hu hpos
    cases step_monitor (step_cases hs) hw hfl q with
    | same _ hn _ _ => exact hn ▸ hpos
    | append _ _ hn _ _ => omega
    | lock _ hm _ _ _ => exact absurd hu hm
    | erase hm _ _ _ => exact absurd hl hm
    | unlock hm _ _ _ _ => exact absurd hl hm
  case awake =>
    intro t g k hk hm he
    refine (sleepInv_reachable h t q g k hk).2 hm ?_
    simp [hnum, he]

/-- A thread in `finish` falls asleep before a read has completed; the push that erases the read
empties the list. -/
theorem queue_accounting_after_read :
    ∃ s : State Bool, Reachable (scheduler Bool) s ∧ (s.queues 0).erased = [0] ∧
      s.threads false = [.asleep 0 1] ∧ Accounted s 0 := by
  obtain ⟨s, hr, hc⟩ := exists_run (fun _ => true)
    (List.flatten [[.enqueue true .readBuffer 0 []], resumes true 14, [.finish false 0],
      resumes false 2, [.deviceSetStatus true 0 0], resumes true 6])
    (fun s => (s.queues 0).erased = [0] ∧ s.threads false = [.asleep 0 1]) (by decide +kernel)
  obtain ⟨he, hk⟩ := of_decide_eq_true hc
  exact ⟨s, hr, he, hk, queue_accounting hr 0⟩

end Shamrock.Scheduler
