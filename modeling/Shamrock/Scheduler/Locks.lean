import Shamrock.Scheduler.Frames

/-! Mutual exclusion on a queue's event list. -/
namespace Shamrock.Scheduler

open Transition

variable {T : Type} [DecidableEq T] {s s' : State T} {a : Action T}

/-- The queue whose mutex is held in a frame. -/
def Frame.holds : Frame → Option QueueId
  | .push f => if f.pc = .acquire then none else some f.queue
  | .clean f => if f.pc = .acquire then none else some f.queue
  | _ => none

def Holds (k : List Frame) (q : QueueId) : Prop := ∃ f ∈ k, f.holds = some q

theorem holds_suspended {f : Frame} (h : f.Suspended) : f.holds = none := by
  cases f <;> first | rfl | exact h.elim

theorem not_holds_suspended {k : List Frame} (h : ∀ f ∈ k, f.Suspended) (q : QueueId) :
    ¬ Holds k q := by
  rintro ⟨f, hf, hq⟩
  rw [holds_suspended (h f hf)] at hq
  cases hq

@[simp] theorem holds_cons {f : Frame} {k : List Frame} {q : QueueId} :
    Holds (f :: k) q ↔ f.holds = some q ∨ Holds k q := by
  simp [Holds]

@[simp] theorem not_holds_nil {q : QueueId} : ¬ Holds [] q := by
  simp [Holds]

omit [DecidableEq T] in
theorem pushMove_inside {Q : Queue T} {ev : EventId → Event} {f f' : PushFrame} {b : Bool}
    (h : PushMove Q ev f f' b) : f.pc ≠ .acquire ∧ f'.pc ≠ .acquire := by
  cases h <;> simp_all

omit [DecidableEq T] in
theorem cleanMove_inside {Q : Queue T} {ev : EventId → Event} {f f' : CleanFrame}
    (h : CleanMove Q ev f f') : f.pc ≠ .acquire ∧ f'.pc ≠ .acquire := by
  cases h <;> simp_all

/-- The recorded holder of a queue's mutex is the thread inside its critical section. -/
def MutexInv (s : State T) : Prop :=
  ∀ q t, (s.queues q).mutex = some t ↔ Holds (s.threads t) q

section MutexUpdate

variable {t : T} {k : List Frame} {p : QueueId} (hm : MutexInv s)
  (ht : s'.threads = Function.update s.threads t k)
include hm ht

theorem MutexInv.keep (hq : ∀ q, (s'.queues q).mutex = (s.queues q).mutex)
    (hk : ∀ q, Holds k q ↔ Holds (s.threads t) q) : MutexInv s' := by
  intro q u
  rw [ht, hq, hm q u]
  by_cases hu : u = t
  · subst u
    rw [Function.update_self, hk]
  · rw [Function.update_of_ne hu]

theorem MutexInv.acquire (hn : (s.queues p).mutex = none) (hp : (s'.queues p).mutex = some t)
    (hq : ∀ q, q ≠ p → (s'.queues q).mutex = (s.queues q).mutex)
    (hk : ∀ q, Holds k q ↔ q = p ∨ Holds (s.threads t) q) : MutexInv s' := by
  intro q u
  rw [ht]
  by_cases hu : u = t
  · subst u
    rw [Function.update_self, hk]
    by_cases hqp : q = p
    · simp [hqp, hp]
    · simp [hqp, hq q hqp, hm q t]
  · rw [Function.update_of_ne hu, ← hm q u]
    by_cases hqp : q = p
    · subst q
      simp [hp, hn, Ne.symm hu]
    · rw [hq q hqp]

theorem MutexInv.release (hp : (s'.queues p).mutex = none)
    (hq : ∀ q, q ≠ p → (s'.queues q).mutex = (s.queues q).mutex)
    (hh : Holds (s.threads t) p) (hk : ∀ q, Holds k q ↔ q ≠ p ∧ Holds (s.threads t) q) :
    MutexInv s' := by
  have hmt : (s.queues p).mutex = some t := (hm p t).mpr hh
  intro q u
  rw [ht]
  by_cases hu : u = t
  · subst u
    rw [Function.update_self, hk]
    by_cases hqp : q = p
    · simp [hqp, hp]
    · simp [hqp, hq q hqp, hm q t]
  · rw [Function.update_of_ne hu, ← hm q u]
    by_cases hqp : q = p
    · subst q
      simp [hp, hmt, Ne.symm hu]
    · rw [hq q hqp]

end MutexUpdate

section

omit [DecidableEq T]

@[simp] theorem countCompletion_mutex (Q : Queue T) (b : Bool) :
    (Q.countCompletion b).mutex = Q.mutex := by
  cases b <;> rfl

@[simp] theorem wakeAndUnlock_mutex (Q : Queue T) : Q.wakeAndUnlock.mutex = none := rfl

@[simp] theorem leavePush_mutex (Q : Queue T) (r : Option EventId) :
    (Q.leavePush r).mutex = none := rfl

@[simp] theorem leaveClean_mutex (Q : Queue T) : Q.leaveClean.mutex = none := rfl

end

theorem mutex_step (h : Step s a s') (hs : ∀ t, StackShape (s.threads t)) (hm : MutexInv s) :
    MutexInv s' := by
  have hsh := hs a.actor
  cases h
  case createUserEvent => exact hm
  case setCallback => exact hm
  case pushEnter f k hk hpc hn =>
    refine hm.acquire (p := f.queue) rfl hn (by simp [Queue.lock, Queue.setFlushed]) ?_ ?_
    · intro q hq
      simp [Function.update_of_ne hq]
    · intro q
      simp [hk, Frame.holds, hpc, eq_comm]
  case cleanEnter f k hk hpc hn =>
    refine hm.acquire (p := f.queue) rfl hn (by simp [Queue.lock]) ?_ ?_
    · intro q hq
      simp [Function.update_of_ne hq]
    · intro q
      simp [hk, Frame.holds, hpc, eq_comm]
  case pushLeave f k hk hpc =>
    have hn := not_holds_suspended (k := k) (by simpa [hk] using hsh)
    refine hm.release (p := f.queue) rfl (by simp) ?_ ?_ ?_
    · intro q hq
      simp [Function.update_of_ne hq]
    · simp [hk, Frame.holds, hpc]
    · intro q
      simp [hk, Frame.holds, hpc, hn, eq_comm]
  case pushTake f e k hk hpc he hw hi =>
    have hn := not_holds_suspended (k := k) (by simpa [hk] using hsh)
    refine hm.release (p := f.queue) rfl (by simp) ?_ ?_ ?_
    · intro q hq
      simp [Function.update_of_ne hq]
    · simp [hk, Frame.holds, hpc]
    · intro q
      simp [hk, Frame.holds, hpc, hn, eq_comm]
  case cleanLeave f k hk hpc =>
    have hn : ∀ q, ¬ Holds k q := by
      have : k = [.finish f.queue] := by simpa [hk] using hsh
      simp [this, Frame.holds]
    refine hm.release (p := f.queue) rfl (by simp) ?_ ?_ ?_
    · intro q hq
      simp [Function.update_of_ne hq]
    · simp [hk, Frame.holds, hpc]
    · intro q
      simp [hk, Frame.holds, hpc, hn, eq_comm]
  case pushMove hk hmv =>
    have := pushMove_inside hmv
    refine hm.keep rfl (update_field_same (F := Queue.mutex) (by rfl)) ?_
    intro q
    simp [hk, Frame.holds, this, pushMove_queue hmv]
  case cleanMove hk hmv =>
    have := cleanMove_inside hmv
    refine hm.keep rfl (fun _ => rfl) ?_
    intro q
    simp [hk, Frame.holds, this, cleanMove_queue hmv]
  case construct hk =>
    refine hm.keep rfl (fun _ => rfl) ?_
    intro q
    rw [hk]
    split <;> simp [Frame.holds]
  case pushErase f e k hk hpc he =>
    refine hm.keep rfl (update_field_same (F := Queue.mutex) (by rfl)) ?_
    intro q
    rcases hpc with ⟨hpc, _⟩ | ⟨hpc, _⟩ <;> simp [hk, Frame.holds, hpc]
  case queueEvent hk hq hn =>
    exact hm.keep rfl (update_field_same (F := Queue.mutex) (by rfl))
      (by simp [hk, Frame.holds, PushFrame.call])
  case pushReturn hk hpc hn ho hr hc =>
    exact hm.keep rfl (update_field_same (F := Queue.mutex) (by simp))
      (by simp [hk, Frame.holds, hpc])
  case pushHandOver hk hpc he =>
    exact hm.keep rfl (update_field_same (F := Queue.mutex) (by rfl))
      (by simp [hk, Frame.holds, hpc])
  case release hk hq =>
    exact hm.keep rfl (update_field_same (F := Queue.mutex) (by rfl))
      (by simp [hk, Frame.holds])
  case cleanErase hk hpc he hst =>
    exact hm.keep rfl (update_field_same (F := Queue.mutex) (by rfl))
      (by simp [hk, Frame.holds, hpc])
  all_goals
    refine hm.keep rfl (fun _ => rfl) ?_
    simp_all [Frame.holds, PushFrame.call]

theorem step_outOfOrder (h : Step s a s') (q : QueueId) :
    (s'.queues q).outOfOrder = (s.queues q).outOfOrder := by
  cases h
  case pushReturn f k _ _ _ _ _ _ =>
    refine update_field_same (F := Queue.outOfOrder) ?_ q
    cases f.oneEventCompleted <;> rfl
  case pushEnter f k _ _ _ =>
    refine update_field_same (F := Queue.outOfOrder) ?_ q
    cases f.oneEventCompleted <;> rfl
  case pushTake =>
    refine update_field_same (F := Queue.outOfOrder) ?_ q
    unfold Queue.wakeAndUnlock
    split <;> rfl
  case pushLeave =>
    refine update_field_same (F := Queue.outOfOrder) ?_ q
    unfold Queue.leavePush Queue.wakeAndUnlock
    split <;> split <;> rfl
  case cleanLeave =>
    refine update_field_same (F := Queue.outOfOrder) ?_ q
    unfold Queue.leaveClean
    split <;> rfl
  all_goals first | rfl | exact update_field_same (F := Queue.outOfOrder) (by rfl) q

omit [DecidableEq T] in
theorem MutexInv.of_push (hm : MutexInv s) {t : T} {f : PushFrame} {k : List Frame}
    (hk : s.threads t = .push f :: k) (hpc : f.pc ≠ .acquire) :
    (s.queues f.queue).mutex = some t := by
  rw [hm, hk]
  simp [Frame.holds, hpc]

omit [DecidableEq T] in
theorem MutexInv.of_clean (hm : MutexInv s) {t : T} {f : CleanFrame} {k : List Frame}
    (hk : s.threads t = .clean f :: k) (hpc : f.pc ≠ .acquire) :
    (s.queues f.queue).mutex = some t := by
  rw [hm, hk]
  simp [Frame.holds, hpc]

/-- While a thread holds a queue's mutex, no other thread touches what the mutex protects. -/
theorem step_queue_locked (h : Step s a s') (hm : MutexInv s) {q : QueueId} {t : T}
    (hq : (s.queues q).mutex = some t) (ht : t ≠ a.actor) :
    ∃ l, s'.queues q = { s.queues q with released := l } := by
  have hother : ∀ p Q, (s.queues p).mutex ≠ some t →
      ∃ l, Function.update s.queues p Q q = { s.queues q with released := l } := by
    intro p Q hp
    have hne : q ≠ p := by
      rintro rfl
      exact hp hq
    exact ⟨(s.queues q).released, by rw [Function.update_of_ne hne]⟩
  have hfree : ∀ p, (s.queues p).mutex = none → (s.queues p).mutex ≠ some t := by
    intro p hp
    simp [hp]
  have hheld : ∀ p, (s.queues p).mutex = some a.actor → (s.queues p).mutex ≠ some t := by
    intro p hp
    simp [hp, Ne.symm ht]
  cases h
  case queueEvent hk he hn => exact hother _ _ (hfree _ hn)
  case pushReturn hk hpc hn _ _ _ => exact hother _ _ (hfree _ hn)
  case pushEnter hk hpc hn => exact hother _ _ (hfree _ hn)
  case pushMove hk hmv =>
    exact hother _ _ (hheld _ (hm.of_push hk (pushMove_inside hmv).1))
  case pushErase hk hpc he =>
    refine hother _ _ (hheld _ (hm.of_push hk ?_))
    rcases hpc with ⟨hpc, _⟩ | ⟨hpc, _⟩ <;> simp [hpc]
  case pushTake hk hpc _ _ _ => exact hother _ _ (hheld _ (hm.of_push hk (by simp [hpc])))
  case pushHandOver hk hpc _ => exact hother _ _ (hheld _ (hm.of_push hk (by simp [hpc])))
  case pushLeave hk hpc => exact hother _ _ (hheld _ (hm.of_push hk (by simp [hpc])))
  case cleanEnter hk hpc hn => exact hother _ _ (hfree _ hn)
  case cleanErase hk hpc _ _ => exact hother _ _ (hheld _ (hm.of_clean hk (by simp [hpc])))
  case cleanLeave hk hpc => exact hother _ _ (hheld _ (hm.of_clean hk (by simp [hpc])))
  case release e p k hk hp =>
    by_cases hqp : q = p
    · subst q
      exact ⟨(s.queues p).released ++ [e], by simp [Queue.release]⟩
    · exact ⟨(s.queues q).released, by simp [Function.update_of_ne hqp]⟩
  all_goals exact ⟨_, rfl⟩

end Shamrock.Scheduler
