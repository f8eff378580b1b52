import Shamrock.Scheduler.Traversal

/-! Barriers and `WaitForEvents` events as synchronisation points of a queue. -/
namespace Shamrock.Scheduler

open Transition ListOrder

variable {T : Type} [DecidableEq T] {s s' : State T} {a : Action T} {q : QueueId}

def EventType.IsPoint (type : EventType) : Prop := type = .barrier ∨ type = .waitForEvents

instance (type : EventType) : Decidable type.IsPoint :=
  inferInstanceAs (Decidable (type = .barrier ∨ type = .waitForEvents))

/-- The traversal of `q` does not step over a synchronisation point: no barrier is found with
something left to wait for, and none of the two kinds is found to have left the queued state
after it was tested for that. -/
def PointsHeld (q : QueueId) (s : State T) : Action T → Prop
  | .resume t _ => ∀ f ∈ s.pushing t, f.queue = q → ∀ e ∈ f.event (s.queues q),
      (f.pc = .examineWait → (s.events e).type = .barrier → (s.events e).waitEvents = []) ∧
      (f.pc = .examineQueued → (s.events e).type.IsPoint →
        (s.events e).status = clQueued ∨ f.readyEvent = some e)
  | _ => True

instance (q : QueueId) (s : State T) (a : Action T) : Decidable (PointsHeld q s a) :=
  match a with
  | .resume t _ => inferInstanceAs (Decidable (∀ f ∈ s.pushing t, f.queue = q →
      ∀ e ∈ f.event (s.queues q),
      (f.pc = .examineWait → (s.events e).type = .barrier → (s.events e).waitEvents = []) ∧
      (f.pc = .examineQueued → (s.events e).type.IsPoint →
        (s.events e).status = clQueued ∨ f.readyEvent = some e)))
  | .createUserEvent _ | .setUserEventStatus .. | .setCallback .. | .enqueue .. | .flush ..
  | .finish .. | .deviceSetStatus .. => inferInstanceAs (Decidable True)

/-- No synchronisation point lies behind the iterator. -/
def PointsInv (q : QueueId) (s : State T) : Prop :=
  ∀ t f k, s.threads t = .push f :: k → f.queue = q → f.pc ≠ .acquire →
    ∀ j < f.it, ∀ b, (s.queues q).events[j]? = some b → ¬ (s.events b).type.IsPoint

theorem pointsInv_step (h : Step s a s') (hg : PointsHeld q s a) (hw : Wf s)
    (hi : PointsInv q s) : PointsInv q s' := by
  intro t f k hk hq hpc j hj b hb
  subst hq
  by_cases ht : t = a.actor
  · subst ht
    cases push_top h hw hk with
    | called hc => exact absurd hc hpc
    | entered _ _ _ hf => simp [hf] at hj
    | @moved f₀ b₀ hk' hm hq hev =>
      rw [pushMove_queue hm, hq] at hb
      rw [hev]
      have hold := hi _ _ _ hk' (pushMove_queue hm).symm (pushMove_inside hm).1
      rw [pushMove_queue hm] at hold
      obtain ⟨g, ha⟩ := resume_of_top h hk'
      rw [ha] at hg
      have hheld := hg _ (pushing_eq hk') (pushMove_queue hm).symm
      rw [pushMove_queue hm] at hheld
      cases hm with
      | @scheduled e hpc' he hst hne =>
        rcases Nat.lt_succ_iff_lt_or_eq.mp hj with hj | rfl
        · exact hold j hj b hb
        · obtain rfl : e = b := Option.some.inj (he.symm.trans hb)
          exact fun hp => ((hheld e he).2 hpc' hp).elim hst hne
      | @blocked e hpc' he hn hne =>
        rcases Nat.lt_succ_iff_lt_or_eq.mp hj with hj | rfl
        · exact hold j hj b hb
        · obtain rfl : e = b := Option.some.inj (he.symm.trans hb)
          exact fun hp => hp.elim (fun hp => hn ((hheld e he).1 hpc' hp)) hne
      | _ => exact hold j hj b hb
    | @erased f₀ e hk' hpc' _ hf hq hev =>
      subst hf
      rw [hq] at hb
      rw [hev]
      refine hi _ _ _ hk' rfl (by rcases hpc' with hpc' | hpc' <;> simp [hpc'.1]) j hj b ?_
      rwa [Queue.eraseTerminal, List.getElem?_eraseIdx_of_lt hj] at hb
    | @submitted f₀ e hk' hpc' he hf hq hev =>
      subst hf
      rw [hq] at hb
      have hlt := (hw.owned.queued ((hw.owned.ledger _).mem_queued hb)).1
      rw [(step_identity h hlt).type]
      exact hi _ _ _ hk' rfl (by simp [hpc']) j hj b hb
    | handed hk' hpc' _ hf hq hev =>
      subst hf
      rw [hq] at hb
      rw [hev]
      exact hi _ _ _ hk' rfl (by simp [hpc']) j hj b hb
  · rw [step_threads_of_ne h ht] at hk
    obtain ⟨l, hl⟩ := step_queue_locked h hw.mutex (hw.mutex.of_push hk hpc) ht
    rw [hl] at hb
    have hlt := (hw.owned.queued ((hw.owned.ledger _).mem_queued hb)).1
    rw [(step_identity h hlt).type]
    exact hi t f k hk rfl hpc j hj b hb

theorem pointsInv_reachable (h : Reachable ((scheduler T).restrict (PointsHeld q)) s) :
    PointsInv q s := by
  apply h.invariant
  · rintro _ ⟨o, rfl⟩ t f k hk
    simp [initial] at hk
  · intro s a s' hr hi ht
    exact pointsInv_step (step_cases ht.1) ht.2 (wf_reachable hr.of_restrict) hi

/-- Nothing starts past a synchronisation point that is still in the list, and a barrier is
taken only from the head of the list with nothing left to wait for. -/
theorem synchronisation_points_hold (h : Reachable ((scheduler T).restrict (PointsHeld q)) s)
    (hs : step s a = some s') {e : EventId}
    (he : (s'.queues q).handed = (s.queues q).handed ++ [e] ∨
      (s'.queues q).taken = (s.queues q).taken ++ [e]) :
    (∀ b ∈ (s.queues q).events, (s.events b).type.IsPoint → ¬ [b, e].Sublist (s.queues q).queued) ∧
      ((s'.queues q).taken = (s.queues q).taken ++ [e] → (s.events e).type = .barrier →
        (∀ x, [x, e].Sublist (s.queues q).queued → x ∉ (s.queues q).events) ∧
          (s.events e).waitEvents = []) := by
  have hw := wf_reachable h.of_restrict
  obtain ⟨f, k, hk, rfl, hev, hpc⟩ := started_step (step_cases hs) hw.mutex he
  have hl := hw.owned.ledger f.queue
  have hin : f.pc.Acting := by
    rcases hpc with ⟨hpc, -⟩ | ⟨hpc, -⟩ <;> simp [hpc, PushPC.Acting]
  constructor
  · intro b hb hp hbefore
    obtain ⟨j, hj, hjb⟩ := index_of_before hl.sublist hl.nodup hbefore hb hev
    exact pointsInv_reachable h _ f k hk rfl hin.inside j hj b hjb hp
  · intro htaken hbar
    have hit := (firstInv_reachable h.of_restrict).barrier hk hin hev hbar
    constructor
    · intro x hbefore hx
      obtain ⟨j, hj, -⟩ := index_of_before hl.sublist hl.nodup hbefore hx hev
      omega
    · rcases hpc with ⟨-, hsame⟩ | ⟨-, hn, -⟩
      · simp [htaken] at hsame
      · exact hn

/-- A barrier behind a read is taken when the read has been completed and removed. -/
theorem barrier_taken_from_head :
    ∃ s s' : State Bool, Reachable ((scheduler Bool).restrict (PointsHeld 0)) s ∧
      (s'.queues 0).taken = (s.queues 0).taken ++ [1] ∧ (s.events 1).type = .barrier ∧
      [0, 1].Sublist (s.queues 0).queued ∧ 0 ∉ (s.queues 0).events := by
  obtain ⟨s, hr, hc⟩ := exists_guarded_run (PointsHeld 0) (fun _ => true)
    (List.flatten [[.enqueue true .readBuffer 0 []], resumes true 14,
      [.enqueue true .barrier 0 []], resumes true 9, [.enqueue true .writeBuffer 0 []],
      resumes true 9, [.deviceSetStatus true 0 0], resumes true 7])
    (fun s => (step s (.resume true false)).any fun s' =>
      (s'.queues 0).taken = (s.queues 0).taken ++ [1] ∧ (s.events 1).type = .barrier ∧
        [0, 1].Sublist (s.queues 0).queued) (by decide +kernel)
  obtain ⟨s', hs, hc⟩ := (Option.any_eq_true _ _).mp hc
  obtain ⟨ht, hb, hq⟩ := of_decide_eq_true hc
  refine ⟨s, s', hr, ht, hb, hq, ?_⟩
  exact ((synchronisation_points_hold hr hs (.inr ht)).2 ht hb).1 0 hq

/-- A barrier at the head of the list that waits for a user event is stepped over: the read
behind it is handed to the device. -/
theorem read_handed_past_waiting_barrier :
    ∃ s s' : State Bool, Reachable (scheduler Bool) s ∧ (s.queues 0).outOfOrder = true ∧
      step s (.resume true false) = some s' ∧
      (s'.queues 0).handed = (s.queues 0).handed ++ [2] ∧ 1 ∈ (s.queues 0).events ∧
      (s.events 1).type = .barrier ∧ [1, 2].Sublist (s.queues 0).queued := by
  obtain ⟨s, hr, hc⟩ := exists_run (fun _ => true)
    (List.flatten [[.createUserEvent true, .enqueue true .barrier 0 [0]], resumes true 13,
      [.enqueue true .readBuffer 0 []], resumes true 12])
    (fun s => (s.queues 0).outOfOrder && (step s (.resume true false)).any fun s' =>
      (s'.queues 0).handed = (s.queues 0).handed ++ [2] ∧ 1 ∈ (s.queues 0).events ∧
        (s.events 1).type = .barrier ∧ [1, 2].Sublist (s.queues 0).queued) (by decide +kernel)
  obtain ⟨ho, hc⟩ := Bool.and_eq_true_iff.mp hc
  obtain ⟨s', hs, hc⟩ := (Option.any_eq_true _ _).mp hc
  exact ⟨s, s', hr, ho, hs, of_decide_eq_true hc⟩

end Shamrock.Scheduler
