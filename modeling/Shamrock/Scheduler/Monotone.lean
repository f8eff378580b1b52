import Shamrock.Scheduler.Failure

/-! The status of an event only decreases and a terminal one is kept, as long as the calls of
`setStatus` on it do not compete. -/
namespace Shamrock.Scheduler

open Transition

variable {T : Type} [DecidableEq T] {s s' : State T} {a : Action T} {q : QueueId} {d x : EventId}

/-- The event that the traversal of thread `t` has found queued and has yet to submit. -/
def State.chosen (s : State T) (t : T) : Option EventId :=
  match s.threads t with
  | .push f :: _ =>
    if f.pc = .examineWait ∨ f.pc = .submit then f.event (s.queues f.queue) else none
  | _ => none

/-- The dependent that thread `t` is about to terminate, with the abort code. -/
def State.ending (s : State T) (t : T) : Option (EventId × Int) :=
  match s.threads t with
  | .setStatus f :: _ =>
    match f.pc with
    | .terminate _ _ d _ => some (d, f.status)
    | _ => none
  | _ => none

/-- Calls of `setStatus` that do not compete. The application sets a user event once. A worker
calls only for an event that is not terminal, and next to other workers only if all report
`CL_RUNNING`. A dependent of a failed event is terminated while it is queued and neither a
traversal nor a call of `setStatus` has got hold of it, or again with the same code. -/
def Undisputed (s : State T) : Action T → Prop
  | .setUserEventStatus _ e _ => ∀ u, ∀ f ∈ s.reporting u, f.event ≠ e
  | .deviceSetStatus _ e st => 0 < (s.events e).status ∧
      ∀ u, ∀ f ∈ s.reporting u, f.event = e → f.status = clRunning ∧ st = clRunning
  | .resume t _ => ∀ p ∈ s.ending t, (s.events p.1).status = p.2 ∨
      (s.events p.1).status = clQueued ∧ (∀ u, s.chosen u ≠ some p.1) ∧
        ∀ u, ∀ f ∈ s.reporting u, f.event ≠ p.1
  | _ => True

instance [Fintype T] (s : State T) (a : Action T) : Decidable (Undisputed s a) :=
  match a with
  | .setUserEventStatus _ e _ =>
    inferInstanceAs (Decidable (∀ u, ∀ f ∈ s.reporting u, f.event ≠ e))
  | .deviceSetStatus _ e st => inferInstanceAs (Decidable (0 < (s.events e).status ∧
      ∀ u, ∀ f ∈ s.reporting u, f.event = e → f.status = clRunning ∧ st = clRunning))
  | .resume t _ => inferInstanceAs (Decidable (∀ p ∈ s.ending t, (s.events p.1).status = p.2 ∨
      (s.events p.1).status = clQueued ∧ (∀ u, s.chosen u ≠ some p.1) ∧
        ∀ u, ∀ f ∈ s.reporting u, f.event ≠ p.1))
  | .createUserEvent _ | .setCallback .. | .enqueue .. | .flush .. | .finish .. =>
    inferInstanceAs (Decidable True)

omit [DecidableEq T] in
theorem chosen_iff {t : T} : s.chosen t = some d ↔
    ∃ f k, s.threads t = .push f :: k ∧ (f.pc = .examineWait ∨ f.pc = .submit) ∧
      f.event (s.queues f.queue) = some d := by
  unfold State.chosen
  constructor
  · intro h
    split at h
    · split at h
      · exact ⟨_, _, by assumption, by assumption, h⟩
      · cases h
    · cases h
  · rintro ⟨f, k, hk, hpc, he⟩
    simp [hk, hpc, he]

omit [DecidableEq T] in
theorem ending_eq {t : T} {f : StatusFrame} {k : List Frame} {i num : Nat} {q : QueueId}
    (hk : s.threads t = .setStatus f :: k) (hpc : f.pc = .terminate i num d q) :
    s.ending t = some (d, f.status) := by
  simp [State.ending, hk, hpc]

omit [DecidableEq T] in
theorem reporting_iff {t : T} {f : StatusFrame} : s.reporting t = some f ↔
    ∃ k, s.threads t = .setStatus f :: k ∧ f.pc = .helper := by
  unfold State.reporting
  constructor
  · intro h
    split at h
    · split at h
      · cases h
        exact ⟨_, by assumption, by assumption⟩
      · cases h
    · cases h
  · rintro ⟨k, hk, hpc⟩
    simp [hk, hpc]

theorem reporting_of_ne (h : Step s a s') {u : T} (hu : u ≠ a.actor) :
    s'.reporting u = s.reporting u := by
  unfold State.reporting
  rw [step_threads_of_ne h hu]

/-- How a thread comes to write a status. -/
inductive ReportOrigin (s : State T) (a : Action T) (f : StatusFrame) : Prop
  | user {t : T} : a = .setUserEventStatus t f.event f.status →
      (s.events f.event).status = clSubmitted → ReportOrigin s a f
  | device {t : T} : a = .deviceSetStatus t f.event f.status → ReportOrigin s a f
  | taken {g : PushFrame} {k : List Frame} : s.threads a.actor = .push g :: k →
      g.pc = .examineWait → g.event (s.queues g.queue) = some f.event → ReportOrigin s a f

theorem reporting_origin (h : Step s a s') (hw : Wf s) {f : StatusFrame}
    (hf : s'.reporting a.actor = some f) : ReportOrigin s a f := by
  obtain ⟨k, hk, hpc⟩ := reporting_iff.mp hf
  have hsh := hw.shape a.actor
  cases h
  case createUserEvent hidle => cases hidle.symm.trans hk
  case setCallback hidle _ => cases hidle.symm.trans hk
  all_goals
    simp only [actor_resume, actor_setUserEventStatus, actor_enqueue, actor_flush, actor_finish,
      actor_deviceSetStatus, State.setStack_threads, State.pushDependent_threads,
      Function.update_self, List.cons.injEq, Frame.setStatus.injEq, reduceCtorEq,
      false_and] at hk
  case setUserEventStatus hst =>
    obtain ⟨rfl, -⟩ := hk
    exact .user rfl hst
  case deviceSetStatus =>
    obtain ⟨rfl, -⟩ := hk
    exact .device rfl
  case pushTake g e k' hk' hpc' he _ _ =>
    obtain ⟨rfl, -⟩ := hk
    exact .taken hk' hpc' he
  case construct => split at hk <;> cases hk.1
  all_goals first
    | -- the new top frame is at another point
      obtain ⟨rfl, rfl⟩ := hk
      cases hpc
    | -- a return uncovers only a suspended call
      simp only [actor_resume, *] at hsh
      rcases stackShape_tail hsh (.setStatus f) (by simp) with hs | ⟨_, hs⟩
      · obtain ⟨_, _, hs⟩ := hs
        rw [hpc] at hs
        cases hs
      · cases hs

/-- `newer` may follow `older`: the status does not increase and a terminal one is kept. -/
def Follows (newer older : Int) : Prop := newer ≤ older ∧ (older ≤ 0 → newer = older)

theorem Follows.trans {st st' st'' : Int} (h : Follows st st') (h' : Follows st' st'') :
    Follows st st'' := by
  refine ⟨Int.le_trans h.1 h'.1, fun hle => ?_⟩
  have heq := h'.2 hle
  rw [h.2 (by omega), heq]

/-- A call on an event that is not terminal may write what any caller writes. -/
theorem follows_of_pos {st st' : Int} (h : st ≤ 1) (h' : 0 < st') : Follows st st' :=
  ⟨by omega, fun hle => by omega⟩

/-- What the guard preserves: statuses follow each other, pending calls are on events that are not
terminal, two calls on one event both report `CL_RUNNING`, and a chosen event is queued. -/
structure StatusInv (s : State T) : Prop where
  history : ∀ x, x < s.nextEvent →
    (s.events x).statuses.Pairwise Follows ∧ (s.events x).statuses.head? = some (s.events x).status
  pending : ∀ t, ∀ f ∈ s.reporting t, 0 < (s.events f.event).status
  alone : ∀ t u, ∀ f ∈ s.reporting t, ∀ g ∈ s.reporting u, f.event = g.event →
    t = u ∨ f.status = clRunning ∧ g.status = clRunning
  chosen : ∀ t d, s.chosen t = some d → (s.events d).status = clQueued

section Status

variable (hs : Sound s) (hi : StatusInv s) (h : Step s a s') (hg : Undisputed s a)
include hs hi h hg

/-- Each write follows the status before it. -/
theorem StatusInv.follows (hx : x < s.nextEvent) :
    Follows (s'.events x).status (s.events x).status := by
  have hst := step_status h hx
  generalize (s'.events x).status = st at hst
  cases hst with
  | same => exact ⟨Int.le_refl _, fun _ => rfl⟩
  | submitted hk hpc he =>
    rw [hi.chosen _ x (chosen_iff.mpr ⟨_, _, hk, .inr hpc, he⟩)]
    exact ⟨by decide, fun hle => absurd hle (by decide)⟩
  | @reported f k hk hpc he =>
    subst he
    refine follows_of_pos ?_ (hi.pending _ f (reporting_eq hk hpc))
    rcases (hs.report.head hk).1 hpc with ⟨_, hle⟩ | ⟨_, _, ⟨_, hrun | hle⟩ | ⟨_, hdone⟩⟩
    · omega
    · exact Int.le_of_eq hrun
    · omega
    · rw [hdone]
      decide
  | terminated hk hpc =>
    obtain ⟨g, ha⟩ := resume_of_top h hk
    rw [ha] at hg
    have hneg := (hs.report.failed hk hpc).1
    rcases hg _ (ending_eq hk hpc) with hsame | ⟨hq, -, -⟩
    · exact ⟨Int.le_of_eq hsame.symm, fun _ => hsame.symm⟩
    · dsimp only at hq
      rw [hq]
      exact follows_of_pos (by omega) (by decide)

theorem StatusInv.history_step (hx : x < s'.nextEvent) :
    (s'.events x).statuses.Pairwise Follows ∧
      (s'.events x).statuses.head? = some (s'.events x).status := by
  by_cases hlt : x < s.nextEvent
  · obtain ⟨hp, hh⟩ := hi.history x hlt
    have hf := hi.follows hs h hg hlt
    rcases statuses_step h hlt with ⟨hss, hst⟩ | hss
    · rw [hss, hst]
      exact ⟨hp, hh⟩
    · rw [hss]
      refine ⟨List.pairwise_cons.mpr ⟨?_, hp⟩, rfl⟩
      intro st hst
      cases hl : (s.events x).statuses with
      | nil => simp [hl] at hst
      | cons st₀ l =>
        obtain rfl : st₀ = (s.events x).status := by simpa [hl] using hh
        rw [hl] at hp hst
        obtain rfl | hst := List.mem_cons.mp hst
        · exact hf
        · exact hf.trans ((List.pairwise_cons.mp hp).1 st hst)
  · obtain ⟨hss, -⟩ := new_event_history h hlt hx
    rw [hss]
    exact ⟨List.pairwise_singleton _ _, rfl⟩

/-- A pending call stays on an event that is not terminal when another thread takes a step. -/
theorem StatusInv.pending_of_ne {t : T} (ht : t ≠ a.actor) {f : StatusFrame}
    (hf : f ∈ s.reporting t) : 0 < (s'.events f.event).status := by
  obtain ⟨k, hk, -⟩ := reporting_iff.mp hf
  have hlt : f.event < s.nextEvent := (hs.calls.head hk).1
  have hpos := hi.pending t f hf
  have hst := step_status h hlt
  generalize (s'.events f.event).status = st at hst
  cases hst with
  | same => exact hpos
  | submitted => decide
  | @reported g k' hk' hpc' he =>
    rcases hi.alone t a.actor f hf g (reporting_eq hk' hpc') he.symm with htu | ⟨-, hrun⟩
    · exact absurd htu ht
    · rw [hrun]
      decide
  | terminated hk' hpc' =>
    obtain ⟨g, ha⟩ := resume_of_top h hk'
    rw [ha] at hg
    rcases hg _ (ending_eq hk' hpc') with hsame | ⟨-, -, hnone⟩
    · exact lt_of_lt_of_eq hpos hsame
    · exact absurd rfl (hnone t f hf)

/-- A new call is on an event that is not terminal. -/
theorem StatusInv.pending_new {f : StatusFrame} (hf : f ∈ s'.reporting a.actor) :
    0 < (s'.events f.event).status ∧ ∀ u, ∀ g ∈ s.reporting u, f.event = g.event →
      f.status = clRunning ∧ g.status = clRunning := by
  cases reporting_origin h hs.wf hf with
  | @user t ha hst =>
    rw [ha] at h hg
    cases h
    refine ⟨?_, fun u g hu he => absurd he.symm (hg u g hu)⟩
    simp only [State.setStack_events]
    rw [hst]
    decide
  | @device t ha =>
    rw [ha] at h hg
    cases h
    refine ⟨hg.1, fun u g hu he => ?_⟩
    exact (hg.2 u g hu he.symm).symm
  | @taken p k hk hpc he =>
    have hq := hi.chosen a.actor _ (chosen_iff.mpr ⟨p, k, hk, .inl hpc, he⟩)
    have hev : s'.events = s.events := by
      cases push_next h hk with
      | submitted hpc' => simp [hpc] at hpc'
      | _ => rfl
    refine ⟨?_, fun u g hu heq => ?_⟩
    · rw [hev, hq]
      decide
    · -- the event is in the list, so nobody reports on it yet
      obtain ⟨k', hk', hpc'⟩ := reporting_iff.mp hu
      rw [heq] at he
      rcases hs.report.started hs.calls hk' hpc' (hs.wf.event_lt he).2 with hm | hm
      · exact absurd hm.1 (hs.hand.fresh _ _ _ _ hk (.inl hpc) he)
      · exact absurd hm.1 (hs.wf.not_mem_taken he)

theorem StatusInv.chosen_step {t : T} (ht : s'.chosen t = some d) :
    (s'.events d).status = clQueued := by
  obtain ⟨f, k, hk, hpc, he⟩ := chosen_iff.mp ht
  by_cases hta : t = a.actor
  · subst hta
    cases push_top h hs.wf hk with
    | called hc => simp [hc] at hpc
    | entered _ _ _ hf => simp [hf] at hpc
    | erased _ _ _ hf => simp [hf] at hpc
    | handed _ _ _ hf => simp [hf] at hpc
    | submitted _ _ _ hf => simp [hf] at hpc
    | moved hk' hm hq hev =>
      rw [pushMove_queue hm, hq] at he
      rw [hev]
      cases hm with
      | isQueued _ he' hst =>
        obtain rfl : _ = d := Option.some.inj (he'.symm.trans he)
        exact hst
      | pushable hpc' he' _ _ =>
        exact hi.chosen _ d (chosen_iff.mpr ⟨_, _, hk', .inl hpc', he⟩)
      | _ => simp_all
  · rw [step_threads_of_ne h hta] at hk
    have hm := hs.wf.mutex.of_push hk (by rcases hpc with hpc | hpc <;> simp [hpc])
    obtain ⟨l, hl⟩ := step_queue_locked h hs.wf.mutex hm hta
    rw [hl] at he
    have hc : s.chosen t = some d := chosen_iff.mpr ⟨f, k, hk, hpc, he⟩
    have hq := hi.chosen t d hc
    rw [hs.examined_status h hta hk (hpc.imp_right .inl) he ?_]
    · exact hq
    · -- the guard lets nobody terminate a chosen event
      intro hterm
      obtain ⟨g, k', i, num, q, hk', hpc'⟩ := terminating_iff.mp hterm
      obtain ⟨b, ha⟩ := resume_of_top h hk'
      rw [ha] at hg
      have hneg := (hs.report.failed hk' hpc').1
      rcases hg _ (ending_eq hk' hpc') with hsame | ⟨-, hnone, -⟩
      · dsimp only at hsame
        rw [hq] at hsame
        unfold clQueued at hsame
        omega
      · exact hnone t hc

theorem statusInv_step : StatusInv s' where
  history _ hx := hi.history_step hs h hg hx
  pending := by
    intro t f hf
    by_cases ht : t = a.actor
    · subst ht
      exact (hi.pending_new hs h hg hf).1
    · rw [reporting_of_ne h ht] at hf
      exact hi.pending_of_ne hs h hg ht hf
  alone := by
    intro t u f hf g hu he
    by_cases ht : t = a.actor
    · by_cases hua : u = a.actor
      · exact .inl (ht.trans hua.symm)
      · subst ht
        rw [reporting_of_ne h hua] at hu
        exact .inr ((hi.pending_new hs h hg hf).2 u g hu he)
    · rw [reporting_of_ne h ht] at hf
      by_cases hua : u = a.actor
      · subst hua
        exact .inr ((hi.pending_new hs h hg hu).2 t f hf he.symm).symm
      · rw [reporting_of_ne h hua] at hu
        exact hi.alone t u f hf g hu he
  chosen _ _ ht := hi.chosen_step hs h hg ht

end Status

theorem statusInv_reachable (h : Reachable ((scheduler T).restrict Undisputed) s) :
    StatusInv s := by
  apply h.invariant
  · rintro _ ⟨o, rfl⟩
    constructor <;> simp [initial, State.reporting, State.chosen]
  · intro s a s' hr hi ht
    exact statusInv_step (sound_reachable hr.of_restrict) hi (step_cases ht.1) ht.2

/-- The values of `p_status` never increase, and a terminal one never changes. -/
theorem status_monotone (h : Reachable ((scheduler T).restrict Undisputed) s)
    (hx : x < s.nextEvent) : (s.events x).statuses.Pairwise fun newer older =>
      newer ≤ older ∧ (older ≤ 0 → newer = older) :=
  ((statusInv_reachable h).history x hx).1

/-- Two workers report that a kernel runs before one of them completes it. -/
theorem status_monotone_of_kernel :
    ∃ s : State Bool, Reachable ((scheduler Bool).restrict Undisputed) s ∧
      (s.events 0).statuses = [0, 1, 1, 2, 3] ∧
      (s.events 0).statuses.Pairwise fun newer older =>
        newer ≤ older ∧ (older ≤ 0 → newer = older) := by
  obtain ⟨s, hr, hc⟩ := exists_guarded_run Undisputed (fun _ => false)
    (List.flatten [[.enqueue true .ndRangeKernel 0 []], resumes true 12,
      [.deviceSetStatus true 0 1, .deviceSetStatus false 0 1], resumes true 1, resumes false 1,
      [.deviceSetStatus true 0 0], resumes true 1])
    (fun s => 0 < s.nextEvent ∧ (s.events 0).statuses = [0, 1, 1, 2, 3]) (by decide +kernel)
  obtain ⟨hx, hst⟩ := of_decide_eq_true hc
  exact ⟨s, hr, hst, status_monotone hr hx⟩

/-- Two threads pass the test of `clSetUserEventStatus` before either writes. -/
theorem user_event_set_twice :
    ∃ s : State Bool, Reachable (scheduler Bool) s ∧ 0 < s.nextEvent ∧
      (s.events 0).statuses = [0, -1, 2] := by
  obtain ⟨s, hr, hc⟩ := exists_run (fun _ => true)
    (List.flatten [
      [.createUserEvent true, .setUserEventStatus true 0 (-1), .setUserEventStatus false 0 0],
      resumes true 1, resumes false 1])
    (fun s => 0 < s.nextEvent ∧ (s.events 0).statuses = [0, -1, 2]) (by decide +kernel)
  exact ⟨s, hr, of_decide_eq_true hc⟩

end Shamrock.Scheduler
