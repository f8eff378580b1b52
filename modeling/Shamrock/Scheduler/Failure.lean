import Shamrock.Scheduler.Links
import Mathlib.Data.Fintype.Basic

/-! A command whose dependency failed is not executed, as long as the failure is not forgotten. -/
namespace Shamrock.Scheduler

open Transition

variable {T : Type} [DecidableEq T] {s s' : State T} {a : Action T} {q : QueueId}
  {d w x : EventId}

/-- A terminal status `st` is followed only by one of the same outcome. -/
def SameOutcome (st st' : Int) : Prop := st ≤ 0 → st' ≤ 0 ∧ (st' < 0 ↔ st < 0)

instance (st st' : Int) : Decidable (SameOutcome st st') :=
  inferInstanceAs (Decidable (st ≤ 0 → st' ≤ 0 ∧ (st' < 0 ↔ st < 0)))

/-- The dependent that thread `t` is about to notify of a failure. -/
def State.failing (s : State T) (t : T) : Option (EventId × EventId) :=
  match s.threads t with
  | .setStatus f :: _ =>
    match f.pc with
    | .notify i num =>
      if f.status < 0 ∧ i < num then
        (s.events f.event).dependentEvents[i]?.map fun d => (f.event, d)
      else none
    | _ => none
  | _ => none

/-- The dependent that thread `t` has left with nothing to wait for and has yet to terminate. -/
def State.terminating (s : State T) (t : T) : Option EventId :=
  match s.threads t with
  | .setStatus f :: _ =>
    match f.pc with
    | .terminate _ _ d _ => some d
    | _ => none
  | _ => none

/-- The event whose wait list thread `t` is about to test, having found it queued. -/
def State.testing (s : State T) (t : T) : Option EventId :=
  match s.threads t with
  | .push f :: _ => if f.pc = .examineWait then f.event (s.queues f.queue) else none
  | _ => none

/-- Steps that do not forget a failure: no event is given a second terminal status of another
outcome; a failed event is the last one that its dependents wait for, and none of them is
between the two tests of a traversal; and no traversal tests the status of an event that has
been left without dependencies by a failure and has yet to be terminated. -/
def FailureKept (s : State T) : Action T → Prop
  | .resume t _ =>
    (∀ f ∈ s.reporting t, SameOutcome (s.events f.event).status f.status) ∧
    (∀ p ∈ s.failing t, (s.events p.2).waitEvents.filter (· ≠ p.1) = [] ∧
      ∀ u, s.testing u ≠ some p.2) ∧
    (∀ f ∈ s.pushing t, f.pc = .examineQueued → ∀ e ∈ f.event (s.queues f.queue),
      ∀ u, s.terminating u ≠ some e)
  | _ => True

instance [Fintype T] (s : State T) (a : Action T) : Decidable (FailureKept s a) :=
  match a with
  | .resume t _ => inferInstanceAs (Decidable (
      (∀ f ∈ s.reporting t, SameOutcome (s.events f.event).status f.status) ∧
      (∀ p ∈ s.failing t, (s.events p.2).waitEvents.filter (· ≠ p.1) = [] ∧
        ∀ u, s.testing u ≠ some p.2) ∧
      (∀ f ∈ s.pushing t, f.pc = .examineQueued → ∀ e ∈ f.event (s.queues f.queue),
        ∀ u, s.terminating u ≠ some e)))
  | .createUserEvent _ | .setUserEventStatus .. | .setCallback .. | .enqueue .. | .flush ..
  | .finish .. | .deviceSetStatus .. => inferInstanceAs (Decidable True)

/-- The guard on the step of a thread that is inside a call. -/
theorem FailureKept.of_top (hg : FailureKept s a) (h : Step s a s') {f : Frame} {k : List Frame}
    (hk : s.threads a.actor = f :: k) :
    (∀ f ∈ s.reporting a.actor, SameOutcome (s.events f.event).status f.status) ∧
    (∀ p ∈ s.failing a.actor, (s.events p.2).waitEvents.filter (· ≠ p.1) = [] ∧
      ∀ u, s.testing u ≠ some p.2) ∧
    (∀ f ∈ s.pushing a.actor, f.pc = .examineQueued → ∀ e ∈ f.event (s.queues f.queue),
      ∀ u, s.terminating u ≠ some e) := by
  obtain ⟨g, ha⟩ := resume_of_top h hk
  rw [ha] at hg
  exact hg

theorem SameOutcome.trans {st st' st'' : Int} (h : SameOutcome st st') (h' : SameOutcome st' st'') :
    SameOutcome st st'' := by
  intro hst
  obtain ⟨hle, hiff⟩ := h hst
  obtain ⟨hle', hiff'⟩ := h' hle
  exact ⟨hle', hiff'.trans hiff⟩

omit [DecidableEq T] in
theorem terminating_iff {t : T} : s.terminating t = some d ↔
    ∃ f k i num q, s.threads t = .setStatus f :: k ∧ f.pc = .terminate i num d q := by
  unfold State.terminating
  constructor
  · intro h
    split at h
    · split at h
      · cases h
        exact ⟨_, _, _, _, _, by assumption, by assumption⟩
      · cases h
    · cases h
  · rintro ⟨f, k, i, num, q, hk, hpc⟩
    simp [hk, hpc]

omit [DecidableEq T] in
theorem testing_iff {t : T} : s.testing t = some d ↔
    ∃ f k, s.threads t = .push f :: k ∧ f.pc = .examineWait ∧
      f.event (s.queues f.queue) = some d := by
  unfold State.testing
  constructor
  · intro h
    split at h
    · split at h
      · exact ⟨_, _, by assumption, by assumption, h⟩
      · cases h
    · cases h
  · rintro ⟨f, k, hk, hpc, he⟩
    simp [hk, hpc, he]

omit [DecidableEq T] in
theorem failing_eq {t : T} {f : StatusFrame} {k : List Frame} {i num : Nat}
    (hk : s.threads t = .setStatus f :: k) (hpc : f.pc = .notify i num) (hst : f.status < 0)
    (hi : i < num) (hd : (s.events f.event).dependentEvents[i]? = some d) :
    s.failing t = some (f.event, d) := by
  simp [State.failing, hk, hpc, hst, hi, hd]

theorem terminating_of_ne (h : Step s a s') {u : T} (hu : u ≠ a.actor) :
    s'.terminating u = s.terminating u := by
  unfold State.terminating
  rw [step_threads_of_ne h hu]

/-- A thread comes to terminate a dependent by notifying it of a failure. -/
theorem terminating_origin (h : Step s a s') (hw : Wf s) (ht : s'.terminating a.actor = some d) :
    ∃ w f k, s.threads a.actor = f :: k ∧ s.failing a.actor = some (w, d) := by
  obtain ⟨f, k, i, num, q, hk, hpc⟩ := terminating_iff.mp ht
  have hsh := hw.shape a.actor
  cases h
  case createUserEvent hidle => cases hidle.symm.trans hk
  case setCallback hidle _ => cases hidle.symm.trans hk
  all_goals
    simp only [actor_resume, actor_setUserEventStatus, actor_enqueue, actor_flush, actor_finish,
      actor_deviceSetStatus, State.setStack_threads, State.pushDependent_threads,
      Function.update_self, List.cons.injEq, Frame.setStatus.injEq, reduceCtorEq,
      false_and] at hk
  case notifyFailed g i' num' d' q' k' hk' hpc' hi hd hm he hq hst =>
    obtain ⟨rfl, rfl⟩ := hk
    obtain ⟨-, -, rfl, -⟩ := StatusPC.terminate.inj hpc
    exact ⟨g.event, _, _, hk', failing_eq hk' hpc' hst hi hd⟩
  case construct => split at hk <;> cases hk.1
  all_goals first
    | -- the new top frame is at another point
      obtain ⟨rfl, rfl⟩ := hk
      cases hpc
    | -- a return uncovers only a suspended call
      simp only [actor_resume, *] at hsh
      rcases stackShape_tail hsh (.setStatus f) (by simp) with hs | ⟨_, hs⟩
      · obtain ⟨_, _, hs⟩ := hs
        rw [hpc] at hs
        cases hs
      · cases hs

/-- The status of the event under the iterator of another thread's traversal is stable, unless
the event is terminated. -/
theorem Sound.examined_status (hs : Sound s) (h : Step s a s') {t : T} {f : PushFrame}
    {k : List Frame} (hta : t ≠ a.actor) (hk : s.threads t = .push f :: k)
    (hpc : f.pc = .examineWait ∨ f.pc = .submit ∨ f.pc = .handOver)
    (he : f.event (s.queues f.queue) = some d) (hnt : s.terminating a.actor ≠ some d) :
    (s'.events d).status = (s.events d).status := by
  have hm := hs.wf.mutex.of_push hk (by rcases hpc with hpc | hpc | hpc <;> simp [hpc])
  obtain ⟨hd, hp⟩ := hs.wf.event_lt he
  have hst := step_status h hd
  generalize (s'.events d).status = st at hst
  cases hst with
  | same => rfl
  | submitted hk' hpc' he' =>
    -- two threads would hold the queue's mutex
    have hm' := hs.wf.mutex.of_push hk' (by simp [hpc'])
    rw [Option.some.inj ((hs.wf.event_lt he').2.symm.trans hp), hm] at hm'
    exact absurd (Option.some.inj hm') hta
  | reported hk' hpc' he' =>
    subst he'
    rcases hs.report.started hs.calls hk' hpc' hp with hx | hx
    · exact absurd hx.1 (hs.hand.fresh _ _ _ _ hk hpc he)
    · exact absurd hx.1 (hs.wf.not_mem_taken he)
  | @terminated f' i num p k' hk' hpc' =>
    exact absurd (terminating_iff.mpr ⟨f', k', i, num, p, hk', hpc'⟩) hnt

/-- What the guard preserves: outcomes are final, a failed dependency is still remembered
somewhere, and whatever passed the wait-list test has only completed dependencies. -/
structure KeepInv (s : State T) : Prop where
  outcome : ∀ x, x < s.nextEvent → ∀ st ∈ (s.events x).statuses, SameOutcome st (s.events x).status
  failed : ∀ d, d < s.nextEvent → ∀ w ∈ (s.events d).waitList, (s.events w).status < 0 →
    w ∈ (s.events d).waitEvents ∨ (∃ t, ∃ f ∈ s.threads t, f.Awaits d w) ∨
      (∃ t, s.terminating t = some d) ∨ (s.events d).status < 0
  tested : ∀ t d, s.testing t = some d →
    (s.events d).status = clQueued ∧ ∀ u, s.terminating u ≠ some d
  submitting : ∀ t f k d, s.threads t = .push f :: k → f.pc = .submit →
    f.event (s.queues f.queue) = some d → (s.events d).status = clQueued
  passed : ∀ t f k d, s.threads t = .push f :: k → f.pc = .submit ∨ f.pc = .handOver →
    f.event (s.queues f.queue) = some d → ∀ w ∈ (s.events d).waitList,
      (s.events w).status = clComplete
  started : ∀ q d, d ∈ (s.queues q).handed ∨ d ∈ (s.queues q).taken →
    ∀ w ∈ (s.events d).waitList, (s.events w).status = clComplete

section Keep

variable (hs : Sound s) (hl : LinkInv s) (hi : KeepInv s)
include hs hl hi

omit [DecidableEq T] in
/-- A dependent is terminated because of a failed event in its wait list. -/
theorem KeepInv.terminating_failed {t : T} (ht : s.terminating t = some d) :
    d < s.nextEvent ∧ (∃ q, (s.events d).parent = some q) ∧
      ∃ w ∈ (s.events d).waitList, (s.events w).status < 0 := by
  obtain ⟨f, k, i, num, q, hk, hpc⟩ := terminating_iff.mp ht
  obtain ⟨hneg, hlt, hp⟩ := hs.report.failed hk hpc
  obtain ⟨hflt, hd⟩ := hl.frame t (.setStatus f) (by simp [hk])
  obtain ⟨-, hmem⟩ := hl.dependent hflt (hd i num d q hpc)
  obtain ⟨hle, hst⟩ := (hs.calls.head hk).2.2 (by simp [hpc])
  exact ⟨hlt, ⟨q, hp⟩, f.event, hmem, ((hi.outcome _ hflt _ hst) hle).2.mpr hneg⟩

omit [DecidableEq T] hl in
/-- An event with a failed dependency is not started. -/
theorem KeepInv.not_started (hd : d < s.nextEvent) (hp : (s.events d).parent = some q)
    (hw : w ∈ (s.events d).waitList) (hneg : (s.events w).status < 0) :
    (s.events d).status = clQueued ∨ (s.events d).status < 0 := by
  have hne : (s.events w).status ≠ clComplete := by
    intro h0
    simp [h0] at hneg
  have hnh : d ∉ (s.queues q).handed := fun hm => hne (hi.started q d (.inl hm) w hw)
  have hnt : d ∉ (s.queues q).taken := fun hm => hne (hi.started q d (.inr hm) w hw)
  rcases hs.start q d hd hp hnh hnt with hq | hq | ⟨t, f, k, hk, rfl, hpc, he⟩
  · exact .inl hq
  · exact .inr hq
  · exact absurd (hi.passed t f k d hk (.inr hpc) he w hw) hne

/-- Outcomes are final. -/
theorem KeepInv.outcome_step (h : Step s a s') (hg : FailureKept s a) (hx : x < s.nextEvent) :
    SameOutcome (s.events x).status (s'.events x).status := by
  have hst := step_status h hx
  generalize (s'.events x).status = st at hst
  cases hst with
  | same => exact fun hle => ⟨hle, Iff.rfl⟩
  | submitted hk hpc he =>
    intro hle
    rw [hi.submitting _ _ _ _ hk hpc he] at hle
    exact absurd hle (by decide)
  | reported hk hpc he =>
    subst he
    exact (hg.of_top h hk).1 _ (reporting_eq hk hpc)
  | @terminated f i num q k hk hpc =>
    intro hle
    have hneg := (hs.report.failed hk hpc).1
    obtain ⟨_, ⟨p, hp⟩, w, hw, hfail⟩ :=
      hi.terminating_failed hs hl (terminating_iff.mpr ⟨f, k, i, num, q, hk, hpc⟩)
    rcases hi.not_started hs hx hp hw hfail with hq | hq
    · rw [hq] at hle
      exact absurd hle (by decide)
    · exact ⟨by omega, by omega⟩

theorem KeepInv.complete_step (h : Step s a s') (hg : FailureKept s a) (hx : x < s.nextEvent)
    (h0 : (s.events x).status = clComplete) : (s'.events x).status = clComplete := by
  obtain ⟨hle, hiff⟩ := hi.outcome_step hs hl h hg hx (le_of_eq h0)
  rw [h0] at hiff
  have := hiff.not.mpr (by decide)
  unfold clComplete
  omega

theorem KeepInv.failed_step (h : Step s a s') (hg : FailureKept s a) (hx : x < s.nextEvent)
    (hneg : (s.events x).status < 0) : (s'.events x).status < 0 :=
  (hi.outcome_step hs hl h hg hx (by omega)).2.mpr hneg

omit [DecidableEq T] hl in
/-- After the wait-list test nothing of the wait list has failed. -/
theorem KeepInv.tested_complete (hwt : WaitInv s) {t : T} {f : PushFrame} {k : List Frame}
    (hk : s.threads t = .push f :: k) (hpc : f.pc = .examineWait)
    (he : f.event (s.queues f.queue) = some d) (hn : (s.events d).waitEvents = []) :
    ∀ w ∈ (s.events d).waitList, (s.events w).status = clComplete := by
  intro w hw
  obtain ⟨hd, hp⟩ := hs.wf.event_lt he
  obtain ⟨hq, hnt⟩ := hi.tested t d (testing_iff.mpr ⟨f, k, hk, hpc, he⟩)
  obtain ⟨st, hst, hle⟩ := hwt.ended hs.wf he hn w hw
  have hterm := (hi.outcome w ((hs.calls.event d hd).waitList w hw) st hst hle).1
  by_contra hne
  have hneg : (s.events w).status < 0 := by
    unfold clComplete at hne
    omega
  rcases hi.failed d hd w hw hneg with hx | ⟨u, g, hg, ha⟩ | ⟨u, hu⟩ | hx
  · simp [hn] at hx
  · exact hs.wf.not_awaits he hg (awaits_building ha)
  · exact hnt u hu
  · rw [hq] at hx
    exact absurd hx (by decide)

/-- The next dependent of a failed event is left to be terminated. -/
theorem KeepInv.notified (h : Step s a s') (hg : FailureKept s a) {f : StatusFrame} {i num : Nat}
    {k : List Frame} (hk : s.threads a.actor = .setStatus f :: k) (hpc : f.pc = .notify i num)
    (hi' : i < num) (hdep : (s.events f.event).dependentEvents[i]? = some d)
    (hneg : (s.events f.event).status < 0) : s'.terminating a.actor = some d := by
  obtain ⟨hflt, -⟩ := hl.frame a.actor (.setStatus f) (by simp [hk])
  obtain ⟨hle, hst⟩ := (hs.calls.head hk).2.2 (by simp [hpc])
  have hfneg : f.status < 0 := ((hi.outcome _ hflt _ hst) hle).2.mp hneg
  have hlast := ((hg.of_top h hk).2.1 _ (failing_eq hk hpc hfneg hi' hdep)).1
  obtain ⟨⟨p, hp⟩, -⟩ := hl.dependent hflt (List.mem_of_getElem? hdep)
  cases notify_next h hk hpc hi' hdep with
  | blocked hb =>
    rcases hb with hb | hb
    · exact absurd hlast hb
    · simp [hp] at hb
  | ready _ _ h0 => omega
  | @failed q =>
    exact terminating_iff.mpr ⟨{ f with pc := .terminate i num d q }, k, i, num, q, by simp, rfl⟩

/-- A failure that was remembered stays so. -/
theorem KeepInv.failed_kept (h : Step s a s') (hg : FailureKept s a) (hd : d < s.nextEvent)
    (hw : w ∈ (s.events d).waitList) (hneg : (s.events w).status < 0) :
    w ∈ (s'.events d).waitEvents ∨ (∃ t, ∃ f ∈ s'.threads t, f.Awaits d w) ∨
      (∃ t, s'.terminating t = some d) ∨ (s'.events d).status < 0 := by
  rcases hi.failed d hd w hw hneg with hx | ⟨t, f, hf, ha⟩ | ⟨t, ht⟩ | hx
  · have hc := step_waitEvents h hd
    generalize (s'.events d).waitEvents = l at hc ⊢
    cases hc with
    | same => exact .inl hx
    | waiting => exact .inl (List.mem_append_left _ hx)
    | @notified f i num k hk hpc hi' hdep hm =>
      by_cases hfw : f.event = w
      · subst hfw
        exact .inr (.inr (.inl ⟨a.actor, hi.notified hs hl h hg hk hpc hi' hdep hneg⟩))
      · exact .inl (by simp [hx, Ne.symm hfw])
  · rcases awaits_step h hs.wf hf ha with hx | h0 | hx
    · exact .inl hx
    · simp [h0] at hneg
    · exact .inr (.inl hx)
  · right; right
    by_cases hta : t = a.actor
    · subst hta
      obtain ⟨f, k, i, num, q, hk, hpc⟩ := terminating_iff.mp ht
      right
      cases status_next h hk with
      | terminate hpc' =>
        obtain ⟨-, -, rfl, -⟩ := StatusPC.terminate.inj (hpc.symm.trans hpc')
        simpa using (hs.report.failed hk hpc).1
      | _ => simp_all
    · exact .inl ⟨t, by rwa [terminating_of_ne h hta]⟩
  · exact .inr (.inr (.inr (hi.failed_step hs hl h hg hd hx)))

/-- An event that fails had not ended, so its dependents still wait for it. -/
theorem KeepInv.failed_new (hwt : WaitInv s) (h : Step s a s') (hg : FailureKept s a)
    (hd : d < s.nextEvent) (hw : w ∈ (s.events d).waitList)
    (hold : ¬ (s.events w).status < 0) (hneg : (s'.events w).status < 0) :
    w ∈ (s'.events d).waitEvents ∨ ∃ t, ∃ f ∈ s'.threads t, f.Awaits d w := by
  have hwlt := (hs.calls.event d hd).waitList w hw
  have hpos : 0 < (s.events w).status := by
    by_contra hle
    exact hold ((hi.outcome_step hs hl h hg hwlt (not_lt.mp hle)).2.mp hneg)
  have hnend : ¬ (s.events w).Ended := by
    rintro ⟨st, hst, hle⟩
    have := (hi.outcome w hwlt st hst hle).1
    omega
  -- the acting thread writes a status, so it changes no wait list
  obtain ⟨f, k, hk, hpc⟩ : ∃ f k, s.threads a.actor = .setStatus f :: k ∧
      ∀ i num, f.pc ≠ .notify i num := by
    have hst := step_status h hwlt
    generalize (s'.events w).status = st at hst hneg
    cases hst with
    | same => exact absurd hneg hold
    | submitted => exact absurd hneg (by decide)
    | reported hk hpc _ => exact ⟨_, _, hk, by simp [hpc]⟩
    | terminated hk hpc => exact ⟨_, _, hk, by simp [hpc]⟩
  rcases hwt d hd w hw with hx | hx | ⟨t, g, hg', ha⟩
  · left
    have hc := step_waitEvents h hd
    generalize (s'.events d).waitEvents = l at hc ⊢
    cases hc with
    | same => exact hx
    | waiting hk' => cases hk.symm.trans hk'
    | notified hk' hpc' =>
      cases hk.symm.trans hk'
      exact absurd hpc' (hpc _ _)
  · exact absurd hx hnend
  · rcases awaits_step h hs.wf hg' ha with hx | h0 | hx
    · exact .inl hx
    · rw [h0] at hpos
      exact absurd hpos (by decide)
    · exact .inr hx

omit hl in
theorem KeepInv.tested_step (h : Step s a s') (hg : FailureKept s a) {t : T}
    (ht : s'.testing t = some d) :
    (s'.events d).status = clQueued ∧ ∀ u, s'.terminating u ≠ some d := by
  obtain ⟨f, k, hk, hpc, he⟩ := testing_iff.mp ht
  by_cases hta : t = a.actor
  · subst hta
    cases push_top h hs.wf hk with
    | called hc => simp [hc] at hpc
    | entered _ _ _ hf => simp [hf] at hpc
    | erased _ _ _ hf => simp [hf] at hpc
    | handed _ _ _ hf => simp [hf] at hpc
    | submitted _ _ _ hf => simp [hf] at hpc
    | @moved f₀ b hk' hm hq hev =>
      rw [pushMove_queue hm, hq] at he
      cases hm with
      | @isQueued e hpc' he' hst =>
        obtain rfl : e = d := Option.some.inj (he'.symm.trans he)
        rw [hev]
        refine ⟨hst, fun u hu => ?_⟩
        have hnone := (hg.of_top h hk').2.2 _ (pushing_eq hk') hpc' e he'
        by_cases hua : u = a.actor
        · subst hua
          simp [State.terminating, hk] at hu
        · rw [terminating_of_ne h hua] at hu
          exact hnone u hu
      | _ => simp_all
  · rw [step_threads_of_ne h hta] at hk
    have hm := hs.wf.mutex.of_push hk (by simp [hpc])
    obtain ⟨l, hl'⟩ := step_queue_locked h hs.wf.mutex hm hta
    rw [hl'] at he
    have htest := testing_iff.mpr ⟨f, k, hk, hpc, he⟩
    obtain ⟨hq, hnt⟩ := hi.tested t d htest
    constructor
    · rw [hs.examined_status h hta hk (.inl hpc) he (hnt a.actor)]
      exact hq
    · intro u hu
      by_cases hua : u = a.actor
      · subst hua
        obtain ⟨w, g, k', hk', hw⟩ := terminating_origin h hs.wf hu
        exact ((hg.of_top h hk').2.1 _ hw).2 t htest
      · rw [terminating_of_ne h hua] at hu
        exact hnt u hu

theorem KeepInv.submitting_step (h : Step s a s') {t : T} {f : PushFrame} {k : List Frame}
    (hk : s'.threads t = .push f :: k) (hpc : f.pc = .submit)
    (he : f.event (s'.queues f.queue) = some d) : (s'.events d).status = clQueued := by
  by_cases hta : t = a.actor
  · subst hta
    cases push_top h hs.wf hk with
    | called hc => simp [hc] at hpc
    | entered _ _ _ hf => simp [hf] at hpc
    | erased _ _ _ hf => simp [hf] at hpc
    | handed _ _ _ hf => simp [hf] at hpc
    | submitted _ _ _ hf => simp [hf] at hpc
    | @moved f₀ b hk' hm hq hev =>
      rw [pushMove_queue hm, hq] at he
      rw [hev]
      cases hm with
      | pushable hpc' he' _ _ => exact (hi.tested _ d (testing_iff.mpr ⟨_, _, hk', hpc', he⟩)).1
      | _ => simp_all
  · rw [step_threads_of_ne h hta] at hk
    have hm := hs.wf.mutex.of_push hk (by simp [hpc])
    obtain ⟨l, hl'⟩ := step_queue_locked h hs.wf.mutex hm hta
    rw [hl'] at he
    have hnt : s.terminating a.actor ≠ some d := by
      intro ht
      obtain ⟨-, -, w, hw, hneg⟩ := hi.terminating_failed hs hl ht
      rw [hi.passed t f k d hk (.inl hpc) he w hw] at hneg
      exact absurd hneg (by decide)
    rw [hs.examined_status h hta hk (.inr (.inl hpc)) he hnt]
    exact hi.submitting t f k d hk hpc he

theorem KeepInv.passed_step (hwt : WaitInv s) (h : Step s a s') (hg : FailureKept s a) {t : T}
    {f : PushFrame} {k : List Frame} (hk : s'.threads t = .push f :: k)
    (hpc : f.pc = .submit ∨ f.pc = .handOver) (he : f.event (s'.queues f.queue) = some d) :
    ∀ w ∈ (s'.events d).waitList, (s'.events w).status = clComplete := by
  suffices hold : d < s.nextEvent ∧ ∀ w ∈ (s.events d).waitList, (s.events w).status = clComplete by
    obtain ⟨hd, hold⟩ := hold
    intro w hw
    rw [(step_identity h hd).waitList] at hw
    exact hi.complete_step hs hl h hg ((hs.calls.event d hd).waitList w hw) (hold w hw)
  by_cases hta : t = a.actor
  · subst hta
    cases push_top h hs.wf hk with
    | called hc => simp [hc] at hpc
    | entered _ _ _ hf => simp [hf] at hpc
    | erased _ _ _ hf => simp [hf] at hpc
    | handed _ _ _ hf => simp [hf] at hpc
    | @moved f₀ b hk' hm hq hev =>
      rw [pushMove_queue hm, hq] at he
      cases hm with
      | pushable hpc' he' hn _ =>
        obtain rfl : _ = d := Option.some.inj (he'.symm.trans he)
        exact ⟨(hs.wf.event_lt he').1, hi.tested_complete hs hwt hk' hpc' he' hn⟩
      | _ => simp_all
    | submitted hk' hpc' he' hf hq hev =>
      subst hf
      rw [hq] at he
      obtain rfl : _ = d := Option.some.inj (he'.symm.trans he)
      exact ⟨(hs.wf.event_lt he').1, hi.passed _ _ _ _ hk' (.inl hpc') he'⟩
  · rw [step_threads_of_ne h hta] at hk
    have hm := hs.wf.mutex.of_push hk (by rcases hpc with hpc | hpc <;> simp [hpc])
    obtain ⟨l, hl'⟩ := step_queue_locked h hs.wf.mutex hm hta
    rw [hl'] at he
    exact ⟨(hs.wf.event_lt he).1, hi.passed t f k d hk hpc he⟩

theorem KeepInv.started_kept (hwt : WaitInv s) (h : Step s a s') (hg : FailureKept s a)
    (hx : d ∈ (s'.queues q).handed ∨ d ∈ (s'.queues q).taken) :
    ∀ w ∈ (s'.events d).waitList, (s'.events w).status = clComplete := by
  suffices hold : d < s.nextEvent ∧ ∀ w ∈ (s.events d).waitList, (s.events w).status = clComplete by
    obtain ⟨hd, hold⟩ := hold
    intro w hw
    rw [(step_identity h hd).waitList] at hw
    exact hi.complete_step hs hl h hg ((hs.calls.event d hd).waitList w hw) (hold w hw)
  rcases hx with hx | hx
  · rcases handed_step h hs.wf.mutex hx with hx | ⟨f, k, hk, rfl, hpc, he⟩
    · exact ⟨(hs.wf.handed_lt hx).1, hi.started q d (.inl hx)⟩
    · exact ⟨(hs.wf.event_lt he).1, hi.passed _ f k d hk (.inr hpc) he⟩
  · rcases taken_step h hs.wf.mutex hx with hx | ⟨f, k, hk, rfl, hpc, he, hn, -⟩
    · exact ⟨(hs.wf.taken_lt hx).1, hi.started q d (.inr hx)⟩
    · exact ⟨(hs.wf.event_lt he).1, hi.tested_complete hs hwt hk hpc he hn⟩

end Keep

theorem keepInv_step (h : Step s a s') (hg : FailureKept s a) (hs : Sound s) (hl : LinkInv s)
    (hwt : WaitInv s) (hi : KeepInv s) : KeepInv s' where
  outcome := by
    intro x hx st hst
    by_cases hlt : x < s.nextEvent
    · rcases mem_statuses_step h hlt hst with hst | rfl
      · exact (hi.outcome x hlt st hst).trans (hi.outcome_step hs hl h hg hlt)
      · exact fun hle => ⟨hle, Iff.rfl⟩
    · intro hle
      have := new_event_statuses h hlt hx st hst
      omega
  failed := by
    intro d hd w hw hneg
    by_cases hlt : d < s.nextEvent
    · rw [(step_identity h hlt).waitList] at hw
      by_cases hold : (s.events w).status < 0
      · exact hi.failed_kept hs hl h hg hlt hw hold
      · exact (hi.failed_new hs hl hwt h hg hlt hw hold hneg).imp_right .inl
    · exact .inr (.inl (new_event_awaits h hlt hd hw))
  tested _ _ ht := hi.tested_step hs h hg ht
  submitting _ _ _ _ hk hpc he := hi.submitting_step hs hl h hk hpc he
  passed _ _ _ _ hk hpc he := hi.passed_step hs hl hwt h hg hk hpc he
  started _ _ hx := hi.started_kept hs hl hwt h hg hx

theorem keepInv_reachable (h : Reachable ((scheduler T).restrict FailureKept) s) : KeepInv s := by
  apply h.invariant
  · rintro _ ⟨o, rfl⟩
    constructor <;> simp [initial, Queue.empty, State.testing]
  · intro s a s' hr hi ht
    exact keepInv_step (step_cases ht.1) ht.2 (sound_reachable hr.of_restrict)
      (linkInv_reachable hr.of_restrict) (waitInv_reachable hr.of_restrict) hi

/-- A command with a failed dependency is never handed to the device. -/
theorem failed_dependency_not_executed (h : Reachable ((scheduler T).restrict FailureKept) s)
    (hw : w ∈ (s.events d).waitList) (hf : ∃ st ∈ (s.events w).statuses, st < 0) :
    d ∉ (s.queues q).handed := by
  intro hd
  have hs := sound_reachable h.of_restrict
  have hi := keepInv_reachable h
  have hwlt := (hs.calls.event d (hs.wf.handed_lt hd).1).waitList w hw
  obtain ⟨st, hst, hneg⟩ := hf
  have hfail := ((hi.outcome w hwlt st hst) (by omega)).2.mpr hneg
  rw [hi.started q d (.inl hd) w hw] at hfail
  exact absurd hfail (by decide)

/-- The only dependency of a read fails: the read is terminated and not executed. -/
theorem read_not_executed_after_failure :
    ∃ s : State Bool, Reachable ((scheduler Bool).restrict FailureKept) s ∧
      (s.events 1).waitList = [0] ∧ (s.events 0).status = -1 ∧ 1 ∈ (s.queues 0).queued ∧
      1 ∉ (s.queues 0).handed := by
  obtain ⟨s, hr, hc⟩ := exists_guarded_run FailureKept (fun _ => true)
    (List.flatten [[.createUserEvent true, .enqueue true .readBuffer 0 [0]], resumes true 13,
      [.setUserEventStatus true 0 (-1)], resumes true 9])
    (fun s => (s.events 1).waitList = [0] ∧ (s.events 0).status = -1 ∧
      -1 ∈ (s.events 0).statuses ∧ 1 ∈ (s.queues 0).queued) (by decide +kernel)
  obtain ⟨hw, hst, hmem, hq⟩ := of_decide_eq_true hc
  refine ⟨s, hr, hw, hst, hq, ?_⟩
  exact failed_dependency_not_executed hr (by simp [hw]) ⟨-1, hmem, by decide⟩

/-- The first of two dependencies fails and the second completes: the read is executed. -/
theorem read_executed_after_failure :
    ∃ s : State Bool, Reachable (scheduler Bool) s ∧ (s.events 2).waitList = [0, 1] ∧
      (s.events 0).status = -1 ∧ 2 ∈ (s.queues 0).handed := by
  obtain ⟨s, hr, hc⟩ := exists_run (fun _ => true)
    (List.flatten [
      [.createUserEvent true, .createUserEvent true, .enqueue true .readBuffer 0 [0, 1]],
      resumes true 16, [.setUserEventStatus true 0 (-1)], resumes true 3,
      [.setUserEventStatus true 1 0], resumes true 14])
    (fun s => (s.events 2).waitList = [0, 1] ∧ (s.events 0).status = -1 ∧
      2 ∈ (s.queues 0).handed) (by decide +kernel)
  exact ⟨s, hr, of_decide_eq_true hc⟩

end Shamrock.Scheduler
