import Shamrock.Scheduler.Edges
import Mathlib.Logic.Relation

/-! A failure reaches every event that depends on the failed one, as long as it can be passed on. -/
namespace Shamrock.Scheduler

open Transition

variable {T : Type} [DecidableEq T] {s s' : State T} {a : Action T} {q : QueueId}
  {d w x : EventId}

/-- `d` has `w` in its wait list, or depends on an event that depends on `w`. -/
def DependsOn (s : State T) : EventId → EventId → Prop :=
  Relation.TransGen fun d w => d < s.nextEvent ∧ w ∈ (s.events d).waitList

/-- The wait list for which thread `t` is about to create an event. -/
def State.constructing (s : State T) (t : T) : Option (List EventId) :=
  match s.threads t with
  | .check _ _ ws [] :: _ => some ws
  | _ => none

/-- The event that thread `t` is about to append to its queue. -/
def State.queueing (s : State T) (t : T) : Option EventId :=
  match s.threads t with
  | .queueEvent e :: _ => some e
  | _ => none

/-- The traversal is about to be left at the event `e` under its iterator: a second one in an
in-order queue, a barrier that is not the first, or a dummy event that has to wait or can be
completed. -/
def PushFrame.StopsAt (s : State T) (f : PushFrame) (e : EventId) : Prop :=
  f.pc = .examineError ∧ 0 ≤ (s.events e).status ∧ f.first = false ∧
      ((s.queues f.queue).outOfOrder = false ∨ (s.events e).type = .barrier) ∨
    f.pc = .examineWait ∧ ((s.events e).type = .waitForEvents ∨
      (s.events e).waitEvents = [] ∧ (s.events e).type.isInstantaneous = true)

instance {s : State T} {f : PushFrame} {e : EventId} : Decidable (f.StopsAt s e) :=
  inferInstanceAs (Decidable (_ ∨ _))

/-- Steps that pass a failure on. What fails is a user event and everything that lists it has
registered, or nothing lists it; nothing lists a dependent that is terminated; no event is
created for a wait list with a failed event or appended after it was terminated; and the
traversal for a terminated event is not left before that is removed. -/
def FailurePassedOn (s : State T) (a : Action T) : Prop :=
  FailureKept s a ∧
    match a with
    | .resume t _ =>
      (∀ f ∈ s.reporting t, f.status < 0 → ∀ d < s.nextEvent,
        f.event ∈ (s.events d).waitList → (s.events f.event).type = .user ∧
          d ∈ (s.events f.event).dependentEvents) ∧
      (∀ d ∈ s.terminating t, ∀ x < s.nextEvent, d ∉ (s.events x).waitList) ∧
      (∀ ws ∈ s.constructing t, ∀ w ∈ ws, 0 ≤ (s.events w).status) ∧
      (∀ e ∈ s.queueing t, 0 ≤ (s.events e).status) ∧
      (∀ f ∈ s.pushing t, ∀ d ∈ f.readyEvent, (s.events d).status < 0 →
        d ∈ (s.queues f.queue).events → ∀ e ∈ f.event (s.queues f.queue), ¬f.StopsAt s e)
    | _ => True

instance [Fintype T] (s : State T) (a : Action T) : Decidable (FailurePassedOn s a) :=
  match a with
  | .resume t g => inferInstanceAs (Decidable (FailureKept s (.resume t g) ∧
      (∀ f ∈ s.reporting t, f.status < 0 → ∀ d < s.nextEvent,
        f.event ∈ (s.events d).waitList → (s.events f.event).type = .user ∧
          d ∈ (s.events f.event).dependentEvents) ∧
      (∀ d ∈ s.terminating t, ∀ x < s.nextEvent, d ∉ (s.events x).waitList) ∧
      (∀ ws ∈ s.constructing t, ∀ w ∈ ws, 0 ≤ (s.events w).status) ∧
      (∀ e ∈ s.queueing t, 0 ≤ (s.events e).status) ∧
      (∀ f ∈ s.pushing t, ∀ d ∈ f.readyEvent, (s.events d).status < 0 →
        d ∈ (s.queues f.queue).events → ∀ e ∈ f.event (s.queues f.queue), ¬f.StopsAt s e)))
  | .createUserEvent _ | .setUserEventStatus .. | .setCallback .. | .enqueue .. | .flush ..
  | .finish .. | .deviceSetStatus .. => inferInstanceAs (Decidable (FailureKept s _ ∧ True))

/-- The guard on the step of a thread that is inside a call. -/
structure PassedOn (s : State T) (t : T) : Prop where
  reported : ∀ f ∈ s.reporting t, f.status < 0 → ∀ d < s.nextEvent,
    f.event ∈ (s.events d).waitList → (s.events f.event).type = .user ∧
      d ∈ (s.events f.event).dependentEvents
  terminated : ∀ d ∈ s.terminating t, ∀ x < s.nextEvent, d ∉ (s.events x).waitList
  constructed : ∀ ws ∈ s.constructing t, ∀ w ∈ ws, 0 ≤ (s.events w).status
  queued : ∀ e ∈ s.queueing t, 0 ≤ (s.events e).status
  reached : ∀ f ∈ s.pushing t, ∀ d ∈ f.readyEvent, (s.events d).status < 0 →
    d ∈ (s.queues f.queue).events → ∀ e ∈ f.event (s.queues f.queue), ¬f.StopsAt s e

theorem FailurePassedOn.of_top (hg : FailurePassedOn s a) (h : Step s a s') {f : Frame}
    {k : List Frame} (hk : s.threads a.actor = f :: k) : PassedOn s a.actor := by
  obtain ⟨g, ha⟩ := resume_of_top h hk
  rw [ha] at hg ⊢
  obtain ⟨-, h₁, h₂, h₃, h₄, h₅⟩ := hg
  exact ⟨h₁, h₂, h₃, h₄, h₅⟩

/-- A dependent keeps its place. -/
theorem dependents_getElem (h : Step s a s') (hw : w < s.nextEvent) {j : Nat}
    (hj : (s.events w).dependentEvents[j]? = some d) :
    (s'.events w).dependentEvents[j]? = some d := by
  have hev := step_event h w
  generalize s'.events w = ev at hev
  cases hev with
  | created hx _ => exact absurd hx (Nat.ne_of_lt hw)
  | @callback type c _ =>
    obtain ⟨l, m, hl⟩ := (s.events w).setCallback_eq type c
    rw [hl]
    exact hj
  | @dependent e _ _ _ hne =>
    rw [Event.addDependentEvent_of_ne hne]
    have hlt := (List.getElem?_eq_some_iff.mp hj).1
    exact (List.getElem?_append_left hlt).trans hj
  | _ => exact hj

/-- A loop for `w` is going to notify `d`. -/
def Notifying (s : State T) (w d : EventId) : Prop :=
  ∃ j : Nat, (s.events w).dependentEvents[j]? = some d ∧
    ∃ t, ∃ p ∈ loops w (s.threads t), p.1 ≤ j ∧ j < p.2

/-- The traversal is not past `d`. -/
def PushFrame.Ahead (s : State T) (f : PushFrame) (d : EventId) : Prop :=
  f.pc ≠ .leave ∧ (f.pc ≠ .acquire → ∀ j, (s.queues f.queue).events[j]? = some d →
    f.it ≤ j ∧ (f.pc.Acting → f.it < j))

/-- What the guard preserves: whatever lists a failed event has failed or is going to, no other
event lists a failed command, and a terminated command is removed before `setStatus` returns. -/
structure PassInv (s : State T) : Prop where
  failed : ∀ d, d < s.nextEvent → ∀ w ∈ (s.events d).waitList, (s.events w).status < 0 →
    d ∈ (s.events w).dependentEvents ∧ ((s.events d).status < 0 ∨
      (∃ t, s.terminating t = some d) ∨ Notifying s w d)
  last : ∀ w, w < s.nextEvent → (s.events w).status < 0 → (s.events w).parent ≠ none →
    ∀ d, d < s.nextEvent → w ∉ (s.events d).waitList
  removed : ∀ q d, d ∈ (s.queues q).events → (s.events d).status < 0 →
    d ∉ (s.queues q).handed → ∃ t f g k, s.threads t = .push f :: .setStatus g :: k ∧
      f.queue = q ∧ f.readyEvent = some d ∧ f.Ahead s d

/-- What a new event lists has not failed. -/
theorem FailurePassedOn.new_event (hg : FailurePassedOn s a) (h : Step s a s') (hs : Sound s)
    (hlt : ¬ d < s.nextEvent) (hd : d < s'.nextEvent) (hw : w ∈ (s'.events d).waitList) :
    w < s.nextEvent ∧ 0 ≤ (s'.events w).status := by
  cases h
  case createUserEvent =>
    have hd : d = s.nextEvent := Nat.le_antisymm (Nat.lt_succ_iff.mp hd) (not_lt.mp hlt)
    simp [hd, Event.userEvent] at hw
  case construct t g type q ws k hk =>
    have hd : d = s.nextEvent := Nat.le_antisymm (Nat.lt_succ_iff.mp hd) (not_lt.mp hlt)
    have hw : w ∈ ws := by simpa [hd, Event.command] using hw
    have hwlt := (hs.calls.head hk).2 w hw
    have hpass := (hg.of_top (.construct (g := g) hk) hk).constructed ws
      (by simp [State.constructing, hk]) w hw
    refine ⟨hwlt, ?_⟩
    simpa [Function.update_of_ne (Nat.ne_of_lt hwlt)] using hpass
  all_goals exact absurd hd hlt

/-- How an event can fail. -/
theorem newly_failed (h : Step s a s') (hw : w < s.nextEvent) (hold : 0 ≤ (s.events w).status)
    (hneg : (s'.events w).status < 0) : s.terminating a.actor = some w ∨
      ∃ f k, s.threads a.actor = .setStatus f :: k ∧ f.pc = .helper ∧ f.event = w ∧
        f.status < 0 := by
  have hst := step_status h hw
  generalize (s'.events w).status = st at hst hneg
  cases hst with
  | same => omega
  | submitted => exact absurd hneg (by decide)
  | reported hk hpc he => exact .inr ⟨_, _, hk, hpc, he, hneg⟩
  | terminated hk hpc => exact .inl (terminating_iff.mpr ⟨_, _, _, _, _, hk, hpc⟩)

section Pass

variable (h : Step s a s') (hg : FailurePassedOn s a) (hs : Sound s) (hl : LinkInv s)
  (hk : KeepInv s) (hi : PassInv s)
include h hg hs hl hk hi

/-- A terminated dependent has failed, or its loop has not got there. -/
theorem PassInv.failed_kept (hd : d < s.nextEvent) (hw : w ∈ (s.events d).waitList)
    (hneg : (s.events w).status < 0) : (s'.events d).status < 0 ∨
      (∃ t, s'.terminating t = some d) ∨ Notifying s' w d := by
  have hwlt := (hs.calls.event d hd).waitList w hw
  rcases (hi.failed d hd w hw hneg).2 with hst | ⟨t, ht⟩ | ⟨j, hj, t, p, hp, hle, hlt⟩
  · exact .inl (hk.failed_step hs hl h hg.1 hd hst)
  · by_cases hta : t = a.actor
    · subst hta
      obtain ⟨f, k, i, num, q, hstack, hpc⟩ := terminating_iff.mp ht
      cases status_next h hstack with
      | terminate hpc' =>
        obtain ⟨-, -, rfl, -⟩ := StatusPC.terminate.inj (hpc.symm.trans hpc')
        exact .inl (by simpa using (hs.report.failed hstack hpc).1)
      | _ => simp_all
    · exact .inr (.inl ⟨t, by rwa [terminating_of_ne h hta]⟩)
  · have hj' := dependents_getElem h hwlt hj
    by_cases hta : t = a.actor
    · subst hta
      have hstay : ∀ l, loops w (s'.threads a.actor) = l → p ∈ l → Notifying s' w d :=
        fun l hl' hp => ⟨j, hj', a.actor, p, hl' ▸ hp, hle, hlt⟩
      have hloops := step_loops h w
      generalize hl' : loops w (s'.threads a.actor) = l at hloops
      cases hloops with
      | same => exact .inr (.inr (hstay _ hl' hp))
      | started => exact .inr (.inr (hstay _ hl' (List.mem_cons_of_mem _ hp)))
      | @notified f i num k hstack hpc he hnum =>
        rw [hstack, loops_notify hpc, if_pos he] at hp
        rcases List.mem_cons.mp hp with rfl | hp
        · rcases Nat.eq_or_lt_of_le hle with rfl | hlt'
          · subst he
            exact .inr (.inl ⟨a.actor, hk.notified hs hl h hg.1 hstack hpc hnum hj hneg⟩)
          · refine .inr (.inr ⟨j, hj', a.actor, (i + 1, num), ?_, Nat.succ_le_of_lt hlt', hlt⟩)
            rw [hl']
            exact List.mem_cons_self
        · exact .inr (.inr (hstay _ hl' (List.mem_cons_of_mem _ hp)))
      | @ended f i num k hstack hpc he hnum =>
        rw [hstack, loops_notify hpc, if_pos he] at hp
        rcases List.mem_cons.mp hp with rfl | hp
        · dsimp only at hle hlt
          omega
        · exact .inr (.inr (hstay _ hl' hp))
    · exact .inr (.inr ⟨j, hj', t, p, by rwa [step_threads_of_ne h hta], hle, hlt⟩)

omit hl hk hi in
/-- What lists an event that fails has registered with it, and is going to be notified. -/
theorem failed_new (hd : d < s.nextEvent) (hw : w ∈ (s.events d).waitList)
    (hold : 0 ≤ (s.events w).status) (hneg : (s'.events w).status < 0) :
    d ∈ (s.events w).dependentEvents ∧ Notifying s' w d := by
  have hwlt := (hs.calls.event d hd).waitList w hw
  rcases newly_failed h hwlt hold hneg with ht | ⟨f, k, hstack, hpc, rfl, hst⟩
  · obtain ⟨f, k, i, num, q, hstack, -⟩ := terminating_iff.mp ht
    exact absurd hw ((hg.of_top h hstack).terminated w ht d hd)
  · obtain ⟨huser, hmem⟩ :=
      (hg.of_top h hstack).reported f (reporting_eq hstack hpc) hst d hd hw
    obtain ⟨j, hj⟩ := List.getElem?_of_mem hmem
    refine ⟨hmem, j, dependents_getElem h hwlt hj, a.actor, (0, _), ?_, Nat.zero_le j,
      (List.getElem?_eq_some_iff.mp hj).1⟩
    cases status_next h hstack with
    | helperNotify => simp [loops_cons, Frame.loop]
    | helperReturn _ hp => simp [Event.propagates, huser] at hp
    | _ => simp_all

theorem PassInv.failed_step (hd : d < s'.nextEvent) (hw : w ∈ (s'.events d).waitList)
    (hneg : (s'.events w).status < 0) : d ∈ (s'.events w).dependentEvents ∧
      ((s'.events d).status < 0 ∨ (∃ t, s'.terminating t = some d) ∨ Notifying s' w d) := by
  by_cases hlt : d < s.nextEvent
  · rw [(step_identity h hlt).waitList] at hw
    have hwlt := (hs.calls.event d hlt).waitList w hw
    by_cases hold : (s.events w).status < 0
    · refine ⟨dependents_mono h hwlt (hi.failed d hlt w hw hold).1, ?_⟩
      exact hi.failed_kept h hg hs hl hk hlt hw hold
    · obtain ⟨hmem, hnot⟩ := failed_new h hg hs hlt hw (not_lt.mp hold) hneg
      exact ⟨dependents_mono h hwlt hmem, .inr (.inr hnot)⟩
  · exact absurd hneg (not_lt.mpr (hg.new_event h hs hlt hd hw).2)

omit hl hk in
/-- Nothing lists a command that has failed. -/
theorem PassInv.last_step (hw : w < s'.nextEvent) (hneg : (s'.events w).status < 0)
    (hp : (s'.events w).parent ≠ none) (hd : d < s'.nextEvent) : w ∉ (s'.events d).waitList := by
  intro hmem
  by_cases hlt : d < s.nextEvent
  · rw [(step_identity h hlt).waitList] at hmem
    have hwlt := (hs.calls.event d hlt).waitList w hmem
    rw [(step_identity h hwlt).parent] at hp
    by_cases hold : (s.events w).status < 0
    · exact hi.last w hwlt hold hp d hlt hmem
    · rcases newly_failed h hwlt (not_lt.mp hold) hneg with ht | ⟨f, k, hstack, hpc, rfl, hst⟩
      · obtain ⟨f, k, i, num, q, hstack, -⟩ := terminating_iff.mp ht
        exact (hg.of_top h hstack).terminated w ht d hlt hmem
      · have huser :=
          ((hg.of_top h hstack).reported f (reporting_eq hstack hpc) hst d hlt hmem).1
        exact (hs.calls.event _ hwlt).parent hp huser
  · exact absurd hneg (not_lt.mpr (hg.new_event h hs hlt hd hmem).2)

end Pass

section Traversal

variable (h : Step s a s') (hg : FailurePassedOn s a) {f f' : PushFrame} {b : Bool}
  {k : List Frame} (hstack : s.threads a.actor = .push f :: k) (hr : f.readyEvent = some d)
  (hd : (s.events d).status < 0) (hmem : d ∈ (s.queues f.queue).events) (ha : f.Ahead s d)
include h hg hstack hr hd hmem ha

/-- A failed event is not left behind in the loop. -/
theorem ahead_moved (hm : PushMove (s.queues f.queue) s.events f f' b)
    (hq : (s'.queues f.queue).events = (s.queues f.queue).events) : f'.Ahead s' d := by
  have hstop := (hg.of_top h hstack).reached f (pushing_eq hstack) d hr hd hmem
  have hit := ha.2 (pushMove_inside hm).1
  have hnot : ∀ e, f.event (s.queues f.queue) = some e → 0 ≤ (s.events e).status → e ≠ d := by
    rintro e - h0 rfl
    omega
  unfold PushFrame.Ahead
  rw [pushMove_queue hm, hq]
  cases hm with
  | listEnd hpc he =>
    obtain ⟨j, hj⟩ := List.getElem?_of_mem hmem
    have hlt := (List.getElem?_eq_some_iff.mp hj).1
    have hlen := List.getElem?_eq_none_iff.mp he
    have := (hit j hj).1
    omega
  | notComplete =>
    refine ⟨by simp, fun _ j hj => ⟨(hit j hj).1, fun hact => ?_⟩⟩
    simp [PushPC.Acting] at hact
  | threshold _ _ _ hnone => cases hnone.symm.trans hr
  | notFirst hpc he h0 hf hor => exact absurd (.inl ⟨hpc, h0, hf, hor⟩) (hstop _ he)
  | candidate _ he h0 _ =>
    refine ⟨by simp, fun _ j hj => ⟨(hit j hj).1, fun _ => ?_⟩⟩
    refine Nat.lt_of_le_of_ne (hit j hj).1 ?_
    rintro rfl
    exact hnot _ he h0 (Option.some.inj (he.symm.trans hj))
  | readyScheduled hpc he _ hready =>
    obtain rfl := Option.some.inj (hready.symm.trans hr)
    exact absurd ((hit f.it he).2 (.inl hpc)) (Nat.lt_irrefl _)
  | scheduled hpc =>
    refine ⟨by simp, fun _ j hj => ⟨(hit j hj).2 (.inl hpc), fun hact => ?_⟩⟩
    simp [PushPC.Acting] at hact
  | isQueued hpc =>
    exact ⟨by simp, fun _ j hj => ⟨(hit j hj).1, fun _ => (hit j hj).2 (.inl hpc)⟩⟩
  | waitForEvents hpc he _ htype => exact absurd (.inr ⟨hpc, .inl htype⟩) (hstop _ he)
  | blocked hpc =>
    refine ⟨by simp, fun _ j hj => ⟨(hit j hj).2 (.inr (.inl hpc)), fun hact => ?_⟩⟩
    simp [PushPC.Acting] at hact
  | pushable hpc =>
    exact ⟨by simp, fun _ j hj => ⟨(hit j hj).1, fun _ => (hit j hj).2 (.inr (.inl hpc))⟩⟩

/-- The traversal for a failed event goes on until that is removed. -/
theorem ahead_actor : ∃ f', s'.threads a.actor = .push f' :: k ∧ f'.queue = f.queue ∧
    f'.readyEvent = some d ∧ f'.Ahead s' d := by
  have hstop := (hg.of_top h hstack).reached f (pushing_eq hstack) d hr hd hmem
  cases push_next h hstack with
  | returned _ _ _ hnone => cases hnone.symm.trans hr
  | entered =>
    refine ⟨{ f with pc := .examineComplete, it := 0, first := true, traversed := 0 }, by simp,
      rfl, hr, by simp, fun _ j _ => ⟨Nat.zero_le j, fun hact => ?_⟩⟩
    simp [PushPC.Acting] at hact
  | moved hm =>
    refine ⟨_, by simp, pushMove_queue hm, ?_, ahead_moved h hg hstack hr hd hmem ha hm ?_⟩
    · cases hm <;> exact hr
    · simp [Queue.setFlushed]
  | erased hpc =>
    have hpc' : f.pc ≠ .acquire := by rcases hpc with ⟨hpc, -⟩ | ⟨hpc, -⟩ <;> simp [hpc]
    refine ⟨{ f with pc := .examineComplete }, by simp, rfl, hr, by simp, fun _ j hj =>
      ⟨?_, fun hact => ?_⟩⟩
    · by_contra hlt
      rw [not_le] at hlt
      have hold : (s.queues f.queue).events[j]? = some d := by
        simpa [Queue.eraseTerminal, List.getElem?_eraseIdx, hlt] using hj
      exact absurd (ha.2 hpc' j hold).1 (not_le.mpr hlt)
    · simp [PushPC.Acting] at hact
  | taken hpc he hwait hin => exact absurd (.inr ⟨hpc, .inr ⟨hwait, hin⟩⟩) (hstop _ he)
  | submitted hpc =>
    have hit := ha.2 (by simp [hpc])
    refine ⟨{ f with pc := .handOver }, by simp, rfl, hr, by simp, fun _ j hj =>
      ⟨(hit j hj).1, fun _ => ?_⟩⟩
    exact (hit j hj).2 (.inr (.inr (.inl hpc)))
  | handed hpc =>
    refine ⟨{ f with pc := .examineComplete }, by simp, rfl, hr, by simp, fun _ j hj =>
      ⟨?_, fun hact => ?_⟩⟩
    · exact (ha.2 (by simp [hpc]) j (by simpa [Queue.pushEvent] using hj)).1
    · simp [PushPC.Acting] at hact
  | left hpc => exact absurd hpc ha.1

end Traversal

section Pass

variable (h : Step s a s') (hg : FailurePassedOn s a) (hs : Sound s) (hk : KeepInv s)
  (hi : PassInv s)
include h hg hs hk hi

omit hk in
/-- A failed event that stays in the list is still ahead of its traversal. -/
theorem PassInv.removed_kept (hd : d ∈ (s.queues q).events) (hneg : (s.events d).status < 0)
    (hnot : d ∉ (s.queues q).handed) : ∃ t f g k,
      s'.threads t = .push f :: .setStatus g :: k ∧ f.queue = q ∧ f.readyEvent = some d ∧
        f.Ahead s' d := by
  obtain ⟨t, f, g, k, hstack, rfl, hr, ha⟩ := hi.removed q d hd hneg hnot
  by_cases ht : t = a.actor
  · subst ht
    obtain ⟨f', hstack', hq, hr', ha'⟩ := ahead_actor h hg hstack hr hneg hd ha
    exact ⟨_, f', g, k, hstack', hq, hr', ha'⟩
  · refine ⟨t, f, g, k, by rwa [step_threads_of_ne h ht], rfl, hr, ha.1, fun hpc => ?_⟩
    obtain ⟨l, hq⟩ := step_queue_locked h hs.wf.mutex (hs.wf.mutex.of_push hstack hpc) ht
    rw [hq]
    exact ha.2 hpc

omit hg hk hi in
/-- An event that is in the list when it fails is terminated, unless the device has it. -/
theorem removed_new (hd : d ∈ (s.queues q).events) (hold : 0 ≤ (s.events d).status)
    (hneg : (s'.events d).status < 0) (hnot : d ∉ (s.queues q).handed) : ∃ t f g k,
      s'.threads t = .push f :: .setStatus g :: k ∧ f.queue = q ∧ f.readyEvent = some d ∧
        f.Ahead s' d := by
  obtain ⟨j, hj⟩ := List.getElem?_of_mem hd
  obtain ⟨hdlt, hp⟩ := hs.wf.event_lt hj
  rcases newly_failed h hdlt hold hneg with ht | ⟨f, k, hstack, hpc, rfl, hst⟩
  · obtain ⟨f, k, i, num, p, hstack, hpc⟩ := terminating_iff.mp ht
    obtain rfl : p = q := Option.some.inj ((hs.report.failed hstack hpc).2.2.symm.trans hp)
    cases status_next h hstack with
    | terminate hpc' =>
      obtain ⟨-, -, rfl, rfl⟩ := StatusPC.terminate.inj (hpc.symm.trans hpc')
      refine ⟨a.actor, _, _, k, Function.update_self .., rfl, rfl, ?_, fun hne => absurd rfl hne⟩
      simp [PushFrame.call]
    | _ => simp_all
  · rcases hs.report.started hs.calls hstack hpc hp with hm | hm
    · exact absurd hm.1 hnot
    · rw [hm.2] at hst
      exact absurd hst (by decide)

omit hk in
theorem PassInv.removed_step (hd : d ∈ (s'.queues q).events) (hneg : (s'.events d).status < 0)
    (hnot : d ∉ (s'.queues q).handed) : ∃ t f g k,
      s'.threads t = .push f :: .setStatus g :: k ∧ f.queue = q ∧ f.readyEvent = some d ∧
        f.Ahead s' d := by
  have hnot' : d ∉ (s.queues q).handed := fun hm => hnot (handed_mono h hs.wf.mutex q hm)
  by_cases hold : d ∈ (s.queues q).events
  · by_cases hst : (s.events d).status < 0
    · exact hi.removed_kept h hg hs hold hst hnot'
    · exact removed_new h hs hold (not_lt.mp hst) hneg hnot'
  · have hc := step_ledger h hs.wf.mutex q
    have hmem : d ∈ (s'.queues q).ledger.events := hd
    generalize (s'.queues q).ledger = l at hc hmem
    cases hc with
    | same | hand => exact absurd hmem hold
    | erase | take => exact absurd (List.mem_of_mem_eraseIdx hmem) hold
    | @append e k hstack hp =>
      rcases List.mem_append.mp hmem with hmem | hmem
      · exact absurd hmem hold
      · obtain rfl := List.mem_singleton.mp hmem
        have h0 := (hg.of_top h hstack).queued d (by simp [State.queueing, hstack])
        have hbuilds : Builds (s.threads a.actor) d := by simp [Builds, hstack, Frame.building]
        have hdlt := (hs.wf.owned.builds hbuilds).1
        rcases newly_failed h hdlt h0 hneg with ht | ⟨f, k, hstack', -⟩
        · obtain ⟨f, k, i, num, p, hstack', -⟩ := terminating_iff.mp ht
          cases hstack.symm.trans hstack'
        · cases hstack.symm.trans hstack'

theorem passInv_step (hl : LinkInv s) : PassInv s' where
  failed _ hd _ hw hneg := hi.failed_step h hg hs hl hk hd hw hneg
  last _ hw hneg hp _ hd := hi.last_step h hg hs hw hneg hp hd
  removed _ _ hd hneg hnot := hi.removed_step h hg hs hd hneg hnot

end Pass

theorem passInv_reachable (h : Reachable ((scheduler T).restrict FailurePassedOn) s) :
    PassInv s := by
  apply h.invariant
  · rintro _ ⟨o, rfl⟩
    constructor <;> simp [initial, Queue.empty]
  · intro s a s' hr hi ht
    have hsound := hr.of_restrict
    exact passInv_step (step_cases ht.1) ht.2 (sound_reachable hsound)
      (keepInv_reachable (hr.mono_guard fun _ _ hg => hg.1)) hi (linkInv_reachable hsound)

theorem mem_loops {k : List Frame} {p : Nat × Nat} (hp : p ∈ loops w k) :
    ∃ f, .setStatus f ∈ k := by
  obtain ⟨f, hf, hloop⟩ := List.mem_filterMap.mp hp
  cases f with
  | setStatus f => exact ⟨f, hf⟩
  | _ => cases hloop

omit [DecidableEq T] in
/-- Nothing depends on an event that has failed because of another one. -/
theorem PassInv.direct (hi : PassInv s) (hs : Sound s) (hl : LinkInv s)
    (hquiet : ∀ t f, .setStatus f ∉ s.threads t) (hd : DependsOn s d w)
    (hneg : (s.events w).status < 0) :
    d < s.nextEvent ∧ w ∈ (s.events d).waitList ∧ (s.events d).status < 0 := by
  have hone : ∀ d w, d < s.nextEvent → w ∈ (s.events d).waitList → (s.events w).status < 0 →
      d ∈ (s.events w).dependentEvents ∧ (s.events d).status < 0 := by
    intro d w hd hw hneg
    obtain ⟨hmem, hst | ⟨t, ht⟩ | ⟨j, -, t, p, hp, -⟩⟩ := hi.failed d hd w hw hneg
    · exact ⟨hmem, hst⟩
    · obtain ⟨f, k, i, num, q, hstack, -⟩ := terminating_iff.mp ht
      exact absurd (by simp [hstack]) (hquiet t f)
    · obtain ⟨f, hf⟩ := mem_loops hp
      exact absurd hf (hquiet t f)
  cases hd with
  | single h => exact ⟨h.1, h.2, (hone d w h.1 h.2 hneg).2⟩
  | @tail y _ hdy hyw =>
    -- `y` is terminated, and a chain of two would need something that lists it
    obtain ⟨hmem, hst⟩ := hone y w hyw.1 hyw.2 hneg
    obtain ⟨⟨q, hq⟩, -⟩ := hl.dependent ((hs.calls.event y hyw.1).waitList w hyw.2) hmem
    have hlast := hi.last y hyw.1 hst (by simp [hq])
    cases hdy with
    | single h => exact absurd h.2 (hlast d h.1)
    | @tail z _ _ hzy => exact absurd hzy.2 (hlast z hzy.1)

/-- When all calls of `setStatus` have returned, whatever depends on a failed event has failed and
is in no list. -/
theorem failure_propagates (h : Reachable ((scheduler T).restrict FailurePassedOn) s)
    (hquiet : ∀ t f, .setStatus f ∉ s.threads t) (hd : DependsOn s d w)
    (hneg : (s.events w).status < 0) :
    (s.events d).status < 0 ∧ ∀ q, d ∉ (s.queues q).events := by
  have hs := sound_reachable h.of_restrict
  have hi := passInv_reachable h
  obtain ⟨hlt, hmem, hst⟩ := hi.direct hs (linkInv_reachable h.of_restrict) hquiet hd hneg
  refine ⟨hst, fun q hq => ?_⟩
  have hwlt := (hs.calls.event d hlt).waitList w hmem
  have hnot := failed_dependency_not_executed (q := q) (h.mono_guard fun _ _ hg => hg.1) hmem
    ⟨_, (hs.calls.event w hwlt).status, hneg⟩
  obtain ⟨t, f, g, k, hstack, -⟩ := hi.removed q d hq hst hnot
  exact hquiet t g (by simp [hstack])

/-- A read that waits for a user event is terminated and removed. -/
theorem read_removed_after_failure :
    ∃ s : State Bool, (s.events 0).status = -1 ∧ (s.events 1).waitList = [0] ∧
      (s.events 1).status < 0 ∧ ∀ q, 1 ∉ (s.queues q).events := by
  obtain ⟨s, hr, hc⟩ := exists_guarded_run FailurePassedOn (fun _ => true)
    (List.flatten [[.createUserEvent true, .enqueue true .readBuffer 0 [0]], resumes true 13,
      [.setUserEventStatus true 0 (-1)], resumes true 9])
    (fun s => (s.events 0).status = -1 ∧ (s.events 1).waitList = [0] ∧ 1 < s.nextEvent ∧
      s.threads true = [] ∧ s.threads false = []) (by decide +kernel)
  obtain ⟨hst, hw, hlt, htrue, hfalse⟩ := of_decide_eq_true hc
  have hquiet : ∀ t f, .setStatus f ∉ s.threads t := by
    intro t f
    cases t <;> simp [htrue, hfalse]
  refine ⟨s, hst, hw, ?_⟩
  have hdep : DependsOn s 1 0 := .single ⟨hlt, by simp [hw]⟩
  exact failure_propagates hr hquiet hdep (by rw [hst]; decide)

/-- A chain of two reads behind a user event: the second one is left waiting. -/
theorem second_read_left_waiting : ¬∀ (s : State Bool) (d w : EventId),
    Reachable (scheduler Bool) s → (∀ t f, .setStatus f ∉ s.threads t) → DependsOn s d w →
      (s.events w).status < 0 → (s.events d).status < 0 ∧ ∀ q, d ∉ (s.queues q).events := by
  intro hall
  obtain ⟨s, hr, hc⟩ := exists_run (fun _ => true)
    (List.flatten [[.createUserEvent true, .enqueue true .readBuffer 0 [0]], resumes true 13,
      [.enqueue true .readBuffer 0 [1]], resumes true 17, [.setUserEventStatus true 0 (-1)],
      resumes true 13])
    (fun s => (s.events 0).status = -1 ∧ (s.events 1).waitList = [0] ∧
      (s.events 2).waitList = [1] ∧ (s.events 2).status = clQueued ∧ 2 < s.nextEvent ∧
      s.threads true = [] ∧ s.threads false = []) (by decide +kernel)
  obtain ⟨hst, hw, hw', hq, hlt, htrue, hfalse⟩ := of_decide_eq_true hc
  have hquiet : ∀ t f, .setStatus f ∉ s.threads t := by
    intro t f
    cases t <;> simp [htrue, hfalse]
  have hlt' : 1 < s.nextEvent := Nat.lt_trans (by decide) hlt
  have h21 : DependsOn s 2 1 := .single ⟨hlt, by simp [hw']⟩
  have hdepends : DependsOn s 2 0 := .tail h21 ⟨hlt', by simp [hw]⟩
  have h := (hall s 2 0 hr hquiet hdepends (by rw [hst]; decide)).1
  rw [hq] at h
  exact absurd h (by decide)

end Shamrock.Scheduler
