import Shamrock.Scheduler.Edges

/-! Every dependency is written down at both ends until the notification removes it. -/
namespace Shamrock.Scheduler

open Transition

variable {T : Type} [DecidableEq T] {s s' : State T} {a : Action T} {d e w x : EventId}
  {refs : List Reference} {p : Nat}

/-- How far the dependents of `e` have been processed. -/
inductive Position (s : State T) (e : EventId) : Nat → Prop
  | before : 0 < (s.events e).status → (∀ t, loops e (s.threads t) = []) → Position s e 0
  | running {t : T} {p : Nat} : (s.events e).status ≤ 0 →
      loops e (s.threads t) = [(p, (s.events e).dependentEvents.length)] →
      p ≤ (s.events e).dependentEvents.length →
      (∀ u, u ≠ t → loops e (s.threads u) = []) → Position s e p
  | after : (s.events e).status ≤ 0 → (∀ t, loops e (s.threads t) = []) →
      Position s e (s.events e).dependentEvents.length

/-- The edges from `e` when its first `p` dependents have been processed. -/
structure EdgesAt (s : State T) (refs : List Reference) (e : EventId) (p : Nat) : Prop where
  position : Position s e p
  waits : ∀ d, d < s.nextEvent → (Waits s d e ↔ d ∈ (s.events e).dependentEvents.drop p)
  taken : ∀ d, refs.count (.taken e d) = (s.events e).dependentEvents.count d
  released : ∀ d, refs.count (.released e d) = ((s.events e).dependentEvents.take p).count d

/-- A constructor registers with the events of its list under its own mutex. -/
def EdgeFrame (s : State T) : Frame → Prop
  | .register d _ | .appendWait d _ _ => (s.events d).stateMutex = true
  | _ => True

structure EdgeInv (s : State T) (refs : List Reference) : Prop where
  frame : ∀ t, ∀ f ∈ s.threads t, EdgeFrame s f
  pending : PendingInv s
  user : ∀ e, e < s.nextEvent → (s.events e).parent = none → (s.events e).status ≤ 0 →
    (s.events e).dependentEvents = []
  nodup : ∀ e, e < s.nextEvent → (s.events e).dependentEvents.Nodup
  edges : ∀ e, e < s.nextEvent → ∃ p, EdgesAt s refs e p
  refs : ∀ r ∈ refs, r.event < s.nextEvent

/-- A thread that runs a loop is the one the position speaks of. -/
theorem Position.of_mem (hp : Position s e p) {t : T} {i num : Nat} {l : List (Nat × Nat)}
    (hloop : loops e (s.threads t) = (i, num) :: l) :
    (s.events e).status ≤ 0 ∧ p = i ∧ num = (s.events e).dependentEvents.length ∧
      p ≤ (s.events e).dependentEvents.length ∧ l = [] ∧
      ∀ u, u ≠ t → loops e (s.threads u) = [] := by
  cases hp with
  | before _ hn => simp [hn t] at hloop
  | after _ hn => simp [hn t] at hloop
  | @running t' p hst hr hle hn =>
    by_cases htt : t = t'
    · subst htt
      rw [hr] at hloop
      cases hloop
      exact ⟨hst, rfl, rfl, hle, rfl, hn⟩
    · simp [hn t htt] at hloop

omit [DecidableEq T] in
theorem Position.of_pos (hp : Position s e p) (h0 : 0 < (s.events e).status) :
    p = 0 ∧ ∀ t, loops e (s.threads t) = [] := by
  cases hp with
  | before _ hn => exact ⟨rfl, hn⟩
  | running hst => omega
  | after hst => omega

section Edge

variable (hs : Sound s) (hl : LinkInv s) (hi : EdgeInv s refs)
include hs hl hi

/-- No dependent is terminated: a user event with dependents does not fail. -/
theorem EdgeInv.not_terminate {t : T} {f : StatusFrame} {k : List Frame} {i num : Nat}
    {q : QueueId} (hk : s.threads t = .setStatus f :: k) : f.pc ≠ .terminate i num d q := by
  intro hpc
  have hneg := (hs.report.failed hk hpc).1
  obtain ⟨hlt, hdep⟩ := hl.frame t (.setStatus f) (by simp [hk])
  obtain ⟨p, hp⟩ := hi.edges f.event hlt
  have hloop : loops f.event (s.threads t) = (i + 1, num) :: loops f.event k := by
    rw [hk, loops_terminate hpc, if_pos rfl]
    rfl
  rcases (hs.report.head hk).2.1 (by simp [hpc]) with hu | hc
  · have hp' : (s.events f.event).parent = none := by
      by_contra hp'
      exact (hs.calls.event _ hlt).parent hp' hu
    have hmem := hdep i num d q hpc
    rw [hi.user _ hlt hp' (hp.position.of_mem hloop).1] at hmem
    cases hmem
  · simp [hc] at hneg

omit [DecidableEq T] hl in
/-- An event about to be submitted is queued. -/
theorem EdgeInv.submitting {t : T} {f : PushFrame} {k : List Frame}
    (hk : s.threads t = .push f :: k) (hpc : f.pc = .submit)
    (he : f.event (s.queues f.queue) = some x) : (s.events x).status = clQueued := by
  obtain ⟨hlt, hp⟩ := hs.wf.event_lt he
  have hfresh := hs.hand.fresh _ _ _ _ hk (.inr (.inl hpc)) he
  have hnn := hi.pending f.queue x hlt hp hfresh (hs.wf.not_mem_taken he)
  rcases hs.start.examined hs.hand hs.wf hk (.inr hpc) he with hq | hq
  · exact hq
  · omega

omit hl in
/-- No other thread ends the construction of an event. -/
theorem EdgeInv.frame_of_ne (h : Step s a s') {t : T} (ht : t ≠ a.actor) {f : Frame}
    (hf : f ∈ s.threads t) : EdgeFrame s' f := by
  have hbuilt : ∀ {d}, Builds (s.threads t) d → (s.events d).stateMutex = true →
      (s'.events d).stateMutex = true := by
    intro d hb hold
    have hlt := (hs.wf.owned.builds hb).1
    have hev := step_event h d
    generalize s'.events d = ev at hev
    cases hev with
    | created hx _ => exact absurd hx (Nat.ne_of_lt hlt)
    | @callback type c _ =>
      obtain ⟨l, m, hc⟩ := (s.events d).setCallback_eq type c
      rw [hc]
      exact hold
    | @dependent e _ _ _ _ =>
      obtain ⟨l, hc⟩ := (s.events d).addDependentEvent_eq e
      rw [hc]
      exact hold
    | constructed hk =>
      have hb' : Builds (s.threads a.actor) d := by simp [hk, Frame.building]
      exact absurd (hs.wf.owned.unique hb hb') ht
    | _ => exact hold
  have hold := hi.frame t f hf
  cases f with
  | register d rest => exact hbuilt ⟨_, hf, rfl⟩ hold
  | appendWait d w rest => exact hbuilt ⟨_, hf, rfl⟩ hold
  | _ => trivial

omit [DecidableEq T] hs hl hi in
theorem edgeFrame_tail {f g : Frame} {k : List Frame} (hsh : StackShape (g :: k)) (hf : f ∈ k) :
    EdgeFrame s' f := by
  rcases stackShape_tail hsh f hf with hn | ⟨q, rfl⟩
  · cases f <;> first | exact hn.elim | trivial
  · trivial

omit hl in
theorem EdgeInv.frame_actor (h : Step s a s') : ∀ f ∈ s'.threads a.actor, EdgeFrame s' f := by
  have hsh := hs.wf.shape a.actor
  have hold := hi.frame a.actor
  cases h
  case createUserEvent t hk => simp [hk]
  case setCallback t _ _ _ hk _ => simp [hk]
  case enqueue => simp [EdgeFrame]
  case setUserEventStatus => simp [EdgeFrame]
  case deviceSetStatus => simp [EdgeFrame]
  case flush => simp [EdgeFrame]
  case finish => simp [EdgeFrame]
  all_goals
    simp only [actor_resume, State.setStack_threads, State.pushDependent_threads,
      Function.update_self, List.forall_mem_cons, *] at hold hsh ⊢
  case construct t g type q ws k hk =>
    refine ⟨?_, fun f hf => edgeFrame_tail hsh hf⟩
    split
    · trivial
    · rename_i hne
      simp [EdgeFrame, Event.command, hne]
  case addDependent t g d w rest k hk hst =>
    have hm : (s.events d).stateMutex = true := hold.1
    refine ⟨?_, fun f hf => edgeFrame_tail hsh hf⟩
    simp only [EdgeFrame, State.setStack_events, State.setEvent_events, Function.update_apply]
    split <;> simp_all [Event.addDependentEvent_of_ne]
  case addDependentRefused => exact ⟨hold.1, fun f hf => edgeFrame_tail hsh hf⟩
  case appendWait t g d w rest k hk =>
    have hm : (s.events d).stateMutex = true := hold.1
    refine ⟨?_, fun f hf => edgeFrame_tail hsh hf⟩
    simpa [EdgeFrame, Event.addWaitEvent] using hm
  all_goals first
    | exact fun f hf => edgeFrame_tail hsh hf
    | exact ⟨trivial, fun f hf => edgeFrame_tail hsh hf⟩
    | exact ⟨trivial, trivial, fun f hf => edgeFrame_tail hsh hf⟩

omit hs hl hi in
/-- A registration that goes through is one with an unfinished event, and the first. -/
theorem registering_ok (h : Step s a s') (hg : EdgesKept s a) {rest k}
    (hk : s.threads a.actor = .register d (e :: rest) :: k)
    (hst : (s.events e).status ≠ clComplete) :
    0 < (s.events e).status ∧ d ∉ (s.events e).dependentEvents := by
  obtain ⟨g, ha⟩ := resume_of_top h hk
  rw [ha] at hg
  exact (hg.2 (d, e) (by simp [State.registering, hk])).resolve_left hst

omit hs hl hi in
theorem dependents_eq_of_terminal (h : Step s a s') (hg : EdgesKept s a) (he : e < s.nextEvent)
    (hst : (s.events e).status ≤ 0) :
    (s'.events e).dependentEvents = (s.events e).dependentEvents := by
  cases step_edge h he with
  | quiet hse => exact hse.dependents
  | registered hk hne =>
    have := (registering_ok h hg hk hne).1
    omega
  | started _ _ _ _ hse => exact hse.dependents
  | notified _ _ _ _ _ _ hdep => exact hdep
  | ended _ _ _ _ hse => exact hse.dependents

omit hs hl hi in
theorem helper_next (h : Step s a s') {f : StatusFrame} {k : List Frame}
    (hk : s.threads a.actor = .setStatus f :: k) (hpc : f.pc = .helper) :
    (s.events f.event).propagates f.status = true ∧
        s' = (s.setEvent f.event ((s.events f.event).setStatusHelper f.status)).setStack a.actor
          (.setStatus { f with pc := .notify 0 (s.events f.event).dependentEvents.length } :: k) ∨
      (s.events f.event).propagates f.status = false ∧
        s' = (s.setEvent f.event ((s.events f.event).setStatusHelper f.status)).setStack
          a.actor k := by
  cases status_next h hk with
  | helperNotify _ hp => exact .inl ⟨hp, rfl⟩
  | helperReturn _ hp => exact .inr ⟨hp, rfl⟩
  | notifyBlocked hpc' => simp [hpc] at hpc'
  | notifyReady hpc' => simp [hpc] at hpc'
  | notifyFailed hpc' => simp [hpc] at hpc'
  | terminate hpc' => simp [hpc] at hpc'
  | notifyReturn hpc' => simp [hpc] at hpc'
  | notifyPush hpc' => simp [hpc] at hpc'

theorem EdgeInv.user_step (h : Step s a s') (hg : EdgesKept s a) (he : e < s'.nextEvent)
    (hp : (s'.events e).parent = none) (hle : (s'.events e).status ≤ 0) :
    (s'.events e).dependentEvents = [] := by
  by_cases hlt : e < s.nextEvent
  · rw [(step_identity h hlt).parent] at hp
    have hst := step_status h hlt
    generalize (s'.events e).status = st at hst hle
    cases hst with
    | same => rw [dependents_eq_of_terminal h hg hlt hle, hi.user e hlt hp hle]
    | submitted hk hpc hx => simp [(hs.wf.event_lt hx).2] at hp
    | @reported f k hk hpc hfe =>
      subst hfe
      obtain ⟨g, ha⟩ := resume_of_top h hk
      have hnil : (s.events f.event).dependentEvents = [] := by
        rw [ha] at hg
        exact (hg.1 f (reporting_eq hk hpc)).2 (.inr hp)
      rcases helper_next h hk hpc with ⟨-, rfl⟩ | ⟨-, rfl⟩
      · simpa using hnil
      · simpa using hnil
    | terminated hk hpc => exact absurd hpc (hi.not_terminate hs hl hk)
  · exact (new_event_links h hlt he).1

omit hs hl in
theorem EdgeInv.nodup_step (h : Step s a s') (hg : EdgesKept s a) (he : e < s'.nextEvent) :
    (s'.events e).dependentEvents.Nodup := by
  by_cases hlt : e < s.nextEvent
  · have hnd := hi.nodup e hlt
    cases step_edge h hlt with
    | quiet hse => rwa [hse.dependents]
    | registered hk hst hdep =>
      rw [hdep]
      have hnot := (registering_ok h hg hk hst).2
      exact List.nodup_append_comm.mp (List.nodup_cons.mpr ⟨hnot, hnd⟩)
    | started _ _ _ _ hse => rwa [hse.dependents]
    | notified _ _ _ _ _ _ hdep => rwa [hdep]
    | ended _ _ _ _ hse => rwa [hse.dependents]
  · rw [(new_event_links h hlt he).1]
    exact List.nodup_nil

omit hs hl hi in
theorem loops_of_ne (h : Step s a s') {u : T} (hu : u ≠ a.actor) :
    loops e (s'.threads u) = loops e (s.threads u) := by
  rw [step_threads_of_ne h hu]

omit hs hl hi in
theorem count_noted_of_ne {note : Option Reference} (hn : ∀ r ∈ note, r.event ≠ e) {r : Reference}
    (hr : r.event = e) : (refs ++ note.toList).count r = refs.count r := by
  cases note with
  | none => simp
  | some r' =>
    have hne : r' ≠ r := by
      rintro rfl
      exact hn r' rfl hr
    simp [hne]

omit [DecidableEq T] hl hi in
/-- A completed event notifies its dependents. -/
theorem not_propagates_complete {t : T} {f : StatusFrame} {k : List Frame}
    (hk : s.threads t = .setStatus f :: k) (hpc : f.pc = .helper)
    (hn : (s.events f.event).propagates f.status = false) : f.status ≠ clComplete := by
  intro hc
  simp only [Event.propagates, hc, Bool.or_eq_false_iff, decide_eq_false_iff_not,
    Bool.and_eq_false_iff, or_false, decide_true, Bool.true_eq_false] at hn
  rcases (hs.report.head hk).1 hpc with ⟨hu, -⟩ | ⟨q, hq, -⟩
  · exact hn.1 hu
  · simp [hq] at hn

/-- A step that leaves the edges and loops of `e` alone leaves its position. -/
theorem EdgeInv.position_quiet (h : Step s a s') (hg : EdgesKept s a) (he : e < s.nextEvent)
    (hse : SameEdges s s' e) (hloop : ∀ t, loops e (s'.threads t) = loops e (s.threads t))
    (hp : Position s e p) : Position s' e p := by
  have hkeep : (0 < (s'.events e).status ↔ 0 < (s.events e).status) → Position s' e p := by
    intro hpos
    cases hp with
    | before h0 hn => exact .before (hpos.mpr h0) fun t => (hloop t).trans (hn t)
    | @running t p hst hr hle hn =>
      rw [← hse.dependents] at hr hle
      refine .running (t := t) (by omega) ((hloop t).trans hr) hle fun u hu => ?_
      exact (hloop u).trans (hn u hu)
    | after hst hn =>
      rw [← hse.dependents]
      exact .after (by omega) fun t => (hloop t).trans (hn t)
  have hst := step_status h he
  generalize hst' : (s'.events e).status = st at hst hkeep
  cases hst with
  | same => exact hkeep Iff.rfl
  | submitted hk hpc hx =>
    rw [hi.submitting hs hk hpc hx] at hkeep
    exact hkeep (by decide)
  | @reported f k hk hpc hfe =>
    subst hfe
    obtain ⟨g, ha⟩ := resume_of_top h hk
    rw [ha] at hg
    obtain ⟨hpos, hfail⟩ := hg.1 f (reporting_eq hk hpc)
    by_cases h0 : 0 < f.status
    · exact hkeep ⟨fun _ => hpos, fun _ => h0⟩
    · -- a command failed: it has no dependents
      obtain ⟨rfl, hn⟩ := hp.of_pos hpos
      have hprop : (s.events f.event).propagates f.status = false := by
        have hloop' := hloop a.actor
        rw [hn a.actor] at hloop'
        rcases helper_next h hk hpc with ⟨-, rfl⟩ | ⟨hprop, -⟩
        · simp [loops_cons, Frame.loop] at hloop'
        · exact hprop
      have hneg : f.status < 0 := by
        have hne := not_propagates_complete hs hk hpc hprop
        unfold clComplete at hne
        omega
      have hnil : (s.events f.event).dependentEvents = [] := hfail (.inl hneg)
      have hlen : 0 = (s'.events f.event).dependentEvents.length := by
        rw [hse.dependents, hnil]
        rfl
      rw [hlen]
      exact .after (by omega) fun t => (hloop t).trans (hn t)
  | terminated hk hpc => exact absurd hpc (hi.not_terminate hs hl hk)

omit [DecidableEq T] hs hl hi in
/-- No event that is new waits for `e`. -/
theorem edgesAt_of_old {refs' : List Reference}
    (hn : ∀ x, x < s'.nextEvent → ¬ x < s.nextEvent →
      ¬ Waits s' x e ∧ x ∉ (s'.events e).dependentEvents) (hposition : Position s' e p)
    (hwaits : ∀ x, x < s.nextEvent →
      (Waits s' x e ↔ x ∈ (s'.events e).dependentEvents.drop p))
    (htaken : ∀ d, refs'.count (.taken e d) = (s'.events e).dependentEvents.count d)
    (hreleased : ∀ d, refs'.count (.released e d) =
      ((s'.events e).dependentEvents.take p).count d) : EdgesAt s' refs' e p where
  position := hposition
  waits x hx := by
    by_cases hlt : x < s.nextEvent
    · exact hwaits x hlt
    · obtain ⟨hw, hd⟩ := hn x hx hlt
      exact ⟨fun h => absurd h hw, fun h => absurd (List.mem_of_mem_drop h) hd⟩
  taken := htaken
  released := hreleased

/-- Only traversals and helpers write a status. -/
theorem EdgeInv.status_kept (h : Step s a s') (he : e < s.nextEvent)
    (hpush : ∀ f k, s.threads a.actor ≠ .push f :: k)
    (hreport : ∀ f k, s.threads a.actor = .setStatus f :: k → f.pc ≠ .helper) :
    (s'.events e).status = (s.events e).status := by
  have hst := step_status h he
  generalize (s'.events e).status = st at hst
  cases hst with
  | same => rfl
  | submitted hk => exact absurd hk (hpush _ _)
  | reported hk hpc => exact absurd hpc (hreport _ _ hk)
  | terminated hk hpc => exact absurd hpc (hi.not_terminate hs hl hk)

omit [DecidableEq T] hs hl in
/-- The mutex of `d` is free, so its constructor does not wait to append. -/
theorem EdgeInv.not_appending (hm : (s.events d).stateMutex = false) (t : T) :
    (d, e) ∉ appendings (s.threads t) := by
  intro hmem
  obtain ⟨g, hg, happ⟩ := List.mem_filterMap.mp hmem
  cases g with
  | appendWait d' w rest =>
    cases happ
    have hlock := hi.frame t _ hg
    rw [EdgeFrame, hm] at hlock
    cases hlock
  | _ => cases happ

/-- The edges after a dependent has been taken. -/
theorem EdgeInv.registered_kept (h : Step s a s') (hg : EdgesKept s a) (he : e < s.nextEvent)
    (hn : ∀ x, x < s'.nextEvent → ¬ x < s.nextEvent →
      ¬ Waits s' x e ∧ x ∉ (s'.events e).dependentEvents) (hp : EdgesAt s refs e p)
    {rest : List EventId} {k : List Frame} (hk : s.threads a.actor = .register d (e :: rest) :: k)
    (hst : (s.events e).status ≠ clComplete)
    (hdep : (s'.events e).dependentEvents = (s.events e).dependentEvents ++ [d])
    (hw : ∀ x, x < s.nextEvent → (Waits s' x e ↔ Waits s x e ∨ x = d))
    (hloop : loops e (s'.threads a.actor) = loops e (s.threads a.actor))
    (hnote : s.noted a = some (.taken e d)) :
    EdgesAt s' (refs ++ (s.noted a).toList) e 0 := by
  have hpos := (registering_ok h hg hk hst).1
  obtain ⟨rfl, hnone⟩ := hp.position.of_pos hpos
  have hst' : (s'.events e).status = (s.events e).status :=
    hi.status_kept hs hl h he (by simp [hk]) (by simp [hk])
  refine edgesAt_of_old hn (.before (by omega) fun t => ?_) (fun x hx => ?_) (fun c => ?_)
    fun c => ?_
  · by_cases ht : t = a.actor
    · rw [ht, hloop, hnone]
    · rw [loops_of_ne h ht, hnone]
  · rw [hw x hx, hp.waits x hx, hdep]
    simp
  · rw [hnote, hdep, List.count_append, List.count_append, hp.taken]
    by_cases hc : d = c <;> simp [hc]
  · rw [hnote, List.count_append, hp.released]
    simp

omit hl hi in
/-- The edges after the helper of `f` has begun its loop. -/
theorem started_kept (h : Step s a s') (hg : EdgesKept s a) {f : StatusFrame}
    (hn : ∀ x, x < s'.nextEvent → ¬ x < s.nextEvent →
      ¬ Waits s' x f.event ∧ x ∉ (s'.events f.event).dependentEvents)
    (hp : EdgesAt s refs f.event p) {k : List Frame}
    (hk : s.threads a.actor = .setStatus f :: k) (hpc : f.pc = .helper)
    (hprop : (s.events f.event).propagates f.status = true) (hse : SameEdges s s' f.event)
    (hst : (s'.events f.event).status = f.status)
    (hloop : loops f.event (s'.threads a.actor) =
      (0, (s.events f.event).dependentEvents.length) :: loops f.event (s.threads a.actor))
    (hnote : s.noted a = none) :
    EdgesAt s' (refs ++ (s.noted a).toList) f.event 0 := by
  obtain ⟨g, ha⟩ := resume_of_top h hk
  have hpos : 0 < (s.events f.event).status := by
    rw [ha] at hg
    exact (hg.1 f (reporting_eq hk hpc)).1
  obtain ⟨rfl, hnone⟩ := hp.position.of_pos hpos
  have hle : f.status ≤ 0 := propagates_terminal hprop (hs.calls.head hk).2.1
  refine edgesAt_of_old hn
    (.running (t := a.actor) (by omega) ?_ (Nat.zero_le _) fun t ht => ?_)
    (fun x hx => ?_) (fun d => ?_) fun d => ?_
  · rw [hloop, hnone, hse.dependents]
  · rw [loops_of_ne h ht, hnone]
  · rw [hse.waits x hx, hse.dependents, hp.waits x hx]
  · simp [hnote, hse.dependents, hp.taken]
  · simp [hnote, hp.released]

/-- The edges after the loop has released the dependent at its position. -/
theorem EdgeInv.notified_kept (h : Step s a s') {f : StatusFrame} (he : f.event < s.nextEvent)
    (hn : ∀ x, x < s'.nextEvent → ¬ x < s.nextEvent →
      ¬ Waits s' x f.event ∧ x ∉ (s'.events f.event).dependentEvents)
    (hp : EdgesAt s refs f.event p) {i num : Nat} {k : List Frame}
    (hk : s.threads a.actor = .setStatus f :: k) (hpc : f.pc = .notify i num) (hlt : i < num)
    (hd : (s.events f.event).dependentEvents[i]? = some d)
    (hm : (s.events d).stateMutex = false)
    (hdep : (s'.events f.event).dependentEvents = (s.events f.event).dependentEvents)
    (hwait : ∀ x, f.event ∈ (s'.events x).waitEvents ↔
      f.event ∈ (s.events x).waitEvents ∧ x ≠ d)
    (happ : ∀ t, appendings (s'.threads t) = appendings (s.threads t))
    (hloop : loops f.event (s'.threads a.actor) = (i + 1, num) :: loops f.event k)
    (hnote : s.noted a =
      (if (s.events f.event).parent.isSome then some (.released f.event d) else none)) :
    EdgesAt s' (refs ++ (s.noted a).toList) f.event (p + 1) := by
  have hold : loops f.event (s.threads a.actor) = (i, num) :: loops f.event k := by
    rw [hk, loops_notify hpc, if_pos rfl]
    rfl
  obtain ⟨hst, rfl, rfl, hle, hnil, hother⟩ := hp.position.of_mem hold
  have hdrop : (s.events f.event).dependentEvents.drop p =
      d :: (s.events f.event).dependentEvents.drop (p + 1) := by
    obtain ⟨hlt, rfl⟩ := List.getElem?_eq_some_iff.mp hd
    exact List.drop_eq_getElem_cons hlt
  have hnd : d ∉ (s.events f.event).dependentEvents.drop (p + 1) := by
    have := (List.drop_sublist p _).nodup (hi.nodup _ he)
    rw [hdrop] at this
    exact (List.nodup_cons.mp this).1
  have hparent : (s.events f.event).parent.isSome = true := by
    rw [Option.isSome_iff_ne_none]
    intro hnone
    have hmem : d ∈ (s.events f.event).dependentEvents := List.mem_of_getElem? hd
    rw [hi.user _ he hnone hst] at hmem
    cases hmem
  rw [hparent, if_pos rfl] at hnote
  refine edgesAt_of_old hn (.running (t := a.actor) ?_ ?_ ?_ fun t ht => ?_) (fun x hx => ?_)
    (fun c => ?_) fun c => ?_
  · rwa [hi.status_kept hs hl h he (by simp [hk]) (by simp [hk, hpc])]
  · rw [hloop, hnil, hdep]
  · rw [hdep]
    omega
  · rw [loops_of_ne h ht, hother t ht]
  · have hold := hp.waits x hx
    rw [hdrop, List.mem_cons] at hold
    rw [hdep]
    unfold Waits at hold ⊢
    simp only [happ]
    rw [hwait x]
    constructor
    · rintro (⟨hw, hxd⟩ | ⟨t, ht⟩)
      · exact (hold.mp (.inl hw)).resolve_left hxd
      · rcases hold.mp (.inr ⟨t, ht⟩) with rfl | hx'
        · exact absurd ht (hi.not_appending hm t)
        · exact hx'
    · intro hx'
      have hxd : x ≠ d := by
        rintro rfl
        exact hnd hx'
      exact (hold.mpr (.inr hx')).imp_left fun hw => ⟨hw, hxd⟩
  · rw [hnote, hdep, List.count_append, hp.taken]
    simp
  · have htake : (s.events f.event).dependentEvents.take (p + 1) =
        (s.events f.event).dependentEvents.take p ++ [d] := by
      rw [List.take_add_one, hd]
      rfl
    rw [hnote, hdep, htake, List.count_append, List.count_append, hp.released]
    by_cases hc : d = c <;> simp [hc]

/-- The edges after the loop has ended. -/
theorem EdgeInv.ended_kept (h : Step s a s') {f : StatusFrame} (he : f.event < s.nextEvent)
    (hn : ∀ x, x < s'.nextEvent → ¬ x < s.nextEvent →
      ¬ Waits s' x f.event ∧ x ∉ (s'.events f.event).dependentEvents)
    (hp : EdgesAt s refs f.event p) {i num : Nat} {k : List Frame}
    (hk : s.threads a.actor = .setStatus f :: k) (hpc : f.pc = .notify i num) (hle : num ≤ i)
    (hse : SameEdges s s' f.event) (hloop : loops f.event (s'.threads a.actor) = loops f.event k)
    (hnote : s.noted a = none) :
    EdgesAt s' (refs ++ (s.noted a).toList) f.event p := by
  have hold : loops f.event (s.threads a.actor) = (i, num) :: loops f.event k := by
    rw [hk, loops_notify hpc, if_pos rfl]
    rfl
  obtain ⟨hst, rfl, rfl, hlen, hnil, hother⟩ := hp.position.of_mem hold
  refine edgesAt_of_old hn ?_ (fun x hx => ?_) (fun d => ?_) fun d => ?_
  · have hend : p = (s'.events f.event).dependentEvents.length := by
      rw [hse.dependents]
      omega
    rw [hend]
    refine .after ?_ fun t => ?_
    · rwa [hi.status_kept hs hl h he (by simp [hk]) (by simp [hk, hpc])]
    · by_cases ht : t = a.actor
      · rw [ht, hloop, hnil]
      · rw [loops_of_ne h ht, hother t ht]
  · rw [hse.waits x hx, hse.dependents, hp.waits x hx]
  · simp [hnote, hse.dependents, hp.taken]
  · simp [hnote, hse.dependents, hp.released]

/-- The position moves only if the loop does; the rest of the edges follows. -/
theorem EdgeInv.edges_kept (h : Step s a s') (hg : EdgesKept s a) (he : e < s.nextEvent)
    (hn : ∀ x, x < s'.nextEvent → ¬ x < s.nextEvent →
      ¬ Waits s' x e ∧ x ∉ (s'.events e).dependentEvents)
    (hp : EdgesAt s refs e p) : ∃ p, EdgesAt s' (refs ++ (s.noted a).toList) e p := by
  cases step_edge h he with
  | quiet hse hloop hnote =>
    have hloops : ∀ t, loops e (s'.threads t) = loops e (s.threads t) := by
      intro t
      by_cases ht : t = a.actor
      · rw [ht, hloop]
      · exact loops_of_ne h ht
    refine ⟨p, edgesAt_of_old hn (hi.position_quiet hs hl h hg he hse hloops hp.position)
      (fun x hx => ?_) (fun d => ?_) fun d => ?_⟩
    · rw [hse.waits x hx, hse.dependents, hp.waits x hx]
    · rw [count_noted_of_ne hnote rfl, hse.dependents, hp.taken]
    · rw [count_noted_of_ne hnote rfl, hse.dependents, hp.released]
  | registered hk hst hdep hw hloop hnote =>
    exact ⟨0, hi.registered_kept hs hl h hg he hn hp hk hst hdep hw hloop hnote⟩
  | started hk hpc hfe hprop hse hst hloop hnote =>
    subst hfe
    exact ⟨0, started_kept hs h hg hn hp hk hpc hprop hse hst hloop hnote⟩
  | notified hk hpc hfe hlt hd hm hdep hwait happ hloop hnote =>
    subst hfe
    exact ⟨p + 1, hi.notified_kept hs hl h he hn hp hk hpc hlt hd hm hdep hwait happ hloop hnote⟩
  | ended hk hpc hfe hle hse hloop hnote =>
    subst hfe
    exact ⟨p, hi.ended_kept hs hl h he hn hp hk hpc hle hse hloop hnote⟩

omit hl in
/-- A new event has no edges. -/
theorem EdgeInv.edges_new (h : Step s a s') (hl' : LinkInv s') (hlt : ¬ e < s.nextEvent)
    (he : e < s'.nextEvent) : ∃ p, EdgesAt s' (refs ++ (s.noted a).toList) e p := by
  have hdep := (new_event_links h hlt he).1
  have hframe : ∀ t, loops e (s.threads t) = [] := by
    intro t
    rw [loops, List.filterMap_eq_nil_iff]
    intro f hf
    cases f with
    | setStatus f =>
      have hne : f.event ≠ e := Nat.ne_of_lt (Nat.lt_of_lt_of_le (hs.calls.frame t _ hf).1
        (not_lt.mp hlt))
      simp [Frame.loop, hne]
    | _ => rfl
  have hloops : ∀ t, loops e (s'.threads t) = [] := by
    intro t
    by_cases ht : t = a.actor
    · subst ht
      have hold := hframe a.actor
      cases h
      case createUserEvent => exact hold
      case construct hk =>
        simp only [actor_resume, State.setStack_threads, Function.update_self] at hold ⊢
        rw [hk, loops_cons] at hold
        rw [loops_cons]
        split <;> exact hold
      all_goals exact absurd he hlt
    · rw [loops_of_ne h ht, hframe]
  have hnote : s.noted a = none := by
    cases h
    case createUserEvent => rfl
    case construct hk => simp [State.noted, hk]
    all_goals exact absurd he hlt
  have hcount : ∀ r : Reference, r.event = e → refs.count r = 0 := by
    intro r hr
    rw [List.count_eq_zero]
    intro hmem
    exact hlt (hr ▸ hi.refs r hmem)
  refine ⟨0, .before (new_event_history h hlt he).2 hloops,
    fun d hd => ?_, fun d => ?_, fun d => ?_⟩
  · rw [hdep]
    constructor
    · rintro (hw | ⟨t, ht⟩)
      · have hmem := (hl'.waiting hd hw).2
        rw [hdep] at hmem
        cases hmem
      · obtain ⟨f, hf, happ⟩ := List.mem_filterMap.mp ht
        cases f with
        | appendWait d' w rest =>
          cases happ
          have hmem := (hl'.frame t _ hf).2.2.2
          rw [hdep] at hmem
          cases hmem
        | _ => cases happ
    · exact fun h => by cases h
  · rw [hnote, hdep, Option.toList_none, List.append_nil]
    exact hcount _ rfl
  · rw [hnote, hdep, Option.toList_none, List.append_nil]
    exact hcount _ rfl

omit hi in
/-- No event waits for `e` that was not there to be registered with it. -/
theorem no_new_edge (h : Step s a s') (hl' : LinkInv s') (he : e < s.nextEvent)
    (hlt : ¬ x < s.nextEvent) (hx : x < s'.nextEvent) :
    ¬ Waits s' x e ∧ x ∉ (s'.events e).dependentEvents := by
  have hdep : x ∉ (s'.events e).dependentEvents := by
    intro hd
    rcases dependents_step h he hd with hd | ⟨rest, k, hk⟩
    · exact hlt ((hs.calls.event e he).dependents x hd)
    · exact hlt (hl.frame a.actor (.register x (e :: rest)) (by simp [hk])).1
  refine ⟨?_, hdep⟩
  rintro (hw | ⟨t, ht⟩)
  · exact hdep (hl'.waiting hx hw).2
  · obtain ⟨f, hf, happ⟩ := List.mem_filterMap.mp ht
    cases f with
    | appendWait d' w rest =>
      cases happ
      exact hdep (hl'.frame t _ hf).2.2.2
    | _ => cases happ

omit [DecidableEq T] hi in
/-- A note speaks of an event that exists. -/
theorem noted_lt {r : Reference} (hr : s.noted a = some r) : r.event < s.nextEvent := by
  cases a with
  | resume t g =>
    simp only [State.noted] at hr
    split at hr
    · rename_i d w rest k hk
      split at hr
      · cases hr
      · cases hr
        obtain ⟨hlt, hsub⟩ := hl.frame t (.register d (w :: rest)) (by simp [hk])
        exact (hs.calls.event d hlt).waitList w (hsub List.mem_cons_self)
    · rename_i f k hk
      have hlt : f.event < s.nextEvent := (hs.calls.head hk).1
      split at hr
      · split at hr
        · obtain ⟨d, -, rfl⟩ := Option.map_eq_some_iff.mp hr
          exact hlt
        · cases hr
      · cases hr
    · cases hr
  | _ => cases hr

theorem edgeInv_step (h : Step s a s') (hg : EdgesKept s a) (hl' : LinkInv s') :
    EdgeInv s' (refs ++ (s.noted a).toList) where
  frame t f hf := by
    by_cases ht : t = a.actor
    · subst ht
      exact hi.frame_actor hs h f hf
    · rw [step_threads_of_ne h ht] at hf
      exact hi.frame_of_ne hs h ht hf
  pending := pendingInv_step h hs (fun hk => hi.not_terminate hs hl hk) hi.pending
  user _ he := hi.user_step hs hl h hg he
  nodup _ he := hi.nodup_step h hg he
  edges e he := by
    by_cases hlt : e < s.nextEvent
    · obtain ⟨p, hp⟩ := hi.edges e hlt
      exact hi.edges_kept hs hl h hg hlt (fun x hx hlx => no_new_edge hs hl h hl' hlt hlx hx) hp
    · exact hi.edges_new hs h hl' hlt he
  refs r hr := by
    have hn := step_nextEvent h
    rcases List.mem_append.mp hr with hr | hr
    · exact Nat.lt_of_lt_of_le (hi.refs r hr) hn
    · exact Nat.lt_of_lt_of_le (noted_lt hs hl (Option.mem_toList.mp hr)) hn

end Edge

theorem edgeInv_reachable {p : State T × List Reference}
    (h : Reachable (((scheduler T).restrict EdgesKept).record State.noted) p) :
    EdgeInv p.1 p.2 := by
  apply h.invariant
  · rintro ⟨_, _⟩ ⟨⟨o, rfl⟩, rfl⟩
    constructor <;> simp [initial, PendingInv]
  · rintro ⟨s, refs⟩ a ⟨s', refs'⟩ hr hi ⟨⟨ht, hg⟩, rfl⟩
    have hr' := hr.of_record.of_restrict
    have hs := sound_reachable hr'
    have hl := linkInv_reachable hr'
    have hstep := step_cases ht
    exact edgeInv_step hs hl hi hstep hg (linkInv_step hstep hs hl)

/-- The positions still to be processed are those from the position on. -/
theorem Position.open_iff (hp : Position s e p) :
    Open s e d ↔ d ∈ (s.events e).dependentEvents.drop p := by
  have hmem : d ∈ (s.events e).dependentEvents.drop p ↔
      ∃ j, p ≤ j ∧ (s.events e).dependentEvents[j]? = some d := by
    rw [List.mem_iff_getElem?]
    constructor
    · rintro ⟨i, hi⟩
      rw [List.getElem?_drop] at hi
      exact ⟨p + i, Nat.le_add_right p i, hi⟩
    · rintro ⟨j, hj, hd⟩
      refine ⟨j - p, ?_⟩
      rw [List.getElem?_drop, Nat.add_sub_cancel' hj]
      exact hd
  rw [hmem]
  unfold Open Event.Terminal
  cases hp with
  | before h0 hn =>
    simp only [hn, List.not_mem_nil, false_and, exists_false, or_false]
    constructor
    · rintro ⟨j, hd, -⟩
      exact ⟨j, Nat.zero_le j, hd⟩
    · rintro ⟨j, -, hd⟩
      exact ⟨j, hd, by omega⟩
  | @running t p hst hr hle hn =>
    constructor
    · rintro ⟨j, hd, hj | ⟨u, q, hq, hj⟩⟩
      · exact absurd hst hj
      · by_cases hu : u = t
        · rw [hu, hr, List.mem_singleton] at hq
          subst hq
          exact ⟨j, hj.1, hd⟩
        · rw [hn u hu] at hq
          cases hq
    · rintro ⟨j, hj, hd⟩
      have hlt := (List.getElem?_eq_some_iff.mp hd).1
      exact ⟨j, hd, .inr ⟨t, _, by rw [hr]; exact List.mem_singleton_self _, hj, hlt⟩⟩
  | after hst hn =>
    simp only [hn, List.not_mem_nil, false_and, exists_false, or_false]
    constructor
    · rintro ⟨j, -, hj⟩
      exact absurd hst hj
    · rintro ⟨j, hj, hd⟩
      have hlt := (List.getElem?_eq_some_iff.mp hd).1
      omega

/-- The edge from `e` to its dependent `d`, with the references that were taken for it. -/
structure Mirrored (s : State T) (refs : List Reference) (e d : EventId) : Prop where
  /-- Only a constructor that holds the mutex of `d` may be behind with its own end. -/
  edge : Waits s d e ↔ Open s e d
  settled : (s.events d).stateMutex = false → (e ∈ (s.events d).waitEvents ↔ Open s e d)
  held : Open s e d → refs.count (.taken e d) = refs.count (.released e d) + 1
  balanced : ¬ Open s e d → refs.count (.taken e d) = refs.count (.released e d)

theorem edges_mirrored
    (h : Reachable (((scheduler T).restrict EdgesKept).record State.noted) (s, refs))
    (he : e < s.nextEvent) (hd : d < s.nextEvent) : Mirrored s refs e d := by
  have hi := edgeInv_reachable h
  obtain ⟨p, hp⟩ := hi.edges e he
  have hopen := hp.position.open_iff (d := d)
  have hedge : Waits s d e ↔ Open s e d := (hp.waits d hd).trans hopen.symm
  have hcount := List.take_append_drop p (s.events e).dependentEvents
  have htaken : refs.count (.taken e d) = refs.count (.released e d) +
      ((s.events e).dependentEvents.drop p).count d := by
    rw [hp.taken, hp.released, ← List.count_append, hcount]
  refine ⟨hedge, fun hm => ?_, fun ho => ?_, fun hc => ?_⟩
  · rw [← hedge]
    refine ⟨.inl, ?_⟩
    rintro (hw | ⟨t, ht⟩)
    · exact hw
    · obtain ⟨f, hf, happ⟩ := List.mem_filterMap.mp ht
      cases f with
      | appendWait d' w rest =>
        cases happ
        have hlock := hi.frame t _ hf
        rw [EdgeFrame, hm] at hlock
        cases hlock
      | _ => cases happ
  · have hnd := (List.drop_sublist p _).nodup (hi.nodup e he)
    rw [htaken, List.count_eq_one_of_mem hnd (hopen.mp ho)]
  · rw [htaken, List.count_eq_zero_of_not_mem (fun hmem => hc (hopen.mpr hmem))]
    rfl

/-- A read waits for another one, which then completes. -/
theorem edges_mirrored_of_reads : ∃ (s : State Bool) (refs : List Reference),
    Reachable (((scheduler Bool).restrict EdgesKept).record State.noted) (s, refs) ∧
      (s.events 0).Terminal ∧ (s.events 0).dependentEvents = [1] ∧ Mirrored s refs 0 1 := by
  obtain ⟨s, hr, hc⟩ := exists_guarded_run EdgesKept (fun _ => false)
    (List.flatten [[.enqueue true .readBuffer 0 []], resumes true 12,
      [.enqueue true .readBuffer 0 [0]], resumes true 13, [.deviceSetStatus false 0 0],
      resumes false 4])
    (fun s => 1 < s.nextEvent ∧ (s.events 0).Terminal ∧ (s.events 0).dependentEvents = [1])
    (by decide +kernel)
  obtain ⟨hn, ht, hd⟩ := of_decide_eq_true hc
  obtain ⟨refs, hr⟩ := hr.exists_record State.noted
  exact ⟨s, refs, hr, ht, hd, edges_mirrored hr (Nat.lt_of_succ_lt hn) hn⟩

/-- A read waits for a user event, whose completion removes the edge and keeps the reference. -/
theorem user_event_reference_kept : ∃ (s : State Bool) (refs : List Reference),
    Reachable ((scheduler Bool).record State.noted) (s, refs) ∧
      s.threads true = [] ∧ s.threads false = [] ∧ (s.events 1).waitEvents = [] ∧
      refs = [.taken 0 1] ∧ ¬ Mirrored s refs 0 1 := by
  obtain ⟨⟨s, refs⟩, hr, hc⟩ := exists_noted_run State.noted (fun _ => false)
    (List.flatten [[.createUserEvent true, .enqueue true .readBuffer 0 [0]], resumes true 13,
      [.setUserEventStatus true 0 0], resumes true 13])
    (fun p => p.1.threads true = [] ∧ p.1.threads false = [] ∧ (p.1.events 1).waitEvents = [] ∧
      (p.1.events 1).stateMutex = false ∧ p.2 = [.taken 0 1]) (by decide +kernel)
  obtain ⟨h₁, h₂, hw, hm, hrefs⟩ := of_decide_eq_true hc
  refine ⟨s, refs, hr, h₁, h₂, hw, hrefs, fun hmir => ?_⟩
  have hnot : ¬ Open s 0 1 := by
    intro ho
    have hmem := (hmir.settled hm).mpr ho
    rw [hw] at hmem
    cases hmem
  have hcount := hmir.balanced hnot
  simp [show refs = [.taken 0 1] from hrefs] at hcount

end Shamrock.Scheduler
