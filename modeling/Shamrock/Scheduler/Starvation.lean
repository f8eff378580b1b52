import Shamrock.Scheduler.Load

/-! No queue gets stuck: between the calls, every event that a traversal can push is pushed. -/
namespace Shamrock.Scheduler

open Transition

variable {T : Type} [DecidableEq T] {s s' : State T} {a : Action T} {q : QueueId} {x : EventId}

/-- Queued, and everything it waited for has ended. -/
def Event.Ready (ev : Event) : Prop := ev.status = clQueued ∧ ev.waitEvents = []

/-- The events of a list that have not ended. -/
def State.pending (s : State T) (l : List EventId) : List EventId :=
  l.filter fun e => decide (0 < (s.events e).status)

/-- A traversal gets to `x` behind the pending events `l`. -/
structure Reaches (s : State T) (q : QueueId) (l : List EventId) (x : EventId) : Prop where
  inOrder : (s.queues q).outOfOrder = false → l = []
  points : ∀ y ∈ l, (s.events y).type ≠ .barrier ∧ (s.events y).type ≠ .waitForEvents
  barrier : (s.events x).type = .barrier → l = []
  threshold : l.length ≤ pushEventsThreshold

/-- A traversal would find nothing to push. -/
def Calm (s : State T) (q : QueueId) : Prop :=
  ∀ l x r, s.pending (s.queues q).events = l ++ x :: r → Reaches s q l x → ¬ (s.events x).Ready

/-- The events that the traversal has left behind. -/
def PushFrame.behind (s : State T) (f : PushFrame) : List EventId :=
  (s.queues f.queue).events.take f.it

/-- The traversal has left no ready event behind, and of the events it counted all but `n`. -/
structure Passed (s : State T) (f : PushFrame) (n : Nat) : Prop where
  ready : ∀ x ∈ f.behind s, ¬ (s.events x).Ready
  traversed : f.traversed ≤ (s.pending (f.behind s)).length + n
  first : n = 0 → f.first = false → s.pending (f.behind s) ≠ []

/-- What a traversal that has pushed nothing yet knows about its queue. -/
def Scanned (s : State T) (f : PushFrame) : Prop :=
  match f.pc with
  | .acquire => True
  | .examineComplete => Passed s f 0
  | .examineError => Passed s f 0 ∧
      ∀ e, f.event (s.queues f.queue) = some e → (s.events e).status ≠ clComplete
  | .examineQueued | .examineWait | .submit => Passed s f 1 ∧
      ∀ e, f.event (s.queues f.queue) = some e → 0 < (s.events e).status
  | .handOver => False
  | .leave => Calm s f.queue

/-- Nothing that a traversal of `q` looks at has changed, except that an event may wait for more. -/
structure Alike (s s' : State T) (q : QueueId) : Prop where
  events : (s'.queues q).events = (s.queues q).events
  outOfOrder : (s'.queues q).outOfOrder = (s.queues q).outOfOrder
  status : ∀ x ∈ (s.queues q).events, (s'.events x).status = (s.events x).status
  type : ∀ x ∈ (s.queues q).events, (s'.events x).type = (s.events x).type
  ready : ∀ x ∈ (s.queues q).events, (s'.events x).Ready → (s.events x).Ready

section

omit [DecidableEq T]

theorem pending_congr {l : List EventId}
    (h : ∀ x ∈ l, (s'.events x).status = (s.events x).status) : s'.pending l = s.pending l :=
  List.filter_congr fun x hx => by rw [h x hx]

theorem mem_of_mem_pending {l : List EventId} (h : x ∈ s.pending l) : x ∈ l :=
  (List.mem_filter.mp h).1

theorem mem_of_pending_eq {l m r : List EventId} (h : s.pending l = m ++ x :: r) :
    x ∈ l ∧ ∀ y ∈ m, y ∈ l := by
  have hx : x ∈ s.pending l := by simp [h]
  refine ⟨mem_of_mem_pending hx, fun y hy => mem_of_mem_pending (s := s) ?_⟩
  simp [h, hy]

/-- Only the pending events count, so that an erasure changes nothing. -/
theorem Calm.transfer (hc : Calm s q)
    (hev : s'.pending (s'.queues q).events = s.pending (s.queues q).events)
    (hoo : (s'.queues q).outOfOrder = (s.queues q).outOfOrder)
    (hty : ∀ x ∈ (s.queues q).events, (s'.events x).type = (s.events x).type)
    (hre : ∀ x ∈ (s.queues q).events, (s'.events x).Ready → (s.events x).Ready) : Calm s' q := by
  intro l x r hl hr hready
  rw [hev] at hl
  obtain ⟨hx, hm⟩ := mem_of_pending_eq hl
  refine hc l x r hl ⟨?_, fun y hy => ?_, ?_, hr.threshold⟩ (hre x hx hready)
  · rw [← hoo]
    exact hr.inOrder
  · rw [← hty y (hm y hy)]
    exact hr.points y hy
  · rw [← hty x hx]
    exact hr.barrier

theorem Alike.calm (ha : Alike s s' q) (hc : Calm s q) : Calm s' q :=
  hc.transfer (by rw [ha.events, pending_congr ha.status]) ha.outOfOrder ha.type ha.ready

theorem behind_subset {f : PushFrame} (hx : x ∈ f.behind s) : x ∈ (s.queues f.queue).events :=
  List.mem_of_mem_take hx

theorem Passed.transfer {f : PushFrame} {n : Nat} (hp : Passed s f n)
    (hb : f.behind s' = f.behind s)
    (hst : ∀ x ∈ (s.queues f.queue).events, (s'.events x).status = (s.events x).status)
    (hre : ∀ x ∈ (s.queues f.queue).events, (s'.events x).Ready → (s.events x).Ready) :
    Passed s' f n := by
  have hpend : s'.pending (f.behind s') = s.pending (f.behind s) := by
    rw [hb]
    exact pending_congr fun x hx => hst x (behind_subset hx)
  constructor
  · intro x hx hready
    rw [hb] at hx
    exact hp.ready x hx (hre x (behind_subset hx) hready)
  · rw [hpend]
    exact hp.traversed
  · rw [hpend]
    exact hp.first

theorem event_mem_events {f : PushFrame} {e : EventId}
    (he : f.event (s.queues f.queue) = some e) : e ∈ (s.queues f.queue).events :=
  List.mem_of_getElem? he

theorem Alike.scanned {f : PushFrame} (ha : Alike s s' f.queue) (hf : Scanned s f) :
    Scanned s' f := by
  have hb : f.behind s' = f.behind s := by
    unfold PushFrame.behind
    rw [ha.events]
  have hev : f.event (s'.queues f.queue) = f.event (s.queues f.queue) := by
    unfold PushFrame.event
    rw [ha.events]
  unfold Scanned at hf ⊢
  rw [hev]
  split at hf
  · trivial
  · exact hf.transfer hb ha.status ha.ready
  · refine ⟨hf.1.transfer hb ha.status ha.ready, fun e he => ?_⟩
    rw [ha.status e (event_mem_events he)]
    exact hf.2 e he
  · refine ⟨hf.1.transfer hb ha.status ha.ready, fun e he => ?_⟩
    rw [ha.status e (event_mem_events he)]
    exact hf.2 e he
  · refine ⟨hf.1.transfer hb ha.status ha.ready, fun e he => ?_⟩
    rw [ha.status e (event_mem_events he)]
    exact hf.2 e he
  · refine ⟨hf.1.transfer hb ha.status ha.ready, fun e he => ?_⟩
    rw [ha.status e (event_mem_events he)]
    exact hf.2 e he
  · exact hf
  · exact ha.calm hf

end

section Moves

variable {f f' : PushFrame} {n : Nat} {y : EventId}

section

omit [DecidableEq T]

theorem pending_append (l m : List EventId) : s.pending (l ++ m) = s.pending l ++ s.pending m :=
  List.filter_append ..

theorem pending_cons {l : List EventId} (hy : 0 < (s.events y).status) :
    s.pending (y :: l) = y :: s.pending l :=
  List.filter_cons_of_pos (decide_eq_true hy)

/-- The list splits at the iterator. -/
theorem behind_append (s : State T) (f : PushFrame) :
    f.behind s ++ (s.queues f.queue).events.drop f.it = (s.queues f.queue).events :=
  List.take_append_drop ..

theorem drop_of_event (hy : f.event (s.queues f.queue) = some y) :
    (s.queues f.queue).events.drop f.it = y :: (s.queues f.queue).events.drop (f.it + 1) := by
  obtain ⟨hlt, rfl⟩ := List.getElem?_eq_some_iff.mp hy
  exact List.drop_eq_getElem_cons hlt

/-- What is ready can only stand at the iterator or after it. -/
theorem Passed.calm (hp : Passed s f n)
    (hrest : ∀ l x r, s.pending ((s.queues f.queue).events.drop f.it) = l ++ x :: r →
      Reaches s f.queue (s.pending (f.behind s) ++ l) x → ¬ (s.events x).Ready) :
    Calm s f.queue := by
  intro l x r hl hr
  rw [← behind_append s f, pending_append] at hl
  rcases List.append_eq_append_iff.mp hl with ⟨m, rfl, hm⟩ | ⟨m, hb, hm⟩
  · exact hrest m x r hm hr
  · cases m with
    | nil =>
      rw [List.append_nil] at hb
      exact hrest [] x r hm.symm (by rwa [List.append_nil, hb])
    | cons z m =>
      obtain ⟨rfl, -⟩ := List.cons.inj hm
      exact hp.ready x (mem_of_pending_eq hb).1

/-- Nor behind a pending event at the iterator that stops every traversal. -/
theorem Passed.calm_of_stop (hp : Passed s f n) (hy : f.event (s.queues f.queue) = some y)
    (hpos : 0 < (s.events y).status)
    (hat : Reaches s f.queue (s.pending (f.behind s)) y → ¬ (s.events y).Ready)
    (hstop : (s.events y).type = .barrier ∨ (s.events y).type = .waitForEvents) :
    Calm s f.queue := by
  refine hp.calm fun l x r hl hr => ?_
  rw [drop_of_event hy, pending_cons hpos] at hl
  cases l with
  | nil =>
    obtain ⟨rfl, -⟩ := List.cons.inj hl
    exact hat (by simpa using hr)
  | cons z l =>
    obtain ⟨rfl, -⟩ := List.cons.inj hl
    have hpoint := hr.points y (by simp)
    exact absurd hstop (by simp [hpoint])

theorem Passed.next (hp : Passed s f 1) (hy : f.event (s.queues f.queue) = some y)
    (hpos : 0 < (s.events y).status) (hnot : ¬ (s.events y).Ready) :
    Passed s { f with pc := .examineComplete, it := f.it + 1 } 0 := by
  have hb : ({ f with pc := .examineComplete, it := f.it + 1 } : PushFrame).behind s =
      f.behind s ++ [y] := by
    have hy' : (s.queues f.queue).events[f.it]? = some y := hy
    simp [PushFrame.behind, List.take_add_one, hy']
  have hpend : s.pending (f.behind s ++ [y]) = s.pending (f.behind s) ++ [y] := by
    rw [pending_append, pending_cons hpos]
    rfl
  constructor
  · intro x hx
    rw [hb] at hx
    rcases List.mem_append.mp hx with hx | hx
    · exact hp.ready x hx
    · rwa [List.mem_singleton.mp hx]
  · rw [hb, hpend, List.length_append]
    exact hp.traversed
  · intro _ _
    rw [hb, hpend]
    simp

theorem onDevice_of_scheduled (hle : (s.events y).status ≤ clQueued)
    (hpos : 0 < (s.events y).status) (hne : (s.events y).status ≠ clQueued) :
    (s.events y).OnDevice := by
  unfold clQueued at hle hne
  unfold Event.OnDevice clSubmitted clRunning
  omega

theorem Scanned.moved {b : Bool} (hw : Wf s)
    (hle : ∀ x < s.nextEvent, (s.events x).status ≤ clQueued) (hdue : ¬ PushDue s f.queue)
    (hf : Scanned s f) (hm : PushMove (s.queues f.queue) s.events f f' b) : Scanned s f' := by
  cases hm with
  | listEnd hpc he =>
    simp only [Scanned, hpc] at hf
    refine hf.calm fun l x r hl _ => ?_
    have hnil : (s.queues f.queue).events.drop f.it = [] :=
      List.drop_eq_nil_of_le (List.getElem?_eq_none_iff.mp he)
    rw [hnil] at hl
    simp [State.pending] at hl
  | notComplete hpc he hst =>
    simp only [Scanned, hpc] at hf
    refine ⟨⟨hf.ready, hf.traversed, hf.first⟩, fun e he' => ?_⟩
    obtain rfl := Option.some.inj (he.symm.trans he')
    exact hst
  | threshold hpc he hst hr ht =>
    simp only [Scanned, hpc] at hf
    refine hf.1.calm fun l x r _ hr => ?_
    have hlen := hr.threshold
    have htr := hf.1.traversed
    rw [List.length_append] at hlen
    omega
  | @notFirst e hpc he hst hfirst hstop =>
    simp only [Scanned, hpc] at hf
    have hne := hf.1.first rfl hfirst
    rcases hstop with hoo | hbar
    · refine hf.1.calm fun l x r _ hr => ?_
      exact absurd (List.append_eq_nil_iff.mp (hr.inOrder hoo)).1 hne
    · have hpos : 0 < (s.events e).status := lt_of_le_of_ne hst (Ne.symm (hf.2 e he))
      exact hf.1.calm_of_stop he hpos (fun hr => absurd (hr.barrier hbar) hne) (.inl hbar)
  | @candidate e hpc he hst _ =>
    simp only [Scanned, hpc] at hf
    have hpos : 0 < (s.events e).status := lt_of_le_of_ne hst (Ne.symm (hf.2 e he))
    refine ⟨⟨hf.1.ready, Nat.succ_le_succ hf.1.traversed, by simp⟩, fun e' he' => ?_⟩
    obtain rfl := Option.some.inj (he.symm.trans he')
    exact hpos
  | @readyScheduled e hpc he hne _ =>
    simp only [Scanned, hpc] at hf
    obtain ⟨hlt, hp⟩ := hw.event_lt he
    have hon := onDevice_of_scheduled (hle e hlt) (hf.2 e he) hne
    exact absurd (.inl ⟨e, hlt, hp, hon⟩) hdue
  | @scheduled e hpc he hne _ =>
    simp only [Scanned, hpc] at hf
    exact hf.1.next he (hf.2 e he) fun hr => hne hr.1
  | isQueued hpc | pushable hpc =>
    simp only [Scanned, hpc] at hf
    exact ⟨⟨hf.1.ready, hf.1.traversed, hf.1.first⟩, hf.2⟩
  | @waitForEvents e hpc he hne hty =>
    simp only [Scanned, hpc] at hf
    exact hf.1.calm_of_stop he (hf.2 e he) (fun _ hr => hne hr.2) (.inr hty)
  | @blocked e hpc he hne _ =>
    simp only [Scanned, hpc] at hf
    exact hf.1.next he (hf.2 e he) fun hr => hne hr.2

end

end Moves

/-- A queue to which no push is due is calm, up to what the traversal under way has not seen. -/
structure CalmInv (q : QueueId) (s : State T) : Prop where
  scanned : ¬ PushDue s q → ∀ t f k, s.threads t = .push f :: k → f.queue = q → Scanned s f
  calm : ¬ PushDue s q → (∀ t f k, s.threads t = .push f :: k → f.queue ≠ q) → Calm s q

omit [DecidableEq T] in
/-- Between two states without a due push of `q`, nobody is about to enter its traversal. -/
theorem not_acquire (hdue : ¬ PushDue s q) {t : T} {f : PushFrame} {k : List Frame}
    (hk : s.threads t = .push f :: k) (hq : f.queue = q) : f.pc ≠ .acquire :=
  fun hpc => hdue (.inr ⟨t, .push f, by simp [hk], hq, hpc⟩)

omit [DecidableEq T] in
theorem PushDue.of_top {t : T} {f : Frame} {k : List Frame} (hk : s.threads t = f :: k)
    (hf : f.WillPush s.events q) : PushDue s q :=
  .inr ⟨t, f, by simp [hk], hf⟩

section Due

variable (h : Step s a s') (hs : Sound s)
include h

/-- A step leaves the suspended calls of its thread alone. -/
theorem stack_step {f : Frame} {k : List Frame} (hk : s.threads a.actor = f :: k) :
    k <:+ s'.threads a.actor := by
  cases h
  all_goals
    simp only [actor_resume, actor_createUserEvent, actor_setUserEventStatus, actor_setCallback,
      actor_enqueue, actor_flush, actor_finish, actor_deviceSetStatus, List.cons.injEq,
      reduceCtorEq, *] at hk
  all_goals
    obtain ⟨-, rfl⟩ := hk
    simp only [actor_resume, State.setStack_threads, State.pushDependent_threads,
      Function.update_self]
    first
      | exact List.suffix_refl _
      | exact List.suffix_cons _ _
      | exact (List.suffix_cons _ _).trans (List.suffix_cons _ _)

theorem willPush_mono (hc : CallsOk s) {t : T} {f : Frame} (hf : f ∈ s.threads t)
    (hwill : f.WillPush s.events q) : f.WillPush s'.events q := by
  cases f with
  | setStatus f =>
    have hlt := (hc.frame t _ hf).1
    rw [Frame.WillPush, (step_identity h hlt).parent]
    exact hwill
  | push f => exact hwill
  | _ => exact hwill.elim

include hs

/-- The completion of an event of `q` goes on until it pushes `q`. -/
theorem pushDue_completing {f : StatusFrame} {k : List Frame}
    (hk : s.threads a.actor = .setStatus f :: k) (hst : f.status = clComplete)
    (hp : (s.events f.event).parent = some q) (hpushed : f.alreadyPushed = false) :
    PushDue s' q := by
  have hid := (step_identity h (hs.calls.head hk).1).parent.trans hp
  have hgo : ∀ pc, s'.threads a.actor = .setStatus { f with pc := pc } :: k → PushDue s' q :=
    fun pc hk' => .of_top hk' (.inl ⟨hst, hid, hpushed⟩)
  cases status_next h hk with
  | helperNotify => exact hgo _ (Function.update_self ..)
  | helperReturn _ hpr => simp [Event.propagates, hst, hp] at hpr
  | notifyBlocked => exact hgo _ (Function.update_self ..)
  | @notifyReady i num d p =>
    by_cases hpq : p = q
    · subst hpq
      exact .of_top (Function.update_self ..) ⟨rfl, rfl⟩
    · have hid' := (update_parent s.events (d := d)
        (E := ((s.events d).removeWaitEvent f.event).1) rfl f.event).trans hp
      refine .inr ⟨a.actor, .setStatus { f with pc := .notify (i + 1) num }, ?_,
        .inl ⟨hst, hid, hpushed⟩⟩
      have hne : ¬ q = p := fun hqp => hpq hqp.symm
      simp [hid', hne]
  | notifyFailed _ _ _ _ _ _ hneg => simp [hst] at hneg
  | terminate hpc =>
    have hneg := (hs.report.failed hk hpc).1
    simp [hst] at hneg
  | notifyReturn _ _ hr => simp [hp, hpushed] at hr
  | notifyPush _ _ hp' =>
    obtain rfl := Option.some.inj (hp.symm.trans hp')
    exact .of_top (Function.update_self ..) ⟨rfl, rfl⟩

omit hs in
theorem pushDue_terminating {f : StatusFrame} {k : List Frame} {i num : Nat} {d : EventId}
    (hk : s.threads a.actor = .setStatus f :: k) (hpc : f.pc = .terminate i num d q) :
    PushDue s' q := by
  cases status_next h hk with
  | @terminate i' num' d' p hpc' =>
    obtain ⟨rfl, rfl, rfl, rfl⟩ := StatusPC.terminate.inj (hpc.symm.trans hpc')
    exact .of_top (Function.update_self ..) ⟨rfl, rfl⟩
  | _ => simp_all

omit hs in
theorem pushDue_queueing {e : EventId} {k : List Frame}
    (hk : s.threads a.actor = .queueEvent e :: k) (hp : (s.events e).parent = some q) :
    PushDue s' q := by
  cases h
  case queueEvent hk' hp' _ =>
    obtain ⟨rfl, rfl⟩ := by simpa using hk'.symm.trans hk
    obtain rfl := Option.some.inj (hp.symm.trans hp')
    exact .of_top (Function.update_self ..) ⟨rfl, rfl⟩
  all_goals simp_all

/-- An event on the device stays there until its completion is under way. -/
theorem pushDue_onDevice (hg : StartedKept q s a) (hc : Called s) (hlt : x < s.nextEvent)
    (hp : (s.events x).parent = some q) (hon : (s.events x).OnDevice) : PushDue s' q := by
  have hdev : (s'.events x).OnDevice → PushDue s' q := fun hon =>
    .inl ⟨x, Nat.lt_of_lt_of_le hlt (step_nextEvent h), (step_identity h hlt).parent.trans hp, hon⟩
  have hst := step_status h hlt
  unfold Event.OnDevice at hdev
  generalize (s'.events x).status = st at hst hdev
  cases hst with
  | same => exact hdev hon
  | submitted => exact hdev (by decide)
  | @reported f k hk hpc he =>
    subst he
    have hle := (hg.of_top h hk).1 f (reporting_eq hk hpc) hp
    have hfresh : f.alreadyPushed = false := hc.fresh a.actor (.setStatus f) (by simp [hk]) hpc
    rcases hs.report.started hs.calls hk hpc hp with ⟨-, hrun | hend⟩ | ⟨-, hend⟩
    · rw [hrun] at hdev
      exact hdev (by decide)
    · exact pushDue_completing h hs hk (le_antisymm hend hle) hp hfresh
    · exact pushDue_completing h hs hk hend hp hfresh
  | @terminated f i num p k hk hpc =>
    obtain rfl := Option.some.inj (hp.symm.trans (hs.report.failed hk hpc).2.2)
    exact pushDue_terminating h hk hpc

/-- A due push stays due until a thread enters the traversal. That the device has enough to do
is no way out. -/
theorem pushDue_step (hg : StartedKept q s a) (hc : Called s) (hload : LoadInv q s')
    (hs' : Sound s') (hc' : Called s') (hd : PushDue s q) :
    PushDue s' q ∨ ∃ f k, s'.threads a.actor = .push f :: k ∧ f.queue = q ∧
      f.pc = .examineComplete ∧ f.it = 0 ∧ f.first = true ∧ f.traversed = 0 := by
  rcases hd with ⟨x, hlt, hp, hon⟩ | ⟨t, f, hf, hwill⟩
  · exact .inl (pushDue_onDevice h hs hg hc hlt hp hon)
  · have hwill' := willPush_mono h hs.calls hf hwill
    by_cases ht : t = a.actor
    · subst ht
      cases hk : s.threads a.actor with
      | nil => simp [hk] at hf
      | cons g k =>
        rw [hk] at hf
        rcases List.mem_cons.mp hf with rfl | hf
        · cases f with
          | push f =>
            obtain ⟨rfl, hpc⟩ := hwill
            cases push_next h hk with
            | returned _ _ _ _ hn =>
              left
              refine hload.pushDue hs' hc' ?_
              simp only [State.setStack_queues, State.setQueue_queues, Function.update_self]
              omega
            | entered => exact .inr ⟨_, k, Function.update_self .., rfl, rfl, rfl, rfl, rfl⟩
            | moved hm => cases hm <;> simp_all
            | _ => simp_all
          | setStatus f =>
            left
            rcases hwill with ⟨hst, hp, hpushed⟩ | ⟨i, num, d, hpc⟩
            · exact pushDue_completing h hs hk hst hp hpushed
            · exact pushDue_terminating h hk hpc
          | _ => exact hwill.elim
        · exact .inl (.inr ⟨a.actor, f, (stack_step h hk).subset hf, hwill'⟩)
    · exact .inl (.inr ⟨t, f, by rwa [step_threads_of_ne h ht], hwill'⟩)

end Due

section Quiet

variable (h : Step s a s') (hs : Sound s) (hdue : ¬ PushDue s q) (hdue' : ¬ PushDue s' q)
include h hs hdue hdue'

/-- As long as no push of `q` is due, no event of `q` gets another status. -/
theorem status_quiet (hg : StartedKept q s a) (hc : Called s) (hlt : x < s.nextEvent)
    (hp : (s.events x).parent = some q) : (s'.events x).status = (s.events x).status := by
  have hlt' := Nat.lt_of_lt_of_le hlt (step_nextEvent h)
  have hdev : ¬ (s'.events x).OnDevice :=
    fun hon => hdue' (.inl ⟨x, hlt', (step_identity h hlt).parent.trans hp, hon⟩)
  have hst := step_status h hlt
  unfold Event.OnDevice at hdev
  generalize (s'.events x).status = st at hst hdev ⊢
  cases hst with
  | same => rfl
  | submitted => exact absurd (by decide) hdev
  | @reported f k hk hpc he =>
    subst he
    have hle := (hg.of_top h hk).1 f (reporting_eq hk hpc) hp
    have hfresh : f.alreadyPushed = false := hc.fresh a.actor (.setStatus f) (by simp [hk]) hpc
    have hend : f.status ≠ clComplete :=
      fun hend => hdue (.of_top hk (.inl ⟨hend, hp, hfresh⟩))
    rcases hs.report.started hs.calls hk hpc hp with ⟨-, hrun | hle'⟩ | ⟨-, hend'⟩
    · rw [hrun] at hdev
      exact absurd (by decide) hdev
    · exact absurd (le_antisymm hle' hle) hend
    · exact absurd hend' hend
  | @terminated f i num p k hk hpc =>
    obtain rfl := Option.some.inj (hp.symm.trans (hs.report.failed hk hpc).2.2)
    exact absurd (.of_top hk (.inr ⟨i, num, x, hpc⟩)) hdue

/-- And none becomes ready. -/
theorem ready_quiet (hg : StartedKept q s a) (hc : Called s) (hlt : x < s.nextEvent)
    (hp : (s.events x).parent = some q) (hr : (s'.events x).Ready) : (s.events x).Ready := by
  obtain ⟨hst, hwait⟩ := hr
  refine ⟨(status_quiet h hs hdue hdue' hg hc hlt hp).symm.trans hst, ?_⟩
  have hch := step_waitEvents h hlt
  generalize (s'.events x).waitEvents = l at hch hwait
  cases hch with
  | same => exact hwait
  | waiting => simp at hwait
  | @notified f i num k hk hpc hi hd hm =>
    cases notify_next h hk hpc hi hd with
    | blocked hne => exact absurd hwait (hne.resolve_right (by simp [hp]))
    | @ready p _ hp' =>
      obtain rfl := Option.some.inj (hp.symm.trans hp')
      exact absurd (.of_top (Function.update_self ..) ⟨rfl, rfl⟩) hdue'
    | @failed p _ hp' =>
      obtain rfl := Option.some.inj (hp.symm.trans hp')
      exact absurd (.of_top (Function.update_self ..) (.inr ⟨_, _, _, rfl⟩)) hdue'

theorem alike_quiet (hg : StartedKept q s a) (hc : Called s)
    (hev : (s'.queues q).events = (s.queues q).events) : Alike s s' q where
  events := hev
  outOfOrder := step_outOfOrder h q
  status x hx := by
    obtain ⟨hlt, hp⟩ := hs.wf.event_mem hx
    exact status_quiet h hs hdue hdue' hg hc hlt hp
  type x hx := (step_identity h (hs.wf.event_mem hx).1).type
  ready x hx := by
    obtain ⟨hlt, hp⟩ := hs.wf.event_mem hx
    exact ready_quiet h hs hdue hdue' hg hc hlt hp

end Quiet

omit [DecidableEq T] in
/-- The removal of a terminal event at the iterator. -/
theorem Passed.erase {f : PushFrame} (hp : Passed s f 0)
    (hq : (s'.queues f.queue).events = (s.queues f.queue).events.eraseIdx f.it)
    (hev : s'.events = s.events) : Passed s' f 0 := by
  refine hp.transfer ?_ (fun x _ => by rw [hev]) (fun x _ => by rw [hev]; exact id)
  unfold PushFrame.behind
  rw [hq, List.take_eraseIdx_eq_take_of_le _ _ _ (Nat.le_refl _)]

omit [DecidableEq T] in
theorem pending_eraseIdx {l : List EventId} {i : Nat} (hx : l[i]? = some x)
    (hle : (s.events x).status ≤ 0) : s.pending (l.eraseIdx i) = s.pending l := by
  obtain ⟨hlt, rfl⟩ := List.getElem?_eq_some_iff.mp hx
  have hnot : decide (0 < (s.events l[i]).status) = false := decide_eq_false (not_lt.mpr hle)
  conv_rhs => rw [← List.take_append_drop i l, List.drop_eq_getElem_cons hlt]
  rw [List.eraseIdx_eq_take_drop_succ]
  unfold State.pending
  rw [List.filter_append, List.filter_append, List.filter_cons_of_neg (by simp [hnot])]

section Calm

variable (h : Step s a s') (hg : StartedKept q s a) (hs : Sound s) (hc : Called s)
  (hdue : ¬ PushDue s q) (hdue' : ¬ PushDue s' q) (hi : CalmInv q s)
include h hg hs hc hdue hdue' hi

theorem CalmInv.scanned_step (hle : ∀ x < s.nextEvent, (s.events x).status ≤ clQueued) {t : T}
    {f : PushFrame} {k : List Frame} (hk : s'.threads t = .push f :: k) (hq : f.queue = q) :
    Scanned s' f := by
  have hpc := not_acquire hdue' hk hq
  subst hq
  by_cases ht : t = a.actor
  · subst ht
    cases push_top h hs.wf hk with
    | called hpc' => exact absurd hpc' hpc
    | entered hk' hpc' _ hf => exact absurd hpc' (not_acquire hdue hk' (by rw [hf]))
    | moved hk' hm hq _ =>
      have hqf := pushMove_queue hm
      have hev : (s'.queues f.queue).events = (s.queues f.queue).events := by
        rw [hqf, hq]
        rfl
      rw [hqf] at hdue
      have hold := hi.scanned (hqf ▸ hdue) _ _ _ hk' hqf.symm
      exact (alike_quiet h hs (hqf ▸ hdue) hdue' hg hc hev).scanned (hold.moved hs.wf hle hdue hm)
    | erased hk' hpc' he hf hq hev =>
      subst hf
      have hold := hi.scanned hdue _ _ _ hk' rfl
      rcases hpc' with ⟨hpc', -⟩ | ⟨hpc', -⟩
      · simp only [Scanned, hpc'] at hold
        have hp := hold.erase (by rw [hq]; rfl) hev
        exact ⟨hp.ready, hp.traversed, hp.first⟩
      · simp only [Scanned, hpc'] at hold
        have hp := hold.1.erase (by rw [hq]; rfl) hev
        exact ⟨hp.ready, hp.traversed, hp.first⟩
    | @submitted f' e hk' _ he hf _ hev =>
      subst hf
      obtain ⟨hlt, hp⟩ := hs.wf.event_lt he
      refine absurd (.inl ⟨e, Nat.lt_of_lt_of_le hlt (step_nextEvent h),
        (step_identity h hlt).parent.trans hp, ?_⟩) hdue'
      rw [hev, Function.update_self]
      exact (by decide : clSubmitted = clSubmitted ∨ clSubmitted = clRunning)
    | handed hk' hpc' _ hf =>
      subst hf
      have hold := hi.scanned hdue _ _ _ hk' rfl
      simp only [Scanned, hpc'] at hold
  · rw [step_threads_of_ne h ht] at hk
    obtain ⟨l, hl⟩ := step_queue_locked h hs.wf.mutex (hs.wf.mutex.of_push hk hpc) ht
    exact (alike_quiet h hs hdue hdue' hg hc (by rw [hl])).scanned (hi.scanned hdue t f k hk rfl)

theorem CalmInv.calm_step (hno : ∀ t f k, s'.threads t = .push f :: k → f.queue ≠ q) :
    Calm s' q := by
  by_cases hin : ∃ t f k, s.threads t = .push f :: k ∧ f.queue = q
  · -- the acting thread has left the traversal
    obtain ⟨t, f, k, hk, rfl⟩ := hin
    have ht : t = a.actor := by
      by_contra ht
      exact hno t f k (by rwa [step_threads_of_ne h ht]) rfl
    subst ht
    have hpc := not_acquire hdue hk rfl
    have hold := hi.scanned hdue _ _ _ hk rfl
    cases push_next h hk with
    | returned hpc' | entered hpc' => exact absurd hpc' hpc
    | moved hm => exact absurd (pushMove_queue hm) (hno a.actor _ k (Function.update_self ..))
    | erased | submitted | handed => exact (hno a.actor _ k (Function.update_self ..) rfl).elim
    | taken _ he =>
      have hp := (step_identity h (hs.wf.event_lt he).1).parent.trans (hs.wf.event_lt he).2
      exact absurd (.of_top (Function.update_self ..) (.inl ⟨rfl, hp, rfl⟩)) hdue'
    | left hpc' =>
      simp only [Scanned, hpc'] at hold
      refine (alike_quiet h hs hdue hdue' hg hc ?_).calm hold
      rw [State.setStack_queues, State.setQueue_queues, Function.update_self]
      exact congrArg Ledger.events (leavePush_ledger _ _)
  · have hnone : ∀ t f k, s.threads t = .push f :: k → f.queue ≠ q :=
      fun t f k hk hq => hin ⟨t, f, k, hk, hq⟩
    have hold := hi.calm hdue hnone
    have hch := step_ledger h hs.wf.mutex q
    generalize hl : (s'.queues q).ledger = l at hch
    have hev : (s'.queues q).events = l.events := congrArg Ledger.events hl
    cases hch with
    | same => exact (alike_quiet h hs hdue hdue' hg hc hev).calm hold
    | append hk hp => exact absurd (pushDue_queueing h hk hp) hdue'
    | @erase i e _ he hle =>
      have ha : ∀ x ∈ (s.queues q).events, _ := fun x hx => hs.wf.event_mem hx
      refine hold.transfer ?_ (step_outOfOrder h q)
        (fun x hx => (step_identity h (ha x hx).1).type)
        (fun x hx => ready_quiet h hs hdue hdue' hg hc (ha x hx).1 (ha x hx).2)
      rw [hev, ← pending_eraseIdx he hle]
      refine pending_congr fun x hx => ?_
      have hx := ha x (List.mem_of_mem_eraseIdx hx)
      exact status_quiet h hs hdue hdue' hg hc hx.1 hx.2
    | take hk hq => exact absurd hq (hnone _ _ _ hk)
    | hand hk hq => exact absurd hq (hnone _ _ _ hk)

end Calm

omit [DecidableEq T] in
/-- A thread that enters a traversal has everything before it. -/
theorem scanned_entered {f : PushFrame} (hpc : f.pc = .examineComplete) (hit : f.it = 0)
    (hfirst : f.first = true) (htr : f.traversed = 0) : Scanned s f := by
  simp only [Scanned, hpc]
  constructor <;> simp [PushFrame.behind, hit, hfirst, htr]

theorem calmInv_step (h : Step s a s') (hg : StartedKept q s a) (hs : Sound s) (hs' : Sound s')
    (hc : Called s) (hl : LoadInv q s) (hi : CalmInv q s) : CalmInv q s' := by
  have hc' := called_step h hc
  have hl' := loadInv_step h hg hs hc hl
  by_cases hd : PushDue s q
  · -- the acting thread has just entered, and is alone inside
    have hentered := pushDue_step h hs hg hc hl' hs' hc' hd
    constructor
    · intro hd' t f k hk hq
      obtain ⟨g, k', hk', hq', hpc, hit, hfirst, htr⟩ := hentered.resolve_left hd'
      have hmutex := hs'.wf.mutex.of_push hk (not_acquire hd' hk hq)
      have hmutex' := hs'.wf.mutex.of_push hk' (by simp [hpc])
      rw [hq', ← hq, hmutex] at hmutex'
      obtain rfl := Option.some.inj hmutex'
      rw [hk] at hk'
      cases hk'
      exact scanned_entered hpc hit hfirst htr
    · intro hd' hno
      obtain ⟨g, k', hk', hq', -⟩ := hentered.resolve_left hd'
      exact absurd hq' (hno _ _ _ hk')
  · exact ⟨fun hd' t f k hk hq => hi.scanned_step h hg hs hc hd hd' hl.status hk hq,
      fun hd' hno => hi.calm_step h hg hs hc hd hd' hno⟩

theorem calmInv_reachable (h : Reachable ((scheduler T).restrict (StartedKept q)) s) :
    CalmInv q s := by
  apply h.invariant
  · rintro _ ⟨o, rfl⟩
    constructor
    · intro _ t f k hk
      simp [initial] at hk
    · intro _ _ l x r hl
      simp [initial, Queue.empty, State.pending] at hl
  · intro s a s' hr hi ht
    have hr' := hr.step ht
    exact calmInv_step (step_cases ht.1) ht.2 (sound_reachable hr.of_restrict)
      (sound_reachable hr'.of_restrict) (called_reachable hr.of_restrict) (loadInv_reachable hr) hi

/-- No thread is inside `queueEvent`, `setStatus` or `pushEventsOnDevice`. -/
def Settled (s : State T) : Prop :=
  ∀ t, ∀ f ∈ s.threads t,
    match f with
    | .queueEvent _ | .setStatus _ | .push _ => False
    | _ => True

/-- `x` is queued behind `l` with nothing left to wait for. No synchronisation point is before it,
and in an in-order queue it is the first event that has not ended. -/
structure Runnable (s : State T) (q : QueueId) (l : List EventId) (x : EventId) : Prop where
  split : ∃ r, (s.queues q).events = l ++ x :: r
  queued : (s.events x).status = clQueued
  waitEvents : (s.events x).waitEvents = []
  points : ∀ y ∈ l, (s.events y).type ≠ .barrier ∧ (s.events y).type ≠ .waitForEvents
  first : (s.queues q).outOfOrder = false → ∀ y ∈ l, (s.events y).Terminal

omit [DecidableEq T] in
theorem pending_eq_nil {l : List EventId} (h : ∀ y ∈ l, (s.events y).Terminal) :
    s.pending l = [] :=
  List.filter_eq_nil_iff.mpr fun y hy => by
    rw [decide_eq_true_iff, not_lt]
    exact h y hy

omit [DecidableEq T] in
theorem not_pushDue (hset : Settled s)
    (hdev : ∀ x < s.nextEvent, (s.events x).parent = some q → ¬ (s.events x).OnDevice) :
    ¬ PushDue s q := by
  rintro (⟨x, hlt, hp, hon⟩ | ⟨t, f, hf, hwill⟩)
  · exact hdev x hlt hp hon
  · have hnot := hset t f hf
    cases f <;> first | exact hnot | exact hwill

omit [DecidableEq T] in
theorem settled_of_idle (h : ∀ t, s.threads t = []) : Settled s := by
  intro t f hf
  simp [h t] at hf

end Shamrock.Scheduler
