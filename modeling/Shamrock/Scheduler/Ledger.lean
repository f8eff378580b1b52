import Shamrock.Scheduler.Effects
import Shamrock.Lib.Before

/-! The life of a command: constructed by one thread, queued once, erased at most once. -/
namespace Shamrock.Scheduler

open Transition ListOrder

variable {T : Type} [DecidableEq T] {s s' : State T} {a : Action T}

/-- The lists of a queue, live and historical, with the counter of `p_events`. -/
structure Ledger where
  events : List EventId
  queued : List EventId
  erased : List EventId
  handed : List EventId
  taken : List EventId
  numEventsInQueue : Int

def Queue.ledger (Q : Queue T) : Ledger where
  events := Q.events
  queued := Q.queued
  erased := Q.erased
  handed := Q.handed
  taken := Q.taken
  numEventsInQueue := Q.numEventsInQueue

namespace Ledger

def append (l : Ledger) (e : EventId) : Ledger :=
  { l with
    events := l.events ++ [e]
    queued := l.queued ++ [e]
    numEventsInQueue := l.numEventsInQueue + 1 }

def erase (l : Ledger) (i : Nat) (e : EventId) : Ledger :=
  { l with
    events := l.events.eraseIdx i
    erased := l.erased ++ [e]
    numEventsInQueue := l.numEventsInQueue - 1 }

def take (l : Ledger) (i : Nat) (e : EventId) : Ledger :=
  { l.erase i e with taken := l.taken ++ [e] }

def hand (l : Ledger) (e : EventId) : Ledger := { l with handed := l.handed ++ [e] }

end Ledger

/-- `p_events` is what is left of the queued events, in their order, and is counted right. -/
structure LedgerInv (l : Ledger) : Prop where
  nodup : l.queued.Nodup
  perm : l.queued.Perm (l.erased ++ l.events)
  sublist : l.events.Sublist l.queued
  handed : l.handed ⊆ l.queued
  taken : l.taken ⊆ l.erased
  numEvents : l.numEventsInQueue = l.events.length

namespace LedgerInv

variable {l : Ledger} {e : EventId} {i : Nat}

theorem append (h : LedgerInv l) (he : e ∉ l.queued) : LedgerInv (l.append e) where
  nodup := by
    refine List.nodup_append.mpr ⟨h.nodup, by simp, ?_⟩
    intro x hx y hy hxy
    simp only [List.mem_singleton] at hy
    subst hy
    subst hxy
    exact he hx
  perm := by
    have := h.perm.append_right [e]
    simpa [Ledger.append] using this
  sublist := h.sublist.append (List.Sublist.refl _)
  handed := List.Subset.trans h.handed (List.subset_append_left _ _)
  taken := h.taken
  numEvents := by simp [Ledger.append, h.numEvents]

theorem erase (h : LedgerInv l) (he : l.events[i]? = some e) : LedgerInv (l.erase i e) where
  nodup := h.nodup
  perm := by
    have := h.perm.trans ((perm_eraseIdx he).append_left l.erased)
    simpa [Ledger.erase] using this
  sublist := (List.eraseIdx_sublist _ _).trans h.sublist
  handed := h.handed
  taken := List.Subset.trans h.taken (List.subset_append_left _ _)
  numEvents := by
    obtain ⟨hi, _⟩ := List.getElem?_eq_some_iff.mp he
    simp only [Ledger.erase, h.numEvents, List.length_eraseIdx_of_lt hi]
    omega

theorem take (h : LedgerInv l) (he : l.events[i]? = some e) : LedgerInv (l.take i e) where
  nodup := h.nodup
  perm := (h.erase he).perm
  sublist := (h.erase he).sublist
  handed := h.handed
  taken := by
    intro x hx
    rcases List.mem_append.mp hx with hx | hx
    · exact List.mem_append_left _ (h.taken hx)
    · exact List.mem_append_right _ hx
  numEvents := (h.erase he).numEvents

theorem mem_queued (h : LedgerInv l) (he : l.events[i]? = some e) : e ∈ l.queued :=
  h.sublist.subset (List.mem_of_getElem? he)

theorem hand (h : LedgerInv l) (he : l.events[i]? = some e) : LedgerInv (l.hand e) where
  nodup := h.nodup
  perm := h.perm
  sublist := h.sublist
  handed := by
    intro x hx
    rcases List.mem_append.mp hx with hx | hx
    · exact h.handed hx
    · rw [List.mem_singleton.mp hx]
      exact h.mem_queued he
  taken := h.taken
  numEvents := h.numEvents

theorem erased_nodup (h : LedgerInv l) : (l.erased ++ l.events).Nodup :=
  h.perm.nodup_iff.mp h.nodup

/-- An event still in the list has not been erased. -/
theorem not_mem_erased (h : LedgerInv l) (he : e ∈ l.events) : e ∉ l.erased := by
  intro hx
  exact (List.nodup_append.mp h.erased_nodup).2.2 e hx e he rfl

end LedgerInv

/-- The event a constructor or `queueEvent` is still working on. -/
def Frame.building : Frame → Option EventId
  | .register e _ | .appendWait e _ _ | .queueEvent e => some e
  | _ => none

def Builds (k : List Frame) (e : EventId) : Prop := ∃ f ∈ k, f.building = some e

@[simp] theorem builds_cons {f : Frame} {k : List Frame} {e : EventId} :
    Builds (f :: k) e ↔ f.building = some e ∨ Builds k e := by
  simp [Builds]

@[simp] theorem not_builds_nil {e : EventId} : ¬ Builds [] e := by
  simp [Builds]

/-- How a step by `t` changes the ledger of queue `q`. -/
inductive LedgerChange (s : State T) (t : T) (q : QueueId) : Ledger → Prop
  | same : LedgerChange s t q (s.queues q).ledger
  | append {e : EventId} {k : List Frame} : s.threads t = .queueEvent e :: k →
      (s.events e).parent = some q →
      LedgerChange s t q ((s.queues q).ledger.append e)
  | erase {i : Nat} {e : EventId} : (s.queues q).mutex = some t →
      (s.queues q).events[i]? = some e → (s.events e).status ≤ 0 →
      LedgerChange s t q ((s.queues q).ledger.erase i e)
  | take {f : PushFrame} {e : EventId} {k : List Frame} : s.threads t = .push f :: k →
      f.queue = q → f.pc = .examineWait → f.event (s.queues q) = some e →
      (s.events e).waitEvents = [] → (s.events e).type.isInstantaneous = true →
      LedgerChange s t q ((s.queues q).ledger.take f.it e)
  | hand {f : PushFrame} {e : EventId} {k : List Frame} : s.threads t = .push f :: k →
      f.queue = q → f.pc = .handOver → f.event (s.queues q) = some e →
      LedgerChange s t q ((s.queues q).ledger.hand e)

section

omit [DecidableEq T]

theorem ledgerChange_update {t : T} {p : QueueId} {Q : Queue T}
    (h : LedgerChange s t p Q.ledger) (q : QueueId) :
    LedgerChange s t q (Function.update s.queues p Q q).ledger := by
  by_cases hq : q = p
  · subst q
    simpa using h
  · rw [Function.update_of_ne hq]
    exact .same

theorem ledgerChange_same {t : T} {p : QueueId} {Q : Queue T}
    (h : Q.ledger = (s.queues p).ledger) (q : QueueId) :
    LedgerChange s t q (Function.update s.queues p Q q).ledger := by
  apply ledgerChange_update
  rw [h]
  exact .same

@[simp] theorem countCompletion_ledger (Q : Queue T) (b : Bool) :
    (Q.countCompletion b).ledger = Q.ledger := by
  cases b <;> rfl

@[simp] theorem wakeAndUnlock_ledger (Q : Queue T) : Q.wakeAndUnlock.ledger = Q.ledger := by
  unfold Queue.wakeAndUnlock
  split <;> rfl

@[simp] theorem wakeAndUnlock_taken (Q : Queue T) : Q.wakeAndUnlock.taken = Q.taken :=
  congrArg Ledger.taken (wakeAndUnlock_ledger Q)

@[simp] theorem wakeAndUnlock_erased (Q : Queue T) : Q.wakeAndUnlock.erased = Q.erased :=
  congrArg Ledger.erased (wakeAndUnlock_ledger Q)

@[simp] theorem leavePush_ledger (Q : Queue T) (r : Option EventId) :
    (Q.leavePush r).ledger = Q.ledger := by
  unfold Queue.leavePush
  rw [wakeAndUnlock_ledger]
  split <;> rfl

@[simp] theorem leaveClean_ledger (Q : Queue T) : Q.leaveClean.ledger = Q.ledger := by
  unfold Queue.leaveClean
  split <;> rfl

end

theorem step_ledger (h : Step s a s') (hm : MutexInv s) (q : QueueId) :
    LedgerChange s a.actor q (s'.queues q).ledger := by
  cases h
  case queueEvent hk hq _ => exact ledgerChange_update (.append hk hq) q
  case pushReturn => exact ledgerChange_same (by simp) q
  case pushEnter f k hk hpc hn =>
    refine ledgerChange_same ?_ q
    exact countCompletion_ledger (s.queues f.queue) f.oneEventCompleted
  case pushMove => exact ledgerChange_same (by rfl) q
  case pushErase hk hpc he =>
    refine ledgerChange_update (.erase (hm.of_push hk ?_) he ?_) q
    · rcases hpc with ⟨hpc, _⟩ | ⟨hpc, _⟩ <;> simp [hpc]
    · rcases hpc with ⟨_, hst⟩ | ⟨_, hst⟩
      · simp [hst]
      · omega
  case pushTake f e k hk hpc he hw hi =>
    apply ledgerChange_update
    rw [wakeAndUnlock_ledger]
    exact .take hk rfl hpc he hw hi
  case pushHandOver hk hpc he => exact ledgerChange_update (.hand hk rfl hpc he) q
  case pushLeave => exact ledgerChange_same (by simp) q
  case release => exact ledgerChange_same (by rfl) q
  case cleanEnter => exact ledgerChange_same (by rfl) q
  case cleanErase hk hpc he hst =>
    refine ledgerChange_update (.erase (hm.of_clean hk (by simp [hpc])) he ?_) q
    simp [hst]
  case cleanLeave => exact ledgerChange_same (by simp) q
  all_goals exact .same

/-- A thread starts to build an event only by allocating it. -/
theorem builds_step (h : Step s a s') (hs : ∀ t, StackShape (s.threads t)) {t : T} {e : EventId}
    (hb : Builds (s'.threads t) e) :
    Builds (s.threads t) e ∨
      t = a.actor ∧ e = s.nextEvent ∧ s'.nextEvent = s.nextEvent + 1 ∧
        ∃ q, (s'.events e).parent = some q := by
  by_cases ht : t = a.actor
  · subst ht
    have hsh := hs a.actor
    clear hs
    cases h
    case construct type q ws k hk =>
      simp only [actor_resume, State.setStack_threads, Function.update_self] at hb hsh
      rw [hk] at hsh
      obtain rfl : k = [] := hsh
      have he : s.nextEvent = e := by
        split at hb <;> simpa [Frame.building] using hb
      subst he
      exact .inr ⟨rfl, rfl, rfl, q, by simp [Event.command]⟩
    all_goals
      left
      simp_all [Frame.building, PushFrame.call, StatusFrame.call]
  · left
    rwa [step_threads_of_ne h ht] at hb

/-- A queued event is no longer built by the thread that queued it. -/
theorem not_builds_of_queueEvent (h : Step s a s') (hs : ∀ t, StackShape (s.threads t))
    {e : EventId} {k : List Frame} (hk : s.threads a.actor = .queueEvent e :: k) :
    ¬ Builds (s'.threads a.actor) e := by
  have hsh := hs a.actor
  clear hs
  rw [hk] at hsh
  obtain rfl : k = [] := hsh
  cases h <;> simp_all [Frame.building, PushFrame.call]

/-- Every command has one owner: the thread that builds it, and then its queue. -/
structure Owned (s : State T) : Prop where
  builds : ∀ {t e}, Builds (s.threads t) e →
    e < s.nextEvent ∧ (∃ q, (s.events e).parent = some q) ∧ ∀ q, e ∉ (s.queues q).queued
  unique : ∀ {t u e}, Builds (s.threads t) e → Builds (s.threads u) e → t = u
  queued : ∀ {q e}, e ∈ (s.queues q).queued → e < s.nextEvent ∧ (s.events e).parent = some q
  ledger : ∀ q, LedgerInv (s.queues q).ledger

theorem Owned.ledger_step (h : Step s a s') (hm : MutexInv s) (ho : Owned s) (q : QueueId) :
    LedgerInv (s'.queues q).ledger := by
  have hl := ho.ledger q
  have hc := step_ledger h hm q
  generalize (s'.queues q).ledger = l at hc
  cases hc with
  | same => exact hl
  | append hk _ =>
    have hb := ho.builds (t := a.actor) (by rw [hk]; exact ⟨_, List.mem_cons_self, rfl⟩)
    exact hl.append (hb.2.2 q)
  | erase _ he _ => exact hl.erase he
  | take _ _ _ he _ _ => exact hl.take he
  | hand _ _ _ he => exact hl.hand he

/-- An event joins the queue only by `queueEvent`. -/
theorem queued_step (h : Step s a s') (hm : MutexInv s) {q : QueueId} {e : EventId}
    (he : e ∈ (s'.queues q).queued) :
    e ∈ (s.queues q).queued ∨
      (s.events e).parent = some q ∧ ∃ k, s.threads a.actor = .queueEvent e :: k := by
  have hc := step_ledger h hm q
  have hl : (s'.queues q).ledger.queued = (s'.queues q).queued := rfl
  rw [← hl] at he
  generalize (s'.queues q).ledger = l at hc he
  cases hc with
  | append hk hp =>
    rcases List.mem_append.mp he with he | he
    · exact .inl he
    · rw [List.mem_singleton.mp he]
      exact .inr ⟨hp, _, hk⟩
  | same => exact .inl he
  | erase => exact .inl he
  | take => exact .inl he
  | hand => exact .inl he

theorem owned_step (h : Step s a s') (hs : ∀ t, StackShape (s.threads t)) (hm : MutexInv s)
    (ho : Owned s) : Owned s' where
  ledger := ho.ledger_step h hm
  queued := by
    intro q e he
    have hn := step_nextEvent h
    have hold : e < s.nextEvent ∧ (s.events e).parent = some q := by
      rcases queued_step h hm he with he | ⟨hp, k, hk⟩
      · exact ho.queued he
      · exact ⟨(ho.builds (t := a.actor) (by simp [hk, Frame.building])).1, hp⟩
    exact ⟨Nat.lt_of_lt_of_le hold.1 hn, (step_identity h hold.1).parent.trans hold.2⟩
  builds := by
    intro t e hb
    rcases builds_step h hs hb with hold | ⟨_, rfl, hn, hp⟩
    · obtain ⟨hlt, ⟨p, hp⟩, hq⟩ := ho.builds hold
      refine ⟨Nat.lt_of_lt_of_le hlt (step_nextEvent h),
        ⟨p, (step_identity h hlt).parent.trans hp⟩, ?_⟩
      intro q he
      rcases queued_step h hm he with he | ⟨_, k, hk⟩
      · exact hq q he
      · -- the queueing thread is the only builder, and has stopped building
        have ha : Builds (s.threads a.actor) e := by simp [hk, Frame.building]
        obtain rfl := ho.unique hold ha
        exact not_builds_of_queueEvent h hs hk hb
    · refine ⟨hn ▸ Nat.lt_succ_self _, hp, ?_⟩
      intro q he
      rcases queued_step h hm he with he | ⟨_, k, hk⟩
      · exact Nat.lt_irrefl _ (ho.queued he).1
      · exact Nat.lt_irrefl _ (ho.builds (t := a.actor) (by simp [hk, Frame.building])).1
  unique := by
    intro t u e ht hu
    rcases builds_step h hs ht with ht | ⟨ht, he, _⟩ <;>
      rcases builds_step h hs hu with hu | ⟨hu, he', _⟩
    · exact ho.unique ht hu
    · subst he'
      exact absurd (ho.builds ht).1 (Nat.lt_irrefl _)
    · subst he
      exact absurd (ho.builds hu).1 (Nat.lt_irrefl _)
    · rw [ht, hu]

/-- The invariants that every later argument starts from. -/
structure Wf (s : State T) : Prop where
  shape : ∀ t, StackShape (s.threads t)
  mutex : MutexInv s
  owned : Owned s

omit [DecidableEq T] in
theorem wf_initial (o : QueueId → Bool) : Wf (initial T o) where
  shape _ := trivial
  mutex q t := by simp [initial, Queue.empty]
  owned :=
    { builds := by simp [initial]
      unique := by simp [initial]
      queued := by simp [initial, Queue.empty]
      ledger := fun q => by
        constructor <;> simp [initial, Queue.empty, Queue.ledger] }

theorem wf_step (h : Step s a s') (hw : Wf s) : Wf s' where
  shape := stackShape_step h hw.shape
  mutex := mutex_step h hw.shape hw.mutex
  owned := owned_step h hw.shape hw.mutex hw.owned

theorem wf_reachable (h : Reachable (scheduler T) s) : Wf s := by
  apply h.invariant
  · rintro _ ⟨o, rfl⟩
    exact wf_initial o
  · intro s a s' _ hw ht
    exact wf_step (step_cases ht) hw

omit [DecidableEq T] in
theorem Wf.erased_queued (hw : Wf s) {q : QueueId} {e : EventId} (he : e ∈ (s.queues q).erased) :
    e ∈ (s.queues q).queued :=
  (hw.owned.ledger q).perm.mem_iff.mpr (List.mem_append_left _ he)

omit [DecidableEq T] in
/-- An event is queued in no queue but its own. -/
theorem Wf.queued_unique (hw : Wf s) {p q : QueueId} {e : EventId}
    (hp : e ∈ (s.queues p).queued) (hq : e ∈ (s.queues q).queued) : p = q :=
  Option.some.inj ((hw.owned.queued hp).2.symm.trans (hw.owned.queued hq).2)

end Shamrock.Scheduler
