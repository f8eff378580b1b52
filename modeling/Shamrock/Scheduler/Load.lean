import Shamrock.Scheduler.Counters

/-! As long as a queue counts events on the device, somebody is bound to push it again. -/
namespace Shamrock.Scheduler

open Transition

variable {T : Type} [DecidableEq T] {s s' : State T} {a : Action T} {q : QueueId} {x : EventId}

/-- Steps after which every started event of `q` still ends with a push of `q`: the device reports
no failure, and a failed dependency terminates only events that were not started. -/
def StartedKept (q : QueueId) (s : State T) : Action T → Prop
  | .resume t _ =>
    (∀ f ∈ s.reporting t, (s.events f.event).parent = some q → 0 ≤ f.status) ∧
    (∀ d ∈ s.terminating t, (s.events d).parent = some q →
      ¬ (s.events d).OnDevice ∧ d ∉ (s.queues q).taken)
  | _ => True

instance (q : QueueId) (s : State T) (a : Action T) : Decidable (StartedKept q s a) :=
  match a with
  | .resume t _ => inferInstanceAs (Decidable (
      (∀ f ∈ s.reporting t, (s.events f.event).parent = some q → 0 ≤ f.status) ∧
      (∀ d ∈ s.terminating t, (s.events d).parent = some q →
        ¬ (s.events d).OnDevice ∧ d ∉ (s.queues q).taken)))
  | .createUserEvent _ | .setUserEventStatus .. | .setCallback .. | .enqueue .. | .flush ..
  | .finish .. | .deviceSetStatus .. => inferInstanceAs (Decidable True)

theorem StartedKept.of_top (hg : StartedKept q s a) (h : Step s a s') {f : Frame}
    {k : List Frame} (hk : s.threads a.actor = f :: k) :
    (∀ f ∈ s.reporting a.actor, (s.events f.event).parent = some q → 0 ≤ f.status) ∧
    (∀ d ∈ s.terminating a.actor, (s.events d).parent = some q →
      ¬ (s.events d).OnDevice ∧ d ∉ (s.queues q).taken) := by
  obtain ⟨g, ha⟩ := resume_of_top h hk
  rw [ha] at hg
  exact hg

/-- A thread is about to write `COMPLETE` on `x`. -/
def Pretending (s : State T) (x : EventId) : Prop :=
  ∃ t f, .setStatus f ∈ s.threads t ∧ f.pc = .helper ∧ f.event = x ∧ f.status = clComplete

/-- The dummies that were taken from the list and are not complete yet. -/
def State.pretended (s : State T) (q : QueueId) : Nat :=
  (s.queues q).taken.countP fun e => decide ((s.events e).status ≠ clComplete)

/-- The queue counts no more events than are on the device, are taken, or have ended without
being counted. -/
structure LoadInv (q : QueueId) (s : State T) : Prop where
  status : ∀ x < s.nextEvent, (s.events x).status ≤ clQueued
  nodup : (s.queues q).taken.Nodup
  pretending : ∀ x ∈ (s.queues q).taken, (s.events x).status ≠ clComplete → Pretending s x
  handing : ∀ x, HandingOver s q x → 0 < (s.events x).status
  bound : (s.queues q).numEventsOnDevice ≤ s.onDevice q + s.pretended q + s.owed q

omit [DecidableEq T] in
/-- A call of `setStatus` before its helper is on top of its stack. -/
theorem Wf.helper_top (hw : Wf s) {t : T} {f : StatusFrame} (hf : .setStatus f ∈ s.threads t)
    (hpc : f.pc = .helper) : ∃ k, s.threads t = .setStatus f :: k := by
  have hsh := hw.shape t
  cases hk : s.threads t with
  | nil => simp [hk] at hf
  | cons g k =>
    rw [hk] at hf hsh
    rcases List.mem_cons.mp hf with rfl | hf
    · exact ⟨k, rfl⟩
    · rcases stackShape_tail hsh _ hf with ⟨i, num, hpc'⟩ | ⟨p, hp⟩
      · rw [hpc] at hpc'
        cases hpc'
      · cases hp

theorem status_le_step (h : Step s a s') (hr : ReportInv s)
    (hi : ∀ x < s.nextEvent, (s.events x).status ≤ clQueued) :
    ∀ x < s'.nextEvent, (s'.events x).status ≤ clQueued := by
  intro x hx
  by_cases hlt : x < s.nextEvent
  · have hst := step_status h hlt
    generalize (s'.events x).status = st at hst
    cases hst with
    | same => exact hi x hlt
    | submitted => decide
    | reported hk hpc =>
      unfold clQueued
      rcases (hr.head hk).1 hpc with ⟨_, hle⟩ | ⟨_, _, ⟨_, hrun | hle⟩ | ⟨_, hdone⟩⟩
      · omega
      · rw [hrun]
        decide
      · omega
      · rw [hdone]
        decide
    | terminated hk hpc =>
      have hst := (hr.failed hk hpc).1
      unfold clQueued
      omega
  · cases hp : (s'.events x).parent with
    | some p =>
      rw [startInv_new h hlt hx hp]
    | none =>
      cases h
      case createUserEvent =>
        have hx : x = s.nextEvent := Nat.le_antisymm (Nat.lt_succ_iff.mp hx) (not_lt.mp hlt)
        simp only [hx, State.newEvent_events, Function.update_self]
        decide
      case construct =>
        have hx : x = s.nextEvent := Nat.le_antisymm (Nat.lt_succ_iff.mp hx) (not_lt.mp hlt)
        simp [hx, Event.command] at hp
      all_goals exact absurd hx hlt

section Load

variable (h : Step s a s') (hg : StartedKept q s a) (hs : Sound s) (hi : LoadInv q s)
include hs

omit [DecidableEq T] in
/-- What the device and the queue itself report. -/
theorem Sound.disjoint (hx : x ∈ (s.queues q).handed) : x ∉ (s.queues q).taken := by
  intro ht
  have h₁ := hs.kind.handed q x hx
  rw [hs.kind.taken q x ht] at h₁
  cases h₁

include h

theorem pretending_step (hx : Pretending s x) :
    Pretending s' x ∨ (s'.events x).status = clComplete := by
  obtain ⟨t, f, hf, hpc, rfl, hst⟩ := hx
  by_cases ht : t = a.actor
  · subst ht
    right
    obtain ⟨k, hk⟩ := hs.wf.helper_top hf hpc
    cases status_next h hk with
    | helperNotify | helperReturn => simpa using hst
    | _ => simp_all
  · exact .inl ⟨t, f, by rwa [step_threads_of_ne h ht], hpc, rfl, hst⟩

include hi

theorem LoadInv.nodup_step : (s'.queues q).taken.Nodup := by
  have hc := step_ledger h hs.wf.mutex q
  change (s'.queues q).ledger.taken.Nodup
  generalize (s'.queues q).ledger = l at hc
  cases hc with
  | take hk hq hpc he =>
    have hnot := hs.wf.not_mem_taken he
    exact List.nodup_append_comm.mp (List.nodup_cons.mpr ⟨hnot, hi.nodup⟩)
  | _ => exact hi.nodup

include hg

theorem LoadInv.pretending_kept (hx : x ∈ (s'.queues q).taken)
    (hne : (s'.events x).status ≠ clComplete) : Pretending s' x := by
  by_cases hold : x ∈ (s.queues q).taken
  · obtain ⟨hlt, hp⟩ := hs.wf.taken_lt hold
    by_cases hst : (s.events x).status = clComplete
    · have hch := step_status h hlt
      generalize (s'.events x).status = st at hch hne
      cases hch with
      | same => exact absurd hst hne
      | submitted _ _ he =>
        obtain rfl := Option.some.inj ((hs.wf.event_lt he).2.symm.trans hp)
        exact absurd hold (hs.wf.not_mem_taken he)
      | reported hk hpc he =>
        subst he
        rcases hs.report.started hs.calls hk hpc hp with ⟨hm, -⟩ | ⟨-, hm⟩
        · exact absurd hold (hs.disjoint hm)
        · exact absurd hm hne
      | terminated hk hpc =>
        have ht := terminating_iff.mpr ⟨_, _, _, _, _, hk, hpc⟩
        exact absurd hold ((hg.of_top h hk).2 x ht hp).2
    · exact (pretending_step h hs (hi.pretending x hold hst)).resolve_right hne
  · rcases taken_step h hs.wf.mutex hx with hx | ⟨f, k, hk, rfl, hpc, he, -, -⟩
    · exact absurd hx hold
    · cases push_next h hk with
      | @taken e _ he' =>
        obtain rfl : e = x := Option.some.inj (he'.symm.trans he)
        exact ⟨a.actor, .call e clComplete, by simp, rfl, rfl, rfl⟩
      | moved hm => cases hm <;> simp_all [Queue.setFlushed]
      | _ => simp_all

theorem LoadInv.handing_kept (hx : HandingOver s' q x) : 0 < (s'.events x).status := by
  obtain ⟨t, f, k, hk, rfl, hpc, he⟩ := hx
  by_cases ht : t = a.actor
  · subst ht
    cases push_top h hs.wf hk with
    | called hc => simp [hc] at hpc
    | entered _ _ _ hf => simp [hf] at hpc
    | erased _ _ _ hf => simp [hf] at hpc
    | handed _ _ _ hf => simp [hf] at hpc
    | moved _ hm => cases hm <;> simp_all
    | submitted hk' hpc' he' hf hq hev =>
      subst hf
      rw [hq] at he
      obtain rfl : _ = x := Option.some.inj (he'.symm.trans he)
      rw [hev, Function.update_self, Event.setStatusHelper_status]
      decide
  · rw [step_threads_of_ne h ht] at hk
    obtain ⟨l, hl⟩ := step_queue_locked h hs.wf.mutex (hs.wf.mutex.of_push hk (by simp [hpc])) ht
    rw [hl] at he
    obtain ⟨hlt, hp⟩ := hs.wf.event_lt he
    have hhand : HandingOver s f.queue x := ⟨t, f, k, hk, rfl, hpc, he⟩
    have hold := hi.handing x hhand
    have hst := step_status h hlt
    generalize (s'.events x).status = st at hst
    cases hst with
    | same => exact hold
    | submitted => decide
    | reported hk' hpc' he' =>
      -- the device is given the event only after this
      subst he'
      have hfresh := hs.hand.fresh _ _ _ _ hk (.inr (.inr hpc)) he
      rcases hs.report.started hs.calls hk' hpc' hp with ⟨hm, -⟩ | ⟨hm, -⟩
      · exact absurd hm hfresh
      · exact absurd hm (hs.wf.not_mem_taken he)
    | terminated hk' hpc' =>
      have ht := terminating_iff.mpr ⟨_, _, _, _, _, hk', hpc'⟩
      refine absurd ?_ ((hg.of_top h hk').2 x ht hp).1
      have hne := hs.hand.handing _ x hhand
      have hle := hi.status x hlt
      unfold clQueued at hne hle
      unfold Event.OnDevice clSubmitted clRunning
      omega

end Load

section

omit [DecidableEq T]

/-- Events that end no event of `q` lower none of the two counts. -/
theorem load_mono (hw : Wf s) (hha : (s'.queues q).handed = (s.queues q).handed)
    (hta : (s'.queues q).taken = (s.queues q).taken)
    (hst : ∀ x < s.nextEvent, (s.events x).parent = some q →
      (0 < (s.events x).status → 0 < (s'.events x).status) ∧
      ((s.events x).status ≠ clComplete → (s'.events x).status ≠ clComplete)) :
    s.onDevice q ≤ s'.onDevice q ∧ s.pretended q ≤ s'.pretended q := by
  unfold State.onDevice State.pretended
  rw [hha, hta]
  constructor
  · refine List.countP_mono_left fun x hx => ?_
    obtain ⟨hlt, hp⟩ := hw.handed_lt hx
    simpa using (hst x hlt hp).1
  · refine List.countP_mono_left fun x hx => ?_
    obtain ⟨hlt, hp⟩ := hw.taken_lt hx
    simpa using (hst x hlt hp).2

/-- The end of one event is made up for by the completion that is owed. -/
theorem LoadInv.load_complete (hi : LoadInv q s) (hs : Sound s)
    (hha : (s'.queues q).handed = (s.queues q).handed)
    (hta : (s'.queues q).taken = (s.queues q).taken)
    (hup : s'.events = Function.update s.events x ((s.events x).setStatusHelper clComplete)) :
    s.onDevice q + s.pretended q ≤ s'.onDevice q + s'.pretended q + 1 := by
  have hne : ∀ y, y ≠ x → s'.events y = s.events y := fun y hy => by simp [hup, hy]
  unfold State.onDevice State.pretended
  rw [hha, hta]
  by_cases hx : x ∈ (s.queues q).handed
  · have hnot := hs.disjoint hx
    have h₁ : (s.queues q).handed.countP (fun e => decide (0 < (s.events e).status)) ≤
        (s.queues q).handed.countP (fun e => decide (0 < (s'.events e).status)) + 1 :=
      Tally.countP_le_add_one (x := x) (hs.hand.nodup q) fun y _ hy => by simp [hne y hy]
    have h₂ : (s.queues q).taken.countP (fun e => decide ((s'.events e).status ≠ clComplete)) =
        (s.queues q).taken.countP fun e => decide ((s.events e).status ≠ clComplete) := by
      refine List.countP_congr fun y (hmem : y ∈ (s.queues q).taken) => ?_
      rw [hne y (fun hyx => hnot (hyx ▸ hmem))]
    omega
  · have h₁ : (s.queues q).handed.countP (fun e => decide (0 < (s'.events e).status)) =
        (s.queues q).handed.countP fun e => decide (0 < (s.events e).status) := by
      refine List.countP_congr fun y (hmem : y ∈ (s.queues q).handed) => ?_
      rw [hne y (fun hyx => hx (hyx ▸ hmem))]
    have h₂ : (s.queues q).taken.countP (fun e => decide ((s.events e).status ≠ clComplete)) ≤
        (s.queues q).taken.countP (fun e => decide ((s'.events e).status ≠ clComplete)) + 1 :=
      Tally.countP_le_add_one (x := x) hi.nodup fun y _ hy => by simp [hne y hy]
    omega

/-- As `load_mono`, where the queue counts no more than its events and what it is owed allow. -/
theorem LoadInv.bound_of_mono (hi : LoadInv q s) (hw : Wf s) {B : Books}
    (hB : (s'.queues q).books = B) (hha : B.ledger.handed = (s.queues q).handed)
    (hta : B.ledger.taken = (s.queues q).taken)
    (hle : B.onDevice + s.owed q ≤ (s.queues q).numEventsOnDevice + s'.owed q)
    (hst : ∀ x < s.nextEvent, (s.events x).parent = some q →
      (0 < (s.events x).status → 0 < (s'.events x).status) ∧
      ((s.events x).status ≠ clComplete → (s'.events x).status ≠ clComplete)) :
    (s'.queues q).numEventsOnDevice ≤ s'.onDevice q + s'.pretended q + s'.owed q := by
  subst hB
  have hb := hi.bound
  have hmono := load_mono hw hha hta hst
  have hcount : (s'.queues q).books.onDevice = (s'.queues q).numEventsOnDevice := rfl
  omega

/-- A status that ends no event. -/
theorem load_kept_of_pos {st : Int} (hpos : 0 < st)
    (hev : s'.events = Function.update s.events x ((s.events x).setStatusHelper st)) (y : EventId) :
    (0 < (s.events y).status → 0 < (s'.events y).status) ∧
      ((s.events y).status ≠ clComplete → (s'.events y).status ≠ clComplete) := by
  by_cases hyx : y = x
  · subst hyx
    rw [hev, Function.update_self, Event.setStatusHelper_status]
    exact ⟨fun _ => hpos, fun _ => ne_of_gt hpos⟩
  · rw [hev, Function.update_of_ne hyx]
    exact ⟨id, id⟩

/-- A dependency fails only events that are neither on the device nor taken. -/
theorem LoadInv.load_terminate (hi : LoadInv q s) (hs : Sound s) {st : Int}
    (hlt : x < s.nextEvent) (hnot : ¬(s.events x).OnDevice ∧ x ∉ (s.queues q).taken)
    (hha : (s'.queues q).handed = (s.queues q).handed)
    (hta : (s'.queues q).taken = (s.queues q).taken)
    (hev : s'.events = Function.update s.events x ((s.events x).setStatusHelper st)) :
    s.onDevice q ≤ s'.onDevice q ∧ s.pretended q ≤ s'.pretended q := by
  unfold State.onDevice State.pretended
  rw [hha, hta]
  constructor
  · refine List.countP_mono_left fun y hy => ?_
    by_cases hyx : y = x
    · -- a handed event that has not ended is on the device
      subst hyx
      have hq := hs.hand.status q y hy
      have hle := hi.status y hlt
      have hon := hnot.1
      unfold clQueued at hq hle
      unfold Event.OnDevice clSubmitted clRunning at hon
      intro hpos
      have hpos := of_decide_eq_true hpos
      omega
    · simp [hev, hyx]
  · refine List.countP_mono_left fun y hy => ?_
    have hyx : y ≠ x := fun hyx => hnot.2 (hyx ▸ hy)
    simp [hev, hyx]

end

theorem LoadInv.bound_step (h : Step s a s') (hg : StartedKept q s a) (hs : Sound s)
    (hc : Called s) (hi : LoadInv q s) :
    (s'.queues q).numEventsOnDevice ≤ s'.onDevice q + s'.pretended q + s'.owed q := by
  have hb := hi.bound
  cases booking_step h hs hc q with
  | other hB ho hst =>
    refine hi.bound_of_mono hs.wf hB rfl rfl (by rw [ho]; exact le_rfl) fun x hx hp => ?_
    rw [hst x hx hp]
    exact ⟨id, id⟩
  | append hk hp hB ho hev =>
    refine hi.bound_of_mono hs.wf hB rfl rfl (by rw [ho]; exact le_rfl) fun x _ _ => ?_
    rw [hev]
    exact ⟨id, id⟩
  | counted hk hpc hq hone hB ho hev =>
    refine hi.bound_of_mono hs.wf hB rfl rfl (by dsimp only; omega) fun x _ _ => ?_
    rw [hev]
    exact ⟨id, id⟩
  | erased he hle hB ho hev =>
    refine hi.bound_of_mono hs.wf hB rfl rfl (by rw [ho]; exact le_rfl) fun x _ _ => ?_
    rw [hev]
    exact ⟨id, id⟩
  | @taken f e k hk hq hpc he hw hin hB ho hev =>
    subst hq
    obtain ⟨-, h₂, h₃, -⟩ := books_fields hB
    have ht := congrArg (fun B => B.ledger.taken) hB
    simp only [Queue.books, Queue.ledger, Ledger.take, Ledger.erase] at h₂ h₃ ht
    have hst : (s.events e).status ≠ clComplete := by
      rcases hs.start.examined hs.hand hs.wf hk (.inl hpc) he with hst | hst
      · simp [hst]
      · unfold clComplete
        omega
    have hon : s'.onDevice f.queue = s.onDevice f.queue := by simp [State.onDevice, h₂, hev]
    have hpr : s'.pretended f.queue = s.pretended f.queue + 1 := by
      simp [State.pretended, ht, hev, hst]
    omega
  | @handed f e k hk hq hpc he hB ho hev =>
    obtain ⟨-, h₂, h₃, -⟩ := books_fields hB
    have ht := congrArg (fun B => B.ledger.taken) hB
    simp only [Queue.books, Queue.ledger, Ledger.hand] at h₂ h₃ ht
    have hpos := hi.handing e ⟨a.actor, f, k, hk, hq, hpc, he⟩
    have hon : s'.onDevice q = s.onDevice q + 1 := by simp [State.onDevice, h₂, hev, hpos]
    have hpr : s'.pretended q = s.pretended q := by simp [State.pretended, ht, hev]
    omega
  | submitted hk hq hpc he hB ho hev =>
    exact hi.bound_of_mono hs.wf hB rfl rfl (by rw [ho]; exact le_rfl)
      fun x _ _ => load_kept_of_pos (by decide) hev x
  | @reported f k hk hpc hp hB ho hev =>
    have hle := (hg.of_top h hk).1 f (reporting_eq hk hpc) hp
    split at ho
    case isTrue hst =>
      obtain ⟨-, h₂, h₃, -⟩ := books_fields hB
      have ht := congrArg (fun B => B.ledger.taken) hB
      simp only [Queue.books, Queue.ledger] at h₂ h₃ ht
      rw [hst] at hev
      have hmono := hi.load_complete hs h₂ ht hev
      omega
    case isFalse hst =>
      have hpos : 0 < f.status := lt_of_le_of_ne hle (Ne.symm hst)
      exact hi.bound_of_mono hs.wf hB rfl rfl (by rw [ho]; exact le_rfl)
        fun x _ _ => load_kept_of_pos hpos hev x
  | terminated hk hpc hB ho hev =>
    obtain ⟨-, h₂, h₃, -⟩ := books_fields hB
    have ht := congrArg (fun B => B.ledger.taken) hB
    simp only [Queue.books, Queue.ledger] at h₂ h₃ ht
    obtain ⟨-, hd, hp⟩ := hs.report.failed hk hpc
    have hnot := (hg.of_top h hk).2 _ (terminating_iff.mpr ⟨_, _, _, _, _, hk, hpc⟩) hp
    have hmono := hi.load_terminate hs hd hnot h₂ ht hev
    omega
  | repeated hk hpc hlt hd hp hp' hw hpushed hB ho hst =>
    refine hi.bound_of_mono hs.wf hB rfl rfl (Int.add_le_add le_rfl (by omega)) fun x _ _ => ?_
    rw [hst x]
    exact ⟨id, id⟩

theorem loadInv_step (h : Step s a s') (hg : StartedKept q s a) (hs : Sound s) (hc : Called s)
    (hi : LoadInv q s) : LoadInv q s' where
  status := status_le_step h hs.report hi.status
  nodup := hi.nodup_step h hs
  pretending _ hx hne := hi.pretending_kept h hg hs hx hne
  handing _ hx := hi.handing_kept h hg hs hx
  bound := hi.bound_step h hg hs hc

theorem loadInv_reachable (h : Reachable ((scheduler T).restrict (StartedKept q)) s) :
    LoadInv q s := by
  apply h.invariant
  · rintro _ ⟨o, rfl⟩
    constructor <;> simp [initial, Queue.empty, HandingOver, State.onDevice, State.pretended,
      State.owed]
  · intro s a s' hr hi ht
    exact loadInv_step (step_cases ht.1) ht.2 (sound_reachable hr.of_restrict)
      (called_reachable hr.of_restrict) hi

/-- The call cannot return without a new traversal of `q`: it is about to start one, it completes
an event of `q` and has not pushed `q` for that, or it is about to terminate a dependent in `q`. -/
def Frame.WillPush (ev : EventId → Event) (q : QueueId) : Frame → Prop
  | .push f => f.queue = q ∧ f.pc = .acquire
  | .setStatus f =>
    f.status = clComplete ∧ (ev f.event).parent = some q ∧ f.alreadyPushed = false ∨
      ∃ i num d, f.pc = .terminate i num d q
  | _ => False

/-- A new traversal of `q` is still to come. -/
def PushDue (s : State T) (q : QueueId) : Prop :=
  (∃ x < s.nextEvent, (s.events x).parent = some q ∧ (s.events x).OnDevice) ∨
    ∃ t, ∃ f ∈ s.threads t, f.WillPush s.events q

omit [DecidableEq T] in
/-- Not to push is no starvation: what the queue counts on the device leads to a push. -/
theorem LoadInv.pushDue (hi : LoadInv q s) (hs : Sound s) (hc : Called s)
    (hpos : 0 < (s.queues q).numEventsOnDevice) : PushDue s q := by
  have hb := hi.bound
  have hsum : 0 < s.onDevice q ∨ 0 < s.pretended q ∨ s.owed q ≠ 0 := by omega
  rcases hsum with hon | hpr | how
  · left
    obtain ⟨x, hx, hst⟩ := List.countP_pos_iff.mp hon
    have hst := of_decide_eq_true hst
    obtain ⟨hlt, hp⟩ := hs.wf.handed_lt hx
    have hne := hs.hand.status q x hx
    have hle := hi.status x hlt
    refine ⟨x, hlt, hp, ?_⟩
    unfold clQueued at hne hle
    unfold Event.OnDevice clSubmitted clRunning
    omega
  · right
    obtain ⟨x, hx, hst⟩ := List.countP_pos_iff.mp hpr
    obtain ⟨t, f, hf, hpc, rfl, hcomp⟩ := hi.pretending x hx (of_decide_eq_true hst)
    exact ⟨t, .setStatus f, hf, .inl ⟨hcomp, (hs.wf.taken_lt hx).2, hc.fresh t _ hf hpc⟩⟩
  · right
    obtain ⟨t, ht⟩ := not_forall.mp (mt finsum_eq_zero_of_forall_eq_zero how)
    obtain ⟨f, hf, hcount⟩ := List.countP_pos_iff.mp (Nat.pos_of_ne_zero ht)
    refine ⟨t, f, hf, ?_⟩
    cases f with
    | push f =>
      simp only [counts_push, Bool.and_eq_true, decide_eq_true_eq] at hcount
      exact ⟨hcount.1.2, hcount.1.1⟩
    | setStatus f =>
      simp only [counts_setStatus, Bool.and_eq_true, decide_eq_true_eq,
        Bool.not_eq_true'] at hcount
      obtain ⟨⟨hpc, hp⟩, hpushed⟩ := hcount
      have hnu := (hs.calls.event _ (hs.calls.frame t _ hf).1).parent (by simp [hp])
      exact .inl ⟨((hs.report t _ hf).2.1 hpc).resolve_left hnu, hp, hpushed⟩
    | _ => cases hcount

end Shamrock.Scheduler
