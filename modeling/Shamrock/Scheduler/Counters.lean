import Shamrock.Scheduler.Booking

/-! The scheduling counters of a queue are exact between calls, as long as every completion is
counted once. -/
namespace Shamrock.Scheduler

open Transition

variable {T : Type} [DecidableEq T] {s s' : State T} {a : Action T} {q : QueueId} {x : EventId}

/-- The queue that thread `t` is about to push once more for the same completed event. -/
def State.pushingAgain (s : State T) (t : T) : Option QueueId :=
  match s.threads t with
  | .setStatus f :: _ =>
    match f.pc with
    | .notify i num =>
      if i < num ∧ f.alreadyPushed then
        (s.events f.event).dependentEvents[i]?.bind fun d =>
          if (s.events d).waitEvents.filter (· ≠ f.event) = [] ∧
              (s.events d).parent = (s.events f.event).parent then (s.events d).parent
          else none
      else none
    | _ => none
  | _ => none

omit [DecidableEq T] in
theorem pushingAgain_eq {t : T} {f : StatusFrame} {k : List Frame} {i num : Nat} {d : EventId}
    (hk : s.threads t = .setStatus f :: k) (hpc : f.pc = .notify i num) (hi : i < num)
    (hd : (s.events f.event).dependentEvents[i]? = some d)
    (hp : (s.events f.event).parent = some q) (hp' : (s.events d).parent = some q)
    (hw : (s.events d).waitEvents.filter (· ≠ f.event) = []) (hpushed : f.alreadyPushed = true) :
    s.pushingAgain t = some q := by
  unfold State.pushingAgain
  rw [hk]
  simp only [hpc]
  rw [if_pos ⟨hi, hpushed⟩, hd, Option.bind_some, if_pos ⟨hw, hp'.trans hp.symm⟩]
  exact hp'

/-- Steps that count every completion in `q` once: no dummy is taken from the list, the device
reports no failure and nothing after the end of an event, no event of `q` is terminated by a
failed dependency, and no completion makes a second dependent ready in the same queue. -/
def CountsKept (q : QueueId) (s : State T) : Action T → Prop
  | .resume t _ =>
    (∀ f ∈ s.pushing t, f.queue = q → f.pc = .examineWait → ∀ e ∈ f.event (s.queues q),
      ¬ ((s.events e).waitEvents = [] ∧ (s.events e).type.isInstantaneous = true)) ∧
    (∀ f ∈ s.reporting t, (s.events f.event).parent = some q →
      0 < (s.events f.event).status ∧ 0 ≤ f.status) ∧
    (∀ d ∈ s.terminating t, (s.events d).parent ≠ some q) ∧
    s.pushingAgain t ≠ some q
  | _ => True

instance (q : QueueId) (s : State T) (a : Action T) : Decidable (CountsKept q s a) :=
  match a with
  | .resume t _ => inferInstanceAs (Decidable (
      (∀ f ∈ s.pushing t, f.queue = q → f.pc = .examineWait → ∀ e ∈ f.event (s.queues q),
        ¬ ((s.events e).waitEvents = [] ∧ (s.events e).type.isInstantaneous = true)) ∧
      (∀ f ∈ s.reporting t, (s.events f.event).parent = some q →
        0 < (s.events f.event).status ∧ 0 ≤ f.status) ∧
      (∀ d ∈ s.terminating t, (s.events d).parent ≠ some q) ∧
      s.pushingAgain t ≠ some q))
  | .createUserEvent _ | .setUserEventStatus .. | .setCallback .. | .enqueue .. | .flush ..
  | .finish .. | .deviceSetStatus .. => inferInstanceAs (Decidable True)

theorem CountsKept.of_top (hg : CountsKept q s a) (h : Step s a s') {f : Frame} {k : List Frame}
    (hk : s.threads a.actor = f :: k) :
    (∀ f ∈ s.pushing a.actor, f.queue = q → f.pc = .examineWait → ∀ e ∈ f.event (s.queues q),
      ¬ ((s.events e).waitEvents = [] ∧ (s.events e).type.isInstantaneous = true)) ∧
    (∀ f ∈ s.reporting a.actor, (s.events f.event).parent = some q →
      0 < (s.events f.event).status ∧ 0 ≤ f.status) ∧
    (∀ d ∈ s.terminating a.actor, (s.events d).parent ≠ some q) ∧
    s.pushingAgain a.actor ≠ some q := by
  obtain ⟨g, ha⟩ := resume_of_top h hk
  rw [ha] at hg
  exact hg

/-- The events given to the device that have not ended. -/
def State.onDevice (s : State T) (q : QueueId) : Nat :=
  (s.queues q).handed.countP fun e => decide (0 < (s.events e).status)

/-- The terminal events still in the list. -/
def State.ended (s : State T) (q : QueueId) : Nat :=
  (s.queues q).events.countP fun e => decide (s.events e).Terminal

/-- Both counters, up to the completions that are owed. -/
structure CountInv (q : QueueId) (s : State T) : Prop where
  status : ∀ x < s.nextEvent, (s.events x).parent = some q →
    0 ≤ (s.events x).status ∧ (s.events x).status ≤ clQueued
  taken : (s.queues q).taken = []
  erased : ∀ x ∈ (s.queues q).erased, (s.events x).Terminal
  handing : ∀ x, HandingOver s q x → 0 < (s.events x).status
  onDevice : (s.queues q).numEventsOnDevice = s.onDevice q + s.owed q
  completed : (s.queues q).numEventsCompleted + s.owed q = s.ended q

theorem terminal_iff {ev : Event} : ev.Terminal ↔ ¬ 0 < ev.status := not_lt.symm

section

omit [DecidableEq T]

theorem Wf.event_mem (hw : Wf s) (hx : x ∈ (s.queues q).events) :
    x < s.nextEvent ∧ (s.events x).parent = some q :=
  hw.owned.queued ((hw.owned.ledger q).sublist.subset hx)

/-- A step that changes no list and ends no event of `q` changes neither count. -/
theorem counts_same (hw : Wf s) (hev : (s'.queues q).events = (s.queues q).events)
    (hha : (s'.queues q).handed = (s.queues q).handed)
    (hst : ∀ x < s.nextEvent, (s.events x).parent = some q →
      (0 < (s'.events x).status ↔ 0 < (s.events x).status)) :
    s'.onDevice q = s.onDevice q ∧ s'.ended q = s.ended q := by
  unfold State.onDevice State.ended
  rw [hev, hha]
  constructor
  · refine List.countP_congr fun x hx => ?_
    obtain ⟨hlt, hp⟩ := hw.handed_lt hx
    simpa using hst x hlt hp
  · refine List.countP_congr fun x hx => ?_
    obtain ⟨hlt, hp⟩ := hw.event_mem hx
    rw [decide_eq_true_iff, decide_eq_true_iff, terminal_iff, terminal_iff]
    exact not_congr (hst x hlt hp)

/-- A handed event that has not ended is still in the list. -/
theorem CountInv.mem_events (hi : CountInv q s) (hw : Wf s) (hx : x ∈ (s.queues q).handed)
    (hpos : 0 < (s.events x).status) : x ∈ (s.queues q).events := by
  have hl := hw.owned.ledger q
  rcases List.mem_append.mp (hl.perm.mem_iff.mp (hl.handed hx)) with hm | hm
  · exact absurd (hi.erased x hm) (not_le.mpr hpos)
  · exact hm

/-- A completion moves one event from the first count to the second. -/
theorem CountInv.counts_complete (hi : CountInv q s) (hs : Sound s)
    (hev : (s'.queues q).events = (s.queues q).events)
    (hha : (s'.queues q).handed = (s.queues q).handed) (hx : x ∈ (s.queues q).handed)
    (hpos : 0 < (s.events x).status)
    (hup : s'.events = Function.update s.events x ((s.events x).setStatusHelper clComplete)) :
    s.onDevice q = s'.onDevice q + 1 ∧ s'.ended q = s.ended q + 1 := by
  have hl := hs.wf.owned.ledger q
  unfold State.onDevice State.ended
  rw [hev, hha, hup]
  constructor
  · refine Tally.countP_add_one (hs.hand.nodup q) hx (by simp) (by simpa using hpos) ?_
    intro y _ hy
    simp [hy]
  · refine Tally.countP_add_one (x := x) (hl.sublist.nodup hl.nodup) (hi.mem_events hs.wf hx hpos)
      ?_ ?_ ?_
    · exact decide_eq_false (terminal_iff.not.mpr (not_not.mpr hpos))
    · exact decide_eq_true (by simp [terminal_iff])
    · intro y _ hy
      simp [hy]

theorem books_fields {Q : Queue T} {B : Books} (h : Q.books = B) :
    Q.events = B.ledger.events ∧ Q.handed = B.ledger.handed ∧
      Q.numEventsOnDevice = B.onDevice ∧ Q.numEventsCompleted = B.completed := by
  subst h
  exact ⟨rfl, rfl, rfl, rfl⟩

end

section Count

variable (h : Step s a s') (hg : CountsKept q s a) (hs : Sound s) (hi : CountInv q s)
include hs hi

omit [DecidableEq T] in
/-- Only queued events are submitted. -/
theorem CountInv.submitting {f : PushFrame} {k : List Frame} {t : T}
    (hk : s.threads t = .push f :: k) (hq : f.queue = q) (hpc : f.pc = .submit)
    (he : f.event (s.queues f.queue) = some x) : (s.events x).status = clQueued := by
  subst hq
  obtain ⟨hlt, hp⟩ := hs.wf.event_lt he
  rcases hs.start.examined hs.hand hs.wf hk (.inr hpc) he with hst | hst
  · exact hst
  · have := (hi.status x hlt hp).1
    omega

omit [DecidableEq T] in
/-- A command that is still to be queued has not ended. -/
theorem CountInv.building_pos {t : T} (hb : Builds (s.threads t) x)
    (hp : (s.events x).parent = some q) : ¬ (s.events x).Terminal := by
  obtain ⟨hlt, -, hq⟩ := hs.wf.owned.builds hb
  have hl := hs.wf.owned.ledger q
  have hh : x ∉ (s.queues q).handed := fun hm => hq q (hl.handed hm)
  have ht : x ∉ (s.queues q).taken := by simp [hi.taken]
  have h0 := (hi.status x hlt hp).1
  rcases hs.start q x hlt hp hh ht with hst | hst | ⟨u, f, k, hk, rfl, hpc, he⟩
  · rw [Event.Terminal, hst]
    decide
  · omega
  · exact absurd (hl.mem_queued he) (hq _)

include h hg

/-- A guarded step writes `SUBMITTED` on queued events, and `RUNNING` or `COMPLETE` on events
that are on the device. -/
theorem CountInv.status_step (hx : x < s.nextEvent) (hp : (s.events x).parent = some q) :
    (s'.events x).status = (s.events x).status ∨
      0 < (s.events x).status ∧ 0 ≤ (s'.events x).status ∧ (s'.events x).status ≤ clSubmitted := by
  have hst := step_status h hx
  generalize (s'.events x).status = st at hst
  cases hst with
  | same => exact .inl rfl
  | submitted hk hpc he =>
    have hq := Option.some.inj ((hs.wf.event_lt he).2.symm.trans hp)
    rw [hi.submitting hs hk hq hpc he]
    exact .inr (by decide)
  | reported hk hpc he =>
    subst he
    obtain ⟨hpos, hle⟩ := (hg.of_top h hk).2.1 _ (reporting_eq hk hpc) hp
    refine .inr ⟨hpos, hle, ?_⟩
    unfold clSubmitted
    rcases hs.report.started hs.calls hk hpc hp with ⟨_, hst⟩ | ⟨_, hst⟩
    · unfold clRunning at hst
      omega
    · rw [hst]
      decide
  | @terminated f i num p k hk hpc =>
    exact absurd hp ((hg.of_top h hk).2.2.1 x (terminating_iff.mpr ⟨f, k, i, num, p, hk, hpc⟩))

theorem CountInv.terminal_step (hx : x < s.nextEvent) (hp : (s.events x).parent = some q)
    (ht : (s.events x).Terminal) : (s'.events x).status = (s.events x).status := by
  rcases hi.status_step h hg hs hx hp with heq | ⟨hpos, -⟩
  · exact heq
  · exact absurd ht (not_le.mpr hpos)

theorem CountInv.taken_kept : (s'.queues q).taken = [] := by
  rw [List.eq_nil_iff_forall_not_mem]
  intro x hx
  rcases taken_step h hs.wf.mutex hx with hx | ⟨f, k, hk, hq, hpc, he, hw, hin⟩
  · simp [hi.taken] at hx
  · exact (hg.of_top h hk).1 f (pushing_eq hk) hq hpc x he ⟨hw, hin⟩

theorem CountInv.handing_kept (hx : HandingOver s' q x) : 0 < (s'.events x).status := by
  obtain ⟨t, f, k, hk, rfl, hpc, he⟩ := hx
  by_cases ht : t = a.actor
  · subst ht
    cases push_top h hs.wf hk with
    | called hc => simp [hc] at hpc
    | entered _ _ _ hf => simp [hf] at hpc
    | erased _ _ _ hf => simp [hf] at hpc
    | handed _ _ _ hf => simp [hf] at hpc
    | moved _ hm => cases hm <;> simp_all
    | submitted hk' hpc' he' hf hq hev =>
      subst hf
      rw [hq] at he
      obtain rfl : _ = x := Option.some.inj (he'.symm.trans he)
      rw [hev, Function.update_self, Event.setStatusHelper_status]
      decide
  · rw [step_threads_of_ne h ht] at hk
    obtain ⟨l, hl⟩ := step_queue_locked h hs.wf.mutex (hs.wf.mutex.of_push hk (by simp [hpc])) ht
    rw [hl] at he
    obtain ⟨hlt, hp⟩ := hs.wf.event_lt he
    have hold := hi.handing x ⟨t, f, k, hk, rfl, hpc, he⟩
    have hst := step_status h hlt
    generalize (s'.events x).status = st at hst
    cases hst with
    | same => exact hold
    | submitted => decide
    | reported hk' hpc' he' =>
      -- the device is given the event only after this
      subst he'
      have hfresh := hs.hand.fresh _ _ _ _ hk (.inr (.inr hpc)) he
      rcases hs.report.started hs.calls hk' hpc' hp with ⟨hm, -⟩ | ⟨hm, -⟩
      · exact absurd hm hfresh
      · simp [hi.taken] at hm
    | @terminated g i num p k' hk' hpc' =>
      exact absurd hp
        ((hg.of_top h hk').2.2.1 x (terminating_iff.mpr ⟨g, k', i, num, p, hk', hpc'⟩))

theorem CountInv.erased_kept (hx : x ∈ (s'.queues q).erased) : (s'.events x).Terminal := by
  have hold : x < s.nextEvent ∧ (s.events x).parent = some q ∧ (s.events x).Terminal := by
    have hc := step_ledger h hs.wf.mutex q
    have hl : x ∈ (s'.queues q).ledger.erased := hx
    generalize (s'.queues q).ledger = l at hc hl
    have hmem : x ∈ (s.queues q).erased →
        x < s.nextEvent ∧ (s.events x).parent = some q ∧ (s.events x).Terminal := fun hm =>
      have hq := hs.wf.owned.queued (hs.wf.erased_queued hm)
      ⟨hq.1, hq.2, hi.erased x hm⟩
    cases hc with
    | erase _ he hle =>
      rcases List.mem_append.mp hl with hl | hl
      · exact hmem hl
      · rw [List.mem_singleton.mp hl]
        exact ⟨(hs.wf.event_lt he).1, (hs.wf.event_lt he).2, hle⟩
    | take hk hq hpc he hw hin =>
      exact absurd ⟨hw, hin⟩ ((hg.of_top h hk).1 _ (pushing_eq hk) hq hpc _ he)
    | same => exact hmem hl
    | append => exact hmem hl
    | hand => exact hmem hl
  obtain ⟨hlt, hp, ht⟩ := hold
  have heq := hi.terminal_step h hg hs hlt hp ht
  unfold Event.Terminal at ht ⊢
  omega

theorem CountInv.counters_step (hc : Called s) :
    (s'.queues q).numEventsOnDevice = s'.onDevice q + s'.owed q ∧
      (s'.queues q).numEventsCompleted + s'.owed q = s'.ended q := by
  have hon := hi.onDevice
  have hco := hi.completed
  cases booking_step h hs hc q with
  | other hb ho hst =>
    obtain ⟨h₁, h₂, h₃, h₄⟩ := books_fields hb
    simp only [Queue.books, Queue.ledger] at h₁ h₂ h₃ h₄
    obtain ⟨hdev, hend⟩ := counts_same hs.wf h₁ h₂ fun x hx hp => by rw [hst x hx hp]
    omega
  | @append e k hk hp hb ho hev =>
    obtain ⟨h₁, h₂, h₃, h₄⟩ := books_fields hb
    simp only [Queue.books, Queue.ledger, Ledger.append] at h₁ h₂ h₃ h₄
    have hpos : ¬ (s.events e).Terminal :=
      hi.building_pos hs (t := a.actor) (by simp [hk, Frame.building]) hp
    have hend : s'.ended q = s.ended q := by simp [State.ended, h₁, hev, hpos]
    have hdev : s'.onDevice q = s.onDevice q := by simp [State.onDevice, h₂, hev]
    omega
  | @counted f k hk hpc hq hone hb ho hev =>
    obtain ⟨h₁, h₂, h₃, h₄⟩ := books_fields hb
    simp only [Queue.books, Queue.ledger] at h₁ h₂ h₃ h₄
    obtain ⟨hdev, hend⟩ := counts_same hs.wf h₁ h₂ fun x hx hp => by rw [hev]
    omega
  | @erased i e he hle hb ho hev =>
    obtain ⟨h₁, h₂, h₃, h₄⟩ := books_fields hb
    simp only [Queue.books, Queue.ledger, Ledger.erase] at h₁ h₂ h₃ h₄
    have hend : s.ended q = s'.ended q + 1 := by
      unfold State.ended
      rw [h₁, hev, (ListOrder.perm_eraseIdx he).countP_eq]
      exact List.countP_cons_of_pos (decide_eq_true hle)
    have hdev : s'.onDevice q = s.onDevice q := by simp [State.onDevice, h₂, hev]
    omega
  | taken hk hq hpc he hw hin =>
    exact absurd ⟨hw, hin⟩ ((hg.of_top h hk).1 _ (pushing_eq hk) hq hpc _ he)
  | @handed f e k hk hq hpc he hb ho hev =>
    obtain ⟨h₁, h₂, h₃, h₄⟩ := books_fields hb
    simp only [Queue.books, Queue.ledger, Ledger.hand] at h₁ h₂ h₃ h₄
    have hpos := hi.handing e ⟨a.actor, f, k, hk, hq, hpc, he⟩
    have hend : s'.ended q = s.ended q := by simp [State.ended, h₁, hev]
    have hdev : s'.onDevice q = s.onDevice q + 1 := by simp [State.onDevice, h₂, hev, hpos]
    omega
  | @submitted f e k hk hq hpc he hb ho hev =>
    obtain ⟨h₁, h₂, h₃, h₄⟩ := books_fields hb
    simp only [Queue.books, Queue.ledger] at h₁ h₂ h₃ h₄
    obtain ⟨hdev, hend⟩ := counts_same hs.wf h₁ h₂ fun x hx hp => by
      have hst := hi.submitting hs hk hq hpc (hq ▸ he)
      by_cases hxe : x = e
      · subst hxe
        simp [hev, hst]
      · simp [hev, hxe]
    omega
  | @reported f k hk hpc hp hb ho hev =>
    obtain ⟨h₁, h₂, h₃, h₄⟩ := books_fields hb
    simp only [Queue.books, Queue.ledger] at h₁ h₂ h₃ h₄
    obtain ⟨hpos, hle⟩ := (hg.of_top h hk).2.1 f (reporting_eq hk hpc) hp
    have hm : f.event ∈ (s.queues q).handed := by
      rcases hs.report.started hs.calls hk hpc hp with ⟨hm, -⟩ | ⟨hm, -⟩
      · exact hm
      · simp [hi.taken] at hm
    split at ho
    case isTrue hst =>
      rw [hst] at hev
      obtain ⟨hdev, hend⟩ := hi.counts_complete hs h₁ h₂ hm hpos hev
      omega
    case isFalse hst =>
      have hpos' : 0 < f.status := lt_of_le_of_ne hle (Ne.symm hst)
      obtain ⟨hdev, hend⟩ := counts_same hs.wf h₁ h₂ fun x hx hp => by
        by_cases hxe : x = f.event
        · subst hxe
          simp [hev, hpos, hpos']
        · simp [hev, hxe]
      omega
  | terminated hk hpc =>
    have hp := (hs.report.failed hk hpc).2.2
    exact absurd hp ((hg.of_top h hk).2.2.1 _ (terminating_iff.mpr ⟨_, _, _, _, _, hk, hpc⟩))
  | repeated hk hpc hlt hd hp hp' hw hpushed =>
    exact absurd (pushingAgain_eq hk hpc hlt hd hp hp' hw hpushed) (hg.of_top h hk).2.2.2

end Count

theorem countInv_step (h : Step s a s') (hg : CountsKept q s a) (hs : Sound s) (hc : Called s)
    (hi : CountInv q s) : CountInv q s' where
  status := by
    intro x hx hp
    by_cases hlt : x < s.nextEvent
    · rw [(step_identity h hlt).parent] at hp
      have hold := hi.status x hlt hp
      rcases hi.status_step h hg hs hlt hp with heq | ⟨-, h0, hle⟩
      · rwa [heq]
      · exact ⟨h0, hle.trans (by decide)⟩
    · rw [startInv_new h hlt hx hp]
      decide
  taken := hi.taken_kept h hg hs
  erased _ hx := hi.erased_kept h hg hs hx
  handing _ hx := hi.handing_kept h hg hs hx
  onDevice := (hi.counters_step h hg hs hc).1
  completed := (hi.counters_step h hg hs hc).2

theorem countInv_reachable (h : Reachable ((scheduler T).restrict (CountsKept q)) s) :
    CountInv q s := by
  apply h.invariant
  · rintro _ ⟨o, rfl⟩
    constructor <;>
      simp [initial, Queue.empty, HandingOver, State.onDevice, State.ended, State.owed]
  · intro s a s' hr hi ht
    exact countInv_step (step_cases ht.1) ht.2 (sound_reachable hr.of_restrict)
      (called_reachable hr.of_restrict) hi

/-- The call works on queue `q`. -/
def Frame.WorksOn (ev : EventId → Event) (q : QueueId) : Frame → Prop
  | .queueEvent e => (ev e).parent = some q
  | .setStatus f => (ev f.event).parent = some q
  | .push f => f.queue = q
  | .clean f => f.queue = q
  | _ => False

/-- No thread is inside `queueEvent`, `setStatus`, `pushEventsOnDevice` or `cleanEvents` for `q`. -/
def QuietFor (s : State T) (q : QueueId) : Prop :=
  ∀ t, ∀ f ∈ s.threads t, ¬ f.WorksOn s.events q

omit [DecidableEq T] in
theorem QuietFor.owed_eq_zero (hq : QuietFor s q) : s.owed q = 0 := by
  refine finsum_eq_zero_of_forall_eq_zero fun t => ?_
  rw [List.countP_eq_zero]
  intro f hf hc
  have hnot := hq t f hf
  cases f <;> simp_all [Frame.counts, Frame.WorksOn]

omit [DecidableEq T] in
/-- Between calls the events on the device are the handed ones that have not ended. -/
theorem CountInv.onDevice_eq (hi : CountInv q s) (hs : Sound s) (hq : QuietFor s q) :
    s.onDevice q = (s.queues q).events.countP fun e => decide (s.events e).OnDevice := by
  have hl := hs.wf.owned.ledger q
  refine Tally.countP_eq_of_mem_iff (hs.hand.nodup q) (hl.sublist.nodup hl.nodup) fun x => ?_
  rw [decide_eq_true_iff, decide_eq_true_iff]
  constructor
  · rintro ⟨hm, hpos⟩
    refine ⟨hi.mem_events hs.wf hm hpos, ?_⟩
    have hne := hs.hand.status q x hm
    obtain ⟨hlt, hp⟩ := hs.wf.handed_lt hm
    have hle := (hi.status x hlt hp).2
    unfold clQueued at hne hle
    unfold Event.OnDevice clSubmitted clRunning
    omega
  · rintro ⟨hm, hon⟩
    unfold Event.OnDevice clSubmitted clRunning at hon
    refine ⟨?_, by omega⟩
    by_contra hnh
    obtain ⟨hlt, hp⟩ := hs.wf.event_mem hm
    rcases hs.start q x hlt hp hnh (by simp [hi.taken]) with hst | hst | ⟨t, f, k, hk, hfq, -⟩
    · unfold clQueued at hst
      omega
    · omega
    · exact hq t (.push f) (by simp [hk]) hfq

/-- Between calls on `q` both scheduling counters are exact. -/
theorem counters_exact (h : Reachable ((scheduler T).restrict (CountsKept q)) s)
    (hq : QuietFor s q) :
    (s.queues q).numEventsOnDevice =
        (s.queues q).events.countP (fun e => decide (s.events e).OnDevice) ∧
      (s.queues q).numEventsCompleted =
        (s.queues q).events.countP fun e => decide (s.events e).Terminal := by
  have hi := countInv_reachable h
  have hon := hi.onDevice
  have hco := hi.completed
  rw [hq.owed_eq_zero] at hon hco
  refine ⟨?_, ?_⟩
  · rw [hon, ← hi.onDevice_eq (sound_reachable h.of_restrict) hq]
    simp
  · simpa [State.ended] using hco

omit [DecidableEq T] in
theorem quietFor_of_idle (h : ∀ t, s.threads t = []) : QuietFor s q := by
  intro t f hf
  simp [h t] at hf

/-- One of four reads has completed, and the device has enough to work on to leave it there. -/
theorem counters_after_completion :
    ∃ s : State Bool, Reachable ((scheduler Bool).restrict (CountsKept 0)) s ∧ QuietFor s 0 ∧
      (s.queues 0).events = [0, 1, 2, 3] ∧
      ((s.queues 0).numEventsOnDevice =
          (s.queues 0).events.countP (fun e => decide (s.events e).OnDevice) ∧
        (s.queues 0).numEventsCompleted =
          (s.queues 0).events.countP fun e => decide (s.events e).Terminal) ∧
      (s.queues 0).numEventsOnDevice = 3 ∧ (s.queues 0).numEventsCompleted = 1 := by
  obtain ⟨s, hr, hc⟩ := exists_guarded_run (CountsKept 0) (fun _ => true)
    (List.flatten [[.enqueue true .readBuffer 0 []], resumes true 14,
      [.enqueue true .readBuffer 0 []], resumes true 17, [.enqueue true .readBuffer 0 []],
      resumes true 20, [.enqueue true .readBuffer 0 []], resumes true 23,
      [.deviceSetStatus true 0 clComplete, .resume true true, .resume true true,
        .resume true true]])
    (fun s => (∀ t, s.threads t = []) ∧ (s.queues 0).events = [0, 1, 2, 3] ∧
      (s.queues 0).numEventsOnDevice = 3 ∧ (s.queues 0).numEventsCompleted = 1)
    (by decide +kernel)
  obtain ⟨hidle, hev, hon, hco⟩ := of_decide_eq_true hc
  have hq : QuietFor s 0 := quietFor_of_idle hidle
  exact ⟨s, hr, hq, hev, counters_exact hr hq, hon, hco⟩

/-- A barrier that has come and gone is still counted as completed. -/
theorem barrier_counted_after_erasure :
    ∃ s : State Bool, Reachable (scheduler Bool) s ∧ (∀ t, s.threads t = []) ∧
      (s.queues 0).events = [] ∧ (s.queues 0).numEventsCompleted = 1 ∧
      ¬ ((s.queues 0).numEventsOnDevice =
          (s.queues 0).events.countP (fun e => decide (s.events e).OnDevice) ∧
        (s.queues 0).numEventsCompleted =
          (s.queues 0).events.countP fun e => decide (s.events e).Terminal) := by
  obtain ⟨s, hr, hc⟩ := exists_run (fun _ => true)
    (List.flatten [[.enqueue true .barrier 0 []], resumes true 13])
    (fun s => (∀ t, s.threads t = []) ∧ (s.queues 0).events = [] ∧
      (s.queues 0).numEventsCompleted = 1) (by decide +kernel)
  obtain ⟨hidle, hev, hco⟩ := of_decide_eq_true hc
  refine ⟨s, hr, hidle, hev, hco, fun hex => ?_⟩
  rw [hex.2, hev] at hco
  simp at hco

end Shamrock.Scheduler
