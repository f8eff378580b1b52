import Shamrock.Scheduler.Reports

/-! In-order queues: the traversal never acts beyond the head of the list. -/
namespace Shamrock.Scheduler

open Transition ListOrder

variable {T : Type} [DecidableEq T] {s s' : State T} {a : Action T} {q : QueueId} {x : EventId}

/-- The device reports nothing more on an event that is terminal, and the application sets no
user event to an error code. -/
def WellBehaved (s : State T) : Action T → Prop
  | .setUserEventStatus _ _ st => 0 ≤ st
  | .resume t _ => ∀ f ∈ s.reporting t,
      (s.events f.event).type.isInstantaneous = false → 0 < (s.events f.event).status
  | _ => True

instance (s : State T) (a : Action T) : Decidable (WellBehaved s a) :=
  match a with
  | .setUserEventStatus _ _ st => inferInstanceAs (Decidable (0 ≤ st))
  | .resume t _ => inferInstanceAs (Decidable (∀ f ∈ s.reporting t,
      (s.events f.event).type.isInstantaneous = false → 0 < (s.events f.event).status))
  | .createUserEvent _ | .setCallback .. | .enqueue .. | .flush .. | .finish ..
  | .deviceSetStatus .. => inferInstanceAs (Decidable True)

/-- No user event is about to fail. -/
def UserInv (s : State T) : Prop :=
  ∀ t f, .setStatus f ∈ s.threads t → (s.events f.event).type = .user → 0 ≤ f.status

theorem userInv_step (h : Step s a s') (hg : WellBehaved s a) (hs : Sound s) (hi : UserInv s) :
    UserInv s' := by
  intro t f hf hu
  have hlt : ∀ {e}, f.event = e → e < s.nextEvent → (s.events e).type = .user := by
    rintro e rfl he
    rwa [(step_identity h he).type] at hu
  cases status_origin h hf with
  | @old g hg' he hst =>
    have hok := hs.calls.frame t _ hg'
    exact hst ▸ hi t g hg' (hlt he.symm hok.1)
  | user ha _ =>
    subst ha
    exact hg
  | device _ hp hh =>
    obtain ⟨he, hp⟩ := hs.wf.handed_lt hh
    exact absurd (hlt rfl he) ((hs.calls.event _ he).parent (by simp [hp]))
  | taken _ _ he hst => exact le_of_eq hst.symm

theorem userInv_reachable (h : Reachable ((scheduler T).restrict WellBehaved) s) : UserInv s := by
  apply h.invariant
  · rintro _ ⟨o, rfl⟩ t f hf
    simp [initial] at hf
  · intro s a s' hr hi ht
    exact userInv_step (step_cases ht.1) ht.2 (sound_reachable hr.of_restrict) hi

omit [DecidableEq T] in
/-- Without a failed user event no dependent is terminated. -/
theorem UserInv.not_terminate (hi : UserInv s) (hs : Sound s) {t : T} {f : StatusFrame}
    {k : List Frame} (hk : s.threads t = .setStatus f :: k) {i num : Nat} {d : EventId}
    {q : QueueId} : f.pc ≠ .terminate i num d q := by
  intro hpc
  have hneg := (hs.report.failed hk hpc).1
  rcases (hs.report.head hk).2.1 (by simp [hpc]) with hu | hc
  · have := hi t f (by simp [hk]) hu
    omega
  · simp [hc] at hneg

theorem pendingInv_reachable (h : Reachable ((scheduler T).restrict WellBehaved) s) :
    PendingInv s := by
  apply h.invariant
  · rintro _ ⟨o, rfl⟩ q x hx
    exact absurd hx (Nat.not_lt_zero x)
  · intro s a s' hr hi ht
    have hs := sound_reachable hr.of_restrict
    exact pendingInv_step (step_cases ht.1) hs
      (fun hk => (userInv_reachable hr).not_terminate hs hk) hi

/-- A command that is terminal stays so. -/
theorem terminal_step (h : Step s a s') (hg : WellBehaved s a) (hs : Sound s) (hu : UserInv s)
    (hp : PendingInv s) (hlt : x < s.nextEvent)
    (hin : (s.events x).type.isInstantaneous = false) (ht : (s.events x).Terminal) :
    (s'.events x).Terminal := by
  unfold Event.Terminal at ht ⊢
  have hst := step_status h hlt
  generalize (s'.events x).status = st at hst
  cases hst with
  | same => exact ht
  | @submitted f k hk hpc he =>
    -- an event about to be submitted is still queued
    have hfresh := hs.hand.fresh _ _ _ _ hk (.inr (.inl hpc)) he
    have hnn := hp f.queue x hlt (hs.wf.event_lt he).2 hfresh (hs.wf.not_mem_taken he)
    rcases hs.start.examined hs.hand hs.wf hk (.inr hpc) he with hq | hq
    · rw [hq] at ht
      exact absurd ht (by decide)
    · omega
  | reported hk hpc he =>
    subst he
    obtain ⟨g, ha⟩ := resume_of_top h hk
    rw [ha] at hg
    have hpos := hg _ (reporting_eq hk hpc) hin
    omega
  | terminated hk hpc => exact absurd hpc (hu.not_terminate hs hk)

/-- Only the head of an in-order queue can have been started or have ended. -/
structure InOrder (s : State T) (q : QueueId) : Prop where
  split : (s.queues q).queued = (s.queues q).erased ++ (s.queues q).events
  handed : (s.queues q).handed.Sublist ((s.queues q).erased ++ (s.queues q).events.take 1)
  ended : ∀ x ∈ (s.queues q).erased, (s.events x).type.isInstantaneous = false →
    (s.events x).Terminal

omit [DecidableEq T] in
/-- Behind the head everything is still queued. -/
theorem InOrder.queued_behind (hi : InOrder s q) (hs : Sound s) (hp : PendingInv s)
    (hh : FirstInv s) (ho : (s.queues q).outOfOrder = false) {y : EventId} {rest : List EventId}
    (hev : (s.queues q).events = y :: rest) (hx : x ∈ rest) :
    (s.events x).status = clQueued := by
  have hl := hs.wf.owned.ledger q
  have hmem : x ∈ (s.queues q).events := by
    rw [hev]
    exact List.mem_cons_of_mem _ hx
  have hne : x ≠ y := by
    rintro rfl
    have hnd := (List.nodup_append.mp hl.erased_nodup).2.1
    change (s.queues q).events.Nodup at hnd
    rw [hev] at hnd
    exact (List.nodup_cons.mp hnd).1 hx
  obtain ⟨i, hix⟩ := List.mem_iff_getElem?.mp hmem
  obtain ⟨hlt, hpar⟩ := hs.wf.event_lt hix
  have hnt := hs.wf.not_mem_taken hix
  have hnh : x ∉ (s.queues q).handed := by
    intro hm
    rcases List.mem_append.mp (hi.handed.subset hm) with he | he
    · exact hl.not_mem_erased hmem he
    · simp [hev, hne] at he
  rcases hs.start q x hlt hpar hnh hnt with hq | hq | ⟨t, f, k, hk, rfl, hpc, he⟩
  · exact hq
  · have := hp q x hlt hpar hnh hnt
    omega
  · -- the event being handed over is the head
    have hit := hh.head hk (by simp [hpc, PushPC.Acting]) ho
    simp [PushFrame.event, hit, hev] at he
    exact absurd he.symm hne

omit [DecidableEq T] in
/-- A terminal event of the list is its head. -/
theorem InOrder.terminal_head (hi : InOrder s q) (hs : Sound s) (hp : PendingInv s)
    (hh : FirstInv s) (ho : (s.queues q).outOfOrder = false) {i : Nat}
    (hx : (s.queues q).events[i]? = some x) (ht : (s.events x).status ≤ 0) : i = 0 := by
  cases i with
  | zero => rfl
  | succ i =>
    cases hev : (s.queues q).events with
    | nil => simp [hev] at hx
    | cons y rest =>
      have hmem : x ∈ rest := List.mem_of_getElem? (by simpa [hev] using hx)
      rw [hi.queued_behind hs hp hh ho hev hmem] at ht
      exact absurd ht (by decide)

/-- How the ledger of an in-order queue changes: everything happens at the head. -/
theorem inOrder_ledger (h : Step s a s') (hs : Sound s) (hp : PendingInv s) (hh : FirstInv s)
    (ho : (s.queues q).outOfOrder = false) (hi : InOrder s q) :
    (s'.queues q).queued = (s'.queues q).erased ++ (s'.queues q).events ∧
      (s'.queues q).handed.Sublist ((s'.queues q).erased ++ (s'.queues q).events.take 1) ∧
      ∀ x ∈ (s'.queues q).erased, x ∈ (s.queues q).erased ∨ x < s.nextEvent ∧
        ((s.events x).status ≤ 0 ∨ (s.events x).type.isInstantaneous = true) := by
  have hhead : ∀ {i x}, (s.queues q).events[i]? = some x → i = 0 →
      (s.queues q).events = x :: (s.queues q).events.eraseIdx i := by
    rintro _ x hx rfl
    cases hev : (s.queues q).events with
    | nil => simp [hev] at hx
    | cons y rest => simpa [hev] using hx
  have hmove : ∀ {i x}, (s.queues q).events = x :: (s.queues q).events.eraseIdx i →
      (s.queues q).erased ++ (s.queues q).events =
        (s.queues q).erased ++ [x] ++ (s.queues q).events.eraseIdx i := by
    intro i x hev
    rw [List.append_assoc, List.singleton_append, ← hev]
  have hc := step_ledger h hs.wf.mutex q
  change (s'.queues q).ledger.queued = (s'.queues q).ledger.erased ++ (s'.queues q).ledger.events ∧
    (s'.queues q).ledger.handed.Sublist
      ((s'.queues q).ledger.erased ++ (s'.queues q).ledger.events.take 1) ∧
    ∀ x ∈ (s'.queues q).ledger.erased, _
  generalize (s'.queues q).ledger = l at hc
  cases hc with
  | same => exact ⟨hi.split, hi.handed, fun x hx => .inl hx⟩
  | append hk _ =>
    refine ⟨?_, ?_, fun x hx => .inl hx⟩
    · simp [Ledger.append, Queue.ledger, hi.split]
    · refine hi.handed.trans (List.Sublist.append (List.Sublist.refl _) ?_)
      exact ((List.prefix_append _ _).take 1).sublist
  | @erase i e hm he hst =>
    have hev := hhead he (hi.terminal_head hs hp hh ho he hst)
    refine ⟨?_, ?_, ?_⟩
    · exact hi.split.trans (hmove hev)
    · refine hi.handed.trans ?_
      rw [hev]
      simp [Ledger.erase, Queue.ledger]
    · intro x hx
      rcases List.mem_append.mp hx with hx | hx
      · exact .inl hx
      · rw [List.mem_singleton.mp hx]
        exact .inr ⟨(hs.wf.event_lt he).1, .inl hst⟩
  | @take f e k hk hq hpc he hn hin =>
    subst hq
    have hit := hh.head hk (by simp [hpc, PushPC.Acting]) ho
    have hev := hhead he hit
    refine ⟨?_, ?_, ?_⟩
    · exact hi.split.trans (hmove hev)
    · refine hi.handed.trans ?_
      rw [hev]
      simp [Ledger.take, Ledger.erase, Queue.ledger]
    · intro x hx
      rcases List.mem_append.mp hx with hx | hx
      · exact .inl hx
      · rw [List.mem_singleton.mp hx]
        exact .inr ⟨(hs.wf.event_lt he).1, .inr hin⟩
  | @hand f e k hk hq hpc he =>
    subst hq
    have hit := hh.head hk (by simp [hpc, PushPC.Acting]) ho
    have hev := hhead he hit
    have htake : (s.queues f.queue).events.take 1 = [e] := by
      rw [hev]
      rfl
    have hfresh := hs.hand.fresh _ _ _ _ hk (.inr (.inr hpc)) he
    refine ⟨hi.split, ?_, fun x hx => .inl hx⟩
    have hsub := hi.handed
    rw [htake] at hsub
    change ((s.queues f.queue).handed ++ [e]).Sublist
      ((s.queues f.queue).erased ++ (s.queues f.queue).events.take 1)
    rw [htake]
    refine List.Sublist.append ?_ (List.Sublist.refl _)
    exact sublist_of_append_singleton hsub hfresh

theorem inOrder_step (h : Step s a s') (hg : WellBehaved s a) (hs : Sound s) (hu : UserInv s)
    (hp : PendingInv s) (hh : FirstInv s) (ho : (s.queues q).outOfOrder = false)
    (hi : InOrder s q) : InOrder s' q := by
  obtain ⟨hsplit, hhanded, herased⟩ := inOrder_ledger h hs hp hh ho hi
  refine ⟨hsplit, hhanded, ?_⟩
  intro x hx hin
  rcases herased x hx with hx | ⟨hlt, hst⟩
  · have hlt := (hs.wf.owned.queued (hs.wf.erased_queued hx)).1
    rw [(step_identity h hlt).type] at hin
    exact terminal_step h hg hs hu hp hlt hin (hi.ended x hx hin)
  · rw [(step_identity h hlt).type] at hin
    have hst := hst.resolve_right (by simp [hin])
    exact terminal_step h hg hs hu hp hlt hin hst

theorem inOrder_reachable (h : Reachable ((scheduler T).restrict WellBehaved) s)
    (ho : (s.queues q).outOfOrder = false) : InOrder s q := by
  suffices hall : (s.queues q).outOfOrder = false → InOrder s q from hall ho
  apply h.invariant (P := fun s => (s.queues q).outOfOrder = false → InOrder s q)
  · rintro _ ⟨o, rfl⟩ -
    constructor <;> simp [initial, Queue.empty]
  · intro s a s' hr hi ht ho
    have hs := sound_reachable hr.of_restrict
    have hstep := step_cases ht.1
    rw [step_outOfOrder hstep] at ho
    exact inOrder_step hstep ht.2 hs (userInv_reachable hr) (pendingInv_reachable hr)
      (firstInv_reachable hr.of_restrict) ho (hi ho)

omit [DecidableEq T] in
/-- An event of the queue that is on the device is the head of the list. -/
theorem InOrder.onDevice_head (hi : InOrder s q) (hs : Sound s) (hh : FirstInv s)
    (ho : (s.queues q).outOfOrder = false) (hlt : x < s.nextEvent)
    (hp : (s.events x).parent = some q) (hd : (s.events x).OnDevice) :
    (s.queues q).events[0]? = some x := by
  by_cases hx : x ∈ (s.queues q).handed
  · rcases List.mem_append.mp (hi.handed.subset hx) with he | he
    · have hst := hi.ended x he (hs.kind.handed q x hx)
      unfold Event.Terminal at hst
      unfold Event.OnDevice clSubmitted clRunning at hd
      omega
    · cases hev : (s.queues q).events with
      | nil => simp [hev] at he
      | cons y rest => simpa [hev, eq_comm] using he
  · have hnt : x ∉ (s.queues q).taken := fun ht => hs.taken q x ht hd
    rcases hs.start q x hlt hp hx hnt with hq | hq | ⟨t, f, k, hk, rfl, hpc, he⟩
    · rw [Event.OnDevice, hq] at hd
      exact absurd hd (by decide)
    · unfold Event.OnDevice clSubmitted clRunning at hd
      omega
    · have hit := hh.head hk (by simp [hpc, PushPC.Acting]) ho
      rwa [PushFrame.event, hit] at he

/-- What in-order execution means for queue `q`, in a state and over the step that follows. -/
structure RunsInOrder (s : State T) (q : QueueId) : Prop where
  /-- At most one event is submitted or running. -/
  one : ∀ x y, x < s.nextEvent → y < s.nextEvent → (s.events x).parent = some q →
    (s.events y).parent = some q → (s.events x).OnDevice → (s.events y).OnDevice → x = y
  /-- Each event is handed over at most once. -/
  once : (s.queues q).handed.Nodup
  /-- The events are handed over in the order of `queueEvent`. -/
  order : (s.queues q).handed.Sublist (s.queues q).queued
  /-- An event starts only when all commands queued before it are terminal. -/
  earlier : ∀ a s' e, step s a = some s' →
    (s'.queues q).handed = (s.queues q).handed ++ [e] ∨
      (s'.queues q).taken = (s.queues q).taken ++ [e] →
    ∀ x, [x, e].Sublist (s.queues q).queued → (s.events x).type.isInstantaneous = false →
      (s.events x).Terminal

/-- A queue without `CL_QUEUE_OUT_OF_ORDER_EXEC_MODE_ENABLE` runs its commands one at a time, in
the order they were queued. -/
theorem in_order_execution (h : Reachable ((scheduler T).restrict WellBehaved) s)
    (ho : (s.queues q).outOfOrder = false) : RunsInOrder s q := by
  have hs := sound_reachable h.of_restrict
  have hh := firstInv_reachable h.of_restrict
  have hi := inOrder_reachable h ho
  constructor
  case one =>
    intro x y hx hy hpx hpy hdx hdy
    have hx := hi.onDevice_head hs hh ho hx hpx hdx
    have hy := hi.onDevice_head hs hh ho hy hpy hdy
    exact Option.some.inj (hx.symm.trans hy)
  case once => exact hs.hand.nodup q
  case order =>
    rw [hi.split]
    exact hi.handed.trans (List.Sublist.append (List.Sublist.refl _) (List.take_sublist _ _))
  case earlier =>
    intro a s' e hst he x hx hin
    obtain ⟨f, k, hk, rfl, hev, hpc⟩ := started_step (step_cases hst) hs.wf.mutex he
    have hit : f.it = 0 := by
      refine hh.head hk ?_ ho
      rcases hpc with ⟨hpc, -⟩ | ⟨hpc, -⟩ <;> simp [hpc, PushPC.Acting]
    refine hi.ended x ?_ hin
    have hl := hs.wf.owned.ledger f.queue
    have hmem : x ∈ (s.queues f.queue).queued := hx.subset List.mem_cons_self
    rw [hi.split] at hmem
    rcases List.mem_append.mp hmem with hmem | hmem
    · exact hmem
    · -- nothing in the list comes before its head
      obtain ⟨j, hj, -⟩ := index_of_before hl.sublist hl.nodup hx hmem hev
      omega

/-- Two commands, the second handed over after the device has finished the first. -/
theorem in_order_execution_of_two :
    ∃ s : State Bool, Reachable ((scheduler Bool).restrict WellBehaved) s ∧
      (s.queues 0).outOfOrder = false ∧ (s.queues 0).handed = [0, 1] ∧ RunsInOrder s 0 := by
  obtain ⟨s, hr, hc⟩ := exists_guarded_run WellBehaved (fun _ => false)
    (List.flatten [[.enqueue true .readBuffer 0 []], resumes true 12,
      [.enqueue true .writeBuffer 0 []], resumes true 9, [.deviceSetStatus true 0 1],
      resumes true 1, [.deviceSetStatus true 0 0], resumes true 13])
    (fun s => (s.queues 0).outOfOrder = false ∧ (s.queues 0).handed = [0, 1]) (by decide +kernel)
  obtain ⟨ho, hh⟩ := of_decide_eq_true hc
  exact ⟨s, hr, ho, hh, in_order_execution hr ho⟩

end Shamrock.Scheduler
