import Shamrock.Dsp.WorkerLoop
import Shamrock.Lib.Fairness
import Mathlib.Data.List.Nodup

/-!
# Progress of the worker

Where the worker is in its loop, together with how many mails or events come first, is a rank that
each of its steps lowers and that nobody else raises: so a mail is read and an event is taken. A
kernel that the DSP answers is then completed, and a worker that has been stopped leaves when the
last answer has come.
-/
namespace Shamrock.Dsp

open Transition

/-! ## Rules of progress -/

section Progress

variable {env : DspEnv} {ddr : DdrHeaps} {E : Execution (dspSystem env ddr)}
  {P Q : DspState → Prop}

/-- The process does not end. -/
def Lives (E : Execution (dspSystem env ddr)) : Prop := ∀ n, (E.state n).ended = false

/-- A process that has ended stays so. -/
theorem ended_mono {n m : ℕ} (hnm : n ≤ m) (hended : (E.state n).ended = true) :
    (E.state m).ended = true := by
  induction m, hnm using Nat.le_induction with
  | base => exact hended
  | succ m _ ih =>
    cases hlabel : E.label m with
    | none => rwa [E.waits m hlabel]
    | some act => cases (dspStep_spec (E.steps m act hlabel)).1.symm.trans ih

/-- The step that ends the process does nothing else. -/
theorem ended_work {s t : DspState} (h : s.work env = some t) (hlive : s.ended = false)
    (hended : t.ended = true) : t = { s with ended := true } := by
  cases work_spec h with
  | exit => rfl
  | run j kernelId e r =>
    rcases runKernel_cases s j kernelId r with ⟨_, _, _, heq⟩ | ⟨_, _, _, -, heq⟩ <;>
      rw [heq] at hended <;> cases hlive.symm.trans hended
  | _ => cases hlive.symm.trans hended

/-- What comes as long as the process does not end comes, or the process ends. -/
theorem leadsTo_or_ended (h : Lives E → E.LeadsTo P Q) :
    E.LeadsTo P fun s => Q s ∨ s.ended = true := by
  intro n hp
  by_cases hlive : Lives E
  · obtain ⟨m, hm, hq⟩ := h hlive n hp
    exact ⟨m, hm, Or.inl hq⟩
  · obtain ⟨k, hended⟩ := not_forall.mp hlive
    rw [Bool.not_eq_false] at hended
    exact ⟨max n k, le_max_left n k, Or.inr (ended_mono (le_max_right n k) hended)⟩

/-- For a worker that gets its turns, whatever the others do in between. -/
theorem worker_leadsTo (hfair : E.Fair (· = .work)) (hlive : Lives E) (rank : DspState → Nat)
    (hexit : ∀ s, Tracked s → P s → s.pc ≠ .exited)
    (hwork : ∀ s t, Tracked s → Tracked t → t.ended = false → P s → s.work env = some t →
      P t ∧ rank t < rank s ∨ Q t)
    (hhost : ∀ s t, P s → HostStep s t → P t ∧ rank t ≤ rank s ∨ Q t) : E.LeadsTo P Q := by
  have hturn : ∀ s t, Reachable (dspSystem env ddr) s → P s → dspStep env s .work = some t →
      P t ∧ rank t < rank s ∨ Q t ∨ t.ended = true := by
    intro s t hs hp ht
    have htracked := tracked_reachable (hs.step ht)
    cases hended : t.ended with
    | true => exact Or.inr (Or.inr rfl)
    | false =>
      have hstep := hwork s t (tracked_reachable hs) htracked hended hp (dspStep_spec ht).2
      exact hstep.imp_right Or.inl
  -- the end of the process is a goal of its own, so that the worker has a step before it
  have hgoal : E.LeadsTo (fun s => P s ∧ s.ended = false) fun s => Q s ∨ s.ended = true := by
    apply Execution.leadsTo_of_rank hfair rank
    · rintro s hs ⟨hp, hended⟩
      obtain ⟨t, ht⟩ := work_enabled hs (hexit s (tracked_reachable hs) hp)
      exact ⟨.work, t, rfl, (if_neg (by simp [hended])).trans ht⟩
    · rintro s act t hs ⟨hp, hended⟩ ht
      by_cases hact : act = .work
      · subst hact
        cases hended' : t.ended with
        | true => exact Or.inr (Or.inr rfl)
        | false =>
          refine (hturn s t hs hp ht).imp (fun h => ⟨⟨h.1, rfl⟩, h.2.le⟩) ?_
          exact fun h => Or.inl (h.resolve_right (by simp [hended']))
      · have hhost' := host_step ht hact
        refine (hhost s t hp hhost').imp (fun h => ⟨⟨h.1, ?_⟩, h.2⟩) Or.inl
        exact hhost'.ended.trans hended
    · rintro s act t hs ⟨hp, -⟩ rfl ht
      exact (hturn s t hs hp ht).imp_left And.right
  intro n hp
  obtain ⟨m, hm, hq | hended⟩ := hgoal n ⟨hp, hlive n⟩
  · exact ⟨m, hm, hq⟩
  · cases (hlive m).symm.trans hended

/-- A mail is read. -/
theorem mail_leadsTo (hfair : E.Fair (· = .work)) (hlive : Lives E) (kernelId : Nat) :
    E.LeadsTo (fun s => some kernelId ∈ s.rxMbox) fun s => s.pc = .answered kernelId := by
  apply worker_leadsTo hfair hlive fun s => 11 * s.rxMbox.idxOf (some kernelId) + s.pc.distance 1
  · intro s h hmail hpc
    exact h.ne_exited (h.pending_of_mail hmail (by rw [hpc]; decide)) hpc
  · intro s t h h' hended hmail hstep
    by_cases hpc : s.pc = .readMail
    · rcases work_readMail hstep hpc with ⟨mails, hhead, hmails, hpc'⟩ |
        ⟨id', mails, hhead, hmails, hpc'⟩
      · -- a text comes first
        left
        rw [hhead] at hmail ⊢
        have hrest : some kernelId ∈ mails := by simpa using hmail
        refine ⟨hmails ▸ hrest, ?_⟩
        rw [hmails, hpc, hpc', List.idxOf_cons_ne _ (by simp)]
        simp only [WorkerPc.distance, WorkerPc.pos]
        omega
      · by_cases heq : id' = kernelId
        · right
          rw [hpc', heq]
        · left
          rw [hhead] at hmail ⊢
          have hrest : some kernelId ∈ mails := by
            simpa [Ne.symm heq] using hmail
          refine ⟨hmails ▸ hrest, ?_⟩
          rw [hmails, hpc, hpc', List.idxOf_cons_ne _ (by simpa using heq)]
          simp only [WorkerPc.distance, WorkerPc.pos]
          omega
    · left
      have hmails := rxMbox_work hstep hpc
      have hmail' : some kernelId ∈ t.rxMbox := hmails ▸ hmail
      have hexit : t.pc ≠ .exited := by
        intro hpc'
        exact h'.ne_exited (h'.pending_of_mail hmail' (by rw [hpc']; decide)) hpc'
      have hpass := work_passes hstep hended hexit h'.answered.alive
      have hlt := hpass.toMail
        (fun hpos => h.empty_of_pending (h.pending_of_mail hmail (by omega)))
        (List.ne_nil_of_mem hmail) (by intro hpos; cases hs : s.pc <;> simp_all [WorkerPc.pos])
      refine ⟨hmail', ?_⟩
      rw [hmails]
      simp only [WorkerPc.distance]
      omega
  · intro s t hmail hhost
    left
    obtain ⟨mails, hmails⟩ := hhost.rxMbox
    rw [hmails, hhost.pc, List.idxOf_append_of_mem hmail]
    exact ⟨List.mem_append_left _ hmail, le_rfl⟩

/-- An event is taken, unless the device is stopped before. -/
theorem queue_leadsTo (hfair : E.Fair (· = .work)) (hlive : Lives E) (event : Nat) :
    E.LeadsTo (fun s => event ∈ s.events.map Job.event ∧ s.stopped = false)
      fun s => (∃ j, s.pc = .taken j ∧ j.event = event) ∨
        event ∈ s.events.map Job.event ∧ s.stopped = true := by
  apply worker_leadsTo hfair hlive fun s =>
    11 * (s.events.map Job.event).idxOf event + s.pc.distance 7
  · rintro s h ⟨-, hrun⟩ hpc
    have hstop := (h.counted.left hpc).1
    rw [hrun] at hstop
    cases hstop
  · rintro s t h h' hended ⟨hqueue, hrun⟩ hstep
    have hrun' : t.stopped = false := (stopped_work hstep).trans hrun
    by_cases hpc : s.pc = .getEvent
    · obtain ⟨j, events, hhead, hevents, hpc'⟩ := work_getEvent hstep hpc hrun
      by_cases heq : j.event = event
      · exact Or.inr (Or.inl ⟨j, hpc', heq⟩)
      · left
        rw [hhead, List.map_cons] at hqueue ⊢
        have hrest : event ∈ events.map Job.event :=
          (List.mem_cons.mp hqueue).resolve_left (Ne.symm heq)
        refine ⟨⟨hevents ▸ hrest, hrun'⟩, ?_⟩
        rw [hevents, hpc, hpc', List.idxOf_cons_ne _ heq]
        simp only [WorkerPc.distance, WorkerPc.pos]
        omega
    · left
      have hevents := events_work hstep hpc
      have hexit : t.pc ≠ .exited := by
        intro hpc'
        have hstop := (h'.counted.left hpc').1
        rw [hrun'] at hstop
        cases hstop
      have hsome : s.numEvents ≠ 0 := by
        intro hzero
        rw [h.counted.numEvents, List.length_eq_zero_iff] at hzero
        simp [hzero] at hqueue
      have hpass := work_passes hstep hended hexit h'.answered.alive
      have hlt := hpass.toQueue hsome hrun
        (by intro hpos; cases hs : s.pc <;> simp_all [WorkerPc.pos])
      refine ⟨⟨hevents ▸ hqueue, hrun'⟩, ?_⟩
      rw [hevents]
      simp only [WorkerPc.distance]
      omega
  · rintro s t ⟨hqueue, hrun⟩ hhost
    obtain ⟨events, hevents⟩ := hhost.events
    rw [hevents, hhost.pc, List.map_append, List.idxOf_append_of_mem hqueue]
    have hqueue' := List.mem_append_left (events.map Job.event) hqueue
    cases hstop : t.stopped with
    | true => exact Or.inr (Or.inr ⟨hqueue', rfl⟩)
    | false => exact Or.inl ⟨⟨hqueue', rfl⟩, le_rfl⟩

end Progress

/-! ## Kernels -/

section Kernels

variable {env : DspEnv} {s t : DspState} {k : SentKernel} {kernelId : Nat}

/-- An entry stays in the map until the worker has found it. -/
theorem entry_work (hn : Numbered s) (hmem : (kernelId, k) ∈ s.completePending.entries)
    (h : WorkStep env s t) :
    (kernelId, k) ∈ t.completePending.entries ∨ t.pc = .found k := by
  cases h with
  | getCompletePending id' k' m hpc hpop =>
    rcases List.mem_cons.mp ((tryPop_spec hpop).1.subset hmem) with heq | hrest
    · cases heq
      exact Or.inr rfl
    · exact Or.inl hrest
  | pushCompletePending k' hpc =>
    left
    rw [push_entries (hn.sending_new hpc)]
    exact List.mem_cons_of_mem _ hmem
  | run j id' e r =>
    rcases runKernel_cases s j id' r with ⟨_, _, _, heq⟩ | ⟨_, _, _, -, heq⟩ <;> rw [heq] <;>
      exact Or.inl hmem
  | _ => exact Or.inl hmem

/-- A number has one entry. -/
theorem Numbered.entry_unique (hn : Numbered s) {k' : SentKernel}
    (hmem : (kernelId, k) ∈ s.completePending.entries)
    (hmem' : (kernelId, k') ∈ s.completePending.entries) : k = k' := by
  have hnodup : (s.completePending.entries.map Prod.fst).Nodup := hn.nodup.of_append_right
  have heq := List.inj_on_of_nodup_map hnodup hmem hmem' rfl
  exact congrArg Prod.snd heq

theorem work_answered (hn : Numbered s) (hmem : (kernelId, k) ∈ s.completePending.entries)
    (hpc : s.pc = .answered kernelId) (h : s.work env = some t) (halive : t.pc ≠ .aborted) :
    t.pc = .found k := by
  simp only [DspState.work, hpc] at h
  split at h <;> cases h
  · exact absurd rfl halive
  · rename_i k' m hpop
    have hmem' := (tryPop_spec hpop).1.symm.subset List.mem_cons_self
    rw [hn.entry_unique hmem hmem']

/-- A kernel in the map that does not run has been answered. -/
theorem Tracked.mail_of_pending (h : Tracked s) (hmem : kernelId ∈ s.pendingIds)
    (hrunning : kernelId ∉ s.running) :
    some kernelId ∈ s.rxMbox ∨ s.pc = .answered kernelId := by
  have hwaiting : kernelId ∈ (s.running : Multiset Nat) + s.unread + s.pc.answer := by
    rw [h.answered.waiting]
    exact Multiset.mem_add.mpr (Or.inl (Multiset.mem_coe.mpr hmem))
  rcases Multiset.mem_add.mp hwaiting with hmail | hanswer
  · rcases Multiset.mem_add.mp hmail with hrun | hmail
    · exact absurd (Multiset.mem_coe.mp hrun) hrunning
    · obtain ⟨mail, hmail, heq⟩ := List.mem_filterMap.mp (Multiset.mem_coe.mp hmail)
      exact Or.inl (heq ▸ hmail)
  · cases hpc : s.pc with
    | answered id' =>
      rw [hpc] at hanswer
      obtain rfl : kernelId = id' := by simpa [WorkerPc.answer] using hanswer
      exact Or.inr rfl
    | _ =>
      rw [hpc] at hanswer
      cases hanswer

end Kernels

section Progress

variable {env : DspEnv} {ddr : DdrHeaps} {E : Execution (dspSystem env ddr)}

/-- Every kernel that runs is answered, unless the process ends before. -/
def RepliesComeBack (E : Execution (dspSystem env ddr)) : Prop :=
  ∀ kernelId, E.LeadsTo (fun s => kernelId ∈ s.running)
    fun s => kernelId ∉ s.running ∨ s.ended = true

theorem RepliesComeBack.answered (h : RepliesComeBack E) (hlive : Lives E) (kernelId : Nat) :
    E.LeadsTo (fun s => kernelId ∈ s.running) fun s => kernelId ∉ s.running := by
  intro n hrunning
  obtain ⟨m, hm, hanswer | hended⟩ := h kernelId n hrunning
  · exact ⟨m, hm, hanswer⟩
  · cases (hlive m).symm.trans hended

theorem found_leadsTo (hfair : E.Fair (· = .work)) (hlive : Lives E) (j : Job) :
    E.LeadsTo (fun s => (∃ k, s.pc = .found k ∧ k.job = j) ∨ s.pc = .freed j)
      fun s => (j, clComplete) ∈ s.finished := by
  apply worker_leadsTo hfair hlive fun s => 5 - s.pc.pos
  · rintro s - (⟨k, hpc, -⟩ | hpc) hexit <;> cases hpc.symm.trans hexit
  · rintro s t - - hended (⟨k, hpc, rfl⟩ | hpc) hstep
    · left
      simp only [DspState.work, hpc] at hstep
      split at hstep <;> cases hstep
      · exact ⟨Or.inr rfl, by rw [hpc]; exact Nat.one_lt_two⟩
      · cases hended
    · right
      simp only [DspState.work, hpc] at hstep
      cases hstep
      exact List.mem_cons_self
  · intro s t hpc hhost
    left
    rw [hhost.pc]
    exact ⟨hpc, le_rfl⟩

theorem answered_leadsTo (hfair : E.Fair (· = .work)) (hlive : Lives E) (kernelId : Nat)
    (k : SentKernel) :
    E.LeadsTo (fun s => (kernelId, k) ∈ s.completePending.entries ∧ s.pc = .answered kernelId)
      fun s => s.pc = .found k := by
  apply worker_leadsTo hfair hlive fun _ => 0
  · rintro s - ⟨-, hpc⟩ hexit
    cases hpc.symm.trans hexit
  · rintro s t h h' - ⟨hmem, hpc⟩ hstep
    exact Or.inr (work_answered h.numbered hmem hpc hstep h'.answered.alive)
  · rintro s t hs hhost
    left
    rw [hhost.pc, hhost.completePending]
    exact ⟨hs, le_rfl⟩

/-- A kernel in the map is completed when it has been answered. -/
theorem pending_leadsTo (hfair : E.Fair (· = .work)) (hlive : Lives E)
    (hanswers : RepliesComeBack E) (kernelId : Nat) (k : SentKernel) :
    E.LeadsTo (fun s => (kernelId, k) ∈ s.completePending.entries)
      fun s => s.pc = .found k := by
  have hkeep : ∀ s act t, Reachable (dspSystem env ddr) s →
      (kernelId, k) ∈ s.completePending.entries → (dspSystem env ddr).Tr s act t →
      (kernelId, k) ∈ t.completePending.entries ∨ t.pc = .found k := by
    intro s act t hs hmem ht
    by_cases hact : act = .work
    · subst hact
      exact entry_work (tracked_reachable hs).numbered hmem (work_spec (dspStep_spec ht).2)
    · rw [(host_step ht hact).completePending]
      exact Or.inl hmem
  -- the mail stays until it is read, and the entry until it is found
  have hmail := Execution.LeadsTo.keeping hkeep (mail_leadsTo hfair hlive kernelId)
  have hrun := Execution.LeadsTo.keeping hkeep (hanswers.answered hlive kernelId)
  have hread : E.LeadsTo (fun s => (kernelId, k) ∈ s.completePending.entries ∧
      kernelId ∉ s.running) fun s => s.pc = .found k := by
    rintro n ⟨hmem, hrunning⟩
    have htracked := tracked_reachable (E.reachable n)
    rcases htracked.mail_of_pending (List.mem_map_of_mem hmem) hrunning with hbox | hpc
    · obtain ⟨m, hm, hanswer | hfound⟩ := hmail n ⟨hmem, hbox⟩
      · obtain ⟨l, hl, hfound⟩ := answered_leadsTo hfair hlive kernelId k m hanswer
        exact ⟨l, hm.trans hl, hfound⟩
      · exact ⟨m, hm, hfound⟩
    · exact answered_leadsTo hfair hlive kernelId k n ⟨hmem, hpc⟩
  intro n hmem
  by_cases hrunning : kernelId ∈ (E.state n).running
  · obtain ⟨m, hm, hanswer | hfound⟩ := hrun n ⟨hmem, hrunning⟩
    · obtain ⟨l, hl, hfound⟩ := hread m hanswer
      exact ⟨l, hm.trans hl, hfound⟩
    · exact ⟨m, hm, hfound⟩
  · exact hread n ⟨hmem, hrunning⟩

end Progress

/-! ## Events -/

/-- The events that have been taken from the queue. -/
def DspState.held (s : DspState) : Multiset Job :=
  (s.pc.inHand : Multiset Job) + (s.completePending.entries.map fun e => e.2.job) +
    s.finished.map Prod.fst

def DspState.HasFinished (s : DspState) (event : Nat) : Prop :=
  event ∈ s.finished.map fun f => f.1.event

section Events

variable {env : DspEnv} {s t : DspState}

theorem jobs_held (s : DspState) : s.jobs = (s.created : Multiset Job) + s.events + s.held := by
  simp only [DspState.jobs, DspState.held]
  abel

theorem takenLog_work (hn : Numbered s)
    (htaken : (s.takenLog : Multiset Nat) = s.held.map Job.event)
    (h : WorkStep env s t) : (t.takenLog : Multiset Nat) = t.held.map Job.event := by
  have hjobs := jobs_work (fun k hpc => hn.sending_new hpc) h
  rw [jobs_held, jobs_held] at hjobs
  have hkeep : t.created = s.created → t.events = s.events → t.takenLog = s.takenLog →
      (t.takenLog : Multiset Nat) = t.held.map Job.event := by
    intro hcreated hevents hlog
    rw [hcreated, hevents] at hjobs
    rw [hlog, add_left_cancel hjobs, htaken]
  cases h with
  | getEvent j events hpc hevents =>
    rw [DspState.held, hpc] at htaken
    simp only [DspState.held, WorkerPc.inHand, Multiset.map_add, ← Multiset.coe_add, htaken,
      Multiset.map_coe, List.map_cons, List.map_nil, Multiset.coe_nil]
    abel
  | run j kernelId e r =>
    refine hkeep ?_ ?_ ?_ <;>
      rcases runKernel_cases s j kernelId r with ⟨_, _, _, heq⟩ | ⟨_, _, _, -, heq⟩ <;> rw [heq]
  | _ => exact hkeep rfl rfl rfl

theorem takenLog_held {ddr : DdrHeaps} (h : Reachable (dspSystem env ddr) s) :
    (s.takenLog : Multiset Nat) = s.held.map Job.event := by
  refine h.invariant (P := fun s => (s.takenLog : Multiset Nat) = s.held.map Job.event)
    (fun s hi => ?_) fun s act t hs htaken hstep => ?_
  · obtain rfl : s = _ := hi
    rfl
  · by_cases hact : act = .work
    · subst hact
      exact takenLog_work (tracked_reachable hs).numbered htaken (work_spec (dspStep_spec hstep).2)
    · have hhost := host_step hstep hact
      rw [hhost.takenLog, htaken, DspState.held, DspState.held, hhost.pc, hhost.completePending,
        hhost.finished]

/-- An event that has been pushed is in the queue, with the worker, in the map or finished. -/
theorem pushed_cases {ddr : DdrHeaps} (h : Reachable (dspSystem env ddr) s) {event : Nat}
    (hpushed : event ∈ s.pushedLog) :
    event ∈ s.events.map Job.event ∨ (∃ j ∈ s.pc.inHand, j.event = event) ∨
      (∃ e ∈ s.completePending.entries, e.2.job.event = event) ∨ s.HasFinished event := by
  rw [← (tracked_reachable h).counted.order] at hpushed
  rcases List.mem_append.mp hpushed with htaken | hqueue
  · right
    have hheld : event ∈ s.held.map Job.event := takenLog_held h ▸ Multiset.mem_coe.mpr htaken
    obtain ⟨j, hj, rfl⟩ := Multiset.mem_map.mp hheld
    rcases Multiset.mem_add.mp hj with hj | hj
    · rcases Multiset.mem_add.mp hj with hj | hj
      · exact Or.inl ⟨j, Multiset.mem_coe.mp hj, rfl⟩
      · obtain ⟨e, he, rfl⟩ := List.mem_map.mp (Multiset.mem_coe.mp hj)
        exact Or.inr (Or.inl ⟨e, he, rfl⟩)
    · obtain ⟨f, hf, rfl⟩ := List.mem_map.mp (Multiset.mem_coe.mp hj)
      exact Or.inr (Or.inr (List.mem_map.mpr ⟨f, hf, rfl⟩))
  · exact Or.inl hqueue

end Events

section Progress

variable {env : DspEnv} {ddr : DdrHeaps} {E : Execution (dspSystem env ddr)}

theorem cleanup_leadsTo (hfair : E.Fair (· = .work)) (hlive : Lives E) (j : Job) (errcode : Int) :
    E.LeadsTo (fun s => s.pc = .cleanup j errcode) fun s => s.HasFinished j.event := by
  apply worker_leadsTo hfair hlive fun _ => 0
  · intro s _ hpc hexit
    cases hpc.symm.trans hexit
  · intro s t _ _ _ hpc hstep
    simp only [DspState.work, hpc] at hstep
    cases hstep
    exact Or.inr List.mem_cons_self
  · intro s t hpc hhost
    exact Or.inl ⟨hhost.pc.trans hpc, le_rfl⟩

theorem sent_leadsTo (hfair : E.Fair (· = .work)) (hlive : Lives E) (k : SentKernel) :
    E.LeadsTo (fun s => s.pc = .sent k) fun s => (k.id, k) ∈ s.completePending.entries := by
  apply worker_leadsTo hfair hlive fun _ => 0
  · intro s _ hpc hexit
    cases hpc.symm.trans hexit
  · intro s t _ _ _ hpc hstep
    simp only [DspState.work, hpc] at hstep
    cases hstep
    exact Or.inr List.mem_cons_self
  · intro s t hpc hhost
    exact Or.inl ⟨hhost.pc.trans hpc, le_rfl⟩

/-- The event that has been taken is sent or done with. -/
theorem taken_leadsTo (hfair : E.Fair (· = .work)) (hlive : Lives E) (j : Job) :
    E.LeadsTo (fun s => s.pc = .taken j)
      fun s => (∃ errcode, s.pc = .cleanup j errcode) ∨ ∃ k, s.pc = .sent k ∧ k.job = j := by
  apply worker_leadsTo hfair hlive fun _ => 0
  · intro s _ hpc hexit
    cases hpc.symm.trans hexit
  · intro s t _ _ hended hpc hstep
    right
    simp only [DspState.work, hpc] at hstep
    split at hstep
    · cases hstep
      exact Or.inl ⟨_, rfl⟩
    · split at hstep <;> cases hstep
      · cases hended
      · rw [DspState.runKernel]
        split
        · exact Or.inr ⟨_, rfl, rfl⟩
        · exact Or.inl ⟨_, rfl⟩
  · intro s t hpc hhost
    exact Or.inl ⟨hhost.pc.trans hpc, le_rfl⟩

/-- A kernel in the map is completed, also when the device has been stopped. -/
theorem kernel_completes (hfair : E.Fair (· = .work)) (hlive : Lives E)
    (hanswers : RepliesComeBack E) (kernelId : Nat) (k : SentKernel) :
    E.LeadsTo (fun s => (kernelId, k) ∈ s.completePending.entries)
      fun s => (k.job, clComplete) ∈ s.finished :=
  (pending_leadsTo hfair hlive hanswers kernelId k).trans fun n hfound =>
    found_leadsTo hfair hlive k.job n (Or.inl ⟨k, hfound, rfl⟩)

theorem entry_leadsTo (hfair : E.Fair (· = .work)) (hlive : Lives E)
    (hanswers : RepliesComeBack E) (event : Nat) :
    E.LeadsTo (fun s => ∃ e ∈ s.completePending.entries, e.2.job.event = event)
      fun s => s.HasFinished event := by
  rintro n ⟨⟨kernelId, k⟩, hmem, rfl⟩
  obtain ⟨m, hm, hdone⟩ := kernel_completes hfair hlive hanswers kernelId k n hmem
  exact ⟨m, hm, List.mem_map.mpr ⟨_, hdone, rfl⟩⟩

/-- The event that the worker holds is finished. -/
theorem inHand_leadsTo (hfair : E.Fair (· = .work)) (hlive : Lives E)
    (hanswers : RepliesComeBack E) (event : Nat) :
    E.LeadsTo (fun s => ∃ j ∈ s.pc.inHand, j.event = event) fun s => s.HasFinished event := by
  have hfinished : ∀ j : Job, E.LeadsTo
      (fun s => (∃ k, s.pc = .found k ∧ k.job = j) ∨ s.pc = .freed j)
      fun s => s.HasFinished j.event := by
    intro j n hpc
    obtain ⟨m, hm, hdone⟩ := found_leadsTo hfair hlive j n hpc
    exact ⟨m, hm, List.mem_map.mpr ⟨_, hdone, rfl⟩⟩
  have hsent : ∀ k : SentKernel, E.LeadsTo (fun s => s.pc = .sent k)
      fun s => s.HasFinished k.job.event := by
    intro k
    apply (sent_leadsTo hfair hlive k).trans
    intro n hmem
    exact entry_leadsTo hfair hlive hanswers _ n ⟨_, hmem, rfl⟩
  rintro n ⟨j, hj, rfl⟩
  cases hpc : (E.state n).pc with
  | found k =>
    rw [hpc] at hj
    obtain rfl := List.mem_singleton.mp hj
    exact hfinished _ n (Or.inl ⟨k, hpc, rfl⟩)
  | sent k =>
    rw [hpc] at hj
    obtain rfl := List.mem_singleton.mp hj
    exact hsent k n hpc
  | freed j' =>
    rw [hpc] at hj
    obtain rfl := List.mem_singleton.mp hj
    exact hfinished j n (Or.inr hpc)
  | taken j' =>
    rw [hpc] at hj
    obtain rfl := List.mem_singleton.mp hj
    obtain ⟨m, hm, ⟨errcode, hcleanup⟩ | ⟨k, hsend, rfl⟩⟩ := taken_leadsTo hfair hlive j n hpc
    · obtain ⟨l, hl, hdone⟩ := cleanup_leadsTo hfair hlive j errcode m hcleanup
      exact ⟨l, hm.trans hl, hdone⟩
    · obtain ⟨l, hl, hdone⟩ := hsent k m hsend
      exact ⟨l, hm.trans hl, hdone⟩
  | cleanup j' errcode =>
    rw [hpc] at hj
    obtain rfl := List.mem_singleton.mp hj
    exact cleanup_leadsTo hfair hlive j errcode n hpc
  | _ =>
    rw [hpc] at hj
    cases hj

/-- As long as the process goes on, every event that is pushed is finished, unless the device is
stopped while it is in the queue. -/
theorem pushed_leadsTo (hfair : E.Fair (· = .work)) (hlive : Lives E)
    (hanswers : RepliesComeBack E) (event : Nat) : E.LeadsTo (fun s => event ∈ s.pushedLog)
      fun s => s.HasFinished event ∨ event ∈ s.events.map Job.event ∧ s.stopped = true := by
  intro n hpushed
  have hheld : E.LeadsTo (fun s => ∃ j ∈ s.pc.inHand, j.event = event)
      fun s => s.HasFinished event ∨ event ∈ s.events.map Job.event ∧ s.stopped = true := by
    intro m hj
    obtain ⟨l, hl, hdone⟩ := inHand_leadsTo hfair hlive hanswers event m hj
    exact ⟨l, hl, Or.inl hdone⟩
  rcases pushed_cases (E.reachable n) hpushed with hqueue | hj | he | hdone
  · cases hstop : (E.state n).stopped with
    | true => exact ⟨n, le_rfl, Or.inr ⟨hqueue, hstop⟩⟩
    | false =>
      obtain ⟨m, hm, ⟨j, hpc, heq⟩ | hleft⟩ := queue_leadsTo hfair hlive event n ⟨hqueue, hstop⟩
      · have hj : ∃ j ∈ (E.state m).pc.inHand, j.event = event := by
          rw [hpc]
          exact ⟨j, List.mem_singleton_self j, heq⟩
        obtain ⟨l, hl, hdone⟩ := hheld m hj
        exact ⟨l, hm.trans hl, hdone⟩
      · exact ⟨m, hm, Or.inr hleft⟩
  · exact hheld n hj
  · obtain ⟨m, hm, hdone⟩ := entry_leadsTo hfair hlive hanswers event n he
    exact ⟨m, hm, Or.inl hdone⟩
  · exact ⟨n, le_rfl, Or.inl hdone⟩

/-- Every event that is pushed is finished, unless the device is stopped while it is in the queue,
or the process ends. -/
theorem event_finishes (hfair : E.Fair (· = .work)) (hanswers : RepliesComeBack E) (event : Nat) :
    E.LeadsTo (fun s => event ∈ s.pushedLog) fun s =>
      (s.HasFinished event ∨ event ∈ s.events.map Job.event ∧ s.stopped = true) ∨
        s.ended = true :=
  leadsTo_or_ended fun hlive => pushed_leadsTo hfair hlive hanswers event

/-! ## Stop -/

/-- The device has been stopped, and the worker takes no more events. -/
def DspState.Drains (s : DspState) : Prop := s.stopped = true ∧ (s.pc.pos < 6 ∨ 10 ≤ s.pc.pos)

section Drain

variable {env : DspEnv} {s t : DspState}

theorem DspState.Drains.work (h : s.Drains) (hended : t.ended = false)
    (hstep : s.work env = some t) : t.Drains := by
  refine ⟨(stopped_work hstep).trans h.1, ?_⟩
  by_cases hexit : t.pc = .exited
  · rw [hexit]
    exact Or.inr (by decide)
  by_cases habort : t.pc = .aborted
  · rw [habort]
    exact Or.inr (by decide)
  have hpos := h.2
  generalize hp : s.pc.pos = p at hpos
  generalize hp' : t.pc.pos = p'
  have hpass := work_passes hstep hended hexit habort
  rw [hp, hp'] at hpass
  cases hpass with
  | next _ _ hrun =>
    have hne : p ≠ 5 := by
      intro heq
      cases (hrun heq).symm.trans h.1
    omega
  | again => omega
  | noMail => omega
  | printed => omega
  | stopped => omega
  | noEvent => omega

theorem DspState.Drains.host (h : s.Drains) (hstep : HostStep s t) : t.Drains :=
  ⟨hstep.stopped h.1, hstep.pc ▸ h.2⟩

/-- No kernel is sent any more. -/
theorem DspState.Drains.pending (h : s.Drains) (hstep : WorkStep env s t) :
    (t.pendingIds : Multiset Nat) ≤ s.pendingIds := by
  cases hstep with
  | getCompletePending kernelId k m hpc hpop =>
    have hids := Multiset.coe_eq_coe.mpr ((tryPop_spec hpop).1.map Prod.fst)
    rw [DspState.pendingIds, DspState.pendingIds, hids, List.map_cons, ← Multiset.cons_coe]
    exact Multiset.le_cons_self _ _
  | pushCompletePending k hpc =>
    have hpos := h.2
    rw [hpc] at hpos
    simp [WorkerPc.pos] at hpos
  | run j kernelId e r hpc =>
    have hpos := h.2
    rw [hpc] at hpos
    simp [WorkerPc.pos] at hpos
  | _ => exact le_rfl

/-- A worker that has been stopped does not pass the place where it sees this. -/
theorem Passes.toStop {p p' : Nat} (h : Passes s p p') (hdrain : p < 6 ∨ 10 ≤ p) (hp : p ≠ 5) :
    (16 - p') % 11 < (16 - p) % 11 := by
  cases h with
  | next _ hlt => omega
  | again => decide
  | noMail => decide
  | printed => decide
  | stopped => omega
  | noEvent => omega

end Drain

/-- Steps up to the time when the worker has seen that it has been stopped. -/
def WorkerPc.stopDistance : WorkerPc → Nat
  | leave true => 0
  | pc => 1 + (16 - pc.pos) % 11

theorem stopDistance_le (pc : WorkerPc) : pc.stopDistance ≤ 1 + (16 - pc.pos) % 11 := by
  unfold WorkerPc.stopDistance
  split
  · exact Nat.zero_le _
  · exact le_rfl

/-- A worker with an empty map leaves. -/
theorem empty_leadsTo (hfair : E.Fair (· = .work)) (hlive : Lives E) :
    E.LeadsTo (fun s => s.Drains ∧ s.pendingIds = [] ∧ s.pc ≠ .exited) fun s => s.pc = .exited := by
  apply worker_leadsTo hfair hlive fun s => s.pc.stopDistance
  · rintro s - ⟨-, -, hexit⟩
    exact hexit
  · rintro s t h h' hended ⟨hdrain, hnil, hexit⟩ hstep
    by_cases hleft : t.pc = .exited
    · exact Or.inr hleft
    have hnil' : t.pendingIds = [] := by
      have hle := hdrain.pending (work_spec hstep)
      rw [hnil] at hle
      exact (Multiset.coe_eq_zero _).mp (Multiset.le_zero.mp hle)
    refine Or.inl ⟨⟨hdrain.work hended hstep, hnil', hleft⟩, ?_⟩
    have hpass := work_passes hstep hended hleft h'.answered.alive
    have hle := stopDistance_le t.pc
    cases hpc : s.pc with
    | readStop =>
      simp only [DspState.work, hpc, hdrain.1] at hstep
      cases hstep
      exact Nat.zero_lt_one
    | leave stop =>
      cases stop with
      | true =>
        -- the map is empty, so the worker leaves
        have hempty : s.completePending.empty = true := by
          have hcount := h.counted.numElements
          rw [List.map_eq_nil_iff.mp hnil] at hcount
          exact decide_eq_true hcount
        simp only [DspState.work, hpc, hempty] at hstep
        cases hstep
        exact absurd rfl hleft
      | false =>
        rw [hpc] at hpass
        have hlt := hpass.toStop (Or.inr le_rfl) (by decide)
        exact lt_of_le_of_lt hle (Nat.add_lt_add_left hlt 1)
    | exited => exact absurd hpc hexit
    | aborted => exact absurd hpc h.answered.alive
    | _ =>
      have hpos := hdrain.2
      rw [hpc] at hpass hpos
      have hlt := hpass.toStop hpos (by simp [WorkerPc.pos])
      exact lt_of_le_of_lt hle (Nat.add_lt_add_left hlt 1)
  · rintro s t ⟨hdrain, hnil, hexit⟩ hhost
    left
    refine ⟨⟨hdrain.host hhost, ?_, hhost.pc ▸ hexit⟩, ?_⟩
    · rw [DspState.pendingIds, hhost.completePending]
      exact hnil
    · rw [hhost.pc]

/-- The kernels in the map are completed one after the other. -/
theorem drains_leadsTo (hfair : E.Fair (· = .work)) (hlive : Lives E)
    (hanswers : RepliesComeBack E) (ids : Multiset Nat) :
    E.LeadsTo (fun s => s.Drains ∧ (s.pendingIds : Multiset Nat) ≤ ids)
      fun s => s.pc = .exited := by
  have hkeep : ∀ ids : Multiset Nat, ∀ s act t, Reachable (dspSystem env ddr) s →
      (s.Drains ∧ (s.pendingIds : Multiset Nat) ≤ ids) → (dspSystem env ddr).Tr s act t →
      (t.Drains ∧ (t.pendingIds : Multiset Nat) ≤ ids) ∨ False := by
    rintro ids s act t - ⟨hdrain, hids⟩ ht
    left
    by_cases hact : act = .work
    · subst hact
      obtain ⟨hlive, hwork⟩ := dspStep_spec ht
      refine ⟨?_, (hdrain.pending (work_spec hwork)).trans hids⟩
      cases hended : t.ended with
      | false => exact hdrain.work hended hwork
      | true =>
        rw [ended_work hwork hlive hended]
        exact ⟨hdrain.1, hdrain.2⟩
    · have hhost := host_step ht hact
      refine ⟨hdrain.host hhost, ?_⟩
      rw [DspState.pendingIds, hhost.completePending]
      exact hids
  induction ids using Multiset.strongInductionOn with
  | _ ids ih =>
    rintro n ⟨hdrain, hids⟩
    by_cases hexit : (E.state n).pc = .exited
    · exact ⟨n, le_rfl, hexit⟩
    cases hentries : (E.state n).completePending.entries with
    | nil =>
      have hnil : (E.state n).pendingIds = [] := by rw [DspState.pendingIds, hentries]; rfl
      exact empty_leadsTo hfair hlive n ⟨hdrain, hnil, hexit⟩
    | cons e rest =>
      obtain ⟨kernelId, k⟩ := e
      have hmem : (kernelId, k) ∈ (E.state n).completePending.entries := by
        rw [hentries]
        exact List.mem_cons_self
      have hid : k.id = kernelId := ((tracked_reachable (E.reachable n)).numbered.keys _ hmem).1
      have hpop :=
        Execution.LeadsTo.keeping (hkeep ids) (pending_leadsTo hfair hlive hanswers kernelId k)
      obtain ⟨m, hm, ⟨⟨hdrain', hids'⟩, hfound⟩ | hfalse⟩ := hpop n ⟨⟨hdrain, hids⟩, hmem⟩
      · -- the kernel that has been found is not in the map any more
        have hn := (tracked_reachable (E.reachable m)).numbered
        have hnodup := hn.nodup
        rw [hfound, WorkerPc.inHand, List.filterMap_cons_some (hn.held k (Or.inr hfound)),
          hid] at hnodup
        have hnot : kernelId ∉ (E.state m).pendingIds := (List.nodup_cons.mp hnodup).1
        have hin : kernelId ∈ ids :=
          Multiset.mem_of_le hids (Multiset.mem_coe.mpr (List.mem_map_of_mem hmem))
        rw [← Multiset.cons_erase hin, Multiset.le_cons_of_notMem (by simpa using hnot)] at hids'
        obtain ⟨l, hl, hleft⟩ :=
          ih _ (Multiset.erase_lt.mpr hin) m ⟨hdrain', hids'⟩
        exact ⟨l, hm.trans hl, hleft⟩
      · exact hfalse.elim

theorem stopped_leadsTo (hfair : E.Fair (· = .work)) (hlive : Lives E)
    (hanswers : RepliesComeBack E) :
    E.LeadsTo (fun s => s.stopped = true) fun s => s.pc = .exited := by
  have hdrains : E.LeadsTo (fun s => s.stopped = true ∧ 6 ≤ s.pc.pos ∧ s.pc.pos < 10)
      fun s => s.Drains := by
    apply worker_leadsTo hfair hlive fun s => 10 - s.pc.pos
    · rintro s - ⟨-, -, hpos⟩ hexit
      rw [hexit] at hpos
      simp [WorkerPc.pos] at hpos
    · rintro s t - h' hended ⟨hstop, hlow, hhigh⟩ hstep
      have hstop' := (stopped_work hstep).trans hstop
      by_cases hdrain : t.pc.pos < 6 ∨ 10 ≤ t.pc.pos
      · exact Or.inr ⟨hstop', hdrain⟩
      · left
        have hexit : t.pc ≠ .exited := by
          intro hpc
          simp [hpc, WorkerPc.pos] at hdrain
        refine ⟨⟨hstop', by omega, by omega⟩, ?_⟩
        generalize hp : s.pc.pos = p at hlow hhigh
        generalize hp' : t.pc.pos = p' at hdrain
        have hpass := work_passes hstep hended hexit h'.answered.alive
        rw [hp, hp'] at hpass
        cases hpass <;> omega
    · rintro s t ⟨hstop, hlow, hhigh⟩ hhost
      left
      rw [hhost.pc]
      exact ⟨⟨hhost.stopped hstop, hlow, hhigh⟩, le_rfl⟩
  intro n hstop
  by_cases hpos : (E.state n).pc.pos < 6 ∨ 10 ≤ (E.state n).pc.pos
  · exact drains_leadsTo hfair hlive hanswers _ n ⟨⟨hstop, hpos⟩, le_rfl⟩
  · obtain ⟨m, hm, hdrain⟩ := hdrains n ⟨hstop, by omega, by omega⟩
    obtain ⟨l, hl, hleft⟩ := drains_leadsTo hfair hlive hanswers _ m ⟨hdrain, le_rfl⟩
    exact ⟨l, hm.trans hl, hleft⟩

/-- A worker that has been stopped leaves, when the kernels that run have been answered, unless the
process ends. -/
theorem stopped_exits (hfair : E.Fair (· = .work)) (hanswers : RepliesComeBack E) :
    E.LeadsTo (fun s => s.stopped = true) fun s => s.pc = .exited ∨ s.ended = true :=
  leadsTo_or_ended fun hlive => stopped_leadsTo hfair hlive hanswers

end Progress

/-! ## An execution -/

section Examples

theorem fair_of_exited {env : DspEnv} {ddr : DdrHeaps} {E : Execution (dspSystem env ddr)}
    (h : ∀ n, ∃ m, n ≤ m ∧ (E.state m).pc = .exited) : E.Fair (· = .work) := by
  intro n henabled
  obtain ⟨m, hm, hpc⟩ := h n
  obtain ⟨act, t, rfl, ht⟩ := henabled m hm
  have hwork := (dspStep_spec ht).2
  simp only [DspState.act, DspState.work, hpc] at hwork
  cases hwork

/-- Three events are pushed and the device is stopped; after that nothing happens. -/
theorem exists_shutdown : ∃ E : Execution (dspSystem smallEnv smallDdr),
    E.Fair (· = .work) ∧ RepliesComeBack E ∧
      ∃ n, (E.state n).pushedLog = [0, 1, 2] ∧ (E.state n).stopped = true := by
  let P : DspState → Prop := fun s =>
    s.pc = .exited ∧ s.running = [] ∧ s.pushedLog = [0, 1, 2] ∧ s.stopped = true ∧
      s.ended = false
  obtain ⟨s, hrun, hcheck⟩ := Option.map_eq_some_iff.mp (show
    (exec (dspStep smallEnv) (.start smallDdr) threeEvents).map (fun s =>
      decide (s.pc.pos = 11 ∧ s.running = [] ∧ s.pushedLog = [0, 1, 2] ∧ s.stopped = true ∧
        s.ended = false)) =
      some true by decide +kernel)
  obtain ⟨hpos, hrunning, hlog, hstop, hlive⟩ := of_decide_eq_true hcheck
  have hreach : Reachable (dspSystem smallEnv smallDdr) s :=
    (run_exec (I := (· = DspState.start smallDdr)) (.initial rfl) hrun).reachable
  have halive := (tracked_reachable hreach).answered.alive
  have hpc : s.pc = .exited := by
    cases hs : s.pc with
    | exited => rfl
    | aborted => exact absurd hs halive
    | _ =>
      rw [hs] at hpos
      cases hpos
  have hnext : ∀ s, P s → ∃ t, dspStep smallEnv s .stop = some t ∧ P t := by
    rintro s ⟨hpc, hrunning, hlog, -, hlive⟩
    exact ⟨_, if_neg (by simp [hlive]), hpc, hrunning, hlog, rfl, hlive⟩
  obtain ⟨E, htail⟩ := exists_execution (I := (· = DspState.start smallDdr)) .stop P hnext rfl
    threeEvents hrun ⟨hpc, hrunning, hlog, hstop, hlive⟩
  have hlate : ∀ n, ∃ m, n ≤ m ∧ P (E.state m) := fun n =>
    ⟨n + threeEvents.length, Nat.le_add_right _ _, htail _ (Nat.le_add_left _ _)⟩
  refine ⟨E, fair_of_exited ?_, ?_, ?_⟩
  · intro n
    obtain ⟨m, hm, hp⟩ := hlate n
    exact ⟨m, hm, hp.1⟩
  · intro kernelId n _
    obtain ⟨m, hm, hp⟩ := hlate n
    exact ⟨m, hm, Or.inl fun hmem => List.not_mem_nil (hp.2.1 ▸ hmem)⟩
  · obtain ⟨m, -, hp⟩ := hlate 0
    exact ⟨m, hp.2.2.1, hp.2.2.2.1⟩

theorem three_events_finish : ∃ E : Execution (dspSystem smallEnv smallDdr),
    (∃ n, (E.state n).pushedLog = [0, 1, 2]) ∧ ∀ event, E.LeadsTo (fun s => event ∈ s.pushedLog)
      fun s => (s.HasFinished event ∨ event ∈ s.events.map Job.event ∧ s.stopped = true) ∨
        s.ended = true := by
  obtain ⟨E, hfair, hanswers, n, hlog, -⟩ := exists_shutdown
  exact ⟨E, ⟨n, hlog⟩, event_finishes hfair hanswers⟩

theorem three_events_exit : ∃ E : Execution (dspSystem smallEnv smallDdr),
    (∃ n, (E.state n).stopped = true) ∧
      E.LeadsTo (fun s => s.stopped = true) fun s => s.pc = .exited ∨ s.ended = true := by
  obtain ⟨E, hfair, hanswers, n, -, hstop⟩ := exists_shutdown
  exact ⟨E, ⟨n, hstop⟩, stopped_exits hfair hanswers⟩

end Examples

end Shamrock.Dsp
