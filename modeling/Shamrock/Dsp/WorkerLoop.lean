import Shamrock.Dsp.Worker

/-!
# The loop of the worker

The worker goes round its loop and is never stuck in it. The host and the DSP only add events and
mails, and the places that come up to the next mail or event get fewer with each step of the worker.
-/
namespace Shamrock.Dsp

open Transition

/-! ## Round the loop -/

/-- The places of the loop, in the order of the source. -/
def WorkerPc.pos : WorkerPc → Nat
  | loop => 0
  | readMail => 1
  | answered _ => 2
  | found _ => 3
  | freed _ => 4
  | readStop => 5
  | checkEvents => 6
  | getEvent => 7
  | taken _ => 8
  | sent _ | cleanup _ _ => 9
  | leave _ => 10
  | exited | aborted => 11

/-- Places up to the next time the worker is at `goal`. -/
def WorkerPc.distance (pc : WorkerPc) (goal : Nat) : Nat := (goal + 11 - pc.pos) % 11

/-- A step goes to the next place, back to the first one, or leaves places out. -/
inductive Passes (s : DspState) : Nat → Nat → Prop
  | next (p : Nat) : p < 10 → (p = 5 → s.stopped = false) → Passes s p (p + 1)
  | again : Passes s 10 0
  | noMail : s.completePending.empty = true ∨ s.rxMbox = [] → Passes s 0 5
  | printed (mails : List (Option Nat)) : s.rxMbox = none :: mails → Passes s 1 5
  | stopped (p : Nat) : s.stopped = true → p = 5 ∨ p = 7 → Passes s p 10
  | noEvent : s.numEvents = 0 → Passes s 6 10

section Steps

variable {env : DspEnv} {s t : DspState}

theorem work_passes (h : s.work env = some t) (hlive : t.ended = false) (hexit : t.pc ≠ .exited)
    (habort : t.pc ≠ .aborted) : Passes s s.pc.pos t.pc.pos := by
  unfold DspState.work at h
  split at h
  case h_1 hpc =>
    split at h <;> cases h
    · rw [hpc]
      exact .next 0 (by decide) nofun
    · rename_i hmail
      rw [hpc]
      refine .noMail ?_
      cases hempty : s.completePending.empty with
      | true => exact Or.inl rfl
      | false => exact Or.inr (by simpa [hempty] using hmail)
  case h_2 hpc =>
    rw [hpc]
    split at h
    · cases h
    · rename_i mails hmails
      cases h
      exact .printed mails hmails
    · cases h
      exact .next 1 (by decide) nofun
  case h_3 hpc =>
    rw [hpc]
    split at h <;> cases h
    · exact absurd rfl habort
    · exact .next 2 (by decide) nofun
  case h_4 hpc =>
    split at h <;> cases h
    · rw [hpc]
      exact .next 3 (by decide) nofun
    · cases hlive
  case h_5 hpc =>
    cases h
    rw [hpc]
    exact .next 4 (by decide) nofun
  case h_6 hpc =>
    cases h
    rw [hpc]
    split
    · rename_i hstop
      exact .stopped 5 hstop (Or.inl rfl)
    · rename_i hrun
      exact .next 5 (by decide) fun _ => by simpa using hrun
  case h_7 hpc =>
    cases h
    rw [hpc]
    split
    · exact .next 6 (by decide) nofun
    · rename_i hevents
      exact .noEvent (by omega)
  case h_8 hpc =>
    rw [hpc]
    split at h
    · rename_i hstop
      cases h
      exact .stopped 7 hstop (Or.inr rfl)
    · split at h <;> cases h
      exact .next 7 (by decide) nofun
  case h_9 hpc =>
    rw [hpc]
    split at h
    · cases h
      exact .next 8 (by decide) nofun
    · rename_i j _ kernelId e _
      split at h <;> cases h
      · cases hlive
      · rename_i r _
        rcases runKernel_cases s j kernelId r with ⟨_, _, _, heq⟩ | ⟨_, _, _, -, heq⟩ <;>
          rw [heq] <;> exact .next 8 (by decide) nofun
  case h_10 hpc =>
    cases h
    rw [hpc]
    exact .next 9 (by decide) nofun
  case h_11 hpc =>
    cases h
    rw [hpc]
    exact .next 9 (by decide) nofun
  case h_12 hpc =>
    cases h
    rw [hpc]
    split
    · rename_i hleave
      simp [hleave] at hexit
    · exact .again
  case h_13 => cases h
  case h_14 => cases h

/-- With mail for a kernel in the map, no step passes the place where mail is read. -/
theorem Passes.toMail {p p' : Nat} (h : Passes s p p')
    (hpending : p = 0 → s.completePending.empty = false) (hmail : s.rxMbox ≠ []) (hp : p ≠ 1) :
    (12 - p') % 11 < (12 - p) % 11 := by
  cases h with
  | next _ hlt => omega
  | again => decide
  | noMail h => simp [hpending, hmail] at h
  | printed => exact absurd rfl hp
  | stopped _ _ hp => omega
  | noEvent => decide

/-- With an event in the queue of a device that runs, no step passes the place where events are
taken. -/
theorem Passes.toQueue {p p' : Nat} (h : Passes s p p') (hevents : s.numEvents ≠ 0)
    (hrun : s.stopped = false) (hp : p ≠ 7) : (18 - p') % 11 < (18 - p) % 11 := by
  cases h with
  | next _ hlt => omega
  | again => decide
  | noMail => decide
  | printed => decide
  | stopped _ hstop => rw [hrun] at hstop; cases hstop
  | noEvent h => exact absurd h hevents

/-! ## Host and DSP -/

/-- The host and the DSP leave the worker where it is, and only add events and mails. -/
structure HostStep (s t : DspState) : Prop where
  pc : t.pc = s.pc
  completePending : t.completePending = s.completePending
  finished : t.finished = s.finished
  takenLog : t.takenLog = s.takenLog
  events : ∃ events, t.events = s.events ++ events
  rxMbox : ∃ mails, t.rxMbox = s.rxMbox ++ mails
  stopped : s.stopped = true → t.stopped = true
  ended : t.ended = s.ended

theorem host_step {act : DspAction} (h : dspStep env s act = some t) (hact : act ≠ .work) :
    HostStep s t := by
  replace h := (dspStep_spec h).2
  cases act with
  | create kernel =>
    cases kernel with
    | none =>
      cases h
      exact ⟨rfl, rfl, rfl, rfl, ⟨[], (List.append_nil _).symm⟩, ⟨[], (List.append_nil _).symm⟩,
        id, rfl⟩
    | some e =>
      simp only [DspState.act, DspState.create] at h
      split at h <;> cases h
      exact ⟨rfl, rfl, rfl, rfl, ⟨[], (List.append_nil _).symm⟩, ⟨[], (List.append_nil _).symm⟩,
        id, rfl⟩
  | push event =>
    obtain ⟨j, -, rfl⟩ := Option.map_eq_some_iff.mp h
    exact ⟨rfl, rfl, rfl, rfl, ⟨[j], rfl⟩, ⟨[], (List.append_nil _).symm⟩, id, rfl⟩
  | malloc size prefer32bit =>
    cases h
    exact ⟨rfl, rfl, rfl, rfl, ⟨[], (List.append_nil _).symm⟩, ⟨[], (List.append_nil _).symm⟩,
      id, rfl⟩
  | free addr =>
    simp only [DspState.act] at h
    split at h <;> cases h
    exact ⟨rfl, rfl, rfl, rfl, ⟨[], (List.append_nil _).symm⟩, ⟨[], (List.append_nil _).symm⟩,
      id, rfl⟩
  | stop =>
    cases h
    exact ⟨rfl, rfl, rfl, rfl, ⟨[], (List.append_nil _).symm⟩, ⟨[], (List.append_nil _).symm⟩,
      fun _ => rfl, rfl⟩
  | answer kernelId =>
    simp only [DspState.act] at h
    split at h <;> cases h
    exact ⟨rfl, rfl, rfl, rfl, ⟨[], (List.append_nil _).symm⟩, ⟨[some kernelId], rfl⟩, id,
      rfl⟩
  | print =>
    cases h
    exact ⟨rfl, rfl, rfl, rfl, ⟨[], (List.append_nil _).symm⟩, ⟨[none], rfl⟩, id, rfl⟩
  | work => exact absurd rfl hact

/-! ## The worker is never stuck -/

/-- The worker reads mail only when there is some, and takes events only when there are some. -/
structure Ready (s : DspState) : Prop where
  mail : s.pc = .readMail → s.rxMbox ≠ []
  event : s.pc = .getEvent → s.events ≠ []

theorem Ready.work (hc : Counted s) (h : s.work env = some t) : Ready t := by
  have hnot : ∀ u : DspState, u.pc ≠ .readMail → u.pc ≠ .getEvent → Ready u :=
    fun u hmail hevent => ⟨fun hpc => absurd hpc hmail, fun hpc => absurd hpc hevent⟩
  unfold DspState.work at h
  split at h
  case h_1 =>
    split at h <;> cases h
    · rename_i hmail
      refine ⟨fun _ hnil => ?_, nofun⟩
      simp_all
    · exact hnot _ nofun nofun
  case h_2 => split at h <;> cases h <;> exact hnot _ nofun nofun
  case h_3 => split at h <;> cases h <;> exact hnot _ nofun nofun
  case h_4 hpc =>
    split at h <;> cases h
    · exact hnot _ nofun nofun
    · exact hnot _ (by simp [hpc]) (by simp [hpc])
  case h_6 =>
    cases h
    split <;> exact hnot _ nofun nofun
  case h_7 =>
    cases h
    split
    · rename_i hevents
      refine ⟨nofun, fun _ hnil => ?_⟩
      have hcount := hc.numEvents
      simp only at hnil
      rw [hnil, List.length_nil] at hcount
      omega
    · exact hnot _ nofun nofun
  case h_8 =>
    split at h
    · cases h
      exact hnot _ nofun nofun
    · split at h <;> cases h
      exact hnot _ nofun nofun
  case h_9 j hpc =>
    split at h
    · cases h
      exact hnot _ nofun nofun
    · rename_i kernelId e _
      split at h <;> cases h
      · exact hnot _ (by simp [hpc]) (by simp [hpc])
      · rename_i r _
        rcases runKernel_cases s j kernelId r with ⟨_, _, _, heq⟩ | ⟨_, _, _, -, heq⟩ <;>
          rw [heq] <;> exact hnot _ nofun nofun
  case h_12 =>
    cases h
    split <;> exact hnot _ nofun nofun
  case h_13 => cases h
  case h_14 => cases h
  all_goals
    cases h
    exact hnot _ nofun nofun

theorem Ready.host (h : Ready s) (hstep : HostStep s t) : Ready t := by
  obtain ⟨events, hevents⟩ := hstep.events
  obtain ⟨mails, hmails⟩ := hstep.rxMbox
  constructor
  · intro hpc hnil
    rw [hmails] at hnil
    exact h.mail (hstep.pc ▸ hpc) (List.append_eq_nil_iff.mp hnil).1
  · intro hpc hnil
    rw [hevents] at hnil
    exact h.event (hstep.pc ▸ hpc) (List.append_eq_nil_iff.mp hnil).1

theorem ready_reachable {ddr : DdrHeaps} (h : Reachable (dspSystem env ddr) s) : Ready s := by
  refine h.invariant (fun s hi => ?_) fun s act t hs hready hstep => ?_
  · obtain rfl : s = _ := hi
    exact ⟨nofun, nofun⟩
  · by_cases hact : act = .work
    · subst hact
      exact .work (tracked_reachable hs).counted (dspStep_spec hstep).2
    · exact hready.host (host_step hstep hact)

theorem work_enabled {ddr : DdrHeaps} (h : Reachable (dspSystem env ddr) s)
    (hpc : s.pc ≠ .exited) : ∃ t, s.work env = some t := by
  have hready := ready_reachable h
  have halive := (tracked_reachable h).answered.alive
  unfold DspState.work
  split
  case h_2 hmail =>
    split
    · rename_i hnil
      exact absurd hnil (hready.mail hmail)
    · exact ⟨_, rfl⟩
    · exact ⟨_, rfl⟩
  case h_8 hevent =>
    split
    · exact ⟨_, rfl⟩
    · split
      · rename_i hnil
        exact absurd hnil (hready.event hevent)
      · exact ⟨_, rfl⟩
  case h_13 hexit => exact absurd hexit hpc
  case h_14 habort => exact absurd habort halive
  case h_1 => split <;> exact ⟨_, rfl⟩
  case h_3 => split <;> exact ⟨_, rfl⟩
  case h_4 => split <;> exact ⟨_, rfl⟩
  case h_9 =>
    split
    · exact ⟨_, rfl⟩
    · split <;> exact ⟨_, rfl⟩
  all_goals exact ⟨_, rfl⟩

/-! ## Mails and events -/

theorem rxMbox_work (h : s.work env = some t) (hpc : s.pc ≠ .readMail) : t.rxMbox = s.rxMbox := by
  cases work_spec h with
  | printed mails hmail => exact absurd hmail hpc
  | mailFrom kernelId mails hmail => exact absurd hmail hpc
  | run j kernelId e r =>
    rcases runKernel_cases s j kernelId r with ⟨_, _, _, heq⟩ | ⟨_, _, _, -, heq⟩ <;> rw [heq]
  | _ => rfl

theorem work_readMail (h : s.work env = some t) (hpc : s.pc = .readMail) :
    (∃ mails, s.rxMbox = none :: mails ∧ t.rxMbox = mails ∧ t.pc = .readStop) ∨
      ∃ kernelId mails, s.rxMbox = some kernelId :: mails ∧ t.rxMbox = mails ∧
        t.pc = .answered kernelId := by
  simp only [DspState.work, hpc] at h
  split at h
  · cases h
  · rename_i mails hmails
    cases h
    exact Or.inl ⟨mails, hmails, rfl, rfl⟩
  · rename_i kernelId mails hmails
    cases h
    exact Or.inr ⟨kernelId, mails, hmails, rfl, rfl⟩

theorem events_work (h : s.work env = some t) (hpc : s.pc ≠ .getEvent) : t.events = s.events := by
  cases work_spec h with
  | getEvent j events hevent => exact absurd hevent hpc
  | run j kernelId e r =>
    rcases runKernel_cases s j kernelId r with ⟨_, _, _, heq⟩ | ⟨_, _, _, -, heq⟩ <;> rw [heq]
  | _ => rfl

theorem work_getEvent (h : s.work env = some t) (hpc : s.pc = .getEvent)
    (hrun : s.stopped = false) :
    ∃ j events, s.events = j :: events ∧ t.events = events ∧ t.pc = .taken j := by
  simp only [DspState.work, hpc, hrun] at h
  split at h
  · rename_i hstop
    cases hstop
  · split at h
    · cases h
    · rename_i j events hevents
      cases h
      exact ⟨j, events, hevents, rfl, rfl⟩

theorem stopped_work (h : s.work env = some t) : t.stopped = s.stopped := by
  cases work_spec h with
  | run j kernelId e r =>
    rcases runKernel_cases s j kernelId r with ⟨_, _, _, heq⟩ | ⟨_, _, _, -, heq⟩ <;> rw [heq]
  | _ => rfl

theorem WorkerPc.sending_of_pos {pc : WorkerPc} (h : pc.pos ≠ 9) : pc.sending = [] := by
  cases pc <;> first | rfl | exact absurd rfl h

/-- An answer that has not been read belongs to a kernel that is or comes in the map. -/
theorem Tracked.pending_of_mail (h : Tracked s) {kernelId : Nat} (hmail : some kernelId ∈ s.rxMbox)
    (hpos : s.pc.pos ≠ 9) : kernelId ∈ s.pendingIds := by
  have hunread : kernelId ∈ s.unread :=
    Multiset.mem_coe.mpr (List.mem_filterMap.mpr ⟨some kernelId, hmail, rfl⟩)
  have hwaiting : kernelId ∈ (s.pendingIds : Multiset Nat) + s.pc.sending := by
    rw [← h.answered.waiting]
    exact Multiset.mem_add.mpr (Or.inl (Multiset.mem_add.mpr (Or.inr hunread)))
  rw [WorkerPc.sending_of_pos hpos] at hwaiting
  simpa using hwaiting

theorem Tracked.empty_of_pending (h : Tracked s) {kernelId : Nat}
    (hpending : kernelId ∈ s.pendingIds) : s.completePending.empty = false := by
  have hentries : s.completePending.entries ≠ [] := by
    intro hnil
    simp [DspState.pendingIds, hnil] at hpending
  have hcount := h.counted.numElements
  have hlength := List.length_pos_of_ne_nil hentries
  simp only [ConcurrentMap.empty, decide_eq_false_iff_not]
  omega

/-- The worker does not leave before all kernels are complete. -/
theorem Tracked.ne_exited (h : Tracked s) {kernelId : Nat} (hpending : kernelId ∈ s.pendingIds) :
    s.pc ≠ .exited := by
  intro hpc
  rw [DspState.pendingIds, (h.counted.left hpc).2] at hpending
  cases hpending

end Steps

end Shamrock.Dsp
