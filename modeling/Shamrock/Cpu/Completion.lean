import Shamrock.Cpu.Coverage

/-!
# Completion of a kernel event

`workGroupFinished` and `finished` are two critical sections. One worker at a time, they
complete the event once; two workers can both be between them when the last group is counted.
-/
namespace Shamrock.Cpu

open Transition Odometer

variable {W : Type} {nd : NDRange} {w : W}

/-- The work-group of the worker is taken and not counted as finished. -/
def Stage.running : Stage → Nat
  | .call _ | .item _ _ | .delete _ => 1
  | _ => 0

/-- The worker has not taken its work-group yet. -/
def Stage.early : Stage → Bool
  | .reserve | .start | .execute => true
  | _ => false

def Stage.succeeded : Stage → Bool
  | .delete ok | .cleanup ok | .report ok => ok
  | _ => true

namespace Launch

variable {L L' : Launch W}

/-- The event as it is worked on by one worker at a time. -/
structure Solo (nd : NDRange) (L : Launch W) : Prop where
  alone : ∀ v u, L.workers v ≠ none → L.workers u ≠ none → v = u
  idle : (∀ v, L.workers v = none) → L.ke.finishedWg.toNat = L.taken.length ∧
    L.completions = if L.taken.length = nd.numGroups then 1 else 0
  busy : ∀ v stage, L.workers v = some stage →
    L.ke.finishedWg.toNat + stage.running = L.taken.length ∧ L.completions = 0 ∧
      stage.succeeded = true ∧ (stage.early = false → 0 < L.taken.length) ∧
      (stage = .report true → L.taken.length = nd.numGroups)

/-- A single work-group or a single worker: nobody is at the event when it is reserved. -/
theorem Solo.idle_of_listed (h : Solo nd L) (hc : Counted nd L)
    (hone : nd.numGroups = 1 ∨ Subsingleton W) (hw : L.workers w = none) (hl : L.listed = true)
    (hr : ∀ v, L.workers v ≠ some .reserve) (v : W) : L.workers v = none := by
  rcases hone with hone | hone
  · cases hv : L.workers v with
    | none => rfl
    | some stage =>
      obtain ⟨hfin, -, -, hpos, -⟩ := h.busy v stage hv
      have hlt := hc.listed.mp hl
      have hm : L.ke.mutex.isSome = false := by
        by_contra hm
        rw [if_pos (Bool.eq_true_of_not_eq_false hm)] at hlt
        omega
      have hstart : stage ≠ .start ∧ stage ≠ .execute := by
        constructor <;>
        · rintro rfl
          have := (hc.holder v).mpr (by simp [hv])
          simp [this] at hm
      have hearly : stage.early = false := by
        cases stage <;> simp_all [Stage.early]
      have := hpos hearly
      omega
  · rw [Subsingleton.elim v w, hw]

variable [DecidableEq W]

/-- The worker at the event goes on to its next stage. -/
theorem Solo.move (h : Solo nd L) {M : Launch W} {stage stage' : Stage}
    (hw : L.workers w = some stage) (hworkers : M.workers = L.workers)
    (hbusy : M.ke.finishedWg.toNat + stage'.running = M.taken.length ∧ M.completions = 0 ∧
      stage'.succeeded = true ∧ (stage'.early = false → 0 < M.taken.length) ∧
      (stage' = .report true → M.taken.length = nd.numGroups)) :
    Solo nd (M.move w (some stage')) := by
  have hothers : ∀ v, v ≠ w → L.workers v = none := by
    intro v hv
    by_contra hne
    exact hv (h.alone v w hne (by simp [hw]))
  refine ⟨?_, ?_, ?_⟩
  · intro v u hv hu
    by_cases hvw : v = w
    · by_cases huw : u = w
      · rw [hvw, huw]
      · simp [huw, hworkers, hothers u huw] at hu
    · simp [hvw, hworkers, hothers v hvw] at hv
  · intro hnone
    simpa using hnone w
  · intro v st hv
    by_cases hvw : v = w
    · obtain rfl : stage' = st := by simpa [hvw] using hv
      exact hbusy
    · simp [hvw, hworkers, hothers v hvw] at hv

/-- The worker at the event leaves it. -/
theorem Solo.leave (h : Solo nd L) {M : Launch W} {stage : Stage}
    (hw : L.workers w = some stage) (hworkers : M.workers = L.workers)
    (hidle : M.ke.finishedWg.toNat = M.taken.length ∧
      M.completions = if M.taken.length = nd.numGroups then 1 else 0) :
    Solo nd (M.move w none) := by
  have hnone : ∀ v, (M.move w none).workers v = none := by
    intro v
    by_cases hvw : v = w
    · simp [hvw]
    · by_contra hne
      exact hvw (h.alone v w (by simpa [hvw, hworkers] using hne) (by simp [hw]))
  exact ⟨fun v u hv => absurd (hnone v) hv, fun _ => hidle,
    fun v st hv => absurd (hnone v) (by simp [hv])⟩

theorem solo_step (hstep : Step L w true L') (hc : Counted nd L)
    (hone : nd.numGroups = 1 ∨ Subsingleton W) (h : Solo nd L) : Solo nd L' := by
  have hnum := nd.numGroups_lt
  have hlen := hc.length
  cases hstep with
  | getEvent _ hw hl hr =>
    have hall := h.idle_of_listed hc hone hw hl hr
    obtain ⟨hfin, hcomp⟩ := h.idle hall
    have hlt : L.taken.length ≠ nd.numGroups := by
      have := hc.listed.mp hl
      omega
    rw [if_neg hlt] at hcomp
    refine ⟨?_, ?_, ?_⟩
    · intro v u hv hu
      by_cases hvw : v = w
      · by_cases huw : u = w
        · rw [hvw, huw]
        · simp [huw, hall] at hu
      · simp [hvw, hall] at hv
    · intro hnone
      simpa using hnone w
    · intro v stage hv
      by_cases hvw : v = w
      · obtain rfl : Stage.reserve = stage := by simpa [hvw] using hv
        simp [hfin, hcomp, Stage.running, Stage.succeeded, Stage.early]
      · simp [hvw, hall] at hv
  | reserve _ hw =>
    obtain ⟨hfin, hcomp, -⟩ := h.busy w _ hw
    exact h.move hw rfl ⟨hfin, hcomp, rfl, by simp [Stage.early], by simp⟩
  | start _ hw =>
    obtain ⟨hfin, hcomp, -⟩ := h.busy w _ hw
    exact h.move hw rfl ⟨hfin, hcomp, rfl, by simp [Stage.early], by simp⟩
  | takeInstance _ hw =>
    obtain ⟨hfin, hcomp, -⟩ := h.busy w _ hw
    refine h.move hw rfl ⟨?_, hcomp, rfl, by simp, by simp⟩
    simpa [CPUKernelEvent.takeInstance, Stage.running] using hfin
  | call hw =>
    obtain ⟨hfin, hcomp, -, hpos, -⟩ := h.busy w _ hw
    exact h.move hw rfl ⟨hfin, hcomp, rfl, fun _ => hpos rfl, by simp⟩
  | item _ hw =>
    obtain ⟨hfin, hcomp, -, hpos, -⟩ := h.busy w _ hw
    split
    · exact h.move hw rfl ⟨hfin, hcomp, rfl, fun _ => hpos rfl, by simp⟩
    · exact h.move hw rfl ⟨hfin, hcomp, rfl, fun _ => hpos rfl, by simp⟩
  | @delete _ ok hw =>
    obtain ⟨hfin, hcomp, hok, hpos, -⟩ := h.busy w _ hw
    refine h.move hw rfl ⟨?_, hcomp, hok, fun _ => hpos rfl, by simp⟩
    -- the counter is bounded by the number of groups and does not wrap
    have hone' : (1 : UInt64).toNat = 1 := rfl
    simp only [Stage.running, CPUKernelEvent.workGroupFinished, UInt64.toNat_add, hone'] at hfin ⊢
    rw [Nat.mod_eq_of_lt (by omega)]
    exact hfin
  | unfinished _ hw _ hf =>
    obtain ⟨hfin, hcomp, -⟩ := h.busy w _ hw
    simp only [Stage.running, Nat.add_zero] at hfin
    refine h.leave hw rfl ⟨hfin, ?_⟩
    have hne : L.taken.length ≠ nd.numGroups := by
      intro heq
      have : L.ke.finishedWg = L.ke.numWg := UInt64.toNat_inj.mp (by rw [hfin, hc.num, heq])
      simp [CPUKernelEvent.finished, this] at hf
    rw [if_neg hne]
    exact hcomp
  | finished _ hw _ hf =>
    obtain ⟨hfin, hcomp, -, hpos, -⟩ := h.busy w _ hw
    refine h.move hw rfl ⟨hfin, hcomp, rfl, fun _ => hpos rfl, fun _ => ?_⟩
    have heq : L.ke.finishedWg = L.ke.numWg := by simpa [CPUKernelEvent.finished] using hf
    rw [← hc.num, ← heq]
    exact hfin.symm
  | failed _ hw => simpa [Stage.succeeded] using (h.busy w _ hw).2.2.1
  | complete _ hw =>
    obtain ⟨hfin, hcomp, -, -, hall⟩ := h.busy w _ hw
    refine h.leave hw rfl ⟨hfin, ?_⟩
    rw [if_pos (hall rfl)]
    simp [hcomp]
  | fail _ hw => simpa [Stage.succeeded] using (h.busy w _ hw).2.2.1

theorem solo_reachable (hone : nd.numGroups = 1 ∨ Subsingleton W)
    (h : Reachable (succeeding W nd) L) : Solo nd L := by
  refine h.invariant ?_ ?_
  · rintro _ rfl
    refine ⟨by simp [create], fun _ => ⟨rfl, ?_⟩, by simp [create]⟩
    rw [if_neg]
    · rfl
    · exact Nat.ne_of_lt nd.numGroups_pos
  · intro L a L' hr hs ht
    obtain ⟨v, c⟩ := a
    obtain ⟨hstep, rfl⟩ := ht
    exact solo_step hstep (counted_reachable hr.of_restrict) hone hs

end Launch

/-- `setStatus(CL_COMPLETE)` is called once, after all work-groups have finished, and nobody
accesses the event after it. -/
structure CompletedOnce (nd : NDRange) (s : State W) (e : EventId) (ke : CPUKernelEvent W) :
    Prop where
  once : (s.slots e).completions ≤ 1
  all_finished : 0 < (s.slots e).completions → ke.finishedWg.toNat = nd.numGroups
  untouched : 0 < (s.slots e).completions → ∀ w, s.accessed w ≠ some e
  completed : e ∉ s.events → (∀ w stage, s.workers w ≠ some (e, stage)) →
    (s.slots e).completions = 1

section Device

variable {s : State W} {e : EventId} {ke : CPUKernelEvent W}

theorem completedOnce_of_solo (hc : Launch.Counted nd (s.project e ke))
    (h : Launch.Solo nd (s.project e ke)) : CompletedOnce nd s e ke := by
  have hidle : 0 < (s.slots e).completions → ∀ v, (s.project e ke).workers v = none := by
    intro hpos v
    cases hv : (s.project e ke).workers v with
    | none => rfl
    | some stage =>
      have : (s.slots e).completions = 0 := (h.busy v stage hv).2.1
      omega
  have hall : 0 < (s.slots e).completions → (s.slots e).taken.length = nd.numGroups := by
    intro hpos
    by_contra hne
    have : (s.slots e).completions = 0 := (h.idle (hidle hpos)).2.trans (if_neg hne)
    omega
  refine ⟨?_, ?_, ?_, ?_⟩
  · rcases Nat.eq_zero_or_pos (s.slots e).completions with h0 | hpos
    · omega
    · have : (s.slots e).completions = 1 := (h.idle (hidle hpos)).2.trans (if_pos (hall hpos))
      omega
  · intro hpos
    exact (h.idle (hidle hpos)).1.trans (hall hpos)
  · intro hpos w hw
    unfold State.accessed at hw
    split at hw
    · rename_i e' stage hws
      obtain rfl := Option.some.inj hw
      have := hidle hpos w
      simp [State.project, hws] at this
    · have hl : (s.project e ke).listed = true := by
        simpa [State.project] using List.mem_of_head? hw
      have := hc.listed.mp hl
      have : (s.project e ke).taken.length = nd.numGroups := hall hpos
      omega
  · intro hl hnone
    have hw : ∀ v, (s.project e ke).workers v = none := by
      intro v
      cases hv : (s.project e ke).workers v with
      | none => rfl
      | some stage => exact absurd (onEvent_eq_some.mp hv) (hnone v stage)
    have hm : (s.project e ke).ke.mutex.isSome = false := by
      by_contra hm
      obtain ⟨v, hv⟩ := Option.isSome_iff_exists.mp (Bool.eq_true_of_not_eq_false hm)
      have := (hc.holder v).mp hv
      simp [hw] at this
    have hl' : ¬ (s.project e ke).listed = true := by simpa [State.project] using hl
    rw [hc.listed, hm] at hl'
    have hlen := hc.length
    exact (h.idle hw).2.trans (if_pos (by simp at hl'; omega))

end Device

namespace Launch

variable [DecidableEq W] {L L' : Launch W} {c : Bool}

theorem Step.unique {L₁ L₂ : Launch W} (h₁ : Step L w c L₁) (h₂ : Step L w c L₂) : L₁ = L₂ := by
  cases h₁ <;> cases h₂ <;> simp_all

/-- The loop of `run` comes to its end. -/
theorem run_items (n : Nat) (h : Reachable (succeeding W nd) L) {wg : CPUKernelWorkGroup}
    {l : List UInt64} (hw : L.workers w = some (.item wg l))
    (hn : size nd.maxLocals = rank nd.maxLocals (nats l) + n + 1) :
    ∃ ex, Reachable (succeeding W nd) ({ L with executed := ex }.move w (some (.delete true))) := by
  induction n generalizing L l with
  | zero =>
    obtain ⟨hk, -⟩ | ⟨-, hlast⟩ :=
      (running_reachable h).incVec_item (counted_reachable h.of_restrict) hw
    · omega
    · have hstep := Step.item true hw
      rw [hlast] at hstep
      exact ⟨_, .step (a := (w, true)) h ⟨hstep, rfl⟩⟩
  | succ n ih =>
    obtain ⟨-, hnext, -, hrank⟩ | ⟨hk, -⟩ :=
      (running_reachable h).incVec_item (counted_reachable h.of_restrict) hw
    · have hstep := Step.item true hw
      rw [hnext] at hstep
      obtain ⟨ex, hex⟩ := ih (l := (incVec l wg.maxLocalId).1)
        (.step (a := (w, true)) h ⟨hstep, rfl⟩) (by simp) (by omega)
      refine ⟨ex, ?_⟩
      simpa [Launch.move] using hex
    · omega

/-- A worker that finds the event in the list comes back from its work-group, with nobody else
moving in between. -/
theorem round (h : Reachable (succeeding W nd) L) (hw : L.workers w = none)
    (hl : L.listed = true) (hr : ∀ v, L.workers v ≠ some .reserve) (hm : L.ke.mutex = none) :
    ∃ M, Reachable (succeeding W nd) M ∧
      M.workers = Function.update L.workers w (some (.cleanup true)) ∧ M.ke.mutex = none ∧
      M.completions = L.completions ∧ M.taken.length = L.taken.length + 1 ∧
      M.ke.finishedWg = L.ke.finishedWg + 1 := by
  have step : ∀ {A B : Launch W}, Reachable (succeeding W nd) A → Step A w true B →
      Reachable (succeeding W nd) B := fun hA hAB => .step (a := (w, true)) hA ⟨hAB, rfl⟩
  have h₁ := step h (.getEvent true hw hl hr)
  have h₂ := step h₁ (.reserve true (move_self _ w _) hm)
  have h₃ := step h₂ (.start true (move_self _ w _))
  have h₄ := step h₃ (.takeInstance true (move_self _ w _))
  have h₅ := step h₄ (.call (move_self _ w _))
  have hv := rank_lt ((running_reachable h₅).item w _ _ (move_self _ w _))
  obtain ⟨n, hn⟩ := Nat.exists_eq_add_of_lt hv
  obtain ⟨ex, h₆⟩ := run_items n h₅ (move_self _ w _) hn
  have h₇ := step h₆ (.delete true (move_self _ w _) rfl)
  refine ⟨_, h₇, ?_, rfl, rfl, ?_, rfl⟩
  · simp [Launch.move]
  · simp [Launch.move]

/-- One worker alone can go through all work-groups but two. -/
theorem rounds (nd : NDRange) (w : W) (k : Nat) (hk : k + 2 ≤ nd.numGroups) :
    ∃ M, Reachable (succeeding W nd) M ∧ (∀ v, M.workers v = none) ∧ M.ke.mutex = none ∧
      M.completions = 0 ∧ M.taken.length = k ∧ M.ke.finishedWg.toNat = k := by
  induction k with
  | zero => exact ⟨create W nd, .initial rfl, fun _ => rfl, rfl, rfl, rfl, rfl⟩
  | succ k ih =>
    obtain ⟨L, hL, hnone, hm, hcomp, hlen, hfin⟩ := ih (by omega)
    have hc := counted_reachable hL.of_restrict
    have hl : L.listed = true := hc.listed.mpr (by simp [hm, hlen]; omega)
    obtain ⟨M, hM, hMw, hMm, hMc, hMl, hMf⟩ := round hL (hnone w) hl (by simp [hnone]) hm
    have hMf' : M.ke.finishedWg.toNat = k + 1 := by
      have hone : (1 : UInt64).toNat = 1 := rfl
      have hnum := nd.numGroups_lt
      rw [hMf, UInt64.toNat_add, hfin, hone, Nat.mod_eq_of_lt (by omega)]
    have hun : M.ke.finished = false := by
      have hnum := (counted_reachable hM.of_restrict).num
      simp only [CPUKernelEvent.finished, decide_eq_false_iff_not]
      intro heq
      rw [heq, hnum] at hMf'
      omega
    refine ⟨_, .step (a := (w, true)) hM ⟨.unfinished true (by simp [hMw]) hMm hun, rfl⟩, ?_,
      hMm, ?_, ?_, hMf'⟩
    · intro v
      by_cases hv : v = w
      · simp [hv]
      · simp [hv, hMw, hnone]
    · exact hMc.trans hcomp
    · exact hMl.trans (by omega)

/-- Two workers with the last two groups: one completes the event while the other has still to
ask whether it is finished. -/
theorem completed_under_worker (nd : NDRange) {a b : W} (hab : a ≠ b) (h2 : 2 ≤ nd.numGroups) :
    ∃ M, Reachable (succeeding W nd) M ∧ M.completions = 1 ∧
      M.workers a = some (.cleanup true) := by
  obtain ⟨L, hL, hnone, hm, hcomp, hlen, hfin⟩ := rounds nd a (nd.numGroups - 2) (by omega)
  have hnum := nd.numGroups_lt
  have hone : (1 : UInt64).toNat = 1 := rfl
  have hl : L.listed = true :=
    (counted_reachable hL.of_restrict).listed.mpr (by simp [hm, hlen]; omega)
  obtain ⟨M, hM, hMw, hMm, hMc, hMl, hMf⟩ := round hL (hnone a) hl (by simp [hnone]) hm
  have hMlist : M.listed = true :=
    (counted_reachable hM.of_restrict).listed.mpr (by simp [hMm, hMl, hlen]; omega)
  have hMr : ∀ v, M.workers v ≠ some .reserve := by
    intro v
    by_cases hv : v = a
    · simp [hMw, hv]
    · simp [hMw, hv, hnone]
  have hMb : M.workers b = none := by simp [hMw, hab.symm, hnone]
  obtain ⟨N, hN, hNw, hNm, hNc, hNl, hNf⟩ := round hM hMb hMlist hMr hMm
  have hfinished : N.ke.finished = true := by
    have hNnum := (counted_reachable hN.of_restrict).num
    simp only [CPUKernelEvent.finished, decide_eq_true_eq]
    apply UInt64.toNat_inj.mp
    rw [hNnum, hNf, hMf, UInt64.toNat_add, UInt64.toNat_add, hfin, hone,
      Nat.mod_eq_of_lt (by omega), Nat.mod_eq_of_lt (by omega)]
    omega
  have h₁ : Reachable (succeeding W nd) _ :=
    .step (a := (b, true)) hN ⟨.finished true (by simp [hNw]) hNm hfinished, rfl⟩
  have h₂ : Reachable (succeeding W nd) _ :=
    .step (a := (b, true)) h₁ ⟨.complete true (by simp), rfl⟩
  refine ⟨_, h₂, ?_, ?_⟩
  · change N.completions + 1 = 1
    rw [hNc, hMc, hcomp]
  · simp [hab, hNw, hMw]

end Launch

section Lift

variable [DecidableEq W] {s : State W} {ke : CPUKernelEvent W} {c : Bool} {L : Launch W}

/-- A device that was given one event takes every step that the event allows. -/
theorem enabled_of_step (hs : Wf s) (hone : s.nextEvent = 1) (hd : (s.slots 0).data = some ke)
    (h : Launch.Step (s.project 0 ke) w c L) : ∃ t, resume s w c = some t := by
  have hzero : ∀ v e stage, s.workers v = some (e, stage) → e = 0 := by
    intro v e stage hv
    have := hs.working v e stage hv
    rw [hone] at this
    exact Nat.lt_one_iff.mp this
  have hon : ∀ {stage : Stage}, (s.project 0 ke).workers w = some stage →
      s.workers w = some (0, stage) := fun hv => onEvent_eq_some.mp hv
  cases h with
  | getEvent _ hw hl hr =>
    have hw' : s.workers w = none := by
      cases hw' : s.workers w with
      | none => rfl
      | some p =>
        obtain ⟨e, stage⟩ := p
        obtain rfl := hzero w e stage hw'
        simp [State.project, hw'] at hw
    have hmem : 0 ∈ s.events := by simpa [State.project] using hl
    have hevents : s.events = [0] := by
      have hall : ∀ e ∈ s.events, e = 0 := fun e he =>
        Nat.lt_one_iff.mp (by simpa [hone] using hs.listed e he)
      have hrep := List.eq_replicate_of_mem hall
      have hlen : s.events.length ≤ 1 := by
        have hn := hs.nodup
        rw [hrep, List.nodup_replicate] at hn
        exact hn
      have hpos := List.length_pos_of_mem hmem
      rw [hrep, show s.events.length = 1 by omega]
      rfl
    have hm : s.eventsMutex = none := by
      cases hm : s.eventsMutex with
      | none => rfl
      | some v =>
        obtain ⟨e, he⟩ := (hs.locked v).mp hm
        obtain rfl := hzero v e _ he
        exact absurd (by simp [State.project, he]) (hr v)
    have hcount : s.numEvents ≠ 0 := by
      rw [hs.count, hevents]
      decide
    simp [resume, hw', getEvent, hm, hcount, hevents, hd]
  | reserve _ hw hm =>
    have hm' : ke.mutex = none := hm
    simp [resume, hon hw, hd, reserve, hm']
  | start _ hw => simp [resume, hon hw]
  | takeInstance _ hw => simp [resume, hon hw, hd]
  | call hw => simp [resume, hon hw]
  | noFunction hw => simp [resume, hon hw]
  | item _ hw => simp [resume, hon hw]
  | delete _ hw hm =>
    have hm' : ke.mutex = none := hm
    simp [resume, hon hw, hd, hm']
  | unfinished _ hw hm hf =>
    have hm' : ke.mutex = none := hm
    have hf' : ke.finished = false := hf
    simp [resume, hon hw, hd, hm', hf']
  | finished _ hw hm hf =>
    have hm' : ke.mutex = none := hm
    have hf' : ke.finished = true := hf
    simp [resume, hon hw, hd, hm', hf']
  | failed _ hw => simp [resume, hon hw]
  | complete _ hw => simp [resume, hon hw]
  | fail _ hw => simp [resume, hon hw]

/-- Every run of one kernel event is a run of a device that was given this event. -/
theorem exists_device_run (h : Reachable (succeeding W nd) L) :
    ∃ s ke, Reachable ((device W).restrict RunsSucceed) s ∧ s.nextEvent = 1 ∧
      (s.slots 0).data = some ke ∧ s.project 0 ke = L := by
  induction h with
  | initial hi =>
    subst hi
    obtain ⟨s, hs⟩ : ∃ s, step (initial W) (.pushEvent (some nd)) = some s := ⟨_, rfl⟩
    have hreach : Reachable ((device W).restrict RunsSucceed) s :=
      .step (.initial rfl) ⟨hs, trivial⟩
    obtain rfl := Option.some.inj hs
    exact ⟨_, _, hreach, rfl, rfl, rfl⟩
  | @step L L' a hL ht ih =>
    obtain ⟨s, ke, hs, hone, hd, rfl⟩ := ih
    obtain ⟨w, c⟩ := a
    obtain ⟨hstep, rfl⟩ := ht
    have hwf := wf_reachable hs.of_restrict
    obtain ⟨t, ht⟩ := enabled_of_step hwf hone hd hstep
    obtain ⟨e, hseen⟩ := seen_resume hwf ht
    have he : e = 0 := by
      have hlt : e < s.nextEvent := by
        have hacc := hseen.accessed
        unfold State.accessed at hacc
        split at hacc
        · rename_i e' stage hw
          obtain rfl := Option.some.inj hacc
          exact hwf.working w _ stage hw
        · exact hwf.listed e (List.mem_of_head? hacc)
      exact Nat.lt_one_iff.mp (by simpa [hone] using hlt)
    subst he
    obtain ⟨ke', hke', hstep'⟩ := hseen.kernel ke hd
    exact ⟨t, ke', .step (a := .resume w true) hs ⟨ht, rfl⟩,
      hseen.touches.nextEvent.trans hone, hke', hstep'.unique hstep⟩

/-- The event is completed once in every run exactly if it has one work-group or the device has
one worker. -/
theorem kernel_completed_once_iff (W : Type) [DecidableEq W] (nd : NDRange) :
    (∀ (s : State W) (e : EventId) (ke : CPUKernelEvent W),
      Reachable ((device W).restrict RunsSucceed) s → (s.slots e).data = some ke →
        ke.event = nd → CompletedOnce nd s e ke) ↔ nd.numGroups = 1 ∨ Subsingleton W := by
  constructor
  · intro h
    by_contra hnot
    rw [not_or, not_subsingleton_iff_nontrivial] at hnot
    obtain ⟨hne, hW⟩ := hnot
    obtain ⟨a, b, hab⟩ := exists_pair_ne W
    have hpos := nd.numGroups_pos
    obtain ⟨L, hL, hcomp, ha⟩ := Launch.completed_under_worker nd hab (by omega)
    obtain ⟨s, ke, hs, -, hd, rfl⟩ := exists_device_run hL
    have hev : ke.event = nd := (Launch.counted_reachable hL.of_restrict).event
    have hcomp' : (s.slots 0).completions = 1 := hcomp
    refine (h s 0 ke hs hd hev).untouched (by omega) a ?_
    simp [State.accessed, onEvent_eq_some.mp ha]
  · rintro hone s e ke hs hd rfl
    have hrun := project_reachable hs hd
    exact completedOnce_of_solo (Launch.counted_reachable hrun.of_restrict)
      (Launch.solo_reachable hone hrun)

/-- Both workers of a two-group launch call `setStatus(CL_COMPLETE)`. -/
theorem two_workers_complete_twice : ¬ ∀ (s : State Bool) (e : EventId) (ke : CPUKernelEvent Bool),
    Reachable ((device Bool).restrict RunsSucceed) s → (s.slots e).data = some ke →
      CompletedOnce ke.event s e ke := by
  intro h
  obtain ⟨s, hr, hc⟩ := exists_succeeding_run
    (List.flatten [[.pushEvent (some twoGroups)], List.replicate 8 (.resume true true),
      List.replicate 8 (.resume false true),
      [.resume true true, .resume false true, .resume true true, .resume false true]])
    (fun s => (s.slots 0).data.isSome && (s.slots 0).completions == 2)
    (by decide +kernel)
  simp only [Bool.and_eq_true, beq_iff_eq] at hc
  obtain ⟨ke, hke⟩ := Option.isSome_iff_exists.mp hc.1
  have := (h s 0 ke hr hke).once
  omega

end Lift

end Shamrock.Cpu
