import Shamrock.Scheduler.Reports

/-! The links between an event and what it waits for, kept at both ends. -/
namespace Shamrock.Scheduler

open Transition

variable {T : Type} [DecidableEq T] {s s' : State T} {a : Action T} {d w x : EventId}

/-- A constructor works through the wait list it was given, a failed event through its
dependents. -/
def LinkOk (s : State T) : Frame → Prop
  | .register e rest => e < s.nextEvent ∧ rest ⊆ (s.events e).waitList
  | .appendWait e w rest => e < s.nextEvent ∧ w ∈ (s.events e).waitList ∧
      rest ⊆ (s.events e).waitList ∧ e ∈ (s.events w).dependentEvents
  | .setStatus f => f.event < s.nextEvent ∧ ∀ i num d q, f.pc = .terminate i num d q →
      d ∈ (s.events f.event).dependentEvents
  | _ => True

/-- Who waits for whom is written down at both ends, for events of the given wait lists only. -/
structure LinkInv (s : State T) : Prop where
  frame : ∀ t, ∀ f ∈ s.threads t, LinkOk s f
  dependent : ∀ {w d}, w < s.nextEvent → d ∈ (s.events w).dependentEvents →
    (∃ q, (s.events d).parent = some q) ∧ w ∈ (s.events d).waitList
  waiting : ∀ {d w}, d < s.nextEvent → w ∈ (s.events d).waitEvents →
    w ∈ (s.events d).waitList ∧ d ∈ (s.events w).dependentEvents

/-- Dependents are never forgotten. -/
theorem dependents_mono (h : Step s a s') (hw : w < s.nextEvent)
    (hd : d ∈ (s.events w).dependentEvents) : d ∈ (s'.events w).dependentEvents := by
  have hev := step_event h w
  generalize s'.events w = ev at hev
  cases hev with
  | created hx _ => exact absurd hx (Nat.ne_of_lt hw)
  | @callback type c _ =>
    obtain ⟨l, m, hl⟩ := (s.events w).setCallback_eq type c
    rw [hl]
    exact hd
  | @dependent e _ _ _ _ =>
    obtain ⟨l, hl⟩ := (s.events w).addDependentEvent_eq e
    rw [hl]
    exact List.mem_append_left _ hd
  | _ => exact hd

theorem linkOk_mono (h : Step s a s') (hs : Sound s) {f : Frame} (hf : LinkOk s f) :
    LinkOk s' f := by
  have hn := step_nextEvent h
  cases f with
  | register e rest =>
    rw [LinkOk, (step_identity h hf.1).waitList]
    exact ⟨Nat.lt_of_lt_of_le hf.1 hn, hf.2⟩
  | appendWait e w rest =>
    have hw := (hs.calls.event e hf.1).waitList w hf.2.1
    rw [LinkOk, (step_identity h hf.1).waitList]
    exact ⟨Nat.lt_of_lt_of_le hf.1 hn, hf.2.1, hf.2.2.1, dependents_mono h hw hf.2.2.2⟩
  | setStatus f =>
    refine ⟨Nat.lt_of_lt_of_le hf.1 hn, fun i num d q hpc => ?_⟩
    exact dependents_mono h hf.1 (hf.2 i num d q hpc)
  | _ => trivial

theorem linkOk_step (h : Step s a s') (hs : Sound s) (hi : LinkInv s) :
    ∀ t, ∀ f ∈ s'.threads t, LinkOk s' f := by
  apply frames_step h hi.frame (fun f hf => linkOk_mono h hs hf)
  intro hold
  cases h
  case createUserEvent => exact hold
  case setCallback => exact hold
  all_goals
    simp only [actor_resume, actor_setUserEventStatus, actor_enqueue, actor_flush, actor_finish,
      actor_deviceSetStatus, State.setStack_threads, State.pushDependent_threads,
      Function.update_self, List.forall_mem_cons, *] at hold ⊢
  case construct ws k hk =>
    refine ⟨?_, hold.2⟩
    split
    · trivial
    · exact ⟨Nat.lt_succ_self _, by simp [Event.command]⟩
  case addDependent e w rest k hk hne =>
    obtain ⟨⟨hlt, hsub⟩, hk'⟩ := hold
    refine ⟨⟨hlt, hsub List.mem_cons_self, fun x hx => hsub (List.mem_cons_of_mem _ hx), ?_⟩, hk'⟩
    simp [Event.addDependentEvent_of_ne hne]
  case addDependentRefused hk _ =>
    obtain ⟨⟨hlt, hsub⟩, hk'⟩ := hold
    exact ⟨⟨hlt, fun x hx => hsub (List.mem_cons_of_mem _ hx)⟩, hk'⟩
  case appendWait hk =>
    obtain ⟨⟨hlt, -, hsub, -⟩, hk'⟩ := hold
    exact ⟨⟨hlt, hsub⟩, hk'⟩
  case setUserEventStatus he _ _ _ => exact ⟨⟨he, by simp [StatusFrame.call]⟩, hold⟩
  case deviceSetStatus hp hh _ =>
    exact ⟨⟨(hs.wf.handed_lt hh).1, by simp [StatusFrame.call]⟩, hold⟩
  case finish => exact ⟨trivial, trivial, hold⟩
  case pushTake he _ _ =>
    exact ⟨⟨(hs.wf.event_lt he).1, by simp [StatusFrame.call]⟩, trivial, hold.2⟩
  case helperNotify => exact ⟨⟨hold.1.1, by simp⟩, hold.2⟩
  case notifyBlocked => exact ⟨⟨hold.1.1, by simp⟩, hold.2⟩
  case notifyReady => exact ⟨trivial, ⟨hold.1.1, by simp⟩, hold.2⟩
  case terminate => exact ⟨trivial, ⟨hold.1.1, by simp⟩, hold.2⟩
  case notifyFailed f i num d q k hk hpc hi' hd hm he hq hst =>
    refine ⟨⟨hold.1.1, fun i' num' d' q' hpc' => ?_⟩, hold.2⟩
    obtain ⟨-, -, rfl, -⟩ := StatusPC.terminate.inj hpc'
    have hlt : f.event < s.nextEvent := hold.1.1
    exact dependents_mono (.notifyFailed (g := true) hk hpc hi' hd hm he hq hst) hlt
      (List.mem_of_getElem? hd)
  all_goals first
    | exact hold.2 | exact ⟨trivial, hold.2⟩ | exact ⟨trivial, hold⟩

/-- A new event waits for nothing yet, and nothing for it. -/
theorem new_event_links (h : Step s a s') (hlt : ¬ x < s.nextEvent) (hx : x < s'.nextEvent) :
    (s'.events x).dependentEvents = [] ∧ (s'.events x).waitEvents = [] := by
  cases h
  case createUserEvent =>
    have hx : x = s.nextEvent := Nat.le_antisymm (Nat.lt_succ_iff.mp hx) (not_lt.mp hlt)
    simp [hx, Event.userEvent]
  case construct =>
    have hx : x = s.nextEvent := Nat.le_antisymm (Nat.lt_succ_iff.mp hx) (not_lt.mp hlt)
    simp [hx, Event.command]
  all_goals exact absurd hx hlt

theorem linkInv_step (h : Step s a s') (hs : Sound s) (hi : LinkInv s) : LinkInv s' where
  frame := linkOk_step h hs hi
  dependent := by
    intro w d hw hd
    by_cases hlt : w < s.nextEvent
    · have hold : d < s.nextEvent ∧ (∃ q, (s.events d).parent = some q) ∧
          w ∈ (s.events d).waitList := by
        rcases dependents_step h hlt hd with hd | ⟨rest, k, hk⟩
        · exact ⟨(hs.calls.event w hlt).dependents d hd, hi.dependent hlt hd⟩
        · have hb : Builds (s.threads a.actor) d := by simp [hk, Frame.building]
          have hr := hi.frame a.actor (.register d (w :: rest)) (by simp [hk])
          exact ⟨hr.1, (hs.wf.owned.builds hb).2.1, hr.2 List.mem_cons_self⟩
      obtain ⟨hdlt, ⟨q, hq⟩, hmem⟩ := hold
      have hid := step_identity h hdlt
      exact ⟨⟨q, hid.parent.trans hq⟩, by rwa [hid.waitList]⟩
    · simp [(new_event_links h hlt hw).1] at hd
  waiting := by
    intro d w hd hw
    by_cases hlt : d < s.nextEvent
    · have hold : w ∈ (s.events d).waitList ∧ d ∈ (s.events w).dependentEvents := by
        have hc := step_waitEvents h hlt
        generalize (s'.events d).waitEvents = l at hc hw
        cases hc with
        | same => exact hi.waiting hlt hw
        | @waiting v rest k hk =>
          rcases List.mem_append.mp hw with hw | hw
          · exact hi.waiting hlt hw
          · have hr := hi.frame a.actor (.appendWait d v rest) (by simp [hk])
            rw [List.mem_singleton.mp hw]
            exact ⟨hr.2.1, hr.2.2.2⟩
        | notified => exact hi.waiting hlt (List.mem_filter.mp hw).1
      have hwlt := (hs.calls.event d hlt).waitList w hold.1
      rw [(step_identity h hlt).waitList]
      exact ⟨hold.1, dependents_mono h hwlt hold.2⟩
    · simp [(new_event_links h hlt hd).2] at hw

theorem linkInv_reachable (h : Reachable (scheduler T) s) : LinkInv s := by
  apply h.invariant
  · rintro _ ⟨o, rfl⟩
    constructor <;> simp [initial]
  · intro s a s' hr hi ht
    exact linkInv_step (step_cases ht) (sound_reachable hr) hi

end Shamrock.Scheduler
