import Shamrock.Runtime.QueueEvent

/-! Who owns the references on a command, and when its object is destroyed. -/
namespace Shamrock.Runtime

open Transition

namespace CommandObject

variable {s t : CommandObject} {k : Nat}

/-- No thread uses the command without a reference: none calls its callbacks, and the call is not
about to note the time of queueing. -/
def Quiet (s : CommandObject) : Prop :=
  (∀ st ∈ s.setters, st.calling = false) ∧ ¬(s.call.profiling = true ∧ s.api = .updateTiming)

instance (s : CommandObject) : Decidable s.Quiet :=
  inferInstanceAs (Decidable (_ ∧ _))

/-- The lines of the call that give back a reference or delete the command. -/
def OrderlyCall (s : CommandObject) (ok : Bool) : ApiPc → Prop
  -- the helper deletes a command that nobody else knows of
  | .initEventDeviceData => ok = false → s.call.kind.isKernel = true →
    s.waitEvents = [] ∧ s.terminators = 0 ∧ s.setters = []
  -- the same for a command that failed before the call waited for it
  | .checkStatus => s.status < 0 → s.call.kind ≠ .map ∧ s.listed = false ∧ s.Quiet
  | .dereference => s.references ≠ 1
  | .clReleaseEvent => s.references = 1 → s.Quiet
  | _ => True

/-- The steps that neither lose the command nor delete it under a thread that uses it. -/
def Orderly (s : CommandObject) : CommandAction → Prop
  | .api ok => s.OrderlyCall ok s.api
  | .erase | .leave _ | .release | .unmap => s.references = 1 → s.Quiet
  | .push | .take => s.terminators = 0
  | .finish => s.slots = 0 → s.running = 0 → s.checking = 1
  | .fail => s.slots = 0 ∧ s.running = 0 ∧ s.checking = 1
  -- an event that stands in the wait list twice comes to the command a second time
  | .removeWaitEvent event _ => event ∈ s.waitEvents
  | _ => True

instance (s : CommandObject) (ok : Bool) : DecidablePred (s.OrderlyCall ok)
  | .initEventDeviceData => inferInstanceAs (Decidable (ok = false → s.call.kind.isKernel = true →
    s.waitEvents = [] ∧ s.terminators = 0 ∧ s.setters = []))
  | .checkStatus =>
    inferInstanceAs (Decidable (s.status < 0 → s.call.kind ≠ .map ∧ s.listed = false ∧ s.Quiet))
  | .dereference => inferInstanceAs (Decidable (s.references ≠ 1))
  | .clReleaseEvent => inferInstanceAs (Decidable (s.references = 1 → s.Quiet))
  | .mapReference | .eventReference | .blockingReference | .pushBack | .updateTiming
  | .waitForStatus | .ptr | .delete | .deleteAgain | .returned _ => .isTrue trivial

instance (s : CommandObject) : DecidablePred s.Orderly
  | .api ok => inferInstanceAs (Decidable (s.OrderlyCall ok s.api))
  | .erase | .leave _ | .release | .unmap =>
    inferInstanceAs (Decidable (s.references = 1 → s.Quiet))
  | .push | .take => inferInstanceAs (Decidable (s.terminators = 0))
  | .finish => inferInstanceAs (Decidable (s.slots = 0 → s.running = 0 → s.checking = 1))
  | .fail => inferInstanceAs (Decidable (s.slots = 0 ∧ s.running = 0 ∧ s.checking = 1))
  | .removeWaitEvent event _ => inferInstanceAs (Decidable (event ∈ s.waitEvents))
  | .examine | .complete | .getEvent | .run | .runMap | .callbacks _ | .notify _ | .terminate _
  | .retain | .use | .addDependentEvent => .isTrue trivial

/-- The reference of the constructor, once the queue has it. -/
def byQueue (s : CommandObject) : Nat :=
  s.listed.toNat + s.taken.toNat + s.setters.countP Setter.release

def mapCount (s : CommandObject) : Nat := if s.call.kind = .map then 1 else 0

/-- The references that the call will give back or hand over. -/
def byCall (s : CommandObject) : Nat :=
  match s.api with
  | .mapReference => 1
  | .eventReference => 1 + s.mapCount
  | .blockingReference => 1 + s.mapCount + s.call.event.toNat
  | .initEventDeviceData | .pushBack =>
    1 + s.mapCount + s.call.event.toNat + s.call.blocking.toNat
  | .updateTiming | .checkStatus | .waitForStatus | .dereference =>
    s.mapCount + s.call.event.toNat + s.call.blocking.toNat
  | .ptr | .clReleaseEvent => s.mapCount + s.call.event.toNat
  | .delete | .deleteAgain | .returned _ => 0

/-- The call has not given the command to the queue. -/
def early (s : CommandObject) : Bool :=
  match s.api with
  | .mapReference | .eventReference | .blockingReference | .initEventDeviceData | .pushBack => true
  | _ => false

/-- The call still has something to wait for. -/
def waiting (s : CommandObject) : Bool :=
  match s.api with
  | .checkStatus | .waitForStatus | .dereference => true
  | _ => false

/-- A call that has failed or is about to delete the command. -/
def failing (s : CommandObject) : Bool :=
  match s.api with
  | .delete | .deleteAgain | .returned true => true
  | _ => false

/-- `n` references have lost their owner and are about to be given back. -/
structure Alive (s : CommandObject) (n : Nat) : Prop where
  deletes : s.deletes = 0
  stale : s.stale = false
  references : s.references = s.byQueue + s.byCall + s.handles + s.edges + s.maps + n
  positive : 0 < s.references
  api : s.failing = false
  mapped : s.api = .ptr ∨ s.api = .clReleaseEvent → s.call.kind = .map
  blocked : s.waiting = true → s.call.blocking = true
  early : s.early = true → s.byQueue = 0 ∧ s.slots = 0 ∧ s.running = 0 ∧ s.checking = 0
  given : s.early = false → s.listed = false → s.taken = false → s.status ≤ 0
  handed : s.api ≠ .returned false → s.handles = 0 ∧ s.edges = 0 ∧ s.dependents = 0
  device : 0 < s.slots + s.running + s.checking →
    s.listed = true ∧ (s.status = 1 ∨ s.status = 2) ∧ s.terminators = 0
  unset : 0 < s.status → s.setters = [] ∧ s.edges = s.dependents
  undone : s.taken = true → s.status = 3 ∧ s.listed = false ∧ s.terminators = 0
  waits : s.waitEvents ≠ [] → s.status = 3 ∧ s.terminators = 0 ∧ s.taken = false
  terminators : 0 < s.terminators → s.status = 3 ∧ s.terminators = 1
  setters : s.setters = [] ∨ ∃ st, s.setters = [st] ∧ st.num ≤ s.edges ∧
    (s.status ≠ 0 → st.num = 0) ∧ (st.release = true → s.listed = false ∧ s.status = 0)
  maps : 0 < s.maps → s.call.kind = .map

/-- Nobody but the call that is about to delete the command knows of it. -/
structure Gone (s : CommandObject) : Prop where
  stale : s.stale = false
  listed : s.listed = false
  taken : s.taken = false
  slots : s.slots = 0
  running : s.running = 0
  checking : s.checking = 0
  waits : s.waitEvents = []
  terminators : s.terminators = 0
  handles : s.handles = 0
  edges : s.edges = 0
  maps : s.maps = 0
  setters : ∀ st ∈ s.setters, st.calling = false ∧ st.num = 0 ∧ st.release = false

/-- The three parts of the life of a command. -/
inductive Life (s : CommandObject) : Prop
  | alive : s.Alive 0 → Life s
  | doomed : s.Gone → s.deletes = 0 → s.api = .delete → s.call.kind ≠ .map → Life s
  | dead : s.Gone → s.deletes = 1 → ((∃ failed, s.api = .returned failed) ∨
      s.api = .updateTiming ∧ s.call.profiling = false ∧ s.call.blocking = false ∧
        s.call.event = false ∧ s.call.kind ≠ .map) → Life s

theorem access_eq (hd : s.deletes = 0) : s.access = s := by
  cases s
  simp_all [access]

/-- The call has nothing to give back. -/
theorem api_of_byCall (hs : s.Alive k) (hc : s.byCall = 0) : s.api = .returned false ∨
    s.api = .updateTiming ∧ s.call.blocking = false ∧ s.call.event = false ∧
      s.call.kind ≠ .map := by
  have hmapped := hs.mapped
  have hblocked := hs.blocked
  have hapi := hs.api
  unfold byCall mapCount at hc
  unfold waiting at hblocked
  unfold failing at hapi
  cases h : s.api with
  | returned failed => cases failed <;> simp_all
  | _ => simp_all

theorem byQueue_eq_zero (hq : s.byQueue = 0) : s.listed = false ∧ s.taken = false ∧
    ∀ st ∈ s.setters, st.release = false := by
  unfold byQueue at hq
  refine ⟨?_, ?_, fun st hst => ?_⟩
  · cases h : s.listed
    · rfl
    · simp [h] at hq
  · cases h : s.taken
    · rfl
    · simp [h] at hq
  · have hzero : s.setters.countP Setter.release = 0 := by omega
    simpa using List.countP_eq_zero.mp hzero st hst

/-- The last reference goes, and nobody uses the command without one. -/
theorem gone_of_last (hs : s.Alive 1) (hr : s.references = 1) (hq : s.Quiet) : s.Gone := by
  have href := hs.references
  obtain ⟨hlisted, htaken, hrelease⟩ := byQueue_eq_zero (s := s) (by omega)
  have hgiven : s.early = false := by
    rcases api_of_byCall hs (by omega) with h | ⟨h, -⟩ <;> simp [early, h]
  have hstatus := hs.given hgiven hlisted htaken
  have hdevice : s.slots + s.running + s.checking = 0 := by
    by_contra hne
    have := (hs.device (by omega)).1
    simp [hlisted] at this
  refine ⟨hs.stale, hlisted, htaken, by omega, by omega, by omega, ?_, ?_, by omega, by omega,
    by omega, fun st hst => ⟨hq.1 st hst, ?_, hrelease st hst⟩⟩
  · by_contra hne
    have := (hs.waits hne).1
    omega
  · by_contra hne
    have := (hs.terminators (by omega)).1
    omega
  · rcases hs.setters with hnil | ⟨st', hone, hnum, -⟩
    · simp [hnil] at hst
    · rw [hone, List.mem_singleton] at hst
      subst hst
      omega

theorem alive_dereference (hs : s.Alive (k + 1)) (hr : s.references ≠ 1) :
    Alive { s with references := s.references - 1 } k :=
  { hs with
    references := by
      have href := hs.references
      change s.references - 1 = s.byQueue + s.byCall + s.handles + s.edges + s.maps + k
      omega
    positive := by
      have := hs.positive
      simp only
      omega }

/-- Giving back one reference. -/
theorem life_clReleaseEvent (hs : s.Alive 1) (hq : s.references = 1 → s.Quiet) :
    s.clReleaseEvent.Life := by
  have href := hs.references
  unfold clReleaseEvent dereference
  rw [if_pos hs.deletes, access_eq hs.deletes]
  split
  · rename_i hzero
    have hone : s.references = 1 := by
      simp only at hzero
      omega
    have hgone := gone_of_last hs hone (hq hone)
    have hd := hs.deletes
    refine .dead ⟨?_, hgone.listed, hgone.taken, hgone.slots, hgone.running, hgone.checking,
      hgone.waits, hgone.terminators, hgone.handles, hgone.edges, hgone.maps, hgone.setters⟩ ?_ ?_
    · simp [delete, access, hd, hs.stale]
    · simp [delete, hd]
    · rcases api_of_byCall hs (by omega) with h | ⟨h, hb, he, hk⟩
      · exact .inl ⟨false, h⟩
      · refine .inr ⟨h, ?_, hb, he, hk⟩
        cases hp : s.call.profiling
        · exact hp
        · exact absurd ⟨hp, h⟩ (hq hone).2
  · rename_i hmore
    exact .alive (alive_dereference hs (by simp only at hmore; omega))

section Queue

theorem alive_push (hs : s.Alive 0) (hg : s.terminators = 0) (hl : s.listed = true)
    (hst : s.status = 3) (hw : s.waitEvents = []) :
    Alive { s with status := 2, slots := s.call.kind.slots } 0 := by
  have hunset := hs.unset (by omega)
  exact { hs with
    early := fun he => by
      have hq : s.byQueue = 0 := (hs.early he).1
      simp [byQueue, hl] at hq
    given := fun _ h => absurd (hl.symm.trans h) (by simp)
    device := fun _ => ⟨hl, .inr rfl, hg⟩
    unset := fun _ => hunset
    undone := fun h => absurd (hl.symm.trans (hs.undone h).2.1) (by simp)
    waits := fun h => absurd h (by simp [hw])
    terminators := fun h => absurd h (by simp [hg])
    setters := .inl hunset.1 }

theorem alive_take (hs : s.Alive 0) (hg : s.terminators = 0) (hl : s.listed = true)
    (hst : s.status = 3) (hw : s.waitEvents = []) :
    Alive { s with listed := false, taken := true } 0 := by
  have hunset := hs.unset (by omega)
  have htaken : s.taken = false := by
    cases h : s.taken
    · rfl
    · exact absurd (hl.symm.trans (hs.undone h).2.1) (by simp)
  have hearly : s.early = false := by
    cases he : s.early
    · rfl
    · have hq : s.byQueue = 0 := (hs.early he).1
      simp [byQueue, hl] at hq
  have hq : byQueue { s with listed := false, taken := true } = s.byQueue := by
    simp [byQueue, hl, htaken]
  have hdevice : ¬0 < s.slots + s.running + s.checking := by
    intro h
    have := (hs.device h).2.1
    omega
  exact { hs with
    references := by
      have href := hs.references
      rwa [← hq] at href
    early := fun he => absurd (hearly.symm.trans he) (by simp)
    given := fun _ _ h => by cases h
    device := fun h => absurd h hdevice
    undone := fun _ => ⟨hst, rfl, hg⟩
    waits := fun h => absurd h (by simp [hw])
    setters := .inl hunset.1 }

theorem alive_complete (hs : s.Alive 0) (ht : s.taken = true) :
    Alive { s with taken := false, status := 0, setters := [⟨true, s.dependents, true⟩] } 0 := by
  obtain ⟨hst, hl, hterm⟩ := hs.undone ht
  obtain ⟨hsetters, hedges⟩ := hs.unset (by omega)
  have hq :
      byQueue { s with taken := false, status := 0, setters := [⟨true, s.dependents, true⟩] } =
      s.byQueue := by
    simp [byQueue, hl, ht, hsetters]
  have hdevice : ¬0 < s.slots + s.running + s.checking := by
    intro h
    have := (hs.device h).2.1
    omega
  exact { hs with
    references := by
      have href := hs.references
      rwa [← hq] at href
    early := fun he => by
      rw [hq]
      exact hs.early he
    given := fun _ _ _ => le_refl 0
    device := fun h => absurd h hdevice
    unset := fun h => absurd h (by simp)
    undone := fun h => by cases h
    waits := fun h => absurd (hs.waits h).2.2 (by simp [ht])
    terminators := fun h => absurd h (by simp [hterm])
    setters := .inr ⟨_, rfl, hedges.ge, fun h => absurd rfl h, fun _ => ⟨hl, rfl⟩⟩ }

theorem alive_erase (hs : s.Alive 0) (hl : s.listed = true) (hst : s.status ≤ 0) :
    Alive { s with listed := false } 1 := by
  have hq : s.byQueue = byQueue { s with listed := false } + 1 := by
    simp only [byQueue, hl, Bool.toNat_true, Bool.toNat_false]
    omega
  exact { hs with
    references := by
      have href := hs.references
      change s.references =
        byQueue { s with listed := false } + s.byCall + s.handles + s.edges + s.maps + 1
      omega
    early := fun he => by
      have := (hs.early he).1
      omega
    given := fun _ _ _ => hst
    device := fun h => by
      have := (hs.device h).2.1
      omega
    undone := fun h => ⟨(hs.undone h).1, rfl, (hs.undone h).2.2⟩
    setters := hs.setters.imp_right fun ⟨st, h₁, h₂, h₃, h₄⟩ =>
      ⟨st, h₁, h₂, h₃, fun hr => ⟨rfl, (h₄ hr).2⟩⟩ }

end Queue

section Device

theorem alive_getEvent (hs : s.Alive 0) (hslots : 0 < s.slots) : Alive { s with
    status := 1, slots := s.slots - 1, running := s.running + 1 } 0 := by
  obtain ⟨hl, hst, hterm⟩ := hs.device (by omega)
  have hunset := hs.unset (by omega)
  exact { hs with
    early := fun he => by
      have := (hs.early he).2.1
      omega
    given := fun _ h => absurd (hl.symm.trans h) (by simp)
    device := fun _ => ⟨hl, .inl rfl, hterm⟩
    unset := fun _ => hunset
    undone := fun h => absurd (hl.symm.trans (hs.undone h).2.1) (by simp)
    waits := fun h => by
      have := (hs.waits h).1
      omega
    terminators := fun h => absurd h (by simp [hterm])
    setters := .inl hunset.1 }

theorem alive_run (hs : s.Alive 0) (hrun : 0 < s.running) : Alive { s with
    running := s.running - 1, checking := s.checking + 1 } 0 :=
  { hs with
    early := fun he => by
      have := (hs.early he).2.2.1
      omega
    device := fun _ => hs.device (by omega) }

/-- The list of maps of the buffer has a reference of its own. -/
theorem alive_runMap (hs : s.Alive 0) (hrun : 0 < s.running) (hmap : s.call.kind = .map) :
    Alive { s with
      references := s.references + 1
      running := s.running - 1
      checking := s.checking + 1
      maps := s.maps + 1 } 0 :=
  { alive_run hs hrun with
    references := by
      have href := hs.references
      change s.references + 1 =
        s.byQueue + s.byCall + s.handles + s.edges + (s.maps + 1) + 0
      omega
    positive := Nat.succ_pos _
    maps := fun _ => hmap }

theorem alive_unmap (hs : s.Alive 0) (hmaps : 0 < s.maps) :
    Alive { s with maps := s.maps - 1 } 1 :=
  { hs with
    references := by
      have href := hs.references
      change s.references = s.byQueue + s.byCall + s.handles + s.edges + (s.maps - 1) + 1
      omega
    maps := fun _ => hs.maps hmaps }

theorem alive_unfinished (hs : s.Alive 0) :
    Alive { s with checking := s.checking - 1 } 0 :=
  { hs with
    early := fun he => by
      obtain ⟨hq, hslots, hrun, hcheck⟩ := hs.early he
      exact ⟨hq, hslots, hrun, by simp [hcheck]⟩
    device := fun h => hs.device (by simp only at h; omega) }

/-- The last worker sets the final status. -/
theorem alive_finish (hs : s.Alive 0) (hslots : s.slots = 0) (hrun : s.running = 0)
    (hcheck : s.checking = 1) {status : Int} (hneg : status ≤ 0) {num : Nat}
    (hnum : num ≤ s.dependents) (hzero : status ≠ 0 → num = 0) :
    Alive { s with
      checking := s.checking - 1, status := status, setters := [⟨true, num, false⟩] } 0 := by
  obtain ⟨hl, hst, hterm⟩ := hs.device (by omega)
  obtain ⟨hsetters, hedges⟩ := hs.unset (by omega)
  have hq : byQueue { s with
      checking := s.checking - 1, status := status, setters := [⟨true, num, false⟩] } =
      s.byQueue := by
    simp [byQueue, hsetters]
  exact { hs with
    references := by
      have href := hs.references
      rwa [← hq] at href
    early := fun he => by
      have := (hs.early he).2.2.2
      omega
    given := fun _ _ _ => hneg
    device := fun h => by
      simp only at h
      omega
    unset := fun h => absurd h (by simpa using hneg)
    undone := fun h => absurd (hl.symm.trans (hs.undone h).2.1) (by simp)
    waits := fun h => by
      have := (hs.waits h).1
      omega
    terminators := fun h => absurd h (by simp [hterm])
    setters := .inr ⟨_, rfl, by simp only; omega, hzero, fun h => by cases h⟩ }

end Device

section Setters

variable {calling release : Bool} {num : Nat}

/-- There is at most one thread in `setStatus`. -/
theorem setters_of_get (hs : s.Alive 0) (hk : s.setters[k]? = some ⟨calling, num, release⟩) :
    k = 0 ∧ s.setters = [⟨calling, num, release⟩] ∧ num ≤ s.edges ∧
      (s.status ≠ 0 → num = 0) ∧ (release = true → s.listed = false ∧ s.status = 0) := by
  rcases hs.setters with hnil | ⟨st, hone, hnum⟩
  · simp [hnil] at hk
  · rw [hone] at hk
    obtain ⟨hlt, hget⟩ := List.getElem?_eq_some_iff.mp hk
    have hk0 : k = 0 := by
      simp only [List.length_singleton] at hlt
      omega
    subst hk0
    simp only [List.getElem_cons_zero] at hget
    subst hget
    exact ⟨rfl, hone, hnum⟩

theorem status_of_setter (hs : s.Alive 0) (hsetters : s.setters ≠ []) : s.status ≤ 0 := by
  by_contra h
  exact hsetters (hs.unset (by omega)).1

theorem alive_callbacks (hs : s.Alive 0) (hk : s.setters[k]? = some ⟨true, num, release⟩) :
    Alive { s with setters := s.setters.set k ⟨false, num, release⟩ } 0 := by
  obtain ⟨rfl, hone, hnum⟩ := setters_of_get hs hk
  have hst := status_of_setter hs (by simp [hone])
  rw [hone, List.set_cons_zero]
  have hq : byQueue { s with setters := [⟨false, num, release⟩] } = s.byQueue := by
    simp [byQueue, hone]
  exact { hs with
    references := by
      have href := hs.references
      rwa [← hq] at href
    early := fun he => by
      rw [hq]
      exact hs.early he
    unset := fun h => absurd hst (by simpa using h)
    setters := .inr ⟨_, rfl, hnum⟩ }

theorem alive_notify (hs : s.Alive 0) (hk : s.setters[k]? = some ⟨false, num + 1, release⟩) :
    Alive { s with
      setters := s.setters.set k ⟨false, num, release⟩, edges := s.edges - 1 } 1 := by
  obtain ⟨rfl, hone, hnum, hzero, hrel⟩ := setters_of_get hs hk
  have hst := status_of_setter hs (by simp [hone])
  have hst0 : s.status = 0 := by
    by_contra h
    exact absurd (hzero h) (by simp)
  rw [hone, List.set_cons_zero]
  have hq : byQueue { s with setters := [⟨false, num, release⟩] } = s.byQueue := by
    simp [byQueue, hone]
  exact { hs with
    references := by
      have href := hs.references
      change s.references = byQueue { s with setters := [⟨false, num, release⟩] } + s.byCall +
        s.handles + (s.edges - 1) + s.maps + 1
      omega
    early := fun he => by
      have hq' := (hs.early he).1
      exact ⟨hq.trans hq', (hs.early he).2⟩
    handed := fun h => by
      have := (hs.handed h).2.1
      omega
    unset := fun h => absurd hst (by simpa using h)
    setters := .inr ⟨_, rfl, by simp only; omega, fun h => absurd hst0 h, hrel⟩ }

theorem alive_leave (hs : s.Alive 0) (hk : s.setters[k]? = some ⟨false, 0, release⟩) :
    Alive { s with setters := s.setters.eraseIdx k } release.toNat := by
  obtain ⟨rfl, hone, -⟩ := setters_of_get hs hk
  have hst := status_of_setter hs (by simp [hone])
  rw [hone, List.eraseIdx_cons_zero]
  have hq : s.byQueue = byQueue { s with setters := [] } + release.toNat := by
    cases release <;> simp [byQueue, hone]
  exact { hs with
    references := by
      have href := hs.references
      change s.references = byQueue { s with setters := [] } + s.byCall + s.handles + s.edges +
        s.maps + release.toNat
      omega
    early := fun he => by
      have hq' : s.byQueue = 0 := (hs.early he).1
      exact ⟨by omega, (hs.early he).2⟩
    unset := fun h => absurd hst (by simpa using h)
    setters := .inl rfl }

end Setters

section Predecessors

theorem alive_removeWaitEvent (hs : s.Alive 0) {rest : List Nat} (hw : s.waitEvents ≠ [])
    (notices : List Nat) (failed : Bool) :
    Alive { s with
      waitEvents := rest
      notices := notices
      terminators := if failed ∧ rest = [] then s.terminators + 1 else s.terminators } 0 := by
  obtain ⟨hst, hterm, htaken⟩ := hs.waits hw
  have hdevice : ¬0 < s.slots + s.running + s.checking := by
    intro h
    have := (hs.device h).2.1
    omega
  exact { hs with
    device := fun h => absurd h hdevice
    undone := fun h => absurd (htaken.symm.trans h) (by simp)
    waits := fun h => by
      simp only at h
      rw [if_neg (by simp [h])]
      exact ⟨hst, hterm, htaken⟩
    terminators := fun h => by
      simp only [hterm] at h ⊢
      split at h
      · rename_i hlast
        exact ⟨hst, if_pos hlast⟩
      · omega }

theorem alive_terminate (hs : s.Alive 0) (ht : 0 < s.terminators) {status : Int}
    (hneg : status < 0) :
    Alive { s with
      terminators := s.terminators - 1, status := status, setters := [⟨true, 0, false⟩] } 0 := by
  obtain ⟨hst, hone⟩ := hs.terminators ht
  obtain ⟨hsetters, hedges⟩ := hs.unset (by omega)
  have hq : byQueue { s with
      terminators := s.terminators - 1, status := status, setters := [⟨true, 0, false⟩] } =
      s.byQueue := by
    simp [byQueue, hsetters]
  exact { hs with
    references := by
      have href := hs.references
      rwa [← hq] at href
    early := fun he => by
      rw [hq]
      exact hs.early he
    given := fun _ _ _ => Int.le_of_lt hneg
    device := fun h => by
      have := (hs.device h).2.1
      omega
    unset := fun h => absurd h (by simp only; omega)
    undone := fun h => by
      have := (hs.undone h).2.2
      omega
    waits := fun h => by
      have := (hs.waits h).2.1
      omega
    terminators := fun h => by
      simp only at h
      omega
    setters := .inr ⟨_, rfl, Nat.zero_le _, fun _ => rfl, fun h => by cases h⟩ }

end Predecessors

section Application

theorem returned_of_handles (hs : s.Alive 0) (hh : 0 < s.handles) : s.api = .returned false := by
  by_contra h
  have := (hs.handed h).1
  omega

theorem alive_retain (hs : s.Alive 0) (hh : 0 < s.handles) : Alive { s with
    references := s.references + 1, handles := s.handles + 1 } 0 := by
  have hapi := returned_of_handles hs hh
  exact { hs with
    references := by
      have href := hs.references
      change s.references + 1 = s.byQueue + s.byCall + (s.handles + 1) + s.edges + s.maps + 0
      omega
    positive := Nat.succ_pos _
    handed := fun h => absurd hapi h }

theorem alive_release (hs : s.Alive 0) (hh : 0 < s.handles) :
    Alive { s with handles := s.handles - 1 } 1 := by
  have hapi := returned_of_handles hs hh
  exact { hs with
    references := by
      have href := hs.references
      change s.references = s.byQueue + s.byCall + (s.handles - 1) + s.edges + s.maps + 1
      omega
    handed := fun h => absurd hapi h }

theorem alive_addDependentEvent (hs : s.Alive 0) (hh : 0 < s.handles) :
    Alive { s with
      references := s.references + 1
      edges := s.edges + 1
      dependents := s.dependents + 1 } 0 := by
  have hapi := returned_of_handles hs hh
  exact { hs with
    references := by
      have href := hs.references
      change s.references + 1 = s.byQueue + s.byCall + s.handles + (s.edges + 1) + s.maps + 0
      omega
    positive := Nat.succ_pos _
    handed := fun h => absurd hapi h
    unset := fun h => by
      obtain ⟨hsetters, hedges⟩ := hs.unset h
      exact ⟨hsetters, by simp only; omega⟩
    setters := hs.setters.imp_right fun ⟨st, h₁, h₂, h₃, h₄⟩ =>
      ⟨st, h₁, by simp only; omega, h₃, h₄⟩ }

end Application

section Call

variable {pc : ApiPc}

/-- One of the lines before the command is in the list. -/
theorem alive_early (hs : s.Alive 0) (he : s.early = true)
    (he' : CommandObject.early { s with api := pc } = true) {d : Nat}
    (hc : byCall { s with api := pc } = s.byCall + d) :
    Alive { s with references := s.references + d, api := pc } 0 := by
  have hapi : s.api ≠ .returned false := by
    intro h
    simp [CommandObject.early, h] at he
  exact { hs with
    references := by
      have href := hs.references
      change s.references + d =
        s.byQueue + byCall { s with api := pc } + s.handles + s.edges + s.maps + 0
      omega
    positive := by
      have := hs.positive
      simp only
      omega
    api := by
      cases pc <;> simp_all [CommandObject.early, failing]
    mapped := fun h => by
      cases pc <;> simp_all [CommandObject.early]
    blocked := fun h => by
      cases pc <;> simp_all [CommandObject.early, waiting]
    early := fun _ => hs.early he
    given := fun h => absurd (he'.symm.trans h) (by simp)
    handed := fun _ => hs.handed hapi }

/-- One of the lines after that, up to the end of the call. -/
theorem alive_late {n : Nat} (hs : s.Alive 0) (he : s.early = false)
    (hapi : s.api ≠ .returned false) (he' : CommandObject.early { s with api := pc } = false)
    (hc : s.byCall = byCall { s with api := pc } + n) (hf : failing { s with api := pc } = false)
    (hm : pc = .ptr ∨ pc = .clReleaseEvent → s.call.kind = .map)
    (hb : waiting { s with api := pc } = true → s.call.blocking = true) :
    Alive { s with api := pc } n :=
  { hs with
    references := by
      have href := hs.references
      change s.references =
        s.byQueue + byCall { s with api := pc } + s.handles + s.edges + s.maps + n
      omega
    api := hf
    mapped := hm
    blocked := hb
    early := fun h => absurd (he'.symm.trans h) (by simp)
    given := fun _ => hs.given he
    handed := fun _ => hs.handed hapi }

theorem alive_pushBack (hs : s.Alive 0) (hpc : s.api = .pushBack) :
    Alive { s with listed := true, api := .updateTiming } 0 := by
  have he : s.early = true := by simp [CommandObject.early, hpc]
  have hapi : s.api ≠ .returned false := by simp [hpc]
  obtain ⟨hq, hslots, hrun, hcheck⟩ := hs.early he
  obtain ⟨hl, htaken, hrel⟩ := byQueue_eq_zero hq
  have hq' : byQueue { s with listed := true } = 1 := by
    simp only [byQueue, hl, Bool.toNat_false] at hq
    simp only [byQueue, Bool.toNat_true]
    omega
  have hc : s.byCall = byCall { s with listed := true, api := .updateTiming } + 1 := by
    simp only [byCall, hpc, mapCount]
    omega
  exact { hs with
    references := by
      have href := hs.references
      change s.references = byQueue { s with listed := true } +
        byCall { s with listed := true, api := .updateTiming } + s.handles + s.edges + s.maps + 0
      omega
    api := rfl
    mapped := fun h => by simp at h
    blocked := fun h => by cases h
    early := fun h => by cases h
    given := fun _ h => by cases h
    handed := fun _ => hs.handed hapi
    device := fun h => by
      simp only at h
      omega
    undone := fun h => absurd (htaken.symm.trans h) (by simp)
    setters := hs.setters.imp_right fun ⟨st, h₁, h₂, h₃, _⟩ =>
      ⟨st, h₁, h₂, h₃, fun h => absurd h (by simp [hrel st (by simp [h₁])])⟩ }

/-- The call returns and the application gets its handle. -/
theorem alive_returnCall {n : Nat} (hs : s.Alive 0) (he : s.early = false)
    (hapi : s.api ≠ .returned false) (hc : s.byCall = s.call.event.toNat + n) :
    Alive (s.returnCall false) n := by
  obtain ⟨hh, hedges, hdep⟩ := hs.handed hapi
  have hhandles : (s.returnCall false).handles = s.call.event.toNat := by
    cases h : s.call.event <;> simp [returnCall, h]
  exact { hs with
    references := by
      have href := hs.references
      rw [hhandles]
      change s.references = s.byQueue + 0 + s.call.event.toNat + s.edges + s.maps + n
      omega
    api := rfl
    mapped := fun h => by simp [returnCall] at h
    blocked := fun h => by cases h
    early := fun h => by cases h
    given := fun _ => hs.given he
    handed := fun h => absurd rfl h }

/-- `leaveHelper`, on the states that lead to it. -/
theorem alive_leaveHelper {n : Nat} (hs : s.Alive 0)
    (hpc : s.api = .updateTiming ∨ s.api = .dereference) (hn : s.call.blocking.toNat = n) :
    s.leaveHelper.Alive n := by
  have he : s.early = false := by
    rcases hpc with h | h <;> simp [CommandObject.early, h]
  have hapi : s.api ≠ .returned false := by
    rcases hpc with h | h <;> simp [h]
  have hc : s.byCall = s.mapCount + s.call.event.toNat + n := by
    rcases hpc with h | h <;> simp [byCall, h, hn]
  unfold leaveHelper
  split
  · rename_i hmap
    exact alive_late hs he hapi rfl hc rfl (fun _ => hmap) (fun h => by cases h)
  · rename_i hmap
    refine alive_returnCall hs he hapi ?_
    rw [hc, mapCount, if_neg hmap, Nat.zero_add]

/-- The helper finds the command failed and nobody else has it. -/
theorem gone_of_failed (hs : s.Alive 0) (hpc : s.api = .checkStatus) (hneg : s.status < 0)
    (hmap : s.call.kind ≠ .map) (hl : s.listed = false) (hq : s.Quiet) :
    Gone { s with api := .delete } := by
  have hmaps : s.maps = 0 := by
    by_contra hne
    exact hmap (hs.maps (Nat.pos_of_ne_zero hne))
  have htaken : s.taken = false := by
    cases h : s.taken
    · rfl
    · have := (hs.undone h).1
      omega
  have hdevice : s.slots + s.running + s.checking = 0 := by
    by_contra hne
    have := (hs.device (by omega)).1
    simp [hl] at this
  obtain ⟨hh, hedges, -⟩ := hs.handed (by simp [hpc])
  refine ⟨hs.stale, hl, htaken, ?_, ?_, ?_, ?_, ?_, hh, hedges, hmaps, fun st hst => ?_⟩
  · simp only
    omega
  · simp only
    omega
  · simp only
    omega
  · by_contra hne
    have := (hs.waits hne).1
    omega
  · by_contra hne
    have := (hs.terminators (Nat.pos_of_ne_zero hne)).1
    omega
  · rcases hs.setters with hnil | ⟨st', hone, -, hzero, hrel⟩
    · simp [hnil] at hst
    · simp only [hone, List.mem_singleton] at hst
      subst hst
      refine ⟨hq.1 st (by simp [hone]), hzero (by omega), ?_⟩
      cases hr : st.release
      · rfl
      · have := (hrel hr).2
        omega

/-- The device refuses the command and nobody else has it. -/
theorem gone_of_refused (hs : s.Alive 0) (hpc : s.api = .initEventDeviceData)
    (hmap : s.call.kind ≠ .map) (hw : s.waitEvents = []) (ht : s.terminators = 0)
    (hsetters : s.setters = []) : Gone { s with api := .delete } := by
  have hmaps : s.maps = 0 := by
    by_contra hne
    exact hmap (hs.maps (Nat.pos_of_ne_zero hne))
  obtain ⟨hq, hslots, hrun, hcheck⟩ := hs.early (by simp [CommandObject.early, hpc])
  obtain ⟨hl, htaken, -⟩ := byQueue_eq_zero hq
  obtain ⟨hh, hedges, -⟩ := hs.handed (by simp [hpc])
  exact ⟨hs.stale, hl, htaken, hslots, hrun, hcheck, hw, ht, hh, hedges,
    hmaps, fun st hst => by simp [hsetters] at hst⟩

theorem clReleaseEvent_returnCall (s : CommandObject) :
    s.clReleaseEvent.returnCall false = (s.returnCall false).clReleaseEvent := by
  unfold clReleaseEvent
  rw [apply_ite (returnCall · false), apply_ite (returnCall · false)]
  rfl

/-- A line that takes a reference under a condition. -/
theorem life_reference {p : Prop} [Decidable p] (hs : s.Alive 0) (he : s.early = true)
    (he' : CommandObject.early { s with api := pc } = true)
    (hc : byCall { s with api := pc } = s.byCall + if p then 1 else 0) :
    Life { if p then s.reference else s with api := pc } := by
  split
  case isTrue hp =>
    rw [if_pos hp] at hc
    rw [reference, access_eq hs.deletes]
    exact .alive (alive_early hs he he' hc)
  case isFalse hp =>
    rw [if_neg hp] at hc
    exact .alive (alive_early hs he he' hc)

theorem life_api {ok : Bool} (hs : s.Alive 0) (hg : s.Orderly (.api ok))
    (hstep : s.apiStep ok = some t) : t.Life := by
  have hacc := access_eq hs.deletes
  cases hpc : s.api with
  | mapReference =>
    simp only [apiStep, hpc, Option.some.injEq] at hstep
    subst hstep
    refine life_reference hs (by simp [CommandObject.early, hpc]) rfl ?_
    simp only [byCall, hpc, mapCount]
  | eventReference =>
    simp only [apiStep, hpc, Option.some.injEq] at hstep
    subst hstep
    refine life_reference hs (by simp [CommandObject.early, hpc]) rfl ?_
    simp only [byCall, hpc, mapCount]
    cases s.call.event <;> rfl
  | blockingReference =>
    simp only [apiStep, hpc, Option.some.injEq] at hstep
    subst hstep
    refine life_reference hs (by simp [CommandObject.early, hpc]) rfl ?_
    simp only [byCall, hpc, mapCount]
    cases s.call.blocking <;> rfl
  | initEventDeviceData =>
    have he : s.early = true := by simp [CommandObject.early, hpc]
    simp only [apiStep, hpc, Option.some.injEq, hacc] at hstep
    subst hstep
    split
    · exact .alive (alive_early (d := 0) hs he rfl (by simp [byCall, hpc, mapCount]))
    · rename_i hfail
      rw [not_or, Bool.not_eq_true, Bool.not_eq_false] at hfail
      simp only [Orderly, OrderlyCall, hpc] at hg
      obtain ⟨hw, ht, hsetters⟩ := hg hfail.1 hfail.2
      have hmap : s.call.kind ≠ .map := by
        intro hmap
        rw [hmap] at hfail
        cases hfail.2
      exact .doomed (gone_of_refused hs hpc hmap hw ht hsetters) hs.deletes rfl hmap
  | pushBack =>
    simp only [apiStep, hpc, Option.some.injEq, hacc] at hstep
    subst hstep
    exact .alive (alive_pushBack hs hpc)
  | updateTiming =>
    have he : s.early = false := by simp [CommandObject.early, hpc]
    simp only [apiStep, hpc, hacc, ite_self, Option.some.injEq] at hstep
    subst hstep
    split
    · rename_i hb
      exact .alive (alive_late hs he (by simp [hpc]) rfl (by simp [byCall, hpc, mapCount]) rfl
        (by simp) fun _ => hb)
    · rename_i hb
      exact .alive (alive_leaveHelper hs (.inl hpc) (by simp [hb]))
  | checkStatus =>
    have he : s.early = false := by simp [CommandObject.early, hpc]
    simp only [apiStep, hpc, Option.some.injEq, hacc] at hstep
    subst hstep
    split
    · rename_i hneg
      rw [hs.deletes, or_iff_right (Nat.lt_irrefl 0)] at hneg
      simp only [Orderly, OrderlyCall, hpc] at hg
      obtain ⟨hmap, hl, hq⟩ := hg hneg
      exact .doomed (gone_of_failed hs hpc hneg hmap hl hq) hs.deletes rfl hmap
    · exact .alive (alive_late hs he (by simp [hpc]) rfl (by simp [byCall, hpc, mapCount]) rfl
        (by simp) fun _ => hs.blocked (by simp [waiting, hpc]))
  | waitForStatus =>
    have he : s.early = false := by simp [CommandObject.early, hpc]
    simp only [apiStep, hpc, hacc] at hstep
    obtain ⟨-, ⟨⟩⟩ := Option.ite_none_right_eq_some.mp hstep
    exact .alive (alive_late hs he (by simp [hpc]) rfl (by simp [byCall, hpc, mapCount]) rfl
      (by simp) fun _ => hs.blocked (by simp [waiting, hpc]))
  | dereference =>
    have hb : s.call.blocking = true := hs.blocked (by simp [waiting, hpc])
    have hleave := alive_leaveHelper (n := 1) hs (.inr hpc) (by simp [hb])
    simp only [Orderly, OrderlyCall, hpc] at hg
    simp only [apiStep, hpc, Option.some.injEq] at hstep
    subst hstep
    have heq : s.dereference.leaveHelper =
        { s.leaveHelper with references := s.leaveHelper.references - 1 } := by
      unfold CommandObject.dereference leaveHelper
      rw [hacc]
      split <;> rfl
    have href : s.leaveHelper.references = s.references := by
      unfold leaveHelper
      split <;> rfl
    rw [heq]
    exact .alive (alive_dereference hleave (by rwa [href]))
  | ptr =>
    have he : s.early = false := by simp [CommandObject.early, hpc]
    simp only [apiStep, hpc, Option.some.injEq, hacc] at hstep
    subst hstep
    exact .alive (alive_late hs he (by simp [hpc]) rfl (by simp [byCall, hpc, mapCount]) rfl
      (fun _ => hs.mapped (.inl hpc)) fun h => by cases h)
  | clReleaseEvent =>
    have he : s.early = false := by simp [CommandObject.early, hpc]
    have hmap := hs.mapped (.inr hpc)
    simp only [Orderly, OrderlyCall, hpc] at hg
    simp only [apiStep, hpc, Option.some.injEq] at hstep
    subst hstep
    rw [clReleaseEvent_returnCall]
    refine life_clReleaseEvent (alive_returnCall hs he (by simp [hpc]) ?_) fun hone => ?_
    · simp only [byCall, hpc, mapCount, hmap, if_true]
      omega
    · exact ⟨(hg hone).1, by simp [returnCall]⟩
  | delete => simpa [failing, hpc] using hs.api
  | deleteAgain => simpa [failing, hpc] using hs.api
  | returned failed => simp [apiStep, hpc] at hstep

end Call

theorem setStatus_eq (hd : s.deletes = 0) (hsetters : s.setters = []) (status : Int)
    (release : Bool) : s.setStatus status release =
      { s with
        status := status
        setters := [⟨true, if status = 0 then s.dependents else 0, release⟩] } := by
  rw [setStatus, access_eq hd, hsetters, List.nil_append]

theorem life_alive_step {a : CommandAction} (hs : s.Alive 0) (hg : s.Orderly a)
    (hstep : s.step a = some t) : t.Life := by
  have hacc := access_eq hs.deletes
  cases a with
  | api ok => exact life_api hs hg hstep
  | examine =>
    obtain ⟨-, ⟨⟩⟩ := Option.ite_none_right_eq_some.mp hstep
    rw [hacc]
    exact .alive hs
  | push =>
    obtain ⟨⟨hl, hst, hw, -⟩, ⟨⟩⟩ := Option.ite_none_right_eq_some.mp hstep
    rw [hacc]
    exact .alive (alive_push hs hg hl hst hw)
  | take =>
    obtain ⟨⟨hl, hst, hw, -⟩, ⟨⟩⟩ := Option.ite_none_right_eq_some.mp hstep
    rw [hacc]
    exact .alive (alive_take hs hg hl hst hw)
  | complete =>
    obtain ⟨ht, ⟨⟩⟩ := Option.ite_none_right_eq_some.mp hstep
    have hsetters := (hs.unset (by have := (hs.undone ht).1; omega)).1
    rw [setStatus_eq (s := { s with taken := false }) hs.deletes hsetters]
    exact .alive (alive_complete (s := s) hs ht)
  | erase =>
    obtain ⟨⟨hl, hst⟩, ⟨⟩⟩ := Option.ite_none_right_eq_some.mp hstep
    rw [hacc]
    exact life_clReleaseEvent (alive_erase hs hl hst) hg
  | getEvent =>
    obtain ⟨hslots, ⟨⟩⟩ := Option.ite_none_right_eq_some.mp hstep
    rw [hacc]
    exact .alive (alive_getEvent hs hslots)
  | run =>
    obtain ⟨hrun, ⟨⟩⟩ := Option.ite_none_right_eq_some.mp hstep
    rw [hacc]
    exact .alive (alive_run hs hrun)
  | runMap =>
    obtain ⟨⟨hrun, hmap⟩, ⟨⟩⟩ := Option.ite_none_right_eq_some.mp hstep
    rw [reference, hacc]
    exact .alive (alive_runMap hs hrun hmap)
  | unmap =>
    obtain ⟨hmaps, ⟨⟩⟩ := Option.ite_none_right_eq_some.mp hstep
    rw [hacc]
    exact life_clReleaseEvent (alive_unmap hs hmaps) hg
  | finish =>
    obtain ⟨hcheck, hfin⟩ := Option.ite_none_right_eq_some.mp hstep
    split at hfin
    · rename_i hdone
      have hsetters := (hs.unset (by have := (hs.device (by omega)).2.1; omega)).1
      cases hfin
      rw [setStatus_eq (s := { s with checking := s.checking - 1 }) hs.deletes hsetters]
      exact .alive (alive_finish hs hdone.1 hdone.2 (hg hdone.1 hdone.2) (le_refl 0)
        (le_refl _) fun h => absurd rfl h)
    · cases hfin
      rw [hacc]
      exact .alive (alive_unfinished hs)
  | fail =>
    obtain ⟨⟨hcheck, -⟩, ⟨⟩⟩ := Option.ite_none_right_eq_some.mp hstep
    have hsetters := (hs.unset (by have := (hs.device (by omega)).2.1; omega)).1
    rw [setStatus_eq (s := { s with checking := s.checking - 1 }) hs.deletes hsetters]
    exact .alive (alive_finish hs hg.1 hg.2.1 hg.2.2 (by decide) (Nat.zero_le _) fun _ => rfl)
  | callbacks k =>
    simp only [step] at hstep
    split at hstep
    · rename_i hk
      cases hstep
      rw [hacc]
      exact .alive (alive_callbacks hs hk)
    · cases hstep
  | notify k =>
    simp only [step] at hstep
    split at hstep
    · rename_i num release hk
      cases hstep
      rw [hacc]
      refine life_clReleaseEvent (alive_notify hs hk) fun hone => ?_
      obtain ⟨rfl, hsetters, hnum, -⟩ := setters_of_get hs hk
      refine ⟨fun st hst => ?_, fun h => ?_⟩
      · simp only [hsetters, List.set_cons_zero, List.mem_singleton] at hst
        rw [hst]
      · have := (hs.handed (by simp [show s.api = .updateTiming from h.2])).2.1
        omega
    · cases hstep
  | leave k =>
    simp only [step] at hstep
    split at hstep
    · rename_i release hk
      cases hstep
      have hleave := alive_leave hs hk
      cases release with
      | false => exact .alive hleave
      | true =>
        refine life_clReleaseEvent hleave fun hone => ⟨fun st hst => ?_, (hg hone).2⟩
        exact (hg hone).1 st (List.mem_of_mem_eraseIdx hst)
    · cases hstep
  | removeWaitEvent event failed =>
    obtain ⟨-, ⟨⟩⟩ := Option.ite_none_right_eq_some.mp hstep
    rw [hacc]
    exact .alive (alive_removeWaitEvent hs (List.ne_nil_of_mem hg) _ failed)
  | terminate status =>
    obtain ⟨⟨ht, hneg⟩, ⟨⟩⟩ := Option.ite_none_right_eq_some.mp hstep
    have hsetters := (hs.unset (by have := (hs.terminators ht).1; omega)).1
    rw [setStatus_eq (s := { s with terminators := s.terminators - 1 }) hs.deletes hsetters,
      if_neg (Int.ne_of_lt hneg)]
    exact .alive (alive_terminate hs ht hneg)
  | retain =>
    obtain ⟨hh, ⟨⟩⟩ := Option.ite_none_right_eq_some.mp hstep
    rw [reference, hacc]
    exact .alive (alive_retain hs hh)
  | release =>
    obtain ⟨hh, ⟨⟩⟩ := Option.ite_none_right_eq_some.mp hstep
    exact life_clReleaseEvent (alive_release hs hh) hg
  | use =>
    obtain ⟨-, ⟨⟩⟩ := Option.ite_none_right_eq_some.mp hstep
    rw [hacc]
    exact .alive hs
  | addDependentEvent =>
    obtain ⟨hh, ⟨⟩⟩ := Option.ite_none_right_eq_some.mp hstep
    rw [reference, hacc]
    split
    · exact .alive hs
    · exact .alive (alive_addDependentEvent hs hh)

/-- Only the call and a thread at the end of `setStatus` go on. -/
theorem gone_step {a : CommandAction} (hs : s.Gone) (hg : s.Orderly a) (hstep : s.step a = some t) :
    (∃ ok, a = .api ok ∧ s.apiStep ok = some t) ∨
      t.Gone ∧ t.deletes = s.deletes ∧ t.api = s.api ∧ t.call = s.call := by
  obtain ⟨hstale, hl, ht, hslots, hrun, hcheck, hw, hterm, hh, hedges, hmaps, hsetters⟩ := hs
  cases a with
  | api ok => exact .inl ⟨ok, rfl, hstep⟩
  | callbacks k =>
    simp only [step] at hstep
    split at hstep
    · rename_i hk
      exact absurd (hsetters _ (List.mem_of_getElem? hk)).1 (by simp)
    · cases hstep
  | notify k =>
    simp only [step] at hstep
    split at hstep
    · rename_i hk
      exact absurd (hsetters _ (List.mem_of_getElem? hk)).2.1 (by simp)
    · cases hstep
  | leave k =>
    simp only [step] at hstep
    split at hstep
    · rename_i release hk
      have hrel : release = false := (hsetters _ (List.mem_of_getElem? hk)).2.2
      subst hrel
      cases hstep
      exact .inr ⟨⟨hstale, hl, ht, hslots, hrun, hcheck, hw, hterm, hh, hedges,
        hmaps, fun st hst => hsetters st (List.mem_of_mem_eraseIdx hst)⟩, rfl, rfl, rfl⟩
    · cases hstep
  | removeWaitEvent event failed =>
    exact absurd (hw ▸ hg : event ∈ []) List.not_mem_nil
  | _ => simp_all [step]

theorem life_step {a : CommandAction} (hs : s.Life) (hg : s.Orderly a)
    (hstep : s.step a = some t) : t.Life := by
  cases hs with
  | alive hs => exact life_alive_step hs hg hstep
  | doomed hgone hd hpc hmap =>
    rcases gone_step hgone hg hstep with ⟨ok, rfl, hapi⟩ | ⟨hgone', hd', hpc', hcall⟩
    · simp only [apiStep, hpc, if_neg hmap, Option.some.injEq] at hapi
      subst hapi
      refine .dead { hgone with stale := ?_, handles := ?_ } ?_ (.inl ⟨true, rfl⟩)
      · simp [returnCall, CommandObject.delete, access, hgone.stale, hd]
      · simp [returnCall]
      · simp [returnCall, CommandObject.delete, hd]
    · exact .doomed hgone' (hd'.trans hd) (hpc'.trans hpc) (by rwa [hcall])
  | dead hgone hd hpc =>
    rcases gone_step hgone hg hstep with ⟨ok, rfl, hapi⟩ | ⟨hgone', hd', hpc', hcall⟩
    · rcases hpc with ⟨failed, hpc⟩ | ⟨hpc, hprof, hblock, hevent, hmap⟩
      · simp [apiStep, hpc] at hapi
      · simp only [apiStep, hpc, hprof, hblock, leaveHelper, if_neg hmap, Option.some.injEq,
          Bool.false_eq_true, if_false] at hapi
        subst hapi
        refine .dead { hgone with handles := ?_ } hd (.inl ⟨false, rfl⟩)
        simp [returnCall, hevent]
    · refine .dead hgone' (hd'.trans hd) ?_
      rwa [hpc', hcall]

theorem life_constructed (call : EnqueueCall) : (constructed call).Life :=
  .alive
    { deletes := rfl
      stale := rfl
      references := rfl
      positive := Nat.one_pos
      api := rfl
      mapped := fun h => by simp [constructed] at h
      blocked := fun h => by cases h
      early := fun _ => ⟨rfl, rfl, rfl, rfl⟩
      given := fun h => by cases h
      handed := fun _ => ⟨rfl, rfl, rfl⟩
      device := fun h => absurd h (by simp [constructed])
      unset := fun _ => ⟨rfl, rfl⟩
      undone := fun h => by cases h
      waits := fun _ => ⟨rfl, rfl, rfl⟩
      terminators := fun h => absurd h (by simp [constructed])
      setters := .inl rfl
      maps := fun h => absurd h (by simp [constructed]) }

theorem life_of_reachable (hr : Reachable (commandRuns.restrict Orderly) s) : s.Life := by
  refine hr.invariant ?_ ?_
  · rintro _ ⟨call, rfl⟩
    exact life_constructed call
  · intro s a t _ hs ht
    exact life_step hs ht.2 ht.1

/-- The command is deleted at most once and not used afterwards, and it is deleted once the call
has returned and neither the queue nor the application, a dependent event or the maps of the buffer
have a reference. -/
structure DestroyedOnce (s : CommandObject) : Prop where
  once : s.deletes ≤ 1
  fresh : s.stale = false
  deleted : (∃ failed, s.api = .returned failed) → s.byQueue = 0 → s.handles = 0 → s.edges = 0 →
    s.maps = 0 → s.deletes = 1

end CommandObject

end Shamrock.Runtime
