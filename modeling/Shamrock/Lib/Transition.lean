import Mathlib.Algebra.BigOperators.Group.Finset.Basic
import Mathlib.Data.Fintype.Basic
import Mathlib.Logic.Function.Basic

/-! Labelled transition systems, their reachable states and runs restricted to guarded steps. -/
namespace Transition

/-- A transition system given by its initial states and a labelled step relation. -/
structure LTS (State Label : Type*) where
  Initial : State → Prop
  Tr : State → Label → State → Prop

variable {State Label : Type*} {L : LTS State Label}

inductive Reachable (L : LTS State Label) : State → Prop
  | initial {s : State} : L.Initial s → Reachable L s
  | step {s t : State} {a : Label} : Reachable L s → L.Tr s a t → Reachable L t

/-- `s` is reached from an initial state by these steps. -/
inductive Run (L : LTS State Label) : List Label → State → Prop
  | initial {s : State} : L.Initial s → Run L [] s
  | step {as : List Label} {s t : State} {a : Label} : Run L as s → L.Tr s a t →
      Run L (as ++ [a]) t

theorem Run.reachable {as : List Label} {s : State} (h : Run L as s) : Reachable L s := by
  induction h with
  | initial h => exact .initial h
  | step _ ht ih => exact .step ih ht

/-- The steps of `L` that are taken in a state meeting the guard. -/
def LTS.restrict (L : LTS State Label) (G : State → Label → Prop) : LTS State Label where
  Initial := L.Initial
  Tr s a t := L.Tr s a t ∧ G s a

/-- A property that holds initially and that every step between reachable states keeps. -/
theorem Reachable.invariant {P : State → Prop} {s : State} (h : Reachable L s)
    (hi : ∀ s, L.Initial s → P s)
    (hs : ∀ s a t, Reachable L s → P s → L.Tr s a t → P t) : P s := by
  induction h with
  | initial h => exact hi _ h
  | step h ht ih => exact hs _ _ _ h ih ht

/-- As `Reachable.invariant`, for a property that also speaks about the steps taken. -/
theorem Run.invariant {P : List Label → State → Prop} {as : List Label} {s : State}
    (h : Run L as s) (hi : ∀ s, L.Initial s → P [] s)
    (hs : ∀ as s a t, Run L as s → P as s → L.Tr s a t → P (as ++ [a]) t) : P as s := by
  induction h with
  | initial h => exact hi _ h
  | step h ht ih => exact hs _ _ _ _ h ih ht

/-- `L` together with a list of what its steps leave a note of. -/
def LTS.record {Note : Type*} (L : LTS State Label) (note : State → Label → Option Note) :
    LTS (State × List Note) Label where
  Initial p := L.Initial p.1 ∧ p.2 = []
  Tr p a p' := L.Tr p.1 a p'.1 ∧ p'.2 = p.2 ++ (note p.1 a).toList

theorem Reachable.of_record {Note : Type*} {note : State → Label → Option Note}
    {p : State × List Note} (h : Reachable (L.record note) p) : Reachable L p.1 := by
  induction h with
  | initial h => exact .initial h.1
  | step _ ht ih => exact .step ih ht.1

/-- Every reachable state has been reached with some notes. -/
theorem Reachable.exists_record {Note : Type*} (note : State → Label → Option Note) {s : State}
    (h : Reachable L s) : ∃ notes, Reachable (L.record note) (s, notes) := by
  induction h with
  | initial h => exact ⟨[], .initial ⟨h, rfl⟩⟩
  | step _ ht ih =>
    obtain ⟨notes, hr⟩ := ih
    exact ⟨_, .step (t := (_, notes ++ _)) hr ⟨ht, rfl⟩⟩

theorem Reachable.of_restrict {G : State → Label → Prop} {s : State}
    (h : Reachable (L.restrict G) s) : Reachable L s := by
  induction h with
  | initial h => exact .initial h
  | step _ ht ih => exact .step ih ht.1

/-- A stronger guard leaves fewer reachable states. -/
theorem Reachable.mono_guard {G H : State → Label → Prop} (hg : ∀ s a, G s a → H s a) {s : State}
    (h : Reachable (L.restrict G) s) : Reachable (L.restrict H) s := by
  induction h with
  | initial h => exact .initial h
  | step _ ht ih => exact .step ih ⟨ht.1, hg _ _ ht.2⟩

/-- A deterministic system: the label fixes the successor, if there is one. -/
def ofStep (Initial : State → Prop) (step : State → Label → Option State) : LTS State Label where
  Initial := Initial
  Tr s a t := step s a = some t

/-- Run a list of labels, failing as soon as one is not enabled. -/
def exec (step : State → Label → Option State) (s : State) : List Label → Option State
  | [] => some s
  | a :: as => (step s a).bind fun t => exec step t as

/-- Run a list of labels, checking the guard before each step. -/
def execGuarded (step : State → Label → Option State) (guard : State → Label → Bool)
    (s : State) : List Label → Option State
  | [] => some s
  | a :: as => if guard s a then (step s a).bind fun t => execGuarded step guard t as else none

theorem run_exec {I : State → Prop} {step : State → Label → Option State} {s t : State}
    {as bs : List Label} (hs : Run (ofStep I step) bs s) (h : exec step s as = some t) :
    Run (ofStep I step) (bs ++ as) t := by
  induction as generalizing s bs with
  | nil =>
    cases h
    rwa [List.append_nil]
  | cons a as ih =>
    obtain ⟨u, hu, ht⟩ := Option.bind_eq_some_iff.mp h
    have hrun := ih (.step hs hu) ht
    rwa [List.append_assoc] at hrun

theorem run_execGuarded {I : State → Prop} {step : State → Label → Option State}
    {guard : State → Label → Bool} {G : State → Label → Prop}
    (hg : ∀ s a, guard s a = true → G s a) {s t : State} {as bs : List Label}
    (hs : Run ((ofStep I step).restrict G) bs s)
    (h : execGuarded step guard s as = some t) :
    Run ((ofStep I step).restrict G) (bs ++ as) t := by
  induction as generalizing s bs with
  | nil =>
    cases h
    rwa [List.append_nil]
  | cons a as ih =>
    simp only [execGuarded] at h
    split at h
    · rename_i ha
      obtain ⟨u, hu, ht⟩ := Option.bind_eq_some_iff.mp h
      have hrun := ih (.step hs ⟨hu, hg _ _ ha⟩) ht
      rwa [List.append_assoc] at hrun
    · cases h

/-- A run that is checked by evaluation reaches a state that passes the check. -/
theorem run_of_exec {I : State → Prop} {step : State → Label → Option State} {s : State} (hs : I s)
    (as : List Label) (c : State → Bool) (h : (exec step s as).map c = some true) :
    ∃ t, Run (ofStep I step) as t ∧ c t = true := by
  obtain ⟨t, ht, hc⟩ := Option.map_eq_some_iff.mp h
  exact ⟨t, run_exec (.initial hs) ht, hc⟩

/-- As `run_of_exec`, for runs whose steps all meet a guard. -/
theorem run_of_execGuarded {I : State → Prop} {step : State → Label → Option State}
    (G : State → Label → Prop) [∀ s a, Decidable (G s a)] {s : State} (hs : I s)
    (as : List Label) (c : State → Bool)
    (h : (execGuarded step (fun s a => decide (G s a)) s as).map c = some true) :
    ∃ t, Run ((ofStep I step).restrict G) as t ∧ c t = true := by
  obtain ⟨t, ht, hc⟩ := Option.map_eq_some_iff.mp h
  exact ⟨t, run_execGuarded (fun _ _ => of_decide_eq_true) (.initial hs) ht, hc⟩

theorem exists_exec {I : State → Prop} {step : State → Label → Option State} {s : State} (hs : I s)
    (as : List Label) (c : State → Bool) (h : (exec step s as).map c = some true) :
    ∃ t, Reachable (ofStep I step) t ∧ c t = true := by
  obtain ⟨t, ht, hc⟩ := run_of_exec hs as c h
  exact ⟨t, ht.reachable, hc⟩

theorem exists_execGuarded {I : State → Prop} {step : State → Label → Option State}
    (G : State → Label → Prop) [∀ s a, Decidable (G s a)] {s : State} (hs : I s)
    (as : List Label) (c : State → Bool)
    (h : (execGuarded step (fun s a => decide (G s a)) s as).map c = some true) :
    ∃ t, Reachable ((ofStep I step).restrict G) t ∧ c t = true := by
  obtain ⟨t, ht, hc⟩ := run_of_execGuarded G hs as c h
  exact ⟨t, ht.reachable, hc⟩

/-- The notes of a list of labels, with the state it leads to. -/
def execNoted {Note : Type*} (step : State → Label → Option State)
    (note : State → Label → Option Note) (s : State) (notes : List Note) :
    List Label → Option (State × List Note)
  | [] => some (s, notes)
  | a :: as => (step s a).bind fun t => execNoted step note t (notes ++ (note s a).toList) as

/-- As `exists_exec`, with the notes that the steps leave. -/
theorem exists_execNoted {Note : Type*} {I : State → Prop} {step : State → Label → Option State}
    {note : State → Label → Option Note} {s : State} (hs : I s) (as : List Label)
    (c : State × List Note → Bool) (h : (execNoted step note s [] as).map c = some true) :
    ∃ p, Reachable ((ofStep I step).record note) p ∧ c p = true := by
  have hrun : ∀ (as : List Label) (s : State) (notes : List Note),
      Reachable ((ofStep I step).record note) (s, notes) → ∀ p,
      execNoted step note s notes as = some p → Reachable ((ofStep I step).record note) p := by
    intro as
    induction as with
    | nil =>
      intro s notes hr p hp
      cases hp
      exact hr
    | cons a as ih =>
      intro s notes hr p hp
      obtain ⟨t, ht, hp⟩ := Option.bind_eq_some_iff.mp hp
      exact ih t _ (.step hr ⟨ht, rfl⟩) p hp
  obtain ⟨p, hp, hc⟩ := Option.map_eq_some_iff.mp h
  exact ⟨p, hrun as s [] (.initial ⟨hs, rfl⟩) p hp, hc⟩

end Transition
