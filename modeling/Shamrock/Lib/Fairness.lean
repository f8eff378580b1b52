import Shamrock.Lib.Transition

/-!
# Executions without end

An execution of a transition system takes a step or waits at every moment. `P` leads to `Q` if
after every state with `P` comes one with `Q`. A rank that helpful steps lower and no step raises
shows that it does, as long as helpful steps that stay enabled are taken.
-/
namespace Transition

variable {State Label : Type*} {L : LTS State Label}

structure Execution (L : LTS State Label) where
  state : ℕ → State
  label : ℕ → Option Label
  initial : L.Initial (state 0)
  waits : ∀ n, label n = none → state (n + 1) = state n
  steps : ∀ n a, label n = some a → L.Tr (state n) a (state (n + 1))

namespace Execution

/-- Steps of this kind that stay enabled are taken. -/
def Fair (E : Execution L) (helpful : Label → Prop) : Prop :=
  ∀ n, (∀ m, n ≤ m → ∃ a t, helpful a ∧ L.Tr (E.state m) a t) →
    ∃ m a, n ≤ m ∧ E.label m = some a ∧ helpful a

def LeadsTo (E : Execution L) (P Q : State → Prop) : Prop :=
  ∀ n, P (E.state n) → ∃ m, n ≤ m ∧ Q (E.state m)

variable {E : Execution L} {P P' Q Q' R : State → Prop} {helpful : Label → Prop}

theorem reachable (E : Execution L) (n : ℕ) : Reachable L (E.state n) := by
  induction n with
  | zero => exact .initial E.initial
  | succ n ih =>
    cases hlabel : E.label n with
    | none => rwa [E.waits n hlabel]
    | some a => exact .step ih (E.steps n a hlabel)

theorem LeadsTo.trans (h : E.LeadsTo P Q) (h' : E.LeadsTo Q R) : E.LeadsTo P R := by
  intro n hp
  obtain ⟨m, hm, hq⟩ := h n hp
  obtain ⟨k, hk, hr⟩ := h' m hq
  exact ⟨k, Nat.le_trans hm hk, hr⟩

/-- What every step keeps, unless it reaches the goal, is kept up to any later moment. -/
theorem keeps_until (h : ∀ s a t, Reachable L s → P s → L.Tr s a t → P t ∨ Q t) {n m : ℕ}
    (hnm : n ≤ m) (hp : P (E.state n)) :
    P (E.state m) ∨ ∃ k, n ≤ k ∧ Q (E.state k) := by
  induction m, hnm using Nat.le_induction with
  | base => exact Or.inl hp
  | succ m hnm ih =>
    rcases ih with hp | hq
    · cases hlabel : E.label m with
      | none =>
        rw [E.waits m hlabel]
        exact Or.inl hp
      | some a =>
        rcases h _ a _ (E.reachable m) hp (E.steps m a hlabel) with hp | hq
        · exact Or.inl hp
        · exact Or.inr ⟨m + 1, by omega, hq⟩
    · exact Or.inr hq

/-- `P` holds until `Q`, and `Q'` comes: then `Q` comes, or `P` and `Q'` together. -/
theorem LeadsTo.keeping (h : ∀ s a t, Reachable L s → P s → L.Tr s a t → P t ∨ Q t)
    (h' : E.LeadsTo P' Q') : E.LeadsTo (fun s => P s ∧ P' s) fun s => P s ∧ Q' s ∨ Q s := by
  rintro n ⟨hp, hp'⟩
  obtain ⟨m, hm, hq'⟩ := h' n hp'
  rcases keeps_until h hm hp with hp | ⟨k, hk, hq⟩
  · exact ⟨m, hm, Or.inl ⟨hp, hq'⟩⟩
  · exact ⟨k, hk, Or.inr hq⟩

/-- While `P` holds a helpful step is enabled, helpful steps lower the rank, and no step raises
it. -/
theorem leadsTo_of_rank (hfair : E.Fair helpful) (rank : State → ℕ)
    (henabled : ∀ s, Reachable L s → P s → ∃ a t, helpful a ∧ L.Tr s a t)
    (hstep : ∀ s a t, Reachable L s → P s → L.Tr s a t → P t ∧ rank t ≤ rank s ∨ Q t)
    (hhelp : ∀ s a t, Reachable L s → P s → helpful a → L.Tr s a t → rank t < rank s ∨ Q t) :
    E.LeadsTo P Q := by
  intro n
  induction hr : rank (E.state n) using Nat.strong_induction_on generalizing n with
  | _ r ih =>
    intro hp
    by_contra hnever
    have hkeep : ∀ s a t, Reachable L s → (P s ∧ rank s ≤ r) → L.Tr s a t →
        (P t ∧ rank t ≤ r) ∨ Q t := by
      rintro s a t hs ⟨hp, hr⟩ ht
      exact (hstep s a t hs hp ht).imp_left fun h => ⟨h.1, h.2.trans hr⟩
    have hholds : ∀ m, n ≤ m → P (E.state m) ∧ rank (E.state m) ≤ r := by
      intro m hm
      exact (keeps_until hkeep hm ⟨hp, hr.le⟩).resolve_right hnever
    obtain ⟨m, a, hm, hlabel, ha⟩ := hfair n fun m hm =>
      henabled _ (E.reachable m) (hholds m hm).1
    have hnext := hholds (m + 1) (by omega)
    rcases hhelp _ a _ (E.reachable m) (hholds m hm).1 ha (E.steps m a hlabel) with hlt | hq
    · have hle := (hholds m hm).2
      obtain ⟨k, hk, hq⟩ := ih (rank (E.state (m + 1))) (by omega) (m + 1) rfl hnext.1
      exact hnever ⟨k, by omega, hq⟩
    · exact hnever ⟨m + 1, by omega, hq⟩

end Execution

section Padding

variable {I : State → Prop} {step : State → Label → Option State} {s t : State}

/-- An execution that goes on with one step for ever. -/
theorem exists_forever (a : Label) (P : State → Prop)
    (hnext : ∀ s, P s → ∃ t, step s a = some t ∧ P t) (hi : I s) (hp : P s) :
    ∃ E : Execution (ofStep I step), ∀ n, P (E.state n) := by
  choose next hstep hkeep using hnext
  let state : ℕ → {s // P s} := fun n =>
    Nat.rec ⟨s, hp⟩ (fun _ s => ⟨next s.1 s.2, hkeep s.1 s.2⟩) n
  refine ⟨{
    state := fun n => (state n).1
    label := fun _ => some a
    initial := hi
    waits := nofun
    steps := ?_ }, fun n => (state n).2⟩
  intro n b hb
  cases hb
  exact hstep _ _

/-- These steps, and then one step for ever. -/
theorem exists_execution (a : Label) (P : State → Prop)
    (hnext : ∀ s, P s → ∃ t, step s a = some t ∧ P t) (hi : I s) (acts : List Label)
    (hrun : exec step s acts = some t) (hp : P t) :
    ∃ E : Execution (ofStep I step), ∀ n, acts.length ≤ n → P (E.state n) := by
  induction acts generalizing s I with
  | nil =>
    cases hrun
    obtain ⟨E, hE⟩ := exists_forever a P hnext hi hp
    exact ⟨E, fun n _ => hE n⟩
  | cons b acts ih =>
    obtain ⟨u, hu, hrun⟩ := Option.bind_eq_some_iff.mp hrun
    obtain ⟨E, htail⟩ := ih (I := (· = u)) rfl hrun
    have hfirst : E.state 0 = u := E.initial
    let state : ℕ → State := fun n => n.casesOn s E.state
    let label : ℕ → Option Label := fun n => n.casesOn (some b) E.label
    refine ⟨{
      state := state
      label := label
      initial := hi
      waits := ?_
      steps := ?_ }, ?_⟩
    · rintro (_ | n) h
      · cases h
      · exact E.waits n h
    · rintro (_ | n) c h
      · cases h
        exact hu.trans (congrArg some hfirst.symm)
      · exact E.steps n c h
    · rintro (_ | n) hn
      · cases hn
      · exact htail n (by simpa using hn)

end Padding

end Transition
