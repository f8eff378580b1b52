import Mathlib.Order.Basic

/-!
# Runs that stop with an error

A run ends without an answer, with an error or with a value. `Ends c P` is the weakest
precondition under which `c` gives an answer and its value, if it has one, satisfies `P`.
-/
namespace Shamrock.Outcome

variable {ε α β σ : Type} {c d : ExceptT ε Option α} {f g : α → ExceptT ε Option β} {P Q : α → Prop}
  {R : β → Prop} {e : ε} {a : α}

def Ends (c : ExceptT ε Option α) (P : α → Prop) : Prop :=
  match c.run with
  | none => False
  | some (.error _) => True
  | some (.ok a) => P a

@[simp] theorem ends_pure : Ends (pure a : ExceptT ε Option α) P ↔ P a := Iff.rfl

@[simp] theorem ends_throw : Ends (throw e : ExceptT ε Option α) P ↔ True := Iff.rfl

theorem ends_bind : Ends (c >>= f) R ↔ Ends c fun a => Ends (f a) R := by
  unfold Ends
  rw [ExceptT.run_bind]
  cases c.run with
  | none => exact Iff.rfl
  | some r =>
    cases r with
    | error e => exact Iff.rfl
    | ok a => exact Iff.rfl

theorem ends_map {h : α → β} : Ends (h <$> c) R ↔ Ends c fun a => R (h a) := by
  rw [map_eq_pure_bind, ends_bind]
  exact Iff.rfl

theorem ends_imp (h : Ends c P) (himp : ∀ a, P a → Q a) : Ends c Q := by
  unfold Ends at h ⊢
  cases hc : c.run with
  | none =>
    rw [hc] at h
    exact h
  | some r =>
    rw [hc] at h
    cases r with
    | error e => trivial
    | ok a => exact himp a h

/-- A value that a run gives satisfies what the run ends with. -/
theorem ends_ok (h : Ends c P) (hc : c.run = some (.ok a)) : P a := by
  unfold Ends at h
  rw [hc] at h
  exact h

theorem ends_some (h : Ends c P) : ∃ r, c.run = some r := by
  unfold Ends at h
  cases hc : c.run with
  | none =>
    rw [hc] at h
    exact h.elim
  | some r => exact ⟨r, rfl⟩

theorem ends_of_some {r : Except ε α} (h : c.run = some r) (hok : ∀ a, c.run = some (.ok a) → P a) :
    Ends c P := by
  unfold Ends
  rw [h] at hok ⊢
  cases r with
  | error e => trivial
  | ok a => exact hok a rfl

section Below

/-- Whatever `c` answers, `d` answers too. -/
def Below (c d : ExceptT ε Option α) : Prop := ∀ r, c.run = some r → d.run = some r

theorem below_refl : Below c c := fun _ h => h

theorem below_bind (hc : Below c d) (hf : ∀ a, Below (f a) (g a)) :
    Below (c >>= f) (d >>= g) := by
  intro r h
  rw [ExceptT.run_bind] at h ⊢
  obtain ⟨x, hx, h⟩ := Option.bind_eq_some_iff.mp h
  rw [hc x hx]
  cases x with
  | error e => exact h
  | ok a => exact hf a r h

theorem below_foldlM {step step' : σ → α → ExceptT ε Option σ} {l : List α} {s : σ}
    (h : ∀ s a, Below (step s a) (step' s a)) : Below (l.foldlM step s) (l.foldlM step' s) := by
  induction l generalizing s with
  | nil => exact below_refl
  | cons a l ih =>
    rw [List.foldlM_cons, List.foldlM_cons]
    exact below_bind (h s a) fun _ => ih

end Below

section Items

variable {accepted bad : α → Prop} {l : List α}

/-- No bad item is met up to the first one that is not accepted. -/
def Clear (accepted bad : α → Prop) : List α → Prop
  | [] => True
  | a :: l => ¬bad a ∧ (accepted a → Clear accepted bad l)

theorem not_bad_of_clear (h : Clear accepted bad l) (hl : ∀ a ∈ l, accepted a) :
    ∀ a ∈ l, ¬bad a := by
  induction l with
  | nil => exact fun a ha => absurd ha List.not_mem_nil
  | cons a l ih =>
    rw [List.forall_mem_cons] at hl ⊢
    exact ⟨h.1, ih (h.2 hl.1) hl.2⟩

/-- A loop over items: it breaks at a bad item, stops at one that it does not accept, and goes on
with the next state otherwise. -/
theorem ends_foldlM {step : σ → α → ExceptT ε Option σ} {next : σ → α → σ}
    (hstep : ∀ s a (P : σ → Prop), Ends (step s a) P ↔ ¬bad a ∧ (accepted a → P (next s a)))
    {P : σ → Prop} {s : σ} : Ends (l.foldlM step s) P ↔
      Clear accepted bad l ∧ ((∀ a ∈ l, accepted a) → P (l.foldl next s)) := by
  induction l generalizing s with
  | nil => simp [Clear]
  | cons a l ih =>
    rw [List.foldlM_cons, ends_bind, hstep, ih, Clear, List.forall_mem_cons, List.foldl_cons]
    constructor
    · rintro ⟨hbad, h⟩
      exact ⟨⟨hbad, fun ha => (h ha).1⟩, fun ha => (h ha.1).2 ha.2⟩
    · rintro ⟨⟨hbad, h⟩, h'⟩
      exact ⟨hbad, fun ha => ⟨h ha, fun hl => h' ⟨ha, hl⟩⟩⟩

end Items

end Shamrock.Outcome
