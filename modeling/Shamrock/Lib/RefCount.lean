import Mathlib.Data.List.Count
import Mathlib.Logic.Function.Basic

/-! Reference counts of objects that are known until their last reference is released. -/
namespace RefCount

variable {α : Type*} [DecidableEq α]

/-- A known object has a count, any other has none. -/
abbrev Counts (α : Type*) := α → Option Nat

/-- Taking a reference on an object that is not known has no effect. -/
def retain (c : Counts α) (x : α) : Counts α :=
  match c x with
  | none => c
  | some n => Function.update c x (some (n + 1))

/-- The last reference takes the object with it. -/
def release (c : Counts α) (x : α) : Counts α :=
  match c x with
  | none => c
  | some n => Function.update c x (if n - 1 = 0 then none else some (n - 1))

/-- The counts when `t x` references on `x` are held. -/
def held (t : α → Nat) : Counts α := fun x => if t x = 0 then none else some (t x)

variable {t : α → Nat} {x : α}

omit [DecidableEq α] in
theorem held_congr {u : α → Nat} (h : ∀ x, t x = u x) : held t = held u :=
  congrArg held (funext h)

omit [DecidableEq α] in
theorem held_eq_none_iff : held t x = none ↔ t x = 0 := by
  unfold held
  split <;> simp_all

omit [DecidableEq α] in
theorem held_ne_none_iff : held t x ≠ none ↔ 0 < t x := by
  rw [Ne, held_eq_none_iff, Nat.pos_iff_ne_zero]

theorem retain_held (x : α) :
    retain (held t) x = held (fun y => if y = x ∧ t y ≠ 0 then t y + 1 else t y) := by
  funext y
  unfold retain held
  by_cases hx : t x = 0
  · by_cases hyx : y = x <;> simp_all
  · by_cases hyx : y = x <;> simp_all

theorem release_held (x : α) :
    release (held t) x = held (fun y => if y = x then t y - 1 else t y) := by
  funext y
  unfold release held
  by_cases hx : t x = 0
  · by_cases hyx : y = x <;> simp_all
  · by_cases hyx : y = x <;> simp_all

theorem foldl_release_held (l : List α) (t : α → Nat) :
    l.foldl release (held t) = held (fun y => t y - l.count y) := by
  induction l generalizing t with
  | nil => simp
  | cons x l ih =>
    rw [List.foldl_cons, release_held, ih]
    refine held_congr fun y => ?_
    by_cases hyx : y = x
    · rw [if_pos hyx, hyx, List.count_cons_self]
      omega
    · rw [if_neg hyx, List.count_cons_of_ne (Ne.symm hyx)]

theorem foldl_retain_held (l : List α) (t : α → Nat) :
    l.foldl retain (held t) = held (fun y => if t y = 0 then 0 else t y + l.count y) := by
  induction l generalizing t with
  | nil =>
    rw [List.foldl_nil]
    refine held_congr fun y => ?_
    split <;> simp_all
  | cons x l ih =>
    rw [List.foldl_cons, retain_held, ih]
    refine held_congr fun y => ?_
    by_cases hyx : y = x
    · by_cases hy : t y = 0
      · simp [hy]
      · simp only [hyx, List.count_cons_self] at hy ⊢
        simp only [hy, ne_eq, not_false_eq_true, and_self, if_true, if_false,
          Nat.add_one_ne_zero]
        omega
    · rw [List.count_cons_of_ne (Ne.symm hyx)]
      simp [hyx]

end RefCount
