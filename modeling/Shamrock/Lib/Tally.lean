import Mathlib.Algebra.BigOperators.Finprod
import Mathlib.Data.List.Nodup

/-! Sums with finitely many terms, and counts in lists without duplicates, under a change in one
place. -/
namespace Tally

variable {α : Type*}

theorem finsum_update [DecidableEq α] {f : α → ℕ} (hf : f.support.Finite) (a : α) (n : ℕ) :
    (∑ᶠ x, Function.update f a n x) + f a = (∑ᶠ x, f x) + n := by
  have hs : f.support ⊆ ↑(insert a hf.toFinset) := by
    intro x hx
    simp [Function.mem_support.mp hx]
  have hs' : (Function.update f a n).support ⊆ ↑(insert a hf.toFinset) := by
    intro x hx
    by_cases hxa : x = a
    · simp [hxa]
    · have hfx : f x ≠ 0 := by simpa [hxa] using hx
      simp [hfx]
  have hmem : a ∈ insert a hf.toFinset := Finset.mem_insert_self _ _
  have hsum := Finset.add_sum_erase (insert a hf.toFinset) f hmem
  rw [finsum_eq_sum_of_support_subset _ hs, finsum_eq_sum_of_support_subset _ hs',
    Finset.sum_update_of_mem hmem, Finset.sdiff_singleton_eq_erase]
  omega

/-- One element of the list comes to satisfy the predicate. -/
theorem countP_add_one [DecidableEq α] {l : List α} {p p' : α → Bool} {x : α} (hn : l.Nodup)
    (hx : x ∈ l) (hp : p x = false) (hp' : p' x = true) (h : ∀ y ∈ l, y ≠ x → p' y = p y) :
    l.countP p' = l.countP p + 1 := by
  have hperm := List.perm_cons_erase hx
  rw [hperm.countP_eq p, hperm.countP_eq p', List.countP_cons_of_pos hp',
    List.countP_cons_of_neg (by simp [hp])]
  congr 1
  refine List.countP_congr fun y hy => ?_
  obtain ⟨hne, hmem⟩ := (hn.mem_erase_iff).mp hy
  rw [h y hmem hne]

/-- No element of the list but one ceases to satisfy the predicate. -/
theorem countP_le_add_one [DecidableEq α] {l : List α} {p p' : α → Bool} {x : α} (hn : l.Nodup)
    (h : ∀ y ∈ l, y ≠ x → p y = true → p' y = true) : l.countP p ≤ l.countP p' + 1 := by
  by_cases hx : x ∈ l
  · have hperm := List.perm_cons_erase hx
    have hle : (l.erase x).countP p ≤ (l.erase x).countP p' := by
      refine List.countP_mono_left fun y hy => ?_
      obtain ⟨hne, hmem⟩ := (hn.mem_erase_iff).mp hy
      exact h y hmem hne
    rw [hperm.countP_eq p, hperm.countP_eq p', List.countP_cons, List.countP_cons]
    split <;> split <;> omega
  · refine Nat.le_succ_of_le (List.countP_mono_left fun y hy => h y hy ?_)
    rintro rfl
    exact hx hy

/-- A predicate that splits into two exclusive ones. -/
theorem countP_add {l : List α} {p r t : α → Bool}
    (h : ∀ x ∈ l, (r x = true ↔ p x = true ∧ t x = false) ∧ (t x = true → p x = true)) :
    l.countP r + l.countP t = l.countP p := by
  induction l with
  | nil => rfl
  | cons x l ih =>
    obtain ⟨hr, ht⟩ := h x List.mem_cons_self
    have ih := ih fun y hy => h y (List.mem_cons_of_mem _ hy)
    simp only [List.countP_cons]
    cases hp : p x <;> cases htx : t x <;> simp_all <;> omega

/-- Duplicate-free lists that agree on what they count. -/
theorem countP_eq_of_mem_iff {l m : List α} {p p' : α → Bool} (hl : l.Nodup) (hm : m.Nodup)
    (h : ∀ x, x ∈ l ∧ p x = true ↔ x ∈ m ∧ p' x = true) : l.countP p = m.countP p' := by
  rw [List.countP_eq_length_filter, List.countP_eq_length_filter]
  apply List.Perm.length_eq
  rw [List.perm_ext_iff_of_nodup (hl.filter _) (hm.filter _)]
  intro x
  simpa using h x

end Tally
