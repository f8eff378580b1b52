import Mathlib.Data.List.Nodup
import Mathlib.Data.List.Sublists

/-! Positions in a list without duplicates: what comes before what. -/
namespace ListOrder

variable {α : Type*} {l r : List α} {x y : α}

theorem perm_eraseIdx {i : Nat} (h : l[i]? = some x) : l.Perm (x :: l.eraseIdx i) := by
  obtain ⟨hi, rfl⟩ := List.getElem?_eq_some_iff.mp h
  exact (List.getElem_cons_eraseIdx_perm hi).symm

theorem sublist_of_append_singleton (h : l.Sublist (r ++ [x])) (hx : x ∉ l) : l.Sublist r := by
  obtain ⟨l₁, l₂, rfl, h₁, h₂⟩ := List.sublist_append_iff.mp h
  rcases List.sublist_singleton.mp h₂ with rfl | rfl
  · simpa using h₁
  · simp at hx

/-- Two elements do not come before each other. -/
theorem not_before_of_before (hn : r.Nodup) (h : [x, y].Sublist r) : ¬ [y, x].Sublist r := by
  induction r with
  | nil => simp at h
  | cons z r ih =>
    obtain ⟨hz, hn⟩ := List.nodup_cons.mp hn
    intro h'
    cases h with
    | cons _ h =>
      cases h' with
      | cons _ h' => exact ih hn h h'
      | cons_cons _ h' => exact hz (h.subset (by simp))
    | cons_cons _ h =>
      cases h' with
      | cons _ h' => exact hz (h'.subset (by simp))
      | cons_cons _ h' => exact hz (h'.subset (by simp))

theorem before_of_lt {i j : Nat} (hij : i < j) (hx : l[i]? = some x) (hy : l[j]? = some y) :
    [x, y].Sublist l := by
  induction l generalizing i j with
  | nil => simp at hx
  | cons z l ih =>
    cases j with
    | zero => omega
    | succ j =>
      cases i with
      | zero =>
        obtain rfl : z = x := by simpa using hx
        refine List.Sublist.cons_cons _ (List.singleton_sublist.mpr ?_)
        exact List.mem_of_getElem? (by simpa using hy)
      | succ i =>
        exact (ih (Nat.lt_of_succ_lt_succ hij) (by simpa using hx) (by simpa using hy)).cons _

/-- The order of a duplicate-free list is kept in its sublists. -/
theorem index_of_before (hs : l.Sublist r) (hn : r.Nodup) (h : [x, y].Sublist r) (hx : x ∈ l)
    {i : Nat} (hy : l[i]? = some y) : ∃ j < i, l[j]? = some x := by
  obtain ⟨j, hj⟩ := List.mem_iff_getElem?.mp hx
  refine ⟨j, ?_, hj⟩
  rcases Nat.lt_trichotomy j i with hlt | rfl | hlt
  · exact hlt
  · obtain rfl : x = y := Option.some.inj (hj.symm.trans hy)
    exact absurd (h.nodup hn) (by simp)
  · exact absurd ((before_of_lt hlt hy hj).trans hs) (not_before_of_before hn h)

end ListOrder
