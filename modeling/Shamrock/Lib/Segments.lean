import Mathlib.Algebra.GroupWithZero.Nat

/-! A range cut into segments of different kinds, and the blocks of one kind with their
addresses. -/
namespace Segments

variable {K : Type*} [DecidableEq K]

structure Segment (K : Type*) where
  kind : K
  size : Nat
  deriving DecidableEq, Repr

def total (segs : List (Segment K)) : Nat := (segs.map Segment.size).sum

/-- The blocks of one kind, in the order of their addresses, where the first segment is at `a`. -/
def blocks (k : K) : Nat → List (Segment K) → List (Nat × Nat)
  | _, [] => []
  | a, s :: segs =>
    if s.kind = k then (a, s.size) :: blocks k (a + s.size) segs else blocks k (a + s.size) segs

variable {k k' : K} {a : Nat} {b b' : Nat × Nat} {segs xs ys : List (Segment K)} {s : Segment K}

omit [DecidableEq K] in
@[simp] theorem total_nil : total ([] : List (Segment K)) = 0 := rfl

omit [DecidableEq K] in
@[simp] theorem total_cons (s : Segment K) (segs : List (Segment K)) :
    total (s :: segs) = s.size + total segs := rfl

omit [DecidableEq K] in
@[simp] theorem total_append (xs ys : List (Segment K)) :
    total (xs ++ ys) = total xs + total ys := by
  simp [total]

@[simp] theorem blocks_nil (k : K) (a : Nat) : blocks k a [] = [] := rfl

theorem blocks_cons (k : K) (a : Nat) (s : Segment K) (segs : List (Segment K)) :
    blocks k a (s :: segs) =
      (if s.kind = k then [(a, s.size)] else []) ++ blocks k (a + s.size) segs := by
  simp only [blocks]
  split <;> rfl

theorem blocks_append (k : K) (a : Nat) (xs ys : List (Segment K)) :
    blocks k a (xs ++ ys) = blocks k a xs ++ blocks k (a + total xs) ys := by
  induction xs generalizing a with
  | nil => rfl
  | cons x xs ih =>
    rw [List.cons_append, blocks_cons, blocks_cons, ih, total_cons, List.append_assoc,
      Nat.add_assoc]

theorem blocks_bounds (h : b ∈ blocks k a segs) : a ≤ b.1 ∧ b.1 + b.2 ≤ a + total segs := by
  induction segs generalizing a with
  | nil => cases h
  | cons s segs ih =>
    rw [blocks_cons] at h
    rw [total_cons]
    rcases List.mem_append.mp h with h | h
    · split at h
      · obtain rfl := List.mem_singleton.mp h
        exact ⟨Nat.le_refl _, by dsimp only; omega⟩
      · cases h
    · obtain ⟨hlo, hhi⟩ := ih h
      omega

/-- There is no block of a kind if and only if there is no segment of it. -/
theorem blocks_eq_nil : blocks k a segs = [] ↔ ∀ s ∈ segs, s.kind ≠ k := by
  induction segs generalizing a with
  | nil => simp
  | cons s segs ih =>
    rw [blocks_cons, List.append_eq_nil_iff, ih, List.forall_mem_cons]
    by_cases hs : s.kind = k <;> simp [hs]

/-- A block comes from a segment. -/
theorem exists_segment (h : b ∈ blocks k a segs) : ⟨k, b.2⟩ ∈ segs := by
  induction segs generalizing a with
  | nil => cases h
  | cons s segs ih =>
    rw [blocks_cons] at h
    rcases List.mem_append.mp h with h | h
    · split at h
      · rename_i hs
        obtain rfl := List.mem_singleton.mp h
        subst hs
        exact List.mem_cons_self
      · cases h
    · exact List.mem_cons_of_mem _ (ih h)

theorem blocks_pairwise (k : K) (a : Nat) (segs : List (Segment K)) :
    (blocks k a segs).Pairwise fun b b' => b.1 + b.2 ≤ b'.1 := by
  induction segs generalizing a with
  | nil => exact .nil
  | cons s segs ih =>
    rw [blocks_cons]
    split
    · exact .cons (fun b hb => (blocks_bounds hb).1) (ih _)
    · exact ih _

/-- Blocks of two kinds do not overlap. -/
theorem blocks_apart (hk : k ≠ k') (h : b ∈ blocks k a segs) (h' : b' ∈ blocks k' a segs) :
    b.1 + b.2 ≤ b'.1 ∨ b'.1 + b'.2 ≤ b.1 := by
  induction segs generalizing a with
  | nil => cases h
  | cons s segs ih =>
    rw [blocks_cons] at h h'
    rcases List.mem_append.mp h with h | h <;> rcases List.mem_append.mp h' with h' | h'
    · split at h <;> split at h'
      · exact absurd (‹s.kind = k›.symm.trans ‹s.kind = k'›) hk
      all_goals simp_all
    · split at h
      · obtain rfl := List.mem_singleton.mp h
        exact .inl (blocks_bounds h').1
      · cases h
    · split at h'
      · obtain rfl := List.mem_singleton.mp h'
        exact .inr (blocks_bounds h).1
      · cases h'
    · exact ih h h'

/-- Where a block stands among those of its kind, its segment stands among all. -/
theorem blocks_split {l r : List (Nat × Nat)} (h : blocks k a segs = l ++ b :: r) :
    ∃ pre post, segs = pre ++ ⟨k, b.2⟩ :: post ∧ blocks k a pre = l ∧ b.1 = a + total pre ∧
      blocks k (b.1 + b.2) post = r := by
  induction segs generalizing a l with
  | nil => simp at h
  | cons s segs ih =>
    rw [blocks_cons] at h
    by_cases hs : s.kind = k
    · rw [if_pos hs, List.singleton_append] at h
      cases l with
      | nil =>
        obtain ⟨rfl, rfl⟩ := List.cons.inj h
        exact ⟨[], segs, by simp [← hs], rfl, rfl, rfl⟩
      | cons c l =>
        rw [List.cons_append] at h
        obtain ⟨rfl, htail⟩ := List.cons.inj h
        obtain ⟨pre, post, rfl, hl, hb, hr⟩ := ih htail
        refine ⟨s :: pre, post, rfl, ?_, ?_, hr⟩
        · rw [blocks_cons, if_pos hs, hl]
          rfl
        · rw [hb, total_cons]
          omega
    · rw [if_neg hs, List.nil_append] at h
      obtain ⟨pre, post, rfl, hl, hb, hr⟩ := ih h
      refine ⟨s :: pre, post, rfl, ?_, ?_, hr⟩
      · rw [blocks_cons, if_neg hs, hl]
        rfl
      · rw [hb, total_cons]
        omega

/-- Two kinds that cover the range. -/
theorem sum_blocks (hk : k ≠ k') (h : ∀ s ∈ segs, s.kind = k ∨ s.kind = k') :
    ((blocks k a segs).map Prod.snd).sum + ((blocks k' a segs).map Prod.snd).sum = total segs := by
  induction segs generalizing a with
  | nil => rfl
  | cons s segs ih =>
    have ih := ih (a := a + s.size) fun x hx => h x (List.mem_cons_of_mem _ hx)
    rw [blocks_cons, blocks_cons, total_cons]
    rcases h s List.mem_cons_self with hs | hs
    · have hne : s.kind ≠ k' := hs ▸ hk
      simp only [hs, if_true, if_neg (hs ▸ hne), List.map_append, List.sum_append, List.map_cons,
        List.map_nil, List.sum_cons, List.sum_nil]
      omega
    · have hne : s.kind ≠ k := hs ▸ hk.symm
      simp only [hs, if_true, if_neg (hs ▸ hne), List.map_append, List.sum_append, List.map_cons,
        List.map_nil, List.sum_cons, List.sum_nil]
      omega

end Segments
