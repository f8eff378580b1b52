import Mathlib.Data.List.Count
import Mathlib.Data.Nat.Basic

/-! A range cut into chunks of one size, of which the last one may be shorter. -/
namespace Chunks

variable {n b i m d : Nat}

def count (n b : Nat) : Nat := (n + b - 1) / b

def size (n b i : Nat) : Nat := if i + 1 = count n b then n - i * b else b

/-- Position `d` lies in chunk `i`. -/
def Holds (n b i d : Nat) : Prop := i * b ≤ d ∧ d < i * b + size n b i

instance : Decidable (Holds n b i d) :=
  inferInstanceAs (Decidable (i * b ≤ d ∧ d < i * b + size n b i))

theorem lt_count_iff (hb : 0 < b) : i < count n b ↔ i * b < n := by
  rw [count, ← Nat.succ_le_iff, Nat.le_div_iff_mul_le hb, Nat.succ_mul]
  omega

theorem count_pos (hb : 0 < b) (hn : 0 < n) : 0 < count n b :=
  (lt_count_iff hb).mpr (by omega)

/-- The last chunk ends where the range ends. -/
theorem last_end (hb : 0 < b) (hlast : i + 1 = count n b) : n ≤ i * b + b := by
  have hnot : ¬ i + 1 < count n b := by omega
  rw [lt_count_iff hb, Nat.succ_mul] at hnot
  omega

theorem size_le (hb : 0 < b) (i : Nat) : size n b i ≤ b := by
  unfold size
  split_ifs with hlast
  · have hend := last_end hb hlast
    omega
  · exact Nat.le_refl b

theorem end_le (hb : 0 < b) (hi : i < count n b) : i * b + size n b i ≤ n := by
  have hstart := (lt_count_iff hb).mp hi
  unfold size
  split_ifs with hlast
  · omega
  · have hnext : i + 1 < count n b := by omega
    rw [lt_count_iff hb, Nat.succ_mul] at hnext
    omega

/-- Every position of the range lies in the chunk that its quotient names, and in no other. -/
theorem holds_iff (hb : 0 < b) (hi : i < count n b) : Holds n b i d ↔ d / b = i ∧ d < n := by
  have hend := end_le hb hi
  have hsize := size_le (n := n) hb i
  have hdiv : d / b = i ↔ i * b ≤ d ∧ d < i * b + b := by
    rw [Nat.div_eq_iff hb]
    omega
  rw [hdiv, Holds]
  constructor
  · rintro ⟨hlow, hhigh⟩
    omega
  · rintro ⟨⟨hlow, hhigh⟩, hd⟩
    refine ⟨hlow, ?_⟩
    unfold size
    split_ifs <;> omega

/-- The first chunks hold each position before their end once. -/
theorem countP_holds (hb : 0 < b) (hm : m ≤ count n b) :
    (List.range m).countP (fun i => Holds n b i d) = if d < m * b ∧ d < n then 1 else 0 := by
  induction m with
  | zero => simp
  | succ m ih =>
    have hmul : (m + 1) * b = m * b + b := Nat.succ_mul m b
    have hdiv : d / b = m ↔ m * b ≤ d ∧ d < m * b + b := by
      rw [Nat.div_eq_iff hb]
      omega
    rw [List.range_succ, List.countP_append, ih (by omega), List.countP_singleton]
    simp only [decide_eq_true_eq, holds_iff hb (Nat.lt_of_succ_le hm), hdiv]
    split_ifs <;> omega

end Chunks
