import Mathlib.Algebra.BigOperators.Group.List.Basic
import Mathlib.Data.List.Forall2
import Mathlib.Data.List.Nodup
import Mathlib.Data.List.Range

/-!
Odometers: a vector whose digits run from zero to their own maximum and are counted up with the
first digit fastest. The `k`-th reading is `digits maxs k`.
-/
namespace Odometer

variable {maxs vec w : List Nat} {k : Nat}

/-- Every digit stays at or below its maximum. -/
def Valid (maxs vec : List Nat) : Prop := List.Forall₂ (· ≤ ·) vec maxs

/-- The number of readings. -/
def size (maxs : List Nat) : Nat := (maxs.map (· + 1)).prod

/-- The position of a reading in the count. -/
def rank : List Nat → List Nat → Nat
  | m :: ms, v :: vs => v + (m + 1) * rank ms vs
  | _, _ => 0

/-- The reading at position `k`. -/
def digits : List Nat → Nat → List Nat
  | [], _ => []
  | m :: ms, k => k % (m + 1) :: digits ms (k / (m + 1))

/-- Count up by one; the second component tells that no digit was left to carry into. -/
def advance (carried : Bool) : List Nat → List Nat → List Nat × Bool
  | m :: ms, v :: vs =>
    if v < m then ((v + 1) :: vs, false)
    else (0 :: (advance true ms vs).1, (advance true ms vs).2)
  | _, vs => (vs, carried)

@[simp] theorem size_nil : size [] = 1 := rfl

@[simp] theorem size_cons (m : Nat) (ms : List Nat) : size (m :: ms) = (m + 1) * size ms := by
  simp [size]

theorem size_pos (maxs : List Nat) : 0 < size maxs := by
  induction maxs with
  | nil => simp
  | cons m ms ih =>
    rw [size_cons]
    exact Nat.mul_pos (Nat.succ_pos m) ih

theorem rank_lt (h : Valid maxs vec) : rank maxs vec < size maxs := by
  induction h with
  | nil => simp [rank]
  | @cons v m vs ms hv _ ih =>
    simp only [rank, size_cons]
    calc v + (m + 1) * rank ms vs < (m + 1) * rank ms vs + (m + 1) := by omega
      _ = (m + 1) * (rank ms vs + 1) := (Nat.mul_succ ..).symm
      _ ≤ (m + 1) * size ms := Nat.mul_le_mul_left _ ih

theorem digits_rank (h : Valid maxs vec) : digits maxs (rank maxs vec) = vec := by
  induction h with
  | nil => rfl
  | @cons v m vs ms hv _ ih =>
    have hlt : v < m + 1 := by omega
    simp [rank, digits, Nat.add_mul_mod_self_left, Nat.mod_eq_of_lt hlt,
      Nat.add_mul_div_left _ _ (Nat.succ_pos m), Nat.div_eq_of_lt hlt, ih]

theorem digits_valid (maxs : List Nat) (k : Nat) : Valid maxs (digits maxs k) := by
  induction maxs generalizing k with
  | nil => exact .nil
  | cons m ms ih => exact .cons (Nat.le_of_lt_succ (Nat.mod_lt _ (Nat.succ_pos m))) (ih _)

theorem rank_digits (h : k < size maxs) : rank maxs (digits maxs k) = k := by
  induction maxs generalizing k with
  | nil =>
    rw [size_nil] at h
    simp only [rank]
    omega
  | cons m ms ih =>
    have hk : k / (m + 1) < size ms := Nat.div_lt_of_lt_mul (by simpa using h)
    simp only [digits, rank, ih hk]
    exact Nat.mod_add_div k (m + 1)

theorem rank_injective (hv : Valid maxs vec) (hw : Valid maxs w)
    (h : rank maxs vec = rank maxs w) : vec = w := by
  rw [← digits_rank hv, ← digits_rank hw, h]

theorem advance_valid (carried : Bool) (h : Valid maxs vec) :
    Valid maxs (advance carried maxs vec).1 := by
  induction h generalizing carried with
  | nil => exact .nil
  | @cons v m vs ms hv hvs ih =>
    simp only [advance]
    split
    · rename_i hlt
      exact .cons hlt hvs
    · exact .cons (Nat.zero_le _) (ih true)

/-- Below the last reading, counting up gives the next one. -/
theorem advance_next (carried : Bool) (h : Valid maxs vec) (hk : rank maxs vec + 1 < size maxs) :
    (advance carried maxs vec).2 = false ∧
      rank maxs (advance carried maxs vec).1 = rank maxs vec + 1 := by
  induction h generalizing carried with
  | nil => simp [rank] at hk
  | @cons v m vs ms hv hvs ih =>
    simp only [advance]
    split
    · exact ⟨rfl, by simp only [rank]; omega⟩
    · have hvm : v = m := by omega
      have hlt : rank ms vs + 1 < size ms := by
        simp only [rank, size_cons] at hk
        have hmul : (m + 1) * (rank ms vs + 1) < (m + 1) * size ms := by
          rw [Nat.mul_succ]
          omega
        exact Nat.lt_of_mul_lt_mul_left hmul
      obtain ⟨h₁, h₂⟩ := ih true hlt
      refine ⟨h₁, ?_⟩
      simp only [rank, h₂, Nat.mul_succ]
      omega

/-- The last reading turns over to zero. -/
theorem advance_last (h : Valid maxs vec) (hk : rank maxs vec + 1 = size maxs) :
    advance true maxs vec = (digits maxs 0, true) := by
  induction h with
  | nil => rfl
  | @cons v m vs ms hv hvs ih =>
    have hlt := rank_lt hvs
    simp only [rank, size_cons] at hk
    have hv' : ¬ v < m := by
      intro hvm
      have hle : (m + 1) * (rank ms vs + 1) ≤ (m + 1) * size ms := Nat.mul_le_mul_left _ hlt
      rw [Nat.mul_succ] at hle
      omega
    have hvm : v = m := by omega
    have hs : rank ms vs + 1 = size ms := by
      have hmul : (m + 1) * (rank ms vs + 1) = (m + 1) * size ms := by
        rw [Nat.mul_succ]
        omega
      exact Nat.eq_of_mul_eq_mul_left (Nat.succ_pos m) hmul
    simp [advance, hv', ih hs, digits]

/-- Whether a carry was pending matters only to an odometer without digits. -/
theorem advance_carried (carried : Bool) (h : maxs ≠ []) (hv : Valid maxs vec) :
    advance carried maxs vec = advance true maxs vec := by
  cases hv with
  | nil => exact absurd rfl h
  | cons => rfl

/-- The first `k` readings. -/
def readings (maxs : List Nat) (k : Nat) : List (List Nat) := (List.range k).map (digits maxs)

theorem readings_succ (maxs : List Nat) (k : Nat) :
    readings maxs (k + 1) = readings maxs k ++ [digits maxs k] := by
  simp [readings, List.range_succ]

theorem readings_nodup (h : k ≤ size maxs) : (readings maxs k).Nodup := by
  refine List.Nodup.map_on ?_ List.nodup_range
  intro i hi j hj hij
  have hi' : i < size maxs := Nat.lt_of_lt_of_le (List.mem_range.mp hi) h
  have hj' : j < size maxs := Nat.lt_of_lt_of_le (List.mem_range.mp hj) h
  rw [← rank_digits hi', ← rank_digits hj', hij]

theorem mem_readings (h : k ≤ size maxs) :
    vec ∈ readings maxs k ↔ Valid maxs vec ∧ rank maxs vec < k := by
  simp only [readings, List.mem_map, List.mem_range]
  constructor
  · rintro ⟨i, hi, rfl⟩
    exact ⟨digits_valid maxs i, by rwa [rank_digits (Nat.lt_of_lt_of_le hi h)]⟩
  · rintro ⟨hv, hr⟩
    exact ⟨rank maxs vec, hr, digits_rank hv⟩

end Odometer
