import Mathlib.Algebra.Order.Ring.Int
import Mathlib.Tactic.Linarith
import Mathlib.Tactic.Ring

/-!
# Words read as integers

Sums, differences and products of words are exact where the exact result fits, and the high part
of a product can be computed from the halves of its factors.
-/
namespace Shamrock.Words

variable {w : Nat} {x y : BitVec w}

/-- What a signed word of `w` bits can hold. -/
def Fits (w : Nat) (n : Int) : Prop := -2 ^ (w - 1) ≤ n ∧ n < 2 ^ (w - 1)

theorem fits_toInt : Fits w x.toInt := ⟨x.le_toInt, BitVec.toInt_lt⟩

theorem toInt_add_of_fits (h : Fits w (x.toInt + y.toInt)) :
    (x + y).toInt = x.toInt + y.toInt := by
  refine BitVec.toInt_add_of_not_saddOverflow ?_
  obtain ⟨hlow, hhigh⟩ := h
  simp only [BitVec.saddOverflow, ge_iff_le, Bool.or_eq_true, decide_eq_true_eq, not_or, not_le,
    not_lt]
  exact ⟨hhigh, hlow⟩

theorem toInt_sub_of_fits (h : Fits w (x.toInt - y.toInt)) :
    (x - y).toInt = x.toInt - y.toInt := by
  refine BitVec.toInt_sub_of_not_ssubOverflow ?_
  obtain ⟨hlow, hhigh⟩ := h
  simp only [BitVec.ssubOverflow, ge_iff_le, Bool.or_eq_true, decide_eq_true_eq, not_or, not_le,
    not_lt]
  exact ⟨hhigh, hlow⟩

theorem toInt_mul_of_fits (h : Fits w (x.toInt * y.toInt)) :
    (x * y).toInt = x.toInt * y.toInt := by
  refine BitVec.toInt_mul_of_not_smulOverflow ?_
  obtain ⟨hlow, hhigh⟩ := h
  simp only [BitVec.smulOverflow, ge_iff_le, Bool.or_eq_true, decide_eq_true_eq, not_or, not_le,
    not_lt]
  exact ⟨hhigh, hlow⟩

theorem toInt_setWidth_of_fits {v : Nat} (hv : 0 < v ∧ v ≤ w) (h : Fits v x.toInt) :
    (x.setWidth v).toInt = x.toInt := by
  obtain ⟨hlow, hhigh⟩ := h
  have hpow : 2 ^ v = 2 * 2 ^ (v - 1) := by
    rw [← Nat.pow_succ', Nat.succ_eq_add_one, Nat.sub_add_cancel hv.1]
  have hcast : ((2 ^ (v - 1) : Nat) : Int) = 2 ^ (v - 1) := by norm_cast
  rw [← BitVec.signExtend_eq_setWidth_of_le x hv.2,
    BitVec.toInt_signExtend_eq_toInt_bmod_of_le x hv.2]
  refine Int.bmod_eq_of_le_mul_two ?_ ?_ <;> rw [hpow] <;> omega

theorem toNat_add_of_lt (h : x.toNat + y.toNat < 2 ^ w) : (x + y).toNat = x.toNat + y.toNat := by
  rw [BitVec.toNat_add, Nat.mod_eq_of_lt h]

theorem toNat_mul_of_lt (h : x.toNat * y.toNat < 2 ^ w) : (x * y).toNat = x.toNat * y.toNat := by
  rw [BitVec.toNat_mul, Nat.mod_eq_of_lt h]

/-- The common lowest bit. -/
theorem toNat_and_and_one (hw : 0 < w) :
    (x &&& y &&& 1#w).toNat = x.toNat % 2 * (y.toNat % 2) := by
  have hone : (1#w).toNat = 1 := Nat.mod_eq_of_lt (Nat.one_lt_two_pow (by omega))
  have hand : (x.toNat &&& y.toNat) % 2 ^ 1 = (x.toNat % 2 ^ 1) &&& (y.toNat % 2 ^ 1) :=
    Nat.and_mod_two_pow
  rw [BitVec.toNat_and, BitVec.toNat_and, hone, Nat.and_one_is_mod]
  rw [Nat.pow_one] at hand
  rw [hand]
  rcases Nat.mod_two_eq_zero_or_one x.toNat with hx | hx <;>
    rcases Nat.mod_two_eq_zero_or_one y.toNat with hy | hy <;> rw [hx, hy] <;> rfl

theorem mul_bounds {p q low high : Int} (hq : 0 ≤ q) (hp : low ≤ p ∧ p ≤ high) :
    q * low ≤ q * p ∧ q * p ≤ q * high :=
  ⟨Int.mul_le_mul_of_nonneg_left hp.1 hq, Int.mul_le_mul_of_nonneg_left hp.2 hq⟩

/-- The high part of a product from the halves of its factors. -/
theorem mul_ediv_halves (a b : Int) {B : Int} (hB : 0 < B) :
    a * b / (B * B) = a / B * (b / B) +
      (a / B * (b % B) + (a % B * (b / B) + a % B * (b % B) / B)) / B := by
  have ha := Int.mul_ediv_add_emod a B
  have hb := Int.mul_ediv_add_emod b B
  have hlow := Int.mul_ediv_add_emod (a % B * (b % B)) B
  have hne : B ≠ 0 := Int.ne_of_gt hB
  -- the lowest digit of the product does not matter
  have hsplit : a * b = B * (B * (a / B * (b / B)) + (a / B * (b % B) + a % B * (b / B))) +
      a % B * (b % B) := by
    calc a * b = (B * (a / B) + a % B) * (B * (b / B) + b % B) := by rw [ha, hb]
      _ = _ := by ring
  have hfirst : a * b / B =
      B * (a / B * (b / B)) + (a / B * (b % B) + a % B * (b / B)) + a % B * (b % B) / B := by
    rw [hsplit, Int.add_comm, Int.add_mul_ediv_left _ _ hne, Int.add_comm]
  have hnext : a * b / (B * B) = a * b / B / B := (Int.ediv_ediv_of_nonneg (Int.le_of_lt hB)).symm
  rw [hnext, hfirst, Int.add_assoc, Int.add_comm, Int.add_mul_ediv_left _ _ hne, Int.add_comm,
    Int.add_assoc]

end Shamrock.Words
