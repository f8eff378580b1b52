import Mathlib.Data.Int.DivMod
import Mathlib.Algebra.Order.Ring.Int
import Mathlib.Tactic.Linarith

/-!
# Fields of words

A field of `n` bits from the place `s` on is replaced under a mask. What has been shifted and cut to
`n` bits is the same value again when the field is read, if the value is a multiple of the power
that has been shifted out and in the range of the field.
-/
namespace BitFields

variable {w n m s k i : Nat} {x r v : BitVec w}

/-- `n` ones from the place `s` on. -/
def mask (w n s : Nat) : BitVec w := ((1#w <<< n) - 1#w) <<< s

/-- The bits under the mask are cleared, and `r` is put at the place `s`. -/
def replace (n s : Nat) (r x : BitVec w) : BitVec w := (x &&& ~~~mask w n s) ||| (r <<< s)

def field (n s : Nat) (x : BitVec w) : BitVec n := x.extractLsb' s n

theorem getLsbD_ones (hn : n < w) (hi : i < w) :
    ((1#w <<< n) - 1#w).getLsbD i = decide (i < n) := by
  have hone : (1#w).toNat = 1 := Nat.mod_eq_of_lt (Nat.one_lt_two_pow (by omega))
  have hpow : (1#w <<< n).toNat = 2 ^ n := by
    rw [BitVec.toNat_shiftLeft, hone, Nat.one_shiftLeft,
      Nat.mod_eq_of_lt (Nat.pow_lt_pow_right (by omega) hn)]
  have hle : 1#w ≤ 1#w <<< n := by
    rw [BitVec.le_def, hpow, hone]
    exact Nat.one_le_two_pow
  rw [BitVec.getLsbD, BitVec.toNat_sub_of_le hle, hpow, hone, Nat.testBit_two_pow_sub_one]

theorem getLsbD_mask (hn : n < w) (hi : i < w) :
    (mask w n s).getLsbD i = decide (s ≤ i ∧ i < s + n) := by
  rw [mask, BitVec.getLsbD_shiftLeft]
  rcases Nat.lt_or_ge i s with hlow | hhigh
  · simp [hlow, Nat.not_le.mpr hlow]
  · rw [getLsbD_ones hn (by omega)]
    simp only [hi, Nat.not_lt.mpr hhigh, decide_true, decide_false, Bool.not_false, Bool.true_and]
    congr 1
    apply propext
    omega

theorem getLsbD_replace (hn : n < w) (hi : i < w) : (replace n s r x).getLsbD i =
    ((x.getLsbD i && !decide (s ≤ i ∧ i < s + n)) || (decide (s ≤ i) && r.getLsbD (i - s))) := by
  rw [replace, BitVec.getLsbD_or, BitVec.getLsbD_and, BitVec.getLsbD_not, getLsbD_mask hn hi,
    BitVec.getLsbD_shiftLeft]
  rcases Nat.lt_or_ge i s with hlow | hhigh
  · simp [hi, hlow, Nat.not_le.mpr hlow]
  · simp [hi, hhigh, Nat.not_lt.mpr hhigh]

theorem field_replace (hn : n < w) (hfit : s + n ≤ w) :
    field n s (replace n s r x) = r.setWidth n := by
  apply BitVec.eq_of_getLsbD_eq
  intro i hi
  rw [field, BitVec.getLsbD_extractLsb', getLsbD_replace hn (by omega), BitVec.getLsbD_setWidth,
    Nat.add_sub_cancel_left]
  simp [hi]

/-- Nothing else changes, if `r` is no longer than the field. -/
theorem replace_outside (hn : n < w) (hi : i < w) (hr : r.toNat < 2 ^ n)
    (hout : i < s ∨ s + n ≤ i) : (replace n s r x).getLsbD i = x.getLsbD i := by
  rw [getLsbD_replace hn hi]
  rcases hout with hlow | hhigh
  · simp [Nat.not_le.mpr hlow]
  · have hzero : r.getLsbD (i - s) = false := by
      apply Nat.testBit_lt_two_pow
      apply hr.trans_le
      exact Nat.pow_le_pow_right (by omega) (by omega)
    simp [hzero, Nat.not_lt.mpr hhigh]

/-- What is under a mask from the lowest bit on. -/
theorem setWidth_and_mask (hn : n < w) : (x &&& mask w n 0).setWidth n = x.setWidth n := by
  apply BitVec.eq_of_getLsbD_eq
  intro i hi
  rw [BitVec.getLsbD_setWidth, BitVec.getLsbD_setWidth, BitVec.getLsbD_and,
    getLsbD_mask hn (by omega)]
  simp [hi]

theorem toNat_and_mask (hn : n < w) : (x &&& mask w n 0).toNat < 2 ^ n := by
  apply Nat.lt_pow_two_of_testBit
  intro i hi
  change (x &&& mask w n 0).getLsbD i = false
  rcases Nat.lt_or_ge i w with hlt | hge
  · rw [BitVec.getLsbD_and, getLsbD_mask hn hlt]
    simp [Nat.not_lt.mpr hi]
  · exact BitVec.getLsbD_of_ge _ _ hge

/-! ## Reading a field -/

theorem toInt_shifted : (v.sshiftRight k).toInt = v.toInt / 2 ^ k := by
  rw [BitVec.toInt_sshiftRight, Int.shiftRight_eq_div_pow]
  norm_cast

theorem toNat_cut (hn : n ≤ w) : ((x.setWidth n).toNat : Int) = x.toInt % 2 ^ n := by
  have hdvd : (2 : Int) ^ n ∣ 2 ^ w := pow_dvd_pow 2 hn
  rw [BitVec.toNat_setWidth, BitVec.toInt_eq_toNat_bmod, Int.bmod_def]
  push_cast
  obtain ⟨c, hc⟩ := hdvd
  split
  · rw [Int.emod_emod_of_dvd _ ⟨c, hc⟩]
  · rw [hc, Int.sub_mul_emod_self_left, ← hc, Int.emod_emod_of_dvd _ ⟨c, hc⟩]

theorem bmod_of_range {q : Int} (hn : 0 < n) (hlow : -2 ^ (n - 1) ≤ q) (hhigh : q < 2 ^ (n - 1)) :
    q.bmod (2 ^ n) = q := by
  have hdouble : ((2 ^ n : Nat) : Int) = 2 * 2 ^ (n - 1) := by
    push_cast
    rw [← Int.pow_succ', Nat.sub_add_cancel hn]
  apply Int.bmod_eq_of_le_mul_two <;> omega

/-- A value of a signed field. -/
theorem signed_iff (hn : 0 < n) (hle : n ≤ w) :
    ((v.sshiftRight k).setWidth n).toInt * 2 ^ k = v.toInt ↔
      (2 : Int) ^ k ∣ v.toInt ∧ -2 ^ (n - 1) * 2 ^ k ≤ v.toInt ∧ v.toInt < 2 ^ (n - 1) * 2 ^ k := by
  have hpos : (0 : Int) < 2 ^ k := by positivity
  have hcut : ((v.sshiftRight k).setWidth n).toInt = (v.toInt / 2 ^ k).bmod (2 ^ n) := by
    rw [← BitVec.signExtend_eq_setWidth_of_le _ hle,
      BitVec.toInt_signExtend_eq_toInt_bmod_of_le _ hle, toInt_shifted]
  constructor
  · intro heq
    have hlow := ((v.sshiftRight k).setWidth n).le_toInt
    have hhigh := @BitVec.toInt_lt _ ((v.sshiftRight k).setWidth n)
    refine ⟨⟨_, by rw [Int.mul_comm]; exact heq.symm⟩, ?_, ?_⟩ <;> rw [← heq]
    · exact Int.mul_le_mul_of_nonneg_right hlow hpos.le
    · exact Int.mul_lt_mul_of_pos_right hhigh hpos
  · rintro ⟨⟨c, hc⟩, hlow, hhigh⟩
    rw [hc, Int.mul_comm] at hlow hhigh
    have hlow' := le_of_mul_le_mul_left hlow hpos
    have hhigh' := lt_of_mul_lt_mul_right hhigh hpos.le
    rw [hcut, hc, Int.mul_ediv_cancel_left _ hpos.ne', bmod_of_range hn hlow' hhigh', Int.mul_comm]

/-- A value of an unsigned field. -/
theorem unsigned_iff (hle : n ≤ w) :
    (((v.sshiftRight k).setWidth n).toNat : Int) * 2 ^ k = v.toInt ↔
      (2 : Int) ^ k ∣ v.toInt ∧ 0 ≤ v.toInt ∧ v.toInt < 2 ^ n * 2 ^ k := by
  have hpos : (0 : Int) < 2 ^ k := by positivity
  rw [toNat_cut hle, toInt_shifted]
  constructor
  · intro heq
    have hlow := Int.emod_nonneg (v.toInt / 2 ^ k) (by positivity : (2 : Int) ^ n ≠ 0)
    have hhigh := Int.emod_lt_of_pos (v.toInt / 2 ^ k) (by positivity : (0 : Int) < 2 ^ n)
    refine ⟨⟨_, by rw [Int.mul_comm]; exact heq.symm⟩, ?_, ?_⟩ <;> rw [← heq]
    · exact Int.mul_nonneg hlow hpos.le
    · exact Int.mul_lt_mul_of_pos_right hhigh hpos
  · rintro ⟨⟨c, hc⟩, hlow, hhigh⟩
    rw [hc] at hlow hhigh
    rw [Int.mul_comm] at hhigh
    have hhigh' := lt_of_mul_lt_mul_right hhigh hpos.le
    have hlow' : 0 ≤ c := Int.nonneg_of_mul_nonneg_right hlow hpos
    rw [hc, Int.mul_ediv_cancel_left _ hpos.ne', Int.emod_eq_of_lt hlow' hhigh', Int.mul_comm]

/-- The low part of a value, for some high part. -/
theorem low_iff (hle : n ≤ w) :
    (∃ high : Int, (high * 2 ^ n + ((v.sshiftRight k).setWidth n).toNat) * 2 ^ k = v.toInt) ↔
      (2 : Int) ^ k ∣ v.toInt := by
  rw [toNat_cut hle, toInt_shifted]
  constructor
  · rintro ⟨high, heq⟩
    exact ⟨_, by rw [Int.mul_comm]; exact heq.symm⟩
  · intro hdvd
    refine ⟨v.toInt / 2 ^ k / 2 ^ n, ?_⟩
    rw [Int.mul_comm _ (2 ^ n), Int.mul_ediv_add_emod, Int.ediv_mul_cancel hdvd]

/-- The high part of a value, for some low part. -/
theorem high_iff (hn : 0 < n) (hle : n ≤ w) (hw : w ≤ n + m + k) :
    (∃ low : Int, (0 ≤ low ∧ low < 2 ^ m) ∧
      (((v.sshiftRight (m + k)).setWidth n).toInt * 2 ^ m + low) * 2 ^ k = v.toInt) ↔
      (2 : Int) ^ k ∣ v.toInt := by
  constructor
  · rintro ⟨low, -, heq⟩
    exact ⟨_, by rw [Int.mul_comm]; exact heq.symm⟩
  · intro hdvd
    have hcut : ((v.sshiftRight (m + k)).setWidth n).toInt = v.toInt / 2 ^ k / 2 ^ m := by
      rw [← BitVec.signExtend_eq_setWidth_of_le _ hle,
        BitVec.toInt_signExtend_eq_toInt_bmod_of_le _ hle, toInt_shifted,
        Int.ediv_ediv_of_nonneg (by positivity), ← Int.pow_add, Nat.add_comm k m]
      have hpow : (2 : Int) ^ (w - 1) ≤ 2 ^ (n - 1) * 2 ^ (m + k) := by
        rw [← Int.pow_add]
        exact pow_le_pow_right₀ (by decide) (by omega)
      have hlow : -2 ^ (n - 1) ≤ v.toInt / 2 ^ (m + k) := by
        apply Int.le_ediv_of_mul_le (by positivity)
        have hle := v.le_toInt
        linarith
      have hhigh : v.toInt / 2 ^ (m + k) < 2 ^ (n - 1) := by
        apply Int.ediv_lt_of_lt_mul (by positivity)
        have hlt := @BitVec.toInt_lt _ v
        linarith
      exact bmod_of_range hn hlow hhigh
    refine ⟨v.toInt / 2 ^ k % 2 ^ m, ⟨?_, ?_⟩, ?_⟩
    · exact Int.emod_nonneg _ (by positivity)
    · exact Int.emod_lt_of_pos _ (by positivity)
    · rw [hcut, Int.mul_comm _ (2 ^ m), Int.mul_ediv_add_emod, Int.ediv_mul_cancel hdvd]

/-! ## Words in a memory of bytes -/

/-- The byte of `x` at the place `j`. -/
def byte (x : BitVec w) (j : Nat) : UInt8 := ⟨x.extractLsb' (8 * j) 8⟩

/-- The lowest `n` bytes of `x`, the least significant one first. -/
def store (memory : Nat → UInt8) (a n : Nat) (x : BitVec w) : Nat → UInt8 := fun b =>
  if a ≤ b ∧ b < a + n then byte x (b - a) else memory b

def word (memory : Nat → UInt8) (a : Nat) : BitVec 32 :=
  (memory (a + 3)).toBitVec ++ (memory (a + 2)).toBitVec ++ (memory (a + 1)).toBitVec ++
    (memory a).toBitVec

variable {memory : Nat → UInt8} {a b : Nat} {y : BitVec 32}

theorem getLsbD_word (hi : i < 32) :
    (word memory a).getLsbD i = (memory (a + i / 8)).toBitVec.getLsbD (i % 8) := by
  simp only [word, BitVec.getLsbD_append]
  rcases Nat.lt_or_ge i 8 with h0 | h0
  · simp [h0, Nat.div_eq_of_lt h0, Nat.mod_eq_of_lt h0]
  rcases Nat.lt_or_ge i 16 with h1 | h1
  · have hdiv : i / 8 = 1 := by omega
    have hmod : i % 8 = i - 8 := by omega
    simp [hdiv, hmod, Nat.not_lt.mpr h0, show i - 8 < 8 by omega]
  rcases Nat.lt_or_ge i 24 with h2 | h2
  · have hdiv : i / 8 = 2 := by omega
    have hmod : i % 8 = i - 8 - 8 := by omega
    simp [hdiv, hmod, Nat.not_lt.mpr h0, show ¬i - 8 < 8 by omega, show i - 8 - 8 < 8 by omega]
  · have hdiv : i / 8 = 3 := by omega
    have hmod : i % 8 = i - 8 - 8 - 8 := by omega
    simp [hdiv, hmod, Nat.not_lt.mpr h0, show ¬i - 8 < 8 by omega, show ¬i - 8 - 8 < 8 by omega]

theorem getLsbD_word_store (hi : i < 32) : (word (store memory a n y) a).getLsbD i =
    if i < 8 * n then y.getLsbD i else (word memory a).getLsbD i := by
  rw [getLsbD_word hi, getLsbD_word hi]
  by_cases hin : i < 8 * n
  · have hbyte : store memory a n y (a + i / 8) = byte y (i / 8) := by
      rw [store, if_pos (by omega), Nat.add_sub_cancel_left]
    rw [if_pos hin, hbyte, byte, BitVec.getLsbD_extractLsb', Nat.div_add_mod]
    simp [Nat.mod_lt]
  · have hbyte : store memory a n y (a + i / 8) = memory (a + i / 8) := by
      rw [store, if_neg (by omega)]
    rw [if_neg hin, hbyte]

@[simp] theorem word_store : word (store memory a 4 y) a = y := by
  apply BitVec.eq_of_getLsbD_eq
  intro i hi
  rw [getLsbD_word_store hi, if_pos hi]

theorem field_word_store (hn : 8 * n ≤ 32) :
    field (8 * n) 0 (word (store memory a n y) a) = y.setWidth (8 * n) := by
  apply BitVec.eq_of_getLsbD_eq
  intro i hi
  rw [field, BitVec.getLsbD_extractLsb', Nat.zero_add, getLsbD_word_store (by omega), if_pos hi,
    BitVec.getLsbD_setWidth]

theorem store_outside (hout : b < a ∨ a + n ≤ b) : store memory a n y b = memory b := by
  rw [store, if_neg (by omega)]

end BitFields
