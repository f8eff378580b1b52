import Shamrock.Lib.Words

/-!
# Saturated multiply and add

`mad_sat` computes in a type twice as wide where there is one. For `long` and `ulong` it tests by
divisions whether the product overflows, and leaves the sum to `add_sat`.
-/
namespace Shamrock.Builtins

open Words

/-- The integer types of the language. -/
inductive ScalarType
  | char
  | uchar
  | short
  | ushort
  | int
  | uint
  | long
  | ulong
  deriving DecidableEq, Repr

namespace ScalarType

def bits : ScalarType → Nat
  | char | uchar => 8
  | short | ushort => 16
  | int | uint => 32
  | long | ulong => 64

def signed : ScalarType → Bool
  | char | short | int | long => true
  | uchar | ushort | uint | ulong => false

def value (t : ScalarType) (x : BitVec t.bits) : Int := if t.signed then x.toInt else x.toNat

/-- The least value of a type. -/
def lowest (t : ScalarType) : Int := if t.signed then -2 ^ (t.bits - 1) else 0

/-- The greatest value of a type. -/
def highest (t : ScalarType) : Int := if t.signed then 2 ^ (t.bits - 1) - 1 else 2 ^ t.bits - 1

end ScalarType

variable {w : Nat} {x y : BitVec w} {a b c : BitVec 64}

/-! ## The functions -/

/-- `add_sat` for a signed type of `w` bits. -/
def addSatSigned (x y : BitVec w) : BitVec w :=
  let min := 1#w <<< (w - 1)
  let max := min - 1#w
  if (x ^^^ y).slt 0#w then x + y
  else if (0#w).sle x then if (max - y).slt x then max else x + y
  else if x.slt (min - y) then min else x + y

/-- `add_sat` for an unsigned type of `w` bits. -/
def addSatUnsigned (x y : BitVec w) : BitVec w :=
  let max := ~~~0#w
  if (max - y).ult x then max else x + y

def addSatLong (x y : BitVec 64) : BitVec 64 := addSatSigned x y

def addSatULong (x y : BitVec 64) : BitVec 64 := addSatUnsigned x y

/-- `mad_sat` for a signed type that has a type twice as wide. -/
def madSatSigned (max min a b c : BitVec w) : BitVec w :=
  let tmp := a.signExtend (2 * w) * b.signExtend (2 * w) + c.signExtend (2 * w)
  if (max.signExtend (2 * w)).slt tmp then max
  else if tmp.slt (min.signExtend (2 * w)) then min
  else tmp.setWidth w

/-- `mad_sat` for an unsigned type that has a type twice as wide. -/
def madSatUnsigned (max a b c : BitVec w) : BitVec w :=
  let tmp := a.setWidth (2 * w) * b.setWidth (2 * w) + c.setWidth (2 * w)
  if (max.setWidth (2 * w)).ult tmp then max else tmp.setWidth w

def charMax : BitVec 8 := 127#8
def charMin : BitVec 8 := -127#8 - 1#8
def ucharMax : BitVec 8 := 255#8
def shrtMax : BitVec 16 := 32767#16
def shrtMin : BitVec 16 := -32767#16 - 1#16
def ushrtMax : BitVec 16 := 65535#16
def intMax : BitVec 32 := 2147483647#32
def intMin : BitVec 32 := -2147483647#32 - 1#32
def uint32Max : BitVec 32 := 0xffffffff#32
def longMax : BitVec 64 := 0x7fffffffffffffff#64
def longMin : BitVec 64 := -0x7fffffffffffffff#64 - 1#64
def ulongMax : BitVec 64 := 0xffffffffffffffff#64

def madSatChar (a b c : BitVec 8) : BitVec 8 := madSatSigned charMax charMin a b c
def madSatUChar (a b c : BitVec 8) : BitVec 8 := madSatUnsigned ucharMax a b c
def madSatShort (a b c : BitVec 16) : BitVec 16 := madSatSigned shrtMax shrtMin a b c
def madSatUShort (a b c : BitVec 16) : BitVec 16 := madSatUnsigned ushrtMax a b c
def madSatInt (a b c : BitVec 32) : BitVec 32 := madSatSigned intMax intMin a b c
def madSatUInt (a b c : BitVec 32) : BitVec 32 := madSatUnsigned uint32Max a b c

/-- A division of `long`; `none` is a division by zero. -/
def divLong (x y : BitVec 64) : Option (BitVec 64) := if y = 0#64 then none else some (x.sdiv y)

/-- A division of `ulong`; `none` is a division by zero. -/
def divULong (x y : BitVec 64) : Option (BitVec 64) := if y = 0#64 then none else some (x / y)

/-- `guard && test(quotient)`: the division is only made if the guard holds. -/
def andTest (guard : Bool) (quotient : Option (BitVec 64)) (test : BitVec 64 → Bool) :
    Option Bool :=
  if guard then quotient.map test else some false

def madSatLong (a b c : BitVec 64) : Option (BitVec 64) := do
  let zero := 0#64
  if ← andTest (zero.slt a && zero.slt b) (divLong longMax b) fun q => q.slt a then
    return longMax
  if ← andTest (zero.slt a && b.slt zero) (divLong longMin a) fun q => b.slt q then
    return longMin
  if ← andTest (a.slt zero && zero.slt b) (divLong longMin b) fun q => a.slt q then
    return longMin
  if ← andTest (a.slt zero && b.slt zero) (divLong longMax a) fun q => b.slt q then
    let tmp := a * b + c
    if tmp = zero then return tmp else return longMax
  return addSatLong (a * b) c

def madSatULong (a b c : BitVec 64) : Option (BitVec 64) := do
  let q ← divULong ulongMax b
  if q.ult a then return ulongMax
  return addSatULong (a * b) c

/-- `mad_sat`; `none` is a division by zero. -/
def madSat : (t : ScalarType) → BitVec t.bits → BitVec t.bits → BitVec t.bits →
    Option (BitVec t.bits)
  | .char, a, b, c => some (madSatChar a b c)
  | .uchar, a, b, c => some (madSatUChar a b c)
  | .short, a, b, c => some (madSatShort a b c)
  | .ushort, a, b, c => some (madSatUShort a b c)
  | .int, a, b, c => some (madSatInt a b c)
  | .uint, a, b, c => some (madSatUInt a b c)
  | .long, a, b, c => madSatLong a b c
  | .ulong, a, b, c => madSatULong a b c

/-- `n` clamped to the range from `low` to `high`. -/
def clamp (low high n : Int) : Int := max low (min n high)

/-- The exact result, clamped to the range of the type. -/
def saturated (t : ScalarType) (a b c : BitVec t.bits) : Int :=
  clamp t.lowest t.highest (t.value a * t.value b + t.value c)

/-! ## Saturated addition -/

theorem clamp_of_fits {n : Int} (h : Fits w n) : clamp (-2 ^ (w - 1)) (2 ^ (w - 1) - 1) n = n := by
  obtain ⟨hlow, hhigh⟩ := h
  unfold clamp
  omega

theorem addSatSigned_eq (hw : 0 < w) : (addSatSigned x y).toInt =
    clamp (-2 ^ (w - 1)) (2 ^ (w - 1) - 1) (x.toInt + y.toInt) := by
  obtain ⟨hx, hx'⟩ := fits_toInt (x := x)
  obtain ⟨hy, hy'⟩ := fits_toInt (x := y)
  have hmin : (1#w <<< (w - 1)).toInt = -2 ^ (w - 1) := by
    rw [← BitVec.twoPow_eq]
    exact BitVec.toInt_intMin_of_pos hw
  have hmax : (1#w <<< (w - 1) - 1#w).toInt = 2 ^ (w - 1) - 1 := by
    rw [← BitVec.twoPow_eq]
    exact BitVec.toInt_intMax
  have hsign : (x ^^^ y).slt 0#w = (decide (x.toInt < 0) ^^ decide (y.toInt < 0)) := by
    rw [BitVec.slt_zero_eq_msb, BitVec.msb_xor, BitVec.msb_eq_toInt, BitVec.msb_eq_toInt]
  have hnonneg : (0#w).sle x = true ↔ 0 ≤ x.toInt := by
    rw [BitVec.sle_iff_toInt_le, BitVec.toInt_zero]
  have hexact (h : Fits w (x.toInt + y.toInt)) : (x + y).toInt =
      clamp (-2 ^ (w - 1)) (2 ^ (w - 1) - 1) (x.toInt + y.toInt) := by
    rw [clamp_of_fits h, toInt_add_of_fits h]
  unfold addSatSigned
  dsimp only
  rcases lt_or_ge x.toInt 0 with hxn | hxn
  · rcases lt_or_ge y.toInt 0 with hyn | hyn
    · have hsub : (1#w <<< (w - 1) - y).toInt = -2 ^ (w - 1) - y.toInt := by
        rw [toInt_sub_of_fits, hmin]
        rw [hmin]
        constructor <;> omega
      rw [hsign, if_neg (by simp [hxn, hyn]), if_neg (by rw [hnonneg]; omega)]
      by_cases hlow : x.toInt < -2 ^ (w - 1) - y.toInt
      · rw [if_pos (by rwa [BitVec.slt_iff_toInt_lt, hsub]), hmin, clamp]
        omega
      · rw [if_neg (by rwa [BitVec.slt_iff_toInt_lt, hsub])]
        exact hexact (by constructor <;> omega)
    · rw [hsign, if_pos (by simp [hxn, hyn])]
      exact hexact (by constructor <;> omega)
  · rcases lt_or_ge y.toInt 0 with hyn | hyn
    · rw [hsign, if_pos (by simp [hxn, hyn])]
      exact hexact (by constructor <;> omega)
    · have hsub : (1#w <<< (w - 1) - 1#w - y).toInt = 2 ^ (w - 1) - 1 - y.toInt := by
        rw [toInt_sub_of_fits, hmax]
        rw [hmax]
        constructor <;> omega
      rw [hsign, if_neg (by simp [not_lt.mpr hxn, not_lt.mpr hyn]), if_pos (hnonneg.mpr hxn)]
      by_cases hhigh : 2 ^ (w - 1) - 1 - y.toInt < x.toInt
      · rw [if_pos (by rwa [BitVec.slt_iff_toInt_lt, hsub]), hmax, clamp]
        omega
      · rw [if_neg (by rwa [BitVec.slt_iff_toInt_lt, hsub])]
        exact hexact (by constructor <;> omega)

theorem addSatUnsigned_eq : ((addSatUnsigned x y).toNat : Int) =
    clamp 0 (2 ^ w - 1) (x.toNat + y.toNat) := by
  have hx := x.isLt
  have hy := y.isLt
  have hcast : ((2 ^ w : Nat) : Int) = 2 ^ w := by norm_cast
  have hmax : (~~~0#w).toNat = 2 ^ w - 1 := by
    rw [BitVec.toNat_not, BitVec.toNat_ofNat, Nat.zero_mod, Nat.sub_zero]
  have hsub : (~~~0#w - y).toNat = 2 ^ w - 1 - y.toNat := by
    rw [BitVec.toNat_sub_of_le (by rw [BitVec.le_def, hmax]; omega), hmax]
  unfold addSatUnsigned clamp
  dsimp only
  by_cases hhigh : 2 ^ w - 1 - y.toNat < x.toNat
  · rw [if_pos (by rwa [BitVec.ult_iff_toNat_lt, hsub]), hmax]
    omega
  · rw [if_neg (by rwa [BitVec.ult_iff_toNat_lt, hsub]), toNat_add_of_lt (by omega)]
    omega

/-! ## In the wider type -/

theorem madSatSigned_eq {max min a b c : BitVec w} (hw : 1 < w)
    (hmax : max.toInt = 2 ^ (w - 1) - 1) (hmin : min.toInt = -2 ^ (w - 1)) :
    (madSatSigned max min a b c).toInt =
      clamp (-2 ^ (w - 1)) (2 ^ (w - 1) - 1) (a.toInt * b.toInt + c.toInt) := by
  obtain ⟨ha, ha'⟩ := fits_toInt (x := a)
  obtain ⟨hb, hb'⟩ := fits_toInt (x := b)
  obtain ⟨hc, hc'⟩ := fits_toInt (x := c)
  have hwide (x : BitVec w) : (x.signExtend (2 * w)).toInt = x.toInt :=
    BitVec.toInt_signExtend_of_le (by omega)
  have hpow : (2 : Int) ^ (2 * w - 1) = 2 * (2 ^ (w - 1) * 2 ^ (w - 1)) := by
    rw [← Int.pow_add, ← Int.pow_succ']
    congr 1
    omega
  have hpos : (2 : Int) ≤ 2 ^ (w - 1) := by
    calc (2 : Int) = 2 ^ 1 := rfl
      _ ≤ 2 ^ (w - 1) := pow_le_pow_right₀ (by decide) (by omega)
  have hprod : Fits (2 * w) (a.toInt * b.toInt) := by
    unfold Fits
    rw [hpow]
    generalize (2 : Int) ^ (w - 1) = M at *
    constructor <;> nlinarith
  have hsum : Fits (2 * w) (a.toInt * b.toInt + c.toInt) := by
    unfold Fits
    rw [hpow]
    generalize (2 : Int) ^ (w - 1) = M at *
    constructor <;> nlinarith
  have hmul : (a.signExtend (2 * w) * b.signExtend (2 * w)).toInt = a.toInt * b.toInt := by
    rw [toInt_mul_of_fits, hwide, hwide]
    rwa [hwide, hwide]
  have htmp : (a.signExtend (2 * w) * b.signExtend (2 * w) + c.signExtend (2 * w)).toInt =
      a.toInt * b.toInt + c.toInt := by
    rw [toInt_add_of_fits, hmul, hwide]
    rwa [hmul, hwide]
  unfold madSatSigned
  dsimp only
  by_cases hhigh : 2 ^ (w - 1) - 1 < a.toInt * b.toInt + c.toInt
  · rw [if_pos (by rwa [BitVec.slt_iff_toInt_lt, hwide, hmax, htmp]), hmax, clamp]
    omega
  rw [if_neg (by rwa [BitVec.slt_iff_toInt_lt, hwide, hmax, htmp])]
  by_cases hlow : a.toInt * b.toInt + c.toInt < -2 ^ (w - 1)
  · rw [if_pos (by rwa [BitVec.slt_iff_toInt_lt, hwide, hmin, htmp]), hmin, clamp]
    omega
  have hfits : Fits w (a.toInt * b.toInt + c.toInt) := ⟨by omega, by omega⟩
  rw [if_neg (by rwa [BitVec.slt_iff_toInt_lt, hwide, hmin, htmp]), clamp_of_fits hfits,
    toInt_setWidth_of_fits ⟨by omega, by omega⟩ (by rwa [htmp]), htmp]

theorem madSatUnsigned_eq {max a b c : BitVec w} (hmax : max.toNat = 2 ^ w - 1) :
    ((madSatUnsigned max a b c).toNat : Int) =
      clamp 0 (2 ^ w - 1) (a.toNat * b.toNat + c.toNat) := by
  have ha := a.isLt
  have hb := b.isLt
  have hc := c.isLt
  have hwide (x : BitVec w) : (x.setWidth (2 * w)).toNat = x.toNat := by
    rw [BitVec.toNat_setWidth, Nat.mod_eq_of_lt]
    exact Nat.lt_of_lt_of_le x.isLt (Nat.pow_le_pow_right (by decide) (by omega))
  have hpow : 2 ^ (2 * w) = 2 ^ w * 2 ^ w := by rw [← Nat.pow_add, Nat.two_mul]
  have hbound : a.toNat * b.toNat + c.toNat < 2 ^ w * 2 ^ w := by
    calc a.toNat * b.toNat + c.toNat < a.toNat * 2 ^ w + 2 ^ w :=
          Nat.add_lt_add_of_le_of_lt (Nat.mul_le_mul_left _ (Nat.le_of_lt hb)) hc
      _ = (a.toNat + 1) * 2 ^ w := (Nat.succ_mul _ _).symm
      _ ≤ 2 ^ w * 2 ^ w := Nat.mul_le_mul_right _ ha
  have hmul : (a.setWidth (2 * w) * b.setWidth (2 * w)).toNat = a.toNat * b.toNat := by
    rw [toNat_mul_of_lt, hwide, hwide]
    rw [hwide, hwide, hpow]
    omega
  have htmp : (a.setWidth (2 * w) * b.setWidth (2 * w) + c.setWidth (2 * w)).toNat =
      a.toNat * b.toNat + c.toNat := by
    rw [toNat_add_of_lt, hmul, hwide]
    rw [hmul, hwide, hpow]
    exact hbound
  have hcast : ((2 ^ w : Nat) : Int) = 2 ^ w := by norm_cast
  have hexact : ((a.toNat * b.toNat : Nat) : Int) = a.toNat * b.toNat := Nat.cast_mul _ _
  unfold madSatUnsigned clamp
  dsimp only
  by_cases hhigh : 2 ^ w - 1 < a.toNat * b.toNat + c.toNat
  · rw [if_pos (by rwa [BitVec.ult_iff_toNat_lt, hwide, hmax, htmp]), hmax]
    omega
  · rw [if_neg (by rwa [BitVec.ult_iff_toNat_lt, hwide, hmax, htmp]), BitVec.toNat_setWidth, htmp,
      Nat.mod_eq_of_lt (by omega)]
    omega

/-! ## The tests by division -/

/-- A quotient of a number that is not negative is exceeded exactly by what makes the product
exceed it. -/
theorem tdiv_lt_iff {m p q : Int} (hm : 0 ≤ m) (hq : 0 < q) : m.tdiv q < p ↔ m < p * q := by
  rw [Int.tdiv_eq_ediv_of_nonneg hm, Int.ediv_lt_iff_lt_mul hq]

theorem lt_neg_tdiv_iff {m p q : Int} (hm : 0 ≤ m) (hq : 0 < q) :
    p < (-m).tdiv q ↔ p * q < -m := by
  have h := tdiv_lt_iff (p := -p) hm hq
  rw [Int.neg_mul] at h
  rw [Int.neg_tdiv]
  omega

theorem lt_tdiv_neg_iff {m p q : Int} (hm : 0 ≤ m) (hq : q < 0) :
    p < m.tdiv q ↔ m < p * q := by
  have h := tdiv_lt_iff (p := -p) (q := -q) hm (by omega)
  rw [Int.neg_mul_neg, Int.tdiv_neg] at h
  omega

theorem toInt_longMax : longMax.toInt = 2 ^ 63 - 1 := by decide

theorem toInt_longMin : longMin.toInt = -2 ^ 63 := by decide

theorem slt_zero_iff : a.slt 0#64 = true ↔ a.toInt < 0 := by
  rw [BitVec.slt_iff_toInt_lt, BitVec.toInt_zero]

theorem zero_slt_iff : (0#64).slt a = true ↔ 0 < a.toInt := by
  rw [BitVec.slt_iff_toInt_lt, BitVec.toInt_zero]

theorem ne_zero_of_toInt (h : b.toInt ≠ 0) : b ≠ 0#64 := by
  intro hb
  rw [hb, BitVec.toInt_zero] at h
  exact h rfl

/-- A guarded test that divides by something else than zero. -/
theorem andTest_eq {guard : Bool} {m q : BitVec 64} {test : BitVec 64 → Bool} {P : Prop}
    [Decidable P] (hq : guard = true → q ≠ 0#64)
    (htest : guard = true → (test (m.sdiv q) = true ↔ P)) :
    andTest guard (divLong m q) test = some (guard && decide P) := by
  unfold andTest divLong
  cases guard with
  | false => rfl
  | true =>
    rw [if_pos rfl, if_neg (hq rfl), Option.map_some, Bool.true_and, Option.some_inj,
      Bool.eq_iff_iff, htest rfl, decide_eq_true_iff]

/-- Both factors are positive and the product is too large. -/
theorem both_positive : andTest ((0#64).slt a && (0#64).slt b) (divLong longMax b)
    (fun q => q.slt a) =
      some (((0#64).slt a && (0#64).slt b) && decide (2 ^ 63 - 1 < a.toInt * b.toInt)) := by
  refine andTest_eq (fun h => ?_) fun h => ?_
  all_goals rw [Bool.and_eq_true, zero_slt_iff, zero_slt_iff] at h
  · exact ne_zero_of_toInt (by omega)
  · rw [BitVec.slt_iff_toInt_lt, BitVec.toInt_sdiv_of_ne_or_ne _ _ (Or.inl (by decide)),
      toInt_longMax]
    exact tdiv_lt_iff (by decide) h.2

/-- The factors have different signs and the product is too small. -/
theorem positive_negative : andTest ((0#64).slt a && b.slt 0#64) (divLong longMin a)
    (fun q => b.slt q) =
      some (((0#64).slt a && b.slt 0#64) && decide (a.toInt * b.toInt < -2 ^ 63)) := by
  refine andTest_eq (fun h => ?_) fun h => ?_
  all_goals rw [Bool.and_eq_true, zero_slt_iff, slt_zero_iff] at h
  · exact ne_zero_of_toInt (by omega)
  · have hne : a ≠ -1#64 := by
      rintro rfl
      exact absurd h.1 (by decide)
    rw [BitVec.slt_iff_toInt_lt, BitVec.toInt_sdiv_of_ne_or_ne _ _ (Or.inr hne), toInt_longMin,
      Int.mul_comm]
    exact lt_neg_tdiv_iff (by decide) h.1

theorem negative_positive : andTest (a.slt 0#64 && (0#64).slt b) (divLong longMin b)
    (fun q => a.slt q) =
      some ((a.slt 0#64 && (0#64).slt b) && decide (a.toInt * b.toInt < -2 ^ 63)) := by
  refine andTest_eq (fun h => ?_) fun h => ?_
  all_goals rw [Bool.and_eq_true, slt_zero_iff, zero_slt_iff] at h
  · exact ne_zero_of_toInt (by omega)
  · have hne : b ≠ -1#64 := by
      rintro rfl
      exact absurd h.2 (by decide)
    rw [BitVec.slt_iff_toInt_lt, BitVec.toInt_sdiv_of_ne_or_ne _ _ (Or.inr hne), toInt_longMin]
    exact lt_neg_tdiv_iff (by decide) h.2

/-- Both factors are negative and the product is too large. -/
theorem both_negative : andTest (a.slt 0#64 && b.slt 0#64) (divLong longMax a)
    (fun q => b.slt q) =
      some ((a.slt 0#64 && b.slt 0#64) && decide (2 ^ 63 - 1 < a.toInt * b.toInt)) := by
  refine andTest_eq (fun h => ?_) fun h => ?_
  all_goals rw [Bool.and_eq_true, slt_zero_iff, slt_zero_iff] at h
  · exact ne_zero_of_toInt (by omega)
  · rw [BitVec.slt_iff_toInt_lt, BitVec.toInt_sdiv_of_ne_or_ne _ _ (Or.inl (by decide)),
      toInt_longMax, Int.mul_comm]
    exact lt_tdiv_neg_iff (by decide) h.1

/-! ## `long` -/

theorem madSatLong_of_fits (h : Fits 64 (a.toInt * b.toInt)) :
    madSatLong a b c = some (addSatLong (a * b) c) := by
  have hhigh : decide (2 ^ 63 - 1 < a.toInt * b.toInt) = false := decide_eq_false (by
    have hlt := h.2
    omega)
  have hlow : decide (a.toInt * b.toInt < -2 ^ 63) = false := decide_eq_false (by
    have hle := h.1
    omega)
  simp only [madSatLong, both_positive, positive_negative, negative_positive, both_negative, hhigh,
    hlow, Bool.and_false]
  rfl

theorem madSatLong_low (h : a.toInt * b.toInt < -2 ^ 63) : madSatLong a b c = some longMin := by
  have hhigh : decide (2 ^ 63 - 1 < a.toInt * b.toInt) = false := decide_eq_false (by omega)
  simp only [madSatLong, both_positive, positive_negative, negative_positive, hhigh, Bool.and_false,
    decide_eq_true h, Bool.and_true]
  rcases mul_neg_iff.mp (by omega : a.toInt * b.toInt < 0) with ⟨ha, hb⟩ | ⟨ha, hb⟩
  · rw [zero_slt_iff.mpr ha, slt_zero_iff.mpr hb]
    rfl
  · rw [slt_zero_iff.mpr ha, zero_slt_iff.mpr hb]
    cases (0#64).slt a && b.slt 0#64 <;> rfl

theorem madSatLong_positive (h : 2 ^ 63 - 1 < a.toInt * b.toInt) (ha : 0 < a.toInt)
    (hb : 0 < b.toInt) : madSatLong a b c = some longMax := by
  simp only [madSatLong, both_positive]
  rw [decide_eq_true h, zero_slt_iff.mpr ha, zero_slt_iff.mpr hb]
  rfl

theorem madSatLong_negative (h : 2 ^ 63 - 1 < a.toInt * b.toInt) (ha : a.toInt < 0)
    (hb : b.toInt < 0) :
    madSatLong a b c = some (if a * b + c = 0#64 then a * b + c else longMax) := by
  have hlow : decide (a.toInt * b.toInt < -2 ^ 63) = false := decide_eq_false (by omega)
  have hapos : (0#64).slt a = false := by
    rw [Bool.eq_false_iff, Ne, zero_slt_iff]
    omega
  simp only [madSatLong, both_positive, positive_negative, negative_positive, both_negative]
  rw [hlow, hapos, decide_eq_true h, slt_zero_iff.mpr ha, slt_zero_iff.mpr hb, Bool.and_false,
    Bool.and_false]
  by_cases hzero : a * b + c = 0#64
  · rw [if_pos hzero, if_pos hzero]
    rfl
  · rw [if_neg hzero, if_neg hzero]
    rfl

theorem eq_zero_iff_dvd :
    a * b + c = 0#64 ↔ (2 ^ 64 : Int) ∣ a.toInt * b.toInt + c.toInt := by
  have hwrap : (a * b + c).toInt = (a.toInt * b.toInt + c.toInt).bmod (2 ^ 64) := by
    rw [BitVec.toInt_add, BitVec.toInt_mul, Int.bmod_add_bmod]
  have hdvd : (2 ^ 64 : Int) ∣ a.toInt * b.toInt + c.toInt ↔
      (a.toInt * b.toInt + c.toInt).bmod (2 ^ 64) = 0 := Int.dvd_iff_bmod_eq_zero
  rw [hdvd, ← hwrap, ← BitVec.toInt_zero (w := 64), BitVec.toInt_inj]

/-- When `mad_sat` is exact for `long`: the product fits, or the sum stays beyond the end of the
range that the product has passed. For two negative factors a sum that is a multiple of 2 ^ 64 is
taken for zero. -/
def LongExact (a b c : Int) : Prop :=
  Fits 64 (a * b) ∨ (a * b < -2 ^ 63 ∧ a * b + c ≤ -2 ^ 63) ∨
    (2 ^ 63 - 1 < a * b ∧
      if a < 0 ∧ (2 ^ 64 : Int) ∣ a * b + c then a * b + c = 0 else 2 ^ 63 - 1 ≤ a * b + c)

theorem toInt_addSatLong (h : Fits 64 (a.toInt * b.toInt)) : (addSatLong (a * b) c).toInt =
    clamp (-2 ^ 63) (2 ^ 63 - 1) (a.toInt * b.toInt + c.toInt) := by
  have hsum : (addSatSigned (a * b) c).toInt =
      clamp (-2 ^ 63) (2 ^ 63 - 1) ((a * b).toInt + c.toInt) := addSatSigned_eq (by decide)
  rw [toInt_mul_of_fits h] at hsum
  exact hsum

/-- The product is too large. -/
theorem long_exact_high (h : 2 ^ 63 - 1 < a.toInt * b.toInt) :
    (∃ r, madSatLong a b c = some r ∧
      r.toInt = clamp (-2 ^ 63) (2 ^ 63 - 1) (a.toInt * b.toInt + c.toInt)) ↔
    if a.toInt < 0 ∧ (2 ^ 64 : Int) ∣ a.toInt * b.toInt + c.toInt
    then a.toInt * b.toInt + c.toInt = 0 else 2 ^ 63 - 1 ≤ a.toInt * b.toInt + c.toInt := by
  have hc := (fits_toInt (x := c)).1
  rcases mul_pos_iff.mp (by omega : 0 < a.toInt * b.toInt) with ⟨ha, hb⟩ | ⟨ha, hb⟩
  · rw [madSatLong_positive h ha hb, if_neg (by omega)]
    simp only [Option.some_inj, exists_eq_left', toInt_longMax, clamp]
    omega
  · rw [madSatLong_negative h ha hb]
    simp only [Option.some_inj, exists_eq_left', clamp]
    by_cases hdvd : (2 ^ 64 : Int) ∣ a.toInt * b.toInt + c.toInt
    · have hzero := eq_zero_iff_dvd.mpr hdvd
      rw [if_pos hzero, if_pos ⟨ha, hdvd⟩, hzero, BitVec.toInt_zero]
      omega
    · rw [if_neg (mt eq_zero_iff_dvd.mp hdvd), if_neg (fun hand => hdvd hand.2), toInt_longMax]
      omega

theorem long_exact_iff : (∃ r, madSatLong a b c = some r ∧
      r.toInt = clamp (-2 ^ 63) (2 ^ 63 - 1) (a.toInt * b.toInt + c.toInt)) ↔
    LongExact a.toInt b.toInt c.toInt := by
  by_cases hfits : Fits 64 (a.toInt * b.toInt)
  · rw [madSatLong_of_fits hfits]
    exact iff_of_true ⟨_, rfl, toInt_addSatLong hfits⟩ (Or.inl hfits)
  rcases lt_or_ge (a.toInt * b.toInt) (-2 ^ 63) with hlow | hge
  · have hc := (fits_toInt (x := c)).2
    rw [madSatLong_low hlow]
    simp only [Option.some_inj, exists_eq_left', toInt_longMin, clamp, LongExact, hfits, hlow,
      true_and, false_or]
    omega
  · have hhigh : 2 ^ 63 - 1 < a.toInt * b.toInt := by
      by_contra hle
      exact hfits ⟨hge, by omega⟩
    rw [long_exact_high hhigh]
    simp only [LongExact, hfits, hhigh, not_lt.mpr hge, true_and, false_and, false_or]

/-! ## `ulong` -/

theorem madSatULong_eq (hb : b ≠ 0#64) : ∃ r, madSatULong a b c = some r ∧
    (r.toNat : Int) = clamp 0 (2 ^ 64 - 1) (a.toNat * b.toNat + c.toNat) := by
  have hc := c.isLt
  have hpos : 0 < b.toNat := by
    rcases Nat.eq_zero_or_pos b.toNat with hzero | hpos
    · exact absurd (BitVec.eq_of_toNat_eq hzero) hb
    · exact hpos
  have hmax : ulongMax.toNat = 2 ^ 64 - 1 := rfl
  have htest : (ulongMax / b).ult a = true ↔ 2 ^ 64 - 1 < a.toNat * b.toNat := by
    rw [BitVec.ult_iff_toNat_lt, BitVec.toNat_udiv, hmax, Nat.div_lt_iff_lt_mul hpos]
  have hexact : ((a.toNat * b.toNat : Nat) : Int) = a.toNat * b.toNat := Nat.cast_mul _ _
  have hdiv : divULong ulongMax b = some (ulongMax / b) := if_neg hb
  unfold madSatULong
  rw [hdiv, Option.bind_eq_bind, Option.bind_some]
  by_cases hlarge : 2 ^ 64 - 1 < a.toNat * b.toNat
  · rw [if_pos (htest.mpr hlarge)]
    refine ⟨ulongMax, rfl, ?_⟩
    rw [hmax, clamp]
    omega
  · rw [if_neg (mt htest.mp hlarge)]
    refine ⟨addSatULong (a * b) c, rfl, ?_⟩
    have hmul : (a * b).toNat = a.toNat * b.toNat := toNat_mul_of_lt (by omega)
    have hsum : ((addSatUnsigned (a * b) c).toNat : Int) =
        clamp 0 (2 ^ 64 - 1) ((a * b).toNat + c.toNat) := addSatUnsigned_eq
    rw [hmul, hexact] at hsum
    exact hsum

/-! ## All types -/

/-- What is asked of the operands for `mad_sat` to be exact. -/
def MadSatExact : (t : ScalarType) → (a b c : BitVec t.bits) → Prop
  | .long, a, b, c => LongExact a.toInt b.toInt c.toInt
  | .ulong, _, b, _ => b ≠ 0#64
  | _, _, _, _ => True

theorem mad_sat_exact_iff (t : ScalarType) (a b c : BitVec t.bits) :
    (∃ r, madSat t a b c = some r ∧ t.value r = saturated t a b c) ↔ MadSatExact t a b c := by
  cases t with
  | char => exact iff_true_intro ⟨_, rfl, madSatSigned_eq (by decide) (by decide) (by decide)⟩
  | short => exact iff_true_intro ⟨_, rfl, madSatSigned_eq (by decide) (by decide) (by decide)⟩
  | int => exact iff_true_intro ⟨_, rfl, madSatSigned_eq (by decide) (by decide) (by decide)⟩
  | uchar => exact iff_true_intro ⟨_, rfl, madSatUnsigned_eq (by decide)⟩
  | ushort => exact iff_true_intro ⟨_, rfl, madSatUnsigned_eq (by decide)⟩
  | uint => exact iff_true_intro ⟨_, rfl, madSatUnsigned_eq (by decide)⟩
  | long => exact long_exact_iff
  | ulong =>
    constructor
    · rintro ⟨r, hr, -⟩ (hzero : b = 0#64)
      rw [hzero] at hr
      cases hr
    · exact madSatULong_eq

/-- `mad_sat((ulong)1, (ulong)0, (ulong)5)` -/
theorem zero_factor_divides_by_zero : ¬∀ (t : ScalarType) (a b c : BitVec t.bits),
    ∃ r, madSat t a b c = some r ∧ t.value r = saturated t a b c := by
  intro h
  obtain ⟨r, hr, -⟩ := h .ulong 1#64 0#64 5#64
  cases hr

end Shamrock.Builtins
