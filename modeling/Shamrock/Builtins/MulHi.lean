import Shamrock.Lib.Words

/-!
# The high part of a 64-bit product

`mul_hi` for `long` and `ulong`, which have no wider type: the product is put together from the
products of the halves, and a halving addition replaces a sum of 65 bits.
-/
namespace Shamrock.Builtins

open Words

variable {w : Nat} {x y : BitVec w}

/-- `hadd` for a signed type of `w` bits. -/
def haddSigned (x y : BitVec w) : BitVec w :=
  x.sshiftRight 1 + y.sshiftRight 1 + (x &&& y &&& 1#w)

/-- `hadd` for an unsigned type of `w` bits. -/
def haddUnsigned (x y : BitVec w) : BitVec w := x >>> 1 + y >>> 1 + (x &&& y &&& 1#w)

def haddLong (x y : BitVec 64) : BitVec 64 := haddSigned x y

def haddULong (x y : BitVec 64) : BitVec 64 := haddUnsigned x y

def uintMax : BitVec 64 := 0xffffffff#64

/-- `mul_hi(long, long)` -/
def mulHiLong (x y : BitVec 64) : BitVec 64 :=
  let xHi := x.sshiftRight 32
  let xLo := x &&& uintMax
  let yHi := y.sshiftRight 32
  let yLo := y &&& uintMax
  let f := xHi * yHi
  let o := xHi * yLo
  let i := xLo * yHi
  let l := xLo * yLo
  f + (haddLong o (i + l >>> 32)).sshiftRight 31

/-- `mul_hi(ulong, ulong)` -/
def mulHiULong (x y : BitVec 64) : BitVec 64 :=
  let xHi := x >>> 32
  let xLo := x &&& uintMax
  let yHi := y >>> 32
  let yLo := y &&& uintMax
  let f := xHi * yHi
  let o := xHi * yLo
  let i := xLo * yHi
  let l := xLo * yLo
  f + haddULong o (i + l >>> 32) >>> 31

/-! ## The halving addition -/

theorem toInt_sshiftRight_one : (x.sshiftRight 1).toInt = x.toInt / 2 := by
  rw [BitVec.toInt_sshiftRight, Int.shiftRight_eq_div_pow]
  rfl

theorem toInt_emod_two (hw : 0 < w) : x.toInt % 2 = (x.toNat % 2 : Nat) := by
  obtain ⟨n, rfl⟩ : ∃ n, w = n + 1 := ⟨w - 1, by omega⟩
  rw [BitVec.toInt_eq_toNat_cond]
  have hpow : (2 : Nat) ^ (n + 1) = 2 * 2 ^ n := Nat.pow_succ'
  split <;> omega

theorem toInt_and_and_one (hw : 1 < w) : (x &&& y &&& 1#w).toInt = x.toInt % 2 * (y.toInt % 2) := by
  have hnat := toNat_and_and_one (x := x) (y := y) (by omega : 0 < w)
  have hle : x.toNat % 2 * (y.toNat % 2) ≤ 1 := by
    have hx : x.toNat % 2 ≤ 1 := by omega
    have hy : y.toNat % 2 ≤ 1 := by omega
    exact Nat.mul_le_mul hx hy
  have hpow : 2 ^ 2 ≤ 2 ^ w := Nat.pow_le_pow_right (by decide) hw
  rw [toInt_emod_two (by omega), toInt_emod_two (by omega),
    BitVec.toInt_eq_toNat_of_lt (by omega), hnat, Nat.cast_mul]

/-- `hadd` is the floor of the half of the sum, and none of its sums overflows. -/
theorem haddSigned_eq (hw : 1 < w) : Fits w ((x.sshiftRight 1).toInt + (y.sshiftRight 1).toInt) ∧
    (haddSigned x y).toInt = (x.toInt + y.toInt) / 2 := by
  obtain ⟨hx, hx'⟩ := fits_toInt (x := x)
  obtain ⟨hy, hy'⟩ := fits_toInt (x := y)
  have heven : (2 : Int) ^ (w - 1) = 2 * 2 ^ (w - 2) := by
    rw [← Int.pow_succ']
    congr 1
    omega
  have hbit : x.toInt % 2 * (y.toInt % 2) = 0 ∧ (x.toInt % 2 = 0 ∨ y.toInt % 2 = 0) ∨
      x.toInt % 2 * (y.toInt % 2) = 1 ∧ x.toInt % 2 = 1 ∧ y.toInt % 2 = 1 := by
    rcases Int.emod_two_eq_zero_or_one x.toInt with hx | hx <;>
      rcases Int.emod_two_eq_zero_or_one y.toInt with hy | hy <;> rw [hx, hy] <;> decide
  have hhalves : Fits w ((x.sshiftRight 1).toInt + (y.sshiftRight 1).toInt) := by
    rw [toInt_sshiftRight_one, toInt_sshiftRight_one]
    constructor <;> omega
  have hsum := toInt_add_of_fits hhalves
  refine ⟨hhalves, ?_⟩
  unfold haddSigned
  rw [toInt_add_of_fits, hsum, toInt_and_and_one hw, toInt_sshiftRight_one, toInt_sshiftRight_one]
  · omega
  · rw [hsum, toInt_and_and_one hw, toInt_sshiftRight_one, toInt_sshiftRight_one]
    constructor <;> omega

theorem haddUnsigned_eq (hw : 0 < w) : (x >>> 1).toNat + (y >>> 1).toNat < 2 ^ w ∧
    (haddUnsigned x y).toNat = (x.toNat + y.toNat) / 2 := by
  have hx := x.isLt
  have hy := y.isLt
  have hx2 : (x >>> 1).toNat = x.toNat / 2 := BitVec.toNat_ushiftRight x 1
  have hy2 : (y >>> 1).toNat = y.toNat / 2 := BitVec.toNat_ushiftRight y 1
  have hbit : x.toNat % 2 * (y.toNat % 2) = 0 ∧ (x.toNat % 2 = 0 ∨ y.toNat % 2 = 0) ∨
      x.toNat % 2 * (y.toNat % 2) = 1 ∧ x.toNat % 2 = 1 ∧ y.toNat % 2 = 1 := by
    rcases Nat.mod_two_eq_zero_or_one x.toNat with hx | hx <;>
      rcases Nat.mod_two_eq_zero_or_one y.toNat with hy | hy <;> rw [hx, hy] <;> decide
  have hhalves : (x >>> 1).toNat + (y >>> 1).toNat < 2 ^ w := by omega
  have hsum := toNat_add_of_lt hhalves
  refine ⟨hhalves, ?_⟩
  unfold haddUnsigned
  rw [toNat_add_of_lt, hsum, toNat_and_and_one hw, hx2, hy2]
  · omega
  · rw [hsum, toNat_and_and_one hw, hx2, hy2]
    omega

/-! ## The products -/

theorem toNat_and_uintMax (x : BitVec 64) : (x &&& uintMax).toNat = x.toNat % 2 ^ 32 := by
  rw [BitVec.toNat_and]
  exact Nat.and_two_pow_sub_one_eq_mod x.toNat 32

theorem toInt_and_uintMax (x : BitVec 64) : (x &&& uintMax).toInt = x.toInt % 2 ^ 32 := by
  have hlow := toNat_and_uintMax x
  rw [BitVec.toInt_eq_toNat_of_lt (by omega), hlow, BitVec.toInt_eq_toNat_cond]
  split <;> omega

theorem toInt_sshiftRight_32 (x : BitVec 64) : (x.sshiftRight 32).toInt = x.toInt / 2 ^ 32 := by
  rw [BitVec.toInt_sshiftRight, Int.shiftRight_eq_div_pow]
  rfl

/-- The product of the low halves is not negative when it is shifted. -/
theorem toInt_low_product {p q : BitVec 64} (hp : p.toNat < 2 ^ 32) (hq : q.toNat < 2 ^ 32) :
    ((p * q) >>> 32).toInt = p.toInt * q.toInt / 2 ^ 32 := by
  have hprod : (p * q).toNat = p.toNat * q.toNat :=
    toNat_mul_of_lt (Nat.lt_of_lt_of_le (Nat.mul_lt_mul'' hp hq) (by decide))
  have hshift : ((p * q) >>> 32).toNat = p.toNat * q.toNat / 2 ^ 32 := by
    rw [BitVec.toNat_ushiftRight, hprod, Nat.shiftRight_eq_div_pow]
  have hlt : p.toNat * q.toNat / 2 ^ 32 < 2 ^ 32 :=
    Nat.div_lt_of_lt_mul (Nat.mul_lt_mul'' hp hq)
  rw [BitVec.toInt_eq_toNat_of_lt (by omega), hshift, BitVec.toInt_eq_toNat_of_lt (by omega),
    BitVec.toInt_eq_toNat_of_lt (by omega)]
  norm_cast

theorem toInt_haddLong_sshiftRight {o t : BitVec 64} :
    ((haddLong o t).sshiftRight 31).toInt = (o.toInt + t.toInt) / 2 ^ 32 := by
  have hhadd : (haddLong o t).toInt = (o.toInt + t.toInt) / 2 := (haddSigned_eq (by decide)).2
  rw [BitVec.toInt_sshiftRight, hhadd, Int.shiftRight_eq_div_pow]
  omega

theorem mulHiLong_eq (x y : BitVec 64) :
    (mulHiLong x y).toInt = x.toInt * y.toInt / 2 ^ 64 := by
  obtain ⟨hx, hx'⟩ := fits_toInt (x := x)
  obtain ⟨hy, hy'⟩ := fits_toInt (x := y)
  have hexact := mul_ediv_halves x.toInt y.toInt (by decide : (0 : Int) < 2 ^ 32)
  -- the halves
  have hxLo := toInt_and_uintMax x
  have hyLo := toInt_and_uintMax y
  have hxHi := toInt_sshiftRight_32 x
  have hyHi := toInt_sshiftRight_32 y
  have hb : 0 ≤ x.toInt % 2 ^ 32 ∧ x.toInt % 2 ^ 32 < 2 ^ 32 := by omega
  have hd : 0 ≤ y.toInt % 2 ^ 32 ∧ y.toInt % 2 ^ 32 < 2 ^ 32 := by omega
  have ha : -2 ^ 31 ≤ x.toInt / 2 ^ 32 ∧ x.toInt / 2 ^ 32 < 2 ^ 31 := by omega
  have hc : -2 ^ 31 ≤ y.toInt / 2 ^ 32 ∧ y.toInt / 2 ^ 32 < 2 ^ 31 := by omega
  have hl : (((x &&& uintMax) * (y &&& uintMax)) >>> 32).toInt =
      x.toInt % 2 ^ 32 * (y.toInt % 2 ^ 32) / 2 ^ 32 := by
    have hxlt := toNat_and_uintMax x
    have hylt := toNat_and_uintMax y
    rw [toInt_low_product (by omega) (by omega), hxLo, hyLo]
  generalize x.toInt / 2 ^ 32 = a at *
  generalize y.toInt / 2 ^ 32 = c at *
  generalize x.toInt % 2 ^ 32 = b at *
  generalize y.toInt % 2 ^ 32 = d at *
  -- none of the partial products and sums overflows
  have hfits_f : -2 ^ 62 ≤ a * c ∧ a * c ≤ 2 ^ 62 := by
    rcases le_total 0 a with ha0 | ha0
    · have hbound := mul_bounds ha0 ⟨hc.1, Int.le_of_lt hc.2⟩
      omega
    · have hbound := mul_bounds (Int.neg_nonneg_of_nonpos ha0) ⟨hc.1, Int.le_of_lt hc.2⟩
      rw [Int.neg_mul, Int.neg_mul, Int.neg_mul] at hbound
      omega
  have hfits_o : -2 ^ 63 ≤ a * d ∧ a * d < 2 ^ 63 := by
    have hbound := mul_bounds hd.1 ⟨ha.1, Int.le_of_lt ha.2⟩
    rw [Int.mul_comm d a] at hbound
    omega
  have hfits_i : -2 ^ 63 ≤ b * c ∧ b * c ≤ 2 ^ 63 - 2 ^ 32 := by
    have hbound := mul_bounds hb.1 ⟨hc.1, Int.le_sub_one_of_lt hc.2⟩
    omega
  have hfits_l : 0 ≤ b * d / 2 ^ 32 ∧ b * d / 2 ^ 32 < 2 ^ 32 := by
    have hbound := mul_bounds hb.1 ⟨hd.1, Int.le_of_lt hd.2⟩
    omega
  have hf : (x.sshiftRight 32 * y.sshiftRight 32).toInt = a * c := by
    rw [toInt_mul_of_fits, hxHi, hyHi]
    rw [hxHi, hyHi]
    constructor <;> omega
  have ho : (x.sshiftRight 32 * (y &&& uintMax)).toInt = a * d := by
    rw [toInt_mul_of_fits, hxHi, hyLo]
    rw [hxHi, hyLo]
    exact hfits_o
  have hi : ((x &&& uintMax) * y.sshiftRight 32).toInt = b * c := by
    rw [toInt_mul_of_fits, hxLo, hyHi]
    rw [hxLo, hyHi]
    constructor <;> omega
  have ht : ((x &&& uintMax) * y.sshiftRight 32 +
      ((x &&& uintMax) * (y &&& uintMax)) >>> 32).toInt = b * c + b * d / 2 ^ 32 := by
    rw [toInt_add_of_fits, hi, hl]
    rw [hi, hl]
    constructor <;> omega
  unfold mulHiLong
  dsimp only
  rw [toInt_add_of_fits, hf, toInt_haddLong_sshiftRight, ho, ht]
  · exact hexact.symm
  · rw [hf, toInt_haddLong_sshiftRight, ho, ht]
    constructor <;> omega

theorem toNat_ushiftRight_32 (x : BitVec 64) : (x >>> 32).toNat = x.toNat / 2 ^ 32 := by
  rw [BitVec.toNat_ushiftRight, Nat.shiftRight_eq_div_pow]

theorem toNat_haddULong_ushiftRight {o t : BitVec 64} :
    (haddULong o t >>> 31).toNat = (o.toNat + t.toNat) / 2 ^ 32 := by
  have hhadd : (haddULong o t).toNat = (o.toNat + t.toNat) / 2 := (haddUnsigned_eq (by decide)).2
  rw [BitVec.toNat_ushiftRight, hhadd, Nat.shiftRight_eq_div_pow]
  omega

theorem mul_le_of_lt {p q : Nat} (hp : p < 2 ^ 32) (hq : q < 2 ^ 32) :
    p * q ≤ (2 ^ 32 - 1) * (2 ^ 32 - 1) :=
  Nat.mul_le_mul (by omega) (by omega)

theorem mulHiULong_eq (x y : BitVec 64) :
    (mulHiULong x y).toNat = x.toNat * y.toNat / 2 ^ 64 := by
  have hx := x.isLt
  have hy := y.isLt
  have hexact : x.toNat * y.toNat / (2 ^ 32 * 2 ^ 32) =
      x.toNat / 2 ^ 32 * (y.toNat / 2 ^ 32) + (x.toNat / 2 ^ 32 * (y.toNat % 2 ^ 32) +
        (x.toNat % 2 ^ 32 * (y.toNat / 2 ^ 32) +
          x.toNat % 2 ^ 32 * (y.toNat % 2 ^ 32) / 2 ^ 32)) / 2 ^ 32 := by
    have hint := mul_ediv_halves (x.toNat : Int) y.toNat (by decide : (0 : Int) < 2 ^ 32)
    exact_mod_cast hint
  have hxLo := toNat_and_uintMax x
  have hyLo := toNat_and_uintMax y
  have hxHi := toNat_ushiftRight_32 x
  have hyHi := toNat_ushiftRight_32 y
  have ha : x.toNat / 2 ^ 32 < 2 ^ 32 := by omega
  have hc : y.toNat / 2 ^ 32 < 2 ^ 32 := by omega
  have hb : x.toNat % 2 ^ 32 < 2 ^ 32 := by omega
  have hd : y.toNat % 2 ^ 32 < 2 ^ 32 := by omega
  have hhigh : x.toNat * y.toNat / (2 ^ 32 * 2 ^ 32) < 2 ^ 64 :=
    Nat.div_lt_of_lt_mul (Nat.mul_lt_mul'' hx hy)
  generalize x.toNat / 2 ^ 32 = a at *
  generalize y.toNat / 2 ^ 32 = c at *
  generalize x.toNat % 2 ^ 32 = b at *
  generalize y.toNat % 2 ^ 32 = d at *
  have hfits_f := mul_le_of_lt ha hc
  have hfits_o := mul_le_of_lt ha hd
  have hfits_i := mul_le_of_lt hb hc
  have hfits_l := mul_le_of_lt hb hd
  have hf : (x >>> 32 * y >>> 32).toNat = a * c := by
    rw [toNat_mul_of_lt, hxHi, hyHi]
    rw [hxHi, hyHi]
    omega
  have ho : (x >>> 32 * (y &&& uintMax)).toNat = a * d := by
    rw [toNat_mul_of_lt, hxHi, hyLo]
    rw [hxHi, hyLo]
    omega
  have hi : ((x &&& uintMax) * y >>> 32).toNat = b * c := by
    rw [toNat_mul_of_lt, hxLo, hyHi]
    rw [hxLo, hyHi]
    omega
  have hl : (((x &&& uintMax) * (y &&& uintMax)) >>> 32).toNat = b * d / 2 ^ 32 := by
    rw [toNat_ushiftRight_32, toNat_mul_of_lt, hxLo, hyLo]
    rw [hxLo, hyLo]
    omega
  have ht : ((x &&& uintMax) * y >>> 32 +
      ((x &&& uintMax) * (y &&& uintMax)) >>> 32).toNat = b * c + b * d / 2 ^ 32 := by
    rw [toNat_add_of_lt, hi, hl]
    rw [hi, hl]
    omega
  rw [hexact] at hhigh
  unfold mulHiULong
  dsimp only
  rw [toNat_add_of_lt, hf, toNat_haddULong_ushiftRight, ho, ht]
  · exact hexact.symm
  · rw [hf, toNat_haddULong_ushiftRight, ho, ht]
    exact hhigh

/-- `mul_hi` is the exact product divided by 2 ^ 64 and rounded down, and the halving addition that
it uses is exact and never overflows. -/
theorem mul_hi_exact :
    (∀ x y : BitVec 64, (mulHiLong x y).toInt = x.toInt * y.toInt / 2 ^ 64) ∧
    (∀ x y : BitVec 64, (mulHiULong x y).toNat = x.toNat * y.toNat / 2 ^ 64) ∧
    (∀ a b : BitVec 64, Fits 64 ((a.sshiftRight 1).toInt + (b.sshiftRight 1).toInt) ∧
      (haddLong a b).toInt = (a.toInt + b.toInt) / 2) ∧
    ∀ a b : BitVec 64, (a >>> 1).toNat + (b >>> 1).toNat < 2 ^ 64 ∧
      (haddULong a b).toNat = (a.toNat + b.toNat) / 2 :=
  ⟨mulHiLong_eq, mulHiULong_eq, fun _ _ => haddSigned_eq (by decide),
    fun _ _ => haddUnsigned_eq (by decide)⟩

end Shamrock.Builtins
