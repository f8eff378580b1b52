import Shamrock.Lib.BitFields

/-!
# Relocations of the C6000

The loader adds up the value of a relocation, checks that it is in range, cuts it to the field of
the instruction or of the datum and puts it there. What the processor reads from the field then is
the value, exactly when the check has passed and the value is a multiple of the unit of the field.
-/
namespace Shamrock.Dsp

open BitFields

/-- `C60_RELOC_TYPE`. The numbers that have no name are `unknown`. -/
inductive RelocType
  | none
  | abs32
  | abs16
  | abs8
  | pcrS21
  | pcrS12
  | pcrS10
  | pcrS7
  | absS16
  | absL16
  | absH16
  | sbrU15B
  | sbrU15H
  | sbrU15W
  | sbrS16
  | sbrL16B
  | sbrL16H
  | sbrL16W
  | sbrH16B
  | sbrH16H
  | sbrH16W
  | sbrGotU15W
  | sbrGotL16W
  | sbrGotH16W
  | dsbtIndex
  | prel31
  | copy
  | unknown
  deriving DecidableEq, Repr

/-- A result, and what has been printed by `DLIF_error`. -/
abbrev Printed (α : Type) := α × List String

/-- `write_reloc_r`: the field is replaced in a word, or a halfword or a byte is written. -/
def writeRelocR (buffer : Nat → UInt8) (segmentOffset : Nat) (t : RelocType) (r : BitVec 32) :
    Printed (Nat → UInt8) :=
  let relField (n s : Nat) :=
    store buffer segmentOffset 4 (replace n s r (word buffer segmentOffset))
  match t with
  | .abs32 => (store buffer segmentOffset 4 r, [])
  | .prel31 => (relField 30 0, [])
  | .abs16 => (store buffer segmentOffset 2 r, [])
  | .abs8 => (store buffer segmentOffset 1 r, [])
  | .pcrS21 => (relField 21 7, [])
  | .pcrS12 => (relField 12 16, [])
  | .pcrS10 => (relField 10 13, [])
  | .pcrS7 => (relField 7 16, [])
  | .absS16 | .absL16 | .absH16 => (relField 16 7, [])
  | .sbrU15B | .sbrU15H | .sbrU15W | .dsbtIndex => (relField 15 8, [])
  | .sbrS16 | .sbrL16B | .sbrL16H | .sbrL16W | .sbrH16B | .sbrH16H | .sbrH16W => (relField 16 7, [])
  | .none | .sbrGotU15W | .sbrGotL16W | .sbrGotH16W | .copy | .unknown =>
    (buffer, ["write_reloc_r called with invalid relocation type!\n"])

/-- `pack_result` -/
def packResult (unpackedResult : BitVec 32) : RelocType → Printed (BitVec 32)
  | .abs32 | .abs16 | .abs8 | .absS16 | .absL16 | .sbrU15B | .sbrS16 | .sbrL16B =>
    (unpackedResult, [])
  | .sbrU15H | .sbrL16H | .prel31 => (unpackedResult.sshiftRight 1, [])
  | .pcrS21 | .pcrS12 | .pcrS10 | .pcrS7 | .sbrU15W | .sbrL16W | .dsbtIndex =>
    (unpackedResult.sshiftRight 2, [])
  | .absH16 | .sbrH16B => (unpackedResult.sshiftRight 16, [])
  | .sbrH16H => (unpackedResult.sshiftRight 17, [])
  | .sbrH16W => (unpackedResult.sshiftRight 18, [])
  | .none | .sbrGotU15W | .sbrGotL16W | .sbrGotH16W | .copy | .unknown =>
    (0, ["pack_result called with invalid relocation type!\n"])

/-- `mask_result` -/
def maskResult (unmaskedResult : BitVec 32) : RelocType → Printed (BitVec 32)
  | .abs8 => (unmaskedResult &&& 0xFF, [])
  | .abs32 => (unmaskedResult, [])
  | .abs16 | .absS16 | .absL16 | .absH16 | .sbrS16 | .sbrL16B | .sbrL16H | .sbrL16W | .sbrH16B
  | .sbrH16H | .sbrH16W => (unmaskedResult &&& 0xFFFF, [])
  | .pcrS21 => (unmaskedResult &&& 0x1FFFFF, [])
  | .pcrS12 => (unmaskedResult &&& 0xFFF, [])
  | .pcrS10 => (unmaskedResult &&& 0x3FF, [])
  | .pcrS7 => (unmaskedResult &&& 0x7F, [])
  | .sbrU15B | .sbrU15H | .sbrU15W | .dsbtIndex => (unmaskedResult &&& 0x7FFF, [])
  | .prel31 => (unmaskedResult &&& 0x7FFFFFFF, [])
  | .none | .sbrGotU15W | .sbrGotL16W | .sbrGotH16W | .copy | .unknown =>
    (0, ["mask_result called with invalid relocation type!\n"])

/-- `rel_overflow` -/
def relOverflow (t : RelocType) (relocValue : BitVec 32) : Printed Bool :=
  let signed (low high : Int) := decide (high ≤ relocValue.toInt) || decide (relocValue.toInt < low)
  match t with
  | .abs16 => (decide (65535 < relocValue.toInt) || decide (relocValue.toInt < -32768), [])
  | .abs8 => (decide (255 < relocValue.toInt) || decide (relocValue.toInt < -128), [])
  | .pcrS21 => (signed (-0x400000) 0x400000, [])
  | .pcrS12 => (signed (-0x2000) 0x2000, [])
  | .pcrS10 => (signed (-0x800) 0x800, [])
  | .pcrS7 => (signed (-0x100) 0x100, [])
  | .sbrS16 | .absS16 => (signed (-0x8000) 0x8000, [])
  | .sbrU15B => (decide (0x8000 ≤ relocValue.toNat), [])
  | .sbrU15H => (decide (0xFFFF ≤ relocValue.toNat), [])
  | .dsbtIndex | .sbrU15W => (decide (0x1FFFD ≤ relocValue.toNat), [])
  | .absL16 | .absH16 | .sbrL16B | .sbrL16H | .sbrL16W | .sbrH16B | .sbrH16H | .sbrH16W =>
    (false, [])
  | .abs32 | .prel31 => (false, [])
  | .none | .sbrGotU15W | .sbrGotL16W | .sbrGotH16W | .copy | .unknown =>
    (true, ["rel_overflow called with invalid relocation type!\n"])

/-- The arguments of `reloc_do` that its value is made of. -/
structure RelocArgs where
  segmentVaddr : BitVec 32
  addend : BitVec 32
  symval : BitVec 32
  spc : BitVec 32
  basePointer : BitVec 32
  dsbtIndex : BitVec 32

/-- The first switch of `reloc_do`. -/
def relocValue (t : RelocType) (args : RelocArgs) : Printed (BitVec 32) :=
  match t with
  | .abs32 | .abs16 | .abs8 | .absS16 | .absL16 | .absH16 => (args.symval + args.addend, [])
  | .pcrS21 | .pcrS12 | .pcrS10 | .pcrS7 =>
    (args.symval + args.addend - ((args.spc + args.segmentVaddr) &&& 0xffffffe0), [])
  | .prel31 => (args.symval + args.addend - (args.spc + args.segmentVaddr), [])
  | .sbrU15B | .sbrU15H | .sbrU15W | .sbrS16 | .sbrL16B | .sbrL16H | .sbrL16W | .sbrH16B | .sbrH16H
  | .sbrH16W => (args.symval + args.addend - args.basePointer, [])
  | .dsbtIndex =>
    (((args.symval + args.addend) - args.basePointer) + (args.dsbtIndex <<< 2), [])
  | .none | .sbrGotU15W | .sbrGotL16W | .sbrGotH16W | .copy | .unknown =>
    (0, ["reloc_do called with invalid relocation type!\n"])

/-- `DLIMP_change_endian32` -/
def changeEndian32 (x : BitVec 32) : BitVec 32 :=
  ((x &&& 0x000000FF) <<< 24) + ((x &&& 0x0000FF00) <<< 8) + ((x &&& 0x00FF0000) >>> 8) +
    ((x &&& 0xFF000000) >>> 24)

/-- `DLIMP_change_endian32` on the word at an address. -/
def swapAt (buffer : Nat → UInt8) (a : Nat) : Nat → UInt8 :=
  store buffer a 4 (changeEndian32 (word buffer a))

/-- `reloc_do`: a value out of range is reported, and then written all the same. -/
def relocDo (t : RelocType) (args : RelocArgs) (wrongEndian : Bool) (buffer : Nat → UInt8) :
    Printed (Nat → UInt8) :=
  let value := relocValue t args
  let overflow := relOverflow t value.1
  let packed := packResult value.1 t
  let masked := maskResult packed.1 t
  let swapped := if wrongEndian then swapAt buffer args.spc.toNat else buffer
  let written := writeRelocR swapped args.spc.toNat t masked.1
  (if wrongEndian then swapAt written.1 args.spc.toNat else written.1,
    value.2 ++ overflow.2 ++ (if overflow.1 then ["relocation overflow!\n"] else []) ++ packed.2 ++
      masked.2 ++ written.2)

/-! ## What is read from a field -/

/-- How the processor reads a field. The two halves of a word are read by two instructions. -/
inductive Reading
  | signed
  | unsigned
  | either
  | low
  | high
  deriving DecidableEq, Repr

/-- A field of `width` bits from the place `start` on, in units of `2 ^ scale`. -/
structure RelocField where
  width : Nat
  start : Nat
  scale : Nat
  reading : Reading
  deriving DecidableEq, Repr

/-- The fields of the instructions and of the data that relocations are for. -/
def RelocType.field : RelocType → Option RelocField
  | .abs32 => some ⟨32, 0, 0, .either⟩
  | .abs16 => some ⟨16, 0, 0, .either⟩
  | .abs8 => some ⟨8, 0, 0, .either⟩
  | .pcrS21 => some ⟨21, 7, 2, .signed⟩
  | .pcrS12 => some ⟨12, 16, 2, .signed⟩
  | .pcrS10 => some ⟨10, 13, 2, .signed⟩
  | .pcrS7 => some ⟨7, 16, 2, .signed⟩
  | .absS16 | .sbrS16 => some ⟨16, 7, 0, .signed⟩
  | .absL16 | .sbrL16B => some ⟨16, 7, 0, .low⟩
  | .absH16 | .sbrH16B => some ⟨16, 7, 0, .high⟩
  | .sbrL16H => some ⟨16, 7, 1, .low⟩
  | .sbrH16H => some ⟨16, 7, 1, .high⟩
  | .sbrL16W => some ⟨16, 7, 2, .low⟩
  | .sbrH16W => some ⟨16, 7, 2, .high⟩
  | .sbrU15B => some ⟨15, 8, 0, .unsigned⟩
  | .sbrU15H => some ⟨15, 8, 1, .unsigned⟩
  | .sbrU15W | .dsbtIndex => some ⟨15, 8, 2, .unsigned⟩
  | .prel31 => some ⟨31, 0, 1, .signed⟩
  | .none | .sbrGotU15W | .sbrGotL16W | .sbrGotH16W | .copy | .unknown => Option.none

namespace RelocField

/-- What is read from the word `x` is `v`, or half of it. -/
def Holds (f : RelocField) (v x : BitVec 32) : Prop :=
  match f.reading with
  | .signed => (BitFields.field f.width f.start x).toInt * 2 ^ f.scale = v.toInt
  | .unsigned => ((BitFields.field f.width f.start x).toNat : Int) * 2 ^ f.scale = v.toInt
  | .either => (BitFields.field f.width f.start x).toInt * 2 ^ f.scale = v.toInt ∨
      ((BitFields.field f.width f.start x).toNat : Int) * 2 ^ f.scale = v.toInt
  | .low => ∃ high : Int,
      (high * 2 ^ 16 + (BitFields.field f.width f.start x).toNat) * 2 ^ f.scale = v.toInt
  | .high => ∃ low : Int, (0 ≤ low ∧ low < 2 ^ 16) ∧
      ((BitFields.field f.width f.start x).toInt * 2 ^ 16 + low) * 2 ^ f.scale = v.toInt

/-- The values that a field can hold, among the multiples of its unit. -/
def InRange (f : RelocField) (v : BitVec 32) : Prop :=
  match f.reading with
  | .signed => -2 ^ (f.width - 1) * 2 ^ f.scale ≤ v.toInt ∧
      v.toInt < 2 ^ (f.width - 1) * 2 ^ f.scale
  | .unsigned => 0 ≤ v.toInt ∧ v.toInt < 2 ^ f.width * 2 ^ f.scale
  | .either => -2 ^ (f.width - 1) * 2 ^ f.scale ≤ v.toInt ∧ v.toInt < 2 ^ f.width * 2 ^ f.scale
  | .low | .high => True

/-- The number of places by which a value is shifted. -/
def shift (f : RelocField) : Nat := if f.reading = .high then 16 + f.scale else f.scale

/-- The bits of `v` that belong into the field. -/
def cut (f : RelocField) (v : BitVec 32) : BitVec f.width :=
  (v.sshiftRight f.shift).setWidth f.width

/-- The fields are parts of a word, and the halves have half of its bits. -/
structure Sound (f : RelocField) : Prop where
  pos : 0 < f.width
  fits : f.start + f.width ≤ 32
  half : f.reading = .low ∨ f.reading = .high → f.width = 16

variable {t : RelocType} {f : RelocField} {v x : BitVec 32}

theorem sound (h : t.field = some f) : f.Sound := by
  cases t <;> cases h <;> exact ⟨by decide, by decide, by decide⟩

/-- A field with the bits of `v` is read as `v` when `v` is one of its values. -/
theorem holds_iff (hf : f.Sound) (hcut : BitFields.field f.width f.start x = f.cut v) :
    f.Holds v x ↔ (2 : Int) ^ f.scale ∣ v.toInt ∧ f.InRange v := by
  obtain ⟨hpos, hfits, hhalf⟩ := hf
  have hle : f.width ≤ 32 := by omega
  rw [Holds, hcut, InRange, cut, shift]
  cases hreading : f.reading with
  | signed => exact signed_iff hpos hle
  | unsigned => exact unsigned_iff hle
  | either =>
    have hsigned := signed_iff (v := v) (k := f.scale) hpos hle
    have hunsigned := unsigned_iff (v := v) (k := f.scale) hle
    have hdouble : (2 : Int) ^ f.width = 2 * 2 ^ (f.width - 1) := by
      rw [← Int.pow_succ', Nat.sub_add_cancel hpos]
    have hunit : (0 : Int) < 2 ^ f.scale := by positivity
    have hhalfpos : (0 : Int) < 2 ^ (f.width - 1) * 2 ^ f.scale := by positivity
    simp only [reduceCtorEq, if_false, hsigned, hunsigned]
    rw [hdouble]
    constructor
    · rintro (⟨hdvd, hlow, hhigh⟩ | ⟨hdvd, hlow, hhigh⟩)
      · exact ⟨hdvd, hlow, by linarith⟩
      · exact ⟨hdvd, by linarith, hhigh⟩
    · rintro ⟨hdvd, hlow, hhigh⟩
      rcases lt_or_ge v.toInt 0 with hneg | hnonneg
      · exact Or.inl ⟨hdvd, hlow, by linarith⟩
      · exact Or.inr ⟨hdvd, hnonneg, hhigh⟩
  | low =>
    have hwidth := hhalf (Or.inl hreading)
    simp only [reduceCtorEq, if_false, and_true]
    rw [← low_iff (v := v) (k := f.scale) hle, hwidth]
  | high =>
    have hwidth := hhalf (Or.inr hreading)
    simp only [if_true, and_true]
    exact high_iff (m := 16) hpos hle (by omega)

/-- The check for overflow is exact for the multiples of the unit of the field. -/
theorem relOverflow_iff (h : t.field = some f) (hdvd : (2 : Int) ^ f.scale ∣ v.toInt) :
    (relOverflow t v).1 = false ↔ f.InRange v := by
  have hnat : v.toInt = if v.toNat < 2 ^ 31 then (v.toNat : Int) else v.toNat - 2 ^ 32 := by
    rw [BitVec.toInt_eq_toNat_cond]
    split <;> split <;> omega
  have hlt := v.isLt
  cases t <;> cases h <;> simp [relOverflow, InRange] at hdvd ⊢ <;> omega

end RelocField

theorem toNat_and_mask_shifted {x : BitVec 32} {n s : Nat} (hn : s + n ≤ 32) (hlt : n < 32) :
    (x &&& mask 32 n s).toNat = x.toNat / 2 ^ s % 2 ^ n * 2 ^ s := by
  apply Nat.eq_of_testBit_eq
  intro i
  rw [Nat.testBit_mul_two_pow, Nat.testBit_mod_two_pow, Nat.testBit_div_two_pow]
  change (x &&& mask 32 n s).getLsbD i = _
  rw [BitVec.getLsbD_and]
  rcases Nat.lt_or_ge i 32 with hi | hi
  · rw [getLsbD_mask hlt hi]
    by_cases hs : s ≤ i
    · rw [Nat.sub_add_cancel hs]
      by_cases hin : i < s + n
      · simp [hs, hin, show i - s < n by omega]
        rfl
      · simp [hs, hin, show ¬i - s < n by omega]
    · simp [hs]
  · rw [BitVec.getLsbD_of_ge _ _ hi]
    simp [show ¬i - s < n by omega]

/-- The four bytes in the other order. -/
theorem toNat_changeEndian32 {x : BitVec 32} {b0 b1 b2 b3 : Nat}
    (hx : x.toNat = b0 + 256 * b1 + 65536 * b2 + 16777216 * b3)
    (hb : (b0 < 256 ∧ b1 < 256) ∧ b2 < 256 ∧ b3 < 256) :
    (changeEndian32 x).toNat = b3 + 256 * b2 + 65536 * b1 + 16777216 * b0 := by
  have h0 : (x &&& 0x000000FF).toNat = b0 := by
    rw [show (0x000000FF : BitVec 32) = mask 32 8 0 by decide,
      toNat_and_mask_shifted (by decide) (by decide)]
    omega
  have h1 : (x &&& 0x0000FF00).toNat = b1 * 256 := by
    rw [show (0x0000FF00 : BitVec 32) = mask 32 8 8 by decide,
      toNat_and_mask_shifted (by decide) (by decide)]
    omega
  have h2 : (x &&& 0x00FF0000).toNat = b2 * 65536 := by
    rw [show (0x00FF0000 : BitVec 32) = mask 32 8 16 by decide,
      toNat_and_mask_shifted (by decide) (by decide)]
    omega
  have h3 : (x &&& 0xFF000000).toNat = b3 * 16777216 := by
    rw [show (0xFF000000 : BitVec 32) = mask 32 8 24 by decide,
      toNat_and_mask_shifted (by decide) (by decide)]
    omega
  simp only [changeEndian32, BitVec.toNat_add, BitVec.toNat_shiftLeft, BitVec.toNat_ushiftRight,
    h0, h1, h2, h3, Nat.shiftLeft_eq, Nat.shiftRight_eq_div_pow, Nat.reducePow]
  omega

/-- Two changes of the byte order are none. -/
theorem changeEndian32_changeEndian32 (x : BitVec 32) :
    changeEndian32 (changeEndian32 x) = x := by
  obtain ⟨b0, b1, b2, b3, hx, hb⟩ : ∃ b0 b1 b2 b3, x.toNat = b0 + 256 * b1 + 65536 * b2 +
      16777216 * b3 ∧ (b0 < 256 ∧ b1 < 256) ∧ b2 < 256 ∧ b3 < 256 := by
    have hlt := x.isLt
    refine ⟨x.toNat % 256, x.toNat / 256 % 256, x.toNat / 65536 % 256, x.toNat / 16777216, ?_⟩
    omega
  apply BitVec.eq_of_toNat_eq
  rw [toNat_changeEndian32 (toNat_changeEndian32 hx hb) ⟨hb.2.symm, hb.1.symm⟩, hx]

/-! ## One relocation -/

/-- The word that the processor sees. -/
def targetWord (wrongEndian : Bool) (buffer : Nat → UInt8) (a : Nat) : BitVec 32 :=
  if wrongEndian then changeEndian32 (word buffer a) else word buffer a

/-- The field can be written as it is: halfwords and bytes are in their place only in the byte order
of the host, and the highest bit of a field of 31 bits is not cleared before it is written. -/
def RelocType.Plain (t : RelocType) (wrongEndian : Bool) (old v : BitVec 32) : Prop :=
  match t with
  | .abs16 | .abs8 => wrongEndian = false
  | .prel31 => old.getLsbD 30 = true → v.getLsbD 31 = true
  | _ => True

section Write

variable {t : RelocType} {f : RelocField} {v : BitVec 32} {buffer : Nat → UInt8} {a : Nat}

theorem packResult_eq (h : t.field = some f) : (packResult v t).1 = v.sshiftRight f.shift := by
  cases t <;> cases h <;> simp [packResult, RelocField.shift]

theorem maskResult_eq {x : BitVec 32} (h : t.field = some f) :
    (maskResult x t).1.setWidth f.width = x.setWidth f.width ∧
      (maskResult x t).1.toNat < 2 ^ f.width := by
  have hmask (n : Nat) (ones : BitVec 32) (hn : n < 32) (hones : ones = mask 32 n 0) :
      (x &&& ones).setWidth n = x.setWidth n ∧ (x &&& ones).toNat < 2 ^ n := by
    rw [hones]
    exact ⟨setWidth_and_mask hn, toNat_and_mask hn⟩
  cases t <;> cases h
  case abs32 => exact ⟨rfl, x.isLt⟩
  case abs8 => exact hmask 8 0xFF (by decide) (by decide)
  case pcrS21 => exact hmask 21 0x1FFFFF (by decide) (by decide)
  case pcrS12 => exact hmask 12 0xFFF (by decide) (by decide)
  case pcrS10 => exact hmask 10 0x3FF (by decide) (by decide)
  case pcrS7 => exact hmask 7 0x7F (by decide) (by decide)
  case prel31 => exact hmask 31 0x7FFFFFFF (by decide) (by decide)
  case sbrU15B | sbrU15H | sbrU15W | dsbtIndex => exact hmask 15 0x7FFF (by decide) (by decide)
  all_goals exact hmask 16 0xFFFF (by decide) (by decide)

/-- What is written into the field, after it has been packed and masked. -/
def relocBits (t : RelocType) (v : BitVec 32) : BitVec 32 := (maskResult (packResult v t).1 t).1

theorem relocBits_setWidth (h : t.field = some f) : (relocBits t v).setWidth f.width = f.cut v := by
  rw [relocBits, (maskResult_eq h).1, packResult_eq h, RelocField.cut]

theorem relocBits_lt (h : t.field = some f) : (relocBits t v).toNat < 2 ^ f.width :=
  (maskResult_eq h).2

/-- What `write_reloc_r` makes of the word at its offset. -/
theorem writeRelocR_field (h : t.field = some f) (hplain : t.Plain false (word buffer a) v) :
    field f.width f.start (word (writeRelocR buffer a t (relocBits t v)).1 a) = f.cut v := by
  rw [← relocBits_setWidth h]
  have hreplace (n s : Nat) (r : BitVec 32) (hn : n < 32) (hfit : s + n ≤ 32) :
      field n s (word (store buffer a 4 (replace n s r (word buffer a))) a) = r.setWidth n := by
    rw [word_store, field_replace hn hfit]
  cases t <;> cases h
  case abs32 =>
    exact field_word_store (n := 4) (by decide)
  case abs16 => exact field_word_store (n := 2) (by decide)
  case abs8 => exact field_word_store (n := 1) (by decide)
  case prel31 =>
    apply BitVec.eq_of_getLsbD_eq
    intro i hi
    have hhigh : (relocBits .prel31 v).getLsbD 30 = v.getLsbD 31 := by
      simp [relocBits, packResult, maskResult, BitVec.getElem_sshiftRight]
    have hbit : i = 30 → (word buffer a).getLsbD i = true →
        (relocBits .prel31 v).getLsbD i = true := by
      rintro rfl hold
      exact hhigh.trans (hplain hold)
    dsimp only at hi ⊢
    simp only [writeRelocR, word_store]
    rw [field, BitVec.getLsbD_extractLsb', Nat.zero_add, getLsbD_replace (by decide) (by omega),
      BitVec.getLsbD_setWidth]
    rcases Nat.lt_or_ge i 30 with hlow | hge
    · simp [hlow, hi]
    · obtain rfl : i = 30 := by omega
      cases hold : (word buffer a).getLsbD 30
      · simp
      · simp [hbit rfl hold]
  all_goals exact hreplace _ _ _ (by decide) (by decide)

/-- The other bits of the word are kept. -/
theorem writeRelocR_bits {i : Nat} (h : t.field = some f) (hi : i < 32)
    (hout : i < f.start ∨ f.start + f.width ≤ i) :
    (word (writeRelocR buffer a t (relocBits t v)).1 a).getLsbD i = (word buffer a).getLsbD i := by
  have hlt := relocBits_lt (v := v) h
  have hreplace (n s : Nat) (r : BitVec 32) (hn : n < 32) (hr : r.toNat < 2 ^ n)
      (hout : i < s ∨ s + n ≤ i) :
      (word (store buffer a 4 (replace n s r (word buffer a))) a).getLsbD i =
        (word buffer a).getLsbD i := by
    rw [word_store, replace_outside hn hi hr hout]
  have hstore (n : Nat) (r : BitVec 32) (hout : 8 * n ≤ i) :
      (word (store buffer a n r) a).getLsbD i = (word buffer a).getLsbD i := by
    rw [getLsbD_word_store hi, if_neg (by omega)]
  cases t <;> cases h
  case abs32 => exact absurd hout (by dsimp only; omega)
  case abs16 => exact hstore 2 _ (by dsimp only at hout; omega)
  case abs8 => exact hstore 1 _ (by dsimp only at hout; omega)
  case prel31 =>
    obtain rfl : i = 31 := by
      dsimp only at hout
      omega
    have hzero : (relocBits .prel31 v).getLsbD 31 = false := Nat.testBit_lt_two_pow hlt
    simp only [writeRelocR, word_store]
    rw [getLsbD_replace (by decide) (by decide), Nat.sub_zero, hzero]
    simp
  all_goals exact hreplace _ _ _ (by decide) hlt hout

theorem writeRelocR_bytes {b : Nat} {r : BitVec 32} (hout : b < a ∨ a + 4 ≤ b) :
    (writeRelocR buffer a t r).1 b = buffer b := by
  cases t <;> first | rfl | exact store_outside (by omega)

theorem writeRelocR_printed {r : BitVec 32} (h : t.field = some f) :
    (writeRelocR buffer a t r).2 = [] := by
  cases t <;> first | rfl | cases h

end Write

section Do

variable {t : RelocType} {f : RelocField} {args : RelocArgs} {wrongEndian : Bool}
  {buffer : Nat → UInt8}

/-- What one relocation does: to the field, to the other bits of the word that the processor sees,
and to the other bytes. -/
structure Relocated (t : RelocType) (f : RelocField) (wrongEndian : Bool) (a : Nat) (v : BitVec 32)
    (buffer buffer' : Nat → UInt8) : Prop where
  field : t.Plain wrongEndian (targetWord wrongEndian buffer a) v →
    BitFields.field f.width f.start (targetWord wrongEndian buffer' a) = f.cut v
  bits : ∀ i < 32, i < f.start ∨ f.start + f.width ≤ i →
    (targetWord wrongEndian buffer' a).getLsbD i = (targetWord wrongEndian buffer a).getLsbD i
  bytes : ∀ b, b < a ∨ a + 4 ≤ b → buffer' b = buffer b

theorem plain_native {old v : BitVec 32} (h : t.Plain wrongEndian old v) : t.Plain false old v := by
  cases t <;> first | exact h | rfl

theorem word_swapAt {a : Nat} : word (swapAt buffer a) a = changeEndian32 (word buffer a) :=
  word_store

theorem relocDo_relocated (h : t.field = some f) :
    Relocated t f wrongEndian args.spc.toNat (relocValue t args).1 buffer
      (relocDo t args wrongEndian buffer).1 := by
  cases wrongEndian with
  | false =>
    exact ⟨fun hplain => writeRelocR_field h hplain, fun i hi hout => writeRelocR_bits h hi hout,
      fun b hout => writeRelocR_bytes hout⟩
  | true =>
    have hnew : targetWord true (relocDo t args true buffer).1 args.spc.toNat =
        word (writeRelocR (swapAt buffer args.spc.toNat) args.spc.toNat t
          (relocBits t (relocValue t args).1)).1 args.spc.toNat := by
      simp only [targetWord, relocDo, if_true, word_swapAt, changeEndian32_changeEndian32]
      rfl
    have hold : targetWord true buffer args.spc.toNat =
        word (swapAt buffer args.spc.toNat) args.spc.toNat := word_swapAt.symm
    refine ⟨fun hplain => ?_, fun i hi hout => ?_, fun b hout => ?_⟩
    · rw [hnew]
      rw [hold] at hplain
      exact writeRelocR_field h (plain_native hplain)
    · rw [hnew, hold]
      exact writeRelocR_bits h hi hout
    · simp only [relocDo, if_true]
      rw [swapAt, store_outside hout, writeRelocR_bytes hout, swapAt, store_outside hout]

theorem relocDo_printed (h : t.field = some f) : (relocDo t args wrongEndian buffer).2 =
    if (relOverflow t (relocValue t args).1).1 then ["relocation overflow!\n"] else [] := by
  have hsilent : (relocValue t args).2 = [] ∧ (relOverflow t (relocValue t args).1).2 = [] ∧
      (packResult (relocValue t args).1 t).2 = [] ∧
      (maskResult (packResult (relocValue t args).1 t).1 t).2 = [] := by
    cases t <;> first | exact ⟨rfl, rfl, rfl, rfl⟩ | cases h
  obtain ⟨hvalue, hoverflow, hpack, hmask⟩ := hsilent
  simp only [relocDo, hvalue, hoverflow, hpack, hmask, writeRelocR_printed h, List.append_nil,
    List.nil_append]

/-- The processor reads the value of the relocation exactly when the value is a multiple of the unit
of the field and the loader has not reported an overflow. -/
theorem relocDo_holds_iff (h : t.field = some f)
    (hplain : t.Plain wrongEndian (targetWord wrongEndian buffer args.spc.toNat)
      (relocValue t args).1) :
    f.Holds (relocValue t args).1
      (targetWord wrongEndian (relocDo t args wrongEndian buffer).1 args.spc.toNat) ↔
    (2 : Int) ^ f.scale ∣ (relocValue t args).1.toInt ∧
      (relocDo t args wrongEndian buffer).2 = [] := by
  have hfield : field f.width f.start (targetWord wrongEndian
      (relocDo t args wrongEndian buffer).1 args.spc.toNat) = f.cut (relocValue t args).1 :=
    (relocDo_relocated h).field hplain
  rw [RelocField.holds_iff (RelocField.sound h) hfield, relocDo_printed h]
  constructor
  · rintro ⟨hdvd, hrange⟩
    refine ⟨hdvd, ?_⟩
    rw [(RelocField.relOverflow_iff h hdvd).mpr hrange]
    rfl
  · rintro ⟨hdvd, hsilent⟩
    refine ⟨hdvd, (RelocField.relOverflow_iff h hdvd).mp ?_⟩
    cases hover : (relOverflow t (relocValue t args).1).1
    · rfl
    · rw [hover] at hsilent
      cases hsilent

end Do

/-- A call over `0x6000` bytes. -/
def farCall : RelocArgs := ⟨0x2000, 0, 0x8000, 4, 0, 0⟩

theorem call_relocated : RelocField.Holds ⟨21, 7, 2, .signed⟩ (relocValue .pcrS21 farCall).1
    (targetWord true (relocDo .pcrS21 farCall true fun _ => 0xFF).1 farCall.spc.toNat) := by
  have hplain : RelocType.Plain .pcrS21 true (targetWord true (fun _ => 0xFF) farCall.spc.toNat)
      (relocValue .pcrS21 farCall).1 := trivial
  exact (relocDo_holds_iff rfl hplain).mpr ⟨⟨0x1800, by decide⟩, by decide⟩

/-- Two halves of one value make up the value. -/
theorem halves_join {fl fh : RelocField} {v x y : BitVec 32} (hl : fl.reading = .low)
    (hh : fh.reading = .high) (hscale : fl.scale = fh.scale) (hlow : fl.Holds v x)
    (hhigh : fh.Holds v y) (hwidth : fl.width = 16) :
    ((field fh.width fh.start y).toInt * 2 ^ 16 + (field fl.width fl.start x).toNat) *
      2 ^ fh.scale = v.toInt := by
  simp only [RelocField.Holds, hl] at hlow
  simp only [RelocField.Holds, hh] at hhigh
  obtain ⟨high, hx⟩ := hlow
  obtain ⟨low, ⟨hnonneg, hlt⟩, hy⟩ := hhigh
  have hcut := (field fl.width fl.start x).isLt
  have hpow : 2 ^ fl.width = 2 ^ 16 := by rw [hwidth]
  rw [hpow] at hcut
  rw [hscale, ← hy] at hx
  have heq := Int.eq_of_mul_eq_mul_right (by positivity : (2 : Int) ^ fh.scale ≠ 0) hx
  have hsame : ((field fl.width fl.start x).toNat : Int) = low := by omega
  rw [hsame, hy]

end Shamrock.Dsp
