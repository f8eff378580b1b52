import Shamrock.Lib.Loop
import Shamrock.Runtime.Linear

/-!
# Filling a buffer

The loop of the worker for `FillBuffer`, on the bytes of the buffer by their offsets.
-/
namespace Shamrock.Runtime

open Loop

/-- An `int` as a `size_t`. -/
def signExtend (i : UInt32) : UInt64 :=
  if i < 0x80000000 then i.toUInt64 else i.toUInt64 + 0xFFFFFFFF00000000

structure FillState where
  i : UInt32
  dst : UInt64
  memory : UInt64 → UInt8

/-- `n` bytes of the pattern, which lies apart from the buffer. -/
def memmove (memory : UInt64 → UInt8) (dst : UInt64) (bytes : Nat → UInt8) (n : UInt64) :
    UInt64 → UInt8 :=
  fun a => if a - dst < n then bytes (a - dst).toNat else memory a

namespace FillState

variable (bytes : Nat → UInt8) (patternSize size : UInt64)

def next (s : FillState) : FillState where
  i := (signExtend s.i + patternSize).toUInt32
  dst := s.dst + patternSize
  memory := memmove s.memory s.dst bytes patternSize

/-- `for (int i = 0; i < size; i += pattern_size, dst += pattern_size)` -/
def pass (s : FillState) : Option (FillState ⊕ (UInt64 → UInt8)) :=
  if signExtend s.i < size then some (.inl (s.next bytes patternSize)) else some (.inr s.memory)

def start (offset : UInt64) (memory : UInt64 → UInt8) : FillState := ⟨0, offset, memory⟩

end FillState

/-- The patterns that the documentation of `clEnqueueFillBuffer` allows. -/
def patternSizes : List Nat := [1, 2, 4, 8, 16, 32, 64, 128]

/-- A command that is accepted names a range of the buffer in patterns of an allowed size, and the
worker fills this range and nothing else. -/
def FillExact (queue : QueueInfo) (buffer : MemObject) (pattern patternSize offset size : UInt64) :
    Prop :=
  fillBufferEvent queue (some buffer) pattern patternSize offset size = pure () →
    patternSize.toNat ∈ patternSizes ∧ patternSize.toNat ∣ offset.toNat ∧
    patternSize.toNat ∣ size.toNat ∧ offset.toNat + size.toNat ≤ buffer.size.toNat ∧
    ∀ (bytes : Nat → UInt8) (memory : UInt64 → UInt8), ∃ n m,
      passes (FillState.pass bytes patternSize size) n (FillState.start offset memory) = some m ∧
      ∀ a : UInt64, m a = if offset.toNat ≤ a.toNat ∧ a.toNat < offset.toNat + size.toNat
        then bytes ((a.toNat - offset.toNat) % patternSize.toNat) else memory a

/-- The tests of `FillBufferEvent`. -/
def FillTests (queue : QueueInfo) (buffer : MemObject) (pattern patternSize offset size : UInt64) :
    Prop :=
  buffer.Fits queue ∧ (offset.toNat + size.toNat) % 2 ^ 64 ≤ buffer.size.toNat ∧ pattern ≠ 0 ∧
    popcount (patternSize &&& 0xFFF) = 1 ∧ patternSize.toNat ∣ offset.toNat ∧
    patternSize.toNat ∣ size.toNat

section Fill

variable {queue : QueueInfo} {buffer : MemObject} {pattern patternSize offset size : UInt64}
  {bytes : Nat → UInt8} {memory m : UInt64 → UInt8} {i : UInt32} {k n : Nat} {a : UInt64}

theorem fillBufferEvent_eq_pure :
    fillBufferEvent queue (some buffer) pattern patternSize offset size = pure () ↔
      FillTests queue buffer pattern patternSize offset size := by
  have hmod : ∀ x : UInt64, x % patternSize = 0 ↔ patternSize.toNat ∣ x.toNat := by
    intro x
    rw [← UInt64.toNat_inj, UInt64.toNat_mod, Nat.dvd_iff_mod_eq_zero]
    exact Iff.rfl
  unfold FillTests
  simp [fillBufferEvent, bind_eq_pure, reject_eq_pure, bufferEvent_eq_pure, hmod,
    UInt64.le_iff_toNat_le]
  tauto

theorem toNat_signExtend : (signExtend i).toNat =
    if i.toNat < 2 ^ 31 then i.toNat else i.toNat + (2 ^ 64 - 2 ^ 32) := by
  have hlt := i.toNat_lt
  unfold signExtend
  have hiff : i < 0x80000000 ↔ i.toNat < 2 ^ 31 := Iff.rfl
  split_ifs with h1 h2
  · rfl
  · exact absurd (hiff.mp h1) h2
  · exact absurd (hiff.mpr ‹_›) h1
  · have hones : (0xFFFFFFFF00000000 : UInt64).toNat = 2 ^ 64 - 2 ^ 32 := by decide
    rw [UInt64.toNat_add, UInt32.toNat_toUInt64, hones]
    omega

/-- The state after `k` passes. -/
def fillState (bytes : Nat → UInt8) (patternSize offset : UInt64) (memory : UInt64 → UInt8)
    (k : Nat) : FillState :=
  (FillState.next bytes patternSize)^[k] (FillState.start offset memory)

theorem fillState_succ : fillState bytes patternSize offset memory (k + 1) =
    (fillState bytes patternSize offset memory k).next bytes patternSize :=
  Function.iterate_succ_apply' _ _ _

theorem fillState_i : (fillState bytes patternSize offset memory k).i.toNat =
    k * patternSize.toNat % 2 ^ 32 := by
  induction k with
  | zero => simp [fillState, FillState.start]
  | succ k ih =>
    have hext := toNat_signExtend (i := (fillState bytes patternSize offset memory k).i)
    rw [fillState_succ]
    change ((signExtend _ + patternSize).toUInt32).toNat = _
    rw [UInt64.toNat_toUInt32, UInt64.toNat_add, hext, ih, Nat.succ_mul]
    split_ifs
    · omega
    · omega

theorem fillState_dst : (fillState bytes patternSize offset memory k).dst.toNat =
    (offset.toNat + k * patternSize.toNat) % 2 ^ 64 := by
  induction k with
  | zero =>
    have hlt := offset.toNat_lt
    simp only [fillState, FillState.start, Function.iterate_zero, id]
    omega
  | succ k ih =>
    rw [fillState_succ]
    change ((fillState bytes patternSize offset memory k).dst + patternSize).toNat = _
    rw [UInt64.toNat_add, ih, Nat.succ_mul]
    omega

/-- How far an address is behind the offset. -/
def behind (a offset : UInt64) : Nat := (a - offset).toNat

theorem behind_eq : behind a offset = (2 ^ 64 - offset.toNat + a.toNat) % 2 ^ 64 :=
  UInt64.toNat_sub ..

theorem fillState_memory (hk : k * patternSize.toNat ≤ 2 ^ 64) :
    (fillState bytes patternSize offset memory k).memory a =
      if behind a offset < k * patternSize.toNat
      then bytes (behind a offset % patternSize.toNat) else memory a := by
  induction k with
  | zero => simp [fillState, FillState.start]
  | succ k ih =>
    have hdst : (fillState bytes patternSize offset memory k).dst.toNat = _ := fillState_dst
    have hr : behind a (fillState bytes patternSize offset memory k).dst = _ := behind_eq
    have ha : behind a offset = _ := behind_eq
    have hlt := a.toNat_lt
    have hlt' := offset.toNat_lt
    rw [hdst] at hr
    rw [Nat.succ_mul] at hk ⊢
    have hdvd : patternSize.toNat ∣ k * patternSize.toNat := Nat.dvd_mul_left _ _
    have ih := ih (by omega)
    rw [fillState_succ]
    change (if behind a (fillState bytes patternSize offset memory k).dst < patternSize.toNat
      then bytes (behind a (fillState bytes patternSize offset memory k).dst) else _) = _
    rw [ih]
    generalize k * patternSize.toNat = x at hk hr ih hdvd ⊢
    by_cases hin : behind a offset < x
    · have hfar : ¬behind a (fillState bytes patternSize offset memory k).dst <
          patternSize.toNat := by omega
      have hstill : behind a offset < x + patternSize.toNat := by omega
      rw [if_pos hin, if_neg hfar, if_pos hstill]
    · rw [if_neg hin]
      have hrest : behind a (fillState bytes patternSize offset memory k).dst =
          behind a offset - x := by omega
      rw [hrest]
      by_cases hnew : behind a offset < x + patternSize.toNat
      · obtain ⟨c, hc⟩ := hdvd
        have hmod : behind a offset % patternSize.toNat = behind a offset - x := by
          rw [show behind a offset = behind a offset - x + patternSize.toNat * c by omega,
            Nat.add_mul_mod_self_left, Nat.mod_eq_of_lt (by omega), Nat.add_sub_assoc (by omega)]
          omega
        rw [if_pos (by omega), if_pos hnew, hmod]
      · rw [if_neg (by omega), if_neg hnew]

/-- The counter after `k` passes is below the size. -/
def Goes (patternSize size : UInt64) (k : Nat) : Prop :=
  (if k * patternSize.toNat % 2 ^ 32 < 2 ^ 31 then k * patternSize.toNat % 2 ^ 32
    else k * patternSize.toNat % 2 ^ 32 + (2 ^ 64 - 2 ^ 32)) < size.toNat

theorem goes_iff : signExtend (fillState bytes patternSize offset memory k).i < size ↔
    Goes patternSize size k := by
  rw [UInt64.lt_iff_toNat_lt, toNat_signExtend, fillState_i]
  exact Iff.rfl

theorem fill_passes_iff :
    passes (FillState.pass bytes patternSize size) n (FillState.start offset memory) = some m ↔
      ∃ k < n, (∀ j < k, Goes patternSize size j) ∧ ¬Goes patternSize size k ∧
        (fillState bytes patternSize offset memory k).memory = m := by
  have hbody : ∀ s, FillState.pass bytes patternSize size s =
      if signExtend s.i < size then some (.inl (s.next bytes patternSize))
      else some (.inr s.memory) := fun _ => rfl
  rw [passes_while_iff hbody]
  refine exists_congr fun k => and_congr_right fun _ => and_congr ?_ (and_congr ?_ Iff.rfl)
  · exact forall₂_congr fun j _ => goes_iff
  · exact not_congr goes_iff

/-- Up to two gigabytes the loop stops at the end of the range. -/
theorem stops_at_end (hpos : 0 < patternSize.toNat)
    (hsize : size.toNat ≤ 2 ^ 31) (hk : k * patternSize.toNat = size.toNat) :
    (∀ j < k, Goes patternSize size j) ∧ ¬Goes patternSize size k := by
  constructor
  · intro j hj
    have hlt : j * patternSize.toNat < size.toNat := by
      rw [← hk]
      exact Nat.mul_lt_mul_of_pos_right hj hpos
    unfold Goes
    generalize j * patternSize.toNat = x at hlt
    rw [if_pos (by omega)]
    omega
  · unfold Goes
    rw [hk]
    split_ifs
    · omega
    · omega

/-- Beyond that it stops before. -/
theorem stops_early (hdvd : patternSize.toNat ∣ 2 ^ 31)
    (hsize : 2 ^ 31 < size.toNat) (hgo : ∀ j < k, Goes patternSize size j)
    (hstop : ¬Goes patternSize size k) : k * patternSize.toNat < size.toNat := by
  obtain ⟨c, hc⟩ := hdvd
  have hlt := size.toNat_lt
  by_cases hlarge : size.toNat ≤ 2 ^ 32
  · -- the counter is negative after `c` passes, which is above the size
    have hneg : ¬Goes patternSize size c := by
      unfold Goes
      rw [Nat.mul_comm c, ← hc, if_neg (by decide)]
      omega
    have hle : k ≤ c := by
      by_contra hck
      exact hneg (hgo c (by omega))
    have hmul : k * patternSize.toNat ≤ 2 ^ 31 := by
      rw [hc, Nat.mul_comm patternSize.toNat]
      exact Nat.mul_le_mul_right _ hle
    omega
  · -- the counter is the same as `2 * c` passes before
    have hlt : k < 2 * c := by
      by_contra hck
      have hback := hgo (k - 2 * c) (by
        have hcpos : 0 < c := Nat.pos_of_ne_zero fun h => by simp [h] at hc
        omega)
      have hsame : k * patternSize.toNat = (k - 2 * c) * patternSize.toNat + 2 ^ 32 := by
        have hsplit : k = k - 2 * c + 2 * c := by omega
        have htwo : 2 * c * patternSize.toNat = 2 ^ 32 := by
          rw [Nat.mul_assoc, Nat.mul_comm c, ← hc]
          rfl
        rw [← htwo, ← Nat.add_mul, ← hsplit]
      apply hstop
      unfold Goes at hback ⊢
      rw [hsame, Nat.add_mod_right]
      exact hback
    have hmul : k * patternSize.toNat ≤ 2 * (patternSize.toNat * c) := by
      calc k * patternSize.toNat ≤ 2 * c * patternSize.toNat := Nat.mul_le_mul_right _ hlt.le
        _ = 2 * (patternSize.toNat * c) := by rw [Nat.mul_assoc, Nat.mul_comm c]
    omega

theorem mem_patternSizes_iff (h : patternSize.toNat ≤ 128) :
    popcount (patternSize &&& 0xFFF) = 1 → patternSize.toNat ∈ patternSizes := by
  have hall : ∀ n < 129, popcount (UInt64.ofNat n &&& 0xFFF) = 1 → n ∈ patternSizes := by
    decide +kernel
  have hself : UInt64.ofNat patternSize.toNat = patternSize := UInt64.ofNat_toNat
  intro hone
  exact hall patternSize.toNat (by omega) (by rwa [hself])

theorem patternSizes_dvd {x : Nat} (h : x ∈ patternSizes) : 0 < x ∧ x ∣ 2 ^ 31 ∧ x ≤ 128 := by
  have hall : ∀ x ∈ patternSizes, 0 < x ∧ x ∣ 2 ^ 31 ∧ x ≤ 128 := by decide
  exact hall x h

/-- What the loop leaves if it stops at the end of a range inside the buffer. -/
theorem filled_memory (hk : k * patternSize.toNat = size.toNat)
    (hwrap : offset.toNat + size.toNat < 2 ^ 64) :
    (fillState bytes patternSize offset memory k).memory a =
      if offset.toNat ≤ a.toNat ∧ a.toNat < offset.toNat + size.toNat
      then bytes ((a.toNat - offset.toNat) % patternSize.toNat) else memory a := by
  have ha : behind a offset = _ := behind_eq
  have hlt := a.toNat_lt
  rw [fillState_memory (by omega), hk]
  by_cases hin : offset.toNat ≤ a.toNat ∧ a.toNat < offset.toNat + size.toNat
  · have hbehind : behind a offset = a.toNat - offset.toNat := by omega
    rw [if_pos hin, hbehind, if_pos (by omega)]
  · rw [if_neg hin, if_neg (by omega)]

/-- The byte behind the last pattern that the loop writes is what it was. -/
theorem unfilled_byte (hk : k * patternSize.toNat < 2 ^ 64) :
    (fillState bytes patternSize offset memory k).memory
      (offset + UInt64.ofNat (k * patternSize.toNat)) =
      memory (offset + UInt64.ofNat (k * patternSize.toNat)) := by
  have hbehind : behind (offset + UInt64.ofNat (k * patternSize.toNat)) offset =
      k * patternSize.toNat := by
    have hlt := offset.toNat_lt
    rw [behind_eq, UInt64.toNat_add, UInt64.toNat_ofNat']
    omega
  rw [fillState_memory hk.le, hbehind, if_neg (Nat.lt_irrefl _)]

theorem size_le_of_filled (hdvd : patternSize.toNat ∣ 2 ^ 31)
    (hwrap : offset.toNat + size.toNat < 2 ^ 64)
    (h : ∀ (bytes : Nat → UInt8) (memory : UInt64 → UInt8), ∃ n m,
      passes (FillState.pass bytes patternSize size) n (FillState.start offset memory) = some m ∧
      ∀ a : UInt64, m a = if offset.toNat ≤ a.toNat ∧ a.toNat < offset.toNat + size.toNat
        then bytes ((a.toNat - offset.toNat) % patternSize.toNat) else memory a) :
    size.toNat ≤ 2 ^ 31 := by
  by_contra hlarge
  obtain ⟨n, m, hm, heffect⟩ := h (fun _ => 1) (fun _ => 0)
  obtain ⟨k, -, hgo, hstop, rfl⟩ := fill_passes_iff.mp hm
  have hearly := stops_early hdvd (by omega) hgo hstop
  have hbyte := heffect (offset + UInt64.ofNat (k * patternSize.toNat))
  have hat : (offset + UInt64.ofNat (k * patternSize.toNat)).toNat =
      offset.toNat + k * patternSize.toNat := by
    rw [UInt64.toNat_add, UInt64.toNat_ofNat']
    omega
  rw [unfilled_byte (by omega), hat, if_pos (by omega)] at hbyte
  exact absurd hbyte (by decide)

/-- An accepted command fills its range exactly if the pattern has at most 128 bytes, the end of
the range does not wrap around and the counter of the loop does not become negative too early. -/
theorem fill_exact_iff (queue : QueueInfo) (buffer : MemObject)
    (pattern patternSize offset size : UInt64) :
    FillExact queue buffer pattern patternSize offset size ↔
      (FillTests queue buffer pattern patternSize offset size → patternSize.toNat ≤ 128 ∧
        offset.toNat + size.toNat < 2 ^ 64 ∧ size.toNat ≤ 2 ^ 31) := by
  have hmax := buffer.size.toNat_lt
  unfold FillExact
  rw [fillBufferEvent_eq_pure]
  refine imp_congr_right fun htests => ?_
  obtain ⟨-, hrange, -, hpop, hoffset, hsize⟩ := htests
  constructor
  · rintro ⟨hmem, -, -, hinside, heffect⟩
    obtain ⟨-, hdvd, hle⟩ := patternSizes_dvd hmem
    have hwrap : offset.toNat + size.toNat < 2 ^ 64 := by omega
    exact ⟨hle, hwrap, size_le_of_filled hdvd hwrap heffect⟩
  · rintro ⟨hle, hwrap, hsmall⟩
    have hmem := mem_patternSizes_iff hle hpop
    obtain ⟨hpos, -, -⟩ := patternSizes_dvd hmem
    rw [Nat.mod_eq_of_lt hwrap] at hrange
    refine ⟨hmem, hoffset, hsize, hrange, fun bytes memory => ?_⟩
    obtain ⟨k, hk⟩ := hsize
    have hk' : k * patternSize.toNat = size.toNat := by rw [hk, Nat.mul_comm]
    obtain ⟨hgo, hstop⟩ := stops_at_end hpos hsmall hk'
    exact ⟨k + 1, _, fill_passes_iff.mpr ⟨k, by omega, hgo, hstop, rfl⟩,
      fun a => filled_memory hk' hwrap⟩

end Fill

/-- A buffer of 256 bytes. -/
def fillBuffer256 : MemObject := { LinearCommand.smallBuffer with size := 256 }

/-- A pattern of 256 bytes passes the test. -/
theorem long_pattern_accepted : ¬∀ (queue : QueueInfo) (buffer : MemObject)
    (pattern patternSize offset size : UInt64),
    FillExact queue buffer pattern patternSize offset size := by
  intro h
  have haccepted : fillBufferEvent LinearCommand.smallQueue (some fillBuffer256) 4096 256 0 256 =
      pure () := rfl
  have hmem := (h LinearCommand.smallQueue fillBuffer256 4096 256 0 256 haccepted).1
  exact absurd hmem (by decide)

end Shamrock.Runtime
