import Mathlib.Data.Nat.Bitwise
import Mathlib.Data.Nat.Log
import Mathlib.Data.Nat.Size
import Mathlib.Order.Bounds.Basic

/-!
# Values one behind the other, each at a multiple of its own slot

The slot of a value is the least power of two that holds it, and the next value is aligned behind
the slot. The first part is about how a word is filled with ones below its highest bit, which is
how the power is computed.
-/
namespace Shamrock.Packing

variable {w i k k₀ n s x : Nat} {sizes : List Nat}

/-! ## The least power of two -/

/-- `k` has a one where one of `i` places of `k₀`, from the same place upwards, has one. -/
def Smeared (k₀ i k : Nat) : Prop := ∀ j, k.testBit j = true ↔ ∃ d < i, k₀.testBit (j + d) = true

theorem smeared_one : Smeared k₀ 1 k₀ := fun j => by simp

/-- Shifting by as many places as are covered doubles their number. -/
theorem Smeared.step (h : Smeared k₀ i k) : Smeared k₀ (2 * i) (k ||| k >>> i) := by
  intro j
  rw [Nat.testBit_or, Nat.testBit_shiftRight, Bool.or_eq_true, h j, h (i + j)]
  constructor
  · rintro (⟨d, hd, hbit⟩ | ⟨d, hd, hbit⟩)
    · exact ⟨d, by omega, hbit⟩
    · exact ⟨i + d, by omega, by rwa [← Nat.add_assoc, Nat.add_comm j i]⟩
  · rintro ⟨d, hd, hbit⟩
    rcases Nat.lt_or_ge d i with hlow | hhigh
    · exact Or.inl ⟨d, hlow, hbit⟩
    · refine Or.inr ⟨d - i, by omega, ?_⟩
      have hplace : i + j + (d - i) = j + d := by omega
      rwa [hplace]

/-- A word whose every place has been covered is all ones below its highest bit. -/
theorem Smeared.eq (h : Smeared k₀ i k) (hw : k₀ < 2 ^ w) (hi : w ≤ i) : k + 1 = 2 ^ k₀.size := by
  have hk : k = 2 ^ k₀.size - 1 := by
    refine Nat.eq_of_testBit_eq fun j => ?_
    rw [Nat.testBit_two_pow_sub_one, Bool.eq_iff_iff, h j, decide_eq_true_iff]
    constructor
    · rintro ⟨d, -, hbit⟩
      have hlow : 2 ^ (j + d) ≤ k₀ := Nat.ge_two_pow_of_testBit hbit
      have hsize : j + d < k₀.size := Nat.lt_size.mpr hlow
      omega
    · intro hj
      -- the highest bit is at the place size - 1
      refine ⟨k₀.size - 1 - j, ?_, ?_⟩
      · have hle : k₀.size ≤ w := Nat.size_le.mpr hw
        omega
      · have hplace : j + (k₀.size - 1 - j) = k₀.size - 1 := by omega
        rw [hplace]
        have hge : 2 ^ (k₀.size - 1) ≤ k₀ := Nat.lt_size.mp (by omega)
        have hlt : k₀ < 2 ^ (k₀.size - 1 + 1) := by
          rw [Nat.sub_add_cancel (by omega)]
          exact Nat.lt_size_self k₀
        exact Nat.testBit_of_two_pow_le_and_two_pow_add_one_gt hge hlt
  have hpos : 0 < 2 ^ k₀.size := Nat.two_pow_pos _
  omega

/-- The slot of a value of `s` bytes. -/
def slot (s : Nat) : Nat := 2 ^ Nat.clog 2 s

/-- The powers of two that are at least `s`. -/
def powersAbove (s : Nat) : Set Nat := {p | (∃ n, p = 2 ^ n) ∧ s ≤ p}

theorem le_slot : s ≤ slot s := Nat.le_pow_clog (by decide) s

theorem slot_pos : 0 < slot s := Nat.two_pow_pos _

theorem slot_isLeast : IsLeast (powersAbove s) (slot s) := by
  refine ⟨⟨⟨_, rfl⟩, le_slot⟩, ?_⟩
  rintro p ⟨⟨n, rfl⟩, hle⟩
  exact Nat.pow_le_pow_right (by decide) (Nat.clog_le_of_le_pow hle)

theorem slot_eq_size (hk : 0 < k) : slot k = 2 ^ (k - 1).size := by
  refine slot_isLeast.unique ⟨⟨⟨_, rfl⟩, ?_⟩, ?_⟩
  · have hlt := Nat.lt_size_self (k - 1)
    omega
  · rintro p ⟨⟨n, rfl⟩, hle⟩
    exact Nat.pow_le_pow_right (by decide) (Nat.size_le.mpr (by omega))

/-! ## The ranges -/

/-- The first multiple of `a` from `x` on. -/
def alignUp (a x : Nat) : Nat := if x % a = 0 then x else x + (a - x % a)

theorem le_alignUp {a : Nat} : x ≤ alignUp a x := by
  unfold alignUp
  split <;> omega

theorem dvd_alignUp {a : Nat} (ha : 0 < a) : a ∣ alignUp a x := by
  unfold alignUp
  split
  case isTrue h => exact Nat.dvd_of_mod_eq_zero h
  case isFalse h =>
    have hsum : x + (a - x % a) = a * (x / a + 1) := by
      have hdiv := Nat.div_add_mod x a
      have hlt := Nat.mod_lt x ha
      rw [Nat.mul_succ]
      omega
    rw [hsum]
    exact Nat.dvd_mul_right a _

/-- Where values of these sizes are put, from `x` on: start and size. -/
def ranges (x : Nat) : List Nat → List (Nat × Nat)
  | [] => []
  | s :: sizes => (alignUp (slot s) x, s) :: ranges (alignUp (slot s) x + slot s) sizes

/-- The end of the last slot. -/
def finish (x : Nat) : List Nat → Nat
  | [] => x
  | s :: sizes => finish (alignUp (slot s) x + slot s) sizes

theorem le_finish : x ≤ finish x sizes := by
  induction sizes generalizing x with
  | nil => exact Nat.le_refl x
  | cons s sizes ih =>
    have hle : x ≤ alignUp (slot s) x := le_alignUp
    exact Nat.le_trans (by omega) (ih (x := alignUp (slot s) x + slot s))

theorem map_snd_ranges : (ranges x sizes).map Prod.snd = sizes := by
  induction sizes generalizing x with
  | nil => rfl
  | cons s sizes ih => rw [ranges, List.map_cons, ih]

theorem mem_ranges {r : Nat × Nat} (h : r ∈ ranges x sizes) :
    slot r.2 ∣ r.1 ∧ x ≤ r.1 ∧ r.1 + r.2 ≤ finish x sizes := by
  induction sizes generalizing x with
  | nil => cases h
  | cons s sizes ih =>
    have hle : x ≤ alignUp (slot s) x := le_alignUp
    rcases List.mem_cons.mp h with rfl | hmem
    · have hs : s ≤ slot s := le_slot
      have hend : alignUp (slot s) x + slot s ≤ finish x (s :: sizes) := le_finish
      exact ⟨dvd_alignUp slot_pos, hle, by omega⟩
    · obtain ⟨hdvd, hstart, hend⟩ := ih hmem
      exact ⟨hdvd, by omega, hend⟩

theorem ranges_pairwise : (ranges x sizes).Pairwise fun r r' => r.1 + r.2 ≤ r'.1 := by
  induction sizes generalizing x with
  | nil => exact List.Pairwise.nil
  | cons s sizes ih =>
    refine List.Pairwise.cons (fun r hr => ?_) ih
    have hs : s ≤ slot s := le_slot
    have hstart := (mem_ranges hr).2.1
    omega

/-! ## Bytes at a place -/

section memory
variable {α : Type*} {m m' : Nat → α} {a b : Nat} {bytes : List α}

def write (m : Nat → α) (a : Nat) (bytes : List α) : Nat → α :=
  fun x => if a ≤ x then bytes[x - a]?.getD (m x) else m x

def read (m : Nat → α) (a n : Nat) : List α := (List.range n).map fun k => m (a + k)

theorem read_congr (h : ∀ k < n, m (a + k) = m' (a + k)) : read m a n = read m' a n :=
  List.map_congr_left fun k hk => h k (List.mem_range.mp hk)

theorem write_below (h : x < a) : write m a bytes x = m x := if_neg (by omega)

theorem read_write : read (write m a bytes) a bytes.length = bytes := by
  refine List.ext_getElem (by simp [read]) fun k hk hk' => ?_
  simp [read, write, hk']

end memory

end Shamrock.Packing
