import Mathlib.Data.Nat.Digits.Defs
import Mathlib.Tactic.Ring

/-!
# Values as bytes

Values of `n` bytes in a memory with 64-bit addresses, the least significant byte first. An address
is given by its distance from another one, so that nothing depends on where the addresses wrap
around.
-/
namespace Shamrock.Bytes

variable {memory memory' : UInt64 → UInt8} {a b : UInt64} {n i k v count : Nat} {data : Nat → Nat}

/-- How far `b` is behind `a`. -/
def distance (a b : UInt64) : Nat := (b - a).toNat

theorem distance_add (hk : k < 2 ^ 64) : distance a (a + UInt64.ofNat k) = k := by
  have ha := a.toNat_lt
  unfold distance
  rw [UInt64.toNat_sub, UInt64.toNat_add, UInt64.toNat_ofNat']
  omega

theorem distance_add_left (hk : k ≤ distance a b) :
    distance (a + UInt64.ofNat k) b = distance a b - k := by
  have ha := a.toNat_lt
  have hb := b.toNat_lt
  unfold distance at hk ⊢
  rw [UInt64.toNat_sub] at hk ⊢
  rw [UInt64.toNat_sub, UInt64.toNat_add, UInt64.toNat_ofNat']
  omega

theorem le_distance_add_left (hk : k < 2 ^ 64) (hlt : distance a b < k) :
    2 ^ 64 - k ≤ distance (a + UInt64.ofNat k) b := by
  have ha := a.toNat_lt
  have hb := b.toNat_lt
  unfold distance at hlt ⊢
  rw [UInt64.toNat_sub] at hlt
  rw [UInt64.toNat_sub, UInt64.toNat_add, UInt64.toNat_ofNat']
  omega

/-- The byte of `v` at the place `k`. -/
def byte (v k : Nat) : UInt8 := UInt8.ofNat (v / 256 ^ k)

theorem toNat_byte : (byte v k).toNat = v / 256 ^ k % 256 := UInt8.toNat_ofNat' ..

/-- The lowest `n` bytes of a value. -/
def store (memory : UInt64 → UInt8) (a : UInt64) (n v : Nat) : UInt64 → UInt8 :=
  fun b => if distance a b < n then byte v (distance a b) else memory b

def load (memory : UInt64 → UInt8) (a : UInt64) (n : Nat) : Nat :=
  Nat.ofDigits 256 ((List.range n).map fun k => (memory (a + UInt64.ofNat k)).toNat)

theorem byte_zero : byte 0 k = 0 := by
  unfold byte
  rw [Nat.zero_div]
  rfl

theorem load_eq_mod (h : ∀ k < n, memory (a + UInt64.ofNat k) = byte v k) :
    load memory a n = v % 256 ^ n := by
  unfold load
  induction n with
  | zero => simp [Nat.mod_one]
  | succ n ih =>
    rw [List.range_succ, List.map_append, Nat.ofDigits_append, List.length_map, List.length_range,
      ih fun k hk => h k (by omega), Nat.mod_pow_succ]
    simp only [List.map_cons, List.map_nil, Nat.ofDigits_singleton]
    rw [h n (by omega), toNat_byte]

/-- `count` values of `n` bytes, one after the other. -/
def storeAll (memory : UInt64 → UInt8) (a : UInt64) (n : Nat) (data : Nat → Nat) :
    Nat → UInt64 → UInt8
  | 0 => memory
  | count + 1 =>
    store (storeAll memory a n data count) (a + UInt64.ofNat (n * count)) n (data count)

theorem storeAll_apply (h : n * count < 2 ^ 64) : storeAll memory a n data count b =
    if distance a b < n * count then byte (data (distance a b / n)) (distance a b % n)
    else memory b := by
  induction count with
  | zero => simp [storeAll]
  | succ count ih =>
    rw [Nat.mul_succ] at h ⊢
    have ih := ih (by omega)
    unfold storeAll store
    by_cases hin : distance a b < n * count
    · have hfar := le_distance_add_left (by omega) hin
      rw [if_neg (by omega), ih, if_pos hin, if_pos (by omega)]
    · have hnear := distance_add_left (Nat.le_of_not_lt hin)
      rw [hnear, ih, if_neg hin]
      by_cases hlast : distance a b < n * count + n
      · have hmul : distance a b = distance a b - n * count + n * count := by omega
        have hdiv : distance a b / n = count := by
          rw [hmul, Nat.add_mul_div_left _ _ (by omega), Nat.div_eq_of_lt (by omega)]
          omega
        have hmod : distance a b % n = distance a b - n * count := by
          conv_lhs => rw [hmul]
          rw [Nat.add_mul_mod_self_left, Nat.mod_eq_of_lt (by omega)]
        rw [if_pos (by omega), if_pos hlast, hdiv, hmod]
      · rw [if_neg (by omega), if_neg hlast]

/-- What is stored can be loaded again. -/
theorem load_storeAll (h : n * count < 2 ^ 64) (hi : i < count) :
    load (storeAll memory a n data count) (a + UInt64.ofNat (n * i)) n = data i % 256 ^ n := by
  refine load_eq_mod fun k hk => ?_
  have hle : n * i + n ≤ n * count := by
    rw [← Nat.mul_succ]
    exact Nat.mul_le_mul_left n hi
  have haddress : a + UInt64.ofNat (n * i) + UInt64.ofNat k = a + UInt64.ofNat (n * i + k) := by
    rw [UInt64.ofNat_add, UInt64.add_assoc]
  rw [haddress, storeAll_apply h, distance_add (by omega), if_pos (by omega),
    Nat.mul_add_div (by omega), Nat.div_eq_of_lt hk, Nat.mul_add_mod, Nat.mod_eq_of_lt hk,
    Nat.add_zero]

/-- Nothing else changes. -/
theorem storeAll_outside (h : n * count < 2 ^ 64) (hb : n * count ≤ distance a b) :
    storeAll memory a n data count b = memory b := by
  rw [storeAll_apply h, if_neg (by omega)]

theorem load_congr (h : ∀ k < n, memory (a + UInt64.ofNat k) = memory' (a + UInt64.ofNat k)) :
    load memory a n = load memory' a n := by
  unfold load
  congr 1
  refine List.map_congr_left fun k hk => ?_
  rw [h k (List.mem_range.mp hk)]

/-- The value behind the last one is still there. -/
theorem load_storeAll_behind (h : n * count + n < 2 ^ 64) :
    load (storeAll memory a n data count) (a + UInt64.ofNat (n * count)) n =
      load memory (a + UInt64.ofNat (n * count)) n := by
  refine load_congr fun k hk => storeAll_outside (by omega) ?_
  have haddress : a + UInt64.ofNat (n * count) + UInt64.ofNat k =
      a + UInt64.ofNat (n * count + k) := by
    rw [UInt64.ofNat_add, UInt64.add_assoc]
  rw [haddress, distance_add (by omega)]
  omega

theorem load_zero : load (fun _ => 0) a n = 0 := by
  have hmod : load (fun _ => 0) a n = 0 % 256 ^ n := load_eq_mod fun _ _ => byte_zero.symm
  rw [hmod, Nat.zero_mod]

end Shamrock.Bytes
