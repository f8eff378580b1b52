import Mathlib.Algebra.Order.Ring.Nat
import Mathlib.Tactic.Ring

/-!
# Boxes in a linear memory

A cell `(x, y, z)` lies at `z * slice + y * row + x`. Copying a box row by row is a sequence of
block copies.
-/
namespace Strided

variable {row slice x y z x' y' z' : Nat}

/-- The position of a cell. -/
def position (row slice x y z : Nat) : Nat := z * slice + y * row + x

theorem position_add (ox oy oz : Nat) : position row slice (ox + x) (oy + y) (oz + z) =
    position row slice ox oy oz + position row slice x y z := by
  unfold position
  ring

/-- A cell of a region below the far corner comes before the end. -/
theorem position_lt {ox oy oz rx ry rz size : Nat} (hx : ox + rx ≤ row)
    (hy : (oy + ry) * row ≤ slice) (hz : (oz + rz) * slice ≤ size) (h₁ : x < rx) (h₂ : y < ry)
    (h₃ : z < rz) : position row slice (ox + x) (oy + y) (oz + z) < size := by
  have hrow : (oy + y + 1) * row ≤ (oy + ry) * row := Nat.mul_le_mul_right row (by omega)
  have hslice : (oz + z + 1) * slice ≤ (oz + rz) * slice := Nat.mul_le_mul_right slice (by omega)
  rw [Nat.add_mul (oy + y)] at hrow
  rw [Nat.add_mul (oz + z)] at hslice
  unfold position
  omega

/-- A number is determined by its quotient and remainder. -/
theorem eq_of_mul_add_eq {a b r s n : Nat} (hr : r < n) (hs : s < n)
    (h : a * n + r = b * n + s) : a = b ∧ r = s := by
  have ha : (a * n + r) / n = a := by
    rw [Nat.mul_comm, Nat.mul_add_div (by omega), Nat.div_eq_of_lt hr, Nat.add_zero]
  have hb : (b * n + s) / n = b := by
    rw [Nat.mul_comm, Nat.mul_add_div (by omega), Nat.div_eq_of_lt hs, Nat.add_zero]
  have hab : a = b := by rw [← ha, ← hb, h]
  subst hab
  exact ⟨rfl, by omega⟩

/-- Cells that stay in their row and their slice have different positions. -/
theorem position_injective (hx : x < row) (hx' : x' < row) (hy : y * row + x < slice)
    (hy' : y' * row + x' < slice)
    (h : position row slice x y z = position row slice x' y' z') : x = x' ∧ y = y' ∧ z = z' := by
  unfold position at h
  rw [Nat.add_assoc, Nat.add_assoc] at h
  obtain ⟨hz, hrest⟩ := eq_of_mul_add_eq hy hy' h
  obtain ⟨hyy, hxx⟩ := eq_of_mul_add_eq hx hx' hrest
  exact ⟨hxx, hyy, hz⟩

/-- A cell of a region whose rows fit the pitch and whose slices fit theirs. -/
theorem lt_slice {rx ry : Nat} (hrow : rx ≤ row) (hslice : ry * row ≤ slice) (hx : x < rx)
    (hy : y < ry) : y * row + x < slice := by
  have hle : (y + 1) * row ≤ ry * row := Nat.mul_le_mul_right row hy
  rw [Nat.add_mul] at hle
  omega

/-- Two runs of `n` numbers, from `a` and from `b` on, meet. -/
def Near (a b n : Nat) : Prop := a < b + n ∧ b < a + n

instance (a b n : Nat) : Decidable (Near a b n) := inferInstanceAs (Decidable (_ ∧ _))

theorem near_iff {a b n : Nat} : Near a b n ↔ ∃ i < n, ∃ j < n, a + i = b + j := by
  unfold Near
  constructor
  · rintro ⟨hab, hba⟩
    rcases Nat.le_total a b with hle | hle
    · exact ⟨b - a, by omega, 0, by omega, by omega⟩
    · exact ⟨0, by omega, a - b, by omega, by omega⟩
  · rintro ⟨i, hi, j, hj, heq⟩
    omega

/-- Two boxes of the same size in the same rows and slices have a cell in common exactly when they
are near each other in each dimension. -/
theorem boxes_meet_iff {ox oy ox' oy' rx ry : Nat} (oz oz' rz : Nat) (hx : ox + rx ≤ row)
    (hy : (oy + ry) * row ≤ slice) (hx' : ox' + rx ≤ row) (hy' : (oy' + ry) * row ≤ slice) :
    (∃ x < rx, ∃ y < ry, ∃ z < rz, ∃ x' < rx, ∃ y' < ry, ∃ z' < rz,
      position row slice (ox + x) (oy + y) (oz + z) =
        position row slice (ox' + x') (oy' + y') (oz' + z')) ↔
      Near ox ox' rx ∧ Near oy oy' ry ∧ Near oz oz' rz := by
  constructor
  · rintro ⟨x, h₁, y, h₂, z, h₃, x', h₁', y', h₂', z', h₃', heq⟩
    have hcell : (oy + y) * row + (ox + x) < slice := lt_slice hx hy (by omega) (by omega)
    have hcell' : (oy' + y') * row + (ox' + x') < slice := lt_slice hx' hy' (by omega) (by omega)
    obtain ⟨hxx, hyy, hzz⟩ := position_injective (by omega) (by omega) hcell hcell' heq
    exact ⟨near_iff.mpr ⟨x, h₁, x', h₁', hxx⟩, near_iff.mpr ⟨y, h₂, y', h₂', hyy⟩,
      near_iff.mpr ⟨z, h₃, z', h₃', hzz⟩⟩
  · rintro ⟨hnx, hny, hnz⟩
    obtain ⟨x, h₁, x', h₁', hxx⟩ := near_iff.mp hnx
    obtain ⟨y, h₂, y', h₂', hyy⟩ := near_iff.mp hny
    obtain ⟨z, h₃, z', h₃', hzz⟩ := near_iff.mp hnz
    refine ⟨x, h₁, y, h₂, z, h₃, x', h₁', y', h₂', z', h₃', ?_⟩
    rw [hxx, hyy, hzz]

section Copies

variable {α : Type*} {m : Nat → α} {rows : List (Nat × Nat)} {n a : Nat}

/-- `memcpy` on blocks that do not overlap. -/
def memcpy (m : Nat → α) (dst src n : Nat) : Nat → α :=
  fun a => if dst ≤ a ∧ a < dst + n then m (src + (a - dst)) else m a

/-- Block copies of `n` bytes, each to the first from the second position. -/
def copyRows (n : Nat) (m : Nat → α) (rows : List (Nat × Nat)) : Nat → α :=
  rows.foldl (fun m r => memcpy m r.1 r.2 n) m

theorem memcpy_inside (m : Nat → α) (dst src : Nat) (hx : x < n) :
    memcpy m dst src n (dst + x) = m (src + x) := by
  unfold memcpy
  rw [if_pos (by omega), Nat.add_sub_cancel_left]

theorem memcpy_outside (m : Nat → α) (dst src : Nat) (h : ∀ x < n, a ≠ dst + x) :
    memcpy m dst src n a = m a := by
  unfold memcpy
  rw [if_neg]
  rintro ⟨hle, hlt⟩
  exact h (a - dst) (by omega) (by omega)

theorem copyRows_outside (h : ∀ r ∈ rows, ∀ x < n, a ≠ r.1 + x) : copyRows n m rows a = m a := by
  induction rows generalizing m with
  | nil => rfl
  | cons r rows ih =>
    have hrest := ih (m := memcpy m r.1 r.2 n) fun r' hr' => h r' (List.mem_cons_of_mem r hr')
    exact hrest.trans (memcpy_outside m r.1 r.2 (h r List.mem_cons_self))

/-- Rows written once, and never read after that. -/
theorem copyRows_inside
    (hd : rows.Pairwise fun r r' => ∀ x < n, ∀ x' < n, r.1 + x ≠ r'.1 + x')
    (hs : ∀ r ∈ rows, ∀ r' ∈ rows, ∀ x < n, ∀ x' < n, r.1 + x ≠ r'.2 + x')
    {r : Nat × Nat} (hr : r ∈ rows) (hx : x < n) :
    copyRows n m rows (r.1 + x) = m (r.2 + x) := by
  induction rows generalizing m with
  | nil => cases hr
  | cons r₀ rows ih =>
    obtain ⟨hfirst, hrest⟩ := List.pairwise_cons.mp hd
    rcases List.mem_cons.mp hr with rfl | hr'
    · -- the later copies leave the first row alone
      have hlater : copyRows n (memcpy m r.1 r.2 n) rows (r.1 + x) = memcpy m r.1 r.2 n (r.1 + x) :=
        copyRows_outside fun r' hr' x' hx' => hfirst r' hr' x hx x' hx'
      exact hlater.trans (memcpy_inside m r.1 r.2 hx)
    · have hcopied := ih (m := memcpy m r₀.1 r₀.2 n) hrest
        (fun q hq q' hq' => hs q (List.mem_cons_of_mem r₀ hq) q' (List.mem_cons_of_mem r₀ hq')) hr'
      have hkept : memcpy m r₀.1 r₀.2 n (r.2 + x) = m (r.2 + x) :=
        memcpy_outside m r₀.1 r₀.2 fun x' hx' heq =>
          hs r₀ List.mem_cons_self r hr x' hx' x hx heq.symm
      exact hcopied.trans hkept

end Copies

end Strided
