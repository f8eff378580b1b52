import Mathlib.Algebra.BigOperators.Group.List.Basic
import Mathlib.Logic.Function.Basic

/-!
# Nests of counted loops

A loop counts a machine integer up to a signed bound, and tests the bound again after each pass. A
nest of loops runs its body for each reading of the counters, the innermost fastest.
-/
namespace LoopNest

variable {w : Nat} {σ : Type*}

/-- The passes of a loop that has been entered; `n` bounds their number. -/
def passes (bound : BitVec w) (body : BitVec w → σ → Option σ) : Nat → BitVec w → σ → Option σ
  | 0, _, _ => none
  | n + 1, i, s => (body i s).bind fun s =>
    if (i + 1#w).slt bound then passes bound body n (i + 1#w) s else some s

/-- A loop that is branched around when the bound is not positive. -/
def loop (bound : BitVec w) (body : BitVec w → σ → Option σ) (s : σ) : Option σ :=
  if (0#w).slt bound then passes bound body (2 ^ w) 0 s else some s

/-- How often it runs. -/
def count (bound : BitVec w) : Nat := if (0#w).slt bound then bound.toNat else 0

section Loop

variable {bound i : BitVec w} {body : BitVec w → σ → Option σ} {s : σ} {n : Nat}

theorem zero_slt_iff : (0#w).slt bound = true ↔ 0 < bound.toNat ∧ 2 * bound.toNat < 2 ^ w := by
  have hlt := bound.isLt
  rw [BitVec.slt_eq_decide, decide_eq_true_eq, BitVec.toInt_zero, BitVec.toInt_eq_toNat_cond]
  split <;> omega

theorem slt_iff_of_le (hb : 2 * bound.toNat < 2 ^ w) (hi : i.toNat ≤ bound.toNat) :
    i.slt bound = true ↔ i.toNat < bound.toNat := by
  rw [BitVec.slt_eq_decide, decide_eq_true_eq, BitVec.toInt_eq_toNat_of_lt (by omega),
    BitVec.toInt_eq_toNat_of_lt hb]
  omega

theorem passes_eq_foldlM (hb : 2 * bound.toNat < 2 ^ w) (hi : i.toNat < bound.toNat)
    (hn : bound.toNat - i.toNat ≤ n) :
    passes bound body n i s = (List.range' i.toNat (bound.toNat - i.toNat)).foldlM
      (fun s k => body (BitVec.ofNat w k) s) s := by
  induction n generalizing i s with
  | zero => omega
  | succ n ih =>
    obtain ⟨k, hk⟩ : ∃ k, bound.toNat - i.toNat = k + 1 := ⟨bound.toNat - i.toNat - 1, by omega⟩
    have hone : (1#w).toNat = 1 := by
      rw [BitVec.toNat_ofNat, Nat.mod_eq_of_lt (by omega)]
    have hnext : (i + 1#w).toNat = i.toNat + 1 := by
      rw [BitVec.toNat_add_of_lt (by omega), hone]
    rw [hk, List.range'_succ, List.foldlM_cons, BitVec.ofNat_toNat, BitVec.setWidth_eq, passes]
    refine Option.bind_congr fun s' _ => ?_
    by_cases hlt : i.toNat + 1 < bound.toNat
    · have hslt : (i + 1#w).slt bound = true := (slt_iff_of_le hb (by omega)).mpr (by omega)
      rw [if_pos hslt, ih (by omega) (by omega), hnext]
      congr 2
      omega
    · have hslt : ¬(i + 1#w).slt bound = true := fun h =>
        hlt (by have hlt := (slt_iff_of_le hb (by omega)).mp h; omega)
      obtain rfl : k = 0 := by omega
      rw [if_neg hslt]
      rfl

/-- A loop is a fold over the numbers that it counts. -/
theorem loop_eq_foldlM (bound : BitVec w) (body : BitVec w → σ → Option σ) (s : σ) :
    loop bound body s =
      (List.range (count bound)).foldlM (fun s k => body (BitVec.ofNat w k) s) s := by
  unfold loop count
  by_cases hpos : (0#w).slt bound = true
  · obtain ⟨hlt, hb⟩ := zero_slt_iff.mp hpos
    have hzero : (0#w).toNat = 0 := BitVec.toNat_zero
    have hpasses : passes bound body (2 ^ w) 0#w s = _ :=
      passes_eq_foldlM hb (by omega) (by omega)
    rw [if_pos hpos, if_pos hpos, List.range_eq_range']
    rw [hzero] at hpasses
    exact hpasses
  · rw [if_neg hpos, if_neg hpos]
    rfl

end Loop

section Nest

variable {bounds : Nat → BitVec w} {d : Nat} {ds : List Nat} {iv : Nat → BitVec w} {s : σ}

/-- Loops from the outermost to the innermost one, each with its counter. -/
def nest (bounds : Nat → BitVec w) (body : (Nat → BitVec w) → σ → Option σ) :
    List Nat → (Nat → BitVec w) → σ → Option σ
  | [], iv, s => body iv s
  | d :: ds, iv, s =>
    loop (bounds d) (fun i => nest bounds body ds (Function.update iv d i)) s

/-- The readings of the counters, in the order of the passes. -/
def readings (bounds : Nat → BitVec w) : List Nat → (Nat → BitVec w) → List (Nat → BitVec w)
  | [], iv => [iv]
  | d :: ds, iv => (List.range (count (bounds d))).flatMap fun k =>
    readings bounds ds (Function.update iv d (BitVec.ofNat w k))

theorem foldlM_flatMap {α β : Type*} (f : σ → β → Option σ) (g : α → List β) (l : List α) (s : σ) :
    (l.flatMap g).foldlM f s = l.foldlM (fun s a => (g a).foldlM f s) s := by
  induction l generalizing s with
  | nil => rfl
  | cons a l ih =>
    rw [List.flatMap_cons, List.foldlM_append, List.foldlM_cons]
    exact Option.bind_congr fun s' _ => ih s'

/-- A nest runs its body once for each reading. -/
theorem nest_eq_foldlM (body : (Nat → BitVec w) → σ → Option σ) (ds : List Nat)
    (iv : Nat → BitVec w) (s : σ) :
    nest bounds body ds iv s = (readings bounds ds iv).foldlM (fun s iv => body iv s) s := by
  induction ds generalizing iv s with
  | nil =>
    simp only [nest, readings, List.foldlM_cons, List.foldlM_nil, bind_pure]
  | cons d ds ih =>
    simp only [nest, readings, loop_eq_foldlM, foldlM_flatMap, ih]

theorem length_readings (ds : List Nat) (iv : Nat → BitVec w) :
    (readings bounds ds iv).length = (ds.map fun d => count (bounds d)).prod := by
  induction ds generalizing iv with
  | nil => rfl
  | cons d ds ih =>
    simp only [readings, List.length_flatMap, ih, List.map_const', List.sum_replicate_nat,
      List.length_range, List.map_cons, List.prod_cons]

end Nest

end LoopNest
