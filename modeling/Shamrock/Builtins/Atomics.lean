import Shamrock.Lib.AtomicCell
import Shamrock.Builtins.MadSat
import Mathlib.Data.BitVec

/-!
# Atomic functions

Each function is a program on one cell. The ones that are a read-modify-write operation take effect
in the order of their steps; `atomic_min` and `atomic_max` read the cell and never write it.
-/
namespace Shamrock.Builtins

open AtomicCell Transition

/-! ## The functions -/

/-- `y < x` -/
def below (t : ScalarType) (x y : BitVec t.bits) : Bool := decide (t.value y < t.value x)

def minOf (t : ScalarType) (x y : BitVec t.bits) : BitVec t.bits := if below t x y then y else x

def maxOf (t : ScalarType) (x y : BitVec t.bits) : BitVec t.bits := if below t y x then y else x

/-- `return f(*p, val)` -/
def readOnly {t : ScalarType} (f : BitVec t.bits → BitVec t.bits → BitVec t.bits)
    (val : BitVec t.bits) : Prog (BitVec t.bits) := .once id fun x => f x val

def atomicMinGlobalInt (val : BitVec 32) := readOnly (minOf .int) val
def atomicMinGlobalUInt (val : BitVec 32) := readOnly (minOf .uint) val
def atomicMinLocalInt (val : BitVec 32) := readOnly (minOf .int) val
def atomicMinLocalUInt (val : BitVec 32) := readOnly (minOf .uint) val
def atomicMinGlobalLong (val : BitVec 64) := readOnly (minOf .long) val
def atomicMinGlobalULong (val : BitVec 64) := readOnly (minOf .ulong) val
def atomicMinLocalLong (val : BitVec 64) := readOnly (minOf .long) val
def atomicMinLocalULong (val : BitVec 64) := readOnly (minOf .ulong) val

def atomicMaxGlobalInt (val : BitVec 32) := readOnly (maxOf .int) val
def atomicMaxGlobalUInt (val : BitVec 32) := readOnly (maxOf .uint) val
def atomicMaxLocalInt (val : BitVec 32) := readOnly (maxOf .int) val
def atomicMaxLocalUInt (val : BitVec 32) := readOnly (maxOf .uint) val
def atomicMaxGlobalLong (val : BitVec 64) := readOnly (maxOf .long) val
def atomicMaxGlobalULong (val : BitVec 64) := readOnly (maxOf .ulong) val
def atomicMaxLocalLong (val : BitVec 64) := readOnly (maxOf .long) val
def atomicMaxLocalULong (val : BitVec 64) := readOnly (maxOf .ulong) val

/-- A read-modify-write operation that returns what it has found. -/
def fetch {w : Nat} (f : BitVec w → BitVec w → BitVec w) (val : BitVec w) : Prog (BitVec w) :=
  .once (fun x => f x val) id

/-- These are the same for all types and address spaces. -/
def atomicAdd {w : Nat} (val : BitVec w) : Prog (BitVec w) := fetch (fun x v => x + v) val
def atomicSub {w : Nat} (val : BitVec w) : Prog (BitVec w) := fetch (fun x v => x - v) val
def atomicXchg {w : Nat} (val : BitVec w) : Prog (BitVec w) := fetch (fun _ v => v) val
def atomicInc {w : Nat} : Prog (BitVec w) := atomicAdd 1#w
def atomicDec {w : Nat} : Prog (BitVec w) := atomicSub 1#w
def atomicAnd {w : Nat} (val : BitVec w) : Prog (BitVec w) := fetch (fun x v => x &&& v) val
def atomicOr {w : Nat} (val : BitVec w) : Prog (BitVec w) := fetch (fun x v => x ||| v) val
def atomicXor {w : Nat} (val : BitVec w) : Prog (BitVec w) := fetch (fun x v => x ^^^ v) val

/-- `atomic_cmpxchg`: a failed comparison stores what it has found in `cmp`, which is returned. -/
def atomicCmpxchg {w : Nat} (cmp val : BitVec w) : Prog (BitVec w) :=
  .once (fun x => if x = cmp then val else x) fun x => if x = cmp then cmp else x

/-- The address space of the cell. -/
inductive AddressSpace
  | global
  | loc
  deriving DecidableEq, Repr

/-- `atomic_min` or `atomic_max` -/
inductive Extremum
  | min
  | max
  deriving DecidableEq, Repr

/-- The types of a cell. -/
inductive CellType
  | int
  | uint
  | long
  | ulong
  deriving DecidableEq, Repr

def CellType.scalar : CellType → ScalarType
  | int => .int
  | uint => .uint
  | long => .long
  | ulong => .ulong

namespace Extremum

/-- The variant for an address space and a type. -/
def call : Extremum → AddressSpace → (c : CellType) → BitVec c.scalar.bits →
    Prog (BitVec c.scalar.bits)
  | .min, .global, .int => atomicMinGlobalInt
  | .min, .global, .uint => atomicMinGlobalUInt
  | .min, .global, .long => atomicMinGlobalLong
  | .min, .global, .ulong => atomicMinGlobalULong
  | .min, .loc, .int => atomicMinLocalInt
  | .min, .loc, .uint => atomicMinLocalUInt
  | .min, .loc, .long => atomicMinLocalLong
  | .min, .loc, .ulong => atomicMinLocalULong
  | .max, .global, .int => atomicMaxGlobalInt
  | .max, .global, .uint => atomicMaxGlobalUInt
  | .max, .global, .long => atomicMaxGlobalLong
  | .max, .global, .ulong => atomicMaxGlobalULong
  | .max, .loc, .int => atomicMaxLocalInt
  | .max, .loc, .uint => atomicMaxLocalUInt
  | .max, .loc, .long => atomicMaxLocalLong
  | .max, .loc, .ulong => atomicMaxLocalULong

def of (e : Extremum) (t : ScalarType) (x y : BitVec t.bits) : BitVec t.bits :=
  match e with
  | .min => minOf t x y
  | .max => maxOf t x y

/-- `y` is nearer to the end of the range than `x`: less for `min`, greater for `max`. -/
def Beyond (e : Extremum) (t : ScalarType) (x y : BitVec t.bits) : Prop :=
  match e with
  | .min => t.value y < t.value x
  | .max => t.value x < t.value y

/-- What is expected of the calls with the values `v`: they take effect one after the other, each
returning what the cell held before its own update, the values only move in one direction, and in
the end the cell holds the extremum. -/
structure Accumulated {ι : Type*} (e : Extremum) (t : ScalarType) (init : BitVec t.bits)
    (v : ι → BitVec t.bits) (s : State ι (BitVec t.bits)) : Prop where
  linearized : ∃ order returned, Linearized (fun i x => e.of t x (v i)) init s order returned ∧
    (order.map returned ++ [s.value]).Pairwise fun x y => ¬e.Beyond t y x
  reached : s.value = init ∨ ∃ i, s.value = v i
  extremum : ¬e.Beyond t s.value init ∧ ∀ i, ¬e.Beyond t s.value (v i)

variable {ι : Type*} {e : Extremum} {space : AddressSpace} {c : CellType} {t : ScalarType}
  {init x y : BitVec t.bits} {v : ι → BitVec t.bits} {s : State ι (BitVec t.bits)} {order : List ι}

/-- All variants read the cell and compute. -/
theorem call_eq (val : BitVec c.scalar.bits) : e.call space c val =
    .once id fun x => e.of c.scalar x val := by
  cases e <;> cases space <;> cases c <;> rfl

theorem of_eq (h : ¬e.Beyond t x y) : e.of t x y = x := by
  cases e with
  | min =>
    have hle : ¬t.value y < t.value x := h
    exact if_neg (by rw [below, decide_eq_true_eq]; exact hle)
  | max =>
    have hle : ¬t.value x < t.value y := h
    exact if_neg (by rw [below, decide_eq_true_eq]; exact hle)

theorem not_beyond_self : ¬e.Beyond t x x := by
  cases e with
  | min => exact lt_irrefl (t.value x)
  | max => exact lt_irrefl (t.value x)

/-- The calls leave the cell as it was. -/
theorem cell_unchanged [DecidableEq ι] {v : ι → BitVec c.scalar.bits}
    {init : BitVec c.scalar.bits} {s : State ι (BitVec c.scalar.bits)}
    (h : Run (calls init fun i => e.call space c (v i)) order s) : s.value = init := by
  simp only [call_eq] at h
  rw [(taken_run h).value]
  exact after_eq_self fun _ _ => rfl

/-- If no value is beyond the initial one, nothing has to be updated. -/
theorem accumulated_of_none_beyond [DecidableEq ι] {v : ι → BitVec c.scalar.bits}
    {init : BitVec c.scalar.bits} {s : State ι (BitVec c.scalar.bits)}
    (h : Run (calls init fun i => e.call space c (v i)) order s) (hs : Finished s)
    (hv : ∀ i, ¬e.Beyond c.scalar init (v i)) : e.Accumulated c.scalar init v s := by
  have hvalue := cell_unchanged h
  simp only [call_eq] at h
  have htaken := taken_run h
  have hkept (l : List ι) : after (fun i x => e.of c.scalar x (v i)) init l = init :=
    after_eq_self fun i _ => of_eq (hv i)
  have hcomplete (i : ι) : i ∈ order := by
    obtain ⟨r, hr⟩ := hs i
    exact htaken.mem_of_ret hr
  have hreturns (i : ι) : s.prog i = .ret init := by
    obtain ⟨pre, post, horder⟩ := List.append_of_mem (hcomplete i)
    have hread : after (fun _ => id) init pre = init := after_eq_self fun _ _ => rfl
    rw [htaken.answered pre i post horder, hread, of_eq (hv i)]
  refine ⟨⟨order, fun _ => init, ⟨htaken.nodup, hcomplete, hreturns, fun pre _ _ _ =>
    (hkept pre).symm, hvalue.trans (hkept order).symm⟩, ?_⟩, Or.inl hvalue, ?_, fun i => ?_⟩
  · have hall : ∀ r ∈ order.map (fun _ => init) ++ [s.value], r = init := by
      intro r hr
      rcases List.mem_append.mp hr with hr | hr
      · obtain ⟨-, -, rfl⟩ := List.mem_map.mp hr
        rfl
      · rw [List.mem_singleton.mp hr, hvalue]
    refine List.Pairwise.imp_of_mem (R := fun _ _ => True) (fun hx hy _ => ?_)
      (List.pairwise_of_forall fun _ _ => trivial)
    rw [hall _ hx, hall _ hy]
    exact not_beyond_self
  · rw [hvalue]
    exact not_beyond_self
  · rw [hvalue]
    exact hv i

end Extremum

/-- The calls of `atomic_min` (`atomic_max`) accumulate exactly if no value is less (greater) than
the initial one. -/
theorem atomic_extremum_exact_iff {ι : Type*} [DecidableEq ι] (e : Extremum)
    (space : AddressSpace) (c : CellType) (init : BitVec c.scalar.bits)
    (v : ι → BitVec c.scalar.bits) (order : List ι) (s : State ι (BitVec c.scalar.bits))
    (h : Run (calls init fun i => e.call space c (v i)) order s) (hs : Finished s) :
    e.Accumulated c.scalar init v s ↔ ∀ i, ¬e.Beyond c.scalar init (v i) := by
  constructor
  · intro hacc i
    have hi := hacc.extremum.2 i
    rwa [Extremum.cell_unchanged h] at hi
  · exact Extremum.accumulated_of_none_beyond h hs

/-- A cell with the value 5 after one call of `atomic_min`. -/
def afterOneCall (val : BitVec 32) : State Unit (BitVec 32) where
  value := 5#32
  prog := Function.update (fun _ => Extremum.min.call .global .int val) ()
    (.ret (minOf .int 5#32 val))

theorem run_oneCall (val : BitVec 32) :
    Run (calls 5#32 fun _ : Unit => Extremum.min.call .global .int val) [()]
      (afterOneCall val) := by
  have hstart : Run (calls 5#32 fun _ : Unit => Extremum.min.call .global .int val) []
      ⟨5#32, fun _ => Extremum.min.call .global .int val⟩ := .initial rfl
  exact hstart.step (a := ()) rfl

theorem finished_oneCall (val : BitVec 32) : Finished (afterOneCall val) := fun _ => ⟨_, rfl⟩

/-- The values of three calls. -/
def threeValues (i : Fin 3) : BitVec 32 := [7#32, 5#32, 9#32].get i

/-- Three calls of `atomic_min` on a cell with the value 5, which the last of them reads first. -/
theorem greater_values_accumulate :
    ∃ s, Run (calls 5#32 fun i => Extremum.min.call .global .int (threeValues i)) [2, 0, 1] s ∧
      Extremum.min.Accumulated .int 5#32 threeValues s := by
  have hstart : Run (calls 5#32 fun i => Extremum.min.call .global .int (threeValues i)) []
      ⟨5#32, fun i => Extremum.min.call .global .int (threeValues i)⟩ := .initial rfl
  have hrun := ((hstart.step (a := 2) rfl).step (a := 0) rfl).step (a := 1) rfl
  have hnone : ∀ i, ¬ScalarType.value .int (threeValues i) < ScalarType.value .int 5#32 := by
    decide
  refine ⟨_, hrun, (atomic_extremum_exact_iff .min .global .int 5#32 threeValues [2, 0, 1] _ hrun
    fun i => ?_).mpr hnone⟩
  have hcases : ∀ i : Fin 3, i = 0 ∨ i = 1 ∨ i = 2 := by decide
  rcases hcases i with rfl | rfl | rfl <;> exact ⟨_, rfl⟩

/-- `atomic_min(p, 3)` on a cell with the value 5 -/
theorem lesser_value_lost : ¬∀ (ι : Type) [DecidableEq ι] (e : Extremum) (space : AddressSpace)
    (c : CellType) (init : BitVec c.scalar.bits) (v : ι → BitVec c.scalar.bits) (order : List ι)
    (s : State ι (BitVec c.scalar.bits)),
    Run (calls init fun i => e.call space c (v i)) order s → Finished s →
    e.Accumulated c.scalar init v s := by
  intro h
  have hacc := h Unit .min .global .int 5#32 (fun _ => 3#32) [()] (afterOneCall 3#32)
    (run_oneCall 3#32) (finished_oneCall 3#32)
  rcases hacc.reached with hvalue | ⟨_, hvalue⟩
  · have hbeyond : Extremum.min.Beyond .int (afterOneCall 3#32).value (3#32) := by
      show ScalarType.value .int 3#32 < ScalarType.value .int 5#32
      decide
    exact hacc.extremum.2 () hbeyond
  · exact absurd hvalue (by decide : (5#32 : BitVec 32) ≠ 3#32)

/-! ## Read-modify-write operations -/

/-- Calls of the functions that are one read-modify-write operation take effect in the order of
their steps. -/
theorem fetch_linearized {ι : Type*} [DecidableEq ι] {w : Nat} {f : BitVec w → BitVec w → BitVec w}
    {init : BitVec w} {v : ι → BitVec w} {order : List ι} {s : State ι (BitVec w)}
    (h : Run (calls init fun i => fetch f (v i)) order s) (hs : Finished s) :
    ∃ returned, Linearized (fun i x => f x (v i)) init s order returned :=
  linearized_of_finished h hs

theorem cmpxchg_linearized {ι : Type*} [DecidableEq ι] {w : Nat} {cmp v : ι → BitVec w}
    {init : BitVec w} {order : List ι} {s : State ι (BitVec w)}
    (h : Run (calls init fun i => atomicCmpxchg (cmp i) (v i)) order s) (hs : Finished s) :
    ∃ returned, Linearized (fun i x => if x = cmp i then v i else x) init s order returned := by
  have hcall (i : ι) : atomicCmpxchg (cmp i) (v i) =
      .once (fun x => if x = cmp i then v i else x) id := by
    unfold atomicCmpxchg
    congr 1
    funext x
    split
    case isTrue hx => exact hx.symm
    case isFalse => rfl
  simp only [hcall] at h
  exact linearized_of_finished h hs

/-- Nothing that is added is lost. -/
theorem atomicAdd_total {ι : Type*} [DecidableEq ι] {w : Nat} {init : BitVec w} {v : ι → BitVec w}
    {order : List ι} {s : State ι (BitVec w)}
    (h : Run (calls init fun i => atomicAdd (v i)) order s) (hs : Finished s) :
    order.Nodup ∧ (∀ i, i ∈ order) ∧ s.value = init + (order.map v).sum := by
  obtain ⟨returned, hlin⟩ := fetch_linearized h hs
  refine ⟨hlin.nodup, hlin.complete, ?_⟩
  rw [hlin.final, after]
  clear hlin h
  induction order generalizing init with
  | nil => simp
  | cons i l ih => rw [List.foldl_cons, ih, List.map_cons, List.sum_cons, BitVec.add_assoc]

end Shamrock.Builtins
