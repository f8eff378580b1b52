import Shamrock.Lib.LoopNest
import Mathlib.Data.List.ProdSigma
import Mathlib.Data.List.Nodup

/-!
# Work-group aggregation

`TIOpenclWorkGroupAggregation` puts loops around a kernel function and replaces its calls of
`get_local_id`. This is the mode that is not for pocl, where the whole body is one region.
-/
namespace Shamrock.Dsp

open LoopNest

def maxDimensions : Nat := 3

/-- The argument of a call. -/
inductive DimArg
  | const (dim : Fin 3)
  | runTime
  deriving DecidableEq, Repr

/-- What a call answers: by its place among the calls, and by the dimension it is asked for. -/
abbrev Answers := Nat → Nat → BitVec 32

def Asks (calls : List DimArg) (i d : Nat) : Prop :=
  match calls[i]? with
  | some (.const dim) => d = dim.val
  | some .runTime => d < 3
  | none => False

/-- A kernel function: its calls of `get_local_id`, and what its body does to the memory. There is
no effect if the body does not end. -/
structure Kernel (σ : Type) where
  calls : List DimArg
  effect : Answers → σ → Option σ
  depends : ∀ a a', (∀ i d, Asks calls i d → a i d = a' i d) → effect a = effect a'

/-! ## The pass -/

/-- `findNeededLoopNest` -/
def findNeededLoopNest (maxDim : Nat) : List DimArg → Nat
  | [] => maxDim
  | .const dim :: calls =>
    findNeededLoopNest (max maxDim (min (maxDimensions - 1) dim.val + 1)) calls
  | .runTime :: _ => 3

/-- The loops so far, the outermost first, and the loop whose counter `IVPhi` names. -/
structure Nested where
  loops : List Nat
  ivPhi : Nat → Option Nat

/-- `add_loop` -/
def addLoop (f : Nested) (dimIdx : Nat) : Nested where
  loops := dimIdx :: f.loops
  ivPhi := fun d =>
    if d = dimIdx ∨ (dimIdx < 1 ∧ d = 1) ∨ (dimIdx < 2 ∧ d = 2) then some dimIdx else f.ivPhi d

/-- What replaces a call. -/
inductive Value
  | phi (iv : Nat)
  | select (ivx ivy ivz : Nat)
  deriving DecidableEq, Repr

/-- `get_IV`; a counter that is missing would be a null pointer. -/
def getIV (f : Nested) : DimArg → Option Value
  | .const dim => (f.ivPhi dim.val).map .phi
  | .runTime => do return .select (← f.ivPhi 0) (← f.ivPhi 1) (← f.ivPhi 2)

/-- The function that the pass makes. -/
structure Aggregated where
  loops : List Nat
  values : List Value
  deriving DecidableEq, Repr

/-- `runOnFunction`, with `rewrite_ocl_funcs`. -/
def runOnFunction (calls : List DimArg) : Option Aggregated := do
  let dims := findNeededLoopNest 0 calls
  let f := (List.range dims).foldl addLoop ⟨[], fun _ => none⟩
  return { loops := f.loops, values := ← calls.mapM (getIV f) }

/-! ## Running a function -/

/-- The chain of selects: the second compares with one. -/
def Value.eval (iv : Nat → BitVec 32) (arg : Nat) : Value → BitVec 32
  | .phi d => iv d
  | .select ivx ivy ivz =>
    let syx := if arg = 2 then iv ivy else iv ivx
    if arg = 1 then iv ivz else syx

def Aggregated.answers (f : Aggregated) (iv : Nat → BitVec 32) : Answers := fun i d =>
  (f.values[i]?).elim 0 (Value.eval iv d)

/-- One run of the function; `sizes` are the words of `kernel_config_l2` with the local size. -/
def Aggregated.run {σ : Type} (f : Aggregated) (k : Kernel σ) (sizes : Nat → BitVec 32) (s : σ) :
    Option σ :=
  nest sizes (fun iv => k.effect (f.answers iv)) f.loops (fun _ => 0) s

/-- The local ids of a work-group, `z` first. -/
def workItems (sizes : Nat → BitVec 32) : List (Nat × Nat × Nat) :=
  List.range (sizes 2).toNat ×ˢ List.range (sizes 1).toNat ×ˢ List.range (sizes 0).toNat

/-- A component of a local id. -/
def localId (item : Nat × Nat × Nat) (d : Nat) : BitVec 32 :=
  match d with
  | 0 => BitVec.ofNat 32 item.2.2
  | 1 => BitVec.ofNat 32 item.2.1
  | 2 => BitVec.ofNat 32 item.1
  | _ => 0

/-- The new function runs the old body once for each work-item, in some order. -/
def Preserved {σ : Type} (k : Kernel σ) (sizes : Nat → BitVec 32) : Prop :=
  ∃ f, runOnFunction k.calls = some f ∧
    ∃ items : List (Nat × Nat × Nat), items.Perm (workItems sizes) ∧
    ∀ s, f.run k sizes s = items.foldlM (fun s item => k.effect (fun _ d => localId item d) s) s

/-- The loops count the dimensions that are needed, all other dimensions have size one, and what is
asked at run time does not tell the last two dimensions apart. If a loop is not entered, there is
nothing to run. -/
def Covered (calls : List DimArg) (sizes : Nat → BitVec 32) : Prop :=
  let dims := findNeededLoopNest 0 calls
  if ∀ d < dims, 0 < count (sizes d) then
    (∀ d < 3, dims ≤ d → (sizes d).toNat = 1) ∧
      (DimArg.runTime ∈ calls → (sizes 1).toNat = (sizes 2).toNat ∧
        ((sizes 1).toNat = 1 ∨ (DimArg.const 1 ∉ calls ∧ DimArg.const 2 ∉ calls)))
  else ∃ d < 3, (sizes d).toNat = 0

end Shamrock.Dsp
