import Mathlib.Algebra.Group.Nat.Defs
import Mathlib.Data.List.Forall2
import Shamrock.Lib.Calls
import Shamrock.Runtime.Kernel

/-!
# The signature of a kernel on its devices

`Kernel::addFunction` builds the arguments of a kernel from the first function, and compares the
functions of the other devices with them.
-/
namespace Shamrock.Runtime

open Shamrock.Calls

/-- The types of LLVM as far as `addFunction` tells them apart. -/
inductive LlvmType
  | pointer (space : Nat) (element : LlvmType)
  | vector (count : Nat) (element : LlvmType)
  | array (count : Nat) (element : LlvmType)
  | float
  | double
  | integer (bits : Nat)
  | struct (name : String)
  | other
  deriving DecidableEq, Repr

/-- `llvm::DataLayout`, for the types of one module. -/
structure DataLayout where
  storeSize : LlvmType → Nat
  abiAlignment : LlvmType → Nat
  /-- the width of `getSmallestLegalIntType`, if there is one -/
  smallestLegalInt : Nat → Option Nat

structure Param where
  type : LlvmType
  byVal : Bool
  deriving DecidableEq, Repr

/-- `llvm::Function`; `wiAllocaSize` is the number behind `_wi_alloca_size=` in its attributes. -/
structure LlvmFunction where
  name : String
  wiAllocaSize : Option Int
  params : List Param
  deriving DecidableEq, Repr

/-- `(Arg::File)space` -/
def ArgFile.ofSpace : Nat → ArgFile
  | 0 => .priv
  | 1 => .global
  | 2 => .loc
  | 3 => .constant
  | n + 4 => .other (n + 4)

namespace LlvmType

/-- The kind of an argument that points to such a type. -/
def pointerKind : LlvmType → ArgKind
  | .struct name =>
    if name.toList.take 14 = "struct.image2d".toList then .image2D
    else if name.toList.take 14 = "struct.image3d".toList then .image3D
    else .buffer
  | _ => .buffer

def scalarKind : LlvmType → ArgKind
  | .float => .float
  | .double => .double
  | .integer 8 => .int8
  | .integer 16 => .int16
  | .integer 32 => .int32
  | .integer 64 => .int64
  | .struct _ => .structType
  | _ => .invalid

def isInteger : LlvmType → Bool
  | .integer _ => true
  | _ => false

end LlvmType

namespace Param

/-- A parameter passed by value is written as a pointer. -/
def argType (p : Param) : LlvmType :=
  match p.type with
  | .pointer space element => if p.byVal then element else .pointer space element
  | t => t

/-- The number of elements, as the type has it. -/
def vectorSize (p : Param) : Nat :=
  match p.argType with
  | .vector count _ | .array count _ => count
  | _ => 1

/-- `vec_dim`, an `unsigned short` -/
def vecDim (p : Param) : Nat := p.vectorSize % 2 ^ 16

def file (p : Param) : ArgFile :=
  match p.argType with
  | .pointer space element =>
    if element.pointerKind = .buffer then .ofSpace space else .global
  | _ => .priv

def kind (p : Param) : ArgKind :=
  match p.argType with
  | .pointer _ element => element.pointerKind
  | .vector _ element | .array _ element => element.scalarKind
  | t => t.scalarKind

/-- The argument needs memory at run time; for an image too, whose file is global. -/
def isLocal (p : Param) : Bool :=
  match p.argType with
  | .pointer space _ => ArgFile.ofSpace space = .loc
  | _ => false

def targetType (layout : DataLayout) (p : Param) : LlvmType :=
  match layout.smallestLegalInt (layout.storeSize p.type * 8) with
  | some width => if p.argType.isInteger then .integer width else p.argType
  | none => p.argType

def arg (layout : DataLayout) (p : Param) : Arg :=
  .create p.vecDim p.file p.kind (layout.abiAlignment (p.targetType layout))
    (layout.storeSize (p.targetType layout))

end Param

def Arg.sameSignature (a b : Arg) : Bool :=
  a.vecDim = b.vecDim && a.file = b.file && a.kind = b.kind

/-- `Kernel::DeviceDependent` -/
structure DeviceDependent where
  device : Nat
  function : LlvmFunction
  deriving DecidableEq, Repr

/-- A `Kernel` while `createKernel` adds the functions of the devices. -/
structure KernelSetup where
  name : String
  wiAllocaSize : Int
  kernel : Kernel
  deviceDependent : List DeviceDependent
  deriving DecidableEq, Repr

/-- One call of `addFunction`. -/
structure AddFunction where
  device : Nat
  function : LlvmFunction
  layout : DataLayout

/-- The loop over the parameters from the one at `i` on. -/
def addArgs (layout : DataLayout) (append : Bool) : Nat → Kernel → List Param → Kernel × Int
  | _, k, [] => (k, clSuccess)
  | i, k, p :: ps =>
    let k := { k with hasLocals := k.hasLocals || p.isLocal }
    let a := p.arg layout
    if a.kind = .invalid then (k, clInvalidKernelDefinition)
    else if append = false ∧ (k.args[i]?.any a.sameSignature) = false then
      (k, clInvalidKernelDefinition)
    else addArgs layout append (i + 1) (if append then { k with args := k.args ++ [a] } else k) ps

namespace KernelSetup

def constructed : KernelSetup where
  name := ""
  wiAllocaSize := 0
  kernel := ⟨[], false⟩
  deviceDependent := []

/-- `Kernel::addFunction`, with the status it returns. -/
def addFunction (s : KernelSetup) (c : AddFunction) : KernelSetup × Int :=
  let f := c.function
  let s := { s with name := f.name, wiAllocaSize := f.wiAllocaSize.getD s.wiAllocaSize }
  let append : Bool := s.kernel.args = []
  if append = false ∧ s.kernel.args.length ≠ f.params.length then (s, clInvalidKernelDefinition)
  else
    let (k, status) := addArgs c.layout append 0 s.kernel f.params
    let s := { s with kernel := k }
    if status = clSuccess then
      ({ s with deviceDependent := s.deviceDependent ++ [⟨c.device, f⟩] }, clSuccess)
    else (s, status)

end KernelSetup

/-- The loop accepts the parameter beside an argument that is there. -/
def Param.Fits (p : Param) (a : Arg) : Prop :=
  p.kind ≠ .invalid ∧ p.vecDim = a.vecDim ∧ p.file = a.file ∧ p.kind = a.kind

instance {p : Param} {a : Arg} : Decidable (p.Fits a) := inferInstanceAs (Decidable (_ ∧ _))

/-- The parameter has the vector size, the address space and the kind of the argument. -/
structure Param.Agrees (p : Param) (a : Arg) : Prop where
  size : p.vectorSize = a.vecDim
  file : p.file = a.file
  kind : p.kind = a.kind

namespace KernelSetup

/-- Every registered function has the parameters that the arguments describe. -/
def Agreeing (s : KernelSetup) : Prop :=
  ∀ d ∈ s.deviceDependent, List.Forall₂ Param.Agrees d.function.params s.kernel.args

/-- A call that succeeds leaves functions that agree, and one that fails changes nothing. -/
def Exact (s : KernelSetup) (c : AddFunction) : Prop :=
  let (t, status) := s.addFunction c
  if status = clSuccess then t.Agreeing
  else t.kernel.args = s.kernel.args ∧ t.kernel.hasLocals = s.kernel.hasLocals ∧
    t.deviceDependent = s.deviceDependent

/-- The index of the parameter at which the loop ends with an error. -/
def refusedAt (s : KernelSetup) (params : List Param) : Option Nat :=
  if s.kernel.args = [] then params.findIdx? fun p => p.kind = .invalid
  else (params.zip s.kernel.args).findIdx? fun q => ¬q.1.Fits q.2

/-- No vector size is cut, and after a kernel without arguments comes none with arguments. A
parameter is only refused before an argument is appended and before a `__local` pointer, unless
there was one before. -/
def Clean (s : KernelSetup) (c : AddFunction) : Prop :=
  s.kernel.args = [] ∨ s.kernel.args.length = c.function.params.length →
    match s.refusedAt c.function.params with
    | none => (∀ p ∈ c.function.params, p.vectorSize < 2 ^ 16) ∧
        (s.kernel.args = [] → s.deviceDependent = [] ∨ c.function.params = [])
    | some i => (s.kernel.args = [] → i = 0) ∧
        (s.kernel.hasLocals = false → ∀ p ∈ c.function.params.take (i + 1), p.isLocal = false)

end KernelSetup

section AddFunction

variable {layout : DataLayout} {p : Param} {ps : List Param} {a : Arg} {args : List Arg}
  {k : Kernel} {i : Nat} {s : KernelSetup} {c : AddFunction}

@[simp] theorem Param.arg_vecDim : (p.arg layout).vecDim = p.vecDim := rfl

@[simp] theorem Param.arg_file : (p.arg layout).file = p.file := rfl

@[simp] theorem Param.arg_kind : (p.arg layout).kind = p.kind := rfl

/-- Building the arguments: those before the first unknown type are appended. -/
theorem addArgs_append : addArgs layout true i k ps =
    match ps.findIdx? fun p => p.kind = .invalid with
    | none => (⟨k.args ++ ps.map (Param.arg layout), k.hasLocals || ps.any Param.isLocal⟩,
        clSuccess)
    | some n => (⟨k.args ++ (ps.take n).map (Param.arg layout),
        k.hasLocals || (ps.take (n + 1)).any Param.isLocal⟩, clInvalidKernelDefinition) := by
  induction ps generalizing i k with
  | nil => simp [addArgs]
  | cons p ps ih =>
    rw [addArgs, List.findIdx?_cons]
    by_cases hkind : p.kind = .invalid
    · simp [hkind]
    · simp only [Param.arg_kind, hkind, if_false, Bool.true_eq_false, false_and, if_true, ih,
        decide_false, Bool.false_eq_true]
      cases ps.findIdx? fun p => p.kind = .invalid with
      | none => simp [Bool.or_assoc]
      | some n => simp [Bool.or_assoc]

/-- Comparing with the arguments: they stay as they are. -/
theorem addArgs_check (hlen : (k.args.drop i).length = ps.length) : addArgs layout false i k ps =
    match (ps.zip (k.args.drop i)).findIdx? fun q => ¬q.1.Fits q.2 with
    | none => (⟨k.args, k.hasLocals || ps.any Param.isLocal⟩, clSuccess)
    | some n => (⟨k.args, k.hasLocals || (ps.take (n + 1)).any Param.isLocal⟩,
        clInvalidKernelDefinition) := by
  induction ps generalizing i k with
  | nil => simp [addArgs]
  | cons p ps ih =>
    have hi : i < k.args.length := by
      rw [List.length_drop, List.length_cons] at hlen
      omega
    have hrest : (k.args.drop (i + 1)).length = ps.length := by
      rw [List.length_drop, List.length_cons] at hlen
      rw [List.length_drop]
      omega
    have hfits : p.Fits k.args[i] ↔
        p.kind ≠ .invalid ∧ (p.arg layout).sameSignature k.args[i] = true := by
      simp only [Param.Fits, Arg.sameSignature, Bool.and_eq_true, decide_eq_true_iff, and_assoc]
      exact Iff.rfl
    rw [addArgs, List.drop_eq_getElem_cons hi, List.zip_cons_cons, List.findIdx?_cons,
      List.getElem?_eq_getElem hi]
    by_cases hkind : p.kind = .invalid
    · simp [hkind, hfits]
    · by_cases hsame : (p.arg layout).sameSignature k.args[i] = true
      · simp only [Param.arg_kind, hkind, if_false, Option.any_some, hsame, Bool.true_eq_false,
          and_false, Bool.false_eq_true, hfits, ne_eq, not_false_eq_true, and_true, not_true,
          decide_false]
        rw [ih (k := ⟨k.args, k.hasLocals || p.isLocal⟩) hrest]
        cases (ps.zip (k.args.drop (i + 1))).findIdx? fun q => ¬q.1.Fits q.2 with
        | none => simp [Bool.or_assoc]
        | some n => simp [Bool.or_assoc]
      · simp [hkind, hfits, hsame]

theorem Param.vecDim_lt : p.vecDim < 2 ^ 16 := Nat.mod_lt _ (by decide)

/-- The arguments that a function gives agree with it unless a size was cut. -/
theorem agrees_args_iff : List.Forall₂ Param.Agrees ps (ps.map (Param.arg layout)) ↔
    ∀ p ∈ ps, p.vectorSize < 2 ^ 16 := by
  induction ps with
  | nil => simp
  | cons p ps ih =>
    rw [List.map_cons, List.forall₂_cons, ih, List.forall_mem_cons]
    refine and_congr_left fun _ => ⟨fun h => ?_, fun h => ?_⟩
    · rw [h.size]
      exact Param.vecDim_lt
    · exact ⟨(Nat.mod_eq_of_lt h).symm, rfl, rfl⟩

theorem agrees_iff_of_fits (h : List.Forall₂ Param.Fits ps args) :
    List.Forall₂ Param.Agrees ps args ↔ ∀ p ∈ ps, p.vectorSize < 2 ^ 16 := by
  induction h with
  | nil => simp
  | @cons p a ps args hfits _ ih =>
    rw [List.forall₂_cons, ih, List.forall_mem_cons]
    refine and_congr_left fun _ => ⟨fun h => ?_, fun h => ?_⟩
    · rw [h.size, ← hfits.2.1]
      exact Param.vecDim_lt
    · exact ⟨(Nat.mod_eq_of_lt h).symm.trans hfits.2.1, hfits.2.2.1, hfits.2.2.2⟩

/-- The two ways through the loop. -/
theorem addArgs_eq (hlen : s.kernel.args = [] ∨ s.kernel.args.length = ps.length) :
    addArgs layout (s.kernel.args = []) 0 s.kernel ps =
    match s.refusedAt ps with
    | none => (⟨if s.kernel.args = [] then ps.map (Param.arg layout) else s.kernel.args,
        s.kernel.hasLocals || ps.any Param.isLocal⟩, clSuccess)
    | some n => (⟨if s.kernel.args = [] then (ps.take n).map (Param.arg layout) else s.kernel.args,
        s.kernel.hasLocals || (ps.take (n + 1)).any Param.isLocal⟩,
        clInvalidKernelDefinition) := by
  unfold KernelSetup.refusedAt
  by_cases hargs : s.kernel.args = []
  · simp only [hargs, decide_true, if_true, addArgs_append, List.nil_append]
  · have hlen' : (s.kernel.args.drop 0).length = ps.length := by
      rw [List.drop_zero]
      exact hlen.resolve_left hargs
    simp only [hargs, decide_false, if_false, addArgs_check hlen', List.drop_zero]

/-- No parameter is refused if all of them fit. -/
theorem forall₂_fits (hargs : s.kernel.args ≠ []) (hlen : s.kernel.args.length = ps.length)
    (h : s.refusedAt ps = none) : List.Forall₂ Param.Fits ps s.kernel.args := by
  unfold KernelSetup.refusedAt at h
  rw [if_neg hargs, List.findIdx?_eq_none_iff] at h
  rw [List.forall₂_iff_zip]
  refine ⟨hlen.symm, fun {p a} hmem => ?_⟩
  simpa using h (p, a) hmem

/-- Functions that agree with no arguments agree with a list only if one of them is empty. -/
theorem agreeing_iff_of_nil (ha : s.Agreeing) (hargs : s.kernel.args = []) :
    (∀ d ∈ s.deviceDependent, List.Forall₂ Param.Agrees d.function.params args) ↔
      s.deviceDependent = [] ∨ args = [] := by
  have hnil : ∀ d ∈ s.deviceDependent, d.function.params = [] := by
    intro d hd
    have h := ha d hd
    rw [hargs] at h
    exact List.forall₂_nil_right_iff.mp h
  constructor
  · intro h
    rcases List.eq_nil_or_concat s.deviceDependent with hs | ⟨ds, d, hs⟩
    · exact .inl hs
    · have hd : d ∈ s.deviceDependent := by simp [hs]
      have hargs := h d hd
      rw [hnil d hd] at hargs
      exact .inr (List.forall₂_nil_left_iff.mp hargs)
  · rintro (hs | rfl) d hd
    · simp [hs] at hd
    · rw [hnil d hd]
      exact .nil

namespace KernelSetup

/-- What every call writes. -/
def named (s : KernelSetup) (f : LlvmFunction) : KernelSetup :=
  { s with name := f.name, wiAllocaSize := f.wiAllocaSize.getD s.wiAllocaSize }

theorem addFunction_count
    (h : ¬(s.kernel.args = [] ∨ s.kernel.args.length = c.function.params.length)) :
    s.addFunction c = (s.named c.function, clInvalidKernelDefinition) := by
  rw [not_or] at h
  unfold addFunction
  dsimp only
  rw [if_pos ⟨decide_eq_false h.1, h.2⟩]
  rfl

theorem addFunction_none
    (hlen : s.kernel.args = [] ∨ s.kernel.args.length = c.function.params.length)
    (h : s.refusedAt c.function.params = none) : s.addFunction c =
      ({ s.named c.function with
          kernel := ⟨if s.kernel.args = [] then c.function.params.map (Param.arg c.layout)
              else s.kernel.args, s.kernel.hasLocals || c.function.params.any Param.isLocal⟩
          deviceDependent := s.deviceDependent ++ [⟨c.device, c.function⟩] }, clSuccess) := by
  have hcount : ¬(decide (s.kernel.args = []) = false ∧
      s.kernel.args.length ≠ c.function.params.length) := by
    rintro ⟨hargs, hne⟩
    exact hlen.elim (of_decide_eq_false hargs) hne
  unfold addFunction
  dsimp only
  rw [if_neg hcount, addArgs_eq hlen, h]
  rfl

theorem addFunction_some {n : Nat}
    (hlen : s.kernel.args = [] ∨ s.kernel.args.length = c.function.params.length)
    (h : s.refusedAt c.function.params = some n) : s.addFunction c =
      ({ s.named c.function with
          kernel := ⟨if s.kernel.args = [] then (c.function.params.take n).map (Param.arg c.layout)
              else s.kernel.args,
            s.kernel.hasLocals || (c.function.params.take (n + 1)).any Param.isLocal⟩ },
        clInvalidKernelDefinition) := by
  have hcount : ¬(decide (s.kernel.args = []) = false ∧
      s.kernel.args.length ≠ c.function.params.length) := by
    rintro ⟨hargs, hne⟩
    exact hlen.elim (of_decide_eq_false hargs) hne
  unfold addFunction
  dsimp only
  rw [if_neg hcount, addArgs_eq hlen, h]
  rfl

theorem refusedAt_lt {n : Nat} (hargs : s.kernel.args = []) (h : s.refusedAt ps = some n) :
    n < ps.length := by
  unfold refusedAt at h
  rw [if_pos hargs] at h
  exact (List.findIdx?_eq_some_iff_getElem.mp h).1

/-- Nothing is left of a refused call if no argument and no `__local` pointer came before. -/
theorem exact_some_iff {n : Nat}
    (hlen : s.kernel.args = [] ∨ s.kernel.args.length = c.function.params.length)
    (h : s.refusedAt c.function.params = some n) : s.Exact c ↔
      (s.kernel.args = [] → n = 0) ∧ (s.kernel.hasLocals = false →
        ∀ p ∈ c.function.params.take (n + 1), p.isLocal = false) := by
  unfold Exact
  rw [addFunction_some hlen h]
  dsimp only
  rw [if_neg (by decide)]
  have hargs : (if s.kernel.args = [] then (c.function.params.take n).map (Param.arg c.layout)
      else s.kernel.args) = s.kernel.args ↔ (s.kernel.args = [] → n = 0) := by
    split_ifs with hnil
    · have hn := refusedAt_lt hnil h
      rw [hnil, List.map_eq_nil_iff, List.take_eq_nil_iff]
      constructor
      · rintro (hn | hps) -
        · exact hn
        · simp [hps] at hn
      · exact fun h => .inl (h rfl)
    · exact iff_of_true rfl fun h => absurd h hnil
  have hlocals : (s.kernel.hasLocals || (c.function.params.take (n + 1)).any Param.isLocal) =
      s.kernel.hasLocals ↔ (s.kernel.hasLocals = false →
        ∀ p ∈ c.function.params.take (n + 1), p.isLocal = false) := by
    cases s.kernel.hasLocals with
    | true => simp
    | false => simp only [Bool.false_or, List.any_eq_false, Bool.not_eq_true, true_implies]
  rw [hargs, hlocals]
  exact and_congr_right fun _ => ⟨fun h => h.1, fun h => ⟨h, rfl⟩⟩

theorem exact_none_iff (ha : s.Agreeing)
    (hlen : s.kernel.args = [] ∨ s.kernel.args.length = c.function.params.length)
    (h : s.refusedAt c.function.params = none) : s.Exact c ↔
      (∀ p ∈ c.function.params, p.vectorSize < 2 ^ 16) ∧
        (s.kernel.args = [] → s.deviceDependent = [] ∨ c.function.params = []) := by
  unfold Exact
  rw [addFunction_none hlen h]
  dsimp only
  rw [if_pos rfl]
  unfold Agreeing
  dsimp only
  rw [List.forall_mem_append, List.forall_mem_singleton]
  by_cases hargs : s.kernel.args = []
  · rw [if_pos hargs, agrees_args_iff, agreeing_iff_of_nil ha hargs, List.map_eq_nil_iff,
      and_comm]
    exact and_congr_right fun _ => ⟨fun h _ => h, fun h => h hargs⟩
  · rw [if_neg hargs, agrees_iff_of_fits (forall₂_fits hargs (hlen.resolve_left hargs) h)]
    exact ⟨fun h => ⟨h.2, fun h => absurd h hargs⟩, fun h => ⟨ha, h.1⟩⟩

theorem exact_iff (ha : s.Agreeing) : s.Exact c ↔ s.Clean c := by
  unfold Clean
  by_cases hlen : s.kernel.args = [] ∨ s.kernel.args.length = c.function.params.length
  · cases h : s.refusedAt c.function.params with
    | none =>
      rw [exact_none_iff ha hlen h]
      exact ⟨fun h _ => h, fun h => h hlen⟩
    | some n =>
      rw [exact_some_iff hlen h]
      exact ⟨fun h _ => h, fun h => h hlen⟩
  · refine iff_of_true ?_ fun h => absurd h hlen
    unfold Exact
    rw [addFunction_count hlen]
    exact ⟨rfl, rfl, rfl⟩

/-- The functions still agree after a call that is exact. -/
theorem agreeing_of_exact (ha : s.Agreeing) (h : s.Exact c) : (s.addFunction c).1.Agreeing := by
  unfold Exact at h
  dsimp only at h
  split_ifs at h with hstatus
  · exact h
  · unfold Agreeing
    rw [h.1, h.2.2]
    exact ha

/-- In every run of `addFunction` on a new kernel, the calls are all exact iff they are clean. -/
theorem signatures_exact_iff (cs : List AddFunction) :
    Each (fun s c => (s.addFunction c).1) Exact constructed cs ↔
      Each (fun s c => (s.addFunction c).1) Clean constructed cs :=
  each_iff (I := Agreeing) (fun _ _ ha h => agreeing_of_exact ha h) (fun _ _ ha => exact_iff ha)
    (fun _ hd => nomatch hd)

def ofParams (params : List Param) : AddFunction where
  device := 0
  function := ⟨"f", none, params⟩
  layout := ⟨fun _ => 8, fun _ => 8, fun _ => none⟩

/-- A kernel without parameters, and one with a parameter for the second device. -/
theorem empty_signature_replaced : ¬∀ cs : List AddFunction,
    Each (fun s c => (s.addFunction c).1) Exact constructed cs := by
  intro h
  have hlast := (h [ofParams [], ofParams [⟨.integer 32, false⟩]]).2.1
  have hagree : List.Forall₂ Param.Agrees [] [Arg.create 1 .priv .int32 8 8] :=
    hlast ⟨0, ⟨"f", none, []⟩⟩ (by decide)
  cases hagree

end KernelSetup

end AddFunction

end Shamrock.Runtime
