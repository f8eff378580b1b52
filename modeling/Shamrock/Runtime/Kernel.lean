import Mathlib.Data.List.Basic
import Shamrock.Codes

/-!
# Kernels and their arguments

A pointer is a `UInt64` and the data of an argument is a list of bytes, so that a memory object
given as an argument is eight bytes of data.
-/
namespace Shamrock.Runtime

abbrev KernelId := Nat

/-- The address that eight bytes hold, the lowest byte first. -/
def readPointer (bytes : List UInt8) : UInt64 :=
  (bytes.take 8).foldr (fun b p => p <<< 8 ||| b.toUInt64) 0

def pointerBytes (p : UInt64) : List UInt8 :=
  (List.range 8).map fun i => (p >>> (8 * i).toUInt64).toUInt8

/-- `Kernel::Arg::File` -/
inductive ArgFile
  | priv
  | global
  | loc
  | constant
  /-- an address space that the enumeration has no name for -/
  | other (space : Nat)
  deriving DecidableEq, Repr

/-- `Kernel::Arg::Kind` -/
inductive ArgKind
  | invalid
  | int8
  | int16
  | int32
  | int64
  | float
  | double
  | buffer
  | image2D
  | image3D
  | sampler
  | structType
  deriving DecidableEq, Repr

/-- `Kernel::Arg`; `data` is `p_data` once it has been allocated. -/
structure Arg where
  vecDim : Nat
  file : ArgFile
  kind : ArgKind
  targetAlignment : Nat
  targetSize : Nat
  data : Option (List UInt8)
  defined : Bool
  runtimeAlloc : Nat
  deriving DecidableEq, Repr

namespace Arg

def create (vecDim : Nat) (file : ArgFile) (kind : ArgKind) (targetAlignment targetSize : Nat) :
    Arg where
  vecDim := vecDim
  file := file
  kind := kind
  targetAlignment := targetAlignment
  targetSize := targetSize
  data := none
  defined := false
  runtimeAlloc := 0

def valueSize (a : Arg) : Nat :=
  match a.kind with
  | .invalid => 0
  | .int8 => 1
  | .int16 => 2
  | .int32 | .sampler | .float => 4
  | .int64 | .double => 8
  | .buffer | .image2D | .image3D => 8
  | .structType => a.targetSize

/-- `alloc`: zeroed, and only the first time. -/
def alloc (a : Arg) : Arg :=
  { a with data := some (a.data.getD (List.replicate (a.vecDim * a.valueSize) 0)) }

/-- `loadData`: `none` if its assertion fails, if nothing was allocated or if `size` bytes cannot
be read. -/
def loadData (a : Arg) (bytes : List UInt8) (size : Nat) : Option Arg :=
  match a.data with
  | none => none
  | some old =>
    if size ≤ a.vecDim * a.valueSize ∧ size ≤ bytes.length then
      some { a with data := some (bytes.take size ++ old.drop size), defined := true }
    else none

def setAllocAtKernelRuntime (a : Arg) (size : Nat) : Arg :=
  { a with runtimeAlloc := size, defined := true }

def refineKind (a : Arg) (kind : ArgKind) : Arg := { a with kind := kind }

/-- `*(MemObject **)a->value(0)` -/
def object (a : Arg) : UInt64 := readPointer (a.data.getD [])

/-- A buffer that the host gave, not one allocated at run time. -/
def isBuffer (a : Arg) : Bool := a.kind = .buffer && a.file ≠ .loc

def isImage (a : Arg) : Bool := a.kind = .image2D || a.kind = .image3D

end Arg

/-- A kernel: its arguments, and whether one of them is in `__local` memory. -/
structure Kernel where
  args : List Arg
  hasLocals : Bool
  deriving DecidableEq, Repr

namespace Kernel

def replaceArg (k : Kernel) (index : Nat) (a : Arg) : Kernel :=
  { k with args := k.args.set index a }

/-- `Kernel::setArg`, with the status it returns. `value` is what can be read at the pointer,
and `sampler` tells the bitfield of a known sampler object. `none` is a read past the arguments
or past `value`, or a failed assertion. -/
def setArg (sampler : UInt64 → Option UInt32) (k : Kernel) (index size : Nat)
    (value : Option (List UInt8)) : Option (Kernel × Int) :=
  if k.args.length < index then some (k, clInvalidArgIndex)
  else
    match k.args[index]? with
    | none => none
    | some arg =>
      let load (a : Arg) (bytes : List UInt8) : Option (Kernel × Int) :=
        (a.alloc.loadData bytes size).map fun a => (k.replaceArg index a, clSuccess)
      if arg.file = .loc then
        if size = 0 then some (k, clInvalidArgSize)
        else if value.isSome then some (k, clInvalidArgValue)
        else some (k.replaceArg index (arg.setAllocAtKernelRuntime size), clSuccess)
      else
        let argSize := arg.valueSize * arg.vecDim
        -- a sampler is a pointer for the host and 32 bits in the kernel
        let bitfield : Option (Option UInt32) :=
          if arg.kind = .sampler ∧ size = 8 ∧ argSize = 4 then
            match value with
            | none => none
            | some bytes => some (sampler (readPointer bytes))
          else some none
        match bitfield with
        | none => none
        | some (some bits) =>
          load (arg.refineKind .sampler)
            ((List.range 4).map fun i => (bits >>> (8 * i).toUInt32).toUInt8)
        | some none =>
          if size ≠ argSize ∧ arg.targetAlignment < size then some (k, clInvalidArgSize)
          else if arg.kind = .buffer ∨ arg.isImage then
            match value with
            | none => load arg (pointerBytes 0)
            | some bytes =>
              if 8 ≤ bytes.length then load arg (bytes.take 8) else none
          else
            match value with
            | none => some (k, clInvalidArgValue)
            | some bytes => load arg bytes

def argsSpecified (k : Kernel) : Bool := k.args.all Arg.defined

/-- The buffers among the arguments, as the constructor and the destructor of `KernelEvent` go
through them. -/
def bufferArgs (k : Kernel) : List UInt64 := (k.args.filter Arg.isBuffer).map Arg.object

/-- The images among the arguments. -/
def imageArgs (k : Kernel) : List UInt64 := (k.args.filter Arg.isImage).map Arg.object

end Kernel

/-- What a kernel is called with for one argument. -/
inductive Passed
  /-- a fresh `__local` buffer -/
  | localBuffer (size : Nat)
  /-- the data of a memory object on the device, or `NULL` -/
  | buffer (object : UInt64)
  | data (bytes : List UInt8)
  deriving DecidableEq, Repr

def Arg.passed (a : Arg) : Passed :=
  match a.kind with
  | .buffer => if a.file = .loc then .localBuffer a.runtimeAlloc else .buffer a.object
  | _ => .data (a.data.getD [])

/-- `CPUKernelWorkGroup::callArgs`: the arguments of one work-group, and what is cached for the
next ones. -/
def Kernel.callArgs (k : Kernel) (kernelArgs : Option (List Passed)) :
    List Passed × Option (List Passed) :=
  match kernelArgs, k.hasLocals with
  | some args, false => (args, some args)
  | _, _ =>
    (k.args.map Arg.passed, if k.hasLocals then kernelArgs else some (k.args.map Arg.passed))

theorem Arg.loadData_type {a a' : Arg} {bytes : List UInt8} {size : Nat}
    (h : a.loadData bytes size = some a') : a'.kind = a.kind ∧ a'.file = a.file := by
  unfold Arg.loadData at h
  split at h
  · cases h
  · split at h
    · cases h
      exact ⟨rfl, rfl⟩
    · cases h

/-- A call is refused and leaves the kernel alone, or it replaces an argument by one of the same
type. -/
theorem Kernel.setArg_cases {sampler : UInt64 → Option UInt32} {k k' : Kernel}
    {index size : Nat} {value : Option (List UInt8)} {rs : Int}
    (h : k.setArg sampler index size value = some (k', rs)) :
    (k' = k ∧ rs ≠ clSuccess) ∨ rs = clSuccess ∧ ∃ arg a, k.args[index]? = some arg ∧
      k' = k.replaceArg index a ∧ a.kind = arg.kind ∧ a.file = arg.file := by
  have hload : ∀ {arg a : Arg} {bytes : List UInt8}, k.args[index]? = some arg →
      a.kind = arg.kind → a.file = arg.file → ((a.alloc.loadData bytes size).map fun a =>
      (k.replaceArg index a, clSuccess)) = some (k', rs) →
      rs = clSuccess ∧ ∃ arg a, k.args[index]? = some arg ∧
        k' = k.replaceArg index a ∧ a.kind = arg.kind ∧ a.file = arg.file := by
    intro arg a bytes harg hkind hfile hl
    obtain ⟨a', ha', heq⟩ := Option.map_eq_some_iff.mp hl
    obtain ⟨hk, hf⟩ := Arg.loadData_type ha'
    cases heq
    exact ⟨rfl, arg, a', harg, rfl, hk.trans hkind, hf.trans hfile⟩
  have hrefused : ∀ {st : Int}, st ≠ clSuccess → some (k, st) = some (k', rs) →
      k' = k ∧ rs ≠ clSuccess := by
    intro st hst hr
    cases hr
    exact ⟨rfl, hst⟩
  unfold Kernel.setArg at h
  split at h
  · exact .inl (hrefused (by decide) h)
  · split at h
    · cases h
    · rename_i arg harg
      dsimp only at h
      split at h
      · split at h
        · exact .inl (hrefused (by decide) h)
        · split at h
          · exact .inl (hrefused (by decide) h)
          · cases h
            exact .inr ⟨rfl, arg, _, harg, rfl, rfl, rfl⟩
      · split at h
        · cases h
        · -- only an argument that is a sampler already gets here
          rename_i bits hbits
          have hkind : arg.kind = .sampler := by
            split at hbits
            · rename_i hs
              exact hs.1
            · simp at hbits
          exact .inr (hload (a := arg.refineKind .sampler) harg hkind.symm rfl h)
        · split at h
          · exact .inl (hrefused (by decide) h)
          · split at h
            · split at h
              · exact .inr (hload harg rfl rfl h)
              · split at h
                · exact .inr (hload harg rfl rfl h)
                · cases h
            · split at h
              · exact .inl (hrefused (by decide) h)
              · exact .inr (hload harg rfl rfl h)

/-- Setting an argument does not change whether some of them are in `__local` memory. -/
theorem Kernel.setArg_hasLocals {sampler : UInt64 → Option UInt32} {k k' : Kernel}
    {index size : Nat} {value : Option (List UInt8)} {rs : Int}
    (h : k.setArg sampler index size value = some (k', rs)) : k'.hasLocals = k.hasLocals := by
  rcases Kernel.setArg_cases h with ⟨rfl, -⟩ | ⟨-, arg, a, -, rfl, -⟩
  · rfl
  · rfl

/-- Replacing an argument that is not of the kind `p` leaves the others alone. -/
theorem filter_set {l : List Arg} {i : Nat} {a arg : Arg} {p : Arg → Bool} (h : l[i]? = some arg)
    (harg : p arg = false) (ha : p a = false) : (l.set i a).filter p = l.filter p := by
  induction l generalizing i with
  | nil => simp at h
  | cons b l ih =>
    cases i with
    | zero =>
      obtain rfl : b = arg := by simpa using h
      simp [harg, ha]
    | succ i =>
      rw [List.set_cons_succ, List.filter_cons, List.filter_cons, ih (by simpa using h)]

/-- An argument that holds no memory object may change without changing those that do. -/
theorem Kernel.setArg_objects {sampler : UInt64 → Option UInt32} {k k' : Kernel}
    {index size : Nat} {value : Option (List UInt8)} {rs : Int}
    (h : k.setArg sampler index size value = some (k', rs))
    (hno : ∀ arg, k.args[index]? = some arg → arg.isBuffer = false ∧ arg.isImage = false) :
    k'.bufferArgs = k.bufferArgs ∧ k'.imageArgs = k.imageArgs := by
  rcases Kernel.setArg_cases h with ⟨rfl, -⟩ | ⟨-, arg, a, harg, rfl, hkind, hfile⟩
  · exact ⟨rfl, rfl⟩
  · obtain ⟨hb, hi⟩ := hno arg harg
    have hb' : a.isBuffer = false := by simpa [Arg.isBuffer, hkind, hfile] using hb
    have hi' : a.isImage = false := by simpa [Arg.isImage, hkind] using hi
    unfold Kernel.bufferArgs Kernel.imageArgs Kernel.replaceArg
    exact ⟨by rw [filter_set harg hb hb'], by rw [filter_set harg hi hi']⟩

end Shamrock.Runtime
