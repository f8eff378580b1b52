import Shamrock.Runtime.Kernel
import Shamrock.Lib.Transition

/-!
# Setting the arguments of a kernel

Runs of `setArg` on a kernel whose arguments have never been set, with the last accepted call for
each argument as a history variable.
-/
namespace Shamrock.Runtime

open Transition

structure ArgCall where
  index : Nat
  size : Nat
  value : Option (List UInt8)
  deriving DecidableEq, Repr

namespace Arg

/-- `valueSize() * vecDim()` -/
def fullSize (a : Arg) : Nat := a.valueSize * a.vecDim

/-- Memory objects are given by a pointer to their handle. -/
def isObject (a : Arg) : Prop := a.kind = .buffer ∨ a.isImage = true

instance {a : Arg} : Decidable a.isObject := inferInstanceAs (Decidable (_ ∨ _))

/-- The test of the size. -/
def SizePasses (a : Arg) (size : Nat) : Prop := size = a.fullSize ∨ size ≤ a.targetAlignment

instance {a : Arg} {size : Nat} : Decidable (a.SizePasses size) :=
  inferInstanceAs (Decidable (_ ∨ _))

/-- The value is looked at as a sampler. -/
def TriesSampler (a : Arg) (size : Nat) : Prop := a.kind = .sampler ∧ size = 8 ∧ a.fullSize = 4

instance {a : Arg} {size : Nat} : Decidable (a.TriesSampler size) :=
  inferInstanceAs (Decidable (_ ∧ _))

def samplerBytes (bits : UInt32) : List UInt8 :=
  (List.range 4).map fun i => (bits >>> (8 * i).toUInt32).toUInt8

/-- What `setArg` does to an argument that is not in `__local` memory, once it is known which bytes
are copied. -/
def load (a : Arg) (bytes : List UInt8) (size : Nat) : Option (Except Int Arg) :=
  (a.alloc.loadData bytes size).map .ok

/-- After the special case of samplers. -/
def setData (a : Arg) (size : Nat) (value : Option (List UInt8)) : Option (Except Int Arg) :=
  if ¬a.SizePasses size then some (.error clInvalidArgSize)
  else
    match value with
    | none => if a.isObject then a.load (pointerBytes 0) size else some (.error clInvalidArgValue)
    | some bytes =>
      if a.isObject then if 8 ≤ bytes.length then a.load (bytes.take 8) size else none
      else a.load bytes size

def setLocal (a : Arg) (size : Nat) (value : Option (List UInt8)) : Except Int Arg :=
  if size = 0 then .error clInvalidArgSize
  else if value.isSome then .error clInvalidArgValue
  else .ok (a.setAllocAtKernelRuntime size)

/-- `Kernel::setArg`, as far as it concerns the argument itself. -/
def set (sampler : UInt64 → Option UInt32) (a : Arg) (size : Nat) (value : Option (List UInt8)) :
    Option (Except Int Arg) :=
  if a.file = .loc then some (a.setLocal size value)
  else if a.TriesSampler size then
    value.bind fun bytes =>
      match sampler (readPointer bytes) with
      | some bits => a.load (samplerBytes bits) size
      | none => a.setData size value
  else a.setData size value

end Arg

variable {sampler : UInt64 → Option UInt32} {k : Kernel} {a a' a₀ : Arg} {index size : Nat}
  {value : Option (List UInt8)} {bytes : List UInt8}

theorem Arg.refineKind_self (h : a.kind = .sampler) : a.refineKind .sampler = a := by
  obtain ⟨⟩ := a
  simp_all [Arg.refineKind]

/-- The kernel and the status after a call that leaves an argument so. -/
def Kernel.answer (k : Kernel) (index : Nat) : Except Int Arg → Kernel × Int
  | .error code => (k, code)
  | .ok a => (k.replaceArg index a, clSuccess)

theorem Kernel.answer_load : (a.load bytes size).map (k.answer index) =
    (a.alloc.loadData bytes size).map fun a => (k.replaceArg index a, clSuccess) := by
  rw [Arg.load, Option.map_map]
  rfl

/-- A call concerns one argument. -/
theorem Kernel.setArg_eq : k.setArg sampler index size value =
    if k.args.length < index then some (k, clInvalidArgIndex)
    else (k.args[index]?).bind fun a => (a.set sampler size value).map (k.answer index) := by
  unfold Kernel.setArg
  by_cases hindex : k.args.length < index
  · rw [if_pos hindex, if_pos hindex]
  rw [if_neg hindex, if_neg hindex]
  cases k.args[index]? with
  | none => rfl
  | some a =>
    have hpasses : (size ≠ a.valueSize * a.vecDim ∧ a.targetAlignment < size) ↔
        ¬a.SizePasses size := by
      unfold Arg.SizePasses Arg.fullSize
      omega
    have hdata : (a.setData size value).map (k.answer index) =
        if size ≠ a.valueSize * a.vecDim ∧ a.targetAlignment < size then some (k, clInvalidArgSize)
        else if a.kind = .buffer ∨ a.isImage = true then
          match value with
          | none => (a.alloc.loadData (pointerBytes 0) size).map fun a =>
            (k.replaceArg index a, clSuccess)
          | some bytes =>
            if 8 ≤ bytes.length then
              (a.alloc.loadData (bytes.take 8) size).map fun a => (k.replaceArg index a, clSuccess)
            else none
        else
          match value with
          | none => some (k, clInvalidArgValue)
          | some bytes => (a.alloc.loadData bytes size).map fun a =>
            (k.replaceArg index a, clSuccess) := by
      unfold Arg.setData
      by_cases hp : a.SizePasses size
      · rw [if_neg (mt hpasses.mp (not_not.mpr hp)), if_neg (not_not.mpr hp)]
        by_cases hobject : a.isObject
        · rw [if_pos (show a.kind = .buffer ∨ a.isImage = true from hobject)]
          simp only [if_pos hobject]
          cases value with
          | none => exact Kernel.answer_load
          | some bytes =>
            dsimp only
            rw [apply_ite (Option.map _), Kernel.answer_load]
            rfl
        · rw [if_neg (show ¬(a.kind = .buffer ∨ a.isImage = true) from hobject)]
          simp only [if_neg hobject]
          cases value with
          | none => rfl
          | some bytes => exact Kernel.answer_load
      · rw [if_pos (hpasses.mpr hp), if_pos hp]
        rfl
    dsimp only [Option.bind_some]
    unfold Arg.set
    by_cases hloc : a.file = .loc
    · rw [if_pos hloc, if_pos hloc, Arg.setLocal]
      split_ifs <;> rfl
    rw [if_neg hloc, if_neg hloc]
    by_cases htry : a.TriesSampler size
    · have htry' : a.kind = .sampler ∧ size = 8 ∧ a.valueSize * a.vecDim = 4 := htry
      rw [if_pos htry, if_pos htry', Arg.refineKind_self htry.1]
      cases value with
      | none => rfl
      | some bytes =>
        dsimp only [Option.bind_some]
        cases sampler (readPointer bytes) with
        | none => exact hdata.symm
        | some bits => exact Kernel.answer_load.symm
    · have htry' : ¬(a.kind = .sampler ∧ size = 8 ∧ a.valueSize * a.vecDim = 4) := htry
      rw [if_neg htry, if_neg htry']
      exact hdata.symm

/-! ## One call -/

namespace Arg

/-- Nothing was ever set. -/
def Fresh (a : Arg) : Prop := a.data = none ∧ a.runtimeAlloc = 0 ∧ a.defined = false

instance {a : Arg} : Decidable a.Fresh := inferInstanceAs (Decidable (_ ∧ _))

/-- The storage, as `alloc` leaves it. -/
def storage (a : Arg) : List UInt8 := a.data.getD (List.replicate a.fullSize 0)

/-- The argument with `size` new bytes. -/
def written (a : Arg) (bytes : List UInt8) (size : Nat) : Arg :=
  { a with data := some (bytes.take size ++ a.storage.drop size), defined := true }

theorem load_eq : a.load bytes size =
    if size ≤ a.fullSize ∧ size ≤ bytes.length then some (.ok (a.written bytes size))
    else none := by
  have hfull : a.vecDim * a.valueSize = a.fullSize := Nat.mul_comm _ _
  unfold load alloc loadData written storage
  rw [hfull]
  dsimp only
  rw [← hfull, apply_ite (Option.map _)]
  rfl

/-- The call comes to `loadData`. -/
def Loads (a : Arg) (size : Nat) (value : Option (List UInt8)) : Prop :=
  a.SizePasses size ∧ (value ≠ none ∨ a.isObject)

/-- What `loadData` copies from: the value, or the pointer to the memory object. -/
def carried (a : Arg) : Option (List UInt8) → List UInt8
  | none => pointerBytes 0
  | some bytes => if a.isObject then bytes.take 8 else bytes

/-- A call that does not leave the storage of the argument nor the value, and leaves no bytes of an
earlier one. -/
structure Careful (sampler : UInt64 → Option UInt32) (a : Arg) (size : Nat)
    (value : Option (List UInt8)) : Prop where
  sampler : a.TriesSampler size → ∃ bytes, value = some bytes ∧ sampler (readPointer bytes) = none
  fits : a.Loads size value → size ≤ a.fullSize
  pointer : a.Loads size value → a.isObject → size ≤ 8
  read : a.Loads size value → ∀ bytes, value = some bytes →
    if a.isObject then 8 ≤ bytes.length else size ≤ bytes.length
  zeros : a.Loads size value → ∀ b ∈ a.storage.drop size, b = 0

theorem set_of_careful (hloc : a.file ≠ .loc) (h : a.Careful sampler size value) :
    a.set sampler size value = a.setData size value := by
  rw [set, if_neg hloc]
  split_ifs with htry
  · obtain ⟨bytes, hvalue, hnone⟩ := h.sampler htry
    rw [hvalue, Option.bind_some, hnone]
  · rfl

theorem setData_error (h : ¬a.Loads size value) :
    ∃ code, code ≠ clSuccess ∧ a.setData size value = some (.error code) := by
  unfold setData
  by_cases hpasses : a.SizePasses size
  · have hvalue : ¬(value ≠ none ∨ a.isObject) := fun hv => h ⟨hpasses, hv⟩
    rw [not_or, not_not] at hvalue
    rw [if_neg (not_not.mpr hpasses), hvalue.1]
    exact ⟨clInvalidArgValue, by decide, if_neg hvalue.2⟩
  · exact ⟨clInvalidArgSize, by decide, if_pos hpasses⟩

theorem carried_length (h : a.Careful sampler size value) (hl : a.Loads size value) :
    size ≤ (a.carried value).length := by
  cases value with
  | none => exact h.pointer hl (hl.2.resolve_left (not_not.mpr rfl))
  | some bytes =>
    have hread := h.read hl bytes rfl
    dsimp only [carried]
    by_cases hobject : a.isObject
    · have hsize := h.pointer hl hobject
      rw [if_pos hobject] at hread
      rw [if_pos hobject, List.length_take]
      omega
    · rw [if_neg hobject] at hread
      rwa [if_neg hobject]

theorem setData_ok (h : a.Careful sampler size value) (hl : a.Loads size value) :
    a.setData size value = some (.ok (a.written (a.carried value) size)) := by
  have hload : a.load (a.carried value) size = some (.ok (a.written (a.carried value) size)) := by
    rw [load_eq, if_pos ⟨h.fits hl, carried_length h hl⟩]
  unfold setData
  rw [if_neg (not_not.mpr hl.1), ← hload]
  cases value with
  | none => exact if_pos (hl.2.resolve_left (not_not.mpr rfl))
  | some bytes =>
    have hread := h.read hl bytes rfl
    dsimp only [carried]
    by_cases hobject : a.isObject
    · rw [if_pos hobject] at hread
      rw [if_pos hobject, if_pos hobject, if_pos hread]
    · rw [if_neg hobject, if_neg hobject]

/-- `a` is `a₀` after some calls. -/
structure SetFrom (a₀ a : Arg) : Prop where
  type : a = { a₀ with data := a.data, defined := a.defined, runtimeAlloc := a.runtimeAlloc }
  storage : a.storage.length = a.fullSize
  loc : a₀.file = .loc → a.data = none
  nonLocal : a₀.file ≠ .loc → a.runtimeAlloc = 0

theorem Fresh.setFrom (h : a₀.Fresh) : a₀.SetFrom a₀ :=
  ⟨rfl, by rw [Arg.storage, h.1, Option.getD_none, List.length_replicate], fun _ => h.1,
    fun _ => h.2.1⟩

theorem Fresh.storage_eq (h : a.Fresh) : a.storage = List.replicate a.fullSize 0 := by
  unfold storage
  rw [h.1, Option.getD_none]

theorem SetFrom.fullSize_eq (hs : a₀.SetFrom a) : a.fullSize = a₀.fullSize := by
  rw [hs.type]
  rfl

/-- The new bytes with zeros behind them are what a first call leaves. -/
theorem SetFrom.written_eq (hs : a₀.SetFrom a) (hfresh : a₀.Fresh) (hloc : a₀.file ≠ .loc)
    (hzeros : ∀ b ∈ a.storage.drop size, b = 0) : a.written bytes size = a₀.written bytes size := by
  have hold : a.storage.drop size = a₀.storage.drop size := by
    rw [List.eq_replicate_of_mem hzeros, List.length_drop, hs.storage, hfresh.storage_eq,
      List.drop_replicate, hs.fullSize_eq]
  have halloc := hs.nonLocal hloc
  unfold Arg.written
  rw [hold, hs.type, halloc, hfresh.2.1]

theorem SetFrom.written (hs : a₀.SetFrom a) (hloc : a₀.file ≠ .loc) (hfits : size ≤ a.fullSize)
    (hbytes : size ≤ bytes.length) : a₀.SetFrom (a.written bytes size) := by
  refine ⟨?_, ?_, fun h => absurd h hloc, fun _ => hs.nonLocal hloc⟩
  · unfold Arg.written
    rw [hs.type]
  · have hstorage := hs.storage
    have hfull : (a.written bytes size).fullSize = a.fullSize := rfl
    have hnew : (a.written bytes size).storage = bytes.take size ++ a.storage.drop size := rfl
    rw [hfull, hnew, List.length_append, List.length_take, List.length_drop]
    omega

/-- Being careful only depends on the type, and on the bytes of an earlier call. -/
theorem SetFrom.careful (hs : a₀.SetFrom a) (hfresh : a₀.Fresh) (h : a.Careful sampler size value) :
    a₀.Careful sampler size value := by
  have htries : a.TriesSampler size ↔ a₀.TriesSampler size := by
    rw [hs.type]
    exact Iff.rfl
  have hloads : a.Loads size value ↔ a₀.Loads size value := by
    rw [hs.type]
    exact Iff.rfl
  have hobject : a.isObject ↔ a₀.isObject := by
    rw [hs.type]
    exact Iff.rfl
  refine ⟨fun ht => h.sampler (htries.mpr ht), fun hl => ?_, fun hl ho => ?_, fun hl bytes hb => ?_,
    fun hl b hb => ?_⟩
  · rw [← hs.fullSize_eq]
    exact h.fits (hloads.mpr hl)
  · exact h.pointer (hloads.mpr hl) (hobject.mpr ho)
  · have hread := h.read (hloads.mpr hl) bytes hb
    simpa only [hobject] using hread
  · rw [hfresh.storage_eq, List.drop_replicate] at hb
    exact List.eq_of_mem_replicate hb

theorem SetFrom.setLocal (hs : a₀.SetFrom a) (hfresh : a₀.Fresh) (hloc : a₀.file = .loc)
    (h : a.setLocal size value = .ok a') : a₀.setLocal size value = .ok a' ∧ a₀.SetFrom a' := by
  have hdata := hs.loc hloc
  unfold Arg.setLocal at h ⊢
  split_ifs at h ⊢ with hsize hvalue
  cases h
  have heq : a₀.setAllocAtKernelRuntime size = a.setAllocAtKernelRuntime size := by
    unfold setAllocAtKernelRuntime
    rw [hs.type, hdata, hfresh.1]
  refine ⟨by rw [heq], ?_, ?_, fun _ => hdata, fun h => absurd hloc h⟩
  · rw [← heq]
    rfl
  · exact hs.storage

/-- A call that is accepted leaves what it would have left as the first one. -/
theorem SetFrom.set (hs : a₀.SetFrom a) (hfresh : a₀.Fresh)
    (hcareful : a.file ≠ .loc → a.Careful sampler size value)
    (h : a.set sampler size value = some (.ok a')) :
    a₀.set sampler size value = some (.ok a') ∧ a₀.SetFrom a' ∧
      ∀ b ∈ (a'.data.getD []).drop size, b = 0 := by
  have hfile : a.file = a₀.file := by rw [hs.type]
  by_cases hloc : a₀.file = .loc
  · rw [Arg.set, if_pos (hfile.trans hloc)] at h
    rw [Arg.set, if_pos hloc]
    obtain ⟨hset, hfrom⟩ := hs.setLocal hfresh hloc (Option.some.inj h)
    refine ⟨by rw [hset], hfrom, ?_⟩
    rw [hfrom.loc hloc]
    simp
  · have hloc' : a.file ≠ .loc := fun h => hloc (hfile.symm.trans h)
    have hc := hcareful hloc'
    have hc₀ := hs.careful hfresh hc
    rw [set_of_careful hloc' hc] at h
    have hl : a.Loads size value := by
      by_contra hl
      obtain ⟨code, -, hcode⟩ := setData_error hl
      cases hcode.symm.trans h
    have hl₀ : a₀.Loads size value := by
      rw [hs.type] at hl
      exact hl
    have hcarried : a₀.carried value = a.carried value := by
      rw [hs.type]
      cases value <;> rfl
    cases (setData_ok hc hl).symm.trans h
    rw [set_of_careful hloc hc₀, setData_ok hc₀ hl₀, hcarried,
      hs.written_eq hfresh hloc (hc.zeros hl)]
    rw [← hs.written_eq hfresh hloc (hc.zeros hl)]
    have hlen := carried_length hc hl
    refine ⟨rfl, hs.written hloc (hc.fits hl) hlen, ?_⟩
    have hdrop : ((a.written (a.carried value) size).data.getD []).drop size =
        a.storage.drop size := by
      have htake : ((a.carried value).take size).length = size := by
        rw [List.length_take]
        omega
      exact List.drop_left' htake
    rw [hdrop]
    exact hc.zeros hl

/-- A careful call is refused, or it copies its bytes. -/
theorem set_cases (hloc : a.file ≠ .loc) (h : a.Careful sampler size value) :
    (∃ code, code ≠ clSuccess ∧ a.set sampler size value = some (.error code)) ∨
    a.Loads size value ∧
      a.set sampler size value = some (.ok (a.written (a.carried value) size)) := by
  rw [set_of_careful hloc h]
  by_cases hl : a.Loads size value
  · exact .inr ⟨hl, setData_ok h hl⟩
  · exact .inl (setData_error hl)

theorem set_error {code : Int} (h : a.set sampler size value = some (.error code)) :
    code ≠ clSuccess := by
  have hload : ∀ bytes, a.load bytes size ≠ some (.error code) := by
    intro bytes hb
    rw [load_eq] at hb
    split_ifs at hb
    cases hb
  have hdata : a.setData size value = some (.error code) → code ≠ clSuccess := by
    intro hd
    by_cases hl : a.Loads size value
    · unfold setData at hd
      rw [if_neg (not_not.mpr hl.1)] at hd
      cases value with
      | none =>
        dsimp only at hd
        rw [if_pos (hl.2.resolve_left (not_not.mpr rfl))] at hd
        exact absurd hd (hload _)
      | some bytes =>
        dsimp only at hd
        split_ifs at hd
        · exact absurd hd (hload _)
        · exact absurd hd (hload _)
    · obtain ⟨c, hc, heq⟩ := setData_error hl
      cases heq.symm.trans hd
      exact hc
  unfold set at h
  split_ifs at h with hloc htry
  · unfold setLocal at h
    split_ifs at h
    · cases h
      decide
    · cases h
      decide
    · cases h
  · obtain ⟨bytes, hb, h⟩ := Option.bind_eq_some_iff.mp h
    cases hs : sampler (readPointer bytes) with
    | none =>
      rw [hs] at h
      exact hdata h
    | some bits =>
      rw [hs] at h
      exact absurd h (hload _)
  · exact hdata h

end Arg

/-! ## Runs -/

/-- A kernel under a run of calls, with the last accepted call for each argument. -/
structure ArgRun where
  kernel : Kernel
  fault : Bool
  last : Nat → Option ArgCall

def argStep (sampler : UInt64 → Option UInt32) (s : ArgRun) (c : ArgCall) : Option ArgRun :=
  if s.fault then none
  else
    match s.kernel.setArg sampler c.index c.size c.value with
    | none => some { s with fault := true }
    | some (k, code) => some { s with
        kernel := k
        last := if code = clSuccess then Function.update s.last c.index (some c) else s.last }

def argSystem (sampler : UInt64 → Option UInt32) (k : Kernel) : LTS ArgRun ArgCall :=
  ofStep (fun s => s = ⟨k, false, fun _ => none⟩) (argStep sampler)

/-- The index is not the number of arguments, and the call is careful with its argument. -/
structure CarefulCall (sampler : UInt64 → Option UInt32) (s : ArgRun) (c : ArgCall) : Prop where
  index : c.index ≠ s.kernel.args.length
  arg : ∀ a, s.kernel.args[c.index]? = some a → a.file ≠ .loc → a.Careful sampler c.size c.value

/-- What a call answers, and what it keeps. -/
structure CallSafe (sampler : UInt64 → Option UInt32) (k : Kernel) (c : ArgCall) : Prop where
  answers : ∃ r, k.setArg sampler c.index c.size c.value = some r
  index : k.args.length ≤ c.index →
    k.setArg sampler c.index c.size c.value = some (k, clInvalidArgIndex)
  refused : ∀ k' code, k.setArg sampler c.index c.size c.value = some (k', code) →
    code ≠ clSuccess → k' = k
  bounded : ∀ k' a, k.setArg sampler c.index c.size c.value = some (k', clSuccess) →
    k.args[c.index]? = some a → a.file ≠ .loc → c.size ≤ a.fullSize

/-- Every argument is as its last accepted call alone would have left it, with zeros behind the
bytes of that call. -/
structure LastWritten (sampler : UInt64 → Option UInt32) (k₀ : Kernel) (s : ArgRun) : Prop where
  untouched : ∀ i, s.last i = none → s.kernel.args[i]? = k₀.args[i]?
  written : ∀ i c, s.last i = some c →
    ∃ k, k₀.setArg sampler i c.size c.value = some (k, clSuccess) ∧
    s.kernel.args[i]? = k.args[i]?
  zeros : ∀ i c a, s.last i = some c → s.kernel.args[i]? = some a →
    ∀ b ∈ (a.data.getD []).drop c.size, b = 0

variable {s t : ArgRun} {c : ArgCall} {k₀ k' : Kernel} {code : Int}

/-- What a call does if it answers. -/
theorem Kernel.setArg_some (h : k.setArg sampler index size value = some (k', code)) :
    (k' = k ∧ code ≠ clSuccess) ∨ code = clSuccess ∧ ∃ a a', k.args[index]? = some a ∧
      a.set sampler size value = some (.ok a') ∧ k' = k.replaceArg index a' := by
  rw [Kernel.setArg_eq] at h
  split_ifs at h with hindex
  · cases h
    exact .inl ⟨rfl, by decide⟩
  · obtain ⟨a, ha, h⟩ := Option.bind_eq_some_iff.mp h
    obtain ⟨r, hr, h⟩ := Option.map_eq_some_iff.mp h
    cases r with
    | error e =>
      cases h
      exact .inl ⟨rfl, Arg.set_error hr⟩
    | ok a' =>
      cases h
      exact .inr ⟨rfl, a, a', ha, hr, rfl⟩

theorem Kernel.setArg_of_set (ha : k.args[index]? = some a)
    (h : a.set sampler size value = some (.ok a')) :
    k.setArg sampler index size value = some (k.replaceArg index a', clSuccess) := by
  have hlt : index < k.args.length := (List.getElem?_eq_some_iff.mp ha).1
  rw [Kernel.setArg_eq, if_neg (by omega), ha, Option.bind_some, h]
  rfl

theorem callSafe (h : CarefulCall sampler s c) : CallSafe sampler s.kernel c := by
  have hpast : s.kernel.args.length ≤ c.index →
      s.kernel.setArg sampler c.index c.size c.value = some (s.kernel, clInvalidArgIndex) := by
    intro hle
    have hne := h.index
    rw [Kernel.setArg_eq, if_pos (by omega)]
  refine ⟨?_, hpast, ?_, ?_⟩
  · by_cases hle : s.kernel.args.length ≤ c.index
    · exact ⟨_, hpast hle⟩
    · obtain ⟨a, ha⟩ : ∃ a, s.kernel.args[c.index]? = some a :=
        ⟨_, List.getElem?_eq_getElem (by omega)⟩
      have hset : ∃ r, a.set sampler c.size c.value = some r := by
        by_cases hloc : a.file = .loc
        · exact ⟨_, if_pos hloc⟩
        · rcases Arg.set_cases hloc (h.arg a ha hloc) with ⟨code, -, hs⟩ | ⟨-, hs⟩
          · exact ⟨_, hs⟩
          · exact ⟨_, hs⟩
      obtain ⟨r, hr⟩ := hset
      rw [Kernel.setArg_eq, if_neg (by omega), ha, Option.bind_some, hr]
      exact ⟨_, rfl⟩
  · intro k' code hk hcode
    rcases Kernel.setArg_some hk with ⟨rfl, -⟩ | ⟨hsuccess, -⟩
    · rfl
    · exact absurd hsuccess hcode
  · intro k' a hk ha hloc
    rcases Kernel.setArg_some hk with ⟨-, hne⟩ | ⟨-, b, b', hb, hset, -⟩
    · exact absurd rfl hne
    · cases ha.symm.trans hb
      rcases Arg.set_cases hloc (h.arg a ha hloc) with ⟨code, -, hs⟩ | ⟨hl, -⟩
      · cases hs.symm.trans hset
      · exact (h.arg a ha hloc).fits hl

/-- Each argument comes from the one of the first kernel by its last accepted call. -/
structure ArgsKept (sampler : UInt64 → Option UInt32) (k₀ : Kernel) (s : ArgRun) : Prop where
  fault : s.fault = false
  length : s.kernel.args.length = k₀.args.length
  last : ∀ i c, s.last i = some c → i < k₀.args.length
  arg : ∀ i a₀, k₀.args[i]? = some a₀ → ∃ a, s.kernel.args[i]? = some a ∧ a₀.SetFrom a ∧
    match s.last i with
    | none => a = a₀
    | some c => a₀.set sampler c.size c.value = some (.ok a) ∧
      ∀ b ∈ (a.data.getD []).drop c.size, b = 0

/-- Nothing was ever set. -/
def Kernel.Fresh (k : Kernel) : Prop := ∀ a ∈ k.args, a.Fresh

instance {k : Kernel} : Decidable k.Fresh := inferInstanceAs (Decidable (∀ a ∈ k.args, a.Fresh))

theorem argsKept_step (hfresh : k₀.Fresh) (hs : ArgsKept sampler k₀ s)
    (hc : CarefulCall sampler s c) (h : argStep sampler s c = some t) : ArgsKept sampler k₀ t := by
  obtain ⟨⟨k', code⟩, hk⟩ := (callSafe hc).answers
  have hfault := hs.fault
  simp only [argStep, hfault, Bool.false_eq_true, if_false, hk, Option.some.injEq] at h
  subst h
  rcases Kernel.setArg_some hk with ⟨rfl, hcode⟩ | ⟨rfl, a, a', ha, hset, rfl⟩
  · rw [if_neg hcode]
    exact ⟨rfl, hs.length, hs.last, hs.arg⟩
  · refine ⟨rfl, ?_, fun i d hd => ?_, fun i a₀ h₀ => ?_⟩
    · dsimp only [Kernel.replaceArg]
      rw [List.length_set, hs.length]
    · rw [if_pos rfl] at hd
      dsimp only at hd
      by_cases hi : i = c.index
      · rw [hi, ← hs.length]
        exact (List.getElem?_eq_some_iff.mp ha).1
      · rw [Function.update_of_ne hi] at hd
        exact hs.last i d hd
    · dsimp only [Kernel.replaceArg]
      obtain ⟨b, hb, hfrom, hlast⟩ := hs.arg i a₀ h₀
      by_cases hi : i = c.index
      · subst hi
        cases ha.symm.trans hb
        have hfresh₀ := hfresh a₀ (List.mem_of_getElem? h₀)
        obtain ⟨hset₀, hfrom', hzeros⟩ := hfrom.set hfresh₀ (hc.arg a ha) hset
        refine ⟨a', ?_, hfrom', ?_⟩
        · rw [List.getElem?_set_self (List.getElem?_eq_some_iff.mp ha).1]
        · rw [if_pos rfl, Function.update_self]
          exact ⟨hset₀, hzeros⟩
      · refine ⟨b, ?_, hfrom, ?_⟩
        · rw [List.getElem?_set_ne (Ne.symm hi), hb]
        · rw [if_pos rfl, Function.update_of_ne hi]
          exact hlast

theorem argsKept_reachable (hfresh : k₀.Fresh)
    (h : Reachable ((argSystem sampler k₀).restrict (CarefulCall sampler)) s) :
    ArgsKept sampler k₀ s := by
  refine h.invariant ?_ ?_
  · rintro _ rfl
    refine ⟨rfl, rfl, fun i c hc => ?_, fun i a₀ h₀ => ?_⟩
    · cases hc
    · exact ⟨a₀, h₀, (hfresh a₀ (List.mem_of_getElem? h₀)).setFrom, rfl⟩
  · intro s c t _ hs ht
    exact argsKept_step hfresh hs ht.2 ht.1

theorem ArgsKept.lastWritten (hs : ArgsKept sampler k₀ s) : LastWritten sampler k₀ s := by
  have hlast := hs.last
  refine ⟨fun i hi => ?_, fun i c hi => ?_, fun i c a hi ha => ?_⟩
  · cases h₀ : k₀.args[i]? with
    | none => rwa [List.getElem?_eq_none_iff, hs.length, ← List.getElem?_eq_none_iff]
    | some a₀ =>
      obtain ⟨a, ha, -, heq⟩ := hs.arg i a₀ h₀
      rw [hi] at heq
      rw [ha, heq]
  · have h₀ := List.getElem?_eq_getElem (hlast i c hi)
    obtain ⟨a, ha, -, heq⟩ := hs.arg i _ h₀
    rw [hi] at heq
    refine ⟨_, Kernel.setArg_of_set h₀ heq.1, ?_⟩
    dsimp only [Kernel.replaceArg]
    rw [ha, List.getElem?_set_self (hlast i c hi)]
  · have h₀ := List.getElem?_eq_getElem (hlast i c hi)
    obtain ⟨b, hb, -, heq⟩ := hs.arg i _ h₀
    rw [hi] at heq
    cases ha.symm.trans hb
    exact heq.2

/-- After careful calls every argument is what its last accepted call made of it, and the next
careful call is safe. -/
theorem setArg_last_write (hfresh : k₀.Fresh)
    (h : Reachable ((argSystem sampler k₀).restrict (CarefulCall sampler)) s) :
    s.fault = false ∧ LastWritten sampler k₀ s ∧
      ∀ c, CarefulCall sampler s c → CallSafe sampler s.kernel c := by
  have hs := argsKept_reachable hfresh h
  exact ⟨hs.fault, hs.lastWritten, fun c hc => callSafe hc⟩

/-- A kernel with an `int`. -/
def intKernel : Kernel := ⟨[Arg.create 1 .priv .int32 4 4], false⟩

def noSampler : UInt64 → Option UInt32 := fun _ => none

theorem intKernel_fresh : intKernel.Fresh := by decide

theorem int_careful : (Arg.create 1 .priv .int32 4 4).Careful noSampler 4 (some [1, 2, 3, 4]) := by
  refine ⟨fun h => absurd h (by decide), fun _ => by decide, fun _ h => absurd h (by decide),
    fun _ bytes hb => ?_, fun _ b hb => ?_⟩
  · cases hb
    decide
  · cases hb

theorem int_written : ∃ s, s.last 0 = some ⟨0, 4, some [1, 2, 3, 4]⟩ ∧ s.fault = false ∧
    LastWritten noSampler intKernel s ∧
    ∀ c, CarefulCall noSampler s c → CallSafe noSampler s.kernel c := by
  have hcall : CarefulCall noSampler ⟨intKernel, false, fun _ => none⟩
      ⟨0, 4, some [1, 2, 3, 4]⟩ := by
    refine ⟨by decide, fun a ha _ => ?_⟩
    cases ha
    exact int_careful
  obtain ⟨s, hs, hlast⟩ : ∃ s, argStep noSampler ⟨intKernel, false, fun _ => none⟩
      ⟨0, 4, some [1, 2, 3, 4]⟩ = some s ∧ s.last 0 = some ⟨0, 4, some [1, 2, 3, 4]⟩ :=
        ⟨_, rfl, rfl⟩
  exact ⟨s, hlast, setArg_last_write intKernel_fresh (.step (.initial rfl) ⟨hs, hcall⟩)⟩

/-- The index that is the number of arguments passes the test. -/
theorem last_index_faults : ¬∀ (sampler : UInt64 → Option UInt32) (k₀ : Kernel) (s : ArgRun),
    k₀.Fresh → Reachable (argSystem sampler k₀) s → s.fault = false ∧ LastWritten sampler k₀ s ∧
      ∀ c, CallSafe sampler s.kernel c := by
  intro h
  have hexec : (exec (argStep noSampler) ⟨intKernel, false, fun _ => none⟩
      [⟨1, 4, some [1, 2, 3, 4]⟩]).map ArgRun.fault = some true := by decide
  obtain ⟨s, hs, hfault⟩ : ∃ s, Reachable (argSystem noSampler intKernel) s ∧ s.fault = true :=
    exists_exec (I := (· = ArgRun.mk intKernel false fun _ => none)) rfl _ _ hexec
  have hfalse := (h noSampler intKernel s intKernel_fresh hs).1
  rw [hfault] at hfalse
  cases hfalse

end Shamrock.Runtime
