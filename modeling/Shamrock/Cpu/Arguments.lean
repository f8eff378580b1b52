import Shamrock.Lib.Packing
import Shamrock.Runtime.SetArg

/-!
# The arguments of a kernel in memory

The stub that is generated for a kernel loads the arguments from a block of memory, and every
work-group fills such a block. Both find the places with `typeOffset`.
-/
namespace Shamrock.Cpu

open Packing Shamrock.Runtime

/-- The loop of `next_power_of_two`, which starts at the shift `i = 1`. -/
def smear (i : Nat) (k : UInt64) : UInt64 :=
  if 0 < i ∧ i < 64 then smear (2 * i) (k ||| k >>> i.toUInt64) else k
termination_by 64 - i

def nextPowerOfTwo (k : UInt64) : UInt64 := if k = 0 then 1 else smear 1 (k - 1) + 1

/-- `CPUKernel::typeOffset`: where a value is put, and the offset behind its slot. The remainder
is only undefined for a `typeLen` that `nextPowerOfTwo` takes to zero. -/
def typeOffset (offset typeLen : UInt64) : UInt64 × UInt64 :=
  let typeLen := nextPowerOfTwo typeLen
  let mask := typeLen - 1
  let rs := if offset &&& mask ≠ 0 then offset + (typeLen - offset % typeLen) else offset
  (rs, rs + typeLen)

/-- `arg->valueSize() * arg->vecDim()` -/
def argSize (a : Arg) : UInt64 := a.valueSize.toUInt64 * a.vecDim.toUInt64

/-- `CPUKernel::callFunction`: offset and size of what the stub loads for each parameter. -/
def callFunction (argsOffset : UInt64) (loads : List (UInt64 × UInt64)) :
    List Arg → List (UInt64 × UInt64)
  | [] => loads
  | a :: args =>
    let (argOffset, argsOffset) := typeOffset argsOffset (argSize a)
    callFunction argsOffset (loads ++ [(argOffset, argSize a)]) args

/-- The first loop of `callArgs`. -/
def argsSize (size : UInt64) : List Arg → UInt64
  | [] => size
  | a :: args => argsSize (typeOffset size (argSize a)).2 args

/-- What is stored for an argument. `pointer` is the local buffer that was allocated for it, or
the data of its buffer on the device. -/
def passedBytes (pointer : UInt64) (size : Nat) : Passed → List UInt8
  | .localBuffer _ => pointerBytes pointer
  | .buffer object => pointerBytes (if object = 0 then 0 else pointer)
  | .data bytes => bytes.take size

/-- The block of arguments: its size, the places that were stored to, and the bytes. -/
structure PackedArgs where
  size : UInt64
  targets : List (UInt64 × UInt64)
  memory : Nat → UInt8

/-- The second loop of `callArgs`, from the argument `i` on. -/
def storeArgs (pointers : Nat → UInt64) (i : Nat) (argOffset : UInt64) (p : PackedArgs) :
    List Arg → PackedArgs
  | [] => p
  | a :: args =>
    let size := argSize a
    let (offset, argOffset) := typeOffset argOffset size
    storeArgs pointers (i + 1) argOffset
      { p with
        targets := p.targets ++ [(offset, size)]
        memory := write p.memory offset.toNat (passedBytes (pointers i) size.toNat a.passed) } args

/-- `CPUKernelWorkGroup::callArgs`, where nothing is cached. `memalign` is `none` if there is no
memory, and else what is in the fresh block. -/
def callArgs (memalign : UInt64 → Option (Nat → UInt8)) (pointers : Nat → UInt64)
    (args : List Arg) : Option PackedArgs :=
  let size := argsSize 0 args
  (memalign size).map fun rs => storeArgs pointers 0 0 ⟨size, [], rs⟩ args

variable {k offset size x : UInt64} {i s : Nat} {a : Arg} {args : List Arg} {p : PackedArgs}
  {pointers : Nat → UInt64}

/-! ## The power of two -/

theorem smeared_smear {k₀ : Nat} (h : Smeared k₀ i k.toNat) (hi : 0 < i) :
    ∃ n, 64 ≤ n ∧ Smeared k₀ n (smear i k).toNat := by
  induction i, k using smear.induct with
  | case1 i k hlt ih =>
    rw [smear, if_pos hlt]
    refine ih ?_ (by omega)
    have hshift : (k ||| k >>> i.toUInt64).toNat = k.toNat ||| k.toNat >>> i := by
      have hmod : i.toUInt64.toNat % 64 = i := by
        rw [UInt64.toNat_ofNat']
        omega
      rw [UInt64.toNat_or, UInt64.toNat_shiftRight, hmod]
    rw [hshift]
    exact h.step
  | case2 i k hle =>
    rw [smear, if_neg hle]
    exact ⟨i, by omega, h⟩

theorem nextPowerOfTwo_eq (hk : k.toNat ≤ 2 ^ 63) : (nextPowerOfTwo k).toNat = slot k.toNat := by
  unfold nextPowerOfTwo
  by_cases h0 : k = 0
  · rw [if_pos h0, h0]
    rfl
  · have hpos : 0 < k.toNat := by
      rcases Nat.eq_zero_or_pos k.toNat with hz | hpos
      · exact absurd (UInt64.toNat_inj.mp hz) h0
      · exact hpos
    have hpred : (k - 1).toNat = k.toNat - 1 :=
      UInt64.toNat_sub_of_le k 1 (UInt64.le_iff_toNat_le.mpr hpos)
    obtain ⟨n, hn, hsmeared⟩ := smeared_smear (k := k - 1) smeared_one (by decide)
    have hlt : (k - 1).toNat < 2 ^ 63 := by omega
    have hone := hsmeared.eq hlt (by omega)
    rw [hpred, ← slot_eq_size hpos] at hone
    have hle : slot k.toNat ≤ 2 ^ 63 := slot_isLeast.2 ⟨⟨63, rfl⟩, hk⟩
    rw [if_neg h0, UInt64.toNat_add, UInt64.toNat_one, hone, Nat.mod_eq_of_lt (by omega)]

/-! ## One place -/

theorem le_of_slot_lt (h : slot s < 2 ^ 64) : s ≤ 2 ^ 63 := by
  have hexp : Nat.clog 2 s < 64 := (Nat.pow_lt_pow_iff_right (by decide)).mp h
  have hle : slot s ≤ 2 ^ 63 := Nat.pow_le_pow_right (by decide) (by omega)
  exact Nat.le_trans le_slot hle

/-- Without a wrap-around, a value is put at the next multiple of its slot. -/
theorem typeOffset_eq (hfit : alignUp (slot size.toNat) offset.toNat + slot size.toNat < 2 ^ 64) :
    (typeOffset offset size).1.toNat = alignUp (slot size.toNat) offset.toNat ∧
    (typeOffset offset size).2.toNat =
      alignUp (slot size.toNat) offset.toNat + slot size.toNat := by
  have hle : size.toNat ≤ 2 ^ 63 := le_of_slot_lt (by omega)
  have hslot := nextPowerOfTwo_eq hle
  have hpos : 0 < slot size.toNat := slot_pos
  have hmask : (offset &&& (nextPowerOfTwo size - 1)).toNat = offset.toNat % slot size.toNat := by
    have hpred : (nextPowerOfTwo size - 1).toNat = slot size.toNat - 1 := by
      rw [UInt64.toNat_sub_of_le _ _ (UInt64.le_iff_toNat_le.mpr (by rw [hslot]; exact hpos)),
        hslot]
      rfl
    rw [UInt64.toNat_and, hpred]
    exact Nat.and_two_pow_sub_one_eq_mod offset.toNat _
  have hstart : (typeOffset offset size).1.toNat = alignUp (slot size.toNat) offset.toNat := by
    unfold typeOffset
    dsimp only
    by_cases hmod : offset.toNat % slot size.toNat = 0
    · have hzero : offset &&& (nextPowerOfTwo size - 1) = 0 := by
        rw [← UInt64.toNat_inj, hmask, hmod]
        rfl
      rw [if_neg (not_not_intro hzero), alignUp, if_pos hmod]
    · have hne : offset &&& (nextPowerOfTwo size - 1) ≠ 0 := by
        intro hzero
        rw [hzero] at hmask
        exact hmod hmask.symm
      have hlt := Nat.mod_lt offset.toNat hpos
      have hrest : (offset % nextPowerOfTwo size).toNat = offset.toNat % slot size.toNat := by
        rw [UInt64.toNat_mod, hslot]
      have hgap : (nextPowerOfTwo size - offset % nextPowerOfTwo size).toNat =
          slot size.toNat - offset.toNat % slot size.toNat := by
        rw [UInt64.toNat_sub_of_le _ _ (UInt64.le_iff_toNat_le.mpr (by omega)), hslot, hrest]
      rw [alignUp, if_neg hmod] at hfit
      rw [if_pos hne, alignUp, if_neg hmod, UInt64.toNat_add, hgap, Nat.mod_eq_of_lt (by omega)]
  refine ⟨hstart, ?_⟩
  have hsum : (typeOffset offset size).2 = (typeOffset offset size).1 + nextPowerOfTwo size := rfl
  rw [hsum, UInt64.toNat_add, hstart, hslot, Nat.mod_eq_of_lt hfit]

/-! ## All places -/

/-- The places of the arguments, computed without wrap-around. -/
def places (x : Nat) (args : List Arg) : List (Nat × Nat) := ranges x (args.map Arg.fullSize)

/-- The end of the last slot, computed without wrap-around. -/
def placesEnd (x : Nat) (args : List Arg) : Nat := finish x (args.map Arg.fullSize)

/-- The same place in 64 bits. -/
def asNat (r : UInt64 × UInt64) : Nat × Nat := (r.1.toNat, r.2.toNat)

theorem argSize_eq (h : a.fullSize < 2 ^ 64) : (argSize a).toNat = a.fullSize := by
  have hmul : argSize a = UInt64.ofNat a.fullSize := (UInt64.ofNat_mul _ _).symm
  rw [hmul, UInt64.toNat_ofNat', Nat.mod_eq_of_lt h]

/-- One pass of any of the loops, as long as the end fits in 64 bits. -/
theorem pass_eq (hfit : placesEnd x.toNat (a :: args) < 2 ^ 64) :
    (argSize a).toNat = a.fullSize ∧
    (typeOffset x (argSize a)).1.toNat = alignUp (slot a.fullSize) x.toNat ∧
    (typeOffset x (argSize a)).2.toNat = alignUp (slot a.fullSize) x.toNat + slot a.fullSize := by
  have hend : alignUp (slot a.fullSize) x.toNat + slot a.fullSize < 2 ^ 64 :=
    Nat.lt_of_le_of_lt le_finish hfit
  have hsize : (argSize a).toNat = a.fullSize := by
    have hle : a.fullSize ≤ slot a.fullSize := le_slot
    exact argSize_eq (by omega)
  have htype := @typeOffset_eq x (argSize a) (by rwa [hsize])
  rw [hsize] at htype
  exact ⟨hsize, htype⟩

theorem argsSize_eq (hfit : placesEnd x.toNat args < 2 ^ 64) :
    (argsSize x args).toNat = placesEnd x.toNat args := by
  induction args generalizing x with
  | nil => rfl
  | cons a args ih =>
    obtain ⟨-, -, hnext⟩ := pass_eq hfit
    have hrest : placesEnd x.toNat (a :: args) =
        placesEnd (typeOffset x (argSize a)).2.toNat args := by
      rw [hnext]
      rfl
    rw [hrest] at hfit ⊢
    exact ih hfit

theorem callFunction_append (loads : List (UInt64 × UInt64)) :
    callFunction x loads args = loads ++ callFunction x [] args := by
  induction args generalizing x loads with
  | nil => exact (List.append_nil loads).symm
  | cons a args ih =>
    simp only [callFunction, List.nil_append]
    rw [ih, ih [_], List.append_assoc]

theorem callFunction_eq (hfit : placesEnd x.toNat args < 2 ^ 64) :
    (callFunction x [] args).map asNat = places x.toNat args := by
  induction args generalizing x with
  | nil => rfl
  | cons a args ih =>
    obtain ⟨hsize, hstart, hnext⟩ := pass_eq hfit
    have hrest : (callFunction (typeOffset x (argSize a)).2 [] args).map asNat =
        places (alignUp (slot a.fullSize) x.toNat + slot a.fullSize) args := by
      rw [← hnext]
      exact ih (by rw [hnext]; exact hfit)
    simp only [callFunction, List.nil_append]
    rw [callFunction_append, List.map_append, hrest]
    simp only [List.map_cons, List.map_nil, asNat, hstart, hsize]
    rfl

/-! ## The block -/

theorem storeArgs_size : (storeArgs pointers i x p args).size = p.size := by
  induction args generalizing i x p with
  | nil => rfl
  | cons a args ih => exact ih

/-- What is stored to is what the stub loads from. -/
theorem storeArgs_targets :
    (storeArgs pointers i x p args).targets = p.targets ++ callFunction x [] args := by
  induction args generalizing i x p with
  | nil => exact (List.append_nil p.targets).symm
  | cons a args ih =>
    simp only [storeArgs, callFunction, List.nil_append]
    rw [ih, callFunction_append [_], List.append_assoc]

/-- What a block of arguments has to be for the stub that loads from it. -/
structure Packs (args : List Arg) (p : PackedArgs) : Prop where
  stub : callFunction 0 [] args = p.targets
  sizes : p.targets.map (fun r => r.2.toNat) = args.map Arg.fullSize
  aligned : ∀ r ∈ p.targets, ∃ n, IsLeast (powersAbove r.2.toNat) n ∧ n ∣ r.1.toNat
  apart : p.targets.Pairwise fun r r' => r.1.toNat + r.2.toNat ≤ r'.1.toNat
  inside : ∀ r ∈ p.targets, r.1.toNat + r.2.toNat ≤ p.size.toNat

theorem packs_of_places (hstub : callFunction 0 [] args = p.targets)
    (hplaces : p.targets.map asNat = places 0 args) (hsize : p.size.toNat = placesEnd 0 args) :
    Packs args p := by
  have hmem : ∀ r ∈ p.targets, asNat r ∈ places 0 args := fun r hr => by
    rw [← hplaces]
    exact List.mem_map_of_mem hr
  refine ⟨hstub, ?_, fun r hr => ?_, ?_, fun r hr => ?_⟩
  · have hsnd : (places 0 args).map Prod.snd = args.map Arg.fullSize := map_snd_ranges
    rw [← hsnd, ← hplaces, List.map_map]
    rfl
  · exact ⟨slot r.2.toNat, slot_isLeast, (mem_ranges (hmem r hr)).1⟩
  · have hpair : (places 0 args).Pairwise fun r r' => r.1 + r.2 ≤ r'.1 := ranges_pairwise
    rw [← hplaces, List.pairwise_map] at hpair
    exact hpair
  · rw [hsize]
    exact (mem_ranges (hmem r hr)).2.2

theorem packs_callArgs {memalign : UInt64 → Option (Nat → UInt8)}
    (hfit : placesEnd 0 args < 2 ^ 64) (hp : callArgs memalign pointers args = some p) :
    Packs args p := by
  unfold callArgs at hp
  obtain ⟨rs, -, rfl⟩ := Option.map_eq_some_iff.mp hp
  have htargets : (storeArgs pointers 0 0 ⟨argsSize 0 args, [], rs⟩ args).targets =
      callFunction 0 [] args := storeArgs_targets
  refine packs_of_places htargets.symm ?_ ?_
  · rw [htargets]
    exact callFunction_eq (x := 0) hfit
  · rw [storeArgs_size]
    exact argsSize_eq (x := 0) hfit

/-! ## What the stub loads -/

/-- An argument whose value is as long as its place. -/
def Filled (a : Arg) : Prop :=
  match a.passed with
  | .data bytes => a.fullSize ≤ bytes.length
  | _ => a.fullSize = 8

/-- The values of the arguments, from the argument `i` on. -/
def passedValues (pointers : Nat → UInt64) (i : Nat) : List Arg → List (List UInt8)
  | [] => []
  | a :: args =>
    passedBytes (pointers i) a.fullSize a.passed :: passedValues pointers (i + 1) args

theorem Filled.length (h : Filled a) :
    (passedBytes k a.fullSize a.passed).length = a.fullSize := by
  unfold Filled at h
  cases hp : a.passed with
  | localBuffer n =>
    rw [hp] at h
    exact h.symm
  | buffer object =>
    rw [hp] at h
    exact h.symm
  | data bytes =>
    rw [hp] at h
    exact List.length_take_of_le h

theorem storeArgs_below {y : Nat} (hfit : placesEnd x.toNat args < 2 ^ 64) (hy : y < x.toNat) :
    (storeArgs pointers i x p args).memory y = p.memory y := by
  induction args generalizing i x p with
  | nil => rfl
  | cons a args ih =>
    obtain ⟨hsize, hstart, hnext⟩ := pass_eq hfit
    have hle : x.toNat ≤ alignUp (slot a.fullSize) x.toNat := le_alignUp
    unfold storeArgs
    rw [ih (by rw [hnext]; exact hfit) (by omega)]
    exact write_below (by omega)

theorem storeArgs_reads (hfit : placesEnd x.toNat args < 2 ^ 64) (hfilled : ∀ a ∈ args, Filled a) :
    (callFunction x [] args).map
      (fun r => read (storeArgs pointers i x p args).memory r.1.toNat r.2.toNat) =
      passedValues pointers i args := by
  induction args generalizing i x p with
  | nil => rfl
  | cons a args ih =>
    obtain ⟨hsize, hstart, hnext⟩ := pass_eq hfit
    have hslot : a.fullSize ≤ slot a.fullSize := le_slot
    have hrest : placesEnd (typeOffset x (argSize a)).2.toNat args < 2 ^ 64 := by
      rw [hnext]
      exact hfit
    have hlen : (passedBytes (pointers i) (argSize a).toNat a.passed).length =
        (argSize a).toNat := by
      rw [hsize]
      exact (hfilled a List.mem_cons_self).length
    simp only [callFunction, List.nil_append]
    rw [callFunction_append, List.map_append]
    simp only [storeArgs, passedValues]
    rw [ih hrest fun b hb => hfilled b (List.mem_cons_of_mem a hb)]
    simp only [List.map_cons, List.map_nil, List.singleton_append, List.cons.injEq, and_true]
    -- the arguments behind this one do not touch its bytes
    have hkept : read (storeArgs pointers (i + 1) (typeOffset x (argSize a)).2
          { p with
            targets := p.targets ++ [((typeOffset x (argSize a)).1, argSize a)]
            memory := write p.memory (typeOffset x (argSize a)).1.toNat
              (passedBytes (pointers i) (argSize a).toNat a.passed) } args).memory
          (typeOffset x (argSize a)).1.toNat (argSize a).toNat =
        read (write p.memory (typeOffset x (argSize a)).1.toNat
          (passedBytes (pointers i) (argSize a).toNat a.passed))
          (typeOffset x (argSize a)).1.toNat (argSize a).toNat :=
      read_congr fun k hk => storeArgs_below hrest (by omega)
    rw [hkept]
    conv_lhs =>
      arg 3
      rw [← hlen]
    rw [read_write, hsize]

/-- The stub calls the kernel with the values of its arguments. -/
theorem stub_loads_values {memalign : UInt64 → Option (Nat → UInt8)}
    (hfit : placesEnd 0 args < 2 ^ 64) (hfilled : ∀ a ∈ args, Filled a)
    (hp : callArgs memalign pointers args = some p) :
    (callFunction 0 [] args).map (fun r => read p.memory r.1.toNat r.2.toNat) =
      passedValues pointers 0 args := by
  unfold callArgs at hp
  obtain ⟨rs, -, rfl⟩ := Option.map_eq_some_iff.mp hp
  exact storeArgs_reads (x := 0) hfit hfilled

/-! ## Stub and caller -/

/-- The work-groups store the arguments where the stub loads them, each at a multiple of the least
power of two that holds it, apart from each other and inside the block. So the kernel is called
with the values of its arguments. -/
theorem stub_and_caller_agree (memalign : UInt64 → Option (Nat → UInt8))
    (pointers : Nat → UInt64) (args : List Arg) (p : PackedArgs)
    (hfit : placesEnd 0 args < 2 ^ 64) (hp : callArgs memalign pointers args = some p) :
    Packs args p ∧
      ((∀ a ∈ args, Filled a) →
        (callFunction 0 [] args).map (fun r => read p.memory r.1.toNat r.2.toNat) =
          passedValues pointers 0 args) ∧
      ∀ k : UInt64, 1 ≤ k.toNat → k.toNat ≤ 2 ^ 63 →
        IsLeast (powersAbove k.toNat) (nextPowerOfTwo k).toNat := by
  refine ⟨packs_callArgs hfit hp, fun hfilled => stub_loads_values hfit hfilled hp,
    fun k _ hk => ?_⟩
  rw [nextPowerOfTwo_eq hk]
  exact slot_isLeast

/-- A `char`, a `float3` and a structure of 20 bytes, with their values. -/
def mixedArgs : List Arg :=
  [{ Arg.create 1 .priv .int8 1 1 with data := some [7] },
    { Arg.create 3 .priv .float 16 16 with data := some (List.replicate 12 9) },
    { Arg.create 1 .priv .structType 4 20 with data := some (List.replicate 20 11) }]

def packedMixed : PackedArgs :=
  storeArgs (fun _ => 0) 0 0 ⟨argsSize 0 mixedArgs, [], fun _ => 0⟩ mixedArgs

theorem mixed_agree : Packs mixedArgs packedMixed ∧
    (callFunction 0 [] mixedArgs).map (fun r => read packedMixed.memory r.1.toNat r.2.toNat) =
      [[7], List.replicate 12 9, List.replicate 20 11] ∧
    ∀ k : UInt64, 1 ≤ k.toNat → k.toNat ≤ 2 ^ 63 →
      IsLeast (powersAbove k.toNat) (nextPowerOfTwo k).toNat := by
  obtain ⟨hpacks, hvalues, hleast⟩ := stub_and_caller_agree (fun _ => some fun _ => 0)
    (fun _ => 0) mixedArgs packedMixed (by decide) rfl
  have hfilled : ∀ a ∈ mixedArgs, Filled a := by
    simp [mixedArgs, Filled, Arg.passed, Arg.fullSize, Arg.valueSize, Arg.create]
  exact ⟨hpacks, hvalues hfilled, hleast⟩

end Shamrock.Cpu
