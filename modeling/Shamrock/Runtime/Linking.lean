import Shamrock.Runtime.Lookup

/-!
# What a program is linked from

`link` over modules that carry the list of the modules they were made of: those of the entries of
the input programs, the own one of an entry, and the library.
-/
namespace Shamrock.Runtime

/-- A module that `link` reads. -/
inductive Part
  | own (k : Nat)
  | input (q k : Nat)
  | library
  deriving DecidableEq, Repr

namespace Toolchain

variable {M : Type}

/-- The same LLVM and devices, with the parts of each module. The source of a link keeps its parts,
although LLVM empties it: the parts are what a module was made of. -/
def labelled (tc : Toolchain M) : Toolchain (M × List Part) where
  operands m := tc.operands m.1
  stdlib := tc.stdlib.map fun m => (m, [.library])
  linkStdLib := tc.linkStdLib
  link m other :=
    let r := tc.link m.1 other.1
    ((r.1, m.2 ++ other.2), (r.2.1, other.2), r.2.2)
  linkSelf m :=
    let r := tc.linkSelf m.1
    ((r.1, m.2 ++ m.2), r.2)
  optimize device optimize m := (tc.optimize device optimize m.1, m.2)
  build device m binary := tc.build device m.1 binary
  writeBitcode m := tc.writeBitcode m.1
  parseBitcode binary := (tc.parseBitcode binary).map fun m => (m, [])
  extractMixedBinary := tc.extractMixedBinary

theorem labelled_stdlib (tc : Toolchain M) :
    tc.labelled.stdlib = tc.stdlib.map fun m => (m, [.library]) := rfl

theorem labelled_linkStdLib (tc : Toolchain M) : tc.labelled.linkStdLib = tc.linkStdLib := rfl

theorem labelled_optimize (tc : Toolchain M) (device : DeviceId) (optimize : Bool)
    (m : M × List Part) :
    tc.labelled.optimize device optimize m = (tc.optimize device optimize m.1, m.2) := rfl

theorem labelled_build (tc : Toolchain M) (device : DeviceId) (m : M × List Part)
    (binary : List UInt8) : tc.labelled.build device m binary = tc.build device m.1 binary := rfl

theorem labelled_link (tc : Toolchain M) (m other : M × List Part) :
    tc.labelled.link m other = (((tc.link m.1 other.1).1, m.2 ++ other.2),
      ((tc.link m.1 other.1).2.1, other.2), (tc.link m.1 other.1).2.2) := rfl

theorem labelled_linkSelf (tc : Toolchain M) (m : M × List Part) :
    tc.labelled.linkSelf m = (((tc.linkSelf m.1).1, m.2 ++ m.2), (tc.linkSelf m.1).2) := rfl

/-- LLVM links what it is given, and the devices build it. -/
structure Succeeds (tc : Toolchain M) : Prop where
  link : ∀ m other, (tc.link m other).2.2 = true
  linkSelf : ∀ m, (tc.linkSelf m).2 = true
  build : ∀ device m binary, (tc.build device m binary).2 = true

end Toolchain

namespace Dependent

variable {M N : Type}

def map (f : M → N) (dep : Dependent M) : Dependent N :=
  { dep with linkedModule := dep.linkedModule.map f }

variable (f : M → N) (dep : Dependent M)

@[simp] theorem device_map : (dep.map f).device = dep.device := rfl

@[simp] theorem unlinkedBinary_map : (dep.map f).unlinkedBinary = dep.unlinkedBinary := rfl

@[simp] theorem isNativeBinary_map : (dep.map f).isNativeBinary = dep.isNativeBinary := rfl

@[simp] theorem linkedModule_map : (dep.map f).linkedModule = dep.linkedModule.map f := rfl

@[simp] theorem optimize_map : (dep.map f).optimize = dep.optimize := rfl

end Dependent

namespace Program

variable {M N : Type}

def map (f : M → N) (p : Program M) : Program N :=
  { p with deviceDependents := p.deviceDependents.map (Dependent.map f) }

/-- The program with a part for each entry. -/
def label (part : Nat → Part) (p : Program M) : Program (M × List Part) :=
  { p with deviceDependents := p.deviceDependents.mapIdx fun k => .map fun m => (m, [part k]) }

def labelInputs (programs : List (Program M)) : List (Program (M × List Part)) :=
  programs.mapIdx fun q => label (.input q)

/-- The modules of the input programs for a device. -/
def inputParts (programs : List (Program M)) (qs : List Nat) (device : DeviceId) : List Part :=
  qs.filterMap fun q => programs[q]?.bind fun p =>
    (deviceDependent p.deviceDependents device).map (.input q)

/-- The library, once, where the device needs it and no library is made. -/
def libraryParts (tc : Toolchain M) (createLibrary isNativeBinary : Bool) (device : DeviceId) :
    List Part :=
  if !isNativeBinary && tc.linkStdLib device && !createLibrary then [.library] else []

/-- Each entry has a module that is made of its parts, each once. -/
def MadeOf (deps : List (Dependent (M × List Part))) (parts : List (List Part)) : Prop :=
  ∀ (k : Nat) (expected : List Part), parts[k]? = some expected →
    ∃ (dep : Dependent (M × List Part)) (m : M × List Part),
      deps[k]? = some dep ∧ dep.linkedModule = some m ∧ m.2.Perm expected

/-- The run reads nothing that is not there, and if it succeeds the modules are made of the
parts. -/
def EndsWith
    (r : Except Fault (List (Program (M × List Part)) × Program (M × List Part) × Int))
    (parts : List (List Part)) : Prop :=
  match r with
  | .error _ => False
  | .ok (_, p, code) => code = clSuccess → MadeOf p.deviceDependents parts

/-- Each device of a new program gets the modules of the inputs for it and the library. -/
def LinkedOnce (tc : Toolchain M) (programs : List (Program M)) (devices : List DeviceId)
    (createLibrary : Bool) (qs : List Nat) : Prop :=
  EndsWith (new.link tc.labelled (labelInputs programs) devices createLibrary (qs.map .program))
    (devices.map fun d => inputParts programs qs d ++ libraryParts tc createLibrary false d)

/-- In the call of `build` each entry gets its own module and the library. -/
def CombinedOnce (tc : Toolchain M) (programs : List (Program M)) (p : Program M)
    (devices : List DeviceId) (createLibrary : Bool) : Prop :=
  EndsWith ((p.label .own).link tc.labelled (labelInputs programs) devices createLibrary [.self])
    (p.deviceDependents.mapIdx fun k dep =>
      .own k :: libraryParts tc createLibrary dep.isNativeBinary dep.device)

/-- No device but the last is linked with the library. -/
def LibraryAtEnd (tc : Toolchain M) (createLibrary : Bool) (devices : List DeviceId) : Prop :=
  ∀ d ∈ devices.dropLast, createLibrary = true ∨ tc.linkStdLib d = false

/-- Each entry is selected by one of the first devices of the list. -/
def SelectsEach (devices : List DeviceId) (deps : List (Dependent M)) : Prop :=
  ((List.range deps.length).map fun i => devices[i]?.bind (deviceDependent deps)).Perm
    ((List.range deps.length).map some)

instance (devices : List DeviceId) (deps : List (Dependent M)) :
    Decidable (SelectsEach devices deps) :=
  inferInstanceAs (Decidable (List.Perm _ _))

/-- Each entry is linked with the library. -/
def LibraryForAll (tc : Toolchain M) (createLibrary : Bool) (deps : List (Dependent M)) : Prop :=
  ∀ dep ∈ deps, libraryParts tc createLibrary dep.isNativeBinary dep.device = [.library]

/-! ## The parts do not matter to the run -/

section Erase

variable {tc : Toolchain M} {f : M → N} {createLibrary : Bool} {d : DeviceId} {k q num : Nat}
  {inputs : List Input} {programs : List (Program (M × List Part))} {m : M × List Part}
  {stdlib : Option (M × List Part)}

theorem deviceDependent_map (f : M → N) (deps : List (Dependent M)) (d : DeviceId) :
    deviceDependent (deps.map (Dependent.map f)) d = deviceDependent deps d := by
  exact deviceDependent_congr (by simp [Function.comp_def]) d

theorem setModule_map (f : M → N) (programs : List (Program M)) (q k : Nat) (m : M) :
    (setModule programs q k m).map (Program.map f) =
      setModule (programs.map (.map f)) q k (f m) := by
  apply List.ext_getElem?
  intro j
  simp only [setModule, List.getElem?_map, List.getElem?_modify]
  cases programs[j]? with
  | none => rfl
  | some p =>
    by_cases hj : q = j
    · simp only [hj, if_true, Option.map_eq_map, Option.map_some, Program.map]
      congr 2
      apply List.ext_getElem?
      intro i
      simp only [List.getElem?_map, List.getElem?_modify]
      cases p.deviceDependents[i]? with
      | none => rfl
      | some dep => by_cases hi : k = i <;> simp [hi, Dependent.map]
    · simp [hj]

theorem inputModule_map (f : M → N) (programs : List (Program M)) (q : Nat) (d : DeviceId) :
    inputModule (programs.map (.map f)) q d =
      (inputModule programs q d).map fun r => (r.1, f r.2) := by
  simp only [inputModule, List.getElem?_map]
  cases programs[q]? with
  | none => rfl
  | some p =>
    simp only [Option.map_some, Program.map, deviceDependent_map]
    cases deviceDependent p.deviceDependents d with
    | none => rfl
    | some k =>
      simp only [List.getElem?_map]
      cases p.deviceDependents[k]? with
      | none => rfl
      | some dep =>
        simp only [Option.map_some, Option.bind_some, Dependent.map]
        cases dep.linkedModule <;> rfl

theorem firstModule_map (f : M → N) (programs : List (Program M)) (inputs : List Input)
    (d : DeviceId) :
    firstModule (programs.map (.map f)) inputs d = (firstModule programs inputs d).map f := by
  simp only [firstModule]
  cases inputs.head? with
  | none => rfl
  | some input =>
    cases input with
    | self => rfl
    | program q =>
      simp only [inputModule_map]
      cases inputModule programs q d <;> rfl

theorem linkInputs_labelled (js : List Nat) :
    linkInputs tc inputs d (stdlib.map Prod.fst) num js (programs.map (.map Prod.fst)) m.1 =
      (linkInputs tc.labelled inputs d stdlib num js programs m).map fun r =>
        (r.1.map (.map Prod.fst), r.2.1.1, r.2.2) := by
  induction js generalizing programs m with
  | nil => rfl
  | cons j js ih =>
    have hif : (if j + 1 = num then stdlib.map Prod.fst else none) =
        (if j + 1 = num then stdlib else none).map Prod.fst := by split <;> rfl
    simp only [linkInputs, hif]
    cases (if j + 1 = num then stdlib else none) with
    | some other =>
      simp only [Option.map_some, Toolchain.labelled_link]
      rcases tc.link m.1 other.1 with ⟨m', other', _ | _⟩
      · rfl
      · exact ih (m := (m', m.2 ++ other.2))
    | none =>
      simp only [Option.map_none]
      cases inputs[j]? with
      | none => rfl
      | some input =>
        cases input with
        | self =>
          simp only [Toolchain.labelled_linkSelf]
          rcases tc.linkSelf m.1 with ⟨m', _ | _⟩
          · rfl
          · exact ih (m := (m', m.2 ++ m.2))
        | program q =>
          simp only [inputModule_map]
          cases inputModule programs q d with
          | error f => rfl
          | ok r =>
            simp only [Except.map, Toolchain.labelled_link]
            rcases tc.link m.1 r.2.1 with ⟨m', other', _ | _⟩
            · simp only [setModule_map]
            · have hset := setModule_map Prod.fst programs q r.1 (other', r.2.2)
              simp only [← hset]
              exact ih (m := (m', m.2 ++ r.2.2))

theorem stdlibFor_labelled (dep : Dependent (M × List Part)) :
    stdlibFor tc createLibrary (dep.map Prod.fst) =
      (stdlibFor tc.labelled createLibrary dep).map Prod.fst := by
  change (if !dep.isNativeBinary && tc.linkStdLib dep.device && !createLibrary then tc.stdlib
      else none) =
    (if !dep.isNativeBinary && tc.linkStdLib dep.device && !createLibrary then
      tc.stdlib.map fun m => (m, [Part.library])
    else none).map Prod.fst
  split
  · cases tc.stdlib <;> rfl
  · rfl

theorem linkStart_labelled (dep : Dependent (M × List Part)) :
    linkStart (stdlib.map Prod.fst) inputs d (dep.map Prod.fst) (programs.map (.map Prod.fst)) num =
      (linkStart stdlib inputs d dep programs num).map fun r => (r.1.1, r.2) := by
  simp only [linkStart, Dependent.linkedModule_map]
  cases dep.linkedModule with
  | some m => rfl
  | none =>
    simp only [Option.map_none, firstModule_map]
    cases firstModule programs inputs d with
    | error f => rfl
    | ok m => cases stdlib <;> rfl

theorem linkDevice_labelled (i : Nat) (dep : Dependent (M × List Part)) :
    linkDevice tc createLibrary inputs i d (dep.map Prod.fst) (programs.map (.map Prod.fst), num) =
      (linkDevice tc.labelled createLibrary inputs i d dep (programs, num)).map fun r =>
        (r.1.map Prod.fst, (r.2.1.1.map (.map Prod.fst), r.2.1.2), r.2.2) := by
  simp only [linkDevice, stdlibFor_labelled, linkStart_labelled]
  cases linkStart (stdlibFor tc.labelled createLibrary dep) inputs d dep programs num with
  | error f => rfl
  | ok r =>
    obtain ⟨m, start, num'⟩ := r
    simp only [Except.map, linkInputs_labelled]
    cases linkInputs tc.labelled inputs d (stdlibFor tc.labelled createLibrary dep) num'
        (List.range' start (num' - start)) programs m with
    | error f => rfl
    | ok r =>
      obtain ⟨programs', m', _ | _⟩ := r
      · rfl
      · simp only [Dependent.isNativeBinary_map, Dependent.device_map, Dependent.optimize_map,
          Dependent.unlinkedBinary_map, Toolchain.labelled_optimize, Toolchain.labelled_build]
        by_cases hopt : (!dep.isNativeBinary && !createLibrary) = true
        · simp only [hopt, if_true]
          rfl
        · simp only [hopt]
          rfl

theorem forDevices_labelled {devices : List DeviceId} (is : List Nat)
    (deps : List (Dependent (M × List Part))) :
    forDevices devices (linkDevice tc createLibrary inputs) is (deps.map (.map Prod.fst))
        (programs.map (.map Prod.fst), num) =
      (forDevices devices (linkDevice tc.labelled createLibrary inputs) is deps
        (programs, num)).map fun r =>
          (r.1.map (.map Prod.fst), (r.2.1.1.map (.map Prod.fst), r.2.1.2), r.2.2) := by
  induction is generalizing deps programs num with
  | nil => rfl
  | cons i is ih =>
    simp only [forDevices, deviceDependent_map, List.getElem?_map]
    cases devices[i]? with
    | none => rfl
    | some d =>
      cases hk : deviceDependent deps d with
      | none => simp only [hk, Except.map]
      | some k =>
        cases hdep : deps[k]? with
        | none => simp only [hk, hdep, Option.map_none, Except.map]
        | some dep =>
          simp only [hk, hdep, Option.map_some, linkDevice_labelled]
          cases linkDevice tc.labelled createLibrary inputs i d dep (programs, num) with
          | error f => rfl
          | ok r =>
            obtain ⟨dep', ⟨programs', num'⟩, code⟩ := r
            simp only [Except.map, ← List.map_set]
            split
            · exact ih _
            · rfl

/-- Without the parts the run is the one of the program. -/
theorem link_labelled (p : Program (M × List Part)) (devices : List DeviceId) :
    (p.map Prod.fst).link tc (programs.map (.map Prod.fst)) devices createLibrary inputs =
      (p.link tc.labelled programs devices createLibrary inputs).map fun r =>
        (r.1.map (.map Prod.fst), r.2.1.map Prod.fst, r.2.2) := by
  have hinit : ({ p.map Prod.fst with state := .failed }.initDevices devices) =
      ({ p with state := .failed }.initDevices devices).map Prod.fst := by
    by_cases hd : p.deviceDependents = [] <;>
      simp [initDevices, setDevices, Program.map, Dependent.map, hd]
  simp only [link, hinit]
  generalize { p with state := .failed }.initDevices devices = p'
  simp only [Program.map, List.length_map, forDevices_labelled]
  cases forDevices devices (linkDevice tc.labelled createLibrary inputs)
      (List.range p'.deviceDependents.length) p'.deviceDependents (programs, inputs.length) with
  | error f => rfl
  | ok r =>
    obtain ⟨deps, ⟨programs', num'⟩, code⟩ := r
    simp only [Except.map]
    split <;> rfl

end Erase

/-! ## A new program -/

section New

variable {tc : Toolchain M} {createLibrary linked : Bool} {d : DeviceId} {i k n num q start : Nat}
  {qs js : List Nat} {devices : List DeviceId} {programs : List (Program M)}
  {others others' : List (Program (M × List Part))} {m m' other : M × List Part}
  {stdlib : Option (M × List Part)}

/-- The devices and the parts of the other programs, which linking keeps. -/
def view (others : List (Program (M × List Part))) : List (List (DeviceId × Option (List Part))) :=
  others.map fun p => p.deviceDependents.map fun dep => (dep.device, dep.linkedModule.map Prod.snd)

theorem inputModule_inv (h : inputModule others q d = .ok (k, m)) :
    ∃ p dep, others[q]? = some p ∧ deviceDependent p.deviceDependents d = some k ∧
      p.deviceDependents[k]? = some dep ∧ dep.linkedModule = some m := by
  simp only [inputModule] at h
  split at h
  · cases h
  · rename_i p hp
    split at h
    · cases h
    · rename_i k' hk
      split at h
      · cases h
      · rename_i m' hmod
        cases h
        obtain ⟨dep, hdep, hm⟩ := Option.bind_eq_some_iff.mp hmod
        exact ⟨p, dep, hp, hk, hdep, hm⟩

/-- Linking moves the parts of the other module, and they stay its parts. -/
theorem view_setModule (h : inputModule others q d = .ok (k, m)) (hm : m'.2 = m.2) :
    view (setModule others q k m') = view others := by
  obtain ⟨p, dep, hp, -, hdep, hmod⟩ := inputModule_inv h
  apply List.ext_getElem?
  intro j
  simp only [view, List.getElem?_map, getElem?_setModule]
  by_cases hj : q = j
  · subst hj
    simp only [hp, Option.map_some, if_true, withModule, Option.some.injEq]
    apply List.ext_getElem?
    intro i
    simp only [List.getElem?_map, List.getElem?_modify]
    by_cases hi : k = i
    · subst hi
      simp [hdep, hmod, hm]
    · simp [hi]
  · cases others[j]? <;> simp [hj]

theorem device_label (part : Nat → Part) (p : Program M) :
    (p.label part).deviceDependents.map Dependent.device =
      p.deviceDependents.map Dependent.device := by
  apply List.ext_getElem?
  intro j
  simp only [label, List.getElem?_map, List.getElem?_mapIdx]
  cases p.deviceDependents[j]? <;> rfl

theorem device_of_view {p p' : Program (M × List Part)} (hp : others[q]? = some p)
    (hp' : others'[q]? = some p') (h : view others = view others') :
    p.deviceDependents.map Dependent.device = p'.deviceDependents.map Dependent.device := by
  have hq := congrArg (fun v => v[q]?) h
  simp only [view, List.getElem?_map, hp, hp', Option.map_some, Option.some.injEq] at hq
  simpa [Function.comp_def] using congrArg (List.map Prod.fst) hq

/-- The module that `link` reads is that of the input. -/
theorem inputModule_parts (hready : InputsReady programs qs devices)
    (hview : view others = view (labelInputs programs)) (hq : q ∈ qs) (hd : d ∈ devices) :
    ∃ k m, inputModule others q d = .ok (k, m) ∧ m.2 = inputParts programs [q] d := by
  obtain ⟨p, hp, hm, hlookup⟩ := hready q hq
  obtain ⟨k, hk⟩ := Option.isSome_iff_exists.mp (hlookup d hd)
  have hlt := lt_of_deviceDependent hk
  obtain ⟨m₀, hm₀⟩ := Option.ne_none_iff_exists'.mp (hm _ (List.getElem_mem hlt))
  have hlabel : (labelInputs programs)[q]? = some (p.label (.input q)) := by
    simp [labelInputs, hp]
  obtain ⟨p', hp'⟩ : ∃ p', others[q]? = some p' := by
    have hlen := congrArg List.length hview
    have hltq := (List.getElem?_eq_some_iff.mp hlabel).1
    simp only [view, List.length_map] at hlen
    exact ⟨_, List.getElem?_eq_getElem (hlen ▸ hltq)⟩
  have hk' : deviceDependent p'.deviceDependents d = some k := by
    rw [← hk]
    exact deviceDependent_congr ((device_of_view hp' hlabel hview).trans (device_label _ p)) d
  have hlt' := lt_of_deviceDependent hk'
  have hentry := congrArg (fun v => v[q]?.bind fun es => es[k]?) hview
  simp only [view, List.getElem?_map, hp', hlabel, Option.map_some, Option.bind_some, label,
    List.getElem?_mapIdx, List.getElem?_eq_getElem hlt, List.getElem?_eq_getElem hlt',
    Dependent.linkedModule_map, hm₀, Option.some.injEq, Prod.mk.injEq] at hentry
  obtain ⟨m, hmod, hparts⟩ := Option.map_eq_some_iff.mp hentry.2
  refine ⟨k, m, by simp [inputModule, hp', hk', hlt', hmod], ?_⟩
  simp [inputParts, hp, hk, hparts]

theorem inputParts_cons (programs : List (Program M)) (q : Nat) (qs : List Nat) (d : DeviceId) :
    inputParts programs (q :: qs) d = inputParts programs [q] d ++ inputParts programs qs d := by
  simp only [inputParts, ← List.filterMap_append, List.singleton_append]

/-- From an input on, each of the rest is linked once, and then the library. -/
theorem linkInputs_parts (tc : Toolchain M) (stdlib : Option (M × List Part)) (start : Nat)
    (hready : InputsReady programs qs devices)
    (hview : view others = view (labelInputs programs)) (hd : d ∈ devices)
    (hstart : start ≤ qs.length) (hnum : start + n = qs.length + stdlib.toList.length) :
    ∃ others' m' linked, linkInputs tc.labelled (qs.map .program) d stdlib (start + n)
        (List.range' start n) others m = .ok (others', m', linked) ∧
      view others' = view others ∧ (tc.Succeeds → linked = true) ∧
      (linked = true → m'.2 =
        m.2 ++ inputParts programs (qs.drop start) d ++ stdlib.elim [] Prod.snd) := by
  induction n generalizing start others m with
  | zero =>
    cases stdlib with
    | some other =>
      simp only [Option.toList_some, List.length_singleton] at hnum
      omega
    | none =>
      refine ⟨others, m, true, rfl, rfl, fun _ => rfl, fun _ => ?_⟩
      simp only [Option.toList_none, List.length_nil] at hnum
      rw [List.drop_eq_nil_of_le (by omega)]
      simp [inputParts]
  | succ n ih =>
    rw [List.range'_succ]
    by_cases hlast : start = qs.length
    · -- only the library is left
      obtain ⟨other, rfl⟩ : ∃ other, stdlib = some other := by
        cases stdlib with
        | some other => exact ⟨other, rfl⟩
        | none =>
          simp only [Option.toList_none, List.length_nil] at hnum
          omega
      obtain rfl : n = 0 := by
        simp only [Option.toList_some, List.length_singleton] at hnum
        omega
      have hparts : inputParts programs (qs.drop start) d = [] := by
        rw [List.drop_eq_nil_of_le (by omega)]
        rfl
      simp only [linkInputs, if_true, Toolchain.labelled_link, hparts]
      rcases hlink : tc.link m.1 other.1 with ⟨m', other', _ | _⟩
      · refine ⟨_, _, false, rfl, rfl, fun hs => ?_, fun h => absurd h (by decide)⟩
        have htrue := hs.link m.1 other.1
        rw [hlink] at htrue
        exact htrue
      · exact ⟨_, _, true, rfl, rfl, fun _ => rfl, fun _ => by simp⟩
    · have hlt : start < qs.length := by omega
      have hlib : (if start + 1 = start + (n + 1) then stdlib else none) = none := by
        by_cases heq : start + 1 = start + (n + 1)
        · cases stdlib with
          | none => simp
          | some other =>
            simp only [Option.toList_some, List.length_singleton] at hnum
            omega
        · rw [if_neg heq]
      have hinput : (qs.map Input.program)[start]? = some (.program qs[start]) := by simp [hlt]
      obtain ⟨k, other, hmod, hparts⟩ :=
        inputModule_parts hready hview (List.getElem_mem hlt) hd
      simp only [linkInputs, hlib, hinput, hmod, Toolchain.labelled_link]
      have hset : ∀ other' : M, view (setModule others qs[start] k (other', other.2)) =
          view others := fun other' => view_setModule hmod rfl
      rcases hlink : tc.link m.1 other.1 with ⟨m', other', _ | _⟩
      · refine ⟨_, _, false, rfl, hset other', fun hs => ?_, fun h => absurd h (by decide)⟩
        have htrue := hs.link m.1 other.1
        rw [hlink] at htrue
        exact htrue
      · obtain ⟨others', m'', linked, hrun, hkept, hsucc, hall⟩ :=
          ih (start + 1) (m := (m', m.2 ++ other.2)) ((hset other').trans hview) (by omega)
            (by omega)
        rw [show start + 1 + n = start + (n + 1) by omega] at hrun
        refine ⟨others', m'', linked, hrun, hkept.trans (hset other'), hsucc, fun h => ?_⟩
        rw [hall h, List.drop_eq_getElem_cons hlt, inputParts_cons, hparts]
        simp

theorem stdlibFor_parts (createLibrary : Bool) (dep : Dependent (M × List Part))
    (hlib : tc.stdlib.isSome) :
    (stdlibFor tc.labelled createLibrary dep).elim [] Prod.snd =
      libraryParts tc createLibrary dep.isNativeBinary dep.device := by
  obtain ⟨lib, hlib⟩ := Option.isSome_iff_exists.mp hlib
  simp only [stdlibFor, libraryParts, Toolchain.labelled_stdlib, Toolchain.labelled_linkStdLib,
    hlib]
  split <;> rfl

theorem stdlibFor_isSome (createLibrary : Bool) (dep : Dependent (M × List Part))
    (hlib : tc.stdlib.isSome) :
    (stdlibFor tc.labelled createLibrary dep).toList.length =
      (libraryParts tc createLibrary dep.isNativeBinary dep.device).length := by
  obtain ⟨lib, hlib⟩ := Option.isSome_iff_exists.mp hlib
  simp only [stdlibFor, libraryParts, Toolchain.labelled_stdlib, Toolchain.labelled_linkStdLib,
    hlib]
  split <;> rfl

/-- The loop over the inputs starts behind the first, which is cloned. -/
theorem linkStart_new (stdlib : Option (M × List Part)) (num : Nat)
    (hready : InputsReady programs qs devices)
    (hview : view others = view (labelInputs programs)) (hd : d ∈ devices) (hqs : qs ≠ [])
    {dep : Dependent (M × List Part)} (hnone : dep.linkedModule = none) :
    ∃ m, linkStart stdlib (qs.map .program) d dep others num =
        .ok (m, 1, num + stdlib.toList.length) ∧
      m.2 ++ inputParts programs (qs.drop 1) d = inputParts programs qs d := by
  obtain ⟨q, qs, rfl⟩ := List.exists_cons_of_ne_nil hqs
  obtain ⟨k, m, hmod, hparts⟩ := inputModule_parts hready hview List.mem_cons_self hd
  refine ⟨m, ?_, ?_⟩
  · simp only [linkStart, hnone, firstModule, List.map_cons, List.head?_cons, hmod, Except.map]
    cases stdlib <;> rfl
  · rw [hparts, List.drop_one, List.tail_cons, ← inputParts_cons]

/-- A new entry, with `num_input_programs` as the caller gave it. -/
theorem linkDevice_new (createLibrary : Bool) (i : Nat) (hready : InputsReady programs qs devices)
    (hview : view others = view (labelInputs programs)) (hd : d ∈ devices) (hqs : qs ≠ [])
    (hlib : tc.stdlib.isSome) {dep : Dependent (M × List Part)} (hnone : dep.linkedModule = none) :
    ∃ dep' others' code, linkDevice tc.labelled createLibrary (qs.map .program) i d dep
        (others, qs.length) = .ok (dep', (others', qs.length +
          (libraryParts tc createLibrary dep.isNativeBinary dep.device).length), code) ∧
      view others' = view others ∧ dep'.device = dep.device ∧
      (tc.Succeeds → code = clSuccess) ∧
      (code = clSuccess → ∃ m, dep'.linkedModule = some m ∧ m.2 = inputParts programs qs d ++
        libraryParts tc createLibrary dep.isNativeBinary dep.device) := by
  obtain ⟨m, hstart, hfirst⟩ := linkStart_new (stdlibFor tc.labelled createLibrary dep)
    qs.length hready hview hd hqs hnone
  have hpos := List.length_pos_iff.mpr hqs
  have hlen := stdlibFor_isSome createLibrary dep hlib
  obtain ⟨others', m', linked, hrun, hkept, hsucc, hall⟩ := linkInputs_parts tc
    (stdlibFor tc.labelled createLibrary dep) 1 (m := m)
    (n := qs.length + (stdlibFor tc.labelled createLibrary dep).toList.length - 1)
    hready hview hd hpos (by omega)
  rw [show 1 + (qs.length + (stdlibFor tc.labelled createLibrary dep).toList.length - 1) =
    qs.length + (stdlibFor tc.labelled createLibrary dep).toList.length by omega] at hrun
  simp only [linkDevice, hstart, hrun, ← hlen]
  cases linked with
  | false =>
    refine ⟨_, others', _, rfl, hkept, rfl, fun hs => ?_, fun h => absurd h (by decide)⟩
    exact absurd (hsucc hs) (by decide)
  | true =>
    refine ⟨_, others', _, rfl, hkept, rfl, fun hs => ?_, fun _ => ⟨_, rfl, ?_⟩⟩
    · rw [Toolchain.labelled_build, if_pos (hs.build _ _ _)]
    · have hm' := hall rfl
      rw [hfirst, stdlibFor_parts createLibrary dep hlib] at hm'
      rw [← hm']
      split <;> rfl

/-- A loop that is longer than the inputs, and not only by the library. -/
theorem linkInputs_past (stdlib : Option (M × List Part)) (num start : Nat)
    (hready : InputsReady programs qs devices)
    (hview : view others = view (labelInputs programs)) (hd : d ∈ devices) (hs : tc.Succeeds)
    (hstart : start ≤ qs.length) (hlong : qs.length < start + n) (hnum : qs.length < num)
    (hlib : num = qs.length + 1 → stdlib = none) :
    linkInputs tc.labelled (qs.map .program) d stdlib num (List.range' start n) others m =
      .error .pastInputPrograms := by
  induction n generalizing start others m with
  | zero => omega
  | succ n ih =>
    rw [List.range'_succ]
    by_cases hlast : start = qs.length
    · have hno : (if start + 1 = num then stdlib else none) = none := by
        split
        · exact hlib (by omega)
        · rfl
      have hinput : (qs.map Input.program)[start]? = none := by simp [hlast]
      simp only [linkInputs, hno, hinput]
    · have hlt : start < qs.length := by omega
      have hno : (if start + 1 = num then stdlib else none) = none := if_neg (by omega)
      have hinput : (qs.map Input.program)[start]? = some (.program qs[start]) := by simp [hlt]
      obtain ⟨k, other, hmod, -⟩ := inputModule_parts hready hview (List.getElem_mem hlt) hd
      have htrue := hs.link m.1 other.1
      simp only [linkInputs, hno, hinput, hmod, Toolchain.labelled_link]
      rcases hlink : tc.link m.1 other.1 with ⟨m', other', linked⟩
      rw [hlink] at htrue
      obtain rfl : linked = true := htrue
      have hset : view (setModule others qs[start] k (other', other.2)) = view others :=
        view_setModule hmod rfl
      exact ih (start + 1) (m := (m', m.2 ++ other.2)) (hset.trans hview) (by omega) (by omega)

/-- Once the number has grown, the next new entry reads an input behind the last. -/
theorem linkDevice_past (createLibrary : Bool) (i : Nat) (hready : InputsReady programs qs devices)
    (hview : view others = view (labelInputs programs)) (hd : d ∈ devices) (hqs : qs ≠ [])
    (hs : tc.Succeeds) {dep : Dependent (M × List Part)} (hnone : dep.linkedModule = none) :
    linkDevice tc.labelled createLibrary (qs.map .program) i d dep (others, qs.length + 1) =
      .error .pastInputPrograms := by
  obtain ⟨m, hstart, -⟩ := linkStart_new (stdlibFor tc.labelled createLibrary dep)
    (qs.length + 1) hready hview hd hqs hnone
  have hpos := List.length_pos_iff.mpr hqs
  have hlong := linkInputs_past (stdlibFor tc.labelled createLibrary dep)
    (qs.length + 1 + (stdlibFor tc.labelled createLibrary dep).toList.length) 1 (m := m)
    (n := qs.length + (stdlibFor tc.labelled createLibrary dep).toList.length)
    hready hview hd hs hpos (by omega) (by omega)
    (by
      intro h
      cases hstd : stdlibFor tc.labelled createLibrary dep with
      | none => rfl
      | some other => simp [hstd] at h)
  have hsub : qs.length + 1 + (stdlibFor tc.labelled createLibrary dep).toList.length - 1 =
      qs.length + (stdlibFor tc.labelled createLibrary dep).toList.length := by omega
  simp only [linkDevice, hstart, hsub, hlong]

/-- An entry as `setDevices` makes it. -/
def Fresh (dep : Dependent (M × List Part)) : Prop :=
  dep.linkedModule = none ∧ dep.isNativeBinary = false

/-- The loop over new entries, none of which but the last is linked with the library. -/
theorem linkDevices_new (tc : Toolchain M) (start : Nat) (hready : InputsReady programs qs devices)
    (hqs : qs ≠ []) (hlib : tc.stdlib.isSome) {deps : List (Dependent (M × List Part))}
    (hview : view others = view (labelInputs programs))
    (hown : OwnEntries (deps.map Dependent.device)) (hdev : deps.map Dependent.device = devices)
    (hlen : start + n = deps.length)
    (hfresh : ∀ j dep, start ≤ j → deps[j]? = some dep → Fresh dep)
    (hend : ∀ j dep, start ≤ j → j + 1 < deps.length → deps[j]? = some dep →
      libraryParts tc createLibrary false dep.device = []) :
    ∃ deps' s' code, forDevices devices (linkDevice tc.labelled createLibrary (qs.map .program))
        (List.range' start n) deps (others, qs.length) = .ok (deps', s', code) ∧
      (∀ j < start, deps'[j]? = deps[j]?) ∧
      (code = clSuccess → ∀ j d, start ≤ j → devices[j]? = some d → ∃ dep m,
        deps'[j]? = some dep ∧ dep.linkedModule = some m ∧
          m.2 = inputParts programs qs d ++ libraryParts tc createLibrary false d) := by
  induction n generalizing start deps others with
  | zero =>
    refine ⟨deps, _, clSuccess, rfl, fun _ _ => rfl, ?_⟩
    intro _ j d hj hd
    have hlt := (List.getElem?_eq_some_iff.mp hd).1
    rw [← hdev, List.length_map] at hlt
    omega
  | succ n ih =>
    have hi : deps[start]? = some deps[start] := List.getElem?_eq_getElem (by omega)
    have hd : devices[start]? = some deps[start].device := by
      rw [← hdev, List.getElem?_map, hi]
      rfl
    obtain ⟨hnone, hnative⟩ := hfresh start _ (Nat.le_refl _) hi
    obtain ⟨dep', others', code, hrun, hkept, hsame, -, hparts⟩ :=
      linkDevice_new createLibrary start hready hview (List.mem_of_getElem? hd) hqs hlib hnone
    rw [hnative] at hrun hparts
    have hmap := device_set hi hsame
    have hother : ∀ j, start ≠ j → (deps.set start dep')[j]? = deps[j]? :=
      fun j hne => List.getElem?_set_ne hne
    rw [List.range'_succ, forDevices_own_cons hown hdev hi]
    simp only [hrun]
    by_cases hc : code = clSuccess
    · rw [if_pos hc]
      obtain ⟨m, hmod, hm⟩ := hparts hc
      rcases Nat.eq_zero_or_pos n with rfl | hpos
      · refine ⟨_, _, clSuccess, rfl, fun j hj => hother j (by omega), ?_⟩
        intro _ j d hj hd'
        have hlt := (List.getElem?_eq_some_iff.mp hd').1
        rw [← hdev, List.length_map] at hlt
        obtain rfl : j = start := by omega
        obtain rfl := Option.some.inj (hd.symm.trans hd')
        exact ⟨dep', m, List.getElem?_set_self (by omega), hmod, hm⟩
      · -- not the last, so the number is as it was
        have hnil := hend start _ (Nat.le_refl _) (by omega) hi
        rw [hnil, List.length_nil, Nat.add_zero]
        obtain ⟨deps', s', code', hloop, hbefore, hall⟩ :=
          ih (start + 1) (hkept.trans hview) (by rwa [hmap])
          (hmap.trans hdev) (by rw [List.length_set]; omega)
          (fun j dep hj hdep => hfresh j dep (by omega) (by rwa [hother j (by omega)] at hdep))
          (fun j dep hj hlt hdep => hend j dep (by omega) (by rwa [List.length_set] at hlt)
            (by rwa [hother j (by omega)] at hdep))
        refine ⟨deps', s', code', hloop, ?_, ?_⟩
        · intro j hj
          rw [hbefore j (by omega), hother j (by omega)]
        · intro hc' j d hj hd'
          by_cases heq : j = start
          · subst heq
            obtain rfl := Option.some.inj (hd.symm.trans hd')
            refine ⟨dep', m, ?_, hmod, hm⟩
            rw [hbefore j (by omega), List.getElem?_set_self (by omega)]
          · exact hall hc' j d (by omega) hd'
    · rw [if_neg hc]
      exact ⟨_, _, code, rfl, fun j hj => hother j (by omega), fun h => absurd h hc⟩

/-- And where one before the last is, the run reads behind the inputs. -/
theorem linkDevices_past (hready : InputsReady programs qs devices)
    (hqs : qs ≠ []) (hlib : tc.stdlib.isSome) (hs : tc.Succeeds)
    {deps : List (Dependent (M × List Part))}
    (hview : view others = view (labelInputs programs))
    (hown : OwnEntries (deps.map Dependent.device)) (hdev : deps.map Dependent.device = devices)
    (hlen : start + n = deps.length)
    (hfresh : ∀ j dep, start ≤ j → deps[j]? = some dep → Fresh dep)
    (hbefore : ∃ j dep, start ≤ j ∧ j + 1 < deps.length ∧ deps[j]? = some dep ∧
      libraryParts tc createLibrary false dep.device ≠ []) :
    forDevices devices (linkDevice tc.labelled createLibrary (qs.map .program))
      (List.range' start n) deps (others, qs.length) = .error .pastInputPrograms := by
  induction n generalizing start deps others with
  | zero =>
    obtain ⟨j, dep, hj, hlt, -⟩ := hbefore
    omega
  | succ n ih =>
    have hi : deps[start]? = some deps[start] := List.getElem?_eq_getElem (by omega)
    have hd : devices[start]? = some deps[start].device := by
      rw [← hdev, List.getElem?_map, hi]
      rfl
    obtain ⟨hnone, hnative⟩ := hfresh start _ (Nat.le_refl _) hi
    obtain ⟨dep', others', code, hrun, hkept, hsame, hsucc, -⟩ :=
      linkDevice_new createLibrary start hready hview (List.mem_of_getElem? hd) hqs hlib hnone
    obtain rfl := hsucc hs
    rw [hnative] at hrun
    have hmap := device_set hi hsame
    have hother : ∀ j, start ≠ j → (deps.set start dep')[j]? = deps[j]? :=
      fun j hne => List.getElem?_set_ne hne
    have hown' : OwnEntries ((deps.set start dep').map Dependent.device) := by rwa [hmap]
    rw [List.range'_succ, forDevices_own_cons hown hdev hi]
    simp only [hrun, if_true]
    obtain ⟨j, dep, hj, hlt, hdep, hne⟩ := hbefore
    by_cases hnil : libraryParts tc createLibrary false deps[start].device = []
    · rw [hnil, List.length_nil, Nat.add_zero]
      have hlater : start ≠ j := by
        rintro rfl
        rw [hi, Option.some.injEq] at hdep
        exact hne (hdep ▸ hnil)
      exact ih (hkept.trans hview) hown' (hmap.trans hdev) (by rw [List.length_set]; omega)
        (fun j dep hj hdep => hfresh j dep (by omega) (by rwa [hother j (by omega)] at hdep))
        ⟨j, dep, by omega, by rw [List.length_set]; exact hlt, by rwa [hother j hlater], hne⟩
    · have hone : (libraryParts tc createLibrary false deps[start].device).length = 1 := by
        simp only [libraryParts] at hnil ⊢
        split
        · rfl
        · rename_i h
          exact absurd (if_neg h) hnil
      obtain ⟨n', rfl⟩ : ∃ n', n = n' + 1 := ⟨n - 1, by omega⟩
      have hi' : (deps.set start dep')[start + 1]? = some deps[start + 1] := by
        rw [hother (start + 1) (by omega)]
        exact List.getElem?_eq_getElem (by omega)
      have hd' : devices[start + 1]? = some deps[start + 1].device := by
        rw [← hdev, List.getElem?_map, List.getElem?_eq_getElem (by omega)]
        rfl
      obtain ⟨hnone', -⟩ := hfresh (start + 1) _ (by omega) (List.getElem?_eq_getElem (by omega))
      rw [hone, List.range'_succ, forDevices_own_cons hown' (hmap.trans hdev) hi',
        linkDevice_past createLibrary (start + 1) hready (hkept.trans hview)
          (List.mem_of_getElem? hd') hqs hs hnone']

/-- What the run of `link` ends with is what its loop ends with. -/
theorem endsWith_link {p : Program (M × List Part)} {inputs : List Input}
    {parts : List (List Part)} :
    EndsWith (p.link tc.labelled others devices createLibrary inputs) parts ↔
      ∃ deps s code, forDevices devices (linkDevice tc.labelled createLibrary inputs)
          (List.range (p.initDevices devices).deviceDependents.length)
          (p.initDevices devices).deviceDependents (others, inputs.length) = .ok (deps, s, code) ∧
        (code = clSuccess → MadeOf deps parts) := by
  have hinit : ({ p with state := .failed }.initDevices devices).deviceDependents =
      (p.initDevices devices).deviceDependents := by
    by_cases hd : p.deviceDependents = [] <;> simp [initDevices, setDevices, hd]
  simp only [link, hinit]
  cases forDevices devices (linkDevice tc.labelled createLibrary inputs)
      (List.range (p.initDevices devices).deviceDependents.length)
      (p.initDevices devices).deviceDependents (others, inputs.length) with
  | error f => simp [EndsWith]
  | ok r =>
    obtain ⟨deps, ⟨others', num⟩, code⟩ := r
    constructor
    · intro h
      refine ⟨deps, _, code, rfl, fun hc => ?_⟩
      subst hc
      exact h rfl
    · rintro ⟨_, _, _, heq, h⟩
      cases heq
      by_cases hc : code = clSuccess
      · simp only [hc, if_true, EndsWith]
        exact fun _ => h hc
      · simp only [hc, if_false, EndsWith]
        exact fun hc' => hc'.elim

theorem linkInputs_succeeds (hs : tc.Succeeds) {inputs : List Input}
    (h : linkInputs tc.labelled inputs d stdlib num js others m = .ok (others', m', linked)) :
    linked = true := by
  induction js generalizing others m with
  | nil =>
    cases h
    rfl
  | cons j js ih =>
    simp only [linkInputs] at h
    split at h
    · rename_i other _
      have htrue := hs.link m.1 other.1
      rw [Toolchain.labelled_link, htrue] at h
      exact ih h
    · split at h
      · cases h
      · have htrue := hs.linkSelf m.1
        rw [Toolchain.labelled_linkSelf, htrue] at h
        exact ih h
      · split at h
        · cases h
        · rename_i k other _
          have htrue := hs.link m.1 other.1
          rw [Toolchain.labelled_link, htrue] at h
          exact ih h

theorem linkDevice_succeeds (hs : tc.Succeeds) {inputs : List Input} {code : Int}
    {dep dep' : Dependent (M × List Part)} {s s' : List (Program (M × List Part)) × Nat}
    (h : linkDevice tc.labelled createLibrary inputs i d dep s = .ok (dep', s', code)) :
    code = clSuccess := by
  simp only [linkDevice] at h
  split at h
  · cases h
  · split at h
    · cases h
    · rename_i hrun
      exact absurd (linkInputs_succeeds hs hrun) (by decide)
    · rw [Toolchain.labelled_build, if_pos (hs.build _ _ _)] at h
      cases h
      rfl

theorem forDevices_succeeds {σ : Type} {s s' : σ} {code : Int} {is : List Nat}
    {deps deps' : List (Dependent M)}
    {body : Nat → DeviceId → Dependent M → σ → Except Fault (Dependent M × σ × Int)}
    (hbody : ∀ i d dep s dep' s' code, body i d dep s = .ok (dep', s', code) → code = clSuccess)
    (h : forDevices devices body is deps s = .ok (deps', s', code)) :
    code = clSuccess ∧ ∀ i ∈ is, ∃ d, devices[i]? = some d := by
  induction is generalizing deps s with
  | nil =>
    cases h
    exact ⟨rfl, by simp⟩
  | cons i is ih =>
    simp only [forDevices] at h
    split at h
    · cases h
    · rename_i d hd
      split at h
      · cases h
      · split at h
        · cases h
        · split at h
          · cases h
          · rename_i hrun
            rw [if_pos (hbody _ _ _ _ _ _ _ hrun)] at h
            obtain ⟨hc, hall⟩ := ih h
            refine ⟨hc, ?_⟩
            intro j hj
            rcases List.mem_cons.mp hj with rfl | hj
            · exact ⟨d, hd⟩
            · exact hall j hj

theorem libraryParts_nil : libraryParts tc createLibrary false d = [] ↔
    createLibrary = true ∨ tc.linkStdLib d = false := by
  simp only [libraryParts]
  cases createLibrary <;> cases tc.linkStdLib d <;> simp

theorem new_entries (devices : List DeviceId) :
    ((new : Program M).initDevices devices).deviceDependents.map Dependent.device = devices :=
  initDevices_device new devices

theorem new_fresh {j : Nat} {dep : Dependent (M × List Part)}
    (h : (new.initDevices devices).deviceDependents[j]? = some dep) : Fresh dep := by
  simp only [initDevices, new, List.isEmpty_nil, if_true, setDevices, List.getElem?_map,
    Option.map_eq_some_iff] at h
  obtain ⟨d, -, rfl⟩ := h
  exact ⟨rfl, rfl⟩

theorem libraryAtEnd_iff {deps : List (Dependent (M × List Part))}
    (hdev : deps.map Dependent.device = devices) :
    LibraryAtEnd tc createLibrary devices ↔ ∀ j dep, j + 1 < deps.length → deps[j]? = some dep →
      libraryParts tc createLibrary false dep.device = [] := by
  subst hdev
  constructor
  · intro h j dep hlt hdep
    apply libraryParts_nil.mpr
    apply h
    apply List.mem_of_getElem? (i := j)
    rw [List.getElem?_dropLast, List.length_map, if_pos (by omega), List.getElem?_map, hdep]
    rfl
  · intro h d hd
    obtain ⟨j, hj⟩ := List.getElem?_of_mem hd
    rw [List.getElem?_dropLast, List.length_map] at hj
    split at hj
    · rename_i hlt
      rw [List.getElem?_map, Option.map_eq_some_iff] at hj
      obtain ⟨dep, hdep, rfl⟩ := hj
      exact libraryParts_nil.mp (h j dep (by omega) hdep)
    · cases hj

/-- A device that selects another entry leaves its own without a module. -/
theorem ownEntries_of_linkedOnce (hs : tc.Succeeds)
    (h : LinkedOnce tc programs devices createLibrary qs) : OwnEntries devices := by
  obtain ⟨deps, s, code, hloop, hall⟩ := endsWith_link.mp h
  have hdev := new_entries (M := M × List Part) devices
  obtain ⟨hc, -⟩ := forDevices_succeeds (fun _ _ _ _ _ _ _ => linkDevice_succeeds hs) hloop
  rw [← hdev]
  apply ownEntries_iff.mpr
  intro k d hk
  by_contra hno
  obtain ⟨-, hframe⟩ := forDevices_frame (fun _ _ _ _ _ _ _ => linkDevice_device) hloop
  have hkeep := hframe k fun _ _ d' _ hd' => hno (deviceDependent_self hd' hk)
  rw [hdev] at hk
  obtain ⟨dep, m, hdep, hmod, -⟩ := hall hc k _ (by rw [List.getElem?_map, hk]; rfl)
  rw [hkeep] at hdep
  rw [(new_fresh hdep).1] at hmod
  cases hmod

theorem linkedOnce_of (hready : InputsReady programs qs devices) (hqs : qs ≠ [])
    (hlib : tc.stdlib.isSome) (hown : OwnEntries devices)
    (hend : LibraryAtEnd tc createLibrary devices) :
    LinkedOnce tc programs devices createLibrary qs := by
  have hdev := new_entries (M := M × List Part) devices
  obtain ⟨deps, s, code, hloop, -, hall⟩ := linkDevices_new tc 0 hready hqs hlib
    (rfl : view (labelInputs programs) = _) (by rwa [hdev]) hdev (Nat.zero_add _)
    (fun j dep _ => new_fresh)
    (fun j dep _ => (libraryAtEnd_iff hdev).mp hend j dep)
  apply endsWith_link.mpr
  refine ⟨deps, s, code, by rw [List.range_eq_range', List.length_map]; exact hloop, ?_⟩
  intro hc k expected hk
  rw [List.getElem?_map, Option.map_eq_some_iff] at hk
  obtain ⟨d, hd, rfl⟩ := hk
  obtain ⟨dep, m, hdep, hmod, hm⟩ := hall hc k d (Nat.zero_le _) hd
  exact ⟨dep, m, hdep, hmod, by rw [hm]⟩

theorem libraryAtEnd_of_linkedOnce (hready : InputsReady programs qs devices) (hqs : qs ≠ [])
    (hlib : tc.stdlib.isSome) (hs : tc.Succeeds)
    (h : LinkedOnce tc programs devices createLibrary qs) :
    LibraryAtEnd tc createLibrary devices := by
  have hown := ownEntries_of_linkedOnce hs h
  have hdev := new_entries (M := M × List Part) devices
  apply (libraryAtEnd_iff hdev).mpr
  intro j dep hlt hdep
  by_contra hne
  obtain ⟨deps, s, code, hloop, -⟩ := endsWith_link.mp h
  rw [List.range_eq_range', List.length_map, linkDevices_past hready hqs hlib hs rfl (by rwa [hdev])
    hdev (Nat.zero_add _) (fun j dep _ => new_fresh)
    ⟨j, dep, Nat.zero_le _, hlt, hdep, hne⟩] at hloop
  cases hloop

end New

/-! ## A program with modules -/

section Own

variable {tc : Toolchain M} {createLibrary : Bool} {d : DeviceId} {i k : Nat}
  {devices : List DeviceId} {programs : List (Program M)} {p : Program M}
  {others : List (Program (M × List Part))}

/-- The entry of each of the indices. -/
def selections (devices : List DeviceId) (deps : List (Dependent M)) (is : List Nat) :
    List (Option Nat) :=
  is.map fun i => devices[i]?.bind (deviceDependent deps)

/-- An entry changes as often as it is selected. -/
theorem forDevices_view {σ α : Type} {s s' : σ} {is : List Nat} {deps deps' : List (Dependent M)}
    {body : Nat → DeviceId → Dependent M → σ → Except Fault (Dependent M × σ × Int)}
    (view : Dependent M → α) (g : α → α) (S : σ → Prop)
    (hbody : ∀ i d dep s dep' s', S s → body i d dep s = .ok (dep', s', clSuccess) →
      S s' ∧ dep'.device = dep.device ∧ view dep' = g (view dep))
    (hS : S s) (h : forDevices devices body is deps s = .ok (deps', s', clSuccess)) :
    (∀ o ∈ selections devices deps is, ∃ k < deps.length, o = some k) ∧
      ∀ k, deps'[k]?.map view =
        deps[k]?.map fun dep => g^[(selections devices deps is).count (some k)] (view dep) := by
  induction is generalizing deps s with
  | nil =>
    cases h
    exact ⟨by simp [selections], fun k => by simp [selections]⟩
  | cons i is ih =>
    simp only [forDevices] at h
    split at h
    · cases h
    · rename_i d hd
      split at h
      · cases h
      · rename_i j hj
        split at h
        · cases h
        · rename_i dep hdep
          split at h
          · cases h
          · rename_i dep' s₁ code hrun
            split at h
            · rename_i hc
              subst hc
              obtain ⟨hS', hdevice, hview⟩ := hbody _ _ _ _ _ _ hS hrun
              have hmap := device_set hdep hdevice
              have hlt := (List.getElem?_eq_some_iff.mp hdep).1
              have hsame :
                selections devices (deps.set j dep') is = selections devices deps is := by
                simp only [selections, deviceDependent_congr hmap]
              have hhead : selections devices deps (i :: is) =
                  some j :: selections devices deps is := by
                simp [selections, hd, hj]
              obtain ⟨hall, hcount⟩ := ih hS' h
              rw [hsame] at hall hcount
              rw [hhead]
              refine ⟨?_, ?_⟩
              · intro o ho
                rcases List.mem_cons.mp ho with rfl | ho
                · exact ⟨j, hlt, rfl⟩
                · simpa using hall o ho
              · intro k
                rw [hcount k, List.count_cons]
                by_cases hk : j = k
                · subst hk
                  rw [List.getElem?_set_self hlt, hdep]
                  simp [hview]
                · simp [hk]
            · rename_i hc
              cases h
              exact absurd rfl hc

/-- What one iteration makes of an entry with a module. -/
def grow (tc : Toolchain M) (createLibrary : Bool)
    (v : (Bool × DeviceId) × Option (List Part)) : (Bool × DeviceId) × Option (List Part) :=
  (v.1, v.2.map fun parts =>
    if libraryParts tc createLibrary v.1.1 v.1.2 = [] then parts ++ parts
    else parts ++ [.library])

def entryView (dep : Dependent (M × List Part)) : (Bool × DeviceId) × Option (List Part) :=
  ((dep.isNativeBinary, dep.device), dep.linkedModule.map Prod.snd)

theorem libraryParts_cases (tc : Toolchain M) (createLibrary native : Bool) (d : DeviceId) :
    libraryParts tc createLibrary native d = [] ∨
      libraryParts tc createLibrary native d = [.library] := by
  simp only [libraryParts]
  split
  · exact .inr rfl
  · exact .inl rfl

/-- The module of the entry is linked with the library, or with itself. -/
theorem linkInputs_self (hlib : tc.stdlib.isSome) {dep : Dependent (M × List Part)}
    {others' : List (Program (M × List Part))} {m m' : M × List Part}
    (h : linkInputs tc.labelled [.self] d (stdlibFor tc.labelled createLibrary dep) 1
      (List.range' 0 (1 - 0)) others m = .ok (others', m', true)) :
    m'.2 = if libraryParts tc createLibrary dep.isNativeBinary dep.device = [] then m.2 ++ m.2
      else m.2 ++ [.library] := by
  have hlen := stdlibFor_isSome createLibrary dep hlib
  have hparts := stdlibFor_parts createLibrary dep hlib
  simp only [Nat.sub_zero, List.range'_one, linkInputs, Nat.zero_add, if_true] at h
  cases hstd : stdlibFor tc.labelled createLibrary dep with
  | none =>
    rw [hstd] at hlen
    have hnil := List.eq_nil_of_length_eq_zero hlen.symm
    simp only [hstd, List.getElem?_cons_zero, Toolchain.labelled_linkSelf] at h
    rw [if_pos hnil]
    rcases hself : tc.linkSelf m.1 with ⟨m₁, _ | _⟩
    · rw [hself] at h
      cases h
    · rw [hself] at h
      cases h
      rfl
  | some other =>
    rw [hstd] at hlen hparts
    have hne : libraryParts tc createLibrary dep.isNativeBinary dep.device ≠ [] := by
      intro hnil
      rw [hnil] at hlen
      cases hlen
    have hone : other.2 = [.library] := by
      rcases libraryParts_cases tc createLibrary dep.isNativeBinary dep.device with hnil | hone
      · exact absurd hnil hne
      · exact hparts.trans hone
    simp only [hstd, Toolchain.labelled_link, hone] at h
    rw [if_neg hne]
    rcases hlink : tc.link m.1 other.1 with ⟨m₁, other', _ | _⟩
    · rw [hlink] at h
      cases h
    · rw [hlink] at h
      cases h
      rfl

theorem linkDevice_grow (hlib : tc.stdlib.isSome) {dep dep' : Dependent (M × List Part)}
    {s s' : List (Program (M × List Part)) × Nat} (hs : s.2 = 1)
    (h : linkDevice tc.labelled createLibrary [.self] i d dep s = .ok (dep', s', clSuccess)) :
    s'.2 = 1 ∧ dep'.device = dep.device ∧
      entryView dep' = grow tc createLibrary (entryView dep) := by
  obtain ⟨others, num⟩ := s
  obtain rfl : num = 1 := hs
  cases hmod : dep.linkedModule with
  | none =>
    simp only [linkDevice, linkStart, hmod, firstModule, List.head?_cons] at h
    cases h
  | some m =>
    simp only [linkDevice, linkStart, hmod] at h
    split at h
    · cases h
    · cases h
    · rename_i others' m' hrun
      have hm' := linkInputs_self hlib hrun
      obtain ⟨hdep, hrest⟩ := Prod.mk.inj (Except.ok.inj h)
      obtain ⟨hs', -⟩ := Prod.mk.inj hrest
      subst hdep hs'
      refine ⟨rfl, rfl, ?_⟩
      simp only [entryView, grow, hmod, Option.map_some, ← hm', Prod.mk.injEq, Option.some.injEq,
        true_and]
      split <;> rfl

theorem listed_iff {deps : List (Dependent M)} {is : List Nat}
    (h : ∀ o ∈ selections devices deps is, ∃ k < deps.length, o = some k) (hi : i ∈ is) :
    ∃ d, devices[i]? = some d ∧ (deviceDependent deps d).isSome := by
  obtain ⟨k, -, hk⟩ := h _ (List.mem_map_of_mem hi)
  obtain ⟨d, hd, hdep⟩ := Option.bind_eq_some_iff.mp hk
  exact ⟨d, hd, by simp [hdep]⟩

/-- The parts of an entry that is selected `c` times. -/
theorem grow_iterate (tc : Toolchain M) (createLibrary : Bool) (d : DeviceId) (native : Bool)
    (parts : List Part) (c : Nat) :
    ∃ parts', (grow tc createLibrary)^[c] ((native, d), some parts) = ((native, d), some parts') ∧
      (libraryParts tc createLibrary native d = [] → parts'.length = 2 ^ c * parts.length) ∧
      (libraryParts tc createLibrary native d = [.library] →
        parts' = parts ++ List.replicate c .library) := by
  induction c generalizing parts with
  | zero => exact ⟨parts, rfl, by simp, by simp⟩
  | succ c ih =>
    rw [Function.iterate_succ_apply]
    rcases libraryParts_cases tc createLibrary native d with hnil | hone
    · obtain ⟨parts', hrun, hlen, -⟩ := ih (parts ++ parts)
      refine ⟨parts', by simp [grow, hnil, hrun], fun _ => ?_, fun h => ?_⟩
      · rw [hlen hnil, List.length_append, Nat.pow_succ, Nat.mul_assoc, Nat.two_mul]
      · rw [hnil] at h
        cases h
    · obtain ⟨parts', hrun, -, hparts⟩ := ih (parts ++ [.library])
      refine ⟨parts', by simp [grow, hone, hrun], fun h => ?_, fun _ => ?_⟩
      · rw [hone] at h
        cases h
      · rw [hparts hone, List.append_assoc]
        rfl

theorem complete_label (part : Nat → Part) (h : p.Complete) : (p.label part).Complete := by
  intro dep hdep
  obtain ⟨j, hj⟩ := List.getElem?_of_mem hdep
  simp only [label, List.getElem?_mapIdx, Option.map_eq_some_iff] at hj
  obtain ⟨dep₀, hdep₀, rfl⟩ := hj
  obtain ⟨m, hm⟩ := Option.ne_none_iff_exists'.mp (h dep₀ (List.mem_of_getElem? hdep₀))
  simp [hm]

theorem label_entries_ne_nil (part : Nat → Part) (hne : p.deviceDependents ≠ []) :
    (p.label part).deviceDependents ≠ [] := by
  intro h
  have hdevice := device_label part p
  rw [h, List.map_nil, eq_comm, List.map_eq_nil_iff] at hdevice
  exact hne hdevice

theorem initDevices_self (hne : p.deviceDependents ≠ []) : p.initDevices devices = p := by
  simp [initDevices, hne]

/-- Entries of the labelled program are those of the program. -/
theorem selections_label (part : Nat → Part) (p : Program M) (is : List Nat) :
    selections devices (p.label part).deviceDependents is =
      selections devices p.deviceDependents is := by
  simp only [selections, deviceDependent_congr (device_label part p)]

/-- The call of `build` succeeds only if every index selects an entry, and an entry has been linked
as often as it was selected. -/
theorem link_self_counted (hlib : tc.stdlib.isSome) (hne : p.deviceDependents ≠ [])
    {deps : List (Dependent (M × List Part))} {s : List (Program (M × List Part)) × Nat}
    (h : forDevices devices (linkDevice tc.labelled createLibrary [.self])
      (List.range ((p.label .own).initDevices devices).deviceDependents.length)
      ((p.label .own).initDevices devices).deviceDependents (others, 1) =
        .ok (deps, s, clSuccess)) :
    (∀ o ∈ selections devices p.deviceDependents (List.range p.deviceDependents.length),
      ∃ k < p.deviceDependents.length, o = some k) ∧
    ∀ k dep m, p.deviceDependents[k]? = some dep → dep.linkedModule = some m →
      ∃ dep' m', deps[k]? = some dep' ∧ dep'.linkedModule = some m' ∧
        (grow tc createLibrary)^[(selections devices p.deviceDependents
          (List.range p.deviceDependents.length)).count (some k)]
            ((dep.isNativeBinary, dep.device), some [.own k]) =
          ((dep.isNativeBinary, dep.device), some m'.2) := by
  have hne' := label_entries_ne_nil .own hne
  have hlen : (p.label .own).deviceDependents.length = p.deviceDependents.length := by
    simp [label]
  rw [initDevices_self hne', hlen] at h
  obtain ⟨hall, hcount⟩ := forDevices_view entryView (grow tc createLibrary) (fun s => s.2 = 1)
    (fun _ _ _ _ _ _ => linkDevice_grow hlib) rfl h
  rw [selections_label] at hall
  refine ⟨by rwa [hlen] at hall, ?_⟩
  intro k dep m hdep hmod
  have hk := hcount k
  rw [selections_label] at hk
  simp only [label, List.getElem?_mapIdx, hdep, Option.map_some] at hk
  obtain ⟨dep', hdep', hview⟩ := Option.map_eq_some_iff.mp hk
  have hstart : entryView (dep.map fun m => (m, [Part.own k])) =
      ((dep.isNativeBinary, dep.device), some [.own k]) := by
    simp [entryView, hmod]
  rw [hstart] at hview
  obtain ⟨parts, hrun, -⟩ := grow_iterate tc createLibrary dep.device
    dep.isNativeBinary [.own k] ((selections devices p.deviceDependents
      (List.range p.deviceDependents.length)).count (some k))
  rw [hrun] at hview
  obtain ⟨-, hparts⟩ := Prod.mk.inj hview
  obtain ⟨m', hmod', hm'⟩ := Option.map_eq_some_iff.mp hparts
  exact ⟨dep', m', hdep', hmod', by rw [hrun, hm']⟩

theorem selectable_nodup (n : Nat) : ((List.range n).map some).Nodup :=
  List.Pairwise.map _ (fun _ _ hne heq => hne (Option.some.inj heq)) List.nodup_range

theorem mem_selectable {n : Nat} : some k ∈ (List.range n).map some ↔ k < n := by simp

theorem combinedOnce_of (hlib : tc.stdlib.isSome) (hm : p.Complete) (hne : p.deviceDependents ≠ [])
    (hsel : SelectsEach devices p.deviceDependents)
    (hall : LibraryForAll tc createLibrary p.deviceDependents) :
    CombinedOnce tc programs p devices createLibrary := by
  have hlen : (p.label .own).deviceDependents.length = p.deviceDependents.length := by simp [label]
  have hsome : ∀ o ∈ selections devices p.deviceDependents (List.range p.deviceDependents.length),
      ∃ k < p.deviceDependents.length, o = some k := by
    intro o ho
    have hmem := hsel.mem_iff.mp ho
    simpa [eq_comm] using hmem
  have hlisted : ∀ i < (p.label .own).deviceDependents.length, ∃ d, devices[i]? = some d ∧
      (deviceDependent (p.label .own).deviceDependents d).isSome := by
    intro i hi
    rw [hlen] at hi
    obtain ⟨d, hd, hdep⟩ := listed_iff hsome (List.mem_range.mpr hi)
    exact ⟨d, hd, by rwa [deviceDependent_congr (device_label _ p)]⟩
  obtain ⟨p', code, hrun, -⟩ := link_self_ok tc.labelled (labelInputs programs) createLibrary
    (complete_label .own hm) (label_entries_ne_nil .own hne) hlisted
  have hok : EndsWith ((p.label .own).link tc.labelled (labelInputs programs) devices createLibrary
      [.self]) [] := by
    rw [hrun]
    intro _ k expected hk
    cases hk
  obtain ⟨deps, s, code', hloop, -⟩ := endsWith_link.mp hok
  apply endsWith_link.mpr
  refine ⟨deps, s, code', hloop, fun hc => ?_⟩
  subst hc
  obtain ⟨-, hcount⟩ := link_self_counted hlib hne hloop
  intro k expected hk
  rw [List.getElem?_mapIdx, Option.map_eq_some_iff] at hk
  obtain ⟨dep, hdep, rfl⟩ := hk
  obtain ⟨m, hmod⟩ := Option.ne_none_iff_exists'.mp (hm dep (List.mem_of_getElem? hdep))
  obtain ⟨dep', m', hdep', hmod', hiter⟩ := hcount k dep m hdep hmod
  have hone : (selections devices p.deviceDependents
      (List.range p.deviceDependents.length)).count (some k) = 1 := by
    rw [selections, hsel.count_eq]
    exact List.count_eq_one_of_mem (selectable_nodup _)
      (mem_selectable.mpr (List.getElem?_eq_some_iff.mp hdep).1)
  have hlibrary := hall dep (List.mem_of_getElem? hdep)
  refine ⟨dep', m', hdep', hmod', ?_⟩
  rw [hone, Function.iterate_one] at hiter
  have hparts : [.own k] ++ [.library] = m'.2 := by
    simpa [grow, hlibrary] using hiter
  rw [← hparts, hlibrary]
  rfl

/-- The parts tell how often each entry has been selected: once if it needs the library, and else
not at all, which leaves no room for the second. -/
theorem selectsEach_of_combinedOnce (hlib : tc.stdlib.isSome) (hs : tc.Succeeds) (hm : p.Complete)
    (hne : p.deviceDependents ≠ []) (h : CombinedOnce tc programs p devices createLibrary) :
    SelectsEach devices p.deviceDependents ∧ LibraryForAll tc createLibrary p.deviceDependents := by
  obtain ⟨deps, s, code, hloop, hmade⟩ := endsWith_link.mp h
  obtain ⟨rfl, -⟩ := forDevices_succeeds (fun _ _ _ _ _ _ _ => linkDevice_succeeds hs) hloop
  obtain ⟨hsome, hcount⟩ := link_self_counted hlib hne hloop
  have hentry : ∀ k dep, p.deviceDependents[k]? = some dep →
      (selections devices p.deviceDependents (List.range p.deviceDependents.length)).count
        (some k) =
        (libraryParts tc createLibrary dep.isNativeBinary dep.device).length := by
    intro k dep hdep
    obtain ⟨m, hmod⟩ := Option.ne_none_iff_exists'.mp (hm dep (List.mem_of_getElem? hdep))
    obtain ⟨dep', m', hdep', hmod', hiter⟩ := hcount k dep m hdep hmod
    obtain ⟨dep'', m'', hdep'', hmod'', hperm⟩ := hmade rfl k _
      (by rw [List.getElem?_mapIdx, hdep, Option.map_some])
    obtain rfl := Option.some.inj (hdep'.symm.trans hdep'')
    obtain rfl := Option.some.inj (hmod'.symm.trans hmod'')
    obtain ⟨parts, hrun, hnil, hone⟩ := grow_iterate tc createLibrary dep.device
      dep.isNativeBinary [.own k] ((selections devices p.deviceDependents
        (List.range p.deviceDependents.length)).count (some k))
    rw [hrun, Prod.mk.injEq, Option.some.injEq] at hiter
    have hlen := hperm.length_eq
    rw [← hiter.2] at hlen
    rcases libraryParts_cases tc createLibrary dep.isNativeBinary dep.device with hl | hl
    · rw [hnil hl, hl, List.length_singleton, Nat.mul_one, Nat.pow_eq_one] at hlen
      rw [hl, List.length_nil]
      omega
    · rw [hone hl, hl] at hlen
      simp only [List.length_append, List.length_replicate, List.length_cons,
        List.length_nil] at hlen
      rw [hl, List.length_singleton]
      omega
  have hle : ∀ o, (selections devices p.deviceDependents
      (List.range p.deviceDependents.length)).count o ≤ 1 := by
    intro o
    by_cases ho : o ∈ selections devices p.deviceDependents (List.range p.deviceDependents.length)
    · obtain ⟨k, hk, rfl⟩ := hsome o ho
      rw [hentry k _ (List.getElem?_eq_getElem hk)]
      rcases libraryParts_cases tc createLibrary p.deviceDependents[k].isNativeBinary
        p.deviceDependents[k].device with hl | hl <;> simp [hl]
    · rw [List.count_eq_zero_of_not_mem ho]
      omega
  have hsub : (selections devices p.deviceDependents (List.range p.deviceDependents.length)).Subperm
      ((List.range p.deviceDependents.length).map some) := by
    apply List.subperm_of_subset (List.nodup_iff_count_le_one.mpr hle)
    intro o ho
    obtain ⟨k, hk, rfl⟩ := hsome o ho
    exact mem_selectable.mpr hk
  have hperm := hsub.perm_of_length_le (by simp [selections])
  refine ⟨hperm, ?_⟩
  intro dep hdep
  obtain ⟨k, hk⟩ := List.getElem?_of_mem hdep
  have hone := hentry k dep hk
  rw [hperm.count_eq, List.count_eq_one_of_mem (selectable_nodup _)
    (mem_selectable.mpr (List.getElem?_eq_some_iff.mp hk).1)] at hone
  rcases libraryParts_cases tc createLibrary dep.isNativeBinary dep.device with hl | hl
  · rw [hl] at hone
    cases hone
  · exact hl

/-- A program that is compiled for some devices. -/
def compiledFor (devices : List DeviceId) : Program Bool where
  type := .source
  state := .compiled
  binaryType := .compiledObject
  deviceDependents := devices.map fun device =>
    { device, unlinkedBinary := [], isNativeBinary := false, linkedModule := some true,
      optimize := true }
  kernels := .empty

theorem compiledFor_complete (devices : List DeviceId) : (compiledFor devices).Complete := by
  intro dep hdep
  obtain ⟨d, -, rfl⟩ := List.mem_map.mp hdep
  simp

theorem compiledFor_ready (n : Nat) (devices : List DeviceId) :
    InputsReady (List.replicate n (compiledFor devices)) (List.range n) devices := by
  intro q hq
  refine ⟨compiledFor devices, List.getElem?_replicate_of_lt (List.mem_range.mp hq),
    compiledFor_complete devices, ?_⟩
  intro d hd
  obtain ⟨dep, hdep, rfl⟩ : ∃ dep ∈ (compiledFor devices).deviceDependents, dep.device = d :=
    ⟨_, List.mem_map_of_mem hd, rfl⟩
  exact List.findIdx?_isSome ▸ List.any_eq_true.mpr ⟨dep, hdep, match_self _⟩

end Own

end Program

end Shamrock.Runtime
