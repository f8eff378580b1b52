import Shamrock.Runtime.KernelList

/-!
# Programs

`compile`, `link` and `build` over `p_device_dependent`, and the loading of binaries. LLVM, clang
and the devices are a parameter, and so is the type of modules.
-/
namespace Shamrock.Runtime

/-- A device of the platform or a sub-device of one. -/
inductive DeviceId
  | root (n : Nat)
  | sub (parent : DeviceId) (n : Nat)
  deriving DecidableEq, Repr

/-- The device is `deviceDep` or a part of it. -/
def matchDeviceOrParent (deviceDep : DeviceId) : DeviceId → Bool
  | .root n => deviceDep = .root n
  | .sub parent n => deviceDep = .sub parent n || matchDeviceOrParent deviceDep parent

/-- LLVM and the devices. -/
structure Toolchain (M : Type) where
  /-- the operands of `opencl.kernels`, by name where they are functions -/
  operands : M → List (Option String)
  /-- what the embedded `stdlib.c.bc` parses to -/
  stdlib : Option M
  linkStdLib : DeviceId → Bool
  /-- `LinkModules`: both modules afterwards, and whether it succeeded -/
  link : M → M → M × M × Bool
  /-- `LinkModules` of a module and itself -/
  linkSelf : M → M × Bool
  /-- the passes over the linked module, those of the device included unless told otherwise -/
  optimize : DeviceId → Bool → M → M
  /-- `DeviceProgram::build`, which may replace the binary -/
  build : DeviceId → M → List UInt8 → List UInt8 × Bool
  writeBitcode : M → List UInt8
  parseBitcode : List UInt8 → Option M
  extractMixedBinary : DeviceId → List UInt8 → Option (List UInt8)

inductive CompileResult (M : Type)
  | compiled (m : M)
  | invalidBuildOptions
  | failed

/-- What `Compiler::compile` does, and whether it saw `-cl-opt-disable`. -/
structure Compilation (M : Type) where
  optDisable : Bool
  result : CompileResult M

inductive ProgramType
  | invalid
  | source
  | binary
  deriving DecidableEq, Repr

inductive ProgramState
  | empty
  | loaded
  | built
  | compiled
  | failed
  deriving DecidableEq, Repr

inductive BinaryType
  | none
  | compiledObject
  | library
  | executable
  deriving DecidableEq, Repr

/-- `DeviceDependent`; `optimize` is that of its compiler. -/
structure Dependent (M : Type) where
  device : DeviceId
  unlinkedBinary : List UInt8
  isNativeBinary : Bool
  linkedModule : Option M
  optimize : Bool

structure Program (M : Type) where
  type : ProgramType
  state : ProgramState
  binaryType : BinaryType
  deviceDependents : List (Dependent M)
  kernels : KernelLists

namespace Program

variable {M : Type}

def new : Program M where
  type := .invalid
  state := .empty
  binaryType := .none
  deviceDependents := []
  kernels := .empty

def setDevices (p : Program M) (devices : List DeviceId) : Program M :=
  { p with deviceDependents := devices.map fun device =>
      { device, unlinkedBinary := [], isNativeBinary := false, linkedModule := none,
        optimize := true } }

/-- The first compilation makes the entries, and later ones keep them. -/
def initDevices (p : Program M) (devices : List DeviceId) : Program M :=
  if p.deviceDependents.isEmpty then p.setDevices devices else p

/-- The first entry for the device or for one it is a part of; there is none where the source
returns `p_null_device_dependent`. -/
def deviceDependent (deps : List (Dependent M)) (device : DeviceId) : Option Nat :=
  deps.findIdx? fun dep => matchDeviceOrParent dep.device device

def getNumKernels (tc : Toolchain M) (p : Program M) : Except Fault Nat :=
  match p.deviceDependents.head? with
  | none => .ok 0
  | some dep =>
    match dep.linkedModule with
    | none => .error .nullModule
    | some m => .ok (tc.operands m).length

/-- `kernelFunctions`, by name. -/
def kernelFunctions (tc : Toolchain M) (m : M) : List String := (tc.operands m).filterMap id

/-- The loops of `compile`, `link` and `loadBinaries` over the entries: the `i`-th device of
`device_list` selects the entry. -/
def forDevices {σ : Type} (devices : List DeviceId)
    (body : Nat → DeviceId → Dependent M → σ → Except Fault (Dependent M × σ × Int)) :
    List Nat → List (Dependent M) → σ → Except Fault (List (Dependent M) × σ × Int)
  | [], deps, s => .ok (deps, s, clSuccess)
  | i :: is, deps, s =>
    match devices[i]? with
    | none => .error .pastDeviceList
    | some device =>
      match deviceDependent deps device with
      | none => .error .nullDependent
      | some k =>
        match deps[k]? with
        | none => .error .nullDependent
        | some dep =>
          match body i device dep s with
          | .error f => .error f
          | .ok (dep, s, code) =>
            if code = clSuccess then forDevices devices body is (deps.set k dep) s
            else .ok (deps.set k dep, s, code)

/-- The binary is written behind the one that is there. -/
def compileDevice (tc : Toolchain M) (outcome : Nat → Compilation M) (i : Nat) (_ : DeviceId)
    (dep : Dependent M) (_ : Unit) : Except Fault (Dependent M × Unit × Int) :=
  let dep := { dep with optimize := dep.optimize && !(outcome i).optDisable }
  match (outcome i).result with
  | .invalidBuildOptions => .ok (dep, (), clInvalidBuildOptions)
  | .failed => .ok (dep, (), clCompileProgramFailure)
  | .compiled m =>
    .ok ({ dep with
      linkedModule := some m
      unlinkedBinary := dep.unlinkedBinary ++ tc.writeBitcode m }, (), clSuccess)

/-- `headers` stands for `storeInputHeaders`. -/
def compile (tc : Toolchain M) (p : Program M) (devices : List DeviceId)
    (headers : Except Fault Bool) (outcome : Nat → Compilation M) :
    Except Fault (Program M × Int) :=
  match p.getNumKernels tc with
  | .error f => .error f
  | .ok n =>
    if 0 < n then .ok ({ p with state := .failed }, clInvalidOperation)
    else
      let p := { p with state := .failed }.initDevices devices
      match headers with
      | .error f => .error f
      | .ok false => .ok (p, clBuildProgramFailure)
      | .ok true =>
        if p.type = .source then
          match forDevices devices (compileDevice tc outcome)
              (List.range p.deviceDependents.length) p.deviceDependents () with
          | .error f => .error f
          | .ok (deps, _, code) =>
            let p := { p with deviceDependents := deps }
            if code = clSuccess then
              .ok ({ p with state := .compiled, binaryType := .compiledObject }, code)
            else .ok (p, code)
        else if devices.length < p.deviceDependents.length then .error .pastDeviceList
        else .ok ({ p with state := .compiled, binaryType := .compiledObject }, clSuccess)

/-- An element of `input_programs`. -/
inductive Input
  | self
  | program (q : Nat)
  deriving DecidableEq, Repr

/-- The entry of a program for a device and its module. -/
def inputModule (programs : List (Program M)) (q : Nat) (device : DeviceId) :
    Except Fault (Nat × M) :=
  match programs[q]? with
  | none => .error .notAProgram
  | some input =>
    match deviceDependent input.deviceDependents device with
    | none => .error .nullModule
    | some k =>
      match input.deviceDependents[k]?.bind Dependent.linkedModule with
      | none => .error .nullModule
      | some m => .ok (k, m)

/-- The module that is cloned where the entry has none. -/
def firstModule (programs : List (Program M)) (inputs : List Input) (device : DeviceId) :
    Except Fault M :=
  match inputs.head? with
  | none => .error .pastInputPrograms
  | some .self => .error .nullModule
  | some (.program q) => (inputModule programs q device).map Prod.snd

def setModule (programs : List (Program M)) (q k : Nat) (m : M) : List (Program M) :=
  programs.modify q fun p =>
    { p with deviceDependents := p.deviceDependents.modify k fun dep =>
        { dep with linkedModule := some m } }

/-- The loop of `link` over `input_programs`, which has grown to `num` programs. -/
def linkInputs (tc : Toolchain M) (inputs : List Input) (device : DeviceId) (stdlib : Option M)
    (num : Nat) : List Nat → List (Program M) → M → Except Fault (List (Program M) × M × Bool)
  | [], programs, m => .ok (programs, m, true)
  | j :: js, programs, m =>
    match (if j + 1 = num then stdlib else none) with
    | some other =>
      match tc.link m other with
      | (m, _, false) => .ok (programs, m, false)
      | (m, _, true) => linkInputs tc inputs device stdlib num js programs m
    | none =>
      match inputs[j]? with
      | none => .error .pastInputPrograms
      | some .self =>
        match tc.linkSelf m with
        | (m, false) => .ok (programs, m, false)
        | (m, true) => linkInputs tc inputs device stdlib num js programs m
      | some (.program q) =>
        match inputModule programs q device with
        | .error f => .error f
        | .ok (k, other) =>
          match tc.link m other with
          | (m, other, false) => .ok (setModule programs q k other, m, false)
          | (m, other, true) =>
            linkInputs tc inputs device stdlib num js (setModule programs q k other) m

/-- The stdlib, if it is linked into this entry. -/
def stdlibFor (tc : Toolchain M) (createLibrary : Bool) (dep : Dependent M) : Option M :=
  if !dep.isNativeBinary && tc.linkStdLib dep.device && !createLibrary then tc.stdlib else none

/-- What `link` starts from: the module, the first input to link and `num_input_programs`. -/
def linkStart (stdlib : Option M) (inputs : List Input) (device : DeviceId) (dep : Dependent M)
    (programs : List (Program M)) (num : Nat) : Except Fault (M × Nat × Nat) :=
  match dep.linkedModule with
  | some m => .ok (m, 0, num)
  | none =>
    match firstModule programs inputs device with
    | .error f => .error f
    | .ok m => .ok (m, 1, if stdlib.isSome then num + 1 else num)

/-- `programs` holds the other programs, and the number is `num_input_programs`: both live across
the devices. -/
def linkDevice (tc : Toolchain M) (createLibrary : Bool) (inputs : List Input) (_ : Nat)
    (device : DeviceId) (dep : Dependent M) (s : List (Program M) × Nat) :
    Except Fault (Dependent M × (List (Program M) × Nat) × Int) :=
  let stdlib := stdlibFor tc createLibrary dep
  match linkStart stdlib inputs device dep s.1 s.2 with
  | .error f => .error f
  | .ok (m, start, num) =>
    match linkInputs tc inputs device stdlib num (List.range' start (num - start)) s.1 m with
    | .error f => .error f
    | .ok (programs, m, false) =>
      .ok ({ dep with linkedModule := some m }, (programs, num), clBuildProgramFailure)
    | .ok (programs, m, true) =>
      let m := if !dep.isNativeBinary && !createLibrary then tc.optimize dep.device dep.optimize m
        else m
      let r := tc.build dep.device m dep.unlinkedBinary
      .ok ({ dep with linkedModule := some m, unlinkedBinary := r.1 }, (programs, num),
        if r.2 then clSuccess else clBuildProgramFailure)

/-- Also the input programs may change. -/
def link (tc : Toolchain M) (programs : List (Program M)) (p : Program M)
    (devices : List DeviceId) (createLibrary : Bool) (inputs : List Input) :
    Except Fault (List (Program M) × Program M × Int) :=
  let p := { p with state := .failed }.initDevices devices
  match forDevices devices (linkDevice tc createLibrary inputs)
      (List.range p.deviceDependents.length) p.deviceDependents (programs, inputs.length) with
  | .error f => .error f
  | .ok (deps, (programs, _), code) =>
    let p := { p with deviceDependents := deps }
    if code = clSuccess then
      .ok (programs, { p with
        state := if createLibrary then .compiled else .built
        binaryType := if createLibrary then .library else .executable }, code)
    else .ok (programs, p, code)

def build (tc : Toolchain M) (programs : List (Program M)) (p : Program M)
    (devices : List DeviceId) (createLibrary : Bool) (outcome : Nat → Compilation M) :
    Except Fault (List (Program M) × Program M × Int) :=
  match p.compile tc devices (.ok true) outcome with
  | .error f => .error f
  | .ok (p, code) =>
    if code = clSuccess then p.link tc programs devices createLibrary [.self]
    else .ok (programs, p, if code = clCompileProgramFailure then clBuildProgramFailure else code)

def loadBinary (tc : Toolchain M) (data : Nat → List UInt8) (i : Nat) (_ : DeviceId)
    (dep : Dependent M) (_ : Unit) : Except Fault (Dependent M × Unit × Int) :=
  let mixed := tc.extractMixedBinary dep.device (data i)
  let m := tc.parseBitcode (mixed.getD (data i))
  .ok ({ dep with unlinkedBinary := data i, isNativeBinary := mixed.isSome, linkedModule := m },
    (), if m.isSome then clSuccess else clInvalidBinary)

def loadBinaries (tc : Toolchain M) (p : Program M) (data : Nat → List UInt8)
    (devices : List DeviceId) : Except Fault (Program M × Int) :=
  let p := p.setDevices devices
  match forDevices devices (loadBinary tc data) (List.range devices.length)
      p.deviceDependents () with
  | .error f => .error f
  | .ok (deps, _, code) =>
    let p := { p with deviceDependents := deps }
    if code = clSuccess then
      .ok ({ p with type := .binary, state := .loaded, binaryType := .compiledObject }, code)
    else .ok (p, code)

/-- `loadSources`; the text itself is the compiler's. -/
def loadSources (p : Program M) : Program M := { p with type := .source, state := .loaded }

/-! ## Entries of devices -/

section Entries

variable {devices : List DeviceId} {deps deps' : List (Dependent M)} {d d' d'' : DeviceId}
  {i k n start : Nat} {σ : Type} {s s' : σ} {code : Int}
  {body : Nat → DeviceId → Dependent M → σ → Except Fault (Dependent M × σ × Int)}

theorem match_self (d : DeviceId) : matchDeviceOrParent d d = true := by
  cases d <;> simp [matchDeviceOrParent]

theorem match_trans (h : matchDeviceOrParent d d' = true) (h' : matchDeviceOrParent d' d'' = true) :
    matchDeviceOrParent d d'' = true := by
  induction d'' with
  | root n =>
    obtain rfl : d' = .root n := by simpa [matchDeviceOrParent] using h'
    exact h
  | sub parent n ih =>
    rcases Bool.or_eq_true_iff.mp h' with heq | hparent
    · obtain rfl : d' = .sub parent n := by simpa using heq
      exact h
    · simp [matchDeviceOrParent, ih hparent]

/-- No device of the list is a part of an earlier one, so that each selects the entry made for
it. -/
def OwnEntries (devices : List DeviceId) : Prop :=
  devices.Pairwise fun d d' => matchDeviceOrParent d d' = false

instance (devices : List DeviceId) : Decidable (OwnEntries devices) :=
  inferInstanceAs (Decidable (List.Pairwise _ _))

theorem deviceDependent_eq_findIdx? (deps : List (Dependent M)) (d : DeviceId) :
    deviceDependent deps d =
      (deps.map Dependent.device).findIdx? fun d' => matchDeviceOrParent d' d := by
  rw [List.findIdx?_map]
  rfl

theorem deviceDependent_congr {N : Type} {deps' : List (Dependent N)}
    (h : deps'.map Dependent.device = deps.map Dependent.device)
    (d : DeviceId) : deviceDependent deps' d = deviceDependent deps d := by
  rw [deviceDependent_eq_findIdx?, deviceDependent_eq_findIdx?, h]

theorem lt_of_deviceDependent (h : deviceDependent deps d = some k) : k < deps.length := by
  obtain ⟨hk, -⟩ := List.findIdx?_eq_some_iff_getElem.mp h
  exact hk

theorem deviceDependent_own (hown : OwnEntries (deps.map Dependent.device))
    (hi : (deps.map Dependent.device)[i]? = some d) : deviceDependent deps d = some i := by
  obtain ⟨hlt, heq⟩ := List.getElem?_eq_some_iff.mp hi
  rw [List.length_map] at hlt
  rw [List.getElem_map] at heq
  apply List.findIdx?_eq_some_iff_getElem.mpr
  refine ⟨hlt, ?_, ?_⟩
  · rw [heq]
    exact match_self d
  · intro j hj
    have hfalse := List.pairwise_iff_getElem.mp hown j i (by simp; omega) (by simpa using hlt) hj
    simp only [List.getElem_map, heq] at hfalse
    simp [hfalse]

/-- An entry that some device selects is selected by its own. -/
theorem deviceDependent_self (h : deviceDependent deps d = some k)
    (hk : (deps.map Dependent.device)[k]? = some d') : deviceDependent deps d' = some k := by
  obtain ⟨hlt, hmatch, hno⟩ := List.findIdx?_eq_some_iff_getElem.mp h
  obtain rfl : deps[k].device = d' := by simpa [hlt] using hk
  apply List.findIdx?_eq_some_iff_getElem.mpr
  refine ⟨hlt, match_self _, ?_⟩
  intro j hj hj'
  exact hno j hj (match_trans hj' hmatch)

theorem device_set {dep dep' : Dependent M} (hk : deps[k]? = some dep)
    (hd : dep'.device = dep.device) :
    (deps.set k dep').map Dependent.device = deps.map Dependent.device := by
  apply List.ext_getElem?
  intro j
  by_cases hj : k = j
  · subst hj
    obtain ⟨hlt, rfl⟩ := List.getElem?_eq_some_iff.mp hk
    simp [hlt, hd]
  · simp [hj]

/-- The loop keeps the devices of the entries, and the entries that no device selects. -/
theorem forDevices_frame {is : List Nat}
    (hbody : ∀ i d dep s dep' s' code, body i d dep s = .ok (dep', s', code) →
      dep'.device = dep.device)
    (h : forDevices devices body is deps s = .ok (deps', s', code)) :
    deps'.map Dependent.device = deps.map Dependent.device ∧
      ∀ k, (∀ i ∈ is, ∀ d ∈ devices[i]?, deviceDependent deps d ≠ some k) →
        deps'[k]? = deps[k]? := by
  induction is generalizing deps s with
  | nil =>
    cases h
    exact ⟨rfl, fun _ _ => rfl⟩
  | cons i is ih =>
    simp only [forDevices] at h
    split at h
    · cases h
    · rename_i d hd
      split at h
      · cases h
      · rename_i k hk
        split at h
        · cases h
        · rename_i dep hdep
          split at h
          · cases h
          · rename_i dep' s₁ code₁ hrun
            have hmap := device_set hdep (hbody _ _ _ _ _ _ _ hrun)
            have hset : ∀ j, (∀ d ∈ devices[i]?, deviceDependent deps d ≠ some j) →
                (deps.set k dep')[j]? = deps[j]? := by
              intro j hj
              apply List.getElem?_set_ne
              rintro rfl
              exact hj d hd hk
            split at h
            · obtain ⟨hdevice, hframe⟩ := ih h
              refine ⟨hdevice.trans hmap, ?_⟩
              intro j hj
              rw [hframe j, hset j (hj i List.mem_cons_self)]
              intro i' hi' d' hd'
              rw [deviceDependent_congr hmap]
              exact hj i' (List.mem_cons_of_mem _ hi') d' hd'
            · cases h
              exact ⟨hmap, fun j hj => hset j (hj i List.mem_cons_self)⟩

/-- What a loop over the devices from `start` on leaves: each entry meets `A`, those selected meet
`P` if every iteration succeeds, and the rest of the state `S` then and `T` in any case. -/
structure LoopDone (devices : List DeviceId) (A P : Dependent M → Prop) (S : Nat → σ → Prop)
    (T : σ → Prop) (start n : Nat) (deps deps' : List (Dependent M)) (s' : σ) (code : Int) :
    Prop where
  device : deps'.map Dependent.device = deps.map Dependent.device
  every : ∀ dep ∈ deps', A dep
  always : T s'
  done : code = clSuccess → S (start + n) s'
  selected : code = clSuccess → ∀ i, start ≤ i → i < start + n → ∀ d ∈ devices[i]?, ∀ k,
    deviceDependent deps d = some k → ∀ dep ∈ deps'[k]?, P dep

/-- The loop ends where every device is listed and has its entry. -/
theorem forDevices_ok (A P : Dependent M → Prop) (S : Nat → σ → Prop) (T : σ → Prop)
    (hbody : ∀ i d dep s k, devices[i]? = some d → deviceDependent deps d = some k →
      (deps.map Dependent.device)[k]? = some dep.device → A dep → S i s →
      ∃ dep' s' code, body i d dep s = .ok (dep', s', code) ∧ dep'.device = dep.device ∧ A dep' ∧
        T s' ∧ (code = clSuccess → P dep' ∧ S (i + 1) s'))
    (hdevice : ∀ i d dep s dep' s' code, body i d dep s = .ok (dep', s', code) →
      dep'.device = dep.device)
    (hlisted : ∀ i, start ≤ i → i < start + n →
      ∃ d, devices[i]? = some d ∧ (deviceDependent deps d).isSome)
    (hA : ∀ dep ∈ deps, A dep) (hS : S start s) (hT : T s) :
    ∃ deps' s' code, forDevices devices body (List.range' start n) deps s =
      .ok (deps', s', code) ∧ LoopDone devices A P S T start n deps deps' s' code := by
  induction n generalizing start deps s with
  | zero =>
    refine ⟨deps, s, clSuccess, rfl, rfl, hA, hT, fun _ => hS, ?_⟩
    intro _ i hle hlt
    omega
  | succ n ih =>
    obtain ⟨d, hd, hsome⟩ := hlisted start (Nat.le_refl _) (by omega)
    obtain ⟨k, hk⟩ := Option.isSome_iff_exists.mp hsome
    have hlt := lt_of_deviceDependent hk
    have hdep : deps[k]? = some deps[k] := List.getElem?_eq_getElem hlt
    obtain ⟨dep', s₁, code, hrun, hsame, hA', hT', hnext⟩ :=
      hbody start d deps[k] s k hd hk (by simp [hlt]) (hA _ (List.getElem_mem hlt)) hS
    have hmap : (deps.set k dep').map Dependent.device = deps.map Dependent.device :=
      device_set hdep hsame
    have hAset : ∀ dep ∈ deps.set k dep', A dep := by
      intro dep hmem
      rcases List.mem_or_eq_of_mem_set hmem with hmem | rfl
      · exact hA dep hmem
      · exact hA'
    rw [List.range'_succ]
    by_cases hcode : code = clSuccess
    · obtain ⟨hP, hS'⟩ := hnext hcode
      have hcongr := deviceDependent_congr hmap
      have hlisted' : ∀ i, start + 1 ≤ i → i < start + 1 + n →
          ∃ d, devices[i]? = some d ∧ (deviceDependent (deps.set k dep') d).isSome := by
        intro i hle hlt
        obtain ⟨d, hd, hsome⟩ := hlisted i (by omega) (by omega)
        exact ⟨d, hd, by rwa [hcongr]⟩
      have hbody' : ∀ i d dep s j, devices[i]? = some d →
          deviceDependent (deps.set k dep') d = some j →
          ((deps.set k dep').map Dependent.device)[j]? = some dep.device → A dep → S i s →
          ∃ dep' s' code, body i d dep s = .ok (dep', s', code) ∧ dep'.device = dep.device ∧
            A dep' ∧ T s' ∧ (code = clSuccess → P dep' ∧ S (i + 1) s') := by
        intro i d dep s j hd hj hdev
        rw [hcongr] at hj
        rw [hmap] at hdev
        exact hbody i d dep s j hd hj hdev
      obtain ⟨deps'', s'', code', hloop, hdone⟩ := ih hbody' hlisted' hAset hS' hT'
      refine ⟨deps'', s'', code', ?_, hdone.device.trans hmap, hdone.every, hdone.always, ?_, ?_⟩
      · simp only [forDevices, hd, hk, hdep, hrun, hcode, if_true]
        exact hloop
      · intro hc
        have hend := hdone.done hc
        rwa [show start + 1 + n = start + (n + 1) by omega] at hend
      · intro hc i hle hlt' d' hd' k' hk' dep hmem
        by_cases hlater : ∃ i, start + 1 ≤ i ∧ i < start + 1 + n ∧ ∃ d ∈ devices[i]?,
            deviceDependent deps d = some k'
        · -- selected again by a later device
          obtain ⟨i, hle, hlt, d, hd, hk⟩ := hlater
          exact hdone.selected hc i hle hlt d hd k' (by rwa [hcongr]) dep hmem
        · have hi : i = start := by
            by_contra hne
            exact hlater ⟨i, by omega, by omega, d', hd', hk'⟩
          subst hi
          obtain rfl : d = d' := Option.some.inj (hd.symm.trans hd')
          obtain rfl : k = k' := Option.some.inj (hk.symm.trans hk')
          obtain ⟨-, hframe⟩ := forDevices_frame hdevice hloop
          rw [hframe k] at hmem
          · obtain rfl : dep' = dep := by simpa [hlt] using hmem
            exact hP
          · intro i hi d hd heq
            rw [hcongr] at heq
            obtain ⟨hle, hlt⟩ := List.mem_range'_1.mp hi
            exact hlater ⟨i, hle, hlt, d, hd, heq⟩
    · refine ⟨deps.set k dep', s₁, code, ?_, hmap, hAset, hT', ?_, ?_⟩
      · simp only [forDevices, hd, hk, hdep, hrun, hcode, if_false]
      · exact fun hc => absurd hc hcode
      · exact fun hc => absurd hc hcode

/-- The devices select their own entries exactly where none is a part of an earlier one. -/
theorem ownEntries_iff : OwnEntries (deps.map Dependent.device) ↔
    ∀ k d, (deps.map Dependent.device)[k]? = some d → deviceDependent deps d = some k := by
  constructor
  · exact fun hown k d hk => deviceDependent_own hown hk
  · intro h
    apply List.pairwise_iff_getElem.mpr
    intro i j hi hj hij
    have hself := h j _ (List.getElem?_eq_getElem hj)
    obtain ⟨_, _, hno⟩ := List.findIdx?_eq_some_iff_getElem.mp hself
    rw [List.getElem_map]
    simpa using hno i hij

/-- One iteration with its own entry. -/
theorem forDevices_own_cons {dep : Dependent M} {is : List Nat}
    (hown : OwnEntries (deps.map Dependent.device))
    (hdev : deps.map Dependent.device = devices) (hi : deps[i]? = some dep) :
    forDevices devices body (i :: is) deps s =
      match body i dep.device dep s with
      | .error f => .error f
      | .ok (dep, s, code) =>
        if code = clSuccess then forDevices devices body is (deps.set i dep) s
        else .ok (deps.set i dep, s, code) := by
  have hd : (deps.map Dependent.device)[i]? = some dep.device := by simp [hi]
  have hself := deviceDependent_own hown hd
  rw [hdev] at hd
  simp only [forDevices, hd, hself, hi]

/-- Each entry is processed once: with a body that keeps the rest of the state, the loop succeeds
if every iteration does. -/
theorem forDevices_own_ok (out : Nat → Dependent M → Dependent M)
    (hown : OwnEntries (deps.map Dependent.device)) (hdev : deps.map Dependent.device = devices)
    (hle : start + n ≤ deps.length)
    (hbody : ∀ i dep, start ≤ i → i < start + n → deps[i]? = some dep →
      body i dep.device dep s = .ok (out i dep, s, clSuccess) ∧
        (out i dep).device = dep.device) :
    ∃ deps', forDevices devices body (List.range' start n) deps s = .ok (deps', s, clSuccess) ∧
      deps'.map Dependent.device = deps.map Dependent.device ∧
      (∀ i, start ≤ i → i < start + n → deps'[i]? = deps[i]?.map (out i)) ∧
      ∀ i, i < start ∨ start + n ≤ i → deps'[i]? = deps[i]? := by
  induction n generalizing start deps with
  | zero => exact ⟨deps, rfl, rfl, fun i hle hlt => by omega, fun _ _ => rfl⟩
  | succ n ih =>
    have hi : deps[start]? = some deps[start] := List.getElem?_eq_getElem (by omega)
    obtain ⟨hrun, hsame⟩ := hbody start _ (Nat.le_refl _) (by omega) hi
    have hmap := device_set hi hsame
    have hother : ∀ i, start ≠ i → (deps.set start (out start deps[start]))[i]? = deps[i]? :=
      fun i hne => List.getElem?_set_ne hne
    have hbody' : ∀ i dep, start + 1 ≤ i → i < start + 1 + n →
        (deps.set start (out start deps[start]))[i]? = some dep →
        body i dep.device dep s = .ok (out i dep, s, clSuccess) ∧
          (out i dep).device = dep.device := by
      intro i dep hle hlt hdep
      rw [hother i (by omega)] at hdep
      exact hbody i dep (by omega) (by omega) hdep
    obtain ⟨deps', hloop, hdevice, hnew, hold⟩ :=
      ih (by rwa [hmap]) (by rwa [hmap]) (by rw [List.length_set]; omega) hbody'
    refine ⟨deps', ?_, hdevice.trans hmap, ?_, ?_⟩
    · rw [List.range'_succ, forDevices_own_cons hown hdev hi]
      simp only [hrun, if_true]
      exact hloop
    · intro i hle' hlt
      by_cases heq : i = start
      · subst heq
        rw [hold i (by omega), List.getElem?_set_self (by omega), hi]
        rfl
      · rw [hnew i (by omega) (by omega), hother i (Ne.symm heq)]
    · intro i hi
      rw [hold i (by omega), hother i (by omega)]

/-- And if the loop succeeds, every iteration did. -/
theorem forDevices_own_inv (hown : OwnEntries (deps.map Dependent.device))
    (hdev : deps.map Dependent.device = devices) (hle : start + n ≤ deps.length)
    (hconst : ∀ i dep dep' s' code, start ≤ i → i < start + n → deps[i]? = some dep →
      body i dep.device dep s = .ok (dep', s', code) → s' = s ∧ dep'.device = dep.device)
    (h : forDevices devices body (List.range' start n) deps s = .ok (deps', s', clSuccess)) :
    s' = s ∧ (∀ i, start ≤ i → i < start + n → ∃ dep dep', deps[i]? = some dep ∧
      deps'[i]? = some dep' ∧ body i dep.device dep s = .ok (dep', s, clSuccess)) ∧
      ∀ i, i < start ∨ start + n ≤ i → deps'[i]? = deps[i]? := by
  induction n generalizing start deps with
  | zero =>
    cases h
    exact ⟨rfl, fun i hle hlt => by omega, fun _ _ => rfl⟩
  | succ n ih =>
    have hi : deps[start]? = some deps[start] := List.getElem?_eq_getElem (by omega)
    rw [List.range'_succ, forDevices_own_cons hown hdev hi] at h
    cases hrun : body start deps[start].device deps[start] s with
    | error f =>
      simp only [hrun] at h
      cases h
    | ok r =>
      obtain ⟨dep', s₁, code⟩ := r
      obtain ⟨rfl, hsame⟩ := hconst start _ dep' s₁ code (Nat.le_refl _) (by omega) hi hrun
      simp only [hrun] at h
      split at h
      · rename_i hc
        subst hc
        have hmap := device_set hi hsame
        have hother : ∀ i, start ≠ i → (deps.set start dep')[i]? = deps[i]? :=
          fun i hne => List.getElem?_set_ne hne
        have hconst' : ∀ i dep dep'' s' code, start + 1 ≤ i → i < start + 1 + n →
            (deps.set start dep')[i]? = some dep →
              body i dep.device dep s₁ = .ok (dep'', s', code) →
            s' = s₁ ∧ dep''.device = dep.device := by
          intro i dep dep'' s' code hle hlt hdep
          rw [hother i (by omega)] at hdep
          exact hconst i dep dep'' s' code (by omega) (by omega) hdep
        obtain ⟨hs, hnew, hold⟩ :=
          ih (by rwa [hmap]) (by rwa [hmap]) (by rw [List.length_set]; omega) hconst' h
        refine ⟨hs, ?_, ?_⟩
        · intro i hle' hlt
          by_cases heq : i = start
          · subst heq
            refine ⟨_, dep', hi, ?_, hrun⟩
            rw [hold i (by omega), List.getElem?_set_self (by omega)]
          · obtain ⟨dep, dep'', hdep, hdep'', hbody⟩ := hnew i (by omega) (by omega)
            rw [hother i (by omega)] at hdep
            exact ⟨dep, dep'', hdep, hdep'', hbody⟩
        · intro i hi
          rw [hold i (by omega), hother i (by omega)]
      · rename_i hc
        obtain ⟨-, h⟩ := Prod.mk.inj (Except.ok.inj h)
        exact absurd (Prod.mk.inj h).2 hc

end Entries

end Program

end Shamrock.Runtime
