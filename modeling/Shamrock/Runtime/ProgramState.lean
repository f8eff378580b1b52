import Shamrock.Runtime.Program

/-!
# The state machine of programs

The calls of `api_program.cpp` and the creation of kernels, on the programs of one context.
-/
namespace Shamrock.Runtime

open Transition

/-- A program is a number, in the order of creation. -/
structure ProgramWorld (M : Type) where
  context : List DeviceId
  programs : List (Program M)
  fault : Option Fault

/-- `deviceList` is the pointer and reads any element. -/
structure BuildArgs where
  numDevices : Nat
  deviceList : Option (Nat → DeviceId)
  pfnNotify : Bool
  userData : Bool

/-- The same for `input_headers`; `written` tells whether the files can be. -/
structure HeaderArgs where
  numInputHeaders : Nat
  inputHeaders : Option (Nat → Nat)
  headerIncludeNames : Bool
  written : Bool

inductive ProgramAction (M : Type)
  | createWithSource (isContext strings noNull : Bool)
  | createWithBinary (isContext : Bool) (numDevices : Nat) (deviceList : Option (Nat → DeviceId))
    (binaries : Option (Nat → List UInt8))
  | build (n : Nat) (args : BuildArgs) (createLibrary : Bool) (outcome : Nat → Compilation M)
  | compile (n : Nat) (args : BuildArgs) (headers : HeaderArgs) (outcome : Nat → Compilation M)
  | link (isContext : Bool) (args : BuildArgs) (createLibrary : Bool) (numInputPrograms : Nat)
    (inputPrograms : Option (Nat → Nat))
  | createKernel (n : Nat) (name : Option String) (addFunction : Nat → String → Bool)
  | createKernelsInProgram (n : Nat) (array : Bool) (numKernels : Nat)
    (addFunction : Nat → String → Bool)

namespace BuildArgs

/-- `device_list` as it is passed, unless it is null and has to be read. -/
def devices (args : BuildArgs) : Option (List DeviceId) :=
  match args.deviceList with
  | some device => some ((List.range args.numDevices).map device)
  | none => if args.numDevices = 0 then some [] else none

/-- The checks of the pointers, the same for `clLinkProgram`. -/
def consistent (args : BuildArgs) : Bool :=
  !(args.deviceList.isNone && 0 < args.numDevices) &&
    !(args.numDevices = 0 && args.deviceList.isSome) && !(!args.pfnNotify && args.userData)

end BuildArgs

/-- `validateContext`: without a list the devices are those of the context. -/
def validateContext (context : List DeviceId) (args : BuildArgs) :
    Int × Option (List DeviceId) :=
  if args.numDevices = 0 then (clSuccess, some context)
  else if args.devices.any fun devices => devices.all fun device => device ∈ context then
    (clSuccess, args.devices)
  else (clInvalidDevice, args.devices)

namespace ProgramWorld

variable {M : Type} (tc : Toolchain M)

/-- The code, and the device list that the caller goes on with. -/
def validateBuildArgs (w : ProgramWorld M) (n : Nat) (args : BuildArgs) :
    Int × Option (List DeviceId) :=
  match w.programs[n]? with
  | none => (clInvalidProgram, args.devices)
  | some p =>
    if !args.consistent then (clInvalidValue, args.devices)
    else
      match validateContext w.context args with
      | (code, devices) =>
        if code ≠ clSuccess then (code, devices)
        else if p.state = .loaded ∨ p.state = .built ∨ p.state = .compiled then (clSuccess, devices)
        else (clInvalidOperation, devices)

def clBuildProgram (w : ProgramWorld M) (n : Nat) (args : BuildArgs) (createLibrary : Bool)
    (outcome : Nat → Compilation M) : Except Fault (ProgramWorld M × Int) :=
  match w.validateBuildArgs n args with
  | (code, devices) =>
    if code = clSuccess then
      match w.programs[n]?, devices with
      | some p, some devices =>
        match p.build tc w.programs devices createLibrary outcome with
        | .error f => .error f
        | .ok (programs, p, code) => .ok ({ w with programs := programs.set n p }, code)
      | none, _ => .error .notAProgram
      | _, none => .error .nullDeviceList
    else .ok (w, code)

/-- The arrays of headers are there if and only if there are headers. -/
def headersConsistent (headers : HeaderArgs) : Bool :=
  !(headers.numInputHeaders = 0 && (headers.headerIncludeNames || headers.inputHeaders.isSome)) &&
    !(0 < headers.numInputHeaders && (!headers.headerIncludeNames || headers.inputHeaders.isNone))

/-- What goes wrong with the program of a header. -/
def headerFault (w : ProgramWorld M) (q : Nat) : Option Fault :=
  match w.programs[q]? with
  | none => some .notAProgram
  | some p => if p.type = .source then none else some .assertion

def storeInputHeaders (w : ProgramWorld M) (headers : HeaderArgs) : Except Fault Bool :=
  if headers.numInputHeaders = 0 then .ok true
  else
    match headers.headerIncludeNames, headers.inputHeaders with
    | true, some header =>
      match ((List.range headers.numInputHeaders).map header).findSome? w.headerFault with
      | some f => .error f
      | none => .ok headers.written
    | _, _ => .error .nullHeaders

/-- The check of the headers has the only way out: whatever else `validateBuildArgs` finds, the
program is compiled. -/
def clCompileProgram (w : ProgramWorld M) (n : Nat) (args : BuildArgs) (headers : HeaderArgs)
    (outcome : Nat → Compilation M) : Except Fault (ProgramWorld M × Int) :=
  match w.validateBuildArgs n args with
  | (code, devices) =>
    if code = clSuccess ∧ headersConsistent headers = false then .ok (w, clInvalidValue)
    else
      match devices, w.programs[n]? with
      | none, _ => .error .nullDeviceList
      | _, none => .error .notAProgram
      | some devices, some p =>
        match p.compile tc devices (w.storeInputHeaders headers) outcome with
        | .error f => .error f
        | .ok (p, code) => .ok ({ w with programs := w.programs.set n p }, code)

/-- The check of one input program of `clLinkProgram`. -/
def inputError (w : ProgramWorld M) (q : Nat) : Option Int :=
  match w.programs[q]? with
  | none => some clInvalidProgram
  | some p =>
    if p.state = .loaded ∧ p.type = .binary ∨ p.state = .compiled then none
    else some clInvalidOperation

def validateLinkArgs (w : ProgramWorld M) (isContext : Bool) (args : BuildArgs)
    (numInputPrograms : Nat) (inputPrograms : Option (Nat → Nat)) : Int × Option (List DeviceId) :=
  match inputPrograms with
  | none => (clInvalidValue, none)
  | some input =>
    if numInputPrograms = 0 then (clInvalidValue, none)
    else if !args.consistent then (clInvalidValue, none)
    else if !isContext then (clInvalidContext, none)
    else
      match validateContext w.context args with
      | (code, devices) =>
        if code ≠ clSuccess then (code, none)
        else
          match ((List.range numInputPrograms).map input).findSome? w.inputError with
          | some code => (code, none)
          | none => (clSuccess, devices)

def inputs (numInputPrograms : Nat) (inputPrograms : Option (Nat → Nat)) : List Nat :=
  inputPrograms.elim [] fun input => (List.range numInputPrograms).map input

/-- A program that could not be linked is deleted. -/
def clLinkProgram (w : ProgramWorld M) (isContext : Bool) (args : BuildArgs) (createLibrary : Bool)
    (numInputPrograms : Nat) (inputPrograms : Option (Nat → Nat)) :
    Except Fault (ProgramWorld M × Int) :=
  match w.validateLinkArgs isContext args numInputPrograms inputPrograms with
  | (code, devices) =>
    if code = clSuccess then
      match devices with
      | none => .error .nullDeviceList
      | some devices =>
        match Program.new.link tc w.programs devices createLibrary
            ((inputs numInputPrograms inputPrograms).map .program) with
        | .error f => .error f
        | .ok (programs, p, code) =>
          if code = clSuccess then .ok ({ w with programs := programs ++ [p] }, code)
          else .ok ({ w with programs := programs }, code)
    else .ok (w, code)

/-- `noNull` tells whether no string is null. -/
def sourceError (isContext strings noNull : Bool) : Int :=
  if !isContext then clInvalidContext
  else if !strings then clInvalidValue
  else if !noNull then clInvalidValue
  else clSuccess

def clCreateProgramWithSource (w : ProgramWorld M) (isContext strings noNull : Bool) :
    ProgramWorld M × Int :=
  if sourceError isContext strings noNull = clSuccess then
    ({ w with programs := w.programs ++ [Program.new.loadSources] }, clSuccess)
  else (w, sourceError isContext strings noNull)

/-- The check of the `i`-th binary and its device; an empty binary stands for a null pointer,
too. -/
def deviceError (w : ProgramWorld M) (device : Nat → DeviceId) (binary : Nat → List UInt8)
    (i : Nat) : Option Int :=
  if binary i = [] then some clInvalidValue
  else if device i ∈ w.context then none
  else some clInvalidDevice

def binaryError (w : ProgramWorld M) (isContext : Bool) (numDevices : Nat)
    (deviceList : Option (Nat → DeviceId)) (binaries : Option (Nat → List UInt8)) : Int :=
  if !isContext then clInvalidContext
  else
    match deviceList, binaries with
    | some device, some binary =>
      if numDevices = 0 then clInvalidValue
      else ((List.range numDevices).findSome? (w.deviceError device binary)).getD clSuccess
    | _, _ => clInvalidValue

/-- The copy of `device_list` has room for the devices of the context. -/
def clCreateProgramWithBinary (w : ProgramWorld M) (isContext : Bool) (numDevices : Nat)
    (deviceList : Option (Nat → DeviceId)) (binaries : Option (Nat → List UInt8)) :
    Except Fault (ProgramWorld M × Int) :=
  if w.binaryError isContext numDevices deviceList binaries = clSuccess then
    match deviceList, binaries with
    | some device, some binary =>
      if w.context.length < numDevices then .error .pastDevices
      else
        match Program.new.loadBinaries tc binary ((List.range numDevices).map device) with
        | .error f => .error f
        | .ok (p, code) =>
          if code = clSuccess then .ok ({ w with programs := w.programs ++ [p] }, code)
          else .ok (w, code)
    | _, _ => .error .nullDeviceList
  else .ok (w, w.binaryError isContext numDevices deviceList binaries)

end ProgramWorld

/-- What the kernel functions of the entries are called. -/
def Program.table {M : Type} (tc : Toolchain M) (p : Program M)
    (addFunction : Nat → String → Bool) : KernelTable where
  first := (p.deviceDependents.head?.bind Dependent.linkedModule).map (kernelFunctions tc)
  others := p.deviceDependents.tail.map fun dep => dep.linkedModule.map (kernelFunctions tc)
  addFunction := addFunction

namespace ProgramWorld

variable {M : Type} (tc : Toolchain M)

/-- What both calls that create kernels check. -/
def kernelError (w : ProgramWorld M) (n : Nat) : Int :=
  match w.programs[n]? with
  | none => clInvalidProgram
  | some p => if p.state = .built then clSuccess else clInvalidProgramExecutable

/-- A call that creates kernels; without entries it does nothing. -/
def withKernels (w : ProgramWorld M) (n : Nat) (addFunction : Nat → String → Bool)
    (call : KernelTable → KernelLists → Except Fault (KernelLists × Int)) :
    Except Fault (ProgramWorld M × Int) :=
  match w.programs[n]? with
  | none => .error .notAProgram
  | some p =>
    if p.deviceDependents.isEmpty then .ok (w, clSuccess)
    else
      match call (p.table tc addFunction) p.kernels with
      | .error f => .error f
      | .ok (kernels, code) =>
        .ok ({ w with programs := w.programs.set n { p with kernels := kernels } }, code)

def clCreateKernel (w : ProgramWorld M) (n : Nat) (name : Option String)
    (addFunction : Nat → String → Bool) : Except Fault (ProgramWorld M × Int) :=
  match name with
  | none => .ok (w, clInvalidValue)
  | some name =>
    if w.kernelError n = clSuccess then
      w.withKernels tc n addFunction fun table l => l.clCreateKernel table name
    else .ok (w, w.kernelError n)

def clCreateKernelsInProgram (w : ProgramWorld M) (n : Nat) (array : Bool) (numKernels : Nat)
    (addFunction : Nat → String → Bool) : Except Fault (ProgramWorld M × Int) :=
  if w.kernelError n = clSuccess then
    w.withKernels tc n addFunction fun table l =>
      l.clCreateKernelsInProgram table array numKernels
  else .ok (w, w.kernelError n)

end ProgramWorld

section System

variable {M : Type} (tc : Toolchain M)

def programCall (w : ProgramWorld M) : ProgramAction M → Except Fault (ProgramWorld M × Int)
  | .createWithSource isContext strings noNull =>
    .ok (w.clCreateProgramWithSource isContext strings noNull)
  | .createWithBinary isContext numDevices deviceList binaries =>
    w.clCreateProgramWithBinary tc isContext numDevices deviceList binaries
  | .build n args createLibrary outcome => w.clBuildProgram tc n args createLibrary outcome
  | .compile n args headers outcome => w.clCompileProgram tc n args headers outcome
  | .link isContext args createLibrary num input =>
    w.clLinkProgram tc isContext args createLibrary num input
  | .createKernel n name addFunction => w.clCreateKernel tc n name addFunction
  | .createKernelsInProgram n array numKernels addFunction =>
    w.clCreateKernelsInProgram tc n array numKernels addFunction

def programStep (w : ProgramWorld M) (a : ProgramAction M) : Option (ProgramWorld M) :=
  if w.fault.isSome then none
  else
    match programCall tc w a with
    | .error f => some { w with fault := some f }
    | .ok (w, _) => some w

def programSystem : LTS (ProgramWorld M) (ProgramAction M) :=
  ofStep (fun w => w.context ≠ [] ∧ w.programs = [] ∧ w.fault = none) (programStep tc)

/-- What the validation of the arguments of a call answers. -/
def argumentError (w : ProgramWorld M) : ProgramAction M → Int
  | .createWithSource isContext strings noNull =>
    ProgramWorld.sourceError isContext strings noNull
  | .createWithBinary isContext numDevices deviceList binaries =>
    w.binaryError isContext numDevices deviceList binaries
  | .build n args _ _ => (w.validateBuildArgs n args).1
  | .compile n args headers _ =>
    if (w.validateBuildArgs n args).1 = clSuccess ∧ ProgramWorld.headersConsistent headers = false
    then clInvalidValue
    else (w.validateBuildArgs n args).1
  | .link isContext args _ num input => (w.validateLinkArgs isContext args num input).1
  | .createKernel n name _ => if name.isNone then clInvalidValue else w.kernelError n
  | .createKernelsInProgram n _ _ _ => w.kernelError n

/-- Every module that a program needs is there, and nothing has gone wrong but with kernel
objects. -/
structure ProgramsOk (w : ProgramWorld M) : Prop where
  fault : ∀ f ∈ w.fault, f = .deletedKernel
  modules : ∀ p ∈ w.programs, p.state = .built ∨ p.state = .compiled →
    ∀ dep ∈ p.deviceDependents, dep.linkedModule ≠ none

/-- A call with bad arguments returns the error and does nothing. -/
def Rejects (w : ProgramWorld M) (a : ProgramAction M) : Prop :=
  argumentError w a ≠ clSuccess → programCall tc w a = .ok (w, argumentError w a)

end System

namespace Program

variable {M : Type} {tc : Toolchain M} {p p' : Program M} {devices : List DeviceId}

/-- Each device of the list selects its own entry, or, where there are entries already, each of the
first devices selects some entry. -/
def EntriesFit (p : Program M) (devices : List DeviceId) : Prop :=
  (p.deviceDependents = [] → OwnEntries devices) ∧
    ∀ i < p.deviceDependents.length,
      (devices[i]?.bind (deviceDependent p.deviceDependents)).isSome = true

/-- For `clCompileProgram`: a binary is not compiled, only `device_list` is read. -/
def CompileFits (tc : Toolchain M) (p : Program M) (devices : List DeviceId) : Prop :=
  p.getNumKernels tc = .ok 0 →
    (p.type = .source → p.EntriesFit devices) ∧ p.deviceDependents.length ≤ devices.length

def BuildFits (tc : Toolchain M) (p : Program M) (devices : List DeviceId) : Prop :=
  p.getNumKernels tc = .ok 0 → p.EntriesFit devices

/-- All modules are there. -/
def Complete (p : Program M) : Prop := ∀ dep ∈ p.deviceDependents, dep.linkedModule ≠ none

theorem EntriesFit.length_le (h : p.EntriesFit devices) :
    p.deviceDependents.length ≤ devices.length := by
  by_contra hlt
  have hsome := h.2 devices.length (by omega)
  simp at hsome

theorem BuildFits.compileFits (h : p.BuildFits tc devices) : p.CompileFits tc devices :=
  fun hn => ⟨fun _ => h hn, (h hn).length_le⟩

theorem getNumKernels_ok (tc : Toolchain M) (hm : p.Complete) :
    ∃ n, p.getNumKernels tc = .ok n := by
  cases hd : p.deviceDependents with
  | nil => exact ⟨0, by simp [getNumKernels, hd]⟩
  | cons dep deps =>
    obtain ⟨m, hmod⟩ := Option.ne_none_iff_exists'.mp (hm dep (by simp [hd]))
    exact ⟨(tc.operands m).length, by simp [getNumKernels, hd, hmod]⟩

theorem initDevices_device (p : Program M) (devices : List DeviceId) :
    (p.initDevices devices).deviceDependents.map Dependent.device =
      if p.deviceDependents = [] then devices else p.deviceDependents.map Dependent.device := by
  by_cases hd : p.deviceDependents = [] <;>
    simp [initDevices, setDevices, hd, Function.comp_def]

/-- The loops over the entries end: each iteration finds its device and its entry. -/
theorem EntriesFit.listed (h : p.EntriesFit devices) {i : Nat}
    (hi : i < (p.initDevices devices).deviceDependents.length) :
    ∃ d, devices[i]? = some d ∧
      (deviceDependent (p.initDevices devices).deviceDependents d).isSome := by
  have hdevice := initDevices_device p devices
  by_cases hd : p.deviceDependents = []
  · rw [if_pos hd] at hdevice
    have hlt : i < devices.length := by
      rw [← hdevice, List.length_map]
      exact hi
    refine ⟨devices[i], List.getElem?_eq_getElem hlt, ?_⟩
    rw [deviceDependent_own (by rw [hdevice]; exact h.1 hd)
      (by rw [hdevice]; exact List.getElem?_eq_getElem hlt)]
    rfl
  · have hself : p.initDevices devices = p := by simp [initDevices, hd]
    rw [hself] at hi ⊢
    have hsome := h.2 i hi
    cases hdev : devices[i]? with
    | none => simp [hdev] at hsome
    | some d => exact ⟨d, rfl, by simpa [hdev] using hsome⟩

/-- On new entries each device finds its own. -/
theorem EntriesFit.own (h : p.EntriesFit devices) (hd : p.deviceDependents = []) {k : Nat}
    (hk : k < (p.initDevices devices).deviceDependents.length) :
    ∃ d, devices[k]? = some d ∧
      deviceDependent (p.initDevices devices).deviceDependents d = some k := by
  have hdevice := initDevices_device p devices
  rw [if_pos hd] at hdevice
  have hlt : k < devices.length := by
    rw [← hdevice, List.length_map]
    exact hk
  exact ⟨devices[k], List.getElem?_eq_getElem hlt, deviceDependent_own
    (by rw [hdevice]; exact h.1 hd) (by rw [hdevice]; exact List.getElem?_eq_getElem hlt)⟩

theorem compileDevice_ok (tc : Toolchain M) (outcome : Nat → Compilation M) (i : Nat) (d : DeviceId)
    (dep : Dependent M) (s : Unit) :
    ∃ dep' code, compileDevice tc outcome i d dep s = .ok (dep', (), code) ∧
      dep'.device = dep.device ∧ (dep.linkedModule ≠ none → dep'.linkedModule ≠ none) ∧
      (code = clSuccess → dep'.linkedModule ≠ none) := by
  cases hr : (outcome i).result with
  | compiled m =>
    simp only [compileDevice, hr]
    exact ⟨_, _, rfl, rfl, by simp, by simp⟩
  | invalidBuildOptions =>
    simp only [compileDevice, hr]
    exact ⟨_, _, rfl, rfl, id, fun hc => absurd hc (by decide)⟩
  | failed =>
    simp only [compileDevice, hr]
    exact ⟨_, _, rfl, rfl, id, fun hc => absurd hc (by decide)⟩

/-- What an attempt to compile or build `p` leaves: it fails, or every module is there. -/
structure Attempted (p p' : Program M) (code : Int) : Prop where
  type : p'.type = p.type
  entries : p'.deviceDependents = [] → p.deviceDependents = []
  failed : code ≠ clSuccess → p'.state = .failed
  done : code = clSuccess → (p'.state = .built ∨ p'.state = .compiled) ∧ p'.Complete

theorem initDevices_ne_nil (hd : devices ≠ []) : (p.initDevices devices).deviceDependents ≠ [] := by
  by_cases hp : p.deviceDependents = [] <;> simp [initDevices, setDevices, hp, hd]

theorem compileDevices_ok (tc : Toolchain M) (hm : p.Complete) (hfit : p.EntriesFit devices)
    (outcome : Nat → Compilation M) :
    ∃ deps code, forDevices devices (compileDevice tc outcome)
        (List.range (p.initDevices devices).deviceDependents.length)
        (p.initDevices devices).deviceDependents () = .ok (deps, (), code) ∧
      deps.map Dependent.device =
        (p.initDevices devices).deviceDependents.map Dependent.device ∧
      (code = clSuccess → ∀ dep ∈ deps, dep.linkedModule ≠ none) := by
  let A : Dependent M → Prop := fun dep => p.deviceDependents ≠ [] → dep.linkedModule ≠ none
  have hbody : ∀ i d dep s k, devices[i]? = some d →
      deviceDependent (p.initDevices devices).deviceDependents d = some k →
      ((p.initDevices devices).deviceDependents.map Dependent.device)[k]? = some dep.device →
      A dep → True →
      ∃ dep' s' code, compileDevice tc outcome i d dep s = .ok (dep', s', code) ∧
        dep'.device = dep.device ∧ A dep' ∧ True ∧
        (code = clSuccess → dep'.linkedModule ≠ none ∧ True) := by
    intro i d dep s k _ _ _ hA _
    obtain ⟨dep', code, hrun, hdevice, hkeep, hdone⟩ := compileDevice_ok tc outcome i d dep s
    exact ⟨dep', (), code, hrun, hdevice, fun hne => hkeep (hA hne), trivial,
      fun hc => ⟨hdone hc, trivial⟩⟩
  have hdevice : ∀ i d dep s dep' s' code,
      compileDevice tc outcome i d dep s = .ok (dep', s', code) → dep'.device = dep.device := by
    intro i d dep s dep' s' code hrun
    obtain ⟨dep₁, code₁, hrun₁, hdevice, -⟩ := compileDevice_ok tc outcome i d dep s
    rw [hrun₁] at hrun
    cases hrun
    exact hdevice
  have hA : ∀ dep ∈ (p.initDevices devices).deviceDependents, A dep := by
    intro dep hdep hne
    rw [initDevices, if_neg (by simpa using hne)] at hdep
    exact hm dep hdep
  obtain ⟨deps, ⟨⟩, code, hloop, hdone⟩ := forDevices_ok A (fun dep => dep.linkedModule ≠ none)
    (fun _ _ => True) (fun _ => True) hbody hdevice
    (fun i (_ : 0 ≤ i) hi => hfit.listed (by rwa [Nat.zero_add] at hi)) hA trivial trivial
  refine ⟨deps, code, by rw [List.range_eq_range']; exact hloop, hdone.device, ?_⟩
  intro hc dep hdep
  by_cases hd : p.deviceDependents = []
  · -- new entries: this one is that of its own device
    obtain ⟨k, hk⟩ := List.getElem?_of_mem hdep
    have hlt : k < (p.initDevices devices).deviceDependents.length := by
      have hlen := congrArg List.length hdone.device
      rw [List.length_map, List.length_map] at hlen
      rw [← hlen]
      exact (List.getElem?_eq_some_iff.mp hk).1
    obtain ⟨d, hdev, hself⟩ := hfit.own hd hlt
    exact hdone.selected hc k (by omega) (by omega) d hdev k hself dep hk
  · exact hdone.every dep hdep hd

theorem compile_ok (stored : Bool) (hm : p.Complete)
    (hsource : p.deviceDependents = [] → p.type = .source) (hne : devices ≠ [])
    (hfit : p.CompileFits tc devices) (outcome : Nat → Compilation M) :
    ∃ p' code, p.compile tc devices (.ok stored) outcome = .ok (p', code) ∧ Attempted p p' code ∧
      (code = clSuccess → p.getNumKernels tc = .ok 0 ∧
        p'.deviceDependents.map Dependent.device =
          (p.initDevices devices).deviceDependents.map Dependent.device) := by
  obtain ⟨n, hn⟩ := getNumKernels_ok tc hm
  by_cases hpos : 0 < n
  · refine ⟨{ p with state := .failed }, clInvalidOperation, ?_,
      ⟨rfl, id, fun _ => rfl, fun hc => absurd hc (by decide)⟩, fun hc => absurd hc (by decide)⟩
    simp only [compile, hn, hpos, if_true]
  · obtain rfl : n = 0 := by omega
    obtain ⟨hfit, hlen⟩ := hfit hn
    obtain ⟨q, hq⟩ : ∃ q, q = { p with state := .failed }.initDevices devices := ⟨_, rfl⟩
    have hinit : q.deviceDependents = (p.initDevices devices).deviceDependents := by
      by_cases hd : p.deviceDependents = [] <;> simp [hq, initDevices, setDevices, hd]
    have htype : q.type = p.type := by
      by_cases hd : p.deviceDependents = [] <;> simp [hq, initDevices, setDevices, hd]
    have hstate : q.state = .failed := by
      by_cases hd : p.deviceDependents = [] <;> simp [hq, initDevices, setDevices, hd]
    have hnil := initDevices_ne_nil (p := p) hne
    cases stored with
    | false =>
      refine ⟨q, clBuildProgramFailure, ?_, ⟨htype, ?_, fun _ => hstate,
        fun hc => absurd hc (by decide)⟩, fun hc => absurd hc (by decide)⟩
      · simp only [compile, hn, Nat.lt_irrefl, if_false, ← hq]
      · exact fun hd => absurd (hinit ▸ hd) hnil
    | true =>
      by_cases hsrc : p.type = .source
      · obtain ⟨deps, code, hloop, hdevice, hmods⟩ := compileDevices_ok tc hm (hfit hsrc) outcome
        have hdeps : deps ≠ [] := by
          intro hd
          rw [hd, List.map_nil, eq_comm, List.map_eq_nil_iff] at hdevice
          exact hnil hdevice
        by_cases hc : code = clSuccess
        · refine ⟨{ q with
              deviceDependents := deps
              state := .compiled
              binaryType := .compiledObject }, code, ?_, ⟨htype, fun hd => absurd hd hdeps,
            fun hne => absurd hc hne, fun hc => ⟨.inr rfl, hmods hc⟩⟩, fun _ => ⟨hn, hdevice⟩⟩
          simp only [compile, hn, Nat.lt_irrefl, if_false, ← hq, htype.trans hsrc, if_true,
            hinit, hloop, hc]
        · refine ⟨{ q with deviceDependents := deps }, code, ?_, ⟨htype, fun hd => absurd hd hdeps,
            fun _ => hstate, fun hc' => absurd hc' hc⟩, fun hc' => absurd hc' hc⟩
          simp only [compile, hn, Nat.lt_irrefl, if_false, ← hq, htype.trans hsrc, if_true,
            hinit, hloop, hc]
      · -- nothing is compiled
        have hself : p.initDevices devices = p := by
          have hd : p.deviceDependents ≠ [] := fun hd => hsrc (hsource hd)
          simp [initDevices, hd]
        refine ⟨{ q with state := .compiled, binaryType := .compiledObject }, clSuccess, ?_,
          ⟨htype, ?_, fun hc => absurd rfl hc, fun _ => ⟨.inr rfl, ?_⟩⟩,
          fun _ => ⟨hn, congrArg _ hinit⟩⟩
        · simp only [compile, hn, Nat.lt_irrefl, if_false, ← hq, htype, hsrc, hinit, hself,
            Nat.not_lt.mpr hlen]
        · exact fun hd => absurd (hinit ▸ hd) hnil
        · intro dep hdep
          rw [show _ = p.deviceDependents from hinit.trans (by rw [hself])] at hdep
          exact hm dep hdep

/-- A program with modules is linked with the library or with itself. -/
theorem linkDevice_self (tc : Toolchain M) (createLibrary : Bool) (programs : List (Program M))
    {dep : Dependent M} {m : M} (hmod : dep.linkedModule = some m) (i : Nat) (d : DeviceId) :
    ∃ dep' code, linkDevice tc createLibrary [.self] i d dep (programs, 1) =
        .ok (dep', (programs, 1), code) ∧
      dep'.device = dep.device ∧ dep'.linkedModule ≠ none := by
  have hone : ∃ m' linked, linkInputs tc [.self] d (stdlibFor tc createLibrary dep) 1
      (List.range' 0 (1 - 0)) programs m = .ok (programs, m', linked) := by
    simp only [Nat.sub_zero, List.range'_one, linkInputs, Nat.zero_add, if_true]
    cases stdlibFor tc createLibrary dep with
    | none =>
      rcases hlink : tc.linkSelf m with ⟨m', _ | _⟩
      · exact ⟨m', false, by simp⟩
      · exact ⟨m', true, by simp⟩
    | some other =>
      rcases hlink : tc.link m other with ⟨m', other', _ | _⟩
      · exact ⟨m', false, by simp [hlink]⟩
      · exact ⟨m', true, by simp [hlink]⟩
  obtain ⟨m', linked, hone⟩ := hone
  cases linked with
  | false =>
    refine ⟨{ dep with linkedModule := some m' }, clBuildProgramFailure, ?_, rfl, by simp⟩
    simp only [linkDevice, linkStart, hmod, hone]
  | true =>
    simp only [linkDevice, linkStart, hmod, hone]
    exact ⟨_, _, rfl, rfl, by simp⟩

theorem linkDevice_device {createLibrary : Bool} {inputs : List Input} {i : Nat} {d : DeviceId}
    {dep dep' : Dependent M} {s s' : List (Program M) × Nat} {code : Int}
    (h : linkDevice tc createLibrary inputs i d dep s = .ok (dep', s', code)) :
    dep'.device = dep.device := by
  simp only [linkDevice] at h
  split at h
  · cases h
  · split at h
    · cases h
    · cases h
      rfl
    · cases h
      rfl

theorem link_self_ok (tc : Toolchain M) (programs : List (Program M)) (createLibrary : Bool)
    (hm : p.Complete)
    (hne : p.deviceDependents ≠ [])
    (hlisted : ∀ i < p.deviceDependents.length,
      ∃ d, devices[i]? = some d ∧ (deviceDependent p.deviceDependents d).isSome) :
    ∃ p' code, p.link tc programs devices createLibrary [.self] = .ok (programs, p', code) ∧
      Attempted p p' code := by
  let A : Dependent M → Prop := fun dep => dep.linkedModule ≠ none
  let S : List (Program M) × Nat → Prop := fun s => s = (programs, 1)
  have hbody : ∀ i d dep s k, devices[i]? = some d →
      deviceDependent p.deviceDependents d = some k →
      (p.deviceDependents.map Dependent.device)[k]? = some dep.device → A dep → S s →
      ∃ dep' s' code, linkDevice tc createLibrary [.self] i d dep s = .ok (dep', s', code) ∧
        dep'.device = dep.device ∧ A dep' ∧ S s' ∧ (code = clSuccess → A dep' ∧ S s') := by
    rintro i d dep s k - - - hA rfl
    obtain ⟨m, hmod⟩ := Option.ne_none_iff_exists'.mp hA
    obtain ⟨dep', code, hrun, hdevice, hsome⟩ := linkDevice_self tc createLibrary programs hmod i d
    exact ⟨dep', (programs, 1), code, hrun, hdevice, hsome, rfl, fun _ => ⟨hsome, rfl⟩⟩
  obtain ⟨deps, s', code, hloop, hdone⟩ := forDevices_ok A A (fun _ => S) S hbody
    (fun _ _ _ _ _ _ _ => linkDevice_device)
    (fun i (_ : 0 ≤ i) hi => hlisted i (by rwa [Nat.zero_add] at hi)) hm rfl rfl
  obtain rfl : s' = (programs, 1) := hdone.always
  have hself : { p with state := .failed }.initDevices devices = { p with state := .failed } := by
    simp [initDevices, hne]
  have hdeps : deps ≠ [] := by
    intro hd
    have hdevice := hdone.device
    rw [hd, List.map_nil, eq_comm, List.map_eq_nil_iff] at hdevice
    exact hne hdevice
  rw [← List.range_eq_range'] at hloop
  by_cases hc : code = clSuccess
  · refine ⟨{ p with
        state := if createLibrary then .compiled else .built
        binaryType := if createLibrary then .library else .executable
        deviceDependents := deps }, code, ?_, ⟨rfl, fun hd => absurd hd hdeps,
      fun hc' => absurd hc hc', fun _ => ⟨?_, hdone.every⟩⟩⟩
    · simp only [link, hself, List.length_singleton, hloop, hc, if_true]
    · cases createLibrary
      · exact .inl rfl
      · exact .inr rfl
  · refine ⟨{ p with state := .failed, deviceDependents := deps }, code, ?_,
      ⟨rfl, fun hd => absurd hd hdeps, fun _ => rfl, fun hc' => absurd hc' hc⟩⟩
    simp only [link, hself, List.length_singleton, hloop, hc, if_false]

theorem build_ok (programs : List (Program M)) (createLibrary : Bool) (hm : p.Complete)
    (hsource : p.deviceDependents = [] → p.type = .source) (hne : devices ≠ [])
    (hfit : p.BuildFits tc devices) (outcome : Nat → Compilation M) :
    ∃ p' code, p.build tc programs devices createLibrary outcome = .ok (programs, p', code) ∧
      Attempted p p' code := by
  obtain ⟨q, code, hcompile, hq, hdone⟩ := compile_ok true hm hsource hne
    hfit.compileFits outcome
  by_cases hc : code = clSuccess
  · obtain ⟨hn, hdevice⟩ := hdone hc
    have hq' := hq.done hc
    have hnil := initDevices_ne_nil (p := p) hne
    have hlisted : ∀ i < q.deviceDependents.length,
        ∃ d, devices[i]? = some d ∧ (deviceDependent q.deviceDependents d).isSome := by
      intro i hi
      have hlen := congrArg List.length hdevice
      rw [List.length_map, List.length_map] at hlen
      rw [hlen] at hi
      obtain ⟨d, hd, hsome⟩ := (hfit hn).listed hi
      exact ⟨d, hd, by rwa [deviceDependent_congr hdevice]⟩
    have hqnil : q.deviceDependents ≠ [] := by
      intro hd
      rw [hd, List.map_nil, eq_comm, List.map_eq_nil_iff] at hdevice
      exact hnil hdevice
    obtain ⟨p', code', hlink, hp'⟩ := link_self_ok tc programs createLibrary hq'.2 hqnil hlisted
    refine ⟨p', code', ?_, ⟨hp'.type.trans hq.type, fun hd => absurd (hp'.entries hd) hqnil,
      hp'.failed, hp'.done⟩⟩
    simp only [build, hcompile, hc, if_true, hlink]
  · refine ⟨q, if code = clCompileProgramFailure then clBuildProgramFailure else code, ?_,
      ⟨hq.type, hq.entries, fun _ => hq.failed hc, ?_⟩⟩
    · simp only [build, hcompile, hc, if_false]
    · intro hc'
      split at hc'
      · exact absurd hc' (by decide)
      · exact absurd hc' hc

/-- What holds of every program that a handle is given for. -/
structure Sound (p : Program M) : Prop where
  state : p.state ≠ .empty
  source : p.deviceDependents = [] → p.type = .source
  complete : p.state ≠ .failed → p.Complete

theorem Attempted.sound {code : Int} (h : Attempted p p' code)
    (hsource : p.deviceDependents = [] → p.type = .source) : p'.Sound := by
  by_cases hc : code = clSuccess
  · obtain ⟨hstate, hm⟩ := h.done hc
    refine ⟨?_, fun hd => h.type.trans (hsource (h.entries hd)), fun _ => hm⟩
    rcases hstate with hstate | hstate <;> simp [hstate]
  · have hstate := h.failed hc
    refine ⟨by simp [hstate], fun hd => h.type.trans (hsource (h.entries hd)), ?_⟩
    exact fun hne => absurd hstate hne

section Inputs

variable {programs : List (Program M)} {qs : List Nat} {d : DeviceId} {m : M} {k n q : Nat}

/-- The input programs have a module for every device. -/
def InputsReady (programs : List (Program M)) (qs : List Nat) (devices : List DeviceId) : Prop :=
  ∀ q ∈ qs, ∃ p, programs[q]? = some p ∧ p.Complete ∧
    ∀ d ∈ devices, (deviceDependent p.deviceDependents d).isSome

/-- What linking keeps of the other programs. -/
def InputsKept (qs : List Nat) (devices : List DeviceId) (programs : List (Program M)) : Prop :=
  (∀ p ∈ programs, p.Sound) ∧ InputsReady programs qs devices

theorem inputModule_ok (h : InputsReady programs qs devices) (hq : q ∈ qs) (hd : d ∈ devices) :
    ∃ k m, inputModule programs q d = .ok (k, m) := by
  obtain ⟨p, hp, hm, hlookup⟩ := h q hq
  obtain ⟨k, hk⟩ := Option.isSome_iff_exists.mp (hlookup d hd)
  have hlt := lt_of_deviceDependent hk
  obtain ⟨m, hmod⟩ := Option.ne_none_iff_exists'.mp (hm _ (List.getElem_mem hlt))
  exact ⟨k, m, by simp [inputModule, hp, hk, hlt, hmod]⟩

/-- The program with another module in one entry. -/
def withModule (p : Program M) (k : Nat) (m : M) : Program M :=
  { p with deviceDependents := p.deviceDependents.modify k fun dep =>
      { dep with linkedModule := some m } }

theorem device_withModule :
    (p.withModule k m).deviceDependents.map Dependent.device =
      p.deviceDependents.map Dependent.device := by
  apply List.ext_getElem?
  intro j
  simp only [withModule, List.getElem?_map, List.getElem?_modify]
  cases p.deviceDependents[j]? with
  | none => rfl
  | some dep => by_cases hj : k = j <;> simp [hj]

theorem complete_withModule (hm : p.Complete) : (p.withModule k m).Complete := by
  intro dep hdep
  obtain ⟨j, hj⟩ := List.getElem?_of_mem hdep
  simp only [withModule, List.getElem?_modify] at hj
  cases hold : p.deviceDependents[j]? with
  | none => simp [hold] at hj
  | some dep₀ =>
    by_cases hkj : k = j
    · simp only [hold, hkj, if_true, Option.map_eq_map, Option.map_some, Option.some.injEq] at hj
      subst hj
      simp
    · obtain rfl : dep₀ = dep := by simpa [hold, hkj] using hj
      exact hm _ (List.mem_of_getElem? hold)

theorem sound_withModule (hp : p.Sound) : (p.withModule k m).Sound := by
  refine ⟨hp.state, ?_, fun hs => complete_withModule (hp.complete hs)⟩
  intro hd
  apply hp.source
  have hmap := device_withModule (p := p) (k := k) (m := m)
  rw [hd, List.map_nil, eq_comm, List.map_eq_nil_iff] at hmap
  exact hmap

theorem getElem?_setModule {j : Nat} :
    (setModule programs q k m)[j]? =
      programs[j]?.map fun p => if q = j then p.withModule k m else p := by
  simp only [setModule, List.getElem?_modify]
  cases programs[j]? with
  | none => rfl
  | some p => by_cases hj : q = j <;> simp [hj, withModule]

theorem inputsKept_setModule (h : InputsKept qs devices programs) :
    InputsKept qs devices (setModule programs q k m) := by
  obtain ⟨hsound, hready⟩ := h
  constructor
  · intro p hp
    obtain ⟨j, hj⟩ := List.getElem?_of_mem hp
    rw [getElem?_setModule, Option.map_eq_some_iff] at hj
    obtain ⟨p₀, hold, rfl⟩ := hj
    have hp₀ := hsound p₀ (List.mem_of_getElem? hold)
    split
    · exact sound_withModule hp₀
    · exact hp₀
  · intro j hj
    obtain ⟨p, hp, hm, hlookup⟩ := hready j hj
    refine ⟨if q = j then p.withModule k m else p, by rw [getElem?_setModule, hp]; rfl, ?_, ?_⟩
    · split
      · exact complete_withModule hm
      · exact hm
    · intro d hd
      split
      · rw [deviceDependent_congr device_withModule]
        exact hlookup d hd
      · exact hlookup d hd

/-- Every index that is read is that of an input, or of the library behind them. -/
theorem linkInputs_ok (tc : Toolchain M) {stdlib : Option M} {num : Nat} {js : List Nat}
    (h : InputsKept qs devices programs) (hd : d ∈ devices)
    (hjs : ∀ j ∈ js, j < qs.length ∨ j + 1 = num ∧ stdlib ≠ none) :
    ∃ programs' m' linked, linkInputs tc (qs.map .program) d stdlib num js programs m =
      .ok (programs', m', linked) ∧ InputsKept qs devices programs' := by
  induction js generalizing programs m with
  | nil => exact ⟨programs, m, true, rfl, h⟩
  | cons j js ih =>
    have hjs' : ∀ j ∈ js, j < qs.length ∨ j + 1 = num ∧ stdlib ≠ none :=
      fun j hj => hjs j (List.mem_cons_of_mem _ hj)
    cases hlib : (if j + 1 = num then stdlib else none) with
    | some other =>
      rcases hlink : tc.link m other with ⟨m', other', _ | _⟩
      · exact ⟨programs, m', false, by simp only [linkInputs, hlib, hlink], h⟩
      · obtain ⟨programs', m'', linked, hrun, hkept⟩ := ih (m := m') h hjs'
        exact ⟨programs', m'', linked, by simp only [linkInputs, hlib, hlink, hrun], hkept⟩
    | none =>
      have hlt : j < qs.length := by
        rcases hjs j List.mem_cons_self with hlt | ⟨heq, hsome⟩
        · exact hlt
        · rw [if_pos heq] at hlib
          exact absurd hlib hsome
      have hinput : (qs.map Input.program)[j]? = some (.program qs[j]) := by simp [hlt]
      obtain ⟨k, other, hmod⟩ := inputModule_ok h.2 (List.getElem_mem hlt) hd
      rcases hlink : tc.link m other with ⟨m', other', linked⟩
      have hset : InputsKept qs devices (setModule programs qs[j] k other') :=
        inputsKept_setModule h
      cases linked with
      | false =>
        refine ⟨setModule programs qs[j] k other', m', false, ?_, hset⟩
        simp only [linkInputs, hlib, hinput, hmod, hlink]
      | true =>
        obtain ⟨programs', m'', linked, hrun, hkept⟩ := ih (m := m') hset hjs'
        refine ⟨programs', m'', linked, ?_, hkept⟩
        simp only [linkInputs, hlib, hinput, hmod, hlink, hrun]

/-- `num_input_programs` grows only where the library is linked. -/
theorem linkDevice_ok (tc : Toolchain M) (createLibrary : Bool) (dep : Dependent M) (i : Nat)
    (h : InputsKept qs devices programs) (hd : d ∈ devices) (hqs : qs ≠ []) :
    ∃ dep' programs' num code, linkDevice tc createLibrary (qs.map .program) i d dep
        (programs, qs.length) = .ok (dep', (programs', num), code) ∧
      InputsKept qs devices programs' ∧ dep'.linkedModule ≠ none ∧
      dep'.isNativeBinary = dep.isNativeBinary ∧
      (stdlibFor tc createLibrary dep = none → num = qs.length) := by
  obtain ⟨q, qs', rfl⟩ := List.exists_cons_of_ne_nil hqs
  obtain ⟨m, start, num, hstart, hnum, hrange⟩ : ∃ m start num,
      linkStart (stdlibFor tc createLibrary dep) ((q :: qs').map .program) d dep programs
        (q :: qs').length = .ok (m, start, num) ∧
      (stdlibFor tc createLibrary dep = none → num = (q :: qs').length) ∧
      ∀ j ∈ List.range' start (num - start), j < (q :: qs').length ∨
        j + 1 = num ∧ stdlibFor tc createLibrary dep ≠ none := by
    cases hmod : dep.linkedModule with
    | some m =>
      refine ⟨m, 0, (q :: qs').length, by simp only [linkStart, hmod], fun _ => rfl, ?_⟩
      intro j hj
      have hj := List.mem_range'_1.mp hj
      exact .inl (by omega)
    | none =>
      obtain ⟨k, m, hfirst⟩ := inputModule_ok h.2 List.mem_cons_self hd
      have hfirst : firstModule programs ((q :: qs').map .program) d = .ok m := by
        simp only [firstModule, List.map_cons, List.head?_cons, hfirst, Except.map]
      cases hlib : stdlibFor tc createLibrary dep with
      | none =>
        refine ⟨m, 1, (q :: qs').length, ?_, fun _ => rfl, ?_⟩
        · simp only [linkStart, hmod, hfirst, Option.isSome_none, Bool.false_eq_true, if_false]
        intro j hj
        have hj := List.mem_range'_1.mp hj
        exact .inl (by omega)
      | some other =>
        refine ⟨m, 1, (q :: qs').length + 1, ?_, by simp, ?_⟩
        · simp only [linkStart, hmod, hfirst, Option.isSome_some, if_true]
        intro j hj
        have hj := List.mem_range'_1.mp hj
        by_cases hlast : j = (q :: qs').length
        · exact .inr ⟨by omega, by simp⟩
        · exact .inl (by omega)
  obtain ⟨programs', m', linked, hrun, hkept⟩ := linkInputs_ok tc (m := m) h hd hrange
  cases linked with
  | false =>
    refine ⟨{ dep with linkedModule := some m' }, programs', num, clBuildProgramFailure, ?_, hkept,
      by simp, rfl, hnum⟩
    simp only [linkDevice, hstart, hrun]
  | true =>
    simp only [linkDevice, hstart, hrun]
    exact ⟨_, programs', num, _, rfl, hkept, by simp, rfl, hnum⟩

/-- At most the last device is linked with the library. -/
def LibraryLast (tc : Toolchain M) (createLibrary : Bool) (devices : List DeviceId) : Prop :=
  createLibrary = true ∨ tc.stdlib = none ∨ ∀ d ∈ devices.dropLast, tc.linkStdLib d = false

theorem stdlibFor_none {createLibrary : Bool} {dep : Dependent M} {i : Nat}
    (h : LibraryLast tc createLibrary devices) (hi : devices[i]? = some dep.device)
    (hlt : i + 1 < devices.length) : stdlibFor tc createLibrary dep = none := by
  rcases h with rfl | hnone | hlast
  · simp [stdlibFor]
  · simp [stdlibFor, hnone]
  · have hmem : dep.device ∈ devices.dropLast := by
      apply List.mem_of_getElem? (i := i)
      rw [List.getElem?_dropLast, if_pos (by omega), hi]
    simp [stdlibFor, hlast _ hmem]

theorem new_entriesFit (hown : OwnEntries devices) : (Program.new : Program M).EntriesFit devices :=
  ⟨fun _ => hown, fun i hi => by simp [new] at hi⟩

/-- An entry of a new program is that of its own device. -/
theorem selected_own {deps : List (Dependent M)} {σ : Type} {A P : Dependent M → Prop}
    {S : Nat → σ → Prop} {T : σ → Prop} {s' : σ} {code n : _} (hown : OwnEntries devices)
    (hdone : LoopDone devices A P S T 0 n ((Program.new : Program M).initDevices
      devices).deviceDependents deps s' code)
    (hn : n = ((Program.new : Program M).initDevices devices).deviceDependents.length)
    (hc : code = clSuccess) : ∀ dep ∈ deps, P dep := by
  intro dep hdep
  obtain ⟨k, hk⟩ := List.getElem?_of_mem hdep
  have hlt : k < ((Program.new : Program M).initDevices devices).deviceDependents.length := by
    have hlen := congrArg List.length hdone.device
    rw [List.length_map, List.length_map] at hlen
    rw [← hlen]
    exact (List.getElem?_eq_some_iff.mp hk).1
  obtain ⟨d, hdev, hself⟩ := (new_entriesFit hown).own rfl hlt
  exact hdone.selected hc k (by omega) (by omega) d hdev k hself dep hk

/-- A new program is linked from programs that have a module for every device. -/
theorem link_new_ok (createLibrary : Bool) (h : InputsKept qs devices programs) (hqs : qs ≠ [])
    (hne : devices ≠ []) (hown : OwnEntries devices)
    (hlast : LibraryLast tc createLibrary devices) :
    ∃ programs' p' code, (Program.new : Program M).link tc programs devices createLibrary
        (qs.map .program) = .ok (programs', p', code) ∧
      (∀ p ∈ programs', p.Sound) ∧ (code = clSuccess → p'.Sound) := by
  have hdeps : ((Program.new : Program M).initDevices devices).deviceDependents.map
      Dependent.device = devices := by
    rw [initDevices_device]
    rfl
  have hlen := congrArg List.length hdeps
  rw [List.length_map] at hlen
  let A : Dependent M → Prop := fun dep => dep.isNativeBinary = false
  let P : Dependent M → Prop := fun dep => dep.linkedModule ≠ none
  let S : Nat → List (Program M) × Nat → Prop := fun i s =>
    InputsKept qs devices s.1 ∧ (i < devices.length → s.2 = qs.length)
  let T : List (Program M) × Nat → Prop := fun s => InputsKept qs devices s.1
  have hbody : ∀ i d dep s k, devices[i]? = some d →
      deviceDependent ((Program.new : Program M).initDevices devices).deviceDependents d = some k →
      (((Program.new : Program M).initDevices devices).deviceDependents.map
        Dependent.device)[k]? = some dep.device → A dep → S i s →
      ∃ dep' s' code, linkDevice tc createLibrary (qs.map .program) i d dep s =
        .ok (dep', s', code) ∧ dep'.device = dep.device ∧ A dep' ∧ T s' ∧
        (code = clSuccess → P dep' ∧ S (i + 1) s') := by
    rintro i d dep ⟨programs, num⟩ k hd hk hdev hA ⟨hkept, hnum⟩
    have hlt := (List.getElem?_eq_some_iff.mp hd).1
    obtain rfl : num = qs.length := hnum hlt
    obtain ⟨dep', programs', num', code, hrun, hkept', hsome, hnative, hgrow⟩ :=
      linkDevice_ok tc createLibrary dep i hkept (List.mem_of_getElem? hd) hqs
    refine ⟨dep', (programs', num'), code, hrun, linkDevice_device hrun, hnative.trans hA, hkept',
      fun _ => ⟨hsome, hkept', ?_⟩⟩
    intro hlt'
    apply hgrow
    -- the entry is that of the device, which is not the last
    have hself : deviceDependent ((Program.new : Program M).initDevices devices).deviceDependents
        d = some i := deviceDependent_own (by rwa [hdeps]) (by rwa [hdeps])
    obtain rfl : k = i := Option.some.inj (hk.symm.trans hself)
    rw [hdeps] at hdev
    exact stdlibFor_none hlast hdev hlt'
  have hA : ∀ dep ∈ ((Program.new : Program M).initDevices devices).deviceDependents, A dep := by
    intro dep hdep
    obtain ⟨d, -, rfl⟩ : ∃ d ∈ devices, _ = dep := by
      simpa [initDevices, setDevices, new] using hdep
    rfl
  have hS : S 0 (programs, qs.length) := ⟨h, fun _ => rfl⟩
  have hT : T (programs, qs.length) := h
  obtain ⟨deps, s', code, hloop, hdone⟩ := forDevices_ok A P S T hbody
    (fun _ _ _ _ _ _ _ => linkDevice_device)
    (fun i (_ : 0 ≤ i) hi => (new_entriesFit hown).listed (by rwa [Nat.zero_add] at hi)) hA
    hS hT
  have hmods := selected_own hown hdone rfl
  have hdeps' : deps ≠ [] := by
    intro hd
    have hdevice := hdone.device
    rw [hd, List.map_nil, hdeps] at hdevice
    exact hne hdevice.symm
  rw [← List.range_eq_range'] at hloop
  have hinit : ({ (Program.new : Program M) with state := .failed }.initDevices
      devices).deviceDependents =
        ((Program.new : Program M).initDevices devices).deviceDependents :=
    rfl
  by_cases hc : code = clSuccess
  · refine ⟨s'.1, { ({ (Program.new : Program M) with state := .failed }.initDevices devices) with
        state := if createLibrary then .compiled else .built
        binaryType := if createLibrary then .library else .executable
        deviceDependents := deps }, code, ?_, hdone.always.1, fun _ => ⟨?_, ?_, ?_⟩⟩
    · simp only [link, hinit, List.length_map, hloop, hc, if_true]
    · cases createLibrary <;> simp
    · exact fun hd => absurd hd hdeps'
    · exact fun _ => hmods hc
  · refine ⟨s'.1, { ({ (Program.new : Program M) with state := .failed }.initDevices devices) with
        deviceDependents := deps }, code, ?_, hdone.always.1, fun hc' => absurd hc' hc⟩
    simp only [link, hinit, List.length_map, hloop, hc, if_false]

end Inputs

theorem loadBinaries_ok (tc : Toolchain M) (data : Nat → List UInt8) (hne : devices ≠ [])
    (hown : OwnEntries devices) :
    ∃ p' code, (Program.new : Program M).loadBinaries tc data devices = .ok (p', code) ∧
      (code = clSuccess → p'.Sound) := by
  have hbody : ∀ i d dep s k, devices[i]? = some d →
      deviceDependent ((Program.new : Program M).initDevices devices).deviceDependents d = some k →
      (((Program.new : Program M).initDevices devices).deviceDependents.map
        Dependent.device)[k]? = some dep.device → True → True →
      ∃ dep' s' code, loadBinary tc data i d dep s = .ok (dep', s', code) ∧
        dep'.device = dep.device ∧ True ∧ True ∧
        (code = clSuccess → dep'.linkedModule ≠ none ∧ True) := by
    intro i d dep s k _ _ _ _ _
    refine ⟨_, (), _, rfl, rfl, trivial, trivial, ?_⟩
    intro hc
    split at hc
    · rename_i hsome
      exact ⟨Option.isSome_iff_ne_none.mp hsome, trivial⟩
    · exact absurd hc (by decide)
  have hdevice : ∀ i d dep s dep' s' code,
      loadBinary tc data i d dep s = .ok (dep', s', code) → dep'.device = dep.device := by
    intro i d dep s dep' s' code hrun
    cases hrun
    rfl
  obtain ⟨deps, ⟨⟩, code, hloop, hdone⟩ := forDevices_ok (s := ()) (fun _ => True)
    (fun dep => dep.linkedModule ≠ none) (fun _ _ => True) (fun _ => True) hbody hdevice
    (fun i (_ : 0 ≤ i) hi => (new_entriesFit hown).listed (by rwa [Nat.zero_add] at hi))
    (fun _ _ => trivial) trivial trivial
  have hmods := selected_own hown hdone rfl
  have hinit : (Program.new : Program M).initDevices devices =
      (Program.new : Program M).setDevices devices := rfl
  have hlen : ((Program.new : Program M).setDevices devices).deviceDependents.length =
      devices.length := by simp [setDevices]
  rw [← List.range_eq_range', hinit, hlen] at hloop
  have hdeps : deps ≠ [] := by
    intro hd
    have hmap := hdone.device
    rw [hd, List.map_nil, initDevices_device] at hmap
    exact hne hmap.symm
  by_cases hc : code = clSuccess
  · refine ⟨{ (Program.new : Program M).setDevices devices with
        deviceDependents := deps
        type := .binary
        state := .loaded
        binaryType := .compiledObject }, code, ?_, fun _ => ⟨by simp, fun hd => absurd hd hdeps,
      fun _ => hmods hc⟩⟩
    simp only [loadBinaries, hloop, hc, if_true]
  · refine ⟨{ (Program.new : Program M).setDevices devices with deviceDependents := deps }, code,
      ?_, fun hc' => absurd hc' hc⟩
    simp only [loadBinaries, hloop, hc, if_false]

end Program

section World

variable {M : Type} {tc : Toolchain M} {w w' : ProgramWorld M} {n : Nat}

/-- What the calls need that are not rejected, and that `clCompileProgram` is not to be rejected
unless the program has kernels. -/
def CallFits (tc : Toolchain M) (w : ProgramWorld M) : ProgramAction M → Prop
  | .createWithBinary isContext numDevices (some device) binaries =>
    w.binaryError isContext numDevices (some device) binaries = clSuccess →
      Program.OwnEntries ((List.range numDevices).map device)
  | .build n args _ _ =>
    (w.validateBuildArgs n args).1 = clSuccess →
      ∀ p ∈ w.programs[n]?, ∀ devices ∈ (w.validateBuildArgs n args).2, p.BuildFits tc devices
  | .compile n args headers _ =>
    ((w.validateBuildArgs n args).1 = clSuccess → ProgramWorld.headersConsistent headers = true →
      (∀ header ∈ headers.inputHeaders, ∀ i < headers.numInputHeaders,
        w.headerFault (header i) = none) ∧
      ∀ p ∈ w.programs[n]?, ∀ devices ∈ (w.validateBuildArgs n args).2, p.CompileFits tc devices) ∧
    ((w.validateBuildArgs n args).1 ≠ clSuccess →
      (w.validateBuildArgs n args).1 = clInvalidOperation ∧
        ∀ p ∈ w.programs[n]?, ∃ k, 0 < k ∧ p.getNumKernels tc = .ok k)
  | .link isContext args createLibrary num input =>
    (w.validateLinkArgs isContext args num input).1 = clSuccess →
      ∀ devices ∈ (w.validateLinkArgs isContext args num input).2,
        Program.OwnEntries devices ∧ Program.LibraryLast tc createLibrary devices ∧
        ∀ q ∈ ProgramWorld.inputs num input, ∀ p ∈ w.programs[q]?, ∀ d ∈ devices,
          (Program.deviceDependent p.deviceDependents d).isSome
  | _ => True

structure WorldSound (w : ProgramWorld M) : Prop where
  context : w.context ≠ []
  fault : ∀ f ∈ w.fault, f = .deletedKernel
  programs : ∀ p ∈ w.programs, p.Sound

theorem WorldSound.programsOk (h : WorldSound w) : ProgramsOk w := by
  refine ⟨h.fault, ?_⟩
  intro p hp hstate dep hdep
  apply (h.programs p hp).complete _ dep hdep
  rcases hstate with hstate | hstate <;> simp [hstate]

theorem WorldSound.set (h : WorldSound w) {p : Program M} (hp : p.Sound) :
    WorldSound { w with programs := w.programs.set n p } := by
  refine ⟨h.context, h.fault, ?_⟩
  intro q hq
  rcases List.mem_or_eq_of_mem_set hq with hq | rfl
  · exact h.programs q hq
  · exact hp

theorem WorldSound.append (h : WorldSound w) {p : Program M} (hp : p.Sound) :
    WorldSound { w with programs := w.programs ++ [p] } := by
  refine ⟨h.context, h.fault, ?_⟩
  intro q hq
  rcases List.mem_append.mp hq with hq | hq
  · exact h.programs q hq
  · rwa [List.mem_singleton.mp hq]

/-- The devices that a valid call goes on with. -/
theorem validateContext_devices {context : List DeviceId} {args : BuildArgs}
    (hc : context ≠ []) (h : (validateContext context args).1 = clSuccess) :
    ∃ devices, (validateContext context args).2 = some devices ∧ devices ≠ [] := by
  by_cases hnum : args.numDevices = 0
  · exact ⟨context, by simp [validateContext, hnum], hc⟩
  · cases hd : args.devices with
    | none =>
      simp only [validateContext, hnum, hd, if_false, Option.any_none, Bool.false_eq_true] at h
      exact absurd h (by decide)
    | some devices =>
      refine ⟨devices, by simp only [validateContext, hnum, hd, if_false]; split <;> rfl, ?_⟩
      rintro rfl
      cases hlist : args.deviceList with
      | none => simp [BuildArgs.devices, hlist, hnum] at hd
      | some device =>
        have hlen : ((List.range args.numDevices).map device).length = 0 := by
          have hd : some ((List.range args.numDevices).map device) = some [] := by
            simpa [BuildArgs.devices, hlist] using hd
          rw [Option.some.inj hd]
          rfl
        simp at hlen
        exact hnum hlen

theorem validateBuildArgs_ok {args : BuildArgs} (hc : w.context ≠ [])
    (h : (w.validateBuildArgs n args).1 = clSuccess) :
    ∃ p devices, w.programs[n]? = some p ∧ (w.validateBuildArgs n args).2 = some devices ∧
      devices ≠ [] ∧ p.state ≠ .failed := by
  simp only [ProgramWorld.validateBuildArgs] at h ⊢
  cases hp : w.programs[n]? with
  | none =>
    simp only [hp] at h
    exact absurd h (by decide)
  | some p =>
    simp only [hp] at h ⊢
    by_cases hcons : args.consistent = true
    · simp only [hcons, Bool.not_true, Bool.false_eq_true, if_false] at h ⊢
      by_cases hctx : (validateContext w.context args).1 = clSuccess
      · obtain ⟨devices, hdev, hne⟩ := validateContext_devices hc hctx
        simp only [hctx, ne_eq, not_true_eq_false, if_false] at h ⊢
        by_cases hstate : p.state = .loaded ∨ p.state = .built ∨ p.state = .compiled
        · refine ⟨p, devices, rfl, by rw [if_pos hstate]; exact hdev, hne, ?_⟩
          rcases hstate with hs | hs | hs <;> simp [hs]
        · rw [if_neg hstate] at h
          exact absurd h (show clInvalidOperation ≠ clSuccess by decide)
      · simp only [ne_eq, hctx, not_false_eq_true, if_true] at h
    · simp only [hcons, Bool.not_false, if_true] at h
      exact absurd h (by decide)

/-- Only the state of the program is answered with this code. -/
theorem validateBuildArgs_invalidOperation {args : BuildArgs} (hc : w.context ≠ [])
    (h : (w.validateBuildArgs n args).1 = clInvalidOperation) :
    ∃ p devices, w.programs[n]? = some p ∧ (w.validateBuildArgs n args).2 = some devices ∧
      ¬(p.state = .loaded ∨ p.state = .built ∨ p.state = .compiled) := by
  simp only [ProgramWorld.validateBuildArgs] at h ⊢
  cases hp : w.programs[n]? with
  | none =>
    simp only [hp] at h
    exact absurd h (by decide)
  | some p =>
    simp only [hp] at h ⊢
    by_cases hcons : args.consistent = true
    · simp only [hcons, Bool.not_true, Bool.false_eq_true, if_false] at h ⊢
      by_cases hctx : (validateContext w.context args).1 = clSuccess
      · obtain ⟨devices, hdev, -⟩ := validateContext_devices hc hctx
        simp only [hctx, ne_eq, not_true_eq_false, if_false] at h ⊢
        by_cases hstate : p.state = .loaded ∨ p.state = .built ∨ p.state = .compiled
        · rw [if_pos hstate] at h
          exact absurd h (show clSuccess ≠ clInvalidOperation by decide)
        · exact ⟨p, devices, rfl, by rw [if_neg hstate]; exact hdev, hstate⟩
      · simp only [ne_eq, hctx, not_false_eq_true, if_true] at h
        simp only [validateContext] at h
        split at h
        · exact absurd h (show clSuccess ≠ clInvalidOperation by decide)
        · split at h
          · exact absurd h (show clSuccess ≠ clInvalidOperation by decide)
          · exact absurd h (show clInvalidDevice ≠ clInvalidOperation by decide)
    · simp only [hcons, Bool.not_false, if_true] at h
      exact absurd h (by decide)

/-- A program that failed and has kernels is not compiled. -/
theorem clCompileProgram_rejects {args : BuildArgs} {headers : HeaderArgs}
    {outcome : Nat → Compilation M} (h : WorldSound w)
    (hcode : (w.validateBuildArgs n args).1 = clInvalidOperation)
    (hkernels : ∀ p ∈ w.programs[n]?, ∃ k, 0 < k ∧ p.getNumKernels tc = .ok k) :
    w.clCompileProgram tc n args headers outcome = .ok (w, clInvalidOperation) := by
  obtain ⟨p, devices, hp, hdev, hstate⟩ := validateBuildArgs_invalidOperation h.context hcode
  obtain ⟨k, hpos, hk⟩ := hkernels p hp
  have hfailed : p.state = .failed := by
    have hempty := (h.programs p (List.mem_of_getElem? hp)).state
    cases hs : p.state <;> simp_all
  have hself : { p with state := .failed } = p := by rw [← hfailed]
  have hset : w.programs.set n p = w.programs := by
    obtain ⟨hlt, heq⟩ := List.getElem?_eq_some_iff.mp hp
    rw [← heq]
    exact List.set_getElem_self _
  have hvalid : w.validateBuildArgs n args = (clInvalidOperation, some devices) :=
    Prod.ext hcode hdev
  have hne : ¬(clInvalidOperation = clSuccess) := by decide
  simp only [ProgramWorld.clCompileProgram, hvalid, hp, hne, false_and, if_false, Program.compile,
    hk, hpos, if_true, hself, hset]

/-- A guarded call that is rejected does nothing. -/
theorem rejects_of_callFits {a : ProgramAction M} (h : WorldSound w) (hg : CallFits tc w a) :
    Rejects tc w a := by
  intro herr
  cases a with
  | createWithSource isContext strings noNull =>
    simp only [argumentError] at herr
    simp only [programCall, ProgramWorld.clCreateProgramWithSource, herr, if_false, argumentError]
  | createWithBinary isContext numDevices deviceList binaries =>
    simp only [argumentError] at herr
    simp only [programCall, ProgramWorld.clCreateProgramWithBinary, herr, if_false, argumentError]
  | build n args createLibrary outcome =>
    simp only [argumentError] at herr
    simp only [programCall, ProgramWorld.clBuildProgram, herr, if_false, argumentError]
  | compile n args headers outcome =>
    simp only [argumentError] at herr ⊢
    by_cases hbad : (w.validateBuildArgs n args).1 = clSuccess ∧
        ProgramWorld.headersConsistent headers = false
    · rw [if_pos hbad]
      simp only [programCall, ProgramWorld.clCompileProgram, hbad, and_self, if_true]
    · rw [if_neg hbad] at herr ⊢
      obtain ⟨hcode, hkernels⟩ := hg.2 herr
      rw [hcode]
      exact clCompileProgram_rejects h hcode hkernels
  | link isContext args createLibrary num input =>
    simp only [argumentError] at herr
    simp only [programCall, ProgramWorld.clLinkProgram, herr, if_false, argumentError]
  | createKernel n name addFunction =>
    cases name with
    | none => rfl
    | some name =>
      have herr : w.kernelError n ≠ clSuccess := herr
      simp only [programCall, ProgramWorld.clCreateKernel, herr, if_false]
      rfl
  | createKernelsInProgram n array numKernels addFunction =>
    have herr : w.kernelError n ≠ clSuccess := herr
    simp only [programCall, ProgramWorld.clCreateKernelsInProgram, herr, if_false]
    rfl

theorem worldSound_build {args : BuildArgs} {createLibrary : Bool} {outcome : Nat → Compilation M}
    (h : WorldSound w) (hg : CallFits tc w (.build n args createLibrary outcome))
    (hcode : (w.validateBuildArgs n args).1 = clSuccess) :
    ∃ w' code, w.clBuildProgram tc n args createLibrary outcome = .ok (w', code) ∧
      WorldSound w' ∧ w'.fault = w.fault := by
  obtain ⟨p, devices, hp, hdev, hne, hstate⟩ := validateBuildArgs_ok h.context hcode
  have hsound := h.programs p (List.mem_of_getElem? hp)
  obtain ⟨p', code, hbuild, hattempt⟩ := Program.build_ok w.programs createLibrary
    (hsound.complete hstate) hsound.source hne (hg hcode p hp devices hdev) outcome
  have hvalid : w.validateBuildArgs n args = (clSuccess, some devices) := Prod.ext hcode hdev
  refine ⟨{ w with programs := w.programs.set n p' }, code, ?_,
    h.set (hattempt.sound hsound.source), rfl⟩
  simp only [ProgramWorld.clBuildProgram, hvalid, hp, if_true, hbuild]

theorem storeInputHeaders_ok {headers : HeaderArgs}
    (hcons : ProgramWorld.headersConsistent headers = true)
    (hg : ∀ header ∈ headers.inputHeaders, ∀ i < headers.numInputHeaders,
      w.headerFault (header i) = none) :
    ∃ stored, w.storeInputHeaders headers = .ok stored := by
  by_cases hnum : headers.numInputHeaders = 0
  · exact ⟨true, by simp [ProgramWorld.storeInputHeaders, hnum]⟩
  · have hpos : 0 < headers.numInputHeaders := by omega
    cases hnames : headers.headerIncludeNames with
    | false => simp [ProgramWorld.headersConsistent, hnum, hpos, hnames] at hcons
    | true =>
      cases hinput : headers.inputHeaders with
      | none => simp [ProgramWorld.headersConsistent, hnum, hpos, hnames, hinput] at hcons
      | some header =>
        have hnone : ((List.range headers.numInputHeaders).map header).findSome? w.headerFault =
            none := by
          rw [List.findSome?_eq_none_iff]
          intro q hq
          obtain ⟨i, hi, rfl⟩ := List.mem_map.mp hq
          exact hg header hinput i (List.mem_range.mp hi)
        exact ⟨headers.written, by
          simp only [ProgramWorld.storeInputHeaders, hnum, if_false, hnames, hinput, hnone]⟩

theorem worldSound_compile {args : BuildArgs} {headers : HeaderArgs}
    {outcome : Nat → Compilation M} (h : WorldSound w)
    (hg : CallFits tc w (.compile n args headers outcome))
    (hcode : (w.validateBuildArgs n args).1 = clSuccess)
    (hcons : ProgramWorld.headersConsistent headers = true) :
    ∃ w' code, w.clCompileProgram tc n args headers outcome = .ok (w', code) ∧
      WorldSound w' ∧ w'.fault = w.fault := by
  obtain ⟨p, devices, hp, hdev, hne, hstate⟩ := validateBuildArgs_ok h.context hcode
  have hsound := h.programs p (List.mem_of_getElem? hp)
  obtain ⟨hheaders, hfits⟩ := hg.1 hcode hcons
  obtain ⟨stored, hstored⟩ := storeInputHeaders_ok hcons hheaders
  obtain ⟨p', code, hcompile, hattempt, -⟩ := Program.compile_ok stored (hsound.complete hstate)
    hsound.source hne (hfits p hp devices hdev) outcome
  have hvalid : w.validateBuildArgs n args = (clSuccess, some devices) := Prod.ext hcode hdev
  refine ⟨{ w with programs := w.programs.set n p' }, code, ?_,
    h.set (hattempt.sound hsound.source), rfl⟩
  simp only [ProgramWorld.clCompileProgram, hvalid, hp, hcons, Bool.true_eq_false, and_false,
    if_false, hstored, hcompile]

theorem validateLinkArgs_ok {isContext : Bool} {args : BuildArgs} {num : Nat}
    {input : Option (Nat → Nat)} (hc : w.context ≠ [])
    (h : (w.validateLinkArgs isContext args num input).1 = clSuccess) :
    ∃ devices, (w.validateLinkArgs isContext args num input).2 = some devices ∧ devices ≠ [] ∧
      ProgramWorld.inputs num input ≠ [] ∧
      ∀ q ∈ ProgramWorld.inputs num input, w.inputError q = none := by
  simp only [ProgramWorld.validateLinkArgs] at h ⊢
  cases input with
  | none => exact absurd h (show clInvalidValue ≠ clSuccess by decide)
  | some input =>
    simp only at h ⊢
    split at h
    · exact absurd h (show clInvalidValue ≠ clSuccess by decide)
    · rename_i hnum
      split at h
      · exact absurd h (show clInvalidValue ≠ clSuccess by decide)
      · rename_i hcons
        split at h
        · exact absurd h (show clInvalidContext ≠ clSuccess by decide)
        · rename_i hctx
          by_cases hval : (validateContext w.context args).1 = clSuccess
          · obtain ⟨devices, hdev, hne⟩ := validateContext_devices hc hval
            simp only [hval, ne_eq, not_true_eq_false, if_false] at h
            cases hfind : ((List.range num).map input).findSome? w.inputError with
            | some code =>
              rw [hfind] at h
              obtain ⟨q, -, hq⟩ := List.exists_of_findSome?_eq_some hfind
              simp only [ProgramWorld.inputError] at hq
              exfalso
              have h : code = clSuccess := h
              subst h
              split at hq
              · exact absurd (Option.some.inj hq) (by decide)
              · split at hq
                · cases hq
                · exact absurd (Option.some.inj hq) (by decide)
            | none =>
              refine ⟨devices, ?_, hne, ?_, ?_⟩
              · simp only [hnum, hcons, hctx, hval, ne_eq, not_true_eq_false, if_false,
                  Bool.false_eq_true, hdev]
              · simp [ProgramWorld.inputs, hnum]
              · exact fun q hq => List.findSome?_eq_none_iff.mp hfind q hq
          · simp only [ne_eq, hval, not_false_eq_true, if_true] at h

theorem worldSound_link {isContext : Bool} {args : BuildArgs} {createLibrary : Bool} {num : Nat}
    {input : Option (Nat → Nat)} (h : WorldSound w)
    (hg : CallFits tc w (.link isContext args createLibrary num input))
    (hcode : (w.validateLinkArgs isContext args num input).1 = clSuccess) :
    ∃ w' code, w.clLinkProgram tc isContext args createLibrary num input = .ok (w', code) ∧
      WorldSound w' ∧ w'.fault = w.fault := by
  obtain ⟨devices, hdev, hne, hqs, hinputs⟩ := validateLinkArgs_ok h.context hcode
  obtain ⟨hown, hlast, hlookup⟩ := hg hcode devices hdev
  have hready : Program.InputsReady w.programs (ProgramWorld.inputs num input) devices := by
    intro q hq
    have hnone := hinputs q hq
    simp only [ProgramWorld.inputError] at hnone
    cases hp : w.programs[q]? with
    | none => simp [hp] at hnone
    | some p =>
      refine ⟨p, rfl, (h.programs p (List.mem_of_getElem? hp)).complete ?_, hlookup q hq p hp⟩
      intro hstate
      simp [hp, hstate] at hnone
  obtain ⟨programs', p', code, hlink, hsound, hnew⟩ := Program.link_new_ok
    createLibrary ⟨h.programs, hready⟩ hqs hne hown hlast
  have hvalid : w.validateLinkArgs isContext args num input = (clSuccess, some devices) :=
    Prod.ext hcode hdev
  have hw : WorldSound { w with programs := programs' } := ⟨h.context, h.fault, hsound⟩
  by_cases hc : code = clSuccess
  · refine ⟨{ w with programs := programs' ++ [p'] }, code, ?_, hw.append (hnew hc), rfl⟩
    simp only [ProgramWorld.clLinkProgram, hvalid, if_true, hlink, hc]
  · refine ⟨{ w with programs := programs' }, code, ?_, hw, rfl⟩
    simp only [ProgramWorld.clLinkProgram, hvalid, if_true, hlink, hc, if_false]

/-- The devices of a valid call are distinct devices of the context: the copy has room for them. -/
theorem length_le_context {devices : List DeviceId} (hown : Program.OwnEntries devices)
    (hsub : devices ⊆ w.context) : devices.length ≤ w.context.length := by
  have hnodup : devices.Nodup := by
    refine hown.imp ?_
    rintro d d' hfalse rfl
    rw [Program.match_self] at hfalse
    cases hfalse
  exact (hnodup.subperm hsub).length_le

theorem worldSound_createWithBinary {isContext : Bool} {numDevices : Nat}
    {deviceList : Option (Nat → DeviceId)} {binaries : Option (Nat → List UInt8)}
    (h : WorldSound w)
    (hg : CallFits tc w (.createWithBinary isContext numDevices deviceList binaries))
    (hcode : w.binaryError isContext numDevices deviceList binaries = clSuccess) :
    ∃ w' code, w.clCreateProgramWithBinary tc isContext numDevices deviceList binaries =
        .ok (w', code) ∧
      WorldSound w' ∧ w'.fault = w.fault := by
  have hcode' := hcode
  simp only [ProgramWorld.binaryError] at hcode'
  split at hcode'
  · exact absurd hcode' (by decide)
  · split at hcode'
    · rename_i device binary
      split at hcode'
      · exact absurd hcode' (by decide)
      · rename_i hnum
        have hown := hg hcode
        have hsub : (List.range numDevices).map device ⊆ w.context := by
          intro d hd
          obtain ⟨i, hi, rfl⟩ := List.mem_map.mp hd
          cases hfind : (List.range numDevices).findSome? (w.deviceError device binary) with
          | none =>
            have hnone := List.findSome?_eq_none_iff.mp hfind i hi
            simp only [ProgramWorld.deviceError] at hnone
            split at hnone
            · cases hnone
            · split at hnone
              · assumption
              · cases hnone
          | some code =>
            rw [hfind] at hcode'
            obtain ⟨j, -, hj⟩ := List.exists_of_findSome?_eq_some hfind
            have hc : code = clSuccess := hcode'
            subst hc
            simp only [ProgramWorld.deviceError] at hj
            split at hj
            · exact absurd (Option.some.inj hj) (by decide)
            · split at hj
              · cases hj
              · exact absurd (Option.some.inj hj) (by decide)
        have hroom := length_le_context hown hsub
        rw [List.length_map, List.length_range] at hroom
        obtain ⟨p, code, hload, hsound⟩ := Program.loadBinaries_ok tc binary
          (by simpa using hnum) hown
        by_cases hc : code = clSuccess
        · refine ⟨{ w with programs := w.programs ++ [p] }, code, ?_, h.append (hsound hc), rfl⟩
          simp only [ProgramWorld.clCreateProgramWithBinary, hcode, if_true, Nat.not_lt.mpr hroom,
            if_false, hload, hc]
        · refine ⟨w, code, ?_, h, rfl⟩
          simp only [ProgramWorld.clCreateProgramWithBinary, hcode, if_true, Nat.not_lt.mpr hroom,
            if_false, hload, hc]
    · exact absurd hcode' (by decide)

/-- The modules that the creation of kernels reads are there. -/
theorem worldSound_withKernels {addFunction : Nat → String → Bool}
    {call : KernelTable → KernelLists → Except Fault (KernelLists × Int)} (h : WorldSound w)
    (hcode : w.kernelError n = clSuccess)
    (hcall : ∀ table l f, table.Complete → call table l = .error f → f = .deletedKernel) :
    (∃ w' code, w.withKernels tc n addFunction call = .ok (w', code) ∧ WorldSound w' ∧
      w'.fault = w.fault) ∨ w.withKernels tc n addFunction call = .error .deletedKernel := by
  simp only [ProgramWorld.kernelError] at hcode
  cases hp : w.programs[n]? with
  | none =>
    simp only [hp] at hcode
    exact absurd hcode (by decide)
  | some p =>
    simp only [hp] at hcode
    split at hcode
    · rename_i hbuilt
      have hsound := h.programs p (List.mem_of_getElem? hp)
      have hm := hsound.complete (by simp [hbuilt])
      cases hd : p.deviceDependents with
      | nil => exact .inl ⟨w, clSuccess, by simp [ProgramWorld.withKernels, hp, hd], h, rfl⟩
      | cons dep deps =>
        have htable : (p.table tc addFunction).Complete := by
          intro names hnames
          simp only [Program.table, hd, List.head?_cons, Option.bind_some, List.tail_cons] at hnames
          have hmap : ∀ dep' ∈ dep :: deps,
              dep'.linkedModule.map (Program.kernelFunctions tc) ≠ none := by
            intro dep' hdep'
            simpa using hm dep' (by rwa [hd])
          rcases List.mem_cons.mp hnames with rfl | hnames
          · exact hmap dep List.mem_cons_self
          · obtain ⟨dep', hdep', rfl⟩ := List.mem_map.mp hnames
            exact hmap dep' (List.mem_cons_of_mem _ hdep')
        cases hrun : call (p.table tc addFunction) p.kernels with
        | error f =>
          obtain rfl := hcall _ _ _ htable hrun
          exact .inr (by simp [ProgramWorld.withKernels, hp, hd, hrun])
        | ok r =>
          refine .inl ⟨{ w with programs := w.programs.set n { p with kernels := r.1 } }, r.2, ?_,
            h.set ⟨hsound.state, hsound.source, hsound.complete⟩, rfl⟩
          simp [ProgramWorld.withKernels, hp, hd, hrun]
    · exact absurd hcode (by decide)

/-- A guarded call returns, unless it uses a kernel object that has been deleted. -/
theorem worldSound_call {a : ProgramAction M} (h : WorldSound w) (hg : CallFits tc w a) :
    (∃ w' code, programCall tc w a = .ok (w', code) ∧ WorldSound w' ∧ w'.fault = w.fault) ∨
      programCall tc w a = .error .deletedKernel := by
  by_cases herr : argumentError w a = clSuccess
  · cases a with
    | createWithSource isContext strings noNull =>
      refine .inl ⟨{ w with programs := w.programs ++ [Program.new.loadSources] }, clSuccess, ?_,
        h.append ⟨?_, fun _ => rfl, ?_⟩, rfl⟩
      · simp only [argumentError] at herr
        simp only [programCall, ProgramWorld.clCreateProgramWithSource, herr, if_true]
      · simp [Program.loadSources]
      · intro _ dep hdep
        simp [Program.loadSources, Program.new] at hdep
    | createWithBinary isContext numDevices deviceList binaries =>
      exact .inl (worldSound_createWithBinary h hg herr)
    | build n args createLibrary outcome => exact .inl (worldSound_build h hg herr)
    | compile n args headers outcome =>
      simp only [argumentError] at herr
      split at herr
      · exact absurd herr (by decide)
      · rename_i hbad
        refine .inl (worldSound_compile h hg herr ?_)
        by_contra hcons
        exact hbad ⟨herr, by simpa using hcons⟩
    | link isContext args createLibrary num input => exact .inl (worldSound_link h hg herr)
    | createKernel n name addFunction =>
      cases name with
      | none => exact absurd herr (show clInvalidValue ≠ clSuccess by decide)
      | some name =>
        have herr : w.kernelError n = clSuccess := herr
        simp only [programCall, ProgramWorld.clCreateKernel, herr, if_true]
        exact worldSound_withKernels h herr fun _ _ _ ht => clCreateKernel_fault ht
    | createKernelsInProgram n array numKernels addFunction =>
      have herr : w.kernelError n = clSuccess := herr
      simp only [programCall, ProgramWorld.clCreateKernelsInProgram, herr, if_true]
      exact worldSound_withKernels h herr fun _ _ _ ht => clCreateKernelsInProgram_fault ht
  · exact .inl ⟨w, argumentError w a, rejects_of_callFits h hg herr, h, rfl⟩

theorem worldSound_step {a : ProgramAction M} (h : WorldSound w) (hg : CallFits tc w a)
    (hstep : programStep tc w a = some w') : WorldSound w' := by
  simp only [programStep] at hstep
  split at hstep
  · cases hstep
  · rcases worldSound_call h hg with ⟨w'', code, hcall, hw, -⟩ | hcall
    · rw [hcall] at hstep
      cases hstep
      exact hw
    · rw [hcall] at hstep
      cases hstep
      refine ⟨h.context, ?_, h.programs⟩
      intro f hf
      exact (Option.some.inj hf).symm

/-- As long as the calls fit the programs, every module is there where one is needed, and a call
that is rejected does nothing. -/
theorem programs_stay_ok (h : Reachable ((programSystem tc).restrict (CallFits tc)) w) :
    ProgramsOk w ∧ ∀ a, CallFits tc w a → Rejects tc w a := by
  suffices hw : WorldSound w from ⟨hw.programsOk, fun a hg => rejects_of_callFits hw hg⟩
  apply h.invariant
  · rintro s ⟨hc, hp, hf⟩
    exact ⟨hc, by simp [hf], by simp [hp]⟩
  · intro s a t _ hs ht
    exact worldSound_step hs ht.2 ht.1

end World

section Runs

/-- Modules that only differ in whether they have the kernel `add`; the library has none. -/
def addToolchain : Toolchain Bool where
  operands m := if m then [some "add"] else []
  stdlib := some false
  linkStdLib _ := true
  link m other := (m, other, true)
  linkSelf m := (m, true)
  optimize _ _ m := m
  build _ _ binary := (binary, true)
  writeBitcode m := [if m then 1 else 0]
  parseBitcode binary :=
    if binary = [1] then some true else if binary = [0] then some false else none
  extractMixedBinary _ _ := none

/-- The arguments of a call for all devices of the context. -/
def allDevices : BuildArgs where
  numDevices := 0
  deviceList := none
  pfnNotify := false
  userData := false

/-- A program with one kernel is built for the one device. -/
theorem built_program_ok : ∃ w : ProgramWorld Bool,
    (w.programs.map Program.state = [.built]) ∧ ProgramsOk w ∧
      ∀ a, CallFits addToolchain w a → Rejects addToolchain w a := by
  have hsource : Reachable ((programSystem addToolchain).restrict (CallFits addToolchain))
      ⟨[.root 0], [Program.new.loadSources], none⟩ := by
    have hempty : Reachable ((programSystem addToolchain).restrict (CallFits addToolchain))
        ⟨[.root 0], [], none⟩ := .initial ⟨by simp, rfl, rfl⟩
    have hstep : programStep addToolchain ⟨[.root 0], [], none⟩ (.createWithSource true true true) =
        some ⟨[.root 0], [Program.new.loadSources], none⟩ := rfl
    exact .step hempty ⟨hstep, trivial⟩
  have hguard : CallFits addToolchain ⟨[.root 0], [Program.new.loadSources], none⟩
      (.build 0 allDevices false fun _ => ⟨false, .compiled true⟩) := by
    intro _ p hp devices hdev _
    obtain rfl : [DeviceId.root 0] = devices := Option.some.inj hdev
    obtain rfl : Program.new.loadSources = p := Option.some.inj hp
    exact ⟨fun _ => by decide, fun i hi => absurd hi (Nat.not_lt_zero i)⟩
  cases hstep : programStep addToolchain ⟨[.root 0], [Program.new.loadSources], none⟩
      (.build 0 allDevices false fun _ => ⟨false, .compiled true⟩) with
  | none => cases hstep
  | some w =>
    refine ⟨w, ?_, programs_stay_ok (.step hsource ⟨hstep, hguard⟩)⟩
    have hstate : (programStep addToolchain ⟨[.root 0], [Program.new.loadSources], none⟩
        (.build 0 allDevices false fun _ => ⟨false, .compiled true⟩)).map
          (fun w => w.programs.map Program.state) = some [.built] := by decide +kernel
    rw [hstep] at hstate
    exact Option.some.inj hstate

theorem exists_program_run {M : Type} (tc : Toolchain M) (context : List DeviceId)
    (hc : context ≠ []) (as : List (ProgramAction M)) (c : ProgramWorld M → Bool)
    (h : (exec (programStep tc) ⟨context, [], none⟩ as).map c = some true) :
    ∃ w, Reachable (programSystem tc) w ∧ c w = true :=
  exists_exec ⟨hc, rfl, rfl⟩ as c h

/-- A program whose build has failed is compiled again, and its missing module is read. -/
theorem failed_program_compiled : ¬ ∀ (M : Type) (tc : Toolchain M) (w : ProgramWorld M),
    Reachable (programSystem tc) w → ProgramsOk w ∧ ∀ a, Rejects tc w a := by
  intro hall
  obtain ⟨w, hr, hc⟩ := exists_program_run addToolchain [.root 0] (by simp)
    [.createWithSource true true true, .build 0 allDevices false fun _ => ⟨false, .failed⟩,
      .compile 0 allDevices ⟨0, none, false, true⟩ fun _ => ⟨false, .failed⟩]
    (fun w => w.fault = some .nullModule) (by decide +kernel)
  have hfault := (hall Bool addToolchain w hr).1.fault .nullModule (by simpa using hc)
  cases hfault

end Runs

end Shamrock.Runtime
