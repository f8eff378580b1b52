import Shamrock.Runtime.ProgramState

/-!
# Programs from binaries

`CL_PROGRAM_BINARIES` of a built program, and the program that is made of them.
-/
namespace Shamrock.Runtime

variable {M : Type}

namespace Program

/-- The binary of an entry is written when it is asked for, if there is none. -/
def fillBinary (tc : Toolchain M) (dep : Dependent M) : Except Fault (Dependent M) :=
  if dep.unlinkedBinary = [] then
    match dep.linkedModule with
    | none => .error .nullModule
    | some m => .ok { dep with unlinkedBinary := tc.writeBitcode m }
  else .ok dep

/-- The entries after the loop of `CL_PROGRAM_BINARIES`, where no destination is null. -/
def infoBinaries (tc : Toolchain M) : List (Dependent M) → Except Fault (List (Dependent M))
  | [] => .ok []
  | dep :: deps =>
    match fillBinary tc dep with
    | .error f => .error f
    | .ok dep =>
      match infoBinaries tc deps with
      | .error f => .error f
      | .ok deps => .ok (dep :: deps)

/-- `device_list[i]` for the devices of the entries. -/
def deviceAt (p : Program M) (i : Nat) : DeviceId :=
  (p.deviceDependents.map Dependent.device).getD i (.root 0)

/-- What `getKernelNames` says of an entry. -/
def kernelNames (tc : Toolchain M) (dep : Dependent M) : List String :=
  dep.linkedModule.elim [] (kernelFunctions tc)

/-- The programs have the same kernels for each device. -/
def SameKernels (tc : Toolchain M) (q p : Program M) : Prop :=
  q.deviceDependents.map Dependent.device = p.deviceDependents.map Dependent.device ∧
    ∀ i : Nat, ∀ dep ∈ q.deviceDependents[i]?, ∀ dep' ∈ p.deviceDependents[i]?,
      ∀ name, name ∈ kernelNames tc dep ↔ name ∈ kernelNames tc dep'

end Program

/-- `clGetProgramInfo` for `CL_PROGRAM_BINARIES`. -/
def ProgramWorld.clGetProgramBinaries (tc : Toolchain M) (w : ProgramWorld M) (n : Nat) :
    Except Fault (ProgramWorld M × List (List UInt8)) :=
  match w.programs[n]? with
  | none => .error .notAProgram
  | some p =>
    match Program.infoBinaries tc p.deviceDependents with
    | .error f => .error f
    | .ok deps =>
      .ok ({ w with programs := w.programs.set n { p with deviceDependents := deps } },
        deps.map Dependent.unlinkedBinary)

/-- A program is made of the binaries of program `n` for the same devices, and built; it is then
built and has the same kernels. -/
def RoundTrips (tc : Toolchain M) (w : ProgramWorld M) (n : Nat) (createLibrary : Bool)
    (outcome : Nat → Compilation M) : Prop :=
  ∃ p w₁ binaries w₂ w₃ q, w.programs[n]? = some p ∧
    w.clGetProgramBinaries tc n = .ok (w₁, binaries) ∧
    w₁.clCreateProgramWithBinary tc true p.deviceDependents.length (some p.deviceAt)
      (some fun i => binaries.getD i []) = .ok (w₂, clSuccess) ∧
    w₂.clBuildProgram tc w₁.programs.length
      ⟨p.deviceDependents.length, some p.deviceAt, false, false⟩ createLibrary outcome =
        .ok (w₃, clSuccess) ∧
    w₃.programs[w₁.programs.length]? = some q ∧ q.state = .built ∧ q.SameKernels tc p

/-- The parser undoes the writer, the passes keep the kernels, and the devices accept every module
and keep the bitcode: as it is, or inside a native binary, in which case they do without the
library. -/
structure FaithfulToolchain (tc : Toolchain M) : Prop where
  parse : ∀ m, tc.parseBitcode (tc.writeBitcode m) = some m
  written : ∀ m, tc.writeBitcode m ≠ []
  passes : ∀ device optimize m, tc.operands (tc.optimize device optimize m) = tc.operands m
  accepts : ∀ device m binary, (tc.build device m binary).2 = true
  keeps : ∀ device m m₀, ∀ binary, (tc.build device m (tc.writeBitcode m₀)).1 = binary →
    tc.extractMixedBinary device binary = none ∧ binary = tc.writeBitcode m₀ ∨
    tc.extractMixedBinary device binary = some (tc.writeBitcode m₀) ∧ binary ≠ [] ∧
      tc.linkStdLib device = false

namespace Program

variable {tc : Toolchain M} {p p' q : Program M} {devices : List DeviceId} {n : Nat}
  {deps deps' : List (Dependent M)} {programs programs' : List (Program M)}
  {createLibrary : Bool} {outcome : Nat → Compilation M}

/-- The module of a program that is linked with the library, or else with itself. -/
def selfLinked (tc : Toolchain M) (stdlib : Option M) (m : M) : M × Bool :=
  match stdlib with
  | some other => ((tc.link m other).1, (tc.link m other).2.2)
  | none => tc.linkSelf m

/-- The entry that is made of it. -/
def selfBuilt (tc : Toolchain M) (createLibrary : Bool) (dep : Dependent M) (m : M) :
    Dependent M :=
  let m := (selfLinked tc (stdlibFor tc createLibrary dep) m).1
  let m := if !dep.isNativeBinary && !createLibrary then tc.optimize dep.device dep.optimize m
    else m
  { dep with
    linkedModule := some m
    unlinkedBinary := (tc.build dep.device m dep.unlinkedBinary).1 }

theorem linkDevice_selfBuilt {dep : Dependent M} {m : M} (ht : FaithfulToolchain tc)
    (hmod : dep.linkedModule = some m)
    (hlink : (selfLinked tc (stdlibFor tc createLibrary dep) m).2 = true) (i : Nat)
    (d : DeviceId) :
    linkDevice tc createLibrary [.self] i d dep (programs, 1) =
      .ok (selfBuilt tc createLibrary dep m, (programs, 1), clSuccess) := by
  have hone : linkInputs tc [.self] d (stdlibFor tc createLibrary dep) 1
      (List.range' 0 (1 - 0)) programs m =
        .ok (programs, (selfLinked tc (stdlibFor tc createLibrary dep) m).1, true) := by
    simp only [Nat.sub_zero, List.range'_one, linkInputs, Nat.zero_add, if_true]
    cases hlib : stdlibFor tc createLibrary dep with
    | none =>
      rcases hrun : tc.linkSelf m with ⟨m', _ | _⟩
      · simp [selfLinked, hlib, hrun] at hlink
      · simp [selfLinked, hrun]
    | some other =>
      rcases hrun : tc.link m other with ⟨m', other', _ | _⟩
      · simp [selfLinked, hlib, hrun] at hlink
      · simp [selfLinked, hrun]
  simp only [linkDevice, linkStart, hmod, hone, ht.accepts, if_true]
  rfl

theorem linkDevice_selfBuilt_inv {dep dep' : Dependent M} {m : M} {i : Nat} {d : DeviceId}
    {s' : List (Program M) × Nat} (ht : FaithfulToolchain tc) (hmod : dep.linkedModule = some m)
    (h : linkDevice tc createLibrary [.self] i d dep (programs, 1) = .ok (dep', s', clSuccess)) :
    (selfLinked tc (stdlibFor tc createLibrary dep) m).2 = true ∧
      dep' = selfBuilt tc createLibrary dep m := by
  have hlink : (selfLinked tc (stdlibFor tc createLibrary dep) m).2 = true := by
    by_contra hfail
    simp only [linkDevice, linkStart, hmod, Nat.sub_zero, List.range'_one, linkInputs,
      Nat.zero_add, if_true] at h
    cases hlib : stdlibFor tc createLibrary dep with
    | none =>
      rcases hrun : tc.linkSelf m with ⟨m', _ | _⟩
      · simp only [hlib, List.getElem?_cons_zero, hrun] at h
        exact absurd (Prod.mk.inj (Prod.mk.inj (Except.ok.inj h)).2).2 (by decide)
      · simp [selfLinked, hlib, hrun] at hfail
    | some other =>
      rcases hrun : tc.link m other with ⟨m', other', _ | _⟩
      · simp only [hlib, hrun] at h
        exact absurd (Prod.mk.inj (Prod.mk.inj (Except.ok.inj h)).2).2 (by decide)
      · simp [selfLinked, hlib, hrun] at hfail
  refine ⟨hlink, ?_⟩
  rw [linkDevice_selfBuilt ht hmod hlink] at h
  exact (Prod.mk.inj (Except.ok.inj h)).1.symm

theorem compileDevice_device {i : Nat} {d : DeviceId} {dep dep' : Dependent M} {s s' : Unit}
    {code : Int} (h : compileDevice tc outcome i d dep s = .ok (dep', s', code)) :
    dep'.device = dep.device := by
  obtain ⟨dep₁, code₁, hrun, hdevice, -⟩ := compileDevice_ok tc outcome i d dep s
  rw [hrun] at h
  cases h
  exact hdevice

/-- The two loops of a first build that succeeds. -/
theorem build_new_inv (hsource : p.type = .source) (hnew : p.deviceDependents = [])
    (hne : devices ≠ [])
    (h : p.build tc programs devices createLibrary outcome = .ok (programs', p', clSuccess)) :
    ∃ deps s, forDevices devices (compileDevice tc outcome) (List.range' 0 devices.length)
        (p.setDevices devices).deviceDependents () = .ok (deps, (), clSuccess) ∧
      deps.map Dependent.device = devices ∧
      forDevices devices (linkDevice tc createLibrary [.self]) (List.range' 0 devices.length) deps
        (programs, 1) = .ok (p'.deviceDependents, s, clSuccess) ∧
      p'.state = if createLibrary then .compiled else .built := by
  have hinit : { p with state := .failed }.initDevices devices =
      { p with state := .failed }.setDevices devices := by simp [initDevices, hnew]
  have hkernels : p.getNumKernels tc = .ok 0 := by simp [getNumKernels, hnew]
  have hlen : ({ p with state := .failed }.setDevices devices).deviceDependents.length =
      devices.length := by simp [setDevices]
  have htype : ({ p with state := .failed }.setDevices devices).type = .source := hsource
  simp only [build, compile, hkernels, Nat.lt_irrefl, if_false, hinit, htype, if_true, hlen,
    List.range_eq_range'] at h
  split at h
  · cases h
  · rename_i q code hcompile
    split at hcompile
    · cases hcompile
    · rename_i deps s code' hloop
      split at hcompile
      · rename_i hc
        subst hc
        cases hcompile
        obtain ⟨hdevice, -⟩ := forDevices_frame (fun _ _ _ _ _ _ _ => compileDevice_device) hloop
        have hdevs : deps.map Dependent.device = devices := by
          rw [hdevice]
          simp [setDevices, Function.comp_def]
        have hdlen : deps.length = devices.length := by rw [← hdevs, List.length_map]
        have hdne : deps ≠ [] := by
          rintro rfl
          exact hne hdevs.symm
        simp only [if_true, link, initDevices, List.isEmpty_iff, hdne, if_false, hdlen,
          List.length_singleton, List.range_eq_range'] at h
        split at h
        · cases h
        · rename_i deps' programs₁ num code' hlink
          split at h
          · rename_i hc
            subst hc
            cases h
            exact ⟨deps, _, hloop, hdevs, hlink, rfl⟩
          · rename_i hc
            cases h
            exact absurd rfl hc
      · rename_i hc
        cases hcompile
        rw [if_neg hc] at h
        have hcode := (Prod.mk.inj (Prod.mk.inj (Except.ok.inj h)).2).2
        split at hcode
        · exact absurd hcode (by decide)
        · exact absurd hcode hc

/-- An entry that no device selects has neither a binary nor a module. -/
theorem ownEntries_of_info {filled : List (Dependent M)} (hsource : p.type = .source)
    (hnew : p.deviceDependents = []) (hne : devices ≠ [])
    (h : p.build tc programs devices createLibrary outcome = .ok (programs', p', clSuccess))
    (hinfo : infoBinaries tc p'.deviceDependents = .ok filled) : OwnEntries devices := by
  obtain ⟨deps, s, hcompile, hdevs, hlink, -⟩ := build_new_inv hsource hnew hne h
  have hfresh : (p.setDevices devices).deviceDependents.map Dependent.device = devices := by
    simp [setDevices, Function.comp_def]
  obtain ⟨-, hframe⟩ := forDevices_frame (fun _ _ _ _ _ _ _ => compileDevice_device) hcompile
  obtain ⟨-, hframe'⟩ := forDevices_frame (fun _ _ _ _ _ _ _ => linkDevice_device) hlink
  rw [← hfresh]
  apply ownEntries_iff.mpr
  intro k d hk
  by_contra hother
  -- then no device at all selects the entry
  have hno : ∀ i ∈ List.range' 0 devices.length, ∀ d ∈ devices[i]?,
      deviceDependent (p.setDevices devices).deviceDependents d ≠ some k :=
    fun i _ d' _ hsel => hother (deviceDependent_self hsel hk)
  have hcongr : ∀ d, deviceDependent deps d =
      deviceDependent (p.setDevices devices).deviceDependents d :=
    deviceDependent_congr (hdevs.trans hfresh.symm)
  have hkept : p'.deviceDependents[k]? = (p.setDevices devices).deviceDependents[k]? := by
    rw [hframe' k fun i hi d hd => by rw [hcongr]; exact hno i hi d hd, hframe k hno]
  obtain ⟨dep, hdep, hempty, hnone⟩ : ∃ dep, p'.deviceDependents[k]? = some dep ∧
      dep.unlinkedBinary = [] ∧ dep.linkedModule = none := by
    rw [hkept]
    rw [hfresh] at hk
    simp [setDevices, hk]
  have hfail : ∀ {deps filled : List (Dependent M)}, dep ∈ deps →
      infoBinaries tc deps ≠ .ok filled := by
    intro deps
    induction deps with
    | nil => intro _ hmem; cases hmem
    | cons dep' deps ih =>
      intro filled hmem heq
      simp only [infoBinaries] at heq
      split at heq
      · cases heq
      · rename_i hfill
        split at heq
        · cases heq
        · rename_i hrest
          rcases List.mem_cons.mp hmem with rfl | hmem
          · simp [fillBinary, hempty, hnone] at hfill
          · exact ih hmem hrest
  exact hfail (List.mem_of_getElem? hdep) hinfo

/-- A new entry after it has been compiled. -/
def compiledEntry (tc : Toolchain M) (d : DeviceId) (optimize : Bool) (m : M) : Dependent M where
  device := d
  unlinkedBinary := tc.writeBitcode m
  isNativeBinary := false
  linkedModule := some m
  optimize := optimize

theorem setDevices_getElem? {d : DeviceId} {i : Nat} (hd : devices[i]? = some d) :
    (p.setDevices devices).deviceDependents[i]? =
      some { device := d, unlinkedBinary := [], isNativeBinary := false, linkedModule := none,
             optimize := true } := by
  simp [setDevices, hd]

/-- Each entry is compiled and linked once. -/
theorem built_entry (ht : FaithfulToolchain tc) (hsource : p.type = .source)
    (hnew : p.deviceDependents = []) (hne : devices ≠ []) (hown : OwnEntries devices)
    (h : p.build tc programs devices createLibrary outcome = .ok (programs', p', clSuccess))
    {i : Nat} {d : DeviceId} (hd : devices[i]? = some d) :
    ∃ m optimize, (outcome i).result = .compiled m ∧
      (selfLinked tc (stdlibFor tc createLibrary (compiledEntry tc d optimize m)) m).2 = true ∧
      p'.deviceDependents[i]? =
        some (selfBuilt tc createLibrary (compiledEntry tc d optimize m) m) := by
  obtain ⟨deps, s, hcompile, hdevs, hlink, -⟩ := build_new_inv hsource hnew hne h
  have hfresh : (p.setDevices devices).deviceDependents.map Dependent.device = devices := by
    simp [setDevices, Function.comp_def]
  have hi := (List.getElem?_eq_some_iff.mp hd).1
  have hcompiled : ∀ {j : Nat} {d : DeviceId}, devices[j]? = some d → ∃ m optimize,
      (outcome j).result = .compiled m ∧ deps[j]? = some (compiledEntry tc d optimize m) := by
    intro j d hd
    have hj := (List.getElem?_eq_some_iff.mp hd).1
    obtain ⟨-, hnew', -⟩ := forDevices_own_inv (by rwa [hfresh]) hfresh (by simp [setDevices])
      (fun _ _ _ _ _ _ _ _ hrun => ⟨rfl, compileDevice_device hrun⟩) hcompile
    obtain ⟨dep, dep', hdep, hdep', hrun⟩ := hnew' j (Nat.zero_le _) (by omega)
    rw [setDevices_getElem? hd] at hdep
    cases hdep
    simp only [compileDevice] at hrun
    split at hrun
    · exact absurd (Prod.mk.inj (Prod.mk.inj (Except.ok.inj hrun)).2).2 (by decide)
    · exact absurd (Prod.mk.inj (Prod.mk.inj (Except.ok.inj hrun)).2).2 (by decide)
    · rename_i m hm
      cases hrun
      exact ⟨m, _, hm, hdep'⟩
  have hdlen : deps.length = devices.length := by rw [← hdevs, List.length_map]
  have hconst : ∀ j dep dep' s' code, 0 ≤ j → j < 0 + devices.length → deps[j]? = some dep →
      linkDevice tc createLibrary [.self] j dep.device dep (programs, 1) = .ok (dep', s', code) →
      s' = (programs, 1) ∧ dep'.device = dep.device := by
    intro j dep dep' s' code _ hj hdep hrun
    have hlt : j < devices.length := by omega
    obtain ⟨m, optimize, -, hentry⟩ := hcompiled (List.getElem?_eq_getElem hlt)
    obtain rfl := Option.some.inj (hdep.symm.trans hentry)
    have hmod : (compiledEntry tc devices[j] optimize m).linkedModule = some m := rfl
    obtain ⟨dep₁, code₁, hrun₁, hsame, -⟩ := linkDevice_self tc createLibrary programs hmod j
      (compiledEntry tc devices[j] optimize m).device
    rw [hrun₁] at hrun
    cases hrun
    exact ⟨rfl, hsame⟩
  obtain ⟨-, hlinked, -⟩ := forDevices_own_inv (by rwa [hdevs]) hdevs (by omega) hconst hlink
  obtain ⟨dep, dep', hdep, hdep', hrun⟩ := hlinked i (Nat.zero_le _) (by omega)
  obtain ⟨m, optimize, hm, hentry⟩ := hcompiled hd
  obtain rfl := Option.some.inj (hdep.symm.trans hentry)
  obtain ⟨hok, rfl⟩ := linkDevice_selfBuilt_inv ht rfl hrun
  exact ⟨m, optimize, hm, hok, hdep'⟩

theorem infoBinaries_full (h : ∀ dep ∈ deps, dep.unlinkedBinary ≠ []) :
    infoBinaries tc deps = .ok deps := by
  induction deps with
  | nil => rfl
  | cons dep deps ih =>
    have hfill : fillBinary tc dep = .ok dep := by
      simp [fillBinary, h dep List.mem_cons_self]
    have ih := ih fun dep hdep => h dep (List.mem_cons_of_mem _ hdep)
    simp only [infoBinaries, hfill, ih]

/-- An entry that has been loaded. -/
def loadedEntry (tc : Toolchain M) (d : DeviceId) (binary : List UInt8) : Dependent M where
  device := d
  unlinkedBinary := binary
  isNativeBinary := (tc.extractMixedBinary d binary).isSome
  linkedModule := tc.parseBitcode ((tc.extractMixedBinary d binary).getD binary)
  optimize := true

theorem loadBinaries_own {data : Nat → List UInt8} (hown : OwnEntries devices)
    (hparse : ∀ i d, devices[i]? = some d → (loadedEntry tc d (data i)).linkedModule ≠ none) :
    ∃ q, (Program.new : Program M).loadBinaries tc data devices = .ok (q, clSuccess) ∧
      q.type = .binary ∧ q.state = .loaded ∧
      q.deviceDependents.map Dependent.device = devices ∧
      ∀ i d, devices[i]? = some d →
        q.deviceDependents[i]? = some (loadedEntry tc d (data i)) := by
  have hfresh : ((Program.new : Program M).setDevices devices).deviceDependents.map
      Dependent.device = devices := by simp [setDevices, Function.comp_def]
  have hbody : ∀ i dep, 0 ≤ i → i < 0 + devices.length →
      ((Program.new : Program M).setDevices devices).deviceDependents[i]? = some dep →
      loadBinary tc data i dep.device dep () =
        .ok (loadedEntry tc dep.device (data i), (), clSuccess) ∧
      (loadedEntry tc dep.device (data i)).device = dep.device := by
    intro i dep _ hi hdep
    rw [setDevices_getElem? (List.getElem?_eq_getElem (by omega))] at hdep
    cases hdep
    refine ⟨?_, rfl⟩
    have hsome : (loadedEntry tc devices[i] (data i)).linkedModule.isSome = true :=
      Option.isSome_iff_ne_none.mpr (hparse i _ (List.getElem?_eq_getElem (by omega)))
    simp only [loadedEntry] at hsome
    simp only [loadBinary, hsome, if_true, loadedEntry]
  obtain ⟨deps, hloop, hdevs, hentries, -⟩ := forDevices_own_ok
    (fun i dep => loadedEntry tc dep.device (data i)) (by rwa [hfresh]) hfresh
    (by simp [setDevices]) hbody
  rw [← List.range_eq_range'] at hloop
  refine ⟨{ (Program.new : Program M).setDevices devices with
      deviceDependents := deps
      type := .binary
      state := .loaded
      binaryType := .compiledObject }, ?_, rfl, rfl, hdevs.trans hfresh, ?_⟩
  · simp only [loadBinaries, hloop, if_true]
  · intro i d hd
    have hi := (List.getElem?_eq_some_iff.mp hd).1
    have hentry := hentries i (Nat.zero_le _) (by omega)
    rw [setDevices_getElem? hd] at hentry
    exact hentry

/-- A program with kernels is not built again. -/
theorem getNumKernels_of_build
    (h : q.build tc programs devices createLibrary outcome = .ok (programs', p', clSuccess)) :
    q.getNumKernels tc = .ok 0 := by
  simp only [build, compile] at h
  cases hk : q.getNumKernels tc with
  | error f =>
    simp only [hk] at h
    cases h
  | ok k =>
    by_cases hpos : 0 < k
    · simp only [hk, hpos, if_true] at h
      exact absurd (Prod.mk.inj (Prod.mk.inj (Except.ok.inj h)).2).2 (by decide)
    · obtain rfl : k = 0 := by omega
      rfl

/-- A loaded program is linked with the library or itself, device by device. -/
theorem build_loaded (ht : FaithfulToolchain tc) (hbinary : q.type = .binary)
    (hdevs : q.deviceDependents.map Dependent.device = devices) (hne : devices ≠ [])
    (hown : OwnEntries devices) (hkernels : q.getNumKernels tc = .ok 0)
    (hentries : ∀ dep ∈ q.deviceDependents, ∃ m, dep.linkedModule = some m ∧
      (selfLinked tc (stdlibFor tc createLibrary dep) m).2 = true)
    (programs : List (Program M)) (outcome : Nat → Compilation M) :
    ∃ q', q.build tc programs devices createLibrary outcome = .ok (programs, q', clSuccess) ∧
      q'.state = (if createLibrary then .compiled else .built) ∧
      q'.deviceDependents.map Dependent.device = devices ∧
      ∀ (i : Nat) dep m, q.deviceDependents[i]? = some dep → dep.linkedModule = some m →
        q'.deviceDependents[i]? = some (selfBuilt tc createLibrary dep m) := by
  have hlen : q.deviceDependents.length = devices.length := by rw [← hdevs, List.length_map]
  have hdne : q.deviceDependents ≠ [] := by
    intro hd
    rw [hd] at hdevs
    exact hne hdevs.symm
  let out : Nat → Dependent M → Dependent M := fun _ dep =>
    dep.linkedModule.elim dep (selfBuilt tc createLibrary dep)
  have hbody : ∀ i dep, 0 ≤ i → i < 0 + devices.length → q.deviceDependents[i]? = some dep →
      linkDevice tc createLibrary [.self] i dep.device dep (programs, 1) =
        .ok (out i dep, (programs, 1), clSuccess) ∧ (out i dep).device = dep.device := by
    intro i dep _ _ hdep
    obtain ⟨m, hmod, hlink⟩ := hentries dep (List.mem_of_getElem? hdep)
    have hout : out i dep = selfBuilt tc createLibrary dep m := by simp [out, hmod]
    rw [hout]
    exact ⟨linkDevice_selfBuilt ht hmod hlink i dep.device, rfl⟩
  obtain ⟨deps, hloop, hdevice, hnew, -⟩ := forDevices_own_ok out (by rwa [hdevs]) hdevs (by omega)
    hbody
  have hsource : q.type ≠ .source := by simp [hbinary]
  refine ⟨{ q with
      state := if createLibrary then .compiled else .built
      binaryType := if createLibrary then .library else .executable
      deviceDependents := deps }, ?_, rfl, hdevice.trans hdevs, ?_⟩
  · rw [← List.range_eq_range'] at hloop
    simp only [build, compile, hkernels, Nat.lt_irrefl, if_false, initDevices, List.isEmpty_iff,
      hdne, hsource, hlen, if_true, link, List.length_singleton, hloop]
  · intro i dep m hdep hmod
    have hi := (List.getElem?_eq_some_iff.mp hdep).1
    rw [hnew i (Nat.zero_le _) (by omega), hdep]
    simp [out, hmod]

theorem kernelNames_selfBuilt (ht : FaithfulToolchain tc) (dep : Dependent M) (m : M) :
    kernelNames tc (selfBuilt tc false dep m) =
      kernelFunctions tc (selfLinked tc (stdlibFor tc false dep) m).1 := by
  simp only [kernelNames, selfBuilt, Option.elim_some, kernelFunctions]
  split
  · rw [ht.passes]
  · rfl

/-- What an entry is loaded as that has been compiled and linked. -/
structure Reloaded (tc : Toolchain M) (m : M) (dep loaded : Dependent M) : Prop where
  module : loaded.linkedModule = some m
  stdlib : stdlibFor tc false loaded = stdlibFor tc false dep
  kernels : kernelNames tc (selfBuilt tc false loaded m) =
    kernelNames tc (selfBuilt tc false dep m)

theorem binary_ne_nil (ht : FaithfulToolchain tc) (d : DeviceId) (optimize : Bool) (m : M) :
    (selfBuilt tc createLibrary (compiledEntry tc d optimize m) m).unlinkedBinary ≠ [] := by
  rcases ht.keeps d _ m _ rfl with ⟨-, heq⟩ | ⟨-, hne, -⟩
  · simp only [selfBuilt, compiledEntry] at heq ⊢
    rw [heq]
    exact ht.written m
  · exact hne

theorem reloaded (ht : FaithfulToolchain tc) (d : DeviceId) (optimize : Bool) (m : M) :
    Reloaded tc m (compiledEntry tc d optimize m)
      (loadedEntry tc d
        (selfBuilt tc false (compiledEntry tc d optimize m) m).unlinkedBinary) := by
  obtain ⟨binary, hbinary⟩ : ∃ binary, binary =
    (selfBuilt tc false (compiledEntry tc d optimize m) m).unlinkedBinary := ⟨_, rfl⟩
  rw [← hbinary]
  have hkeeps := ht.keeps d _ m binary hbinary.symm
  have hstdlib : stdlibFor tc false (loadedEntry tc d binary) =
      stdlibFor tc false (compiledEntry tc d optimize m) := by
    rcases hkeeps with ⟨hnone, -⟩ | ⟨hsome, -, hno⟩
    · simp [stdlibFor, loadedEntry, compiledEntry, hnone]
    · simp [stdlibFor, loadedEntry, compiledEntry, hno]
  refine ⟨?_, hstdlib, ?_⟩
  · rcases hkeeps with ⟨hnone, heq⟩ | ⟨hsome, -, -⟩
    · rw [loadedEntry, hnone, Option.getD_none, heq, ht.parse]
    · rw [loadedEntry, hsome, Option.getD_some, ht.parse]
  · rw [kernelNames_selfBuilt ht, kernelNames_selfBuilt ht, hstdlib]

end Program

section World

open Program

variable {tc : Toolchain M} {w w' : ProgramWorld M} {n : Nat} {p p' : Program M}
  {devices : List DeviceId} {createLibrary : Bool} {outcome outcome' : Nat → Compilation M}
  {args : BuildArgs}

theorem map_deviceAt (p : Program M) :
    (List.range p.deviceDependents.length).map p.deviceAt =
      p.deviceDependents.map Dependent.device := by
  apply List.ext_getElem
  · simp
  · intro i h₁ h₂
    simp only [List.length_map] at h₂
    simp [Program.deviceAt, h₂]

theorem validateContext_subset {context : List DeviceId}
    (h : (validateContext context args).1 = clSuccess)
    (hd : (validateContext context args).2 = some devices) : devices ⊆ context := by
  simp only [validateContext] at h hd
  split at h
  · rename_i hnum
    rw [if_pos hnum] at hd
    obtain rfl := Option.some.inj hd
    exact List.Subset.refl _
  · rename_i hnum
    rw [if_neg hnum] at hd
    split at h
    · rename_i hall
      rw [if_pos hall] at hd
      have hd : args.devices = some devices := hd
      intro d hmem
      simp only [hd, Option.any_some, List.all_eq_true, decide_eq_true_eq] at hall
      exact hall d hmem
    · exact absurd h (show clInvalidDevice ≠ clSuccess by decide)

theorem validateBuildArgs_subset (h : (w.validateBuildArgs n args).1 = clSuccess)
    (hd : (w.validateBuildArgs n args).2 = some devices) : devices ⊆ w.context := by
  simp only [ProgramWorld.validateBuildArgs] at h hd
  split at h
  · exact absurd h (show clInvalidProgram ≠ clSuccess by decide)
  · rename_i p hp
    simp only [hp] at hd
    split at h
    · exact absurd h (show clInvalidValue ≠ clSuccess by decide)
    · rename_i hcons
      rw [if_neg hcons] at hd
      split at h
      · rename_i hctx
        exact absurd h hctx
      · rename_i hctx
        rw [if_neg hctx] at hd
        have hctx : (validateContext w.context args).1 = clSuccess := by simpa using hctx
        split at h
        · rename_i hstate
          rw [if_pos hstate] at hd
          exact validateContext_subset hctx hd
        · exact absurd h (show clInvalidOperation ≠ clSuccess by decide)

/-- What a call of `clBuildProgram` that succeeds has done. -/
theorem clBuildProgram_inv (hc : w.context ≠ []) (hp : w.programs[n]? = some p)
    (h : w.clBuildProgram tc n args createLibrary outcome = .ok (w', clSuccess))
    (hp' : w'.programs[n]? = some p') :
    ∃ devices programs', devices ≠ [] ∧ devices ⊆ w.context ∧ w'.context = w.context ∧
      p.build tc w.programs devices createLibrary outcome = .ok (programs', p', clSuccess) := by
  simp only [ProgramWorld.clBuildProgram] at h
  split at h
  · rename_i hcode
    obtain ⟨p₀, devices, hp₀, hdev, hne, -⟩ := validateBuildArgs_ok hc hcode
    obtain rfl : p = p₀ := Option.some.inj (hp.symm.trans hp₀)
    have hsub := validateBuildArgs_subset hcode hdev
    simp only [hp, hdev] at h
    split at h
    · cases h
    · rename_i programs' p₁ code hbuild
      cases h
      refine ⟨devices, programs', hne, hsub, rfl, ?_⟩
      have hlt : n < programs'.length := by
        by_contra hge
        rw [List.getElem?_eq_none (by simpa using hge)] at hp'
        cases hp'
      have heq : p₁ = p' := by simpa [hlt] using hp'
      rw [← heq]
      exact hbuild
  · rename_i hcode
    exact absurd (Prod.mk.inj (Except.ok.inj h)).2 hcode

/-- The binaries of a program, by entry. -/
def binaryAt (p : Program M) (i : Nat) : List UInt8 :=
  (p.deviceDependents.map Dependent.unlinkedBinary).getD i []

/-- A program whose devices select their own entries can be loaded from its binaries. -/
theorem reload_own (ht : FaithfulToolchain tc) {programs programs' : List (Program M)}
    (hsource : p.type = .source) (hnew : p.deviceDependents = []) (hne : devices ≠ [])
    (hown : OwnEntries devices)
    (h : p.build tc programs devices false outcome = .ok (programs', p', clSuccess)) :
    ∃ q, (Program.new : Program M).loadBinaries tc (binaryAt p') devices = .ok (q, clSuccess) ∧
      q.type = .binary ∧ q.state = .loaded ∧
      q.deviceDependents.map Dependent.device = devices ∧
      ∀ i d, devices[i]? = some d → ∃ m dep loaded, (outcome i).result = .compiled m ∧
        (selfLinked tc (stdlibFor tc false dep) m).2 = true ∧
        p'.deviceDependents[i]? = some (selfBuilt tc false dep m) ∧
        binaryAt p' i ≠ [] ∧ q.deviceDependents[i]? = some loaded ∧
        Reloaded tc m dep loaded := by
  have hentry : ∀ i d, devices[i]? = some d → ∃ m optimize, (outcome i).result = .compiled m ∧
      (selfLinked tc (stdlibFor tc false (compiledEntry tc d optimize m)) m).2 = true ∧
      p'.deviceDependents[i]? = some (selfBuilt tc false (compiledEntry tc d optimize m) m) ∧
      binaryAt p' i = (selfBuilt tc false (compiledEntry tc d optimize m) m).unlinkedBinary := by
    intro i d hd
    obtain ⟨m, optimize, hm, hlink, hbuilt⟩ := built_entry ht hsource hnew hne hown h hd
    exact ⟨m, optimize, hm, hlink, hbuilt, by simp [binaryAt, hbuilt]⟩
  have hparse : ∀ i d, devices[i]? = some d →
      (loadedEntry tc d (binaryAt p' i)).linkedModule ≠ none := by
    intro i d hd
    obtain ⟨m, optimize, -, -, -, hbinary⟩ := hentry i d hd
    rw [hbinary, (reloaded ht d optimize m).module]
    simp
  obtain ⟨q, hload, htype, hstate, hdevs, hloaded⟩ := loadBinaries_own hown hparse
  refine ⟨q, hload, htype, hstate, hdevs, ?_⟩
  intro i d hd
  obtain ⟨m, optimize, hm, hlink, hbuilt, hbinary⟩ := hentry i d hd
  refine ⟨m, compiledEntry tc d optimize m, loadedEntry tc d (binaryAt p' i), hm, hlink, hbuilt,
    ?_, hloaded i d hd, ?_⟩
  · rw [hbinary]
    exact binary_ne_nil ht d optimize m
  · rw [hbinary]
    exact reloaded ht d optimize m

theorem clCreateProgramWithBinary_ok {q : Program M}
    (hdevs : p.deviceDependents.map Dependent.device = devices) (hne : devices ≠ [])
    (hown : OwnEntries devices) (hsub : devices ⊆ w.context)
    (hbinary : ∀ i < devices.length, binaryAt p i ≠ [])
    (hload : (Program.new : Program M).loadBinaries tc (binaryAt p) devices = .ok (q, clSuccess)) :
    w.clCreateProgramWithBinary tc true p.deviceDependents.length (some p.deviceAt)
      (some (binaryAt p)) = .ok ({ w with programs := w.programs ++ [q] }, clSuccess) := by
  have hlen : p.deviceDependents.length = devices.length := by rw [← hdevs, List.length_map]
  have hpos : p.deviceDependents.length ≠ 0 := by
    rw [hlen]
    simpa using hne
  have hmap := map_deviceAt p
  rw [hdevs] at hmap
  have hnone : (List.range p.deviceDependents.length).findSome?
      (w.deviceError p.deviceAt (binaryAt p)) = none := by
    rw [List.findSome?_eq_none_iff]
    intro i hi
    have hmem : p.deviceAt i ∈ w.context := by
      apply hsub
      rw [← hmap]
      exact List.mem_map_of_mem hi
    rw [List.mem_range, hlen] at hi
    simp only [ProgramWorld.deviceError, hbinary i hi, if_false, hmem, if_true]
  have hcode : w.binaryError true p.deviceDependents.length (some p.deviceAt)
      (some (binaryAt p)) = clSuccess := by
    simp only [ProgramWorld.binaryError, Bool.not_true, Bool.false_eq_true, if_false, hpos, hnone,
      Option.getD_none]
  have hroom : ¬ w.context.length < p.deviceDependents.length := by
    rw [hlen]
    exact Nat.not_lt.mpr (length_le_context hown hsub)
  simp only [ProgramWorld.clCreateProgramWithBinary, hcode, if_true, hroom, if_false, hmap, hload]

theorem device_of_build {programs programs' : List (Program M)} (hsource : p.type = .source)
    (hnew : p.deviceDependents = []) (hne : devices ≠ [])
    (h : p.build tc programs devices createLibrary outcome = .ok (programs', p', clSuccess)) :
    p'.deviceDependents.map Dependent.device = devices := by
  obtain ⟨deps, s, -, hdevs, hlink, -⟩ := build_new_inv hsource hnew hne h
  obtain ⟨hdevice, -⟩ := forDevices_frame (fun _ _ _ _ _ _ _ => linkDevice_device) hlink
  exact hdevice.trans hdevs

theorem binaries_getD (p : Program M) :
    (fun i => (p.deviceDependents.map Dependent.unlinkedBinary).getD i []) = binaryAt p := rfl

/-- The program made of the binaries is built only if the original has no kernels. -/
theorem of_roundTrips (ht : FaithfulToolchain tc) (hc : w'.context ≠ [])
    {programs programs' : List (Program M)} (hsource : p.type = .source)
    (hnew : p.deviceDependents = []) (hne : devices ≠ []) (hsub : devices ⊆ w'.context)
    (h : p.build tc programs devices false outcome = .ok (programs', p', clSuccess))
    (hp' : w'.programs[n]? = some p') (hr : RoundTrips tc w' n false outcome') :
    OwnEntries devices ∧ ∃ m, (outcome 0).result = .compiled m ∧ tc.operands m = [] := by
  obtain ⟨p₁, w₁, binaries, w₂, w₃, q', hp₁, hinfo, hcreate, hbuild, hq', -, -⟩ := hr
  obtain rfl : p' = p₁ := Option.some.inj (hp'.symm.trans hp₁)
  have hdevs := device_of_build hsource hnew hne h
  simp only [ProgramWorld.clGetProgramBinaries, hp'] at hinfo
  split at hinfo
  · cases hinfo
  · rename_i filled hfilled
    have hown := ownEntries_of_info hsource hnew hne h hfilled
    refine ⟨hown, ?_⟩
    obtain ⟨q, hload, -, -, hqdevs, hentries⟩ := reload_own ht hsource hnew hne hown h
    have hlen : p'.deviceDependents.length = devices.length := by rw [← hdevs, List.length_map]
    have hfull : filled = p'.deviceDependents := by
      have hall : ∀ dep ∈ p'.deviceDependents, dep.unlinkedBinary ≠ [] := by
        intro dep hdep
        obtain ⟨i, hi⟩ := List.getElem?_of_mem hdep
        have hlt := (List.getElem?_eq_some_iff.mp hi).1
        rw [hlen] at hlt
        obtain ⟨m, dep', loaded, -, -, -, hbinary, -, -⟩ :=
          hentries i _ (List.getElem?_eq_getElem hlt)
        simpa [binaryAt, hi] using hbinary
      rw [infoBinaries_full hall] at hfilled
      exact (Except.ok.inj hfilled).symm
    subst hfull
    cases hinfo
    have hcreate' := clCreateProgramWithBinary_ok
      (w := { w' with programs := w'.programs.set n p' }) hdevs hne hown hsub
      (fun i hi => by
        obtain ⟨m, dep', loaded, -, -, -, hbinary, -, -⟩ :=
          hentries i _ (List.getElem?_eq_getElem hi)
        exact hbinary) hload
    obtain ⟨rfl, -⟩ := Prod.mk.inj (Except.ok.inj (hcreate'.symm.trans hcreate))
    -- the loaded program is built, so that its first module has no kernels
    have hget : (w'.programs.set n p' ++ [q])[(w'.programs.set n p').length]? = some q := by simp
    have hc' :
        ({ w' with programs := w'.programs.set n p' ++ [q] } : ProgramWorld M).context ≠ [] :=
      hc
    obtain ⟨devices', programs'', -, -, -, hqbuild⟩ := clBuildProgram_inv hc' hget hbuild hq'
    have hkernels := getNumKernels_of_build hqbuild
    have hpos : 0 < devices.length := List.length_pos_of_ne_nil hne
    obtain ⟨m, dep', loaded, hm, -, -, -, hloaded, hmod⟩ :=
      hentries 0 _ (List.getElem?_eq_getElem hpos)
    refine ⟨m, hm, ?_⟩
    have hhead : q.deviceDependents.head? = some loaded := by
      rw [List.head?_eq_getElem?]
      exact hloaded
    simp only [getNumKernels, hhead, hmod.module] at hkernels
    exact List.length_eq_zero_iff.mp (Except.ok.inj hkernels)

/-- And then it is built, with the same kernels for every device. -/
theorem roundTrips_of (ht : FaithfulToolchain tc)
    {programs programs' : List (Program M)} (hsource : p.type = .source)
    (hnew : p.deviceDependents = []) (hne : devices ≠ []) (hsub : devices ⊆ w'.context)
    (h : p.build tc programs devices false outcome = .ok (programs', p', clSuccess))
    (hp' : w'.programs[n]? = some p') (hown : OwnEntries devices)
    (hm : ∃ m, (outcome 0).result = .compiled m ∧ tc.operands m = []) :
    RoundTrips tc w' n false outcome' := by
  have hdevs := device_of_build hsource hnew hne h
  have hlen : p'.deviceDependents.length = devices.length := by rw [← hdevs, List.length_map]
  obtain ⟨q, hload, htype, hstate, hqdevs, hentries⟩ := reload_own ht hsource hnew hne hown h
  have hqlen : q.deviceDependents.length = devices.length := by rw [← hqdevs, List.length_map]
  have hbinary : ∀ i < devices.length, binaryAt p' i ≠ [] := by
    intro i hi
    obtain ⟨m, dep', loaded, -, -, -, hbinary, -, -⟩ :=
      hentries i _ (List.getElem?_eq_getElem hi)
    exact hbinary
  have hfull : infoBinaries tc p'.deviceDependents = .ok p'.deviceDependents := by
    apply infoBinaries_full
    intro dep hdep
    obtain ⟨i, hi⟩ := List.getElem?_of_mem hdep
    have hlt := (List.getElem?_eq_some_iff.mp hi).1
    simpa [binaryAt, hi] using hbinary i (by omega)
  have hkernels : q.getNumKernels tc = .ok 0 := by
    have hpos : 0 < devices.length := List.length_pos_of_ne_nil hne
    obtain ⟨m, dep', loaded, hm', -, -, -, hloaded, hmod⟩ :=
      hentries 0 _ (List.getElem?_eq_getElem hpos)
    obtain ⟨m₀, hm₀, hnone⟩ := hm
    obtain rfl := CompileResult.compiled.inj (hm'.symm.trans hm₀)
    have hhead : q.deviceDependents.head? = some loaded := by
      rw [List.head?_eq_getElem?]
      exact hloaded
    simp [getNumKernels, hhead, hmod.module, hnone]
  have hlinked : ∀ dep ∈ q.deviceDependents, ∃ m, dep.linkedModule = some m ∧
      (selfLinked tc (stdlibFor tc false dep) m).2 = true := by
    intro dep hdep
    obtain ⟨i, hi⟩ := List.getElem?_of_mem hdep
    have hlt := (List.getElem?_eq_some_iff.mp hi).1
    rw [hqlen] at hlt
    obtain ⟨m, dep', loaded, -, hlink, -, -, hloaded, hmod⟩ :=
      hentries i _ (List.getElem?_eq_getElem hlt)
    obtain rfl := Option.some.inj (hi.symm.trans hloaded)
    exact ⟨m, hmod.module, by rw [hmod.stdlib]; exact hlink⟩
  let w₁ : ProgramWorld M := { w' with programs := w'.programs.set n p' }
  let w₂ : ProgramWorld M := { w₁ with programs := w₁.programs ++ [q] }
  obtain ⟨q', hbuild, hq'state, hq'devs, hq'entries⟩ := build_loaded ht htype hqdevs hne hown
    hkernels hlinked w₂.programs outcome'
  have hget : w₂.programs[w₁.programs.length]? = some q := by simp [w₂]
  have hvalid : w₂.validateBuildArgs w₁.programs.length
      ⟨p'.deviceDependents.length, some p'.deviceAt, false, false⟩ = (clSuccess, some devices) := by
    have hnum : p'.deviceDependents.length ≠ 0 := by
      rw [hlen]
      simpa using hne
    have hgiven : BuildArgs.devices ⟨p'.deviceDependents.length, some p'.deviceAt, false, false⟩ =
        some devices := by
      simp only [BuildArgs.devices, map_deviceAt, hdevs]
    have hctx : validateContext w₂.context
        ⟨p'.deviceDependents.length, some p'.deviceAt, false, false⟩ =
          (clSuccess, some devices) := by
      have hall : devices.all fun d => d ∈ w'.context := by
        simpa using fun d hd => hsub hd
      simp only [validateContext, hgiven, hnum, if_false, Option.any_some, w₂, w₁, hall, if_true]
    simp only [ProgramWorld.validateBuildArgs, hget, hctx, hstate, ne_eq, not_true_eq_false,
      if_false, true_or, if_true]
    simp [BuildArgs.consistent, hnum]
  refine ⟨p', w₁, p'.deviceDependents.map Dependent.unlinkedBinary, w₂,
    { w₂ with programs := w₂.programs.set w₁.programs.length q' }, q', hp', ?_, ?_, ?_, ?_, ?_,
    hq'devs.trans hdevs.symm, ?_⟩
  · simp only [ProgramWorld.clGetProgramBinaries, hp', hfull]
    rfl
  · rw [binaries_getD]
    exact clCreateProgramWithBinary_ok hdevs hne hown hsub hbinary hload
  · simp only [ProgramWorld.clBuildProgram, hvalid, if_true, hget, hbuild]
  · simp [w₂]
  · simpa using hq'state
  · intro i dep hdep dep' hdep' name
    have hlt := (List.getElem?_eq_some_iff.mp hdep').1
    rw [hlen] at hlt
    obtain ⟨m, dep₀, loaded, -, -, hbuilt, -, hloaded, hmod⟩ :=
      hentries i _ (List.getElem?_eq_getElem hlt)
    obtain rfl := Option.some.inj (hbuilt.symm.trans hdep')
    obtain rfl := Option.some.inj ((hq'entries i loaded m hloaded hmod.module).symm.trans hdep)
    rw [hmod.kernels]

/-- A program that is built from source for the first time can be made again of its binaries exactly
where no device of its list is a part of an earlier one and the first has no kernels. -/
theorem binary_round_trips_iff (ht : FaithfulToolchain tc) (hc : w.context ≠ [])
    (hp : w.programs[n]? = some p) (hsource : p.type = .source) (hnew : p.deviceDependents = [])
    (hbuild : w.clBuildProgram tc n args createLibrary outcome = .ok (w', clSuccess))
    (hp' : w'.programs[n]? = some p') (hstate : p'.state = .built) :
    RoundTrips tc w' n createLibrary outcome' ↔
      OwnEntries (p'.deviceDependents.map Dependent.device) ∧
        ∃ m, (outcome 0).result = .compiled m ∧ tc.operands m = [] := by
  obtain ⟨devices, programs', hne, hsub, hctx, h⟩ := clBuildProgram_inv hc hp hbuild hp'
  obtain ⟨deps, s, -, -, -, hlib⟩ := build_new_inv hsource hnew hne h
  have hfalse : createLibrary = false := by
    cases createLibrary with
    | false => rfl
    | true =>
      rw [hstate] at hlib
      cases hlib
  subst hfalse
  rw [← hctx] at hsub hc
  rw [device_of_build hsource hnew hne h]
  constructor
  · exact of_roundTrips ht hc hsource hnew hne hsub h hp'
  · rintro ⟨hown, hm⟩
    exact roundTrips_of ht hsource hnew hne hsub h hp' hown hm

end World

section Runs

theorem addToolchain_faithful : FaithfulToolchain addToolchain where
  parse m := by cases m <;> rfl
  written m := by cases m <;> simp [addToolchain]
  passes _ _ _ := rfl
  accepts _ _ _ := rfl
  keeps _ _ _ binary h := .inl ⟨rfl, h.symm⟩

/-- A program without kernels comes back. -/
theorem empty_program_round_trips : ∃ w, (∃ p, w.programs = [p] ∧ p.state = .built) ∧
    RoundTrips addToolchain w 0 false fun _ => ⟨false, .failed⟩ :=
  ⟨_, ⟨_, rfl, rfl⟩, (binary_round_trips_iff addToolchain_faithful (by simp) rfl rfl rfl
    (rfl : ProgramWorld.clBuildProgram addToolchain
      ⟨[.root 0], [Program.new.loadSources], none⟩ 0 allDevices false
      (fun _ => ⟨false, .compiled false⟩) = .ok (_, clSuccess)) rfl rfl).mpr
    ⟨by decide, false, rfl, rfl⟩⟩

/-- A program with a kernel does not: to build what was loaded is refused. -/
theorem kernel_binary_refused : ¬ ∀ (M : Type) (tc : Toolchain M), FaithfulToolchain tc →
    ∀ (w w' : ProgramWorld M) n p p' args createLibrary outcome outcome', w.context ≠ [] →
    w.programs[n]? = some p → p.type = .source → p.deviceDependents = [] →
    w.clBuildProgram tc n args createLibrary outcome = .ok (w', clSuccess) →
    w'.programs[n]? = some p' → p'.state = .built → RoundTrips tc w' n createLibrary outcome' := by
  intro hall
  have hr := hall Bool addToolchain addToolchain_faithful
    ⟨[.root 0], [Program.new.loadSources], none⟩ _ 0 _ _ allDevices false
    (fun _ => ⟨false, .compiled true⟩) (fun _ => ⟨false, .failed⟩) (by simp) rfl rfl rfl rfl rfl rfl
  obtain ⟨-, m, hm, hnone⟩ := of_roundTrips addToolchain_faithful (by simp) rfl rfl (by simp)
    (by simp) (rfl : Program.build addToolchain [] Program.new.loadSources [.root 0] false
      (fun _ => ⟨false, .compiled true⟩) = .ok (_, _, clSuccess)) rfl hr
  obtain rfl := CompileResult.compiled.inj hm
  cases hnone

end Runs

end Shamrock.Runtime
