import Mathlib.Tactic.SplitIfs
import Shamrock.Lib.Calls
import Shamrock.Runtime.Program

/-!
# The build options of a compiler

`Compiler::compile` reads its options token by token into the containers of a
`clang::CompilerInstance`, which is there as long as the compiler is.
-/
namespace Shamrock.Runtime

open Shamrock.Calls

/-- What a token switches on or off. -/
inductive Flag
  | singlePrecisionConstants
  | fastRelaxedMath
  | lessPreciseFPMAD
  | unsafeFPMath
  | noInfsFPMath
  | noNaNsFPMath
  | structPathTBAA
  | noSignedZeros
  | emitOpenCLArgMetadata
  | ignoreWarnings
  deriving DecidableEq, Repr

/-- The containers of clang, as far as `compile` does not set them to the same value each time. -/
structure ClangOptions where
  /-- the paths of `header_opts` -/
  paths : List String
  includes : List String
  macros : List String
  flags : Flag → Bool
  optimizationLevel : Nat
  warningsAsErrors : Bool
  inputs : List String
  /-- the remapped files, with the buffers that replace them -/
  remapped : List (String × Nat)

namespace ClangOptions

def addPath (o : ClangOptions) (path : String) : ClangOptions :=
  { o with paths := o.paths ++ [path] }

def addMacroDef (o : ClangOptions) (m : String) : ClangOptions :=
  { o with macros := o.macros ++ [m] }

def set (o : ClangOptions) (f : Flag) (b : Bool) : ClangOptions :=
  { o with flags := fun g => if g = f then b else o.flags g }

end ClangOptions

/-- `Coal::Compiler`; `optimize` is `p_optimize`. -/
structure Compiler where
  clang : ClangOptions
  optimize : Bool

/-- What a device and the installation tell a compiler. -/
structure CompilerDevice where
  headerPath : String
  builtinsHeader : String
  extensions : String

/-- One call of `compile`: the buffer of the source, and whether clang fails on it. -/
structure CompileCall where
  options : String
  source : Nat
  fails : Bool

def isSpace (c : Char) : Bool := c.toNat = 32 || (9 ≤ c.toNat && c.toNat ≤ 13)

/-- What `stream >> token` reads until the stream ends. -/
def tokens (s : String) : List String :=
  ((s.toList.splitOnP isSpace).filter (· ≠ [])).map String.ofList

/-- The loop over the tokens between two of them. -/
structure Parsing where
  compiler : Compiler
  werror : Bool
  inI : Bool
  inD : Bool

namespace Parsing

def clang (p : Parsing) : ClangOptions := p.compiler.clang

def withClang (p : Parsing) (o : ClangOptions) : Parsing :=
  { p with compiler := { p.compiler with clang := o } }

def set (p : Parsing) (f : Flag) (b : Bool) : Parsing := p.withClang (p.clang.set f b)

/-- The tokens that have no argument. -/
def option (p : Parsing) (t : String) : Option Parsing :=
  if t = "-cl-single-precision-constant" then some (p.set .singlePrecisionConstants true)
  else if t = "-cl-opt-disable" then
    some { p with compiler := ⟨{ p.clang with optimizationLevel := 0 }, false⟩ }
  else if t = "-cl-mad-enable" then some (p.set .lessPreciseFPMAD true)
  else if t = "-cl-unsafe-math-optimizations" then some (p.set .unsafeFPMath true)
  else if t = "-cl-finite-math-only" then
    some ((p.set .noInfsFPMath true).set .noNaNsFPMath true)
  else if t = "-cl-fast-relaxed-math" then
    some ((((p.set .unsafeFPMath true).set .noInfsFPMath true).set .noNaNsFPMath true).set
      .fastRelaxedMath true)
  -- there seems to be no corresponding option of clang
  else if t = "-cl-denorms-are-zero" then some p
  else if t = "-cl-strict-aliasing" then some (p.set .structPathTBAA false)
  else if t = "-cl-no-signed-zeros" then some (p.set .noSignedZeros true)
  else if t = "-w" then some (p.set .ignoreWarnings true)
  else if t = "-Werror" then some { p with werror := true }
  else if t = "-cl-std=CL1.1" then some p
  else if t = "-cl-std=CL1.2" then some p
  else if t = "-cl-kernel-arg-info" then some (p.set .emitOpenCLArgMetadata true)
  else none

/-- The body of the loop, or `none` for an invalid option. -/
def token (p : Parsing) (t : String) : Option Parsing :=
  if p.inI then some { p.withClang (p.clang.addPath t) with inI := false }
  else if p.inD then some { p.withClang (p.clang.addMacroDef t) with inD := false }
  else if t = "-I" then some { p with inI := true }
  else if t.toList.take 2 = "-I".toList then
    some (p.withClang (p.clang.addPath (String.ofList (t.toList.drop 2))))
  else if t = "-D" then some { p with inD := true }
  else if t.toList.take 2 = "-D".toList then
    some (p.withClang (p.clang.addMacroDef (String.ofList (t.toList.drop 2))))
  else p.option t

/-- The whole loop, and whether it ends without an invalid option. -/
def run : Parsing → List String → Parsing × Bool
  | p, [] => (p, true)
  | p, t :: ts =>
    match p.token t with
    | some p => run p ts
    | none => (p, false)

end Parsing

namespace Compiler

def new (clang : ClangOptions) : Compiler := ⟨clang, true⟩

/-- What is set before the options are parsed. -/
def prepare (d : CompilerDevice) (s : Compiler) : Parsing where
  compiler := { s with clang := { s.clang.addPath d.headerPath with
    optimizationLevel := 2
    includes := s.clang.includes ++ ["clc.h", d.builtinsHeader] } }
  werror := false
  inI := false
  inD := false

/-- `Compiler::compile`. Unless the status is an invalid option, clang has been run with the
options of the compiler that is left. -/
def compile (d : CompilerDevice) (s : Compiler) (c : CompileCall) : Compiler × Int :=
  let (p, valid) := (prepare d s).run (tokens c.options)
  if valid then
    ({ p.compiler with clang := { p.clang with
        macros := p.clang.macros ++ "__OPENCL_C_VERSION__=120" :: tokens d.extensions
        warningsAsErrors := p.werror
        inputs := p.clang.inputs ++ ["program.cl"]
        remapped := p.clang.remapped ++ [("program.cl", c.source)] } }, if c.fails then 1 else 0)
  else (p.compiler, clInvalidBuildOptions)

end Compiler

/-- The options as the user means them. -/
inductive BuildOption
  | includePath (path : String)
  | macroDef (m : String)
  | singlePrecisionConstant
  | optDisable
  | madEnable
  | unsafeMath
  | finiteMathOnly
  | fastRelaxedMath
  | denormsAreZero
  | strictAliasing
  | noSignedZeros
  | noWarnings
  | warningsAsErrors
  | version11
  | version12
  | kernelArgInfo
  deriving DecidableEq, Repr

/-- The options without arguments. -/
def BuildOption.table : List (String × BuildOption) :=
  [("-cl-single-precision-constant", .singlePrecisionConstant), ("-cl-opt-disable", .optDisable),
    ("-cl-mad-enable", .madEnable), ("-cl-unsafe-math-optimizations", .unsafeMath),
    ("-cl-finite-math-only", .finiteMathOnly), ("-cl-fast-relaxed-math", .fastRelaxedMath),
    ("-cl-denorms-are-zero", .denormsAreZero), ("-cl-strict-aliasing", .strictAliasing),
    ("-cl-no-signed-zeros", .noSignedZeros), ("-w", .noWarnings), ("-Werror", .warningsAsErrors),
    ("-cl-std=CL1.1", .version11), ("-cl-std=CL1.2", .version12),
    ("-cl-kernel-arg-info", .kernelArgInfo)]

/-- The option that a single token is; `-I` and `-D` alone are none. -/
def BuildOption.ofToken (t : String) : Option BuildOption :=
  if t = "-I" ∨ t = "-D" then none
  else if t.toList.take 2 = "-I".toList then some (.includePath (String.ofList (t.toList.drop 2)))
  else if t.toList.take 2 = "-D".toList then some (.macroDef (String.ofList (t.toList.drop 2)))
  else table.lookup t

/-- The options that an option string is made of, if it is well formed. -/
def readOptions : List String → Option (List BuildOption)
  | [] => some []
  | [t] => (BuildOption.ofToken t).map fun o => [o]
  | t :: arg :: ts =>
    if t = "-I" then (readOptions ts).map (.includePath arg :: ·)
    else if t = "-D" then (readOptions ts).map (.macroDef arg :: ·)
    else do
      let o ← BuildOption.ofToken t
      let os ← readOptions (arg :: ts)
      return o :: os

/-- Well formed but for a last `-I` or `-D`, which has no argument. -/
def Dangling : List String → Prop
  | [] => False
  | [t] => t = "-I" ∨ t = "-D"
  | t :: arg :: ts =>
    if t = "-I" ∨ t = "-D" then Dangling ts
    else (BuildOption.ofToken t).isSome ∧ Dangling (arg :: ts)

namespace BuildOption

def path : BuildOption → Option String
  | .includePath path => some path
  | _ => none

def macroDefinition : BuildOption → Option String
  | .macroDef m => some m
  | _ => none

end BuildOption

/-- The options that set a flag. -/
def Flag.setBy : Flag → List BuildOption
  | .singlePrecisionConstants => [.singlePrecisionConstant]
  | .fastRelaxedMath => [.fastRelaxedMath]
  | .lessPreciseFPMAD => [.madEnable]
  | .unsafeFPMath => [.unsafeMath, .fastRelaxedMath]
  | .noInfsFPMath => [.finiteMathOnly, .fastRelaxedMath]
  | .noNaNsFPMath => [.finiteMathOnly, .fastRelaxedMath]
  | .structPathTBAA => [.strictAliasing]
  | .noSignedZeros => [.noSignedZeros]
  | .emitOpenCLArgMetadata => [.kernelArgInfo]
  | .ignoreWarnings => [.noWarnings]

/-- The value that they set it to: only `StructPathTBAA` is switched off. -/
def Flag.value (f : Flag) : Bool := f ≠ .structPathTBAA

/-- What a call uses that depends on its own options, beside the defaults of clang and of the
device. -/
def expected (clang : ClangOptions) (d : CompilerDevice) (source : Nat) (os : List BuildOption) :
    Compiler where
  clang :=
    { paths := clang.paths ++ d.headerPath :: os.filterMap BuildOption.path
      includes := clang.includes ++ ["clc.h", d.builtinsHeader]
      macros := clang.macros ++ os.filterMap BuildOption.macroDefinition ++
        "__OPENCL_C_VERSION__=120" :: tokens d.extensions
      flags := fun f => if ∃ o ∈ os, o ∈ f.setBy then f.value else clang.flags f
      optimizationLevel := if .optDisable ∈ os then 0 else 2
      warningsAsErrors := .warningsAsErrors ∈ os
      inputs := clang.inputs ++ ["program.cl"]
      remapped := clang.remapped ++ [("program.cl", source)] }
  optimize := .optDisable ∉ os

/-- A call has an invalid option iff its string is not well formed, and otherwise uses its own
options and the defaults. -/
structure ExactCompile (clang : ClangOptions) (d : CompilerDevice) (s : Compiler)
    (c : CompileCall) : Prop where
  status : (s.compile d c).2 = clInvalidBuildOptions ↔ readOptions (tokens c.options) = none
  used : ∀ os ∈ readOptions (tokens c.options),
    (s.compile d c).1 = expected clang d c.source os

section BuildOptions

variable {clang : ClangOptions} {d : CompilerDevice} {s : Compiler} {c : CompileCall}
  {p q : Parsing} {t arg : String} {ts : List String} {o : BuildOption} {os : List BuildOption}
  {f : Flag}

/-- What an option does to the containers. -/
def Parsing.apply (p : Parsing) : BuildOption → Parsing
  | .includePath path => p.withClang (p.clang.addPath path)
  | .macroDef m => p.withClang (p.clang.addMacroDef m)
  | .singlePrecisionConstant => p.set .singlePrecisionConstants true
  | .optDisable => { p with compiler := ⟨{ p.clang with optimizationLevel := 0 }, false⟩ }
  | .madEnable => p.set .lessPreciseFPMAD true
  | .unsafeMath => p.set .unsafeFPMath true
  | .finiteMathOnly => (p.set .noInfsFPMath true).set .noNaNsFPMath true
  | .fastRelaxedMath =>
    (((p.set .unsafeFPMath true).set .noInfsFPMath true).set .noNaNsFPMath true).set
      .fastRelaxedMath true
  | .denormsAreZero | .version11 | .version12 => p
  | .strictAliasing => p.set .structPathTBAA false
  | .noSignedZeros => p.set .noSignedZeros true
  | .noWarnings => p.set .ignoreWarnings true
  | .warningsAsErrors => { p with werror := true }
  | .kernelArgInfo => p.set .emitOpenCLArgMetadata true

/-- The loop waits for an option. -/
structure Parsing.Idle (p : Parsing) : Prop where
  inI : p.inI = false
  inD : p.inD = false

theorem lookup_map_cons {k : String} {table : List (String × BuildOption)} :
    (((k, o) :: table).lookup t).map p.apply =
      if t = k then some (p.apply o) else (table.lookup t).map p.apply := by
  rw [List.lookup_cons]
  by_cases h : t = k
  · rw [if_pos h, beq_iff_eq.mpr h]
    rfl
  · rw [if_neg h, beq_eq_false_iff_ne.mpr h]

theorem Parsing.option_eq : p.option t = (BuildOption.table.lookup t).map p.apply := by
  unfold option BuildOption.table
  simp only [lookup_map_cons, List.lookup_nil, Option.map_none]
  rfl

theorem Parsing.token_option (hp : p.Idle) (hI : t ≠ "-I") (hD : t ≠ "-D") :
    p.token t = (BuildOption.ofToken t).map p.apply := by
  unfold token BuildOption.ofToken
  rw [hp.inI, hp.inD, if_neg Bool.false_ne_true, if_neg Bool.false_ne_true, if_neg hI, if_neg hD,
    if_neg (not_or.mpr ⟨hI, hD⟩), option_eq]
  split_ifs
  · rfl
  · rfl
  · rfl

theorem Parsing.idle_apply (hp : p.Idle) : (p.apply o).Idle := by
  cases o <;> exact ⟨hp.inI, hp.inD⟩

theorem Parsing.run_include (hp : p.Idle) :
    p.run ("-I" :: arg :: ts) = (p.apply (.includePath arg)).run ts := by
  obtain ⟨compiler, werror, inI, inD⟩ := p
  cases hp.inI
  cases hp.inD
  rfl

theorem Parsing.run_define (hp : p.Idle) :
    p.run ("-D" :: arg :: ts) = (p.apply (.macroDef arg)).run ts := by
  obtain ⟨compiler, werror, inI, inD⟩ := p
  cases hp.inI
  cases hp.inD
  rfl

theorem Parsing.run_pending (hp : p.Idle) (ht : t = "-I" ∨ t = "-D") : (p.run [t]).2 = true := by
  obtain ⟨compiler, werror, inI, inD⟩ := p
  cases hp.inI
  cases hp.inD
  rcases ht with rfl | rfl
  · rfl
  · rfl

theorem Parsing.run_some (hp : p.Idle) (hI : t ≠ "-I") (hD : t ≠ "-D")
    (ho : BuildOption.ofToken t = some o) : p.run (t :: ts) = (p.apply o).run ts := by
  rw [run, token_option hp hI hD, ho]
  rfl

theorem Parsing.run_none (hp : p.Idle) (hI : t ≠ "-I") (hD : t ≠ "-D")
    (ho : BuildOption.ofToken t = none) : p.run (t :: ts) = (p, false) := by
  rw [run, token_option hp hI hD, ho]
  rfl

/-- The loop takes the options one after the other. -/
theorem Parsing.run_eq (hp : p.Idle) (h : readOptions ts = some os) :
    p.run ts = (os.foldl Parsing.apply p, true) := by
  fun_induction readOptions ts generalizing p os with
  | case1 =>
    cases h
    rfl
  | case2 t =>
    obtain ⟨o, ho, rfl⟩ := Option.map_eq_some_iff.mp h
    have hne : ¬(t = "-I" ∨ t = "-D") := by
      intro ht
      rw [BuildOption.ofToken, if_pos ht] at ho
      cases ho
    rw [run_some hp (fun h => hne (.inl h)) (fun h => hne (.inr h)) ho]
    rfl
  | case3 arg ts ih =>
    obtain ⟨os, hos, rfl⟩ := Option.map_eq_some_iff.mp h
    rw [run_include hp, ih (idle_apply hp) hos]
    rfl
  | case4 arg ts _ ih =>
    obtain ⟨os, hos, rfl⟩ := Option.map_eq_some_iff.mp h
    rw [run_define hp, ih (idle_apply hp) hos]
    rfl
  | case5 t arg ts hI hD ih =>
    obtain ⟨o, ho, h⟩ := Option.bind_eq_some_iff.mp h
    obtain ⟨os, hos, h⟩ := Option.bind_eq_some_iff.mp h
    cases h
    rw [run_some hp hI hD ho, ih (idle_apply hp) hos]
    rfl

/-- A string that ends with `-I` or `-D` is accepted too. -/
theorem Parsing.run_valid_iff (ts : List String) (hp : p.Idle) :
    (p.run ts).2 = true ↔ readOptions ts ≠ none ∨ Dangling ts := by
  fun_induction readOptions ts generalizing p with
  | case1 => exact iff_of_true rfl (.inl nofun)
  | case2 t =>
    by_cases ht : t = "-I" ∨ t = "-D"
    · exact iff_of_true (run_pending hp ht) (.inr ht)
    · have hnot : ¬Dangling [t] := ht
      rw [not_or] at ht
      cases ho : BuildOption.ofToken t with
      | none => simp [run_none hp ht.1 ht.2 ho, hnot]
      | some o =>
        rw [run_some hp ht.1 ht.2 ho]
        simp [run]
  | case3 arg ts ih =>
    rw [run_include hp, ih (idle_apply hp), Dangling, if_pos (.inl rfl)]
    simp
  | case4 arg ts _ ih =>
    rw [run_define hp, ih (idle_apply hp), Dangling, if_pos (.inr rfl)]
    simp
  | case5 t arg ts hI hD ih =>
    rw [Dangling, if_neg (not_or.mpr ⟨hI, hD⟩)]
    cases ho : BuildOption.ofToken t with
    | none => simp [run_none hp hI hD ho]
    | some o =>
      rw [run_some hp hI hD ho, ih (idle_apply hp)]
      cases readOptions (arg :: ts) with
      | none => simp
      | some os => simp

/-- Such a string is not well formed. -/
theorem readOptions_of_dangling (h : Dangling ts) : readOptions ts = none := by
  fun_induction readOptions ts with
  | case1 => cases h
  | case2 t =>
    have ht : t = "-I" ∨ t = "-D" := h
    rw [BuildOption.ofToken, if_pos ht]
    rfl
  | case3 arg ts ih =>
    rw [Dangling, if_pos (.inl rfl)] at h
    rw [ih h]
    rfl
  | case4 arg ts _ ih =>
    rw [Dangling, if_pos (.inr rfl)] at h
    rw [ih h]
    rfl
  | case5 t arg ts hI hD ih =>
    rw [Dangling, if_neg (not_or.mpr ⟨hI, hD⟩)] at h
    rw [ih h.2]
    cases BuildOption.ofToken t <;> rfl

theorem Parsing.paths_apply : (p.apply o).clang.paths = p.clang.paths ++ o.path.toList := by
  cases o <;> first | rfl | exact (List.append_nil _).symm

theorem Parsing.macros_apply :
    (p.apply o).clang.macros = p.clang.macros ++ o.macroDefinition.toList := by
  cases o <;> first | rfl | exact (List.append_nil _).symm

theorem Parsing.flags_apply :
    (p.apply o).clang.flags f = if o ∈ f.setBy then f.value else p.clang.flags f := by
  cases o <;> cases f <;> rfl

theorem Parsing.level_apply : (p.apply o).clang.optimizationLevel =
    if o = .optDisable then 0 else p.clang.optimizationLevel := by
  cases o <;> rfl

theorem Parsing.optimize_apply :
    (p.apply o).compiler.optimize = (p.compiler.optimize && decide (o ≠ .optDisable)) := by
  cases o <;> first | exact (Bool.and_true _).symm | exact (Bool.and_false _).symm

theorem Parsing.werror_apply :
    (p.apply o).werror = (p.werror || decide (o = .warningsAsErrors)) := by
  cases o <;> first | exact (Bool.or_false _).symm | exact (Bool.or_true _).symm

/-- What the options leave in the containers. -/
structure Parsing.Applied (p : Parsing) (os : List BuildOption) (q : Parsing) : Prop where
  paths : q.clang.paths = p.clang.paths ++ os.filterMap BuildOption.path
  macros : q.clang.macros = p.clang.macros ++ os.filterMap BuildOption.macroDefinition
  flags : ∀ f, q.clang.flags f =
    if ∃ o ∈ os, o ∈ f.setBy then f.value else p.clang.flags f
  level : q.clang.optimizationLevel =
    if .optDisable ∈ os then 0 else p.clang.optimizationLevel
  optimize : q.compiler.optimize = (p.compiler.optimize && decide (.optDisable ∉ os))
  werror : q.werror = (p.werror || decide (.warningsAsErrors ∈ os))
  includes : q.clang.includes = p.clang.includes
  inputs : q.clang.inputs = p.clang.inputs
  remapped : q.clang.remapped = p.clang.remapped

theorem Parsing.applied_cons (h : (p.apply o).Applied os q) : p.Applied (o :: os) q where
  paths := by
    rw [h.paths, paths_apply, List.append_assoc, List.filterMap_cons]
    cases o.path <;> rfl
  macros := by
    rw [h.macros, macros_apply, List.append_assoc, List.filterMap_cons]
    cases o.macroDefinition <;> rfl
  flags f := by
    have hcons : (∃ o' ∈ o :: os, o' ∈ f.setBy) ↔ o ∈ f.setBy ∨ ∃ o' ∈ os, o' ∈ f.setBy :=
      List.exists_mem_cons_iff ..
    rw [h.flags, flags_apply, if_congr hcons rfl rfl]
    by_cases hos : ∃ o' ∈ os, o' ∈ f.setBy
    · rw [if_pos hos, if_pos (.inr hos)]
    · rw [if_neg hos]
      exact if_congr (or_iff_left hos).symm rfl rfl
  level := by
    rw [h.level, level_apply]
    simp only [List.mem_cons]
    split_ifs <;> simp_all
  optimize := by
    rw [h.optimize, optimize_apply, Bool.and_assoc]
    simp [eq_comm]
  werror := by
    rw [h.werror, werror_apply, Bool.or_assoc]
    simp [eq_comm]
  includes := by
    rw [h.includes]
    cases o <;> rfl
  inputs := by
    rw [h.inputs]
    cases o <;> rfl
  remapped := by
    rw [h.remapped]
    cases o <;> rfl

theorem Parsing.applied_foldl (p : Parsing) (os : List BuildOption) :
    p.Applied os (os.foldl Parsing.apply p) := by
  induction os generalizing p with
  | nil => constructor <;> simp
  | cons o os ih => exact applied_cons (ih (p.apply o))

/-- The paths only get more. -/
theorem Parsing.paths_token (h : p.token t = some q) :
    p.clang.paths.length ≤ q.clang.paths.length := by
  have happly : ∀ o, p.clang.paths.length ≤ (p.apply o).clang.paths.length := by
    intro o
    rw [paths_apply, List.length_append]
    exact Nat.le_add_right ..
  unfold token at h
  rw [option_eq] at h
  split_ifs at h with hI hD
  · cases h
    exact happly (.includePath t)
  · cases h
    exact happly (.macroDef t)
  · cases h
    exact Nat.le_refl _
  · cases h
    exact happly (.includePath _)
  · cases h
    exact Nat.le_refl _
  · cases h
    exact happly (.macroDef _)
  · obtain ⟨o, -, rfl⟩ := Option.map_eq_some_iff.mp h
    exact happly o

theorem Parsing.paths_run (p : Parsing) (ts : List String) :
    p.clang.paths.length ≤ (p.run ts).1.clang.paths.length := by
  induction ts generalizing p with
  | nil => exact Nat.le_refl _
  | cons t ts ih =>
    rw [run]
    cases h : p.token t with
    | none => exact Nat.le_refl _
    | some q => exact Nat.le_trans (paths_token h) (ih q)

namespace Compiler

theorem idle_prepare : (prepare d s).Idle := ⟨rfl, rfl⟩

/-- Only a string that is not well formed is rejected, but a last `-I` or `-D` goes through. -/
theorem status_iff : (s.compile d c).2 = clInvalidBuildOptions ↔
    readOptions (tokens c.options) = none ∧ ¬Dangling (tokens c.options) := by
  have hvalid := Parsing.run_valid_iff (tokens c.options) (idle_prepare (d := d) (s := s))
  unfold compile
  cases hrun : (prepare d s).run (tokens c.options) with
  | mk p valid =>
    rw [hrun] at hvalid
    dsimp only at hvalid ⊢
    cases valid with
    | true =>
      rw [if_pos rfl]
      refine iff_of_false ?_ fun h => ?_
      · dsimp only
        split_ifs <;> decide
      · exact (hvalid.mp rfl).elim (fun hne => hne h.1) h.2
    | false =>
      rw [if_neg Bool.false_ne_true]
      refine iff_of_true rfl ?_
      have hnot := not_or.mp fun h => Bool.false_ne_true (hvalid.mpr h)
      exact ⟨not_not.mp hnot.1, hnot.2⟩

/-- A compiler uses the options of all its calls; a new one has only those of this call. -/
theorem compile_new (h : readOptions (tokens c.options) = some os) :
    ((new clang).compile d c).1 = expected clang d c.source os := by
  unfold compile
  rw [Parsing.run_eq idle_prepare h]
  have ha := Parsing.applied_foldl (prepare d (new clang)) os
  dsimp only
  rw [if_pos rfl]
  unfold expected
  simp only [Compiler.mk.injEq, ClangOptions.mk.injEq]
  refine ⟨⟨?_, ha.includes, ?_, funext ha.flags, ha.level, ?_, ?_, ?_⟩, ?_⟩
  · rw [ha.paths]
    exact List.append_assoc ..
  · rw [ha.macros]
    rfl
  · rw [ha.werror]
    rfl
  · rw [ha.inputs]
    rfl
  · rw [ha.remapped]
    rfl
  · rw [ha.optimize]
    rfl

theorem paths_eq : (s.compile d c).1.clang.paths =
    ((prepare d s).run (tokens c.options)).1.clang.paths := by
  unfold compile
  dsimp only
  split_ifs <;> rfl

theorem paths_compile : s.clang.paths.length < (s.compile d c).1.clang.paths.length := by
  have hrun := Parsing.paths_run (prepare d s) (tokens c.options)
  have hprepare : (prepare d s).clang.paths.length = s.clang.paths.length + 1 := List.length_append
  rw [paths_eq]
  omega

/-- The first call on a compiler. -/
theorem exact_new_iff :
    ExactCompile clang d (new clang) c ↔ ¬Dangling (tokens c.options) := by
  constructor
  · intro h hd
    exact (status_iff.mp (h.status.mpr (readOptions_of_dangling hd))).2 hd
  · intro hd
    refine ⟨status_iff.trans (and_iff_left hd), fun os hos => compile_new hos⟩

/-- What an earlier call has left stays with every call that is not rejected. -/
theorem exact_later_iff (hs : clang.paths.length < s.clang.paths.length) :
    ExactCompile clang d s c ↔
      ¬Dangling (tokens c.options) ∧ readOptions (tokens c.options) = none := by
  constructor
  · intro h
    have hd : ¬Dangling (tokens c.options) := fun hd =>
      (status_iff.mp (h.status.mpr (readOptions_of_dangling hd))).2 hd
    refine ⟨hd, Option.eq_none_iff_forall_ne_some.mpr fun os hos => ?_⟩
    have hused := congrArg (fun s => s.clang.paths.length) (h.used os hos)
    have hpaths := (Parsing.applied_foldl (prepare d s) os).paths
    rw [paths_eq, Parsing.run_eq idle_prepare hos, hpaths] at hused
    have hprepare : (prepare d s).clang.paths.length = s.clang.paths.length + 1 :=
      List.length_append
    simp only [expected, List.length_append, List.length_cons] at hused
    omega
  · rintro ⟨hd, hnone⟩
    refine ⟨status_iff.trans (and_iff_left hd), fun os hos => ?_⟩
    rw [hnone] at hos
    cases hos

/-- In a sequence of calls on one compiler, each parses its options afresh iff no string is well
formed but for a last `-I` or `-D`, and all strings after the first one are rejected. -/
theorem options_exact_iff (clang : ClangOptions) (d : CompilerDevice) (cs : List CompileCall) :
    Each (fun s c => (s.compile d c).1) (ExactCompile clang d) (new clang) cs ↔
      (∀ c ∈ cs, ¬Dangling (tokens c.options)) ∧
        ∀ c ∈ cs.tail, readOptions (tokens c.options) = none := by
  cases cs with
  | nil => exact iff_of_true trivial ⟨nofun, nofun⟩
  | cons c cs =>
    have hkeep : ∀ (s : Compiler) (c : CompileCall), clang.paths.length < s.clang.paths.length →
        clang.paths.length < (s.compile d c).1.clang.paths.length :=
      fun s c hs => Nat.lt_trans hs paths_compile
    have hfirst := paths_compile (s := new clang) (d := d) (c := c)
    have hlater : Each (fun s c => (s.compile d c).1) (ExactCompile clang d)
        ((new clang).compile d c).1 cs ↔
        ∀ c ∈ cs, ¬Dangling (tokens c.options) ∧ readOptions (tokens c.options) = none :=
      each_forall_iff hkeep (fun _ _ hs => exact_later_iff hs) hfirst
    rw [Each, exact_new_iff, hlater, List.forall_mem_cons, List.tail_cons, forall₂_and, and_assoc]

def call (options : String) : CompileCall := ⟨options, 0, false⟩

def noDefaults : ClangOptions := ⟨[], [], [], fun _ => false, 0, false, [], []⟩

/-- A macro of the first call is still defined in the second one. -/
theorem macro_kept : ¬∀ (clang : ClangOptions) (d : CompilerDevice) (cs : List CompileCall),
    Each (fun s c => (s.compile d c).1) (ExactCompile clang d) (new clang) cs := by
  intro h
  have hused := (h noDefaults ⟨"", "", ""⟩ [call "-D N=4", call ""]).2.1.used [] rfl
  have hmacros := congrArg (fun s => s.clang.macros.length) hused
  revert hmacros
  decide +kernel

end Compiler

end BuildOptions

end Shamrock.Runtime
