import Shamrock.Lib.Outcome
import Shamrock.Runtime.Commands
import Shamrock.Runtime.WorkGroupSize
import Mathlib.Data.List.GetD

/-!
# The sizes of a launch

The whole constructor of `KernelEvent`: the loop that retains the buffers before anything is
checked, and the sizes that the event keeps, given or guessed.
-/
namespace Shamrock.Runtime

open Outcome Loop

/-- `reqdWorkGroupSize`: zeros if the kernel requires none. -/
structure RequiredSize where
  x : UInt32
  y : UInt32
  z : UInt32
  deriving DecidableEq, Repr

namespace RequiredSize

def any (r : RequiredSize) : Bool := 0 < r.x || 0 < r.y || 0 < r.z

/-- The sizes of the dimensions there are, against the required ones. -/
def mismatch (r : RequiredSize) (workDim : Nat) (l : Nat → UInt64) : Bool :=
  l 0 ≠ r.x.toUInt64 || (1 < workDim && l 1 ≠ r.y.toUInt64) ||
    (2 < workDim && l 2 ≠ r.z.toUInt64)

end RequiredSize

/-- A kernel, with what it answers for the device of the queue. -/
structure LaunchedKernel where
  kernel : Kernel
  context : Nat
  deviceKernel : Option DeviceKernel
  reqdWorkGroupSize : RequiredSize
  deriving DecidableEq, Repr

/-- The sizes of `clEnqueueNDRangeKernel`; an array that is given has an entry for every
dimension. -/
structure NDRange where
  workDim : Nat
  globalWorkOffset : Option (Nat → UInt64)
  globalWorkSize : Option (Nat → UInt64)
  localWorkSize : Option (Nat → UInt64)

/-- The sizes that the event keeps. -/
structure LaunchSizes where
  offset : List UInt64
  global : List UInt64
  loc : List UInt64
  deriving DecidableEq, Repr

namespace LaunchSizes

def add (s : LaunchSizes) (offset global loc : UInt64) : LaunchSizes :=
  ⟨s.offset ++ [offset], s.global ++ [global], s.loc ++ [loc]⟩

/-- The missing dimensions. -/
def pad (s : LaunchSizes) (n : Nat) : LaunchSizes :=
  ⟨s.offset ++ List.replicate n 0, s.global ++ List.replicate n 1, s.loc ++ List.replicate n 1⟩

def globalAt (s : LaunchSizes) (i : Nat) : UInt64 := s.global.getD i 1

def localAt (s : LaunchSizes) (i : Nat) : UInt64 := s.loc.getD i 1

end LaunchSizes

/-- The loop over the dimensions: the error code and the size of a work-group so far. -/
structure DimState where
  code : Int
  workGroupSize : UInt64
  sizes : LaunchSizes
  deriving DecidableEq, Repr

namespace KernelEvent

/-- Every buffer is retained, also one that was never set. -/
def retainBuffers : List Arg → Check Unit
  | [] => return
  | a :: args => if a.isBuffer && a.data.isNone then crash else retainBuffers args

def checkRequired (r : RequiredSize) (range : NDRange) : Check Unit :=
  if r.any then
    match range.localWorkSize with
    | none => throw clInvalidWorkGroupSize
    | some l => reject (r.mismatch range.workDim l) clInvalidWorkGroupSize
  else pure ()

/-- A global size that is missing or zero is noted, but it is used all the same. -/
def checkDimension (guess : UInt64 → Option UInt64) (maxItems : List UInt64) (range : NDRange)
    (s : DimState) (i : Nat) : Check DimState :=
  let offset := (range.globalWorkOffset.map (· i)).getD 0
  match range.globalWorkSize with
  | none => crash
  | some global =>
    let code := if global i = 0 then clInvalidGlobalWorkSize else s.code
    match range.localWorkSize with
    | none =>
      match guess (global i) with
      | none => crash
      | some l => return ⟨code, s.workGroupSize, s.sizes.add offset (global i) l⟩
    | some loc =>
      match remainder (global i) (loc i) with
      | none => crash
      | some rest => do
        reject (rest ≠ 0) clInvalidWorkGroupSize
        reject (maxItems.getD i 0 < loc i) clInvalidWorkItemSize
        return ⟨code, s.workGroupSize * loc i, s.sizes.add offset (global i) (loc i)⟩

/-- From the loop over the dimensions to the end of the constructor. -/
def checkSizes (guess : UInt64 → Option UInt64) (device : Device)
    (objects : UInt64 → Option MemObject) (k : LaunchedKernel) (range : NDRange) :
    Check LaunchSizes := do
  let s ← (List.range range.workDim).foldlM (checkDimension guess device.maxWorkItemSizes range)
    ⟨clSuccess, 1, ⟨[], [], []⟩⟩
  reject (device.maxWorkGroupSize < s.workGroupSize) clInvalidWorkGroupSize
  let code ← checkArgs device objects k.kernel.args s.code
  reject (code ≠ clSuccess) code
  return s.sizes.pad (device.maxWorkItemDimensions - range.workDim)

/-- `KernelEvent::KernelEvent`; `eventCode` is what the constructor of `Event` leaves, and a guess
may take `n` passes. -/
def create (n : Nat) (queue : QueueInfo) (objects : UInt64 → Option MemObject) (eventCode : Int)
    (kernel : Option LaunchedKernel) (range : NDRange) : Check LaunchSizes :=
  match kernel with
  | none => crash
  | some k => do
    retainBuffers k.kernel.args
    reject (eventCode ≠ clSuccess) eventCode
    match k.deviceKernel with
    | none => throw clInvalidProgramExecutable
    | some d => do
      reject (k.context ≠ queue.context) clInvalidContext
      reject (!k.kernel.argsSpecified) clInvalidKernelArgs
      reject (range.workDim = 0 || queue.device.maxWorkItemDimensions < range.workDim)
        clInvalidWorkDimension
      checkRequired k.reqdWorkGroupSize range
      checkSizes (d.guessWorkGroupSize n range.workDim) queue.device objects k range

section Checks

variable {α : Type} {P : α → Prop} {Q : Unit → Prop} {test : Bool} {e : Int} {args : List Arg}
  {device : Device} {objects : UInt64 → Option MemObject} {code : Int} {range : NDRange}
  {r : RequiredSize} {guess : UInt64 → Option UInt64} {maxItems : List UInt64}
  {g l : Nat → UInt64} {s : DimState} {i n : Nat}

@[simp] theorem ends_crash : Ends (crash : Check α) P ↔ False := Iff.rfl

@[simp] theorem ends_reject : Ends (reject test e) Q ↔ (test = false → Q ()) := by
  cases test with
  | false => simp [reject]
  | true => simp [reject]

/-- Every buffer among the arguments has been set, maybe to `NULL`. -/
def BuffersSet (args : List Arg) : Prop := ∀ a ∈ args, a.isBuffer = true → a.data ≠ none

theorem ends_retainBuffers : Ends (retainBuffers args) Q ↔ BuffersSet args ∧ Q () := by
  unfold BuffersSet
  induction args with
  | nil => simp [retainBuffers]
  | cons a args ih =>
    rw [retainBuffers, List.forall_mem_cons]
    split_ifs with h
    · rw [ends_crash, false_iff]
      rintro ⟨⟨hset, -⟩, -⟩
      rw [Bool.and_eq_true, Option.isNone_iff_eq_none] at h
      exact hset h.1 h.2
    · rw [ih, and_assoc, iff_and_self]
      rintro - hbuffer hnone
      apply h
      rw [hbuffer, hnone]
      rfl

/-- An image that is `NULL`. -/
def NullImage (objects : UInt64 → Option MemObject) (a : Arg) : Prop :=
  a.isImage = true ∧ objects a.object = none

def imageFits (device : Device) (a : Arg) (image : MemObject) : Prop :=
  if a.kind = .image2D then
    image.width ≤ device.image2DMaxWidth ∧ image.height ≤ device.image2DMaxHeight
  else image.width ≤ device.image3DMaxWidth ∧ image.height ≤ device.image3DMaxHeight ∧
    image.depth ≤ device.image3DMaxDepth

/-- A buffer is aligned, and an image is not too large. -/
def ArgFits (device : Device) (objects : UInt64 → Option MemObject) (a : Arg) : Prop :=
  ∀ o, objects a.object = some o → (a.isBuffer = true → isSubBufferAligned o device = true) ∧
    (a.isImage = true → imageFits device a o)

theorem ends_checkImage {a : Arg} {image : MemObject} {c : Check α} :
    Ends (if a.kind = .image2D then do
        reject (device.image2DMaxWidth < image.width || device.image2DMaxHeight < image.height)
          clInvalidImageSize
        c
      else do
        reject (device.image3DMaxWidth < image.width || device.image3DMaxHeight < image.height ||
          device.image3DMaxDepth < image.depth) clInvalidImageSize
        c) P ↔ (imageFits device a image → Ends c P) := by
  unfold imageFits
  split_ifs with h
  · simp [ends_bind]
  · simp [ends_bind, and_assoc]

/-- One argument: an image clears the error code. -/
theorem ends_checkArg {a : Arg} {P : Int → Prop} :
    Ends (checkArgs device objects (a :: args) code) P ↔
      ¬NullImage objects a ∧ (ArgFits device objects a →
        Ends (checkArgs device objects args (if a.isImage then clSuccess else code)) P) := by
  unfold NullImage ArgFits
  rw [checkArgs]
  by_cases hbuffer : a.isBuffer = true
  · have himage : a.isImage = false := by
      unfold Arg.isBuffer at hbuffer
      unfold Arg.isImage
      simp_all
    cases hobject : objects a.object with
    | none => simp [hbuffer, himage]
    | some o => simp [hbuffer, himage, ends_bind]
  · by_cases himage : a.isImage = true
    · cases hobject : objects a.object with
      | none => simp [hbuffer, himage]
      | some o => simp [hbuffer, himage, ends_checkImage]
    · simp [hbuffer, himage]

theorem ends_checkArgs {P : Int → Prop} : Ends (checkArgs device objects args code) P ↔
    Clear (ArgFits device objects) (NullImage objects) args ∧
      ((∀ a ∈ args, ArgFits device objects a) →
        P (if args.any Arg.isImage then clSuccess else code)) := by
  induction args generalizing code with
  | nil => simp [checkArgs, Clear]
  | cons a args ih =>
    rw [ends_checkArg, ih, Clear, List.forall_mem_cons, List.any_cons]
    have hcode : (if args.any Arg.isImage then clSuccess
        else if a.isImage then clSuccess else code) =
        if (a.isImage || args.any Arg.isImage) = true then clSuccess else code := by
      cases a.isImage <;> cases args.any Arg.isImage <;> rfl
    rw [hcode]
    constructor
    · rintro ⟨hnull, h⟩
      exact ⟨⟨hnull, fun ha => (h ha).1⟩, fun ha => (h ha.1).2 ha.2⟩
    · rintro ⟨⟨hnull, h⟩, h'⟩
      exact ⟨hnull, fun ha => ⟨h ha, fun hl => h' ⟨ha, hl⟩⟩⟩

/-- Dimension `i` done: its sizes are `g i` and `l i`, and only a given local size counts for the
work-group. -/
def next (range : NDRange) (g l : Nat → UInt64) (s : DimState) (i : Nat) : DimState where
  code := if g i = 0 then clInvalidGlobalWorkSize else s.code
  workGroupSize := s.workGroupSize * if range.localWorkSize.isSome then l i else 1
  sizes := s.sizes.add ((range.globalWorkOffset.map (· i)).getD 0) (g i) (l i)

/-- A given local size divides the global one and is not too large. -/
def LocalFits (maxItems : List UInt64) (g l : Nat → UInt64) (i : Nat) : Prop :=
  (l i).toNat ∣ (g i).toNat ∧ (l i).toNat ≤ (maxItems.getD i 0).toNat

theorem ends_checkDimension_given {P : DimState → Prop} (hg : range.globalWorkSize = some g)
    (hl : range.localWorkSize = some l) :
    Ends (checkDimension guess maxItems range s i) P ↔
      ¬l i = 0 ∧ (LocalFits maxItems g l i → P (next range g l s i)) := by
  have hmod : g i % l i = 0 ↔ (l i).toNat ∣ (g i).toNat := by
    rw [← UInt64.toNat_inj, UInt64.toNat_mod, Nat.dvd_iff_mod_eq_zero]
    exact Iff.rfl
  unfold LocalFits
  simp only [checkDimension, hg, hl, remainder]
  by_cases hzero : l i = 0
  · simp [hzero]
  · simp [hzero, ends_bind, ends_map, hmod, next, hl, UInt64.le_iff_toNat_le]

theorem ends_checkDimension_guess {P : DimState → Prop} (hg : range.globalWorkSize = some g)
    (hl : range.localWorkSize = none) :
    Ends (checkDimension guess maxItems range s i) P ↔ ¬guess (g i) = none ∧
      (True → P (next range g (fun i => (guess (g i)).getD 0) s i)) := by
  simp only [checkDimension, hg, hl]
  cases hguess : guess (g i) with
  | none => simp
  | some l => simp [next, hl, hguess]

/-- The state after `n` dimensions. -/
def dimensions (range : NDRange) (g l : Nat → UInt64) (n : Nat) : DimState :=
  (List.range n).foldl (next range g l) ⟨clSuccess, 1, ⟨[], [], []⟩⟩

theorem dimensions_succ :
    dimensions range g l (n + 1) = next range g l (dimensions range g l n) n := by
  rw [dimensions, List.range_succ, List.foldl_append]
  rfl

theorem dimensions_sizes : (dimensions range g l n).sizes.global = (List.range n).map g ∧
    (dimensions range g l n).sizes.loc = (List.range n).map l := by
  induction n with
  | zero => exact ⟨rfl, rfl⟩
  | succ n ih =>
    rw [dimensions_succ, List.range_succ, List.map_append, List.map_append, ← ih.1, ← ih.2]
    exact ⟨rfl, rfl⟩

theorem dimensions_code :
    (dimensions range g l n).code = clSuccess ↔ ∀ i < n, 0 < (g i).toNat := by
  induction n with
  | zero => exact iff_of_true rfl (by omega)
  | succ n ih =>
    rw [dimensions_succ, Nat.forall_lt_succ_right, ← ih]
    have hzero : g n = 0 ↔ (g n).toNat = 0 := UInt64.toNat_inj.symm
    change (if g n = 0 then clInvalidGlobalWorkSize else _) = clSuccess ↔ _
    by_cases h : g n = 0
    · rw [if_pos h]
      exact iff_of_false (by decide) fun hpos => hpos.2.ne' (hzero.mp h)
    · rw [if_neg h]
      exact (and_iff_left (Nat.pos_iff_ne_zero.mpr (mt hzero.mpr h))).symm

theorem dimensions_workGroupSize (hl : range.localWorkSize = some l) :
    (dimensions range g l n).workGroupSize.toNat =
      ((List.range n).map fun i => (l i).toNat).prod % 2 ^ 64 := by
  induction n with
  | zero => rfl
  | succ n ih =>
    rw [dimensions_succ, next, hl, Option.isSome_some, if_pos rfl, UInt64.toNat_mul, ih,
      List.range_succ, List.map_append, List.prod_append, List.map_singleton, List.prod_singleton,
      Nat.mod_mul_mod]

theorem dimensions_guessed (hl : range.localWorkSize = none) :
    (dimensions range g l n).workGroupSize = 1 := by
  induction n with
  | zero => rfl
  | succ n ih =>
    rw [dimensions_succ, next, hl, ih]
    rfl

end Checks

section Launch

variable {queue : QueueInfo} {device : Device} {objects : UInt64 → Option MemObject}
  {eventCode : Int} {kernel : Option LaunchedKernel} {k : LaunchedKernel} {d : DeviceKernel}
  {range : NDRange} {guess : UInt64 → Option UInt64} {g l : Nat → UInt64} {n m : Nat}
  {P : LaunchSizes → Prop}

/-- What a launch that is accepted promises of its sizes. -/
structure Sound (device : Device) (kernel : Option LaunchedKernel) (range : NDRange)
    (s : LaunchSizes) : Prop where
  dims : 1 ≤ range.workDim ∧ range.workDim ≤ device.maxWorkItemDimensions
  global : ∃ g, range.globalWorkSize = some g ∧
    ∀ i < range.workDim, s.globalAt i = g i ∧ 0 < (g i).toNat
  given : ∀ l, range.localWorkSize = some l → ∀ i < range.workDim, s.localAt i = l i
  loc : ∀ i < range.workDim, 0 < (s.localAt i).toNat ∧
    (s.localAt i).toNat ∣ (s.globalAt i).toNat ∧
    (s.localAt i).toNat ≤ (device.maxWorkItemSizes.getD i 0).toNat
  group : ((List.range range.workDim).map fun i => (s.localAt i).toNat).prod ≤
    device.maxWorkGroupSize.toNat
  required : ∀ k, kernel = some k → k.reqdWorkGroupSize.any = true →
    s.localAt 0 = k.reqdWorkGroupSize.x.toUInt64 ∧
    s.localAt 1 = k.reqdWorkGroupSize.y.toUInt64 ∧ s.localAt 2 = k.reqdWorkGroupSize.z.toUInt64

/-- The constructor finishes, and the sizes of a launch that it accepts are sound. -/
def Validated (queue : QueueInfo) (objects : UInt64 → Option MemObject) (eventCode : Int)
    (kernel : Option LaunchedKernel) (range : NDRange) : Prop :=
  (∃ n r, (create n queue objects eventCode kernel range).run = some r) ∧
  ∀ n s, (create n queue objects eventCode kernel range).run = some (.ok s) →
    Sound queue.device kernel range s

theorem checkDimension_below {guess' : UInt64 → Option UInt64} {maxItems : List UInt64}
    (h : ∀ size l, guess size = some l → guess' size = some l) (s : DimState) (i : Nat) :
    Below (checkDimension guess maxItems range s i) (checkDimension guess' maxItems range s i) := by
  unfold checkDimension
  cases range.globalWorkSize with
  | none => exact below_refl
  | some g =>
    cases range.localWorkSize with
    | some l => exact below_refl
    | none =>
      dsimp only
      cases hguess : guess (g i) with
      | none => exact fun r hr => nomatch hr
      | some l =>
        rw [h _ _ hguess]
        exact below_refl

/-- More passes for the guesses do not change what the constructor does. -/
theorem create_below (hle : n ≤ m) : Below (create n queue objects eventCode kernel range)
    (create m queue objects eventCode kernel range) := by
  unfold create
  cases kernel with
  | none => exact below_refl
  | some k =>
    refine below_bind below_refl fun _ => below_bind below_refl fun _ => ?_
    cases k.deviceKernel with
    | none => exact below_refl
    | some d =>
      refine below_bind below_refl fun _ => below_bind below_refl fun _ =>
        below_bind below_refl fun _ => below_bind below_refl fun _ => below_bind ?_ fun _ =>
          below_refl
      exact below_foldlM (checkDimension_below fun size l h => DeviceKernel.guess_mono h hle)

theorem validated_iff : Validated queue objects eventCode kernel range ↔
    ∃ n, Ends (create n queue objects eventCode kernel range)
      (Sound queue.device kernel range) := by
  constructor
  · rintro ⟨⟨n, r, hr⟩, hsound⟩
    exact ⟨n, ends_of_some hr (hsound n)⟩
  · rintro ⟨n, h⟩
    obtain ⟨r, hr⟩ := ends_some h
    refine ⟨⟨n, r, hr⟩, fun m s hs => ?_⟩
    have hn := create_below (Nat.le_max_left n m) r hr
    have hm := create_below (Nat.le_max_right n m) _ hs
    rw [hn] at hm
    rw [Option.some.inj hm] at hr
    exact ends_ok h hr

/-- The launch comes to the loop over its dimensions. -/
structure Admitted (queue : QueueInfo) (eventCode : Int) (k : LaunchedKernel) (d : DeviceKernel)
    (range : NDRange) : Prop where
  event : eventCode = clSuccess
  device : k.deviceKernel = some d
  context : k.context = queue.context
  args : k.kernel.argsSpecified = true
  dims : 1 ≤ range.workDim ∧ range.workDim ≤ queue.device.maxWorkItemDimensions
  required : k.reqdWorkGroupSize.any = true → ∃ l, range.localWorkSize = some l ∧
    k.reqdWorkGroupSize.mismatch range.workDim l = false

theorem ends_checkRequired {r : RequiredSize} {Q : Unit → Prop} : Ends (checkRequired r range) Q ↔
    ((r.any = true → ∃ l, range.localWorkSize = some l ∧ r.mismatch range.workDim l = false) →
      Q ()) := by
  unfold checkRequired
  split_ifs with hany
  · cases range.localWorkSize with
    | none => simp [hany]
    | some l => simp [hany]
  · simp [hany]

theorem ends_create : (∃ n, Ends (create n queue objects eventCode kernel range) P) ↔
    ∃ k, kernel = some k ∧ BuffersSet k.kernel.args ∧
      ∀ d, Admitted queue eventCode k d range → ∃ n, Ends (checkSizes
        (d.guessWorkGroupSize n range.workDim) queue.device objects k range) P := by
  cases kernel with
  | none => exact iff_of_false (fun ⟨n, h⟩ => h) (fun ⟨k, hk, _⟩ => nomatch hk)
  | some k =>
    simp only [create, ends_bind, ends_retainBuffers, ends_reject]
    constructor
    · rintro ⟨n, hset, h⟩
      refine ⟨k, rfl, hset, fun d had => ⟨n, ?_⟩⟩
      have h := h (by simpa using had.event)
      simp only [had.device, ends_bind, ends_reject, ends_checkRequired] at h
      have hdims := had.dims
      exact h (by simpa using had.context) (by simpa using had.args)
        (by simp only [Bool.or_eq_false_iff, decide_eq_false_iff_not]; omega) had.required
    · rintro ⟨k', heq, hset, h⟩
      cases heq
      by_cases had : ∃ d, Admitted queue eventCode k d range
      · obtain ⟨d, had⟩ := had
        obtain ⟨n, hn⟩ := h d had
        refine ⟨n, hset, fun _ => ?_⟩
        simp only [had.device, ends_bind, ends_reject, ends_checkRequired]
        exact fun _ _ _ _ => hn
      · refine ⟨0, hset, fun hevent => ?_⟩
        cases hd : k.deviceKernel with
        | none => exact ends_throw.mpr trivial
        | some d =>
          simp only [ends_bind, ends_reject, ends_checkRequired]
          intro hcontext hargs hdims hreqd
          simp only [Bool.or_eq_false_iff, decide_eq_false_iff_not] at hdims
          exact absurd ⟨d, by simpa using hevent, hd, by simpa using hcontext,
            by simpa using hargs, by omega, hreqd⟩ had

/-- What comes after the loop over the dimensions. -/
def Tail (device : Device) (objects : UInt64 → Option MemObject) (k : LaunchedKernel)
    (range : NDRange) (s : DimState) (P : LaunchSizes → Prop) : Prop :=
  s.workGroupSize.toNat ≤ device.maxWorkGroupSize.toNat →
    Clear (ArgFits device objects) (NullImage objects) k.kernel.args ∧
    ((∀ a ∈ k.kernel.args, ArgFits device objects a) →
      k.kernel.args.any Arg.isImage = true ∨ s.code = clSuccess →
      P (s.sizes.pad (device.maxWorkItemDimensions - range.workDim)))

theorem ends_tail {s : DimState} : Ends (do
      reject (device.maxWorkGroupSize < s.workGroupSize) clInvalidWorkGroupSize
      let code ← checkArgs device objects k.kernel.args s.code
      reject (code ≠ clSuccess) code
      return s.sizes.pad (device.maxWorkItemDimensions - range.workDim)) P ↔
    Tail device objects k range s P := by
  simp only [ends_bind, ends_reject, ends_checkArgs, ends_pure, Tail]
  have hsize : decide (device.maxWorkGroupSize < s.workGroupSize) = false ↔
      s.workGroupSize.toNat ≤ device.maxWorkGroupSize.toNat := by
    rw [decide_eq_false_iff_not, UInt64.lt_iff_toNat_lt, Nat.not_lt]
  have hcode : decide ((if k.kernel.args.any Arg.isImage then clSuccess else s.code) ≠ clSuccess)
      = false ↔ k.kernel.args.any Arg.isImage = true ∨ s.code = clSuccess := by
    rw [decide_eq_false_iff_not, not_not]
    split_ifs with h
    · exact iff_of_true rfl (.inl h)
    · exact (or_iff_right h).symm
  rw [hsize]
  exact imp_congr_right fun _ => and_congr_right fun _ => imp_congr_right fun _ => by rw [hcode]

theorem forall_mem_range {p : Nat → Prop} : (∀ i ∈ List.range n, p i) ↔ ∀ i < n, p i := by
  simp only [List.mem_range]

theorem ends_checkSizes_given (hg : range.globalWorkSize = some g)
    (hl : range.localWorkSize = some l) : Ends (checkSizes guess device objects k range) P ↔
      Clear (LocalFits device.maxWorkItemSizes g l) (fun i => l i = 0) (List.range range.workDim) ∧
      ((∀ i < range.workDim, LocalFits device.maxWorkItemSizes g l i) →
        Tail device objects k range (dimensions range g l range.workDim) P) := by
  have hstep : ∀ s i (Q : DimState → Prop),
      Ends (checkDimension guess device.maxWorkItemSizes range s i) Q ↔ _ :=
    fun s i Q => ends_checkDimension_given hg hl
  unfold checkSizes
  rw [ends_bind, ends_foldlM hstep, forall_mem_range, ends_tail]
  rfl

theorem ends_checkSizes_guess (hg : range.globalWorkSize = some g)
    (hl : range.localWorkSize = none) : Ends (checkSizes guess device objects k range) P ↔
      (∀ i < range.workDim, guess (g i) ≠ none) ∧ Tail device objects k range
        (dimensions range g (fun i => (guess (g i)).getD 0) range.workDim) P := by
  have hclear : ∀ l, Clear (fun _ => True) (fun i => guess (g i) = none) l ↔
      ∀ i ∈ l, guess (g i) ≠ none := by
    intro l
    induction l with
    | nil => simp [Clear]
    | cons i l ih => rw [Clear, ih, List.forall_mem_cons, true_imp_iff]
  have hstep : ∀ s i (Q : DimState → Prop),
      Ends (checkDimension guess device.maxWorkItemSizes range s i) Q ↔ _ :=
    fun s i Q => ends_checkDimension_guess hg hl
  unfold checkSizes
  rw [ends_bind, ends_foldlM hstep, hclear, forall_mem_range, imp_iff_right fun _ _ => trivial,
    ends_tail]
  rfl

/-- A missing global size is read in the first dimension. -/
theorem not_ends_checkSizes (hg : range.globalWorkSize = none) (hdims : 1 ≤ range.workDim) :
    ¬Ends (checkSizes guess device objects k range) P := by
  obtain ⟨n, hn⟩ : ∃ n, range.workDim = n + 1 := ⟨range.workDim - 1, by omega⟩
  unfold checkSizes
  rw [ends_bind, hn, List.range_succ_eq_map, List.foldlM_cons, ends_bind]
  unfold checkDimension
  rw [hg]
  exact id

theorem getD_pad {v : Nat → UInt64} {i : Nat} :
    ((List.range n).map v ++ List.replicate m 1).getD i 1 = if i < n then v i else 1 := by
  split_ifs with h
  · rw [List.getD_append _ _ _ _ (by simpa using h)]
    simp [h]
  · rw [List.getD_append_right _ _ _ _ (by simpa using h), List.getD_eq_getElem?_getD,
      List.getElem?_getD_replicate_default_eq]

theorem globalAt_dimensions {i : Nat} :
    ((dimensions range g l n).sizes.pad m).globalAt i = if i < n then g i else 1 := by
  rw [LaunchSizes.globalAt, LaunchSizes.pad, dimensions_sizes.1, getD_pad]

theorem localAt_dimensions {i : Nat} :
    ((dimensions range g l n).sizes.pad m).localAt i = if i < n then l i else 1 := by
  rw [LaunchSizes.localAt, LaunchSizes.pad, dimensions_sizes.2, getD_pad]

def GlobalsPositive (range : NDRange) (g : Nat → UInt64) : Prop :=
  ∀ i < range.workDim, 0 < (g i).toNat

/-- The size of a work-group, exactly. -/
def groupSize (range : NDRange) (l : Nat → Nat) : Nat := ((List.range range.workDim).map l).prod

/-- The sizes required of the dimensions that are missing are one. -/
def Padded (k : LaunchedKernel) (range : NDRange) : Prop :=
  k.reqdWorkGroupSize.any = true → (range.workDim ≤ 1 → k.reqdWorkGroupSize.y = 1) ∧
    (range.workDim ≤ 2 → k.reqdWorkGroupSize.z = 1)

theorem groupSize_congr {v w : Nat → Nat} (h : ∀ i < range.workDim, v i = w i) :
    groupSize range v = groupSize range w := by
  unfold groupSize
  rw [List.map_congr_left fun i hi => h i (List.mem_range.mp hi)]

/-- The sizes of an event are sound if those of its dimensions are. -/
theorem sound_iff (hdims : 1 ≤ range.workDim ∧ range.workDim ≤ device.maxWorkItemDimensions)
    (hg : range.globalWorkSize = some g) :
    Sound device (some k) range ((dimensions range g l range.workDim).sizes.pad m) ↔
      GlobalsPositive range g ∧
      (∀ v, range.localWorkSize = some v → ∀ i < range.workDim, l i = v i) ∧
      (∀ i < range.workDim, 0 < (l i).toNat ∧ LocalFits device.maxWorkItemSizes g l i) ∧
      groupSize range (fun i => (l i).toNat) ≤ device.maxWorkGroupSize.toNat ∧
      (k.reqdWorkGroupSize.any = true → l 0 = k.reqdWorkGroupSize.x.toUInt64 ∧
        (if 1 < range.workDim then l 1 else 1) = k.reqdWorkGroupSize.y.toUInt64 ∧
        (if 2 < range.workDim then l 2 else 1) = k.reqdWorkGroupSize.z.toUInt64) := by
  have hglobal : ∀ i < range.workDim,
      ((dimensions range g l range.workDim).sizes.pad m).globalAt i = g i :=
    fun i hi => by rw [globalAt_dimensions, if_pos hi]
  have hloc : ∀ i < range.workDim,
      ((dimensions range g l range.workDim).sizes.pad m).localAt i = l i :=
    fun i hi => by rw [localAt_dimensions, if_pos hi]
  have hgroup : ((List.range range.workDim).map fun i =>
      (((dimensions range g l range.workDim).sizes.pad m).localAt i).toNat).prod =
      groupSize range fun i => (l i).toNat :=
    groupSize_congr fun i hi => by rw [hloc i hi]
  constructor
  · intro h
    obtain ⟨g', hg', hpos⟩ := h.global
    cases hg.symm.trans hg'
    refine ⟨fun i hi => (hpos i hi).2, fun v hv i hi => ?_, fun i hi => ?_, ?_, fun hany => ?_⟩
    · rw [← hloc i hi]
      exact h.given v hv i hi
    · have hi' := h.loc i hi
      rw [hloc i hi, hglobal i hi] at hi'
      exact hi'
    · rw [← hgroup]
      exact h.group
    · have hreq := h.required k rfl hany
      rw [hloc 0 (by omega), localAt_dimensions, localAt_dimensions] at hreq
      exact hreq
  · rintro ⟨hpos, hgiven, hfits, hle, hreq⟩
    refine ⟨hdims, ⟨g, hg, fun i hi => ⟨hglobal i hi, hpos i hi⟩⟩, fun v hv i hi => ?_,
      fun i hi => ?_, ?_, ?_⟩
    · rw [hloc i hi]
      exact hgiven v hv i hi
    · rw [hloc i hi, hglobal i hi]
      exact hfits i hi
    · rw [hgroup]
      exact hle
    · rintro k' hk hany
      cases hk
      rw [hloc 0 (by omega), localAt_dimensions, localAt_dimensions]
      exact hreq hany

theorem required_iff {r : RequiredSize} (hdims : 1 ≤ n) (h : r.mismatch n l = false) :
    (l 0 = r.x.toUInt64 ∧ (if 1 < n then l 1 else 1) = r.y.toUInt64 ∧
      (if 2 < n then l 2 else 1) = r.z.toUInt64) ↔ (n ≤ 1 → r.y = 1) ∧ (n ≤ 2 → r.z = 1) := by
  have hone : ∀ y : UInt32, 1 = y.toUInt64 ↔ y = 1 := fun y =>
    ⟨fun h => UInt32.toUInt64_inj.mp (h.symm : y.toUInt64 = (1 : UInt32).toUInt64),
      fun h => by rw [h]; rfl⟩
  simp only [RequiredSize.mismatch, Bool.or_eq_false_iff, Bool.and_eq_false_imp,
    decide_eq_true_eq, decide_eq_false_iff_not, not_not] at h
  obtain ⟨⟨hx, hy⟩, hz⟩ := h
  rw [and_iff_right hx]
  apply and_congr
  · split_ifs with h1
    · exact iff_of_true (hy h1) (by omega)
    · rw [hone, imp_iff_right (by omega)]
  · split_ifs with h2
    · exact iff_of_true (hz h2) (by omega)
    · rw [hone, imp_iff_right (by omega)]

/-- The local sizes that are given are accepted; their product wraps around. -/
def GivenFits (device : Device) (range : NDRange) (g l : Nat → UInt64) : Prop :=
  (∀ i < range.workDim, LocalFits device.maxWorkItemSizes g l i) ∧
    groupSize range (fun i => (l i).toNat) % 2 ^ 64 ≤ device.maxWorkGroupSize.toNat

def ArgsFit (device : Device) (objects : UInt64 → Option MemObject) (k : LaunchedKernel) : Prop :=
  ∀ a ∈ k.kernel.args, ArgFits device objects a

/-- No image that is `NULL` is looked at. -/
def ImagesRead (device : Device) (objects : UInt64 → Option MemObject) (k : LaunchedKernel) :
    Prop :=
  Clear (ArgFits device objects) (NullImage objects) k.kernel.args

/-- A global size of zero is forgotten if there are images. -/
def NoneForgotten (k : LaunchedKernel) (range : NDRange) (g : Nat → UInt64) : Prop :=
  k.kernel.args.any Arg.isImage = true → GlobalsPositive range g

/-- What keeps a launch with given local sizes from going wrong. -/
structure GivenSafe (device : Device) (objects : UInt64 → Option MemObject) (k : LaunchedKernel)
    (range : NDRange) (g l : Nat → UInt64) : Prop where
  nonzero : Clear (LocalFits device.maxWorkItemSizes g l) (fun i => l i = 0)
    (List.range range.workDim)
  images : GivenFits device range g l → ImagesRead device objects k
  forgotten : GivenFits device range g l → ArgsFit device objects k → NoneForgotten k range g
  sizes : GivenFits device range g l → ArgsFit device objects k → GlobalsPositive range g →
    groupSize range (fun i => (l i).toNat) < 2 ^ 64 ∧ Padded k range

theorem given_sound_iff
    (hdims : 1 ≤ range.workDim ∧ range.workDim ≤ device.maxWorkItemDimensions)
    (hreqd : k.reqdWorkGroupSize.any = true →
      k.reqdWorkGroupSize.mismatch range.workDim l = false)
    (hg : range.globalWorkSize = some g) (hl : range.localWorkSize = some l)
    (hne : ∀ i < range.workDim, l i ≠ 0) (hfits : GivenFits device range g l) :
    Sound device (some k) range ((dimensions range g l range.workDim).sizes.pad m) ↔
      GlobalsPositive range g ∧ groupSize range (fun i => (l i).toNat) < 2 ^ 64 ∧
        Padded k range := by
  have hmax := device.maxWorkGroupSize.toNat_lt
  have hsize : groupSize range (fun i => (l i).toNat) ≤ device.maxWorkGroupSize.toNat ↔
      groupSize range (fun i => (l i).toNat) < 2 ^ 64 := by
    constructor
    · intro hle
      omega
    · intro hlt
      have hle := hfits.2
      rwa [Nat.mod_eq_of_lt hlt] at hle
  have hpos : ∀ i < range.workDim, 0 < (l i).toNat ∧ LocalFits device.maxWorkItemSizes g l i :=
    fun i hi => ⟨Nat.pos_of_ne_zero fun h => hne i hi (UInt64.toNat_inj.mp h), hfits.1 i hi⟩
  have hgiven : ∀ v, range.localWorkSize = some v → ∀ i < range.workDim, l i = v i := by
    intro v hv i _
    cases hl.symm.trans hv
    rfl
  rw [sound_iff hdims hg, hsize]
  refine and_congr_right fun _ => ?_
  rw [and_iff_right hgiven, and_iff_right hpos]
  exact and_congr_right fun _ => imp_congr_right fun hany => required_iff hdims.1 (hreqd hany)

theorem given_iff (hdims : 1 ≤ range.workDim ∧ range.workDim ≤ device.maxWorkItemDimensions)
    (hreqd : k.reqdWorkGroupSize.any = true →
      k.reqdWorkGroupSize.mismatch range.workDim l = false)
    (hg : range.globalWorkSize = some g) (hl : range.localWorkSize = some l) :
    Ends (checkSizes guess device objects k range) (Sound device (some k) range) ↔
      GivenSafe device objects k range g l := by
  rw [ends_checkSizes_given hg hl]
  unfold Tail
  rw [dimensions_workGroupSize hl, dimensions_code]
  constructor
  · rintro ⟨hclear, h⟩
    have hne : GivenFits device range g l → ∀ i < range.workDim, l i ≠ 0 := fun hfits =>
      forall_mem_range.mp (not_bad_of_clear hclear (forall_mem_range.mpr hfits.1))
    have hsound : GivenFits device range g l → ArgsFit device objects k →
        k.kernel.args.any Arg.isImage = true ∨ GlobalsPositive range g → _ :=
      fun hfits hargs hcode => (given_sound_iff hdims hreqd hg hl (hne hfits) hfits).mp
        ((h hfits.1 hfits.2).2 hargs hcode)
    exact ⟨hclear, fun hfits => (h hfits.1 hfits.2).1,
      fun hfits hargs himage => (hsound hfits hargs (.inl himage)).1,
      fun hfits hargs hpos => (hsound hfits hargs (.inr hpos)).2⟩
  · intro h
    refine ⟨h.nonzero, fun hfits hle => ⟨h.images ⟨hfits, hle⟩, fun hargs hcode => ?_⟩⟩
    have hne := forall_mem_range.mp (not_bad_of_clear h.nonzero (forall_mem_range.mpr hfits))
    have hpos : GlobalsPositive range g := hcode.elim (h.forgotten ⟨hfits, hle⟩ hargs) id
    exact (given_sound_iff hdims hreqd hg hl hne ⟨hfits, hle⟩).mpr
      ⟨hpos, h.sizes ⟨hfits, hle⟩ hargs hpos⟩

/-- The part of a global size that is guessed for a dimension. -/
def part (d : DeviceKernel) (range : NDRange) (g : Nat → UInt64) (i : Nat) : Nat :=
  (g i).toNat / d.parts range.workDim (g i)

/-- What keeps a launch without local sizes from going wrong. -/
structure GuessSafe (device : Device) (objects : UInt64 → Option MemObject) (k : LaunchedKernel)
    (d : DeviceKernel) (range : NDRange) (g : Nat → UInt64) : Prop where
  leaves : ∀ i < range.workDim, d.Leaves range.workDim (g i)
  images : 1 ≤ device.maxWorkGroupSize.toNat → ImagesRead device objects k
  forgotten : 1 ≤ device.maxWorkGroupSize.toNat → ArgsFit device objects k →
    NoneForgotten k range g
  sizes : 1 ≤ device.maxWorkGroupSize.toNat → ArgsFit device objects k →
    GlobalsPositive range g →
    (∀ i < range.workDim, part d range g i ≤ (device.maxWorkItemSizes.getD i 0).toNat) ∧
      groupSize range (part d range g) ≤ device.maxWorkGroupSize.toNat

theorem guessed_sound_iff
    (hdims : 1 ≤ range.workDim ∧ range.workDim ≤ device.maxWorkItemDimensions)
    (hreqd : k.reqdWorkGroupSize.any = false) (hg : range.globalWorkSize = some g)
    (hl : range.localWorkSize = none)
    (hpart : ∀ i < range.workDim, (l i).toNat = part d range g i) :
    Sound device (some k) range ((dimensions range g l range.workDim).sizes.pad m) ↔
      GlobalsPositive range g ∧
        (∀ i < range.workDim, part d range g i ≤ (device.maxWorkItemSizes.getD i 0).toNat) ∧
        groupSize range (part d range g) ≤ device.maxWorkGroupSize.toNat := by
  have hgiven : ∀ v, range.localWorkSize = some v → ∀ i < range.workDim, l i = v i := by
    intro v hv
    cases hl.symm.trans hv
  rw [sound_iff hdims hg, groupSize_congr hpart]
  refine and_congr_right fun hpos => ?_
  rw [and_iff_right hgiven, hreqd, and_iff_left (a := _ ≤ _) (by simp)]
  refine and_congr_left fun _ => forall₂_congr fun i hi => ?_
  have hdvd := d.parts_dvd range.workDim (g i)
  have hle := Nat.le_of_dvd (hpos i hi) hdvd
  have hpartPos : 0 < part d range g i := Nat.div_pos hle (d.parts_pos _ _)
  have hpartDvd : part d range g i ∣ (g i).toNat := Nat.div_dvd_of_dvd hdvd
  unfold LocalFits
  rw [hpart i hi, and_iff_right hpartPos, and_iff_right hpartDvd]

theorem guesses_come (hdims : 1 ≤ range.workDim) :
    (∃ n, ∀ i < range.workDim, d.guessWorkGroupSize n range.workDim (g i) ≠ none) ↔
      ∀ i < range.workDim, d.Leaves range.workDim (g i) := by
  constructor
  · rintro ⟨n, h⟩ i hi
    obtain ⟨l, hl⟩ := Option.ne_none_iff_exists'.mp (h i hi)
    exact (DeviceKernel.guess_iff hdims).mp ⟨n, l, hl⟩
  · intro h
    have hmono : ∀ n m i, n ≤ m → d.guessWorkGroupSize n range.workDim (g i) ≠ none →
        d.guessWorkGroupSize m range.workDim (g i) ≠ none := by
      intro n m i hle hn
      obtain ⟨l, hl⟩ := Option.ne_none_iff_exists'.mp hn
      rw [DeviceKernel.guess_mono hl hle]
      exact Option.some_ne_none l
    have hall := exists_forall (l := List.range range.workDim) hmono fun i hi => by
      obtain ⟨n, l, hl⟩ := (DeviceKernel.guess_iff hdims).mpr (h i (List.mem_range.mp hi))
      exact ⟨n, by rw [hl]; exact Option.some_ne_none l⟩
    simpa only [List.mem_range] using hall

theorem guess_safe_iff
    (hdims : 1 ≤ range.workDim ∧ range.workDim ≤ device.maxWorkItemDimensions)
    (hreqd : k.reqdWorkGroupSize.any = false) (hg : range.globalWorkSize = some g)
    (hl : range.localWorkSize = none) :
    (∃ n, Ends (checkSizes (d.guessWorkGroupSize n range.workDim) device objects k range)
      (Sound device (some k) range)) ↔ GuessSafe device objects k d range g := by
  have hguess : ∀ n, (∀ i < range.workDim, d.guessWorkGroupSize n range.workDim (g i) ≠ none) →
      ∀ i < range.workDim, ((d.guessWorkGroupSize n range.workDim (g i)).getD 0).toNat =
        part d range g i := by
    intro n h i hi
    obtain ⟨l, hl⟩ := Option.ne_none_iff_exists'.mp (h i hi)
    rw [hl, Option.getD_some]
    exact DeviceKernel.guess_eq hdims.1 hl
  simp only [ends_checkSizes_guess hg hl, Tail, dimensions_guessed hl, dimensions_code]
  constructor
  · rintro ⟨n, hcome, h⟩
    have hsound : 1 ≤ device.maxWorkGroupSize.toNat → ArgsFit device objects k →
        k.kernel.args.any Arg.isImage = true ∨ GlobalsPositive range g → _ :=
      fun hle hargs hcode => (guessed_sound_iff hdims hreqd hg hl (hguess n hcome)).mp
        ((h hle).2 hargs hcode)
    exact ⟨(guesses_come hdims.1).mp ⟨n, hcome⟩, fun hle => (h hle).1,
      fun hle hargs himage => (hsound hle hargs (.inl himage)).1,
      fun hle hargs hpos => (hsound hle hargs (.inr hpos)).2⟩
  · intro h
    obtain ⟨n, hcome⟩ := (guesses_come hdims.1).mpr h.leaves
    refine ⟨n, hcome, fun hle => ⟨h.images hle, fun hargs hcode => ?_⟩⟩
    have hpos : GlobalsPositive range g := hcode.elim (h.forgotten hle hargs) id
    exact (guessed_sound_iff hdims hreqd hg hl (hguess n hcome)).mpr
      ⟨hpos, h.sizes hle hargs hpos⟩

/-- What keeps the sizes from going wrong. -/
def SizesSafe (device : Device) (objects : UInt64 → Option MemObject) (k : LaunchedKernel)
    (d : DeviceKernel) (range : NDRange) (g : Nat → UInt64) : Prop :=
  match range.localWorkSize with
  | some l => GivenSafe device objects k range g l
  | none => GuessSafe device objects k d range g

/-- What keeps the constructor from going wrong. -/
def Safe (queue : QueueInfo) (objects : UInt64 → Option MemObject) (eventCode : Int)
    (kernel : Option LaunchedKernel) (range : NDRange) : Prop :=
  ∃ k, kernel = some k ∧ BuffersSet k.kernel.args ∧
    ∀ d, Admitted queue eventCode k d range →
      ∃ g, range.globalWorkSize = some g ∧ SizesSafe queue.device objects k d range g

theorem checkSizes_iff (had : Admitted queue eventCode k d range) :
    (∃ n, Ends (checkSizes (d.guessWorkGroupSize n range.workDim) queue.device objects k range)
      (Sound queue.device (some k) range)) ↔
    ∃ g, range.globalWorkSize = some g ∧ SizesSafe queue.device objects k d range g := by
  unfold SizesSafe
  cases hg : range.globalWorkSize with
  | none =>
    apply iff_of_false
    · rintro ⟨n, h⟩
      exact not_ends_checkSizes hg had.dims.1 h
    · rintro ⟨g, h, -⟩
      cases h
  | some g =>
    simp only [Option.some.injEq, exists_eq_left']
    cases hl : range.localWorkSize with
    | none =>
      have hany : k.reqdWorkGroupSize.any = false := by
        rw [Bool.eq_false_iff]
        intro hany
        obtain ⟨l, hl', -⟩ := had.required hany
        cases hl.symm.trans hl'
      exact guess_safe_iff had.dims hany hg hl
    | some l =>
      have hreqd : k.reqdWorkGroupSize.any = true →
          k.reqdWorkGroupSize.mismatch range.workDim l = false := by
        intro hany
        obtain ⟨l', hl', hmatch⟩ := had.required hany
        cases hl.symm.trans hl'
        exact hmatch
      rw [exists_congr fun n => given_iff had.dims hreqd hg hl, exists_const]

/-- A launch is validated exactly if it meets none of the places where a check comes too late, is
forgotten or is left out. -/
theorem validated_iff_safe (queue : QueueInfo) (objects : UInt64 → Option MemObject)
    (eventCode : Int) (kernel : Option LaunchedKernel) (range : NDRange) :
    Validated queue objects eventCode kernel range ↔
      Safe queue objects eventCode kernel range := by
  rw [validated_iff, ends_create, Safe]
  refine exists_congr fun k => and_congr_right fun hk => and_congr_right fun _ => ?_
  rw [hk]
  exact forall_congr' fun d => forall_congr' fun had => checkSizes_iff had

/-- The offset of a dimension. -/
def offsetOf (range : NDRange) (i : Nat) : UInt64 := (range.globalWorkOffset.map (· i)).getD 0

/-- The sizes that an event keeps for an accepted launch: those of the dimensions it has, and then
the missing ones. -/
structure Keeps (range : NDRange) (g l : Nat → UInt64) (s : LaunchSizes) : Prop where
  given : range.globalWorkSize = some g
  divides : ∀ i < range.workDim, (l i).toNat ∣ (g i).toNat
  positive : ∀ i < range.workDim, 0 < (g i).toNat → 0 < (l i).toNat
  padded : ∃ m, s = (dimensions range g l range.workDim).sizes.pad m

theorem dimensions_offset :
    (dimensions range g l n).sizes.offset = (List.range n).map (offsetOf range) := by
  induction n with
  | zero => rfl
  | succ n ih =>
    rw [dimensions_succ, List.range_succ, List.map_append, ← ih]
    rfl

theorem tail_imp {d : DimState} {Q : LaunchSizes → Prop} (h : Tail device objects k range d P)
    (hQ : Q (d.sizes.pad (device.maxWorkItemDimensions - range.workDim))) :
    Tail device objects k range d Q :=
  fun hle => ⟨(h hle).1, fun _ _ => hQ⟩

theorem keeps_of_given {guess : UInt64 → Option UInt64} (hg : range.globalWorkSize = some g)
    (hl : range.localWorkSize = some l) (h : Ends (checkSizes guess device objects k range) P) :
    Ends (checkSizes guess device objects k range) fun s => ∃ l, Keeps range g l s := by
  rw [ends_checkSizes_given hg hl] at h ⊢
  obtain ⟨hclear, htail⟩ := h
  refine ⟨hclear,
    fun hfits => tail_imp (htail hfits) ⟨l, hg, fun i hi => (hfits i hi).1, ?_, _, rfl⟩⟩
  have hne := not_bad_of_clear hclear (forall_mem_range.mpr hfits)
  intro i hi _
  have hzero : l i ≠ 0 := hne i (List.mem_range.mpr hi)
  exact Nat.pos_of_ne_zero fun h0 => hzero (UInt64.toNat_inj.mp h0)

theorem keeps_of_guess {d : DeviceKernel} (hdims : 1 ≤ range.workDim)
    (hg : range.globalWorkSize = some g) (hl : range.localWorkSize = none)
    (h : Ends (checkSizes (d.guessWorkGroupSize n range.workDim) device objects k range) P) :
    Ends (checkSizes (d.guessWorkGroupSize n range.workDim) device objects k range)
      fun s => ∃ l, Keeps range g l s := by
  rw [ends_checkSizes_guess hg hl] at h ⊢
  obtain ⟨hcome, htail⟩ := h
  have hguess (i : Nat) (hi : i < range.workDim) :
      ((d.guessWorkGroupSize n range.workDim (g i)).getD 0).toNat =
        (g i).toNat / d.parts range.workDim (g i) := by
    obtain ⟨v, hv⟩ := Option.ne_none_iff_exists'.mp (hcome i hi)
    rw [hv, Option.getD_some]
    exact DeviceKernel.guess_eq hdims hv
  refine ⟨hcome, tail_imp htail ⟨_, hg, fun i hi => ?_, fun i hi hpos => ?_, _, rfl⟩⟩
  · rw [hguess i hi]
    exact Nat.div_dvd_of_dvd (DeviceKernel.parts_dvd d _ _)
  · rw [hguess i hi]
    exact Nat.div_pos (Nat.le_of_dvd hpos (DeviceKernel.parts_dvd d _ _))
      (DeviceKernel.parts_pos d _ _)

/-- An accepted launch keeps sizes that divide each other. -/
theorem keeps_of_created
    (h : (create n queue objects eventCode kernel range).run = some (.ok s)) :
    ∃ g l, Keeps range g l s := by
  have hends : ∃ n, Ends (create n queue objects eventCode kernel range) fun _ => True :=
    ⟨n, ends_of_some h fun _ _ => trivial⟩
  obtain ⟨k, hk, hset, hsizes⟩ := ends_create.mp hends
  have hkeeps : ∃ n, Ends (create n queue objects eventCode kernel range)
      fun s => ∃ g l, Keeps range g l s := by
    refine ends_create.mpr ⟨k, hk, hset, fun d had => ?_⟩
    obtain ⟨n, hn⟩ := hsizes d had
    refine ⟨n, ?_⟩
    cases hg : range.globalWorkSize with
    | none => exact absurd hn (not_ends_checkSizes hg had.dims.1)
    | some g =>
      cases hl : range.localWorkSize with
      | some l => exact ends_imp (keeps_of_given hg hl hn) fun s hs => ⟨g, hs⟩
      | none => exact ends_imp (keeps_of_guess had.dims.1 hg hl hn) fun s hs => ⟨g, hs⟩
  obtain ⟨m, hm⟩ : ∃ m, Ends (create m queue objects eventCode kernel range)
      fun s => ∃ g l, Keeps range g l s := hkeeps
  obtain ⟨r, hr⟩ := ends_some hm
  have hn' := create_below (Nat.le_max_left n m) _ h
  have hm' := create_below (Nat.le_max_right n m) _ hr
  rw [hn'] at hm'
  rw [← Option.some.inj hm'] at hr
  exact ends_ok (P := fun s => ∃ g l, Keeps range g l s) hm hr

/-- A CPU, which has no images. -/
def cpuQueue : QueueInfo where
  context := 0
  device := {
    memBaseAddrAlign := 1024
    execNativeKernel := true
    maxWorkGroupSize := 46 * 1024
    maxWorkItemDimensions := 3
    maxWorkItemSizes := [46 * 1024, 46 * 1024, 46 * 1024]
    image2DMaxWidth := 0
    image2DMaxHeight := 0
    image3DMaxWidth := 0
    image3DMaxHeight := 0
    image3DMaxDepth := 0 }

theorem null_kernel_crashes : ¬∀ (queue : QueueInfo) (objects : UInt64 → Option MemObject)
    (eventCode : Int) (kernel : Option LaunchedKernel) (range : NDRange),
    Validated queue objects eventCode kernel range := by
  intro h
  obtain ⟨⟨n, r, hr⟩, -⟩ := h cpuQueue (fun _ => none) clSuccess none
    ⟨1, none, some fun _ => 64, none⟩
  cases hr

end Launch

/-! ## The tests alone -/

section Tests

variable {α β : Type} {h : α → β} {queue : QueueInfo} {objects : UInt64 → Option MemObject}
  {k : LaunchedKernel} {range : NDRange} {guess : UInt64 → Option UInt64} {g : Nat → UInt64}
  {i m n : Nat}

/-- The part of a kernel that the tests look at. -/
def info (k : LaunchedKernel) : KernelInfo where
  context := k.context
  deviceKernel := k.deviceKernel.isSome
  reqdWorkGroupSize := [k.reqdWorkGroupSize.x.toUInt64, k.reqdWorkGroupSize.y.toUInt64,
    k.reqdWorkGroupSize.z.toUInt64]

/-- An array that is given, with an entry for each dimension. -/
def entries (range : NDRange) (sizes : Option (Nat → UInt64)) : Option (List UInt64) :=
  sizes.map fun f => (List.range range.workDim).map f

theorem map_reject {t : Bool} {e : Int} {f : Unit → Check α} {f' : Unit → Check β}
    (hf : t = false → h <$> f () = f' ()) : h <$> (reject t e >>= f) = reject t e >>= f' := by
  cases t with
  | true => rfl
  | false => exact hf rfl

theorem mismatch_eq {l : Nat → UInt64} (hpos : 1 ≤ range.workDim) (hle : range.workDim ≤ 3) :
    decide (((List.range range.workDim).map l).take range.workDim ≠
      (info k).reqdWorkGroupSize.take range.workDim) =
    k.reqdWorkGroupSize.mismatch range.workDim l := by
  unfold info RequiredSize.mismatch
  obtain hd | hd | hd : range.workDim = 1 ∨ range.workDim = 2 ∨ range.workDim = 3 := by omega
  all_goals
    rw [hd]
    simp [List.range_succ, Bool.or_assoc]

theorem checkRequired_eq (hpos : 1 ≤ range.workDim) (hle : range.workDim ≤ 3) :
    checkRequired k.reqdWorkGroupSize range =
      if (info k).reqdWorkGroupSize.any (0 < ·) then
        match entries range range.localWorkSize with
        | none => throw clInvalidWorkGroupSize
        | some l => reject (l.take range.workDim ≠ (info k).reqdWorkGroupSize.take range.workDim)
          clInvalidWorkGroupSize
      else pure () := by
  have hany : (info k).reqdWorkGroupSize.any (0 < ·) = k.reqdWorkGroupSize.any := by
    simp [info, RequiredSize.any, UInt64.lt_iff_toNat_lt, UInt32.lt_iff_toNat_lt, Bool.or_assoc]
  rw [checkRequired, hany]
  cases hl : range.localWorkSize with
  | none => simp [entries]
  | some l =>
    simp only [entries, Option.map_some]
    rw [mismatch_eq hpos hle]

/-- The rest of the dimensions, from `i` on. -/
theorem checkDimensions_eq (maxItems : List UInt64) (s : DimState)
    (hg : range.globalWorkSize = some g) (hi : i + m = range.workDim)
    (hguess : range.localWorkSize = none → ∀ j < range.workDim, guess (g j) ≠ none) :
    (fun s : DimState => (s.code, s.workGroupSize)) <$>
        (List.range' i m).foldlM (checkDimension guess maxItems range) s =
      checkDimensions ((List.range range.workDim).map g) (entries range range.localWorkSize)
        maxItems m (s.code, s.workGroupSize) := by
  induction m generalizing i s with
  | zero => rfl
  | succ m ih =>
    have hat : ((List.range range.workDim).map g).length - (m + 1) = i := by
      rw [List.length_map, List.length_range]
      omega
    have hentry (f : Nat → UInt64) : ((List.range range.workDim).map f).getD i 0 = f i := by
      simp [List.getD_eq_getElem?_getD, (by omega : i < range.workDim)]
    rw [List.range'_succ, List.foldlM_cons, checkDimensions.eq_def]
    simp only [hat, hentry]
    cases hl : range.localWorkSize with
    | none =>
      obtain ⟨l, hguessed⟩ := Option.ne_none_iff_exists'.mp (hguess hl i (by omega))
      have hdim : checkDimension guess maxItems range s i = pure
          ⟨if g i = 0 then clInvalidGlobalWorkSize else s.code, s.workGroupSize,
            s.sizes.add ((range.globalWorkOffset.map (· i)).getD 0) (g i) l⟩ := by
        simp only [checkDimension, hg, hl, hguessed]
      rw [hdim, pure_bind, ih _ (by omega), hl]
      rfl
    | some l =>
      simp only [entries, Option.map_some, hentry]
      by_cases hzero : l i = 0
      · have hdim : checkDimension guess maxItems range s i = crash := by
          simp only [checkDimension, hg, hl, remainder, if_pos hzero]
        rw [hdim, if_pos hzero]
        rfl
      · have hdim : checkDimension guess maxItems range s i = do
            reject (g i % l i ≠ 0) clInvalidWorkGroupSize
            reject (maxItems.getD i 0 < l i) clInvalidWorkItemSize
            return ⟨if g i = 0 then clInvalidGlobalWorkSize else s.code, s.workGroupSize * l i,
              s.sizes.add ((range.globalWorkOffset.map (· i)).getD 0) (g i) (l i)⟩ := by
          simp only [checkDimension, hg, hl, remainder, if_neg hzero]
        rw [hdim, if_neg hzero]
        simp only [bind_assoc, pure_bind]
        refine map_reject fun _ => map_reject fun _ => ?_
        rw [ih _ (by omega), hl]
        rfl

theorem retainBuffers_eq {args : List Arg} (hset : BuffersSet args) :
    retainBuffers args = pure () := by
  induction args with
  | nil => rfl
  | cons a args ih =>
    obtain ⟨ha, hargs⟩ := List.forall_mem_cons.mp hset
    rw [retainBuffers, if_neg, ih hargs]
    rw [Bool.and_eq_true, Option.isNone_iff_eq_none]
    exact fun h => ha h.1 h.2

theorem checkSizes_eq (device : Device) (hpos : 1 ≤ range.workDim)
    (hguess : range.localWorkSize = none → ∀ g, range.globalWorkSize = some g →
      ∀ i < range.workDim, guess (g i) ≠ none) :
    (fun _ => ()) <$> checkSizes guess device objects k range =
      (match entries range range.globalWorkSize with
      | none => crash
      | some globalSize => do
        let (code, workGroupSize) ← checkDimensions globalSize
          (entries range range.localWorkSize) device.maxWorkItemSizes range.workDim (clSuccess, 1)
        reject (device.maxWorkGroupSize < workGroupSize) clInvalidWorkGroupSize
        let code ← checkArgs device objects k.kernel.args code
        reject (code ≠ clSuccess) code) := by
  unfold checkSizes
  cases hg : range.globalWorkSize with
  | none =>
    obtain ⟨m, hm⟩ : ∃ m, range.workDim = m + 1 := ⟨range.workDim - 1, by omega⟩
    rw [hm, List.range_succ_eq_map, List.foldlM_cons, checkDimension, hg]
    rfl
  | some g =>
    have hdims := checkDimensions_eq device.maxWorkItemSizes ⟨clSuccess, 1, ⟨[], [], []⟩⟩ hg
      (Nat.zero_add _) fun hl => hguess hl g hg
    rw [← List.range_eq_range'] at hdims
    simp only [entries, Option.map_some]
    rw [← entries, ← hdims]
    simp only [map_eq_pure_bind, bind_assoc, pure_bind, bind_pure_unit]

/-- Where every buffer has been set and every guess ends, the constructor makes the tests of
`kernelEvent`, in the same order. -/
theorem create_tests (hset : BuffersSet k.kernel.args) (hle : range.workDim ≤ 3)
    (hguess : ∀ d, k.deviceKernel = some d → range.localWorkSize = none →
      ∀ g, range.globalWorkSize = some g →
        ∀ i < range.workDim, d.guessWorkGroupSize n range.workDim (g i) ≠ none) :
    (fun _ => ()) <$> create n queue objects clSuccess (some k) range =
      kernelEvent queue objects (info k) k.kernel range.workDim
        (entries range range.globalWorkSize) (entries range range.localWorkSize) := by
  have hsuccess : reject (decide (clSuccess ≠ clSuccess)) clSuccess = pure () := rfl
  unfold create kernelEvent
  simp only [retainBuffers_eq hset, hsuccess, pure_bind]
  cases hk : k.deviceKernel with
  | none =>
    simp only [info, hk]
    rfl
  | some d =>
    have hdevice : reject (!(info k).deviceKernel) clInvalidProgramExecutable = pure () := by
      simp only [info, hk]
      rfl
    simp only [hdevice, pure_bind]
    refine map_reject fun _ => map_reject fun _ => map_reject fun hdim => ?_
    have hpos : 1 ≤ range.workDim := by
      rw [Bool.or_eq_false_iff, decide_eq_false_iff_not] at hdim
      omega
    have hsizes := @checkSizes_eq objects k range _ queue.device hpos (hguess d hk)
    rw [checkRequired_eq hpos hle]
    split_ifs with hany
    · cases hl : entries range range.localWorkSize with
      | none => rfl
      | some l =>
        rw [hl] at hsizes
        exact map_reject fun _ => hsizes
    · rw [pure_bind]
      exact hsizes
end Tests

end KernelEvent

end Shamrock.Runtime
