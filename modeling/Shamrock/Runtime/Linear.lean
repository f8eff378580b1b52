import Shamrock.Runtime.Commands
import Mathlib.Data.UInt

/-!
# Linear transfers

The ranges that reads, writes, maps, copies, fills and sub-buffers name in a memory object, and the
test `offset + cb > size()` that each of their constructors makes.
-/
namespace Shamrock.Runtime

def clMemReadWrite : UInt64 := 1
def clMemWriteOnly : UInt64 := 2
def clMemReadOnly : UInt64 := 4
def clMemUseHostPtr : UInt64 := 8
def clMemAllocHostPtr : UInt64 := 16
def clMemCopyHostPtr : UInt64 := 32
def clMemUseMsmcTi : UInt64 := 1048576

/-- The constructor of `MemObject`. -/
def memObject (flags hostPtr : UInt64) : Check Unit := do
  reject (flags &&& clMemReadWrite ≠ 0 && flags &&& clMemReadOnly ≠ 0) clInvalidValue
  reject (flags &&& clMemReadWrite ≠ 0 && flags &&& clMemWriteOnly ≠ 0) clInvalidValue
  reject (flags &&& clMemReadOnly ≠ 0 && flags &&& clMemWriteOnly ≠ 0) clInvalidValue
  reject (flags &&& ~~~(clMemReadWrite ||| clMemWriteOnly ||| clMemReadOnly ||| clMemUseHostPtr |||
    clMemAllocHostPtr ||| clMemCopyHostPtr ||| clMemHostWriteOnly ||| clMemHostReadOnly |||
    clMemHostNoAccess ||| clMemUseMsmcTi) ≠ 0) clInvalidValue
  reject (flags &&& clMemAllocHostPtr ≠ 0 && flags &&& clMemUseHostPtr ≠ 0) clInvalidValue
  reject (flags &&& clMemCopyHostPtr ≠ 0 && flags &&& clMemUseHostPtr ≠ 0) clInvalidValue
  reject (flags &&& (clMemUseHostPtr ||| clMemCopyHostPtr) ≠ 0 && hostPtr = 0) clInvalidHostPtr
  reject (flags &&& (clMemUseHostPtr ||| clMemCopyHostPtr) = 0 && hostPtr ≠ 0) clInvalidHostPtr

/-- The constructor of `SubBuffer`. It goes on after an error of `MemObject`, which stands only if
no other is found. -/
def subBuffer (parent : MemObject) (offset size flags : UInt64) : Check Unit := do
  reject (size = 0) clInvalidBufferSize
  reject (parent.size < offset + size) clInvalidBufferSize
  reject (flags &&& (clMemAllocHostPtr ||| clMemUseHostPtr ||| clMemCopyHostPtr) ≠ 0)
    clInvalidValue
  reject (parent.flags &&& clMemWriteOnly ≠ 0 &&
    flags &&& (clMemReadWrite ||| clMemReadOnly) ≠ 0) clInvalidValue
  reject (parent.flags &&& clMemReadOnly ≠ 0 &&
    flags &&& (clMemReadWrite ||| clMemWriteOnly) ≠ 0) clInvalidValue
  memObject flags 0

/-- An object that nothing can exceed. -/
def MemObject.largest (b : MemObject) : MemObject := { b with size := 0xFFFFFFFFFFFFFFFF }

section Checks

variable {α β : Type} {x : Check α} {f : α → Check β} {b : β} {test : Bool} {code : Int} {u : Unit}

theorem bind_eq_pure : x >>= f = pure b ↔ ∃ a, x = pure a ∧ f a = pure b := by
  constructor
  · intro h
    match x with
    | none => cases h
    | some (.error e) => cases h
    | some (.ok a) => exact ⟨a, rfl, h⟩
  · rintro ⟨a, rfl, h⟩
    exact h

theorem reject_eq_pure : reject test code = pure u ↔ test = false := by
  cases test with
  | false => exact ⟨fun _ => rfl, fun _ => rfl⟩
  | true =>
    constructor
    · intro h
      cases h
    · intro h
      cases h

end Checks

/-- The tests of `BufferEvent`. -/
def MemObject.Fits (b : MemObject) (queue : QueueInfo) : Prop :=
  b.context = queue.context ∧ isSubBufferAligned b queue.device = true ∧ b.allocates = true

theorem bufferEvent_eq_pure {queue : QueueInfo} {b b' : MemObject} :
    bufferEvent queue (some b) = pure b' ↔ b.Fits queue ∧ b' = b := by
  simp only [bufferEvent, MemObject.Fits, bind_eq_pure, reject_eq_pure]
  constructor
  · rintro ⟨-, hc, -, ha, -, hl, heq⟩
    cases heq
    simp only [ne_eq, decide_not, Bool.not_eq_false', decide_eq_true_eq] at hc ha hl
    exact ⟨⟨hc, ha, hl⟩, rfl⟩
  · rintro ⟨⟨hc, ha, hl⟩, rfl⟩
    exact ⟨(), by simp [hc], (), by simp [ha], (), by simp [hl], rfl⟩

/-- A constructor with the objects it was given. -/
inductive LinearCommand
  | readWriteBuffer (buffer : MemObject) (offset cb ptr : UInt64)
  | mapBuffer (buffer : MemObject) (offset cb mapFlags : UInt64)
  | copyBuffer (source destination : MemObject) (same : Bool) (srcOffset dstOffset cb : UInt64)
  | fillBuffer (buffer : MemObject) (pattern patternSize offset size : UInt64)
  | subBuffer (parent : MemObject) (offset size flags : UInt64)

namespace LinearCommand

def construct (queue : QueueInfo) : LinearCommand → Check Unit
  | .readWriteBuffer buffer offset cb ptr => readWriteBufferEvent queue (some buffer) offset cb ptr
  | .mapBuffer buffer offset cb mapFlags => mapBufferEvent queue (some buffer) offset cb mapFlags
  | .copyBuffer source destination same srcOffset dstOffset cb =>
    copyBufferEvent queue (some source) (some destination) same srcOffset dstOffset cb
  | .fillBuffer buffer pattern patternSize offset size =>
    fillBufferEvent queue (some buffer) pattern patternSize offset size
  | .subBuffer parent offset size flags => Runtime.subBuffer parent offset size flags

end LinearCommand

/-- `cb` bytes from `offset` on, of an object of `size` bytes. -/
structure Range where
  offset : UInt64
  cb : UInt64
  size : UInt64
  deriving DecidableEq, Repr

namespace Range

/-- The test of the constructors. -/
def check (r : Range) : Bool := !(r.size < r.offset + r.cb)

/-- All the bytes are bytes of the object. -/
def Inside (r : Range) : Prop := r.offset.toNat + r.cb.toNat ≤ r.size.toNat

def Wraps (r : Range) : Prop := 2 ^ 64 ≤ r.offset.toNat + r.cb.toNat

instance (r : Range) : Decidable r.Inside := inferInstanceAs (Decidable (_ ≤ _))

instance (r : Range) : Decidable r.Wraps := inferInstanceAs (Decidable (_ ≤ _))

theorem inside_iff (r : Range) : r.Inside ↔ r.check = true ∧ ¬r.Wraps := by
  have hs := r.size.toNat_lt
  unfold Inside check Wraps
  simp only [Bool.not_eq_true', decide_eq_false_iff_not, UInt64.lt_iff_toNat_lt,
    UInt64.toNat_add]
  omega

end Range

namespace LinearCommand

/-- What the command touches in memory objects. -/
def ranges : LinearCommand → List Range
  | .readWriteBuffer buffer offset cb _ | .mapBuffer buffer offset cb _
  | .fillBuffer buffer _ _ offset cb | .subBuffer buffer offset cb _ => [⟨offset, cb, buffer.size⟩]
  | .copyBuffer source destination _ srcOffset dstOffset cb =>
    [⟨srcOffset, cb, source.size⟩, ⟨dstOffset, cb, destination.size⟩]

/-- The same command on objects so large that no range can exceed them. -/
def enlarged : LinearCommand → LinearCommand
  | .readWriteBuffer buffer offset cb ptr => .readWriteBuffer buffer.largest offset cb ptr
  | .mapBuffer buffer offset cb mapFlags => .mapBuffer buffer.largest offset cb mapFlags
  | .copyBuffer source destination same srcOffset dstOffset cb =>
    .copyBuffer source.largest destination.largest same srcOffset dstOffset cb
  | .fillBuffer buffer pattern patternSize offset size =>
    .fillBuffer buffer.largest pattern patternSize offset size
  | .subBuffer parent offset size flags => .subBuffer parent.largest offset size flags

/-- All tests but those of the ranges pass. -/
def OtherTests (queue : QueueInfo) (c : LinearCommand) : Prop :=
  c.enlarged.construct queue = pure ()

variable {queue : QueueInfo} {c : LinearCommand}

theorem le_largest (b : MemObject) (n : UInt64) : n ≤ b.largest.size := by
  have hn := n.toNat_lt
  rw [UInt64.le_iff_toNat_le]
  change n.toNat ≤ 2 ^ 64 - 1
  omega

theorem fits_largest {b : MemObject} : b.largest.Fits queue ↔ b.Fits queue := Iff.rfl

theorem aligned_largest {b : MemObject} {device : Device} :
    isSubBufferAligned b.largest device = isSubBufferAligned b device := rfl

theorem construct_eq_pure (queue : QueueInfo) (c : LinearCommand) : c.construct queue = pure () ↔
    c.OtherTests queue ∧ ∀ r ∈ c.ranges, r.check = true := by
  cases c with
  | readWriteBuffer buffer offset cb ptr =>
    simp [OtherTests, construct, enlarged, readWriteBufferEvent, bind_eq_pure, reject_eq_pure,
      bufferEvent_eq_pure, fits_largest, le_largest, ranges, Range.check]
    tauto
  | mapBuffer buffer offset cb mapFlags =>
    have hflags : buffer.largest.flags = buffer.flags := rfl
    simp [OtherTests, construct, enlarged, mapBufferEvent, bind_eq_pure, reject_eq_pure,
      bufferEvent_eq_pure, fits_largest, le_largest, hflags, ranges, Range.check]
    tauto
  | copyBuffer source destination same srcOffset dstOffset cb =>
    have hallocates : destination.largest.allocates = destination.allocates := rfl
    simp [OtherTests, construct, enlarged, copyBufferEvent, bind_eq_pure, reject_eq_pure,
      bufferEvent_eq_pure, fits_largest, le_largest, aligned_largest, hallocates, ranges,
      Range.check]
    tauto
  | fillBuffer buffer pattern patternSize offset size =>
    simp [OtherTests, construct, enlarged, fillBufferEvent, bind_eq_pure, reject_eq_pure,
      bufferEvent_eq_pure, fits_largest, le_largest, ranges, Range.check]
    tauto
  | subBuffer parent offset size flags =>
    have hflags : parent.largest.flags = parent.flags := rfl
    simp [OtherTests, construct, enlarged, Runtime.subBuffer, bind_eq_pure, reject_eq_pure,
      le_largest, hflags, ranges, Range.check]
    tauto

/-- A constructor accepts exactly the ranges inside its objects, unless a sum wraps around into
them. -/
theorem accepts_ranges_inside_iff (queue : QueueInfo) (c : LinearCommand) :
    (c.OtherTests queue → (c.construct queue = pure () ↔ ∀ r ∈ c.ranges, r.Inside)) ↔
      ¬(c.OtherTests queue ∧ (∀ r ∈ c.ranges, r.check = true) ∧ ∃ r ∈ c.ranges, r.Wraps) := by
  have hcheck : ∀ r ∈ c.ranges, r.Inside → r.check = true := fun r _ h => (r.inside_iff.mp h).1
  rw [construct_eq_pure]
  constructor
  · rintro h ⟨ho, hc, r, hr, hw⟩
    have hinside := ((h ho).mp ⟨ho, hc⟩) r hr
    exact (r.inside_iff.mp hinside).2 hw
  · intro h ho
    constructor
    · rintro ⟨-, hc⟩ r hr
      refine r.inside_iff.mpr ⟨hc r hr, fun hw => h ⟨ho, hc, r, hr, hw⟩⟩
    · intro hin
      exact ⟨ho, fun r hr => hcheck r hr (hin r hr)⟩

/-- A buffer of 16 bytes. -/
def smallBuffer : MemObject where
  type := .buffer
  context := 0
  size := 16
  offset := 0
  flags := 1
  width := 0
  height := 0
  depth := 0
  rowPitch := 0
  slicePitch := 0
  pixelSize := 1
  format := (0, 0)
  allocates := true

def smallQueue : QueueInfo where
  context := 0
  device :=
    { memBaseAddrAlign := 1024
      execNativeKernel := true
      maxWorkGroupSize := 1024
      maxWorkItemDimensions := 3
      maxWorkItemSizes := [1024, 1024, 1024]
      image2DMaxWidth := 8192
      image2DMaxHeight := 8192
      image3DMaxWidth := 2048
      image3DMaxHeight := 2048
      image3DMaxDepth := 2048 }

/-- Sixteen bytes from eight bytes before the buffer on: the sum is 8. -/
theorem read_before_buffer_accepted : ¬∀ (queue : QueueInfo) (c : LinearCommand),
    c.OtherTests queue → (c.construct queue = pure () ↔ ∀ r ∈ c.ranges, r.Inside) := by
  intro h
  have hread := h smallQueue (.readWriteBuffer smallBuffer 0xFFFFFFFFFFFFFFF8 16 4096) rfl
  have hinside := hread.mp rfl ⟨0xFFFFFFFFFFFFFFF8, 16, 16⟩ List.mem_cons_self
  revert hinside
  decide

end LinearCommand

end Shamrock.Runtime
