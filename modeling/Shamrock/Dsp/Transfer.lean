import Shamrock.Runtime.RectCopy
import Shamrock.Lib.Relocation

/-!
# Buffer commands on the CPU and on the DSP

The cases of both workers for linear and rectangular transfers, as built for devices that map the
memory of the DSP. The driver moves exactly the bytes it is asked for; sizes have 32 bits there.
-/
namespace Shamrock.Dsp

open Shamrock.Runtime Strided Relocation

inductive Space
  | host | device
  deriving DecidableEq, Repr

/-- The memory that the host and the DSP see. -/
abbrev DspMemory := Spaces Space UInt8

/-- A memory object with `host_ptr()` and the `data()` of its `CPUBuffer` and its `DSPBuffer`. -/
structure BufferData where
  object : MemObject
  hostPtr : UInt64
  cpuData : UInt64
  dspData : UInt64
  deriving DecidableEq, Repr

def BufferData.usesHostPtr (b : BufferData) : Bool := b.object.flags &&& clMemUseHostPtr ≠ 0

/-- An event for a buffer. A rectangular one has the members `r` that its constructor computes. -/
inductive BufferEvent
  | readWriteBuffer (write : Bool) (buffer : BufferData) (offset cb ptr : UInt64)
  | copyBuffer (source destination : BufferData) (same : Bool) (srcOffset dstOffset cb : UInt64)
  | fillBuffer (buffer : BufferData) (pattern patternSize offset size : UInt64)
  | readWriteBufferRect (write : Bool) (buffer : BufferData) (args : RectArgs) (ptr : UInt64)
      (r : Rect)
  | copyBufferRect (source destination : BufferData) (same : Bool) (args : RectArgs) (r : Rect)

/-! ## The CPU worker -/

/-- The loop over the pattern of a fill. -/
def fillPasses (size patternSize : UInt64) : Nat :=
  (size.toNat + patternSize.toNat - 1) / patternSize.toNat

def cpuFill (dst pattern patternSize size : UInt64) (m : Memory) : Memory :=
  (List.range (fillPasses size patternSize)).foldl (fun m i =>
    memcpy m (dst + UInt64.ofNat i * patternSize).toNat pattern.toNat patternSize.toNat) m

/-- `worker` of the CPU. -/
def cpuWorker (m : Memory) : BufferEvent → Memory
  | .readWriteBuffer write buffer offset cb ptr =>
    let data := buffer.cpuData + offset
    if write then memcpy m data.toNat ptr.toNat cb.toNat
    else memcpy m ptr.toNat data.toNat cb.toNat
  | .copyBuffer source destination _ srcOffset dstOffset cb =>
    memcpy m (destination.cpuData + dstOffset).toNat (source.cpuData + srcOffset).toNat cb.toNat
  | .fillBuffer buffer pattern patternSize offset size =>
    cpuFill (buffer.cpuData + offset) pattern patternSize size m
  | .readWriteBufferRect write buffer args ptr r =>
    (RectCommand.readWriteBufferRect write buffer.object args ptr).copy r buffer.cpuData 0 m
  | .copyBufferRect source destination same args r =>
    (RectCommand.copyBufferRect source.object destination.object same args).copy r
      source.cpuData destination.cpuData m

/-! ## The driver -/

/-- `Driver::read` -/
def driverRead (addr buf : UInt64) (size : UInt32) (d : DspMemory) : DspMemory :=
  copy d (.host, buf.toNat) (.device, addr.toNat) size.toNat

/-- `Driver::write` -/
def driverWrite (addr buf : UInt64) (size : UInt32) (d : DspMemory) : DspMemory :=
  copy d (.device, addr.toNat) (.host, buf.toNat) size.toNat

/-- A pointer of the host: an address, or `offset` bytes into what `Driver::map` has mapped. -/
inductive Pointer
  | host (addr : UInt64)
  | mapped (addr : UInt64) (size : UInt32) (offset : UInt64)
  deriving DecidableEq, Repr

namespace Pointer

/-- `Driver::map` -/
def map (addr : UInt64) (size : UInt32) : Pointer := .mapped addr size 0

def add (k : UInt64) : Pointer → Pointer
  | .host addr => .host (addr + k)
  | .mapped addr size offset => .mapped addr size (offset + k)

/-- Where `n` bytes at a pointer are; none if they are not all mapped. -/
def place (n : UInt64) : Pointer → Option (Space × Nat)
  | .host addr => some (.host, addr.toNat)
  | .mapped addr size offset =>
    if offset.toNat + n.toNat ≤ size.toNat then some (.device, addr.toNat + offset.toNat) else none

/-- `memcpy` -/
def copyTo (dst src : Pointer) (n : UInt64) (d : DspMemory) : Option DspMemory :=
  match dst.place n, src.place n with
  | some p, some q => some (copy d p q n.toNat)
  | _, _ => none

end Pointer

/-! ## The DSP worker -/

/-- The start of a block: `host_ptr()` or `data()`, and an offset in bytes. -/
def BufferData.start (b : BufferData) (offset : UInt64) : UInt64 :=
  (if b.usesHostPtr then b.hostPtr else b.dspData) + offset

/-- The pointer to `size` bytes of a buffer, which are mapped unless they are on the host. -/
def BufferData.pointer (b : BufferData) (start : UInt64) (size : UInt32) : Pointer :=
  if b.usesHostPtr then .host start else .map start size

def Side.offset (s : Side) : UInt64 :=
  s.origin.z * s.slicePitch + s.origin.y * s.rowPitch + s.origin.x

/-- The rows of a `ReadBufferRect` or `WriteBufferRect`, from slice to slice. -/
def dspReadWriteRect (write : Bool) (b : BufferData) (ptr : UInt64) (r : Rect) (d : DspMemory) :
    Option DspMemory :=
  let bufStart := b.start (Side.offset r.src)
  let hostStart := ptr + Side.offset r.dst
  let src := if write then r.dst else r.src
  let dst := if write then r.src else r.dst
  let srcStart := if write then hostStart else bufStart
  let dstStart := if write then bufStart else hostStart
  let row (src dst : UInt64) (d : DspMemory) : Option DspMemory :=
    if b.usesHostPtr then
      some (copy d (.host, dst.toNat) (.host, src.toNat) r.region.x.toNat)
    else if write then some (driverWrite dst src r.region.x.toUInt32 d)
    else some (driverRead src dst r.region.x.toUInt32 d)
  sweep (· + src.slicePitch) (· + dst.slicePitch) (fun srcSlice dstSlice d =>
    sweep (· + src.rowPitch) (· + dst.rowPitch) row r.region.y.toNat srcSlice dstSlice d)
    r.region.z.toNat srcStart dstStart d

/-- The rows of a `CopyBufferRect`; the slices are mapped one by one. -/
def dspCopyRect (source destination : BufferData) (r : Rect) (d : DspMemory) : Option DspMemory :=
  let srcSliceSize := (r.region.y * r.srcRowPitch - r.srcOrigin.x).toUInt32
  let dstSliceSize := (r.region.y * r.dstRowPitch - r.dstOrigin.x).toUInt32
  sweep (· + r.srcSlicePitch) (· + r.dstSlicePitch) (fun srcSlice dstSlice d =>
    sweep (Pointer.add r.srcRowPitch) (Pointer.add r.dstRowPitch)
      (fun src dst d => Pointer.copyTo dst src r.region.x d) r.region.y.toNat
      (source.pointer srcSlice srcSliceSize) (destination.pointer dstSlice dstSliceSize) d)
    r.region.z.toNat (source.start (Side.offset r.src)) (destination.start (Side.offset r.dst)) d

/-- `handle_event_dispatch` of the DSP; none if it touches memory that is not mapped. -/
def dspWorker (d : DspMemory) : BufferEvent → Option DspMemory
  | .readWriteBuffer write buffer offset cb ptr =>
    if buffer.usesHostPtr then
      -- the offset is not added here
      if write then some (copy d (.host, buffer.hostPtr.toNat) (.host, ptr.toNat) cb.toNat)
      else some (copy d (.host, ptr.toNat) (.host, buffer.hostPtr.toNat) cb.toNat)
    else if write then some (driverWrite (buffer.dspData + offset) ptr cb.toUInt32 d)
    else some (driverRead (buffer.dspData + offset) ptr cb.toUInt32 d)
  | .copyBuffer source destination _ srcOffset dstOffset cb =>
    Pointer.copyTo (destination.pointer (destination.start dstOffset) cb.toUInt32)
      (source.pointer (source.start srcOffset) cb.toUInt32) cb d
  -- there is no case for it
  | .fillBuffer .. => some d
  | .readWriteBufferRect write buffer _ ptr r => dspReadWriteRect write buffer ptr r d
  | .copyBufferRect source destination _ _ r => dspCopyRect source destination r d

end Shamrock.Dsp
