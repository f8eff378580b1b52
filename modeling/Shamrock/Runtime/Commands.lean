import Shamrock.Runtime.Kernel

/-!
# The tests of the command constructors

`size_t` is `UInt64`, so sums and products wrap around. A pointer argument of the application is
null, or it points to what the documentation asks for.
-/
namespace Shamrock.Runtime

inductive MemObjectType
  | buffer
  | subBuffer
  | image2D
  | image3D
  deriving DecidableEq, Repr

/-- What the constructors ask a memory object. `offset` is that of a sub-buffer, and `allocates`
is what `allocate` answers for the device of the queue. -/
structure MemObject where
  type : MemObjectType
  context : Nat
  size : UInt64
  offset : UInt64
  flags : UInt64
  width : UInt64
  height : UInt64
  depth : UInt64
  rowPitch : UInt64
  slicePitch : UInt64
  pixelSize : UInt64
  format : Nat × Nat
  allocates : Bool
  deriving DecidableEq, Repr

/-- What the constructors ask the device of the queue. -/
structure Device where
  memBaseAddrAlign : UInt32
  execNativeKernel : Bool
  maxWorkGroupSize : UInt64
  maxWorkItemDimensions : Nat
  maxWorkItemSizes : List UInt64
  image2DMaxWidth : UInt64
  image2DMaxHeight : UInt64
  image3DMaxWidth : UInt64
  image3DMaxHeight : UInt64
  image3DMaxDepth : UInt64
  deriving DecidableEq, Repr

/-- The context and the device that a command queue answers. -/
structure QueueInfo where
  context : Nat
  device : Device
  deriving DecidableEq, Repr

/-- What a constructor decides: success, an error code, or nothing at all when it reads through a
null pointer or divides by zero. -/
abbrev Check := ExceptT Int Option

def crash {α : Type} : Check α := ExceptT.mk none

/-- `if (...) { *errcode_ret = code; return; }` -/
def reject (test : Bool) (code : Int) : Check Unit :=
  if test then throw code else pure ()

/-- Three entries of an array of `size_t`. -/
structure Vec3 where
  x : UInt64
  y : UInt64
  z : UInt64
  deriving DecidableEq, Repr

/-- An origin is zero if it is not given. -/
def originOrZero (origin : Option Vec3) : Vec3 := origin.getD ⟨0, 0, 0⟩

/-- `BufferEvent::isSubBufferAligned`: the alignment is in bits, the offset in bytes. -/
def isSubBufferAligned (buffer : MemObject) (device : Device) : Bool :=
  let mask : UInt64 :=
    if device.memBaseAddrAlign ≠ 0 then ((device.memBaseAddrAlign >>> 3) - 1).toUInt64 else 0
  buffer.type ≠ .subBuffer || buffer.offset &&& mask = 0

/-- `BufferEvent`, with its buffer. -/
def bufferEvent (queue : QueueInfo) (buffer : Option MemObject) : Check MemObject := do
  match buffer with
  | none => throw clInvalidMemObject
  | some buffer =>
    reject (buffer.context ≠ queue.context) clInvalidContext
    reject (!isSubBufferAligned buffer queue.device) clMisalignedSubBufferOffset
    reject (!buffer.allocates) clMemObjectAllocationFailure
    return buffer

/-- `ReadBufferEvent` and `WriteBufferEvent`. -/
def readWriteBufferEvent (queue : QueueInfo) (buffer : Option MemObject) (offset cb ptr : UInt64) :
    Check Unit := do
  let buffer ← bufferEvent queue buffer
  reject (ptr = 0) clInvalidValue
  reject (buffer.size < offset + cb) clInvalidValue

def clMapRead : UInt64 := 1
def clMapWrite : UInt64 := 2
def clMapWriteInvalidateRegion : UInt64 := 4
def clMemHostWriteOnly : UInt64 := 128
def clMemHostReadOnly : UInt64 := 256
def clMemHostNoAccess : UInt64 := 512

def mapBufferEvent (queue : QueueInfo) (buffer : Option MemObject) (offset cb mapFlags : UInt64) :
    Check Unit := do
  let buffer ← bufferEvent queue buffer
  reject (mapFlags &&& ~~~(clMapRead ||| clMapWrite ||| clMapWriteInvalidateRegion) ≠ 0)
    clInvalidValue
  reject (buffer.size < offset + cb) clInvalidValue
  reject ((mapFlags &&& clMapRead ≠ 0 &&
      buffer.flags &&& (clMemHostWriteOnly ||| clMemHostNoAccess) ≠ 0) ||
    (mapFlags &&& (clMapWrite ||| clMapWriteInvalidateRegion) ≠ 0 &&
      buffer.flags &&& (clMemHostReadOnly ||| clMemHostNoAccess) ≠ 0)) clInvalidOperation

/-- The region must be given, and none of its sides may be zero. -/
def checkRegion (region : Option Vec3) : Check Vec3 := do
  match region with
  | none => crash
  | some region =>
    reject (region.x = 0 || region.y = 0 || region.z = 0) clInvalidValue
    return region

/-- A two-dimensional image has one slice. -/
def checkSlices (image : MemObject) (origin : Option Vec3) (region : Vec3) : Check Unit := do
  if image.type = .image2D then
    match origin with
    | none => crash
    | some origin => reject (origin.z ≠ 0 || region.z ≠ 1) clInvalidValue

/-- The far corner of a region, against the pitches and the size. -/
def outOfBounds (origin region : Vec3) (rowPitch slicePitch size : UInt64) : Bool :=
  rowPitch < origin.x + region.x ||
    slicePitch < (origin.y + region.y) * rowPitch ||
    size < (origin.z + region.z) * slicePitch

def mapImageEvent (queue : QueueInfo) (image : Option MemObject) (mapFlags : UInt64)
    (origin region : Option Vec3) : Check Unit := do
  let image ← bufferEvent queue image
  reject (mapFlags &&& ~~~(clMapRead ||| clMapWrite) ≠ 0) clInvalidValue
  let r ← checkRegion region
  let o := originOrZero origin
  checkSlices image origin r
  reject (outOfBounds { o with x := o.x * image.pixelSize } { r with x := r.x * image.pixelSize }
    image.rowPitch image.slicePitch image.size) clInvalidValue

def unmapBufferEvent (queue : QueueInfo) (buffer : Option MemObject) (mappedAddr : UInt64) :
    Check Unit := do
  let _ ← bufferEvent queue buffer
  reject (mappedAddr = 0) clInvalidValue

/-- `CopyBufferEvent`; `same` tells whether both pointers are equal. -/
def copyBufferEvent (queue : QueueInfo) (source destination : Option MemObject) (same : Bool)
    (srcOffset dstOffset cb : UInt64) : Check Unit := do
  let source ← bufferEvent queue source
  match destination with
  | none => throw clInvalidMemObject
  | some destination =>
    reject (source.size < srcOffset + cb || destination.size < dstOffset + cb) clInvalidValue
    reject (same && ((srcOffset < dstOffset && dstOffset < srcOffset + cb) ||
      (dstOffset < srcOffset && srcOffset < dstOffset + cb))) clMemCopyOverlap
    reject (!isSubBufferAligned destination queue.device) clMisalignedSubBufferOffset
    reject (!destination.allocates) clMemObjectAllocationFailure

/-- `__builtin_popcount` -/
def popcount (n : UInt64) : Nat := (List.range 64).countP n.toNat.testBit

def fillBufferEvent (queue : QueueInfo) (buffer : Option MemObject)
    (pattern patternSize offset size : UInt64) : Check Unit := do
  let buffer ← bufferEvent queue buffer
  reject (buffer.size < offset + size) clInvalidValue
  reject (pattern = 0 || popcount (patternSize &&& 0xFFF) ≠ 1) clInvalidValue
  reject (offset % patternSize ≠ 0 || size % patternSize ≠ 0) clInvalidValue

/-- What `ReadWriteCopyBufferRectEvent` computes. -/
structure Rect where
  srcOrigin : Vec3
  dstOrigin : Vec3
  region : Vec3
  srcRowPitch : UInt64
  srcSlicePitch : UInt64
  dstRowPitch : UInt64
  dstSlicePitch : UInt64
  deriving DecidableEq, Repr

/-- A pitch that is given replaces the least one, unless it is smaller. -/
def checkPitch (least given : UInt64) : Check UInt64 := do
  if given ≠ 0 then
    reject (given < least) clInvalidValue
    return given
  else return least

/-- The arguments of `ReadWriteCopyBufferRectEvent`. -/
structure RectArgs where
  srcOrigin : Option Vec3
  dstOrigin : Option Vec3
  region : Option Vec3
  srcRowPitch : UInt64
  srcSlicePitch : UInt64
  dstRowPitch : UInt64
  dstSlicePitch : UInt64
  deriving DecidableEq, Repr

def readWriteCopyBufferRectEvent (queue : QueueInfo) (source : Option MemObject) (args : RectArgs)
    (bytesPerElement : UInt64) : Check (MemObject × Rect) := do
  let source ← bufferEvent queue source
  let region ← checkRegion args.region
  let scale (v : Vec3) : Vec3 := { v with x := v.x * bytesPerElement }
  let region := scale region
  let srcRowPitch ← checkPitch region.x args.srcRowPitch
  let srcSlicePitch ← checkPitch (region.y * srcRowPitch) args.srcSlicePitch
  let dstRowPitch ← checkPitch region.x args.dstRowPitch
  let dstSlicePitch ← checkPitch (region.y * dstRowPitch) args.dstSlicePitch
  return (source, {
    srcOrigin := scale (originOrZero args.srcOrigin)
    dstOrigin := scale (originOrZero args.dstOrigin)
    region := region
    srcRowPitch := srcRowPitch
    srcSlicePitch := srcSlicePitch
    dstRowPitch := dstRowPitch
    dstSlicePitch := dstSlicePitch })

/-- One dimension of the overlap test. -/
def overlaps (src dst region : UInt64) : Bool :=
  (dst < src && src < dst + region) || (src < dst && dst < src + region)

def copyBufferRectEvent (queue : QueueInfo) (source destination : Option MemObject) (same : Bool)
    (args : RectArgs) (bytesPerElement : UInt64) : Check (MemObject × MemObject) := do
  let (source, r) ← readWriteCopyBufferRectEvent queue source args bytesPerElement
  match destination with
  | none => throw clInvalidMemObject
  | some destination =>
    reject (outOfBounds r.srcOrigin r.region r.srcRowPitch r.srcSlicePitch source.size)
      clInvalidValue
    reject (outOfBounds r.dstOrigin r.region r.dstRowPitch r.dstSlicePitch destination.size)
      clInvalidValue
    reject (same && overlaps r.srcOrigin.x r.dstOrigin.x r.region.x &&
      overlaps r.srcOrigin.y r.dstOrigin.y r.region.y &&
      overlaps r.srcOrigin.z r.dstOrigin.z r.region.z) clMemCopyOverlap
    reject (!isSubBufferAligned destination queue.device) clMisalignedSubBufferOffset
    reject (!destination.allocates) clMemObjectAllocationFailure
    return (source, destination)

/-- `ReadBufferRectEvent` and `WriteBufferRectEvent`; the destination is host memory. -/
def readWriteBufferRectEvent (queue : QueueInfo) (buffer : Option MemObject) (args : RectArgs)
    (ptr bytesPerElement : UInt64) : Check Unit := do
  let (buffer, r) ← readWriteCopyBufferRectEvent queue buffer args bytesPerElement
  reject (ptr = 0) clInvalidValue
  reject (outOfBounds r.srcOrigin r.region r.srcRowPitch r.srcSlicePitch buffer.size)
    clInvalidValue

/-- `ReadImageEvent` and `WriteImageEvent`; a null image is read before anything else. -/
def readWriteImageEvent (queue : QueueInfo) (image : Option MemObject) (origin region : Option Vec3)
    (rowPitch slicePitch ptr : UInt64) : Check Unit := do
  match image with
  | none => crash
  | some image =>
    readWriteBufferRectEvent queue (some image) {
      srcOrigin := origin
      dstOrigin := none
      region := region
      srcRowPitch := image.rowPitch
      srcSlicePitch := image.slicePitch
      dstRowPitch := rowPitch
      dstSlicePitch := slicePitch } ptr image.pixelSize
    let r ← checkRegion region
    checkSlices image origin r

def copyImageEvent (queue : QueueInfo) (source destination : Option MemObject) (same : Bool)
    (srcOrigin dstOrigin region : Option Vec3) : Check Unit := do
  match source, destination with
  | some source, some destination =>
    let _ ← copyBufferRectEvent queue (some source) (some destination) same {
      srcOrigin := srcOrigin
      dstOrigin := dstOrigin
      region := region
      srcRowPitch := source.rowPitch
      srcSlicePitch := source.slicePitch
      dstRowPitch := destination.rowPitch
      dstSlicePitch := destination.slicePitch } source.pixelSize
    let r ← checkRegion region
    checkSlices source srcOrigin r
    checkSlices destination dstOrigin r
    reject (source.format ≠ destination.format) clImageFormatMismatch
  | _, _ => crash

def copyImageToBufferEvent (queue : QueueInfo) (source destination : Option MemObject)
    (same : Bool) (srcOrigin region : Option Vec3) (dstOffset : UInt64) : Check Unit := do
  match source with
  | none => crash
  | some source =>
    let (_, destination) ← copyBufferRectEvent queue (some source) destination same {
      srcOrigin := srcOrigin
      dstOrigin := none
      region := region
      srcRowPitch := source.rowPitch
      srcSlicePitch := source.slicePitch
      dstRowPitch := 0
      dstSlicePitch := 0 } source.pixelSize
    let r ← checkRegion region
    reject (destination.size < dstOffset + r.z * r.y * r.x * source.pixelSize) clInvalidValue
    checkSlices source srcOrigin r

def copyBufferToImageEvent (queue : QueueInfo) (source destination : Option MemObject)
    (same : Bool) (srcOffset : UInt64) (dstOrigin region : Option Vec3) : Check Unit := do
  match destination with
  | none => crash
  | some destination =>
    let (source, _) ← copyBufferRectEvent queue source (some destination) same {
      srcOrigin := none
      dstOrigin := dstOrigin
      region := region
      srcRowPitch := 0
      srcSlicePitch := 0
      dstRowPitch := destination.rowPitch
      dstSlicePitch := destination.slicePitch } destination.pixelSize
    let r ← checkRegion region
    reject (source.size < srcOffset + r.z * r.y * r.x * destination.pixelSize) clInvalidValue
    checkSlices destination dstOrigin r

/-- `NativeKernelEvent`: `memList` and `argsMemLoc` are null or have `numMemObjects` entries. -/
def nativeKernelEvent (queue : QueueInfo) (userFunc args cbArgs : UInt64) (numMemObjects : Nat)
    (memList : Option (List (Option MemObject))) (argsMemLoc : Bool) : Check Unit := do
  reject (userFunc = 0) clInvalidValue
  reject (args = 0 && (cbArgs ≠ 0 || numMemObjects ≠ 0)) clInvalidValue
  reject (args ≠ 0 && cbArgs = 0) clInvalidValue
  reject (numMemObjects ≠ 0 && (memList.isNone || !argsMemLoc)) clInvalidValue
  reject (numMemObjects = 0 && (memList.isSome || argsMemLoc)) clInvalidValue
  reject (!queue.device.execNativeKernel) clInvalidOperation
  reject (cbArgs ≠ 0 && (memList.getD []).any Option.isNone) clInvalidMemObject

def clMigrateMemObjectHost : UInt64 := 1
def clMigrateMemObjectContentUndefined : UInt64 := 2

/-- `MigrateMemObjectsEvent`: an entry that is not a known object is `none`. -/
def migrateMemObjectsEvent (queue : QueueInfo) (memObjects : Option (List (Option MemObject)))
    (flags : UInt64) : Check Unit := do
  match memObjects with
  | none => throw clInvalidValue
  | some objects =>
    reject (objects = []) clInvalidValue
    reject (flags &&& ~~~(clMigrateMemObjectHost ||| clMigrateMemObjectContentUndefined) ≠ 0)
      clInvalidValue
    objects.forM fun
      | none => throw clInvalidMemObject
      | some object => reject (object.context ≠ queue.context) clInvalidContext

/-- What `KernelEvent` asks its kernel besides the arguments. -/
structure KernelInfo where
  context : Nat
  deviceKernel : Bool
  reqdWorkGroupSize : List UInt64
  deriving DecidableEq, Repr

/-- The loop over the dimensions: the error code so far and the size of a work-group. A global
size of zero is noted, but the loop goes on. -/
def checkDimensions (globalSize : List UInt64) (localSize : Option (List UInt64))
    (maxItems : List UInt64) : Nat → Int × UInt64 → Check (Int × UInt64)
  | 0, r => return r
  | n + 1, r => do
    let i := globalSize.length - (n + 1)
    let size := globalSize.getD i 0
    let code := if size = 0 then clInvalidGlobalWorkSize else r.1
    match localSize with
    | none => checkDimensions globalSize localSize maxItems n (code, r.2)
    | some l =>
      let l := l.getD i 0
      if l = 0 then crash
      else
        reject (size % l ≠ 0) clInvalidWorkGroupSize
        reject (maxItems.getD i 0 < l) clInvalidWorkItemSize
        checkDimensions globalSize localSize maxItems n (code, r.2 * l)

/-- The loop over the arguments, with the error code so far: asking the device about images
overwrites it. -/
def checkArgs (device : Device) (objects : UInt64 → Option MemObject) :
    List Arg → Int → Check Int
  | [], code => return code
  | a :: as, code =>
    if a.isBuffer then
      match objects a.object with
      | none => checkArgs device objects as code
      | some buffer => do
        reject (!isSubBufferAligned buffer device) clMisalignedSubBufferOffset
        checkArgs device objects as code
    else if a.isImage then
      match objects a.object with
      | none => crash
      | some image => do
        if a.kind = .image2D then
          reject (device.image2DMaxWidth < image.width || device.image2DMaxHeight < image.height)
            clInvalidImageSize
        else
          reject (device.image3DMaxWidth < image.width || device.image3DMaxHeight < image.height ||
            device.image3DMaxDepth < image.depth) clInvalidImageSize
        checkArgs device objects as clSuccess
    else checkArgs device objects as code

/-- `KernelEvent`; `globalSize` has `work_dim` entries. -/
def kernelEvent (queue : QueueInfo) (objects : UInt64 → Option MemObject) (info : KernelInfo)
    (kernel : Kernel) (workDim : Nat) (globalSize localSize : Option (List UInt64)) :
    Check Unit := do
  reject (!info.deviceKernel) clInvalidProgramExecutable
  reject (info.context ≠ queue.context) clInvalidContext
  reject (!kernel.argsSpecified) clInvalidKernelArgs
  reject (workDim = 0 || queue.device.maxWorkItemDimensions < workDim) clInvalidWorkDimension
  if info.reqdWorkGroupSize.any (0 < ·) then
    match localSize with
    | none => throw clInvalidWorkGroupSize
    | some l => reject (l.take workDim ≠ info.reqdWorkGroupSize.take workDim) clInvalidWorkGroupSize
  match globalSize with
  | none => crash
  | some globalSize =>
    let (code, workGroupSize) ← checkDimensions globalSize localSize
      queue.device.maxWorkItemSizes workDim (clSuccess, 1)
    reject (queue.device.maxWorkGroupSize < workGroupSize) clInvalidWorkGroupSize
    let code ← checkArgs queue.device objects kernel.args code
    reject (code ≠ clSuccess) code

end Shamrock.Runtime
