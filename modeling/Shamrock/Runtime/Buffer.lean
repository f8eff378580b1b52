import Shamrock.Runtime.Linear
import Shamrock.Lib.Strided
import Shamrock.Lib.Transition

/-!
# Buffers on several devices

The `CPUBuffer` of a memory object on each device of its context, the pointer they share and the
copy of the host memory that is kept until the last of them is allocated.
-/
namespace Shamrock.Runtime

open Strided Transition

/-- `CPUBuffer`: `data` is null until it is allocated. -/
structure CpuBuffer where
  device : Nat
  data : UInt64
  dataMalloced : Bool
  deriving DecidableEq, Repr

/-- A `Buffer`, or a `SubBuffer` of the object `parent`. The last two are history variables: the
bytes at `host_ptr` when the object was created, and those that the copy left in the buffer. -/
structure BufferObject where
  parent : Option Nat
  offset : UInt64
  size : UInt64
  flags : UInt64
  hostPtr : UInt64
  sharedPtr : UInt64
  devicesToAllocate : UInt32
  deviceBuffers : List CpuBuffer
  given : List UInt8
  copied : Option (List UInt8)
  deriving DecidableEq, Repr

/-- A context, the memory of the process, and the objects of the context. `accepted` are the
buffers of the commands so far, each with the device of its queue. -/
structure BufferWorld where
  devices : List Nat
  memory : Nat → UInt8
  objects : List BufferObject
  accepted : List (Nat × Nat)

/-- The bytes at an address. -/
def contents (memory : Nat → UInt8) (p n : Nat) : List UInt8 :=
  (List.range n).map fun i => memory (p + i)

/-- The constructor of `Buffer`. It goes on after an error of `MemObject`, as `subBuffer` does. -/
def buffer (size hostPtr flags : UInt64) : Check Unit := do
  reject (size = 0) clInvalidBufferSize
  reject (1073741824 < size) clInvalidBufferSize
  memObject flags hostPtr

/-- `CL_MEM_READ_WRITE` is the default of a buffer. -/
def defaultFlags (flags : UInt64) : UInt64 :=
  if flags &&& (clMemReadOnly ||| clMemWriteOnly) = 0 then flags ||| clMemReadWrite else flags

/-- The flags that a sub-buffer takes over. -/
def inheritFlags (flags parent : UInt64) : UInt64 :=
  let rw := clMemReadWrite ||| clMemReadOnly ||| clMemWriteOnly
  let hostUse := clMemHostWriteOnly ||| clMemHostReadOnly ||| clMemHostNoAccess
  let flags := if flags &&& rw = 0 then flags ||| (parent &&& rw) else flags
  let flags := flags ||| (parent &&& (clMemUseHostPtr ||| clMemAllocHostPtr ||| clMemCopyHostPtr))
  if flags &&& hostUse = 0 then flags ||| (parent &&& hostUse) else flags

/-- Change the first entry for device `d`. -/
def updateBuffer (d : Nat) (f : CpuBuffer → CpuBuffer) : List CpuBuffer → List CpuBuffer
  | [] => []
  | b :: l => if b.device = d then f b :: l else b :: updateBuffer d f l

namespace BufferObject

def uses (o : BufferObject) : Bool := o.flags &&& clMemUseHostPtr ≠ 0

def copies (o : BufferObject) : Bool := o.flags &&& clMemCopyHostPtr ≠ 0

/-- `MemObject::deviceBuffer` -/
def deviceBuffer (o : BufferObject) (d : Nat) : Option CpuBuffer :=
  o.deviceBuffers.find? fun b => b.device = d

/-- `deviceBuffer(device)->data()` -/
def data (o : BufferObject) (d : Nat) : UInt64 :=
  match o.deviceBuffer d with
  | some b => b.data
  | none => 0

/-- What the constructors ask about an object. -/
def view (o : BufferObject) : MemObject where
  type := if o.parent.isSome then .subBuffer else .buffer
  context := 0
  size := o.size
  offset := o.offset
  flags := o.flags
  width := 0
  height := 0
  depth := 0
  rowPitch := 0
  slicePitch := 0
  pixelSize := 0
  format := (0, 0)
  allocates := true

/-- `isSubBufferAligned` for a CPU device, whose `CL_DEVICE_MEM_BASE_ADDR_ALIGN` is 1024 bits. -/
def aligned (o : BufferObject) : Bool := o.parent.isNone || o.offset &&& 127 = 0

/-- The object keeps its own copy of the host memory. -/
def keeps (o : BufferObject) (numDevices : Nat) : Bool :=
  o.parent.isNone && 1 < numDevices && o.copies && o.hostPtr ≠ 0

/-- The blocks of the heap that belong to the object. -/
def blocks (o : BufferObject) (numDevices : Nat) : List (Nat × Nat) :=
  (if o.keeps numDevices then [(o.hostPtr.toNat, o.size.toNat)] else []) ++
    (if o.sharedPtr ≠ 0 then [(o.sharedPtr.toNat, o.size.toNat)] else [])

/-- `MemObject::deviceAllocated` -/
def deviceAllocated (o : BufferObject) (numDevices : Nat) : BufferObject :=
  { o with
    devicesToAllocate := o.devicesToAllocate - 1
    hostPtr := if o.devicesToAllocate - 1 = 0 ∧ 1 < numDevices ∧ o.copies then 0 else o.hostPtr }

/-- `CPUBuffer::allocate` for the buffer of device `d`; `memalign` is what `posix_memalign`
answers if it is called. -/
def allocateOn (o : BufferObject) (numDevices : Nat) (memory : Nat → UInt8) (d : Nat)
    (memalign : Option UInt64) : Option (BufferObject × (Nat → UInt8)) :=
  -- the copy that the first device makes
  let fill (o : BufferObject) (p : UInt64) : BufferObject × (Nat → UInt8) :=
    if o.parent.isNone && o.copies then
      let memory := memcpy memory p.toNat o.hostPtr.toNat o.size.toNat
      ({ o with copied := some (contents memory p.toNat o.size.toNat) }.deviceAllocated numDevices,
        memory)
    else (o.deviceAllocated numDevices, memory)
  if o.size = 0 then none
  else if o.sharedPtr = 0 then
    if o.data d = 0 then
      match memalign with
      | none => none
      | some p =>
        some (fill { o with
          deviceBuffers := updateBuffer d (fun b => { b with data := p, dataMalloced := true })
            o.deviceBuffers
          sharedPtr := p } p)
    else some (fill o (o.data d))
  else
    let attach (b : CpuBuffer) : CpuBuffer :=
      { b with data := if b.data = 0 then o.sharedPtr else b.data }
    some ({ o with deviceBuffers := updateBuffer d attach o.deviceBuffers }.deviceAllocated
      numDevices, memory)

end BufferObject

namespace BufferWorld

/-- `malloc` may answer `p` for `n` bytes. -/
def fresh (w : BufferWorld) (p n : UInt64) : Bool :=
  p ≠ 0 && w.objects.all fun o => (o.blocks w.devices.length).all fun r =>
    p.toNat + n.toNat ≤ r.1 || r.1 + r.2 ≤ p.toNat

/-- The constructors of `CPUBuffer`. -/
def createDeviceBuffers (w : BufferWorld) (o : BufferObject) : List CpuBuffer :=
  w.devices.map fun d =>
    let data :=
      match o.parent with
      | some p => (w.objects[p]?.elim 0 fun p => p.data d) + o.offset
      | none => if o.uses then o.hostPtr else 0
    { device := d, data := data, dataMalloced := false }

/-- `MemObject::init`: with one device the buffer is allocated at once, with more a copy of the
host memory is made for later. -/
def init (w : BufferWorld) (o : BufferObject) (malloc memalign : Option UInt64) :
    Except Int BufferWorld :=
  let n := w.devices.length
  let o := { o with devicesToAllocate := UInt32.ofNat n }
  if 1 < n ∧ o.copies ∧ o.parent = none then
    match malloc with
    | none => .error clOutOfHostMemory
    | some tmp =>
      let memory := memcpy w.memory tmp.toNat o.hostPtr.toNat o.size.toNat
      let o := { o with hostPtr := tmp }
      .ok { w with
        memory := memory
        objects := w.objects ++ [{ o with deviceBuffers := w.createDeviceBuffers o }] }
  else
    let o := { o with deviceBuffers := w.createDeviceBuffers o }
    match w.devices with
    | [d] =>
      match o.allocateOn n w.memory d memalign with
      | none => .error clMemObjectAllocationFailure
      | some (o, memory) => .ok { w with memory := memory, objects := w.objects ++ [o] }
    | _ => .ok { w with objects := w.objects ++ [o] }

/-- `clCreateBuffer` -/
def createBuffer (w : BufferWorld) (flags size hostPtr : UInt64)
    (malloc memalign : Option UInt64) : Except Int BufferWorld :=
  match buffer size hostPtr flags with
  | none => .error clInvalidValue
  | some (.error code) => .error code
  | some (.ok ()) =>
    w.init
      { parent := none
        offset := 0
        size := size
        flags := defaultFlags flags
        hostPtr := hostPtr
        sharedPtr := 0
        devicesToAllocate := 0
        deviceBuffers := []
        given := if flags &&& clMemCopyHostPtr ≠ 0 then
          contents w.memory hostPtr.toNat size.toNat else []
        copied := none }
      malloc memalign

/-- `clCreateSubBuffer` on a buffer of the context. -/
def createSubBuffer (w : BufferWorld) (p : Nat) (offset size flags : UInt64)
    (memalign : Option UInt64) : Except Int BufferWorld :=
  match w.objects[p]? with
  | none => .error clInvalidMemObject
  | some parent =>
    if parent.parent.isSome then .error clInvalidMemObject
    else
      match subBuffer parent.view offset size flags with
      | none => .error clInvalidValue
      | some (.error code) => .error code
      | some (.ok ()) =>
        w.init
          { parent := some p
            offset := offset
            size := size
            flags := inheritFlags flags parent.flags
            hostPtr := 0
            sharedPtr := 0
            devicesToAllocate := 0
            deviceBuffers := []
            given := []
            copied := none }
          none memalign

/-- The object whose memory a buffer is part of. -/
def root (w : BufferWorld) (i : Nat) : Nat := (w.objects[i]?.bind fun o => o.parent).getD i

/-- `BufferEvent::BufferEvent` for object `i` on a queue of device `d`, with `MemObject::allocate`
and `SubBuffer::allocate`. -/
def bufferEvent (w : BufferWorld) (i d : Nat) (memalign : Option UInt64) :
    Except Int BufferWorld :=
  match w.objects[i]?, w.objects[w.root i]? with
  | some o, some r =>
    if !o.aligned then .error clMisalignedSubBufferOffset
    else
      let w := { w with accepted := (i, d) :: w.accepted }
      if r.data d ≠ 0 then .ok w
      else
        match r.allocateOn w.devices.length w.memory d memalign with
        | none => .error clMemObjectAllocationFailure
        | some (r, memory) => .ok { w with memory := memory, objects := w.objects.set (w.root i) r }
  | _, _ => .error clInvalidMemObject

end BufferWorld

inductive BufferAction
  | createBuffer (flags size hostPtr : UInt64) (malloc memalign : Option UInt64)
  | createSubBuffer (p : Nat) (offset size flags : UInt64) (memalign : Option UInt64)
  | bufferEvent (i d : Nat) (memalign : Option UInt64)
  /-- the application or a device writes, anywhere but in the copies of the runtime -/
  | write (a : Nat) (v : UInt8)

/-- A call that fails changes nothing. -/
def bufferStep (w : BufferWorld) : BufferAction → Option BufferWorld
  | .createBuffer flags size hostPtr malloc memalign =>
    if malloc.all (w.fresh · size) ∧ memalign.all (w.fresh · size) then
      (w.createBuffer flags size hostPtr malloc memalign).toOption
    else none
  | .createSubBuffer p offset size flags memalign =>
    if memalign.all (w.fresh · size) then
      (w.createSubBuffer p offset size flags memalign).toOption
    else none
  | .bufferEvent i d memalign =>
    if d ∈ w.devices ∧ ∀ o ∈ w.objects[w.root i]?, memalign.all (w.fresh · o.size) then
      (w.bufferEvent i d memalign).toOption
    else none
  | .write a v =>
    if w.objects.all fun o => !o.keeps w.devices.length ||
        a < o.hostPtr.toNat || o.hostPtr.toNat + o.size.toNat ≤ a then
      some { w with memory := Function.update w.memory a v }
    else none

def bufferSystem : LTS BufferWorld BufferAction :=
  ofStep (fun w => ∃ devices memory, devices ≠ [] ∧ w = ⟨devices, memory, [], []⟩) bufferStep

/-- A buffer is allocated on a device before its sub-buffers are created, and no sub-buffer of an
only device starts at the null address. -/
def AllocatedFirst (w : BufferWorld) : BufferAction → Prop
  | .createSubBuffer p offset _ _ _ =>
    ∀ d ∈ w.devices, w.devices = [d] → ∀ o ∈ w.objects[p]?, o.data d + offset ≠ 0
  | .bufferEvent i d _ =>
    (∀ o ∈ w.objects[w.root i]?, o.data d ≠ 0) ∨ ∀ o ∈ w.objects, o.parent ≠ some (w.root i)
  | _ => True

instance (w : BufferWorld) (b : BufferAction) : Decidable (AllocatedFirst w b) :=
  match b with
  | .createSubBuffer p offset _ _ _ => inferInstanceAs (Decidable (
      ∀ d ∈ w.devices, w.devices = [d] → ∀ o ∈ w.objects[p]?, o.data d + offset ≠ 0))
  | .bufferEvent i d _ => inferInstanceAs (Decidable (
      (∀ o ∈ w.objects[w.root i]?, o.data d ≠ 0) ∨ ∀ o ∈ w.objects, o.parent ≠ some (w.root i)))
  | .createBuffer .. | .write .. => inferInstanceAs (Decidable True)

/-- What the devices of a context agree on. -/
structure BuffersAlias (w : BufferWorld) : Prop where
  equal : ∀ o ∈ w.objects, o.parent = none → ∀ b ∈ o.deviceBuffers, ∀ c ∈ o.deviceBuffers,
    b.data ≠ 0 → c.data ≠ 0 → b.data = c.data
  allocated : ∀ r ∈ w.accepted, ∀ o ∈ w.objects[w.root r.1]?, o.data r.2 ≠ 0
  subBuffer : ∀ o ∈ w.objects, ∀ p ∈ o.parent, ∀ q ∈ w.objects[p]?, ∀ d ∈ w.devices,
    o.data d = q.data d + o.offset
  initial : ∀ r ∈ w.accepted, ∀ o ∈ w.objects[w.root r.1]?, o.copies = true →
    o.copied = some o.given

section Contents

variable {m m' : Nat → UInt8} {p q n r k : Nat}

theorem contents_congr (h : ∀ i < n, m (p + i) = m' (p + i)) :
    contents m p n = contents m' p n := by
  apply List.map_congr_left
  intro i hi
  exact h i (List.mem_range.mp hi)

theorem contents_memcpy : contents (memcpy m p q n) p n = contents m q n := by
  apply List.map_congr_left
  intro i hi
  exact memcpy_inside m p q (List.mem_range.mp hi)

theorem contents_memcpy_apart (h : p + n ≤ r ∨ r + k ≤ p) :
    contents (memcpy m p q n) r k = contents m r k := by
  apply contents_congr
  intro i hi
  apply memcpy_outside
  intro x hx
  omega

end Contents

section UpdateBuffer

variable {d d' : Nat} {f : CpuBuffer → CpuBuffer} {l : List CpuBuffer} {b : CpuBuffer}

theorem mem_updateBuffer (h : b ∈ updateBuffer d f l) : b ∈ l ∨ ∃ c ∈ l, b = f c := by
  induction l with
  | nil => cases h
  | cons c l ih =>
    simp only [updateBuffer] at h
    split at h
    · rcases List.mem_cons.mp h with rfl | h
      · exact .inr ⟨c, List.mem_cons_self, rfl⟩
      · exact .inl (List.mem_cons_of_mem c h)
    · rcases List.mem_cons.mp h with rfl | h
      · exact .inl List.mem_cons_self
      · rcases ih h with h | ⟨c', hc, rfl⟩
        · exact .inl (List.mem_cons_of_mem c h)
        · exact .inr ⟨c', List.mem_cons_of_mem c hc, rfl⟩

theorem updateBuffer_devices (hf : ∀ b, (f b).device = b.device) :
    (updateBuffer d f l).map CpuBuffer.device = l.map CpuBuffer.device := by
  induction l with
  | nil => rfl
  | cons c l ih =>
    simp only [updateBuffer]
    split <;> simp [hf, ih]

theorem find_updateBuffer (hf : ∀ b, (f b).device = b.device) :
    (updateBuffer d f l).find? (fun b => b.device = d') =
      if d' = d then (l.find? fun b => b.device = d').map f
      else l.find? fun b => b.device = d' := by
  induction l with
  | nil => simp [updateBuffer]
  | cons c l ih =>
    by_cases hc : c.device = d
    · by_cases hd : d' = d
      · simp [updateBuffer, hc, hd, hf]
      · simp [updateBuffer, hc, hd, hf, Ne.symm hd]
    · by_cases hd' : c.device = d'
      · have hd : d' ≠ d := fun h => hc (hd'.trans h)
        simp [updateBuffer, hd', hd]
      · simp only [updateBuffer, hc, if_false, List.find?_cons, hd', decide_false, ih]

end UpdateBuffer

section Object

variable {o o' : BufferObject} {devices : List Nat} {memory memory' : Nat → UInt8} {d d' n : Nat}
  {memalign : Option UInt64}

/-- A buffer that was not yet allocated anywhere has the bytes of the host, one that was has
copied them. -/
structure ObjectOk (devices : List Nat) (memory : Nat → UInt8) (o : BufferObject) : Prop where
  size : o.size ≠ 0
  devices : o.deviceBuffers.map CpuBuffer.device = devices
  host : o.uses = true → o.hostPtr ≠ 0 ∧ o.copies = false ∧
    ∀ b ∈ o.deviceBuffers, b.data = o.hostPtr
  shared : o.uses = false → ∀ b ∈ o.deviceBuffers, b.data ≠ 0 → b.data = o.sharedPtr
  pending : o.copies = true → o.sharedPtr = 0 →
    contents memory o.hostPtr.toNat o.size.toNat = o.given
  filled : o.copies = true → o.sharedPtr ≠ 0 → o.copied = some o.given

@[simp] theorem data_deviceAllocated : (o.deviceAllocated n).data d = o.data d := rfl
@[simp] theorem uses_deviceAllocated : (o.deviceAllocated n).uses = o.uses := rfl
@[simp] theorem copies_deviceAllocated : (o.deviceAllocated n).copies = o.copies := rfl

/-- The data of an object is that of one of its buffers. -/
theorem exists_deviceBuffer (h : o.deviceBuffers.map CpuBuffer.device = devices)
    (hd : d ∈ devices) : ∃ b ∈ o.deviceBuffers, o.deviceBuffer d = some b ∧ o.data d = b.data := by
  rw [← h, List.mem_map] at hd
  obtain ⟨b, hb, rfl⟩ := hd
  cases hf : o.deviceBuffer b.device with
  | none =>
    have hnone := List.find?_eq_none.mp hf b hb
    simp at hnone
  | some c => exact ⟨c, List.mem_of_find?_eq_some hf, rfl, by simp [BufferObject.data, hf]⟩

theorem data_updateBuffer {f : CpuBuffer → CpuBuffer} (hf : ∀ b, (f b).device = b.device)
    (h : o.deviceBuffers.map CpuBuffer.device = devices) (hd : d' ∈ devices)
    (ho : o'.deviceBuffers = updateBuffer d f o.deviceBuffers) :
    ∃ b ∈ o.deviceBuffers, o.data d' = b.data ∧
      o'.data d' = if d' = d then (f b).data else b.data := by
  obtain ⟨b, hb, hfind, hdata⟩ := exists_deviceBuffer h hd
  refine ⟨b, hb, hdata, ?_⟩
  simp only [BufferObject.deviceBuffer] at hfind
  by_cases hdd : d' = d
  · subst hdd
    simp [BufferObject.data, BufferObject.deviceBuffer, ho, find_updateBuffer hf, hfind]
  · simp [BufferObject.data, BufferObject.deviceBuffer, ho, find_updateBuffer hf, hfind, hdd]

/-- What `CPUBuffer::allocate` does to a buffer without memory on that device. -/
structure Allocated (o o' : BufferObject) (devices : List Nat) (memory memory' : Nat → UInt8)
    (d : Nat) (memalign : Option UInt64) : Prop where
  ok : ObjectOk devices memory' o'
  parent : o'.parent = none
  size : o'.size = o.size
  shared : o'.sharedPtr ≠ 0
  data : o'.data d ≠ 0
  others : ∀ d' ∈ devices, o.data d' ≠ 0 → o'.data d' = o.data d'
  memory : memory' = memory ∨ ∃ p ∈ memalign, ∃ q, memory' = memcpy memory p.toNat q o.size.toNat

theorem ObjectOk.not_uses (hok : ObjectOk devices memory o) (hd : d ∈ devices)
    (hdata : o.data d = 0) : o.uses = false := by
  by_contra hu
  obtain ⟨b, hb, -, hb'⟩ := exists_deviceBuffer hok.devices hd
  obtain ⟨hne, -, hall⟩ := hok.host (by simpa using hu)
  exact hne ((hall b hb).symm.trans (hb'.symm.trans hdata))

/-- The buffer of one device gets the memory `p` that the others have or will have. -/
theorem allocated_update {p : UInt64} {f : CpuBuffer → CpuBuffer}
    (hok : ObjectOk devices memory o) (hd : d ∈ devices) (hdata : o.data d = 0)
    (hf : ∀ b, (f b).device = b.device) (hzero : ∀ b, b.data = 0 → (f b).data = p)
    (hnew : ∀ b ∈ o.deviceBuffers, (f b).data ≠ 0 → (f b).data = p)
    (hold : ∀ b ∈ o.deviceBuffers, b.data ≠ 0 → b.data = p) (hp : p ≠ 0)
    (hparent : o'.parent = none) (hsize : o'.size = o.size) (hflags : o'.flags = o.flags)
    (hgiven : o'.given = o.given) (hshared : o'.sharedPtr = p)
    (hbuffers : o'.deviceBuffers = updateBuffer d f o.deviceBuffers)
    (hfilled : o.copies = true → o'.copied = some o.given)
    (hm : memory' = memory ∨ ∃ p ∈ memalign, ∃ q, memory' = memcpy memory p.toNat q o.size.toNat) :
    Allocated o o' devices memory memory' d memalign := by
  have huse := hok.not_uses hd hdata
  have huse' : o'.uses = false := by rwa [BufferObject.uses, hflags]
  have hne : o'.sharedPtr ≠ 0 := by rwa [hshared]
  refine ⟨⟨?_, ?_, ?_, ?_, ?_, ?_⟩, hparent, hsize, hne, ?_, ?_, hm⟩
  · rw [hsize]
    exact hok.size
  · rw [hbuffers, updateBuffer_devices hf]
    exact hok.devices
  · intro hu
    rw [huse'] at hu
    cases hu
  · intro _ b hb hb0
    rw [hshared]
    rw [hbuffers] at hb
    rcases mem_updateBuffer hb with hb | ⟨c, hc, rfl⟩
    · exact hold b hb hb0
    · exact hnew c hc hb0
  · intro _ hs
    exact absurd hs hne
  · intro hc _
    rw [hgiven]
    exact hfilled (by rwa [BufferObject.copies, hflags] at hc)
  · obtain ⟨b, hb, hbd, hb'⟩ := data_updateBuffer hf hok.devices hd hbuffers
    rw [hb', if_pos rfl, hzero b (hbd.symm.trans hdata)]
    exact hp
  · intro d' hd' hne'
    obtain ⟨b, hb, hbd, hb'⟩ := data_updateBuffer hf hok.devices hd' hbuffers
    have hdd : d' ≠ d := by
      rintro rfl
      exact hne' hdata
    rw [hb', if_neg hdd, hbd]

theorem allocateOn_allocated (hok : ObjectOk devices memory o) (hparent : o.parent = none)
    (hd : d ∈ devices) (hdata : o.data d = 0) (hm : ∀ p ∈ memalign, p ≠ 0)
    (h : o.allocateOn n memory d memalign = some (o', memory')) :
    Allocated o o' devices memory memory' d memalign := by
  have huse := hok.not_uses hd hdata
  by_cases hs : o.sharedPtr = 0
  · -- the first device: the memory is new, and the host memory goes into it
    cases memalign with
    | none => simp [BufferObject.allocateOn, hok.size, hs, hdata] at h
    | some p =>
      have hp : p ≠ 0 := hm p rfl
      have hzero : ∀ b ∈ o.deviceBuffers, b.data ≠ 0 → b.data = p := by
        intro b hb hb0
        exact absurd ((hok.shared huse b hb hb0).trans hs) hb0
      simp only [BufferObject.allocateOn, if_neg hok.size, if_pos hs, if_pos hdata, hparent,
        Option.isNone_none, Bool.true_and, Option.some.injEq] at h
      split at h
      · rename_i hc
        obtain ⟨rfl, rfl⟩ := Prod.mk.inj h
        refine allocated_update hok hd hdata (p := p)
          (f := fun b => { b with data := p, dataMalloced := true }) (fun _ => rfl)
          (fun _ _ => rfl) (fun _ _ _ => rfl) hzero hp rfl rfl rfl rfl rfl rfl ?_
          (.inr ⟨p, rfl, _, rfl⟩)
        intro hc
        rw [← hok.pending hc hs]
        exact congrArg some contents_memcpy
      · rename_i hc
        obtain ⟨rfl, rfl⟩ := Prod.mk.inj h
        exact allocated_update hok hd hdata (p := p)
          (f := fun b => { b with data := p, dataMalloced := true }) (fun _ => rfl)
          (fun _ _ => rfl) (fun _ _ _ => rfl) hzero hp rfl rfl rfl rfl rfl rfl
          (fun hc' => absurd hc' hc) (.inl rfl)
  · simp only [BufferObject.allocateOn, if_neg hok.size, if_neg hs, Option.some.injEq] at h
    obtain ⟨rfl, rfl⟩ := Prod.mk.inj h
    refine allocated_update hok hd hdata (p := o.sharedPtr)
      (f := fun b => { b with data := if b.data = 0 then o.sharedPtr else b.data }) (fun _ => rfl)
      (fun b hb => if_pos hb) ?_ (hok.shared huse) hs hparent rfl rfl rfl rfl rfl
      (fun hc => hok.filled hc hs) (.inl rfl)
    intro b hb hb0
    by_cases hz : b.data = 0
    · exact if_pos hz
    · exact (if_neg hz).trans (hok.shared huse b hb hz)

end Object

section World

variable {w w' : BufferWorld} {o q : BufferObject} {memory : Nat → UInt8} {d i p : Nat}
  {b : BufferAction}

structure WorldInv (w : BufferWorld) : Prop where
  nonempty : w.devices ≠ []
  object : ∀ o ∈ w.objects, o.parent = none → ObjectOk w.devices w.memory o
  kept : ∀ o ∈ w.objects, o.parent = none → o.copies = true → o.sharedPtr = 0 →
    o.keeps w.devices.length = true
  parents : ∀ o ∈ w.objects, ∀ p ∈ o.parent, ∃ q, w.objects[p]? = some q ∧ q.parent = none
  accepted : ∀ r ∈ w.accepted, r.1 < w.objects.length ∧ r.2 ∈ w.devices ∧
    ∀ o ∈ w.objects[w.root r.1]?, o.data r.2 ≠ 0
  subBuffer : ∀ o ∈ w.objects, ∀ p ∈ o.parent, ∀ q ∈ w.objects[p]?, ∀ d ∈ w.devices,
    o.data d = q.data d + o.offset

/-- A block of `malloc` is apart from the copies that the runtime keeps. -/
theorem fresh_apart {a n : UInt64} (h : w.fresh a n = true) (ho : o ∈ w.objects)
    (hk : o.keeps w.devices.length = true) :
    a.toNat + n.toNat ≤ o.hostPtr.toNat ∨ o.hostPtr.toNat + o.size.toNat ≤ a.toNat := by
  simp only [BufferWorld.fresh, Bool.and_eq_true, List.all_eq_true] at h
  have hr := h.2 o ho (o.hostPtr.toNat, o.size.toNat) (by simp [BufferObject.blocks, hk])
  simpa using hr

theorem fresh_ne_zero {a n : UInt64} (h : w.fresh a n = true) : a ≠ 0 := by
  simp only [BufferWorld.fresh, Bool.and_eq_true, decide_eq_true_eq] at h
  exact h.1

theorem ObjectOk.frame {devices : List Nat} {memory' : Nat → UInt8}
    (hok : ObjectOk devices memory o)
    (hm : o.copies = true → o.sharedPtr = 0 → contents memory' o.hostPtr.toNat o.size.toNat =
      contents memory o.hostPtr.toNat o.size.toNat) : ObjectOk devices memory' o where
  size := hok.size
  devices := hok.devices
  host := hok.host
  shared := hok.shared
  filled := hok.filled
  pending := fun hc hs => (hm hc hs).trans (hok.pending hc hs)

/-- The memory of the copies that are still needed. -/
def BufferWorld.Keeps (w : BufferWorld) (memory : Nat → UInt8) : Prop :=
  ∀ o ∈ w.objects, o.keeps w.devices.length = true →
    contents memory o.hostPtr.toNat o.size.toNat = contents w.memory o.hostPtr.toNat o.size.toNat

theorem keeps_memcpy {a n : UInt64} (h : w.fresh a n = true) (src : Nat) :
    w.Keeps (memcpy w.memory a.toNat src n.toNat) := by
  intro o ho hk
  exact contents_memcpy_apart (fresh_apart h ho hk)

theorem WorldInv.framed (hi : WorldInv w) (hm : w.Keeps memory) (ho : o ∈ w.objects)
    (hp : o.parent = none) : ObjectOk w.devices memory o :=
  (hi.object o ho hp).frame fun hc hs => hm o ho (hi.kept o ho hp hc hs)

theorem WorldInv.root (hi : WorldInv w) (h : i < w.objects.length) :
    ∃ r, w.objects[w.root i]? = some r ∧ r.parent = none := by
  obtain ⟨o, ho⟩ : ∃ o, w.objects[i]? = some o := ⟨w.objects[i], List.getElem?_eq_getElem h⟩
  cases hp : o.parent with
  | none => exact ⟨o, by simp [BufferWorld.root, ho, hp], hp⟩
  | some p =>
    obtain ⟨r, hr, hrp⟩ := hi.parents o (List.mem_of_getElem? ho) p hp
    exact ⟨r, by simp [BufferWorld.root, ho, hp, hr], hrp⟩

theorem WorldInv.buffersAlias (hi : WorldInv w) : BuffersAlias w := by
  refine ⟨?_, fun r hr => (hi.accepted r hr).2.2, hi.subBuffer, ?_⟩
  · intro o ho hp b hb c hc hb0 hc0
    have hok := hi.object o ho hp
    cases hu : o.uses with
    | true =>
      obtain ⟨-, -, hall⟩ := hok.host hu
      rw [hall b hb, hall c hc]
    | false => rw [hok.shared hu b hb hb0, hok.shared hu c hc hc0]
  · intro r hr o ho hc
    obtain ⟨hlt, hd, hdata⟩ := hi.accepted r hr
    obtain ⟨r', hr', hp⟩ := hi.root hlt
    obtain rfl : r' = o := Option.some.inj (hr'.symm.trans ho)
    have hok := hi.object r' (List.mem_of_getElem? hr') hp
    obtain ⟨b, hb, -, hb'⟩ := exists_deviceBuffer hok.devices hd
    have hu : r'.uses = false := by
      by_contra hu
      have hno := (hok.host (by simpa using hu)).2.1
      rw [hc] at hno
      cases hno
    have hne := hdata r' hr'
    rw [hb'] at hne
    refine hok.filled hc ?_
    rw [← hok.shared hu b hb hne]
    exact hne

/-- A new object, with what the calls around it do to the memory. -/
theorem worldInv_append (hi : WorldInv w) (hm : w.Keeps memory)
    (hnew : o.parent = none → ObjectOk w.devices memory o ∧
      (o.copies = true → o.sharedPtr = 0 → o.keeps w.devices.length = true))
    (hsub : ∀ p ∈ o.parent, ∃ q, w.objects[p]? = some q ∧ q.parent = none ∧
      ∀ d ∈ w.devices, o.data d = q.data d + o.offset) :
    WorldInv { w with memory := memory, objects := w.objects ++ [o] } := by
  have hget : ∀ {j : Nat} {x : BufferObject}, w.objects[j]? = some x →
      (w.objects ++ [o])[j]? = some x := by
    intro j x hx
    obtain ⟨hj, -⟩ := List.getElem?_eq_some_iff.mp hx
    rwa [List.getElem?_append_left hj]
  refine ⟨hi.nonempty, ?_, ?_, ?_, ?_, ?_⟩
  · intro x hx hp
    rcases List.mem_append.mp hx with hx | hx
    · exact hi.framed hm hx hp
    · rw [List.mem_singleton.mp hx] at hp ⊢
      exact (hnew hp).1
  · intro x hx hp
    rcases List.mem_append.mp hx with hx | hx
    · exact hi.kept x hx hp
    · rw [List.mem_singleton.mp hx] at hp ⊢
      exact (hnew hp).2
  · intro x hx p hp
    rcases List.mem_append.mp hx with hx | hx
    · obtain ⟨q, hq, hqp⟩ := hi.parents x hx p hp
      exact ⟨q, hget hq, hqp⟩
    · rw [List.mem_singleton.mp hx] at hp
      obtain ⟨q, hq, hqp, -⟩ := hsub p hp
      exact ⟨q, hget hq, hqp⟩
  · intro r hr
    obtain ⟨hlt, hd, hdata⟩ := hi.accepted r hr
    refine ⟨by simp; omega, hd, ?_⟩
    obtain ⟨x, hx⟩ : ∃ x, w.objects[r.1]? = some x := ⟨_, List.getElem?_eq_getElem hlt⟩
    have hroot : BufferWorld.root { w with memory := memory, objects := w.objects ++ [o] } r.1 =
        w.root r.1 := by
      simp only [BufferWorld.root, hx, hget hx]
    rw [hroot]
    intro y hy
    obtain ⟨z, hz, -⟩ := hi.root hlt
    obtain rfl : z = y := Option.some.inj ((hget hz).symm.trans hy)
    exact hdata z hz
  · intro x hx p hp q hq d hd
    rcases List.mem_append.mp hx with hx | hx
    · obtain ⟨z, hz, -⟩ := hi.parents x hx p hp
      obtain rfl : z = q := Option.some.inj ((hget hz).symm.trans hq)
      exact hi.subBuffer x hx p hp z hz d hd
    · rw [List.mem_singleton.mp hx] at hp ⊢
      obtain ⟨z, hz, -, hdata⟩ := hsub p hp
      obtain rfl : z = q := Option.some.inj ((hget hz).symm.trans hq)
      exact hdata d hd

theorem worldInv_write (hi : WorldInv w) (hm : w.Keeps memory) :
    WorldInv { w with memory := memory } where
  nonempty := hi.nonempty
  object := fun _ ho hp => hi.framed hm ho hp
  kept := hi.kept
  parents := hi.parents
  accepted := hi.accepted
  subBuffer := hi.subBuffer

theorem worldInv_accept (hi : WorldInv w) (hlt : i < w.objects.length) (hd : d ∈ w.devices)
    (hdata : ∀ o ∈ w.objects[w.root i]?, o.data d ≠ 0) :
    WorldInv { w with accepted := (i, d) :: w.accepted } where
  nonempty := hi.nonempty
  object := hi.object
  kept := hi.kept
  parents := hi.parents
  subBuffer := hi.subBuffer
  accepted := by
    intro r hr
    rcases List.mem_cons.mp hr with rfl | hr
    · exact ⟨hlt, hd, hdata⟩
    · exact hi.accepted r hr

theorem root_set {j : Nat} {r r' : BufferObject} (hr : w.objects[j]? = some r)
    (hp : r.parent = none) (hp' : r'.parent = none) (a : Nat) :
    BufferWorld.root { w with memory := memory, objects := w.objects.set j r' } a = w.root a := by
  have hjlt : j < w.objects.length := (List.getElem?_eq_some_iff.mp hr).1
  by_cases haj : a = j
  · rw [BufferWorld.root, BufferWorld.root, haj, List.getElem?_set_self hjlt, hr]
    simp [hp', hp]
  · rw [BufferWorld.root, BufferWorld.root, List.getElem?_set_ne (Ne.symm haj)]

/-- A buffer without sub-buffers is allocated on one more device. -/
theorem worldInv_set {j : Nat} {r r' : BufferObject} {memalign : Option UInt64} (hi : WorldInv w)
    (hr : w.objects[j]? = some r) (hp : r.parent = none)
    (ha : Allocated r r' w.devices w.memory memory d memalign) (hm : w.Keeps memory)
    (hsub : ∀ o ∈ w.objects, o.parent ≠ some j) :
    WorldInv { w with memory := memory, objects := w.objects.set j r' } := by
  have hmem : ∀ {x : BufferObject}, x ∈ w.objects.set j r' → x = r' ∨ x ∈ w.objects :=
    fun hx => (List.mem_or_eq_of_mem_set hx).symm
  have hne : ∀ {x : BufferObject} {p : Nat}, x ∈ w.objects.set j r' → x.parent = some p →
      x ∈ w.objects ∧ p ≠ j := by
    intro x p hx hxp
    rcases hmem hx with rfl | hold
    · rw [ha.parent] at hxp
      cases hxp
    · refine ⟨hold, ?_⟩
      intro hpj
      exact hsub x hold (hpj ▸ hxp)
  refine ⟨hi.nonempty, ?_, ?_, ?_, ?_, ?_⟩
  · intro x hx hxp
    rcases hmem hx with rfl | hx
    · exact ha.ok
    · exact hi.framed hm hx hxp
  · intro x hx hxp hc hs
    rcases hmem hx with rfl | hx
    · exact absurd hs ha.shared
    · exact hi.kept x hx hxp hc hs
  · intro x hx p hxp
    obtain ⟨hx, hpj⟩ := hne hx hxp
    obtain ⟨q, hq, hqp⟩ := hi.parents x hx p hxp
    exact ⟨q, by rwa [List.getElem?_set_ne (Ne.symm hpj)], hqp⟩
  · intro a haa
    obtain ⟨hlt, hd, hdata⟩ := hi.accepted a haa
    refine ⟨by simpa using hlt, hd, ?_⟩
    have hjlt : j < w.objects.length := (List.getElem?_eq_some_iff.mp hr).1
    rw [root_set hr hp ha.parent]
    intro x hx
    by_cases hj : w.root a.1 = j
    · rw [hj, List.getElem?_set_self hjlt] at hx
      obtain rfl : r' = x := Option.some.inj hx
      have hold := hdata r (by rw [hj]; exact hr)
      rw [ha.others a.2 hd hold]
      exact hold
    · rw [List.getElem?_set_ne (Ne.symm hj)] at hx
      exact hdata x hx
  · intro x hx p hxp q hq d hd
    obtain ⟨hx, hpj⟩ := hne hx hxp
    rw [List.getElem?_set_ne (Ne.symm hpj)] at hq
    exact hi.subBuffer x hx p hxp q hq d hd

theorem worldInv_bufferEvent {memalign : Option UInt64} (hi : WorldInv w) (hd : d ∈ w.devices)
    (hm : ∀ o ∈ w.objects[w.root i]?, memalign.all (w.fresh · o.size) = true)
    (hg : AllocatedFirst w (.bufferEvent i d memalign))
    (h : w.bufferEvent i d memalign = .ok w') : WorldInv w' := by
  simp only [BufferWorld.bufferEvent] at h
  split at h
  · rename_i o r ho hr
    have hlt : i < w.objects.length := (List.getElem?_eq_some_iff.mp ho).1
    obtain ⟨z, hz, hp⟩ := hi.root hlt
    obtain rfl : z = r := Option.some.inj (hz.symm.trans hr)
    split at h
    · cases h
    · split at h
      · rename_i hdata
        cases h
        refine worldInv_accept hi hlt hd ?_
        intro x hx
        obtain rfl : z = x := Option.some.inj (hz.symm.trans hx)
        exact hdata
      · rename_i hdata
        have hdata : z.data d = 0 := not_not.mp hdata
        split at h
        · cases h
        · rename_i r' memory' halloc
          cases h
          have hfresh : ∀ p ∈ memalign, w.fresh p z.size = true := by
            intro p hp'
            have hall := hm z hz
            rw [Option.mem_def.mp hp'] at hall
            exact hall
          have ha := allocateOn_allocated (hi.object z (List.mem_of_getElem? hz) hp) hp hd hdata
            (fun p hp' => fresh_ne_zero (hfresh p hp')) halloc
          have hkeeps : w.Keeps memory' := by
            rcases ha.memory with hmem | ⟨p, hp', src, hmem⟩
            · rw [hmem]
              exact fun _ _ _ => rfl
            · rw [hmem]
              exact keeps_memcpy (hfresh p hp') src
          have hsub : ∀ o ∈ w.objects, o.parent ≠ some (w.root i) := by
            rcases hg with hg | hg
            · exact absurd hdata (hg z hz)
            · exact hg
          have hset := worldInv_set hi hz hp ha hkeeps hsub
          have hjlt : w.root i < w.objects.length := (List.getElem?_eq_some_iff.mp hz).1
          refine worldInv_accept (w := { w with
            memory := memory', objects := w.objects.set (w.root i) r' }) hset (by simpa using hlt)
            hd ?_
          intro x hx
          rw [root_set hz hp ha.parent, List.getElem?_set_self hjlt] at hx
          obtain rfl : r' = x := Option.some.inj hx
          exact ha.data
  · cases h

theorem createDeviceBuffers_devices (x : BufferObject) :
    (w.createDeviceBuffers x).map CpuBuffer.device = w.devices := by
  rw [BufferWorld.createDeviceBuffers, List.map_map]
  exact List.map_id _

/-- The constructors leave each device with its own `CPUBuffer`. -/
theorem data_createDeviceBuffers (x : BufferObject) (hd : d ∈ w.devices)
    (ho : o.deviceBuffers = w.createDeviceBuffers x) :
    o.data d = match x.parent with
      | some p => (w.objects[p]?.elim 0 fun p => p.data d) + x.offset
      | none => if x.uses then x.hostPtr else 0 := by
  have hdevices : o.deviceBuffers.map CpuBuffer.device = w.devices := by
    rw [ho, createDeviceBuffers_devices]
  obtain ⟨b, hb, hfind, hdata⟩ := exists_deviceBuffer hdevices hd
  have hbd : b.device = d := by simpa using List.find?_some hfind
  rw [ho, BufferWorld.createDeviceBuffers, List.mem_map] at hb
  obtain ⟨e, -, rfl⟩ := hb
  rw [hdata, ← hbd]

/-- The buffers of a new object that is no sub-buffer. -/
theorem objectOk_created {x : BufferObject} (hx : o.deviceBuffers = w.createDeviceBuffers x)
    (hp : x.parent = none) (hflags : x.flags = o.flags) (hptr : x.hostPtr = o.hostPtr)
    (hsize : o.size ≠ 0) (hs : o.sharedPtr = 0)
    (huse : o.uses = true → o.hostPtr ≠ 0 ∧ o.copies = false)
    (hgiven : o.copies = true → contents memory o.hostPtr.toNat o.size.toNat = o.given) :
    ObjectOk w.devices memory o := by
  have huses : x.uses = o.uses := by rw [BufferObject.uses, BufferObject.uses, hflags]
  have hdata : ∀ b ∈ o.deviceBuffers, b.data = if o.uses then o.hostPtr else 0 := by
    intro b hb
    rw [hx, BufferWorld.createDeviceBuffers, List.mem_map] at hb
    obtain ⟨e, -, rfl⟩ := hb
    simp [hp, huses, hptr]
  refine ⟨hsize, by rw [hx, createDeviceBuffers_devices], ?_, ?_, fun hc _ => hgiven hc, ?_⟩
  · intro hu
    refine ⟨(huse hu).1, (huse hu).2, ?_⟩
    intro b hb
    simp [hdata b hb, hu]
  · intro hu b hb hb0
    simp [hdata b hb, hu] at hb0
  · intro _ hs'
    exact absurd hs hs'

/-- An object that has its memory from somewhere else is left as it is. -/
theorem allocateOn_given {n : Nat} {memalign : Option UInt64} (hsize : o.size ≠ 0)
    (hs : o.sharedPtr = 0) (hdata : o.data d ≠ 0)
    (hc : o.parent.isNone = false ∨ o.copies = false) :
    o.allocateOn n memory d memalign = some (o.deviceAllocated n, memory) := by
  have hno : (o.parent.isNone && o.copies) = false := by
    rcases hc with hc | hc <;> simp [hc]
  simp [BufferObject.allocateOn, hsize, hs, hdata, hno]

/-- As `worldInv_append`, for an object that is no sub-buffer. -/
theorem worldInv_append_buffer (hi : WorldInv w) (hm : w.Keeps memory) (hp : o.parent = none)
    (hok : ObjectOk w.devices memory o)
    (hkept : o.copies = true → o.sharedPtr = 0 → o.keeps w.devices.length = true) :
    WorldInv { w with memory := memory, objects := w.objects ++ [o] } := by
  refine worldInv_append hi hm (fun _ => ⟨hok, hkept⟩) ?_
  intro p hop
  rw [hp] at hop
  cases hop

/-- The host memory that is used in place needs no allocation. -/
theorem objectOk_deviceAllocated {n : Nat} (hok : ObjectOk w.devices memory o)
    (hu : o.uses = true) : ObjectOk w.devices memory (o.deviceAllocated n) := by
  obtain ⟨hne, hno, hall⟩ := hok.host hu
  have hptr : (o.deviceAllocated n).hostPtr = o.hostPtr := by
    simp [BufferObject.deviceAllocated, hno]
  refine ⟨hok.size, hok.devices, ?_, hok.shared, ?_, ?_⟩
  · intro _
    rw [hptr]
    exact ⟨hne, hno, hall⟩
  · intro hc
    rw [copies_deviceAllocated, hno] at hc
    cases hc
  · intro hc
    rw [copies_deviceAllocated, hno] at hc
    cases hc

/-- With one device a new buffer is allocated on it. -/
theorem worldInv_allocate {o' : BufferObject} {memalign : Option UInt64} (hi : WorldInv w)
    (hp : o.parent = none) (hs : o.sharedPtr = 0) (hok : ObjectOk w.devices w.memory o)
    (hd : d ∈ w.devices) (hfresh : ∀ p ∈ memalign, w.fresh p o.size = true)
    (h : o.allocateOn w.devices.length w.memory d memalign = some (o', memory)) :
    WorldInv { w with memory := memory, objects := w.objects ++ [o'] } := by
  by_cases hdata : o.data d = 0
  · have ha := allocateOn_allocated hok hp hd hdata (fun p hp' => fresh_ne_zero (hfresh p hp')) h
    refine worldInv_append_buffer hi ?_ ha.parent ha.ok fun _ hs' => absurd hs' ha.shared
    rcases ha.memory with hmem | ⟨p, hp', src, hmem⟩
    · rw [hmem]
      exact fun _ _ _ => rfl
    · rw [hmem]
      exact keeps_memcpy (hfresh p hp') src
  · have hu : o.uses = true := by
      by_contra hu
      obtain ⟨b, hb, -, hb'⟩ := exists_deviceBuffer hok.devices hd
      rw [hb'] at hdata
      exact hdata ((hok.shared (by simpa using hu) b hb hdata).trans hs)
    have hno := (hok.host hu).2.1
    rw [allocateOn_given hok.size hs hdata (.inr hno)] at h
    obtain ⟨rfl, rfl⟩ := Prod.mk.inj (Option.some.inj h)
    refine worldInv_append_buffer hi (fun _ _ _ => rfl) hp (objectOk_deviceAllocated hok hu) ?_
    intro hc
    rw [copies_deviceAllocated, hno] at hc
    cases hc

theorem worldInv_init {malloc memalign : Option UInt64} (hi : WorldInv w) (hp : o.parent = none)
    (hsize : o.size ≠ 0) (hs : o.sharedPtr = 0)
    (huse : o.uses = true → o.hostPtr ≠ 0 ∧ o.copies = false)
    (hgiven : o.copies = true → contents w.memory o.hostPtr.toNat o.size.toNat = o.given)
    (hmalloc : malloc.all (w.fresh · o.size) = true)
    (hmemalign : memalign.all (w.fresh · o.size) = true)
    (h : w.init o malloc memalign = .ok w') : WorldInv w' := by
  simp only [BufferWorld.init] at h
  split at h
  · -- several devices: the copy is kept for the first of them
    rename_i hlater
    have hc : o.copies = true := hlater.2.1
    split at h
    · cases h
    · rename_i tmp
      cases h
      have htmp : w.fresh tmp o.size = true := hmalloc
      refine worldInv_append_buffer hi (keeps_memcpy htmp _) ?_ ?_ fun _ _ => ?_
      · exact hp
      · refine objectOk_created rfl hp rfl rfl hsize hs ?_ ?_
        · intro hu
          have hno := (huse hu).2
          rw [hc] at hno
          cases hno
        · intro _
          exact contents_memcpy.trans (hgiven hc)
      · simp only [BufferObject.keeps, Bool.and_eq_true, decide_eq_true_eq]
        exact ⟨⟨⟨by simp [hp], hlater.1⟩, hc⟩, fresh_ne_zero htmp⟩
  · rename_i hlater
    split at h
    · rename_i d hdevices
      split at h
      · cases h
      · rename_i x' memory' halloc
        cases h
        refine worldInv_allocate hi ?_ ?_ ?_ (by simp [hdevices]) ?_ halloc
        · exact hp
        · exact hs
        · exact objectOk_created rfl hp rfl rfl hsize hs huse hgiven
        intro p hp'
        rw [Option.mem_def.mp hp'] at hmemalign
        exact hmemalign
    · rename_i hmany
      cases h
      refine worldInv_append_buffer hi (fun _ _ _ => rfl) ?_ ?_ fun hc _ => ?_
      · exact hp
      · exact objectOk_created rfl hp rfl rfl hsize hs huse hgiven
      -- two devices or more, and no copy
      have hlen : 1 < w.devices.length := by
        cases hdev : w.devices with
        | nil => exact absurd hdev hi.nonempty
        | cons d l =>
          cases l with
          | nil => exact absurd hdev (hmany d)
          | cons => simp
      exact absurd ⟨hlen, hc, hp⟩ hlater

theorem or_and_apart {x y z : UInt64} (h : y &&& z = 0) : (x ||| y) &&& z = x &&& z := by
  apply UInt64.eq_of_toBitVec_eq
  have hbits := congrArg UInt64.toBitVec h
  simp only [UInt64.toBitVec_and, UInt64.toBitVec_or] at *
  apply BitVec.eq_of_getLsbD_eq
  intro j hj
  have hbit := congrArg (fun v => v.getLsbD j) hbits
  simp only [BitVec.getLsbD_and, BitVec.getLsbD_or] at *
  simp only [UInt64.toBitVec_zero, BitVec.getLsbD_zero] at hbit
  grind

/-- The default keeps the bits that say where the memory comes from. -/
theorem defaultFlags_and {flags bit : UInt64} (h : clMemReadWrite &&& bit = 0) :
    defaultFlags flags &&& bit = flags &&& bit := by
  unfold defaultFlags
  split
  · exact or_and_apart h
  · rfl

/-- An accepted buffer has bytes, and a host pointer if it wants one. -/
structure BufferArgs (size hostPtr flags : UInt64) : Prop where
  size : size ≠ 0
  host : flags &&& clMemUseHostPtr ≠ 0 → hostPtr ≠ 0
  exclusive : flags &&& clMemUseHostPtr ≠ 0 → flags &&& clMemCopyHostPtr = 0

theorem buffer_accepts {size hostPtr flags : UInt64}
    (h : buffer size hostPtr flags = some (.ok ())) : BufferArgs size hostPtr flags := by
  change buffer size hostPtr flags = pure () at h
  simp only [buffer, memObject, bind_eq_pure, reject_eq_pure] at h
  obtain ⟨-, hsize, -, -, -, -, -, -, -, -, -, -, -, -, -, hboth, -, hptr, -⟩ := h
  refine ⟨by simpa using hsize, ?_, ?_⟩
  · intro huse hzero
    have hmask : flags &&& (clMemUseHostPtr ||| clMemCopyHostPtr) = 0 := by
      by_contra hne
      simp [hne, hzero] at hptr
    apply huse
    have hsplit : (flags &&& (clMemUseHostPtr ||| clMemCopyHostPtr)) &&& clMemUseHostPtr =
        flags &&& clMemUseHostPtr := by
      rw [UInt64.and_assoc]
      rfl
    rw [← hsplit, hmask, UInt64.zero_and]
  · intro huse
    by_contra hcopy
    simp [huse, hcopy] at hboth

theorem worldInv_createBuffer {flags size hostPtr : UInt64} {malloc memalign : Option UInt64}
    (hi : WorldInv w) (hmalloc : malloc.all (w.fresh · size) = true)
    (hmemalign : memalign.all (w.fresh · size) = true)
    (h : w.createBuffer flags size hostPtr malloc memalign = .ok w') : WorldInv w' := by
  simp only [BufferWorld.createBuffer] at h
  split at h
  · cases h
  · cases h
  · rename_i hargs
    have hargs := buffer_accepts hargs
    refine worldInv_init hi ?_ ?_ ?_ ?_ ?_ ?_ ?_ h
    · rfl
    · exact hargs.size
    · rfl
    · intro hu
      simp only [BufferObject.uses, defaultFlags_and (show clMemReadWrite &&& clMemUseHostPtr = 0
        from rfl), decide_eq_true_eq] at hu
      refine ⟨hargs.host hu, ?_⟩
      simp only [BufferObject.copies, defaultFlags_and (show clMemReadWrite &&& clMemCopyHostPtr = 0
        from rfl), hargs.exclusive hu]
      rfl
    · intro hc
      simp only [BufferObject.copies, defaultFlags_and (show clMemReadWrite &&& clMemCopyHostPtr = 0
        from rfl), decide_eq_true_eq] at hc
      exact (if_pos hc).symm
    · exact hmalloc
    · exact hmemalign

/-- A sub-buffer takes the memory that its parent has on each device. -/
theorem worldInv_init_sub {malloc memalign : Option UInt64} (hi : WorldInv w)
    (hq : w.objects[p]? = some q) (hqp : q.parent = none) (hp : o.parent = some p)
    (hsize : o.size ≠ 0) (hs : o.sharedPtr = 0)
    (hne : ∀ d, w.devices = [d] → q.data d + o.offset ≠ 0)
    (h : w.init o malloc memalign = .ok w') : WorldInv w' := by
  simp only [BufferWorld.init] at h
  rw [if_neg (fun hlater => by simp [hp] at hlater)] at h
  generalize hx : ({ o with
      devicesToAllocate := UInt32.ofNat w.devices.length
      deviceBuffers := w.createDeviceBuffers { o with
        devicesToAllocate := UInt32.ofNat w.devices.length } } : BufferObject) = x at h
  have hxp : x.parent = some p := by rw [← hx]; exact hp
  have hdata : ∀ d ∈ w.devices, x.data d = q.data d + x.offset := by
    intro d hd
    rw [← hx, data_createDeviceBuffers _ hd rfl]
    simp [hp, hq]
  have happend : ∀ {y : BufferObject}, y.parent = some p → (∀ d, y.data d = x.data d) →
      y.offset = x.offset → WorldInv { w with objects := w.objects ++ [y] } := by
    intro y hyp hydata hyo
    refine worldInv_append hi (fun _ _ _ => rfl) ?_ ?_
    · intro hnone
      rw [hyp] at hnone
      cases hnone
    · intro p' hp'
      obtain rfl : p = p' := Option.some.inj (hyp.symm.trans hp')
      refine ⟨q, hq, hqp, ?_⟩
      intro d hd
      rw [hydata, hyo]
      exact hdata d hd
  split at h
  · rename_i d hdevices
    have hd : d ∈ w.devices := by simp [hdevices]
    have hxd : x.data d ≠ 0 := by
      rw [hdata d hd, ← hx]
      exact hne d hdevices
    rw [allocateOn_given (by rw [← hx]; exact hsize) (by rw [← hx]; exact hs) hxd
      (.inl (by simp [hxp]))] at h
    cases h
    exact happend hxp (fun _ => rfl) rfl
  · cases h
    exact happend hxp (fun _ => rfl) rfl

theorem worldInv_createSubBuffer {offset size flags : UInt64} {memalign : Option UInt64}
    (hi : WorldInv w) (hg : AllocatedFirst w (.createSubBuffer p offset size flags memalign))
    (h : w.createSubBuffer p offset size flags memalign = .ok w') : WorldInv w' := by
  simp only [BufferWorld.createSubBuffer] at h
  split at h
  · cases h
  · rename_i q hq
    split at h
    · cases h
    · rename_i hqp
      split at h
      · cases h
      · cases h
      · rename_i hargs
        change subBuffer q.view offset size flags = pure () at hargs
        have hsize : size ≠ 0 := by
          simp only [subBuffer, bind_eq_pure, reject_eq_pure] at hargs
          obtain ⟨-, hsize, -⟩ := hargs
          simpa using hsize
        refine worldInv_init_sub hi hq (by simpa using hqp) rfl hsize rfl ?_ h
        intro d hdevices
        exact hg d (by simp [hdevices]) hdevices q hq

theorem worldInv_step (hi : WorldInv w) (hg : AllocatedFirst w b)
    (h : bufferStep w b = some w') : WorldInv w' := by
  have hok : ∀ {r : Except Int BufferWorld}, r.toOption = some w' → r = .ok w' := by
    intro r hr
    cases r with
    | error => cases hr
    | ok x => rw [Option.some.inj hr]
  cases b with
  | createBuffer flags size hostPtr malloc memalign =>
    simp only [bufferStep] at h
    split at h
    · rename_i hfresh
      exact worldInv_createBuffer hi hfresh.1 hfresh.2 (hok h)
    · cases h
  | createSubBuffer p offset size flags memalign =>
    simp only [bufferStep] at h
    split at h
    · exact worldInv_createSubBuffer hi hg (hok h)
    · cases h
  | bufferEvent i d memalign =>
    simp only [bufferStep] at h
    split at h
    · rename_i hfresh
      exact worldInv_bufferEvent hi hfresh.1 hfresh.2 hg (hok h)
    · cases h
  | write a v =>
    simp only [bufferStep] at h
    split at h
    · rename_i houtside
      cases h
      refine worldInv_write hi ?_
      intro o ho hk
      have hout := List.all_eq_true.mp houtside o ho
      simp only [hk, Bool.not_true, Bool.false_or, Bool.or_eq_true, decide_eq_true_eq] at hout
      apply contents_congr
      intro j hj
      have hne : o.hostPtr.toNat + j ≠ a := by omega
      rw [Function.update_of_ne hne]
    · cases h

/-- The devices of a context agree on the memory of a buffer and of its sub-buffers, as long as each
sub-buffer is created after its parent has been allocated. -/
theorem buffers_alias (h : Reachable (bufferSystem.restrict AllocatedFirst) w) :
    BuffersAlias w := by
  apply WorldInv.buffersAlias
  apply h.invariant
  · rintro _ ⟨devices, memory, hne, rfl⟩
    refine ⟨hne, ?_, ?_, ?_, ?_, ?_⟩ <;> simp
  · intro w b w' _ hi ht
    exact worldInv_step hi ht.2 ht.1

theorem exists_kept_buffer_run (devices : List Nat) (memory : Nat → UInt8) (hd : devices ≠ [])
    (bs : List BufferAction) (c : BufferWorld → Bool)
    (h : (execGuarded bufferStep (fun w b => decide (AllocatedFirst w b))
      ⟨devices, memory, [], []⟩ bs).map c = some true) :
    ∃ w, Reachable (bufferSystem.restrict AllocatedFirst) w ∧ c w = true :=
  exists_execGuarded AllocatedFirst ⟨devices, memory, hd, rfl⟩ bs c h

theorem exists_buffer_run (devices : List Nat) (memory : Nat → UInt8) (hd : devices ≠ [])
    (bs : List BufferAction) (c : BufferWorld → Bool)
    (h : (exec bufferStep ⟨devices, memory, [], []⟩ bs).map c = some true) :
    ∃ w, Reachable bufferSystem w ∧ c w = true :=
  exists_exec ⟨devices, memory, hd, rfl⟩ bs c h

/-- A buffer of two devices with a copy of the host memory at 64, used on both and then divided. -/
theorem copied_buffer_aliases : ∃ w, (w.accepted.length = 3 ∧ w.objects.length = 2) ∧
    BuffersAlias w := by
  obtain ⟨w, hr, hc⟩ := exists_kept_buffer_run [0, 1] (fun a => UInt8.ofNat a)
    (by decide +kernel)
    [.createBuffer clMemCopyHostPtr 2 64 (some 1024) none, .write 64 7,
      .bufferEvent 0 1 (some 4096), .bufferEvent 0 0 none, .createSubBuffer 0 0 1 0 none,
      .bufferEvent 1 0 none]
    (fun w => w.accepted.length = 3 ∧ w.objects.length = 2) (by decide +kernel)
  exact ⟨w, by simpa using hc, buffers_alias hr⟩

/-- A sub-buffer of an unused buffer on two devices starts at its offset in the null page. -/
theorem sub_buffer_of_unused_buffer : ¬ ∀ w, Reachable bufferSystem w → BuffersAlias w := by
  intro hall
  obtain ⟨w, hr, hc⟩ := exists_buffer_run [0, 1] (fun _ => 0) (by decide +kernel)
    [.createBuffer 0 4096 0 none none, .createSubBuffer 0 128 128 0 none,
      .bufferEvent 1 0 (some 65536)]
    (fun w => w.accepted = [(1, 0)] ∧ w.devices = [0, 1] ∧
      w.objects.map (fun o => (o.parent, o.offset, o.data 0)) =
        [(none, 0, 65536), (some 0, 128, 128)])
    (by decide +kernel)
  simp only [decide_eq_true_eq] at hc
  obtain ⟨-, hdevices, hobjects⟩ := hc
  obtain ⟨o, q, ho⟩ : ∃ o q, w.objects = [q, o] := by
    have hlen := congrArg List.length hobjects
    simp only [List.length_map, List.length_cons, List.length_nil] at hlen
    match hw : w.objects, hlen with
    | [q, o], _ => exact ⟨o, q, rfl⟩
  simp only [ho, List.map_cons, List.map_nil, List.cons.injEq, Prod.mk.injEq, and_true] at hobjects
  obtain ⟨⟨-, -, hq⟩, hp, hoff, hdata⟩ := hobjects
  have hbad := (hall w hr).subBuffer o (by simp [ho]) 0 hp q (by simp [ho]) 0 (by simp [hdevices])
  rw [hdata, hq, hoff] at hbad
  exact absurd hbad (by decide)

end World

end Shamrock.Runtime
