import Shamrock.Runtime.Commands
import Shamrock.Runtime.Retention

/-!
# Enqueuing a command, and what is left when the call fails

A call runs without interruption: its constructors, the tests, `initEventDeviceData`, and the
destructors if one of them fails.
-/
namespace Shamrock.Runtime

open Transition RefCount

abbrev EventId := Nat
abbrev QueueId := Nat

/-- An event as its constructor and `addDependentEvent` see it. -/
structure EventRecord where
  status : Int
  references : Nat
  dependentEvents : List EventId
  deriving DecidableEq, Repr

/-- `num_events_in_wait_list` and `event_wait_list`. -/
inductive WaitList
  /-- a null pointer with a number -/
  | null (num : Nat)
  | entries (events : List (Option EventId))
  deriving DecidableEq, Repr

def WaitList.events : WaitList → List EventId
  | .null _ => []
  | .entries events => events.filterMap id

/-- A `clEnqueue*` call with the arguments that its constructor tests. -/
inductive Call
  | readBuffer (buffer offset cb ptr : UInt64)
  | writeBuffer (buffer offset cb ptr : UInt64)
  | mapBuffer (buffer offset cb mapFlags : UInt64)
  | unmapMemObject (buffer mappedAddr : UInt64)
  | fillBuffer (buffer pattern patternSize offset size : UInt64)
  | copyBuffer (source destination srcOffset dstOffset cb : UInt64)
  | readBufferRect (buffer : UInt64) (args : RectArgs) (ptr : UInt64)
  | writeBufferRect (buffer : UInt64) (args : RectArgs) (ptr : UInt64)
  | copyBufferRect (source destination : UInt64) (args : RectArgs)
  | readImage (image : UInt64) (origin region : Option Vec3) (rowPitch slicePitch ptr : UInt64)
  | writeImage (image : UInt64) (origin region : Option Vec3) (rowPitch slicePitch ptr : UInt64)
  | copyImage (source destination : UInt64) (srcOrigin dstOrigin region : Option Vec3)
  | copyImageToBuffer (source destination : UInt64) (srcOrigin region : Option Vec3)
      (dstOffset : UInt64)
  | copyBufferToImage (source destination srcOffset : UInt64) (dstOrigin region : Option Vec3)
  | mapImage (image mapFlags : UInt64) (origin region : Option Vec3)
      (imageRowPitch imageSlicePitch : Bool)
  /-- `jit` is what `initJIT` answers -/
  | ndRangeKernel (kernel : KernelId) (workDim : Nat) (globalSize localSize : Option (List UInt64))
      (jit : Bool)
  | taskKernel (kernel : KernelId) (jit : Bool)
  | nativeKernel (userFunc args cbArgs : UInt64) (numMemObjects : Nat)
      (memList : Option (List UInt64)) (argsMemLoc : Bool)
  | migrateMemObjects (memObjects : Option (List UInt64)) (flags : UInt64)
  | marker
  | barrier
  | waitForEvents
  deriving DecidableEq, Repr

/-- The class of the command. -/
def Call.event : Call → CommandEvent
  | .readBuffer buffer .. => .readBuffer buffer
  | .writeBuffer buffer .. => .writeBuffer buffer
  | .mapBuffer buffer .. => .mapBuffer buffer
  | .unmapMemObject buffer _ => .unmapMemObject buffer
  | .fillBuffer buffer .. => .fillBuffer buffer
  | .copyBuffer source destination .. => .copyBuffer source destination
  | .readBufferRect buffer .. => .readBufferRect buffer
  | .writeBufferRect buffer .. => .writeBufferRect buffer
  | .copyBufferRect source destination _ => .copyBufferRect source destination
  | .readImage image .. => .readImage image
  | .writeImage image .. => .writeImage image
  | .copyImage source destination .. => .copyImage source destination
  | .copyImageToBuffer source destination .. => .copyImageToBuffer source destination
  | .copyBufferToImage source destination .. => .copyBufferToImage source destination
  | .mapImage image .. => .mapImage image
  | .ndRangeKernel kernel .. => .ndRangeKernel kernel
  | .taskKernel kernel _ => .taskKernel kernel
  | .nativeKernel _ _ _ _ memList _ => .nativeKernel (memList.getD [])
  | .migrateMemObjects memObjects _ => .migrateMemObjects (memObjects.getD [])
  | .marker => .marker
  | .barrier => .barrier
  | .waitForEvents => .waitForEvents

/-- Events, memory objects, kernels and queues, with the `p_references` of each. -/
structure World where
  events : EventId → EventRecord
  nextEvent : EventId
  attributes : UInt64 → MemObject
  memReferences : Counts UInt64
  kernels : KernelId → Kernel
  kernelInfo : KernelId → KernelInfo
  kernelReferences : KernelId → Nat
  queueInfo : QueueId → QueueInfo
  queueReferences : QueueId → Nat

namespace World

/-- What a pointer to a memory object points to. -/
def object (w : World) (m : UInt64) : Option MemObject :=
  (w.memReferences m).map fun _ => w.attributes m

/-- The tests that the constructors of the class make, and those of the call after them. -/
def check (w : World) (q : QueueId) : Call → Check Unit
  | .readBuffer buffer offset cb ptr | .writeBuffer buffer offset cb ptr =>
    readWriteBufferEvent (w.queueInfo q) (w.object buffer) offset cb ptr
  | .mapBuffer buffer offset cb mapFlags =>
    mapBufferEvent (w.queueInfo q) (w.object buffer) offset cb mapFlags
  | .unmapMemObject buffer mappedAddr =>
    unmapBufferEvent (w.queueInfo q) (w.object buffer) mappedAddr
  | .fillBuffer buffer pattern patternSize offset size =>
    fillBufferEvent (w.queueInfo q) (w.object buffer) pattern patternSize offset size
  | .copyBuffer source destination srcOffset dstOffset cb =>
    copyBufferEvent (w.queueInfo q) (w.object source) (w.object destination)
      (source = destination) srcOffset dstOffset cb
  | .readBufferRect buffer args ptr | .writeBufferRect buffer args ptr =>
    readWriteBufferRectEvent (w.queueInfo q) (w.object buffer) args ptr 1
  | .copyBufferRect source destination args => do
    let _ ← copyBufferRectEvent (w.queueInfo q) (w.object source) (w.object destination)
      (source = destination) args 1
  | .readImage image origin region rowPitch slicePitch ptr
  | .writeImage image origin region rowPitch slicePitch ptr =>
    readWriteImageEvent (w.queueInfo q) (w.object image) origin region rowPitch slicePitch ptr
  | .copyImage source destination srcOrigin dstOrigin region =>
    copyImageEvent (w.queueInfo q) (w.object source) (w.object destination)
      (source = destination) srcOrigin dstOrigin region
  | .copyImageToBuffer source destination srcOrigin region dstOffset =>
    copyImageToBufferEvent (w.queueInfo q) (w.object source) (w.object destination)
      (source = destination) srcOrigin region dstOffset
  | .copyBufferToImage source destination srcOffset dstOrigin region =>
    copyBufferToImageEvent (w.queueInfo q) (w.object source) (w.object destination)
      (source = destination) srcOffset dstOrigin region
  | .mapImage image mapFlags origin region imageRowPitch imageSlicePitch => do
    mapImageEvent (w.queueInfo q) (w.object image) mapFlags origin region
    reject (!imageRowPitch || ((w.attributes image).type = .image3D && !imageSlicePitch))
      clInvalidValue
  | .ndRangeKernel kernel workDim globalSize localSize _ =>
    kernelEvent (w.queueInfo q) w.object (w.kernelInfo kernel) (w.kernels kernel) workDim
      globalSize localSize
  | .taskKernel kernel _ =>
    kernelEvent (w.queueInfo q) w.object (w.kernelInfo kernel) (w.kernels kernel) 1
      (some [1]) (some [1])
  | .nativeKernel userFunc args cbArgs numMemObjects memList argsMemLoc =>
    nativeKernelEvent (w.queueInfo q) userFunc args cbArgs numMemObjects
      (memList.map (List.map w.object)) argsMemLoc
  | .migrateMemObjects memObjects flags =>
    migrateMemObjectsEvent (w.queueInfo q) (memObjects.map (List.map w.object)) flags
  | .marker | .barrier | .waitForEvents => pure ()

/-- `CPUDevice::initEventDeviceData`: only the JIT of a kernel can fail. -/
def initEventDeviceData : Call → Int
  | .ndRangeKernel _ _ _ _ jit | .taskKernel _ jit =>
    if jit then clSuccess else clInvalidProgramExecutable
  | _ => clSuccess

/-- A null image is read before the first constructor runs. -/
def readsNullImage (w : World) : Call → Bool
  | .writeImage image .. => (w.object image).isNone
  | .copyImage source destination .. =>
    (w.object source).isNone || (w.object destination).isNone
  | .copyImageToBuffer source .. => (w.object source).isNone
  | .copyBufferToImage _ destination .. => (w.object destination).isNone
  | _ => false

/-- `clEnqueueReadImage` refuses what is not an image before it constructs the command. -/
def refused (w : World) : Call → Bool
  | .readImage image .. => ((w.object image).all fun object =>
      object.type ≠ .image2D && object.type ≠ .image3D)
  | _ => false

/-- The search of `Event::Event` for null and failed events. -/
def checkEntries (w : World) : List (Option EventId) → Int
  | [] => clSuccess
  | none :: _ => clInvalidEventWaitList
  | some e :: l =>
    if (w.events e).status < 0 then clExecStatusErrorForEventsInWaitList else w.checkEntries l

/-- The tests of `Event::Event`. -/
def checkWaitList (w : World) : WaitList → Int
  | .null 0 => clSuccess
  | .null _ => clInvalidEventWaitList
  | .entries [] => clInvalidEventWaitList
  | .entries l => w.checkEntries l

/-- `Object(Object::T_Event, parent)` for the next event. -/
def newEvent (w : World) (q : QueueId) : World :=
  { w with
    events := Function.update w.events w.nextEvent ⟨clQueued, 1, []⟩
    nextEvent := w.nextEvent + 1
    queueReferences := Function.update w.queueReferences q (w.queueReferences q + 1) }

/-- `addDependentEvent` of `e`. -/
def addDependentEvent (w : World) (d e : EventId) : World :=
  if (w.events e).status = clComplete then w
  else
    { w with events := Function.update w.events e { w.events e with
        references := (w.events e).references + 1
        dependentEvents := (w.events e).dependentEvents ++ [d] } }

/-- The references that the constructor of the class takes on its kernel and memory objects. -/
def retainArgs (w : World) (event : CommandEvent) : World :=
  { w with
    memReferences := (event.retains w.kernels).foldl retain w.memReferences
    kernelReferences := match event.kernel with
      | none => w.kernelReferences
      | some k => Function.update w.kernelReferences k (w.kernelReferences k + 1) }

/-- `delete command` -/
def delete (w : World) (q : QueueId) (event : CommandEvent) : World :=
  { w with
    memReferences := (event.releases w.kernels).foldl release w.memReferences
    kernelReferences := match event.kernel with
      | none => w.kernelReferences
      | some k => Function.update w.kernelReferences k (w.kernelReferences k - 1)
    queueReferences := Function.update w.queueReferences q (w.queueReferences q - 1) }

/-- The constructors, the last of which is given the list of `Event::Event`. -/
def construct (w : World) (q : QueueId) (event : CommandEvent) (waitList : WaitList) : World :=
  ((if w.checkWaitList waitList = clSuccess then
      waitList.events.foldl (addDependentEvent · w.nextEvent) (w.newEvent q)
    else w.newEvent q)).retainArgs event

/-- The error code after the constructors and `queueEvent`. -/
def outcome (w : World) (q : QueueId) (call : Call) (waitList : WaitList) : Option Int :=
  if w.checkWaitList waitList ≠ clSuccess then some (w.checkWaitList waitList)
  else
    match (w.check q call).run with
    | none => none
    | some (.error code) => some code
    | some (.ok ()) => some (initEventDeviceData call)

/-- A `clEnqueue*` call on an existing queue. -/
def enqueue (w : World) (q : QueueId) (call : Call) (waitList : WaitList) : Option (Int × World) :=
  if ∃ e ∈ waitList.events, w.nextEvent ≤ e then none
  else if w.refused call then some (clInvalidMemObject, w)
  else if w.readsNullImage call then none
  else
    (w.outcome q call waitList).map fun rs =>
      (rs, if rs = clSuccess then w.construct q call.event waitList
        else (w.construct q call.event waitList).delete q call.event)

def reference (w : World) (e : EventId) : World :=
  { w with events := Function.update w.events e { w.events e with
      references := (w.events e).references + 1 } }

/-- `dereference`, whose result is not looked at. -/
def dereference (w : World) (e : EventId) : World :=
  { w with events := Function.update w.events e { w.events e with
      references := (w.events e).references - 1 } }

/-- The array that `clEnqueueMarkerWithWaitList` allocates for the events of the queue;
`mallocZero` tells whether an allocation of no bytes is not null. -/
def markerList (events : List EventId) (mallocZero : Bool) : WaitList :=
  if events = [] then if mallocZero then .entries [] else .null 0 else .entries (events.map some)

/-- `clEnqueueMarkerWithWaitList` without a list: `events` are those of the queue that have not
completed. -/
def enqueueMarker (w : World) (q : QueueId) (events : List EventId) (mallocZero : Bool) :
    Option (Int × World) :=
  if ∃ e ∈ events, w.nextEvent ≤ e ∨ (w.events e).status = clComplete then none
  else
    let retained := events.foldl reference w
    let rs := retained.checkWaitList (markerList events mallocZero)
    let constructed := retained.construct q .marker (markerList events mallocZero)
    some (rs, if rs = clSuccess then events.foldl dereference constructed
      else constructed.delete q .marker)

end World

/-- A call on queue `q`. -/
inductive ApiCall
  | command (q : QueueId) (call : Call) (waitList : WaitList)
  | marker (q : QueueId) (events : List EventId) (mallocZero : Bool)

inductive WorldAction
  | createUserEvent
  | call (c : ApiCall)
  | setStatus (e : EventId) (st : Int)

namespace World

def call (w : World) : ApiCall → Option (Int × World)
  | .command q call waitList => w.enqueue q call waitList
  | .marker q events mallocZero => w.enqueueMarker q events mallocZero

def createUserEvent (w : World) : World :=
  { w with
    events := Function.update w.events w.nextEvent ⟨clSubmitted, 1, []⟩
    nextEvent := w.nextEvent + 1 }

def setStatus (w : World) (e : EventId) (st : Int) : World :=
  { w with events := Function.update w.events e { w.events e with status := st } }

def step (w : World) : WorldAction → Option World
  | .createUserEvent => some w.createUserEvent
  | .call c => (w.call c).map Prod.snd
  | .setStatus e st => if e < w.nextEvent then some (w.setStatus e st) else none

/-- No event yet; the counts of memory objects are those of objects somebody holds. -/
def Initial (w : World) : Prop :=
  w.nextEvent = 0 ∧ (∀ e, (w.events e).dependentEvents = []) ∧ ∃ t, w.memReferences = held t

end World

def worldRuns : LTS World WorldAction := ofStep World.Initial World.step

/-- What happens after `w`. -/
def laterRuns (w : World) : LTS World WorldAction := ofStep (· = w) World.step

/-- Nothing is left of the command that a failed call from `w` to `w'` has constructed. -/
structure NoTrace (w w' : World) : Prop where
  dependents : ∀ e, w.nextEvent ∉ (w'.events e).dependentEvents
  references : ∀ e, e < w.nextEvent → (w'.events e).references = (w.events e).references
  memReferences : w'.memReferences = w.memReferences
  kernelReferences : w'.kernelReferences = w.kernelReferences
  /-- The loop of `setStatus` goes through the dependents. -/
  later : w.nextEvent < w'.nextEvent → ∀ x, Reachable (laterRuns w') x →
    ∀ e, w.nextEvent ∉ (x.events e).dependentEvents

/-- The command registers with no event: its list is refused, or all its events have completed.
A marker without a list finds no event in its queue. -/
def ApiCall.Unregistered (w : World) : ApiCall → Prop
  | .command _ call waitList => w.refused call = true ∨ w.checkWaitList waitList ≠ clSuccess ∨
      ∀ e ∈ waitList.events, (w.events e).status = clComplete
  | .marker _ events _ => events = []

/-- The event after `n` calls of `addDependentEvent` for `d`. -/
def EventRecord.registered (r : EventRecord) (d : EventId) (n : Nat) : EventRecord :=
  if r.status = clComplete then r
  else
    { r with
      references := r.references + n
      dependentEvents := r.dependentEvents ++ List.replicate n d }

variable {w w' : World} {q : QueueId} {d e : EventId} {event : CommandEvent} {l : List EventId}

@[simp]
theorem registered_status (r : EventRecord) (n : Nat) : (r.registered d n).status = r.status := by
  unfold EventRecord.registered
  split <;> rfl

theorem registered_registered (r : EventRecord) (m n : Nat) :
    (r.registered d m).registered d n = r.registered d (m + n) := by
  by_cases hr : r.status = clComplete
  · simp [EventRecord.registered, hr]
  · simp [EventRecord.registered, hr, Nat.add_assoc]

theorem registered_zero (r : EventRecord) : r.registered d 0 = r := by
  unfold EventRecord.registered
  split <;> simp

theorem addDependentEvent_eq : w.addDependentEvent d e =
    { w with events := Function.update w.events e ((w.events e).registered d 1) } := by
  unfold World.addDependentEvent EventRecord.registered
  split
  · rw [Function.update_eq_self]
  · rfl

/-- The loop of the constructor. -/
theorem foldl_addDependentEvent (l : List EventId) (w : World) :
    l.foldl (World.addDependentEvent · d) w =
      { w with events := fun e => (w.events e).registered d (l.count e) } := by
  induction l generalizing w with
  | nil => simp [registered_zero]
  | cons x l ih =>
    rw [List.foldl_cons, ih, addDependentEvent_eq]
    congr 1
    funext e
    by_cases he : e = x
    · subst he
      simp [registered_registered, Nat.add_comm]
    · simp [he, Ne.symm he]

/-- What the constructors take on memory objects the destructors give back. -/
theorem release_retain {c : Counts UInt64} {kernels : KernelId → Kernel}
    (hc : ∃ t, c = held t) :
    (event.releases kernels).foldl release ((event.retains kernels).foldl retain c) = c := by
  obtain ⟨t, rfl⟩ := hc
  rw [foldl_retain_held, foldl_release_held]
  refine held_congr fun y => ?_
  rw [count_releases]
  split <;> omega

theorem mem_registered {r : EventRecord} {n : Nat} {z : EventId}
    (h : z ∈ (r.registered d n).dependentEvents) : z ∈ r.dependentEvents ∨ z = d := by
  unfold EventRecord.registered at h
  split at h
  · exact .inl h
  · exact (List.mem_append.mp h).imp_right List.eq_of_mem_replicate

/-- How often the constructor registers with `e`. -/
def World.registrations (w : World) (waitList : WaitList) (e : EventId) : Nat :=
  if w.checkWaitList waitList = clSuccess then waitList.events.count e else 0

theorem construct_eq (w : World) (q : QueueId) (event : CommandEvent) (waitList : WaitList) :
    w.construct q event waitList = World.retainArgs { w.newEvent q with
      events := fun e => ((w.newEvent q).events e).registered w.nextEvent
        (w.registrations waitList e) } event := by
  unfold World.construct World.registrations
  split
  · rw [foldl_addDependentEvent]
  · simp [registered_zero]

theorem construct_events (w : World) (q : QueueId) (event : CommandEvent) (waitList : WaitList)
    (he : e ≠ w.nextEvent) : (w.construct q event waitList).events e =
      (w.events e).registered w.nextEvent (w.registrations waitList e) := by
  simp [construct_eq, World.retainArgs, World.newEvent, he]

theorem mem_construct {waitList : WaitList} {z : EventId}
    (h : z ∈ ((w.construct q event waitList).events e).dependentEvents) :
    z ∈ (w.events e).dependentEvents ∨ z = w.nextEvent := by
  by_cases he : e = w.nextEvent
  · right
    simp only [construct_eq, World.retainArgs, World.newEvent, he, Function.update_self] at h
    exact (mem_registered h).resolve_left (by simp)
  · rw [construct_events w q event waitList he] at h
    exact mem_registered h

/-- After `delete command` memory objects and kernels are as before the constructors. -/
theorem delete_construct (w : World) (q : QueueId) (event : CommandEvent) (waitList : WaitList)
    (hm : ∃ t, w.memReferences = held t) :
    ((w.construct q event waitList).delete q event).memReferences = w.memReferences ∧
      ((w.construct q event waitList).delete q event).kernelReferences = w.kernelReferences := by
  rw [construct_eq]
  constructor
  · exact release_retain hm
  · simp only [World.delete, World.retainArgs, World.newEvent]
    cases event.kernel with
    | none => rfl
    | some k => simp

/-- A call that got past its first test has run the constructors. -/
theorem enqueue_cases {call : Call} {waitList : WaitList} {rs : Int}
    (h : w.enqueue q call waitList = some (rs, w')) :
    (∀ e ∈ waitList.events, e < w.nextEvent) ∧
      (w.refused call = true ∧ w' = w ∨ w.refused call = false ∧
        w' = if rs = clSuccess then w.construct q call.event waitList
          else (w.construct q call.event waitList).delete q call.event) := by
  unfold World.enqueue at h
  split at h
  · cases h
  · rename_i hlt
    refine ⟨fun e he => not_le.mp fun hle => hlt ⟨e, he, hle⟩, ?_⟩
    split at h
    · rename_i href
      cases h
      exact .inl ⟨href, rfl⟩
    · rename_i href
      split at h
      · cases h
      · obtain ⟨rs', -, heq⟩ := Option.map_eq_some_iff.mp h
        cases heq
        exact .inr ⟨by simpa using href, rfl⟩

theorem foldl_reference (l : List EventId) (w : World) :
    l.foldl World.reference w = { w with events := fun e => { w.events e with
      references := (w.events e).references + l.count e } } := by
  induction l generalizing w with
  | nil => simp
  | cons x l ih =>
    rw [List.foldl_cons, ih]
    congr 1
    funext e
    by_cases he : e = x
    · subst he
      simp only [World.reference, Function.update_self, List.count_cons_self]
      congr 1
      omega
    · simp [World.reference, he, Ne.symm he]

theorem foldl_dereference (l : List EventId) (w : World) :
    l.foldl World.dereference w = { w with events := fun e => { w.events e with
      references := (w.events e).references - l.count e } } := by
  induction l generalizing w with
  | nil => simp
  | cons x l ih =>
    rw [List.foldl_cons, ih]
    congr 1
    funext e
    by_cases he : e = x
    · subst he
      simp only [World.dereference, Function.update_self, List.count_cons_self]
      congr 1
      omega
    · simp [World.dereference, he, Ne.symm he]

theorem enqueueMarker_cases {events : List EventId} {mallocZero : Bool} {rs : Int}
    (h : w.enqueueMarker q events mallocZero = some (rs, w')) :
    (∀ e ∈ events, e < w.nextEvent) ∧
      rs = (events.foldl World.reference w).checkWaitList (World.markerList events mallocZero) ∧
      w' = if rs = clSuccess then events.foldl World.dereference
          ((events.foldl World.reference w).construct q .marker
            (World.markerList events mallocZero))
        else ((events.foldl World.reference w).construct q .marker
          (World.markerList events mallocZero)).delete q .marker := by
  unfold World.enqueueMarker at h
  split at h
  · cases h
  · rename_i hlt
    cases h
    exact ⟨fun e he => not_le.mp fun hle => hlt ⟨e, he, .inl hle⟩, rfl, rfl⟩

/-- What any step can do to the dependents: only the next event is ever entered. -/
structure Grows (x y : World) : Prop where
  nextEvent : x.nextEvent ≤ y.nextEvent
  dependents : ∀ e z, z ∈ (y.events e).dependentEvents → z ∈ (x.events e).dependentEvents ∨
    z = x.nextEvent ∧ x.nextEvent < y.nextEvent
  mem : (∃ t, x.memReferences = held t) → ∃ t, y.memReferences = held t

theorem grows_construct (w : World) (q : QueueId) (event : CommandEvent) (waitList : WaitList) :
    Grows w (w.construct q event waitList) := by
  have hnext : (w.construct q event waitList).nextEvent = w.nextEvent + 1 := by
    simp [construct_eq, World.retainArgs, World.newEvent]
  refine ⟨hnext ▸ Nat.le_succ _, fun e z hz => ?_, ?_⟩
  · exact (mem_construct hz).imp_right fun h => ⟨h, hnext ▸ Nat.lt_succ_self _⟩
  · rintro ⟨t, ht⟩
    simp only [construct_eq, World.retainArgs, World.newEvent, ht, foldl_retain_held]
    exact ⟨_, rfl⟩

theorem grows_delete (w : World) (q : QueueId) (event : CommandEvent) (waitList : WaitList) :
    Grows w ((w.construct q event waitList).delete q event) := by
  obtain ⟨hn, hd, -⟩ := grows_construct w q event waitList
  refine ⟨hn, hd, fun hm => ?_⟩
  rw [(delete_construct w q event waitList hm).1]
  exact hm

theorem grows_enqueueMarker {events : List EventId} {mallocZero : Bool} {rs : Int}
    (h : w.enqueueMarker q events mallocZero = some (rs, w')) : Grows w w' := by
  obtain ⟨-, -, rfl⟩ := enqueueMarker_cases h
  rw [foldl_reference]
  split
  · rw [foldl_dereference]
    obtain ⟨hn, hd, hm⟩ := grows_construct { w with events := fun e => { w.events e with
      references := (w.events e).references + events.count e } } q .marker
      (World.markerList events mallocZero)
    exact ⟨hn, hd, hm⟩
  · obtain ⟨hn, hd, hm⟩ := grows_delete { w with events := fun e => { w.events e with
      references := (w.events e).references + events.count e } } q .marker
      (World.markerList events mallocZero)
    exact ⟨hn, hd, hm⟩

theorem grows_call {c : ApiCall} {rs : Int} (h : w.call c = some (rs, w')) : Grows w w' := by
  cases c with
  | command q call waitList =>
    obtain ⟨-, ⟨-, rfl⟩ | ⟨-, rfl⟩⟩ := enqueue_cases h
    · exact ⟨le_rfl, fun e z hz => .inl hz, id⟩
    · split
      · exact grows_construct w q call.event waitList
      · exact grows_delete w q call.event waitList
  | marker q events mallocZero => exact grows_enqueueMarker h

theorem grows_step {a : WorldAction} (h : w.step a = some w') : Grows w w' := by
  cases a with
  | createUserEvent =>
    cases h
    refine ⟨Nat.le_succ _, fun e z hz => .inl ?_, id⟩
    by_cases he : e = w.nextEvent
    · simp [World.createUserEvent, he] at hz
    · simpa [World.createUserEvent, he] using hz
  | call c =>
    obtain ⟨⟨rs, y⟩, hc, rfl⟩ := Option.map_eq_some_iff.mp h
    exact grows_call hc
  | setStatus e st =>
    simp only [World.step] at h
    split at h
    · cases h
      refine ⟨le_rfl, fun x z hz => .inl ?_, id⟩
      by_cases hx : x = e
      · simpa [World.setStatus, hx] using hz
      · simpa [World.setStatus, hx] using hz
    · cases h

/-- Dependents are events that exist. -/
theorem dependents_lt (h : Reachable worldRuns w) :
    (∀ e, ∀ z ∈ (w.events e).dependentEvents, z < w.nextEvent) ∧
      ∃ t, w.memReferences = held t := by
  apply h.invariant
  · rintro w ⟨-, hd, hm⟩
    exact ⟨fun e z hz => by simp [hd e] at hz, hm⟩
  · rintro x a y - ⟨hd, hm⟩ ht
    obtain ⟨hn, hgrow, hmem⟩ := grows_step ht
    refine ⟨fun e z hz => ?_, hmem hm⟩
    rcases hgrow e z hz with hz | ⟨rfl, hlt⟩
    · exact Nat.lt_of_lt_of_le (hd e z hz) hn
    · exact hlt

/-- An event that is nobody's dependent stays so. -/
theorem not_dependent_later (hd : d < w.nextEvent) (hw : ∀ e, d ∉ (w.events e).dependentEvents)
    {x : World} (h : Reachable (laterRuns w) x) (e : EventId) :
    d ∉ (x.events e).dependentEvents := by
  have hinv : d < x.nextEvent ∧ ∀ e, d ∉ (x.events e).dependentEvents := by
    apply h.invariant
    · rintro _ rfl
      exact ⟨hd, hw⟩
    · rintro x a y - ⟨hlt, hx⟩ ht
      obtain ⟨hn, hgrow, -⟩ := grows_step ht
      refine ⟨Nat.lt_of_lt_of_le hlt hn, fun e hy => ?_⟩
      rcases hgrow e d hy with hy | ⟨rfl, -⟩
      · exact hx e hy
      · exact Nat.lt_irrefl _ hlt
  exact hinv.2 e

theorem noTrace_of (hr : Reachable worldRuns w)
    (hsame : ∀ e, e ≠ w.nextEvent → w'.events e = w.events e)
    (hnew : (w'.events w.nextEvent).dependentEvents = [] ∨ w' = w)
    (hmem : w'.memReferences = w.memReferences)
    (hkernel : w'.kernelReferences = w.kernelReferences) : NoTrace w w' := by
  obtain ⟨hlt, -⟩ := dependents_lt hr
  have hd : ∀ e, w.nextEvent ∉ (w'.events e).dependentEvents := by
    intro e he
    by_cases hen : e = w.nextEvent
    · rcases hnew with hnew | rfl
      · rw [hen, hnew] at he
        cases he
      · exact Nat.lt_irrefl _ (hlt e _ he)
    · rw [hsame e hen] at he
      exact Nat.lt_irrefl _ (hlt e _ he)
  refine ⟨hd, fun e he => ?_, hmem, hkernel, fun hn x hx e => not_dependent_later hn hd hx e⟩
  rw [hsame e (Nat.ne_of_lt he)]

theorem construct_new {waitList : WaitList} (h : w.registrations waitList w.nextEvent = 0) :
    ((w.construct q event waitList).events w.nextEvent).dependentEvents = [] := by
  simp [construct_eq, World.retainArgs, World.newEvent, h, registered_zero]

/-- Registering with no event, or with completed ones only, changes none. -/
theorem registered_unchanged {waitList : WaitList} (h : w.checkWaitList waitList ≠ clSuccess ∨
    ∀ e ∈ waitList.events, (w.events e).status = clComplete) (e : EventId) :
    (w.events e).registered w.nextEvent (w.registrations waitList e) = w.events e := by
  by_cases hn : w.registrations waitList e = 0
  · rw [hn, registered_zero]
  · unfold World.registrations at hn
    split at hn
    · rename_i hcheck
      have hmem : e ∈ waitList.events := List.count_pos_iff.mp (Nat.pos_of_ne_zero hn)
      rw [EventRecord.registered, if_pos ((h.resolve_left (not_not_intro hcheck)) e hmem)]
    · exact absurd rfl hn

theorem noTrace_command_iff (hr : Reachable worldRuns w) {call : Call} {waitList : WaitList}
    (hlt : ∀ e ∈ waitList.events, e < w.nextEvent) :
    NoTrace w ((w.construct q call.event waitList).delete q call.event) ↔
      (w.checkWaitList waitList ≠ clSuccess ∨
        ∀ e ∈ waitList.events, (w.events e).status = clComplete) := by
  constructor
  · intro hno
    by_cases hcheck : w.checkWaitList waitList = clSuccess
    · refine .inr fun e he => ?_
      by_contra hst
      -- the command stays among the dependents of `e`
      apply hno.dependents e
      change w.nextEvent ∈ ((w.construct q call.event waitList).events e).dependentEvents
      rw [construct_events _ _ _ _ (Nat.ne_of_lt (hlt e he)), EventRecord.registered,
        if_neg hst, World.registrations, if_pos hcheck]
      refine List.mem_append_right _ (List.mem_replicate.mpr ⟨?_, rfl⟩)
      exact Nat.pos_iff_ne_zero.mp (List.count_pos_iff.mpr he)
    · exact .inl hcheck
  · intro hun
    obtain ⟨hmem, hkernel⟩ := delete_construct w q call.event waitList (dependents_lt hr).2
    have hnone : w.registrations waitList w.nextEvent = 0 := by
      unfold World.registrations
      split
      · exact List.count_eq_zero_of_not_mem fun hmem => Nat.lt_irrefl _ (hlt _ hmem)
      · rfl
    have hnew : ((w.construct q call.event waitList).events w.nextEvent).dependentEvents = [] :=
      construct_new hnone
    refine noTrace_of hr (fun e he => ?_) (.inl hnew) hmem hkernel
    change (w.construct q call.event waitList).events e = _
    rw [construct_events _ _ _ _ he, registered_unchanged hun]

/-- A marker that fails has left the references that `CommandQueue::events` took. -/
theorem noTrace_marker_iff (hr : Reachable worldRuns w) {events : List EventId}
    {waitList : WaitList} (hlt : ∀ e ∈ events, e < w.nextEvent)
    (hcheck : (events.foldl World.reference w).checkWaitList waitList ≠ clSuccess) :
    NoTrace w (((events.foldl World.reference w).construct q .marker waitList).delete q .marker) ↔
      events = [] := by
  have hnone : ∀ e, (events.foldl World.reference w).registrations waitList e = 0 :=
    fun e => if_neg hcheck
  constructor
  · intro hno
    rw [List.eq_nil_iff_forall_not_mem]
    intro e he
    have href := hno.references e (hlt e he)
    have hevent : ((((events.foldl World.reference w).construct q .marker waitList).delete q
        .marker).events e).references = (w.events e).references + events.count e := by
      change
        (((events.foldl World.reference w).construct q .marker waitList).events e).references = _
      rw [construct_events, hnone, registered_zero, foldl_reference]
      rw [foldl_reference]
      exact Nat.ne_of_lt (hlt e he)
    have hpos := List.count_pos_iff.mpr he
    omega
  · rintro rfl
    obtain ⟨hmem, hkernel⟩ := delete_construct w q .marker waitList (dependents_lt hr).2
    have hnew : ((w.construct q .marker waitList).events w.nextEvent).dependentEvents = [] :=
      construct_new (hnone _)
    refine noTrace_of hr (fun e he => ?_) (.inl hnew) hmem hkernel
    change (w.construct q .marker waitList).events e = _
    rw [construct_events _ _ _ _ he]
    exact registered_unchanged (.inl hcheck) e

/-- A failed call leaves no trace exactly if its command has not registered with any event. -/
theorem failed_call_leaves_no_trace (hr : Reachable worldRuns w) {c : ApiCall} {rs : Int}
    (hc : w.call c = some (rs, w')) (hrs : rs ≠ clSuccess) :
    NoTrace w w' ↔ c.Unregistered w := by
  cases c with
  | command q call waitList =>
    obtain ⟨hlt, ⟨href, rfl⟩ | ⟨href, rfl⟩⟩ := enqueue_cases hc
    · exact ⟨fun _ => .inl href, fun _ => noTrace_of hr (fun _ _ => rfl) (.inr rfl) rfl rfl⟩
    · rw [if_neg hrs, noTrace_command_iff hr hlt]
      refine ⟨.inr, fun h => h.resolve_left ?_⟩
      simp [href]
  | marker q events mallocZero =>
    obtain ⟨hlt, rfl, rfl⟩ := enqueueMarker_cases hc
    rw [if_neg hrs]
    exact noTrace_marker_iff hr hlt hrs

/-- A context with a buffer of 64 bytes at address 16. -/
def smallWorld : World where
  events := fun _ => ⟨clSubmitted, 1, []⟩
  nextEvent := 0
  attributes := fun _ => ⟨.buffer, 0, 64, 0, 0, 0, 0, 0, 0, 0, 0, (0, 0), true⟩
  memReferences := held fun m => if m = 16 then 1 else 0
  kernels := fun _ => ⟨[], false⟩
  kernelInfo := fun _ => ⟨0, true, []⟩
  kernelReferences := fun _ => 1
  queueInfo := fun _ => ⟨0, ⟨0, true, 1, 3, [1, 1, 1], 0, 0, 0, 0, 0⟩⟩
  queueReferences := fun _ => 1

theorem smallWorld_run (as : List WorldAction) (c : World → Bool)
    (h : (exec World.step smallWorld as).map c = some true) :
    ∃ w, Reachable worldRuns w ∧ c w = true :=
  exists_exec ⟨rfl, fun _ => rfl, _, rfl⟩ as c h

/-- A read to a null pointer waits for a completed user event. -/
theorem failed_call_leaves_no_trace_of_read : ∃ w w' : World, Reachable worldRuns w ∧
    w.call (.command 0 (.readBuffer 16 0 1 0) (.entries [some 0])) = some (clInvalidValue, w') ∧
    NoTrace w w' := by
  obtain ⟨w, hr, hc⟩ := smallWorld_run [.createUserEvent, .setStatus 0 clComplete]
    (fun w => (w.events 0).status = clComplete ∧
      (w.call (.command 0 (.readBuffer 16 0 1 0) (.entries [some 0]))).map Prod.fst =
        some clInvalidValue) (by decide +kernel)
  obtain ⟨hst, hcall⟩ := of_decide_eq_true hc
  obtain ⟨⟨rs, w'⟩, hcall, rfl⟩ := Option.map_eq_some_iff.mp hcall
  refine ⟨w, w', hr, hcall, (failed_call_leaves_no_trace hr hcall (by decide)).mpr ?_⟩
  exact .inr (.inr (by simpa [WaitList.events] using hst))

/-- A read to a null pointer waits for a user event that is not completed: the destroyed command
stays among its dependents, with the reference that was taken for it. -/
theorem failed_call_leaves_dependent : ∃ w w' : World, Reachable worldRuns w ∧
    w.call (.command 0 (.readBuffer 16 0 1 0) (.entries [some 0])) = some (clInvalidValue, w') ∧
    w.nextEvent = 1 ∧ (w'.events 0).dependentEvents = [1] ∧
    (w.events 0).references = 1 ∧ (w'.events 0).references = 2 ∧ ¬ NoTrace w w' := by
  obtain ⟨w, hr, hc⟩ := smallWorld_run [.createUserEvent]
    (fun w => w.nextEvent = 1 ∧ (w.events 0).references = 1 ∧
      (w.call (.command 0 (.readBuffer 16 0 1 0) (.entries [some 0]))).map
        (fun r => (r.1, (r.2.events 0).dependentEvents, (r.2.events 0).references)) =
        some (clInvalidValue, [1], 2)) (by decide +kernel)
  obtain ⟨hn, href, hcall⟩ := of_decide_eq_true hc
  obtain ⟨⟨rs, w'⟩, hcall, heq⟩ := Option.map_eq_some_iff.mp hcall
  obtain ⟨rfl, hd, href'⟩ : rs = clInvalidValue ∧ (w'.events 0).dependentEvents = [1] ∧
      (w'.events 0).references = 2 := by simpa using heq
  refine ⟨w, w', hr, hcall, hn, hd, href, href', fun hno => hno.dependents 0 ?_⟩
  rw [hd, hn]
  exact List.mem_singleton_self _

end Shamrock.Runtime
