import Mathlib.Data.List.Basic
import Mathlib.Tactic.SplitIfs
import Shamrock.Lib.Transition

/-!
# Setting up and tearing down a memory object

The table of device buffers and the copy of the host memory, from `MemObject::init` with all its
exits to the destructor. The buffers are those of CPU devices. Device `i` of the context has the
entry `i` of the table, and a sub-buffer is allocated by its parent.
-/
namespace Shamrock.Runtime.DeviceBuffers

open Transition

/-- An entry of `p_devicebuffers`; `allocated` says that the data of the `CPUBuffer` is not null. -/
inductive Slot
  | uninitialised
  | null
  | buffer (allocated : Bool)
  deriving DecidableEq, Repr

/-- A memory object and its context: `rejects` has an entry for each device, `preset` tells whether
the data of a `CPUBuffer` is set when it is made, by the host pointer or by the parent of a
sub-buffer. The constructor of `MemObject` refuses to copy and to use the host pointer. -/
structure Object where
  rejects : List Bool
  copyHostPtr : Bool
  subBuffer : Bool
  preset : Bool
  empty : Bool
  few : rejects.length < 2 ^ 32
  exclusive : copyHostPtr = true → subBuffer = false → preset = false

/-- What fails in `MemObject::init`. -/
structure Failures where
  infoNumDevices : Bool
  mallocDevices : Bool
  infoDevices : Bool
  mallocDevicebuffers : Bool
  mallocHostptr : Bool
  memalign : Bool
  deriving DecidableEq, Repr

inductive Phase
  | constructed
  | ready
  | failed
  | destroyed
  deriving DecidableEq, Repr

/-- `devicebuffers` is `none` while the pointer is null. The last five fields are history: the copy
of the host memory has been made, how often it has been freed and whether it was read afterwards, an
entry without a buffer has been dereferenced or one without a value deleted, and a null entry has
been deleted, which does nothing. -/
structure State where
  phase : Phase
  devicebuffers : Option (List Slot)
  devicesToAllocate : UInt32
  shared : Bool
  copied : Bool
  freed : Nat
  staleRead : Bool
  fault : Bool
  nullDeleted : Bool
  deriving DecidableEq, Repr

def State.constructed : State where
  phase := .constructed
  devicebuffers := none
  devicesToAllocate := 0
  shared := false
  copied := false
  freed := 0
  staleRead := false
  fault := false
  nullDeleted := false

/-- `MemObject::deviceBuffer` for the device `i`. No answer stands for a call on an entry that is
no buffer; the device may be none of the context. -/
def deviceBuffer : List Slot → Nat → Option (Option Bool)
  | [], _ => some none
  | .buffer allocated :: _, 0 => some (some allocated)
  | .buffer _ :: slots, i + 1 => deviceBuffer slots i
  | _ :: _, _ => none

namespace Object

variable (o : Object)

/-- A copy of the host memory is made. -/
def keeps : Bool := 1 < o.rejects.length && o.copyHostPtr && !o.subBuffer

/-- `MemObject::deviceAllocated` -/
def deviceAllocated (s : State) : State :=
  let left := s.devicesToAllocate - 1
  { s with
    devicesToAllocate := left
    freed := if left = 0 ∧ 1 < o.rejects.length ∧ o.copyHostPtr then s.freed + 1 else s.freed }

/-- `CPUBuffer::allocate` for the entry `i` of the table, with its answer. -/
def allocateBuffer (memalignFails : Bool) (slots : List Slot) (i : Nat) (s : State) :
    State × Bool :=
  let allocated := { s with devicebuffers := some (slots.set i (.buffer true)) }
  if o.empty then (s, false)
  else if s.shared then (o.deviceAllocated allocated, true)
  else if slots[i]? = some (.buffer false) ∧ memalignFails then (s, false)
  else
    let allocated := { allocated with
      shared := s.shared || slots[i]? = some (.buffer false)
      staleRead := s.staleRead ||
        (!o.subBuffer && o.copyHostPtr && s.copied && decide (0 < s.freed)) }
    (o.deviceAllocated allocated, true)

/-- `createDeviceBuffer` for each device. -/
def createDeviceBuffers : List Slot :=
  o.rejects.map fun rejected => if rejected then .null else .buffer o.preset

/-- `MemObject::init` -/
def init (f : Failures) (s : State) : State :=
  let n := o.rejects.length
  if f.infoNumDevices then { s with phase := .failed }
  else
    let s := { s with devicesToAllocate := UInt32.ofNat n }
    if f.mallocDevices || f.infoDevices || f.mallocDevicebuffers then { s with phase := .failed }
    else if o.keeps && f.mallocHostptr then
      { s with phase := .failed, devicebuffers := some (List.replicate n .uninitialised) }
    else
      let slots := o.createDeviceBuffers
      let s := { s with devicebuffers := some slots, copied := o.keeps }
      if ∀ rejected ∈ o.rejects, rejected = true then
        { s with phase := if n = 0 then .ready else .failed }
      else if n = 1 then
        let (s, answer) := o.allocateBuffer f.memalign slots 0 s
        { s with phase := if answer then .ready else .failed }
      else { s with phase := .ready }

/-- `MemObject::allocate`; `SubBuffer::allocate` calls it for its parent. -/
def allocate (memalignFails : Bool) (i : Nat) (s : State) : State :=
  if o.subBuffer then s
  else
    match s.devicebuffers with
    | none => s
    | some slots =>
      match deviceBuffer slots i with
      | none => { s with fault := true }
      | some none => s
      | some (some true) => s
      | some (some false) => (o.allocateBuffer memalignFails slots i s).1

end Object

/-- `MemObject::~MemObject` -/
def State.destroy (s : State) : State :=
  match s.devicebuffers with
  | none => { s with phase := .destroyed }
  | some slots =>
    { s with
      phase := .destroyed
      fault := s.fault || decide (Slot.uninitialised ∈ slots)
      nullDeleted := s.nullDeleted || decide (Slot.null ∈ slots) }

inductive Call
  | init (failures : Failures)
  | allocate (device : Nat) (memalignFails : Bool)
  | deviceBuffer (device : Nat)
  | destroy
  deriving DecidableEq, Repr

/-- An object that could not be set up is only destroyed, and it is allocated on devices of its
context. -/
def step (o : Object) (s : State) : Call → Option State
  | .init f => if s.phase = .constructed then some (o.init f s) else none
  | .allocate i memalignFails =>
    if s.phase = .ready ∧ i < o.rejects.length then some (o.allocate memalignFails i s) else none
  | .deviceBuffer i =>
    if s.phase = .ready then
      match s.devicebuffers with
      | none => some s
      | some slots => some { s with fault := s.fault || (deviceBuffer slots i).isNone }
    else none
  | .destroy => if s.phase = .destroyed then none else some s.destroy

def system (o : Object) : LTS State Call := ofStep (· = .constructed) (step o)

/-- No entry is used that is no buffer, and the copy is freed once, after its last read and before
the object is gone. -/
structure Safe (s : State) : Prop where
  fault : s.fault = false
  staleRead : s.staleRead = false
  once : s.freed ≤ 1
  freed : s.phase = .destroyed → s.copied = true → s.freed = 1

/-- The copy of the host memory can be made, no device up to the one that is looked for has rejected
the object, and an object that keeps a copy has been allocated on every device when it is
destroyed. -/
def Clean (o : Object) (s : State) : Call → Prop
  | .init f => o.keeps = true → f.mallocHostptr = false
  | .allocate i _ => ∀ k ≤ i, o.rejects[k]? ≠ some true
  | .deviceBuffer i => ∀ k ≤ i, o.rejects[k]? ≠ some true
  | .destroy => s.copied = true → ∀ slots, s.devicebuffers = some slots →
      ∀ slot ∈ slots, slot = .buffer true

/-- The state in which `init` has filled the table. -/
def Object.created (o : Object) (phase : Phase) : State :=
  { State.constructed with
    phase := phase
    devicesToAllocate := UInt32.ofNat o.rejects.length
    devicebuffers := some o.createDeviceBuffers
    copied := o.keeps }

/-- What holds in every state of a run of clean calls. -/
structure Kept (o : Object) (s : State) : Prop where
  start : s.phase = .constructed → s = State.constructed
  fault : s.fault = false
  staleRead : s.staleRead = false
  initialised : s.phase ≠ .destroyed → ∀ slots, s.devicebuffers = some slots →
    Slot.uninitialised ∉ slots
  rejected : ∀ slots, s.devicebuffers = some slots →
    ∀ k : Nat, slots[k]? = some .null → o.rejects[k]? = some true
  ready : s.phase = .ready → s.copied = o.keeps
  uncopied : s.copied = false → s.freed = 0
  copied : s.copied = true → o.keeps = true ∧ ∃ slots, s.devicebuffers = some slots ∧
    s.devicesToAllocate.toNat + slots.count (.buffer true) = o.rejects.length ∧
    slots.length = o.rejects.length ∧ s.freed = if s.devicesToAllocate = 0 then 1 else 0
  freed : s.phase = .destroyed → s.copied = true → s.freed = 1
  nullDeleted : s.nullDeleted = true → true ∈ o.rejects

section Runs

variable {o : Object} {s t : State} {c : Call} {slots : List Slot} {i : Nat} {memalignFails : Bool}
  {f : Failures} {allocated : Bool}

theorem deviceBuffer_some (hinit : Slot.uninitialised ∉ slots)
    (hnull : ∀ k ≤ i, slots[k]? ≠ some .null) : ∃ found, deviceBuffer slots i = some found := by
  induction slots generalizing i with
  | nil => exact ⟨none, rfl⟩
  | cons slot slots ih =>
    cases slot with
    | uninitialised => exact absurd List.mem_cons_self hinit
    | null => exact absurd rfl (hnull 0 (Nat.zero_le _))
    | buffer a =>
      cases i with
      | zero => exact ⟨some a, rfl⟩
      | succ i =>
        exact ih (List.not_mem_of_not_mem_cons hinit) fun k hk => hnull (k + 1) (by omega)

theorem slot_of_deviceBuffer (h : deviceBuffer slots i = some (some allocated)) :
    slots[i]? = some (.buffer allocated) := by
  induction slots generalizing i with
  | nil => cases h
  | cons slot slots ih =>
    cases slot with
    | uninitialised => cases h
    | null => cases h
    | buffer a =>
      cases i with
      | zero =>
        cases h
        rfl
      | succ i => exact ih h

theorem not_null_of_clean (hk : Kept o s) (hs : s.devicebuffers = some slots)
    (hc : ∀ k ≤ i, o.rejects[k]? ≠ some true) : ∀ k ≤ i, slots[k]? ≠ some .null :=
  fun k hki hnull => hc k hki (hk.rejected slots hs k hnull)

/-- One more entry is allocated. -/
theorem count_set (h : slots[i]? = some (.buffer false)) :
    (slots.set i (.buffer true)).count (.buffer true) = slots.count (.buffer true) + 1 := by
  obtain ⟨hi, hslot⟩ := List.getElem?_eq_some_iff.mp h
  rw [List.count_set hi, hslot]
  simp

theorem kept_constructed : Kept o State.constructed where
  start _ := rfl
  fault := rfl
  staleRead := rfl
  initialised _ _ h := by cases h
  rejected _ h := by cases h
  ready h := by cases h
  uncopied _ := rfl
  copied h := by cases h
  freed h := by cases h
  nullDeleted h := by cases h

/-- An entry that is not allocated is left, so the copy is still there. -/
theorem Kept.live (hk : Kept o s) (hs : s.devicebuffers = some slots)
    (hslot : slots[i]? = some (.buffer false)) (hcopied : s.copied = true) :
    s.freed = 0 ∧ s.devicesToAllocate ≠ 0 := by
  obtain ⟨-, slots', hslots, hcount, hlength, hfreed⟩ := hk.copied hcopied
  cases hs.symm.trans hslots
  have hle := List.count_le_length (a := Slot.buffer true) (l := slots.set i (.buffer true))
  rw [count_set hslot, List.length_set] at hle
  have hne : s.devicesToAllocate ≠ 0 := by
    intro hzero
    rw [hzero, UInt32.toNat_zero] at hcount
    omega
  rw [if_neg hne] at hfreed
  exact ⟨hfreed, hne⟩

/-- What `deviceAllocated` leaves after an entry has been allocated. -/
theorem Kept.deviceAllocated (hk : Kept o s) (hs : s.phase = .ready)
    (hslots : s.devicebuffers = some slots) (hslot : slots[i]? = some (.buffer allocated))
    (hfalse : s.copied = true → allocated = false)
    (hplain : s.copied = false → ¬(1 < o.rejects.length ∧ o.copyHostPtr = true)) (shared : Bool) :
    Kept o (o.deviceAllocated { s with
      devicebuffers := some (slots.set i (.buffer true)), shared := shared }) where
  start h := by
    rw [Object.deviceAllocated, hs] at h
    cases h
  fault := hk.fault
  staleRead := hk.staleRead
  initialised _ slots' h hmem := by
    cases h
    rcases List.mem_or_eq_of_mem_set hmem with hold | hnew
    · exact hk.initialised (by simp [hs]) slots hslots hold
    · cases hnew
  rejected slots' h k hnull := by
    cases h
    rw [List.getElem?_set] at hnull
    split_ifs at hnull
    · cases hnull
    · exact hk.rejected slots hslots k hnull
  ready _ := hk.ready hs
  uncopied h := by
    have hfree : ¬(s.devicesToAllocate - 1 = 0 ∧ 1 < o.rejects.length ∧ o.copyHostPtr = true) :=
      fun hall => hplain h hall.2
    unfold Object.deviceAllocated
    dsimp only
    rw [if_neg hfree]
    exact hk.uncopied h
  copied h := by
    obtain ⟨hkeeps, slots', hslots', hcount, hlength, -⟩ := hk.copied h
    cases hslots.symm.trans hslots'
    cases hfalse h
    obtain ⟨hfreed, hne⟩ := hk.live hslots hslot h
    have hmany : 1 < o.rejects.length ∧ o.copyHostPtr = true := by
      simp only [Object.keeps, Bool.and_eq_true, decide_eq_true_eq] at hkeeps
      exact hkeeps.1
    have hpos : s.devicesToAllocate.toNat ≠ 0 := fun hzero =>
      hne (UInt32.toNat_inj.mp hzero)
    have hleft : (s.devicesToAllocate - 1).toNat = s.devicesToAllocate.toNat - 1 := by
      have hle : (1 : UInt32) ≤ s.devicesToAllocate := by
        rw [UInt32.le_iff_toNat_le]
        exact Nat.pos_of_ne_zero hpos
      exact UInt32.toNat_sub_of_le _ _ hle
    refine ⟨hkeeps, _, rfl, ?_, ?_, ?_⟩
    · change (s.devicesToAllocate - 1).toNat + _ = _
      rw [hleft, count_set hslot]
      omega
    · rw [List.length_set, hlength]
    · unfold Object.deviceAllocated
      dsimp only
      rw [hfreed]
      simp only [hmany, and_true]
  freed h := by
    rw [Object.deviceAllocated, hs] at h
    cases h
  nullDeleted := hk.nullDeleted

theorem Kept.allocateBuffer (hk : Kept o s) (hs : s.phase = .ready)
    (hslots : s.devicebuffers = some slots) (hslot : slots[i]? = some (.buffer allocated))
    (hfalse : s.copied = true → allocated = false)
    (hplain : s.copied = false → ¬(1 < o.rejects.length ∧ o.copyHostPtr = true)) :
    Kept o (o.allocateBuffer memalignFails slots i s).1 := by
  have hread : (s.staleRead ||
      (!o.subBuffer && o.copyHostPtr && s.copied && decide (0 < s.freed))) = s.staleRead := by
    cases hcopied : s.copied with
    | false => simp
    | true =>
      cases hfalse hcopied
      simp [(hk.live hslots hslot hcopied).1]
  unfold Object.allocateBuffer
  dsimp only
  rw [hread]
  split_ifs
  · exact hk
  · exact hk.deviceAllocated hs hslots hslot hfalse hplain s.shared
  · exact hk
  · exact hk.deviceAllocated hs hslots hslot hfalse hplain _

theorem Kept.fail (hk : Kept o s) (hs : s.phase = .ready) : Kept o { s with phase := .failed } where
  start h := by cases h
  fault := hk.fault
  staleRead := hk.staleRead
  initialised _ := hk.initialised (by simp [hs])
  rejected := hk.rejected
  ready h := by cases h
  uncopied := hk.uncopied
  copied := hk.copied
  freed h := by cases h
  nullDeleted := hk.nullDeleted

theorem Kept.allocate (hk : Kept o s) (hs : s.phase = .ready)
    (hc : ∀ k ≤ i, o.rejects[k]? ≠ some true) : Kept o (o.allocate memalignFails i s) := by
  unfold Object.allocate
  split_ifs with hsub
  · exact hk
  · cases hslots : s.devicebuffers with
    | none => exact hk
    | some slots =>
      obtain ⟨found, hfound⟩ := deviceBuffer_some (hk.initialised (by simp [hs]) slots hslots)
        (not_null_of_clean hk hslots hc)
      dsimp only
      rw [hfound]
      match found with
      | none => exact hk
      | some true => exact hk
      | some false =>
        refine hk.allocateBuffer hs hslots (slot_of_deviceBuffer hfound) (fun _ => rfl) ?_
        intro hcopied hboth
        have hkeeps := hk.ready hs
        rw [hcopied, Object.keeps] at hkeeps
        simp [hboth, hsub] at hkeeps

theorem mem_createDeviceBuffers {slot : Slot} (h : slot ∈ o.createDeviceBuffers) :
    slot = .null ∨ slot = .buffer o.preset := by
  obtain ⟨rejected, -, rfl⟩ := List.mem_map.mp h
  cases rejected with
  | true => exact .inl rfl
  | false => exact .inr rfl

theorem kept_created (phase : Phase) (hstart : phase ≠ .constructed) (hend : phase ≠ .destroyed) :
    Kept o (o.created phase) where
  start h := absurd h hstart
  fault := rfl
  staleRead := rfl
  initialised _ slots h hmem := by
    cases h
    rcases mem_createDeviceBuffers hmem with h | h
    · cases h
    · cases h
  rejected slots h k hnull := by
    cases h
    rw [Object.createDeviceBuffers, List.getElem?_map] at hnull
    obtain ⟨rejected, hrejected, hslot⟩ := Option.map_eq_some_iff.mp hnull
    rw [hrejected]
    cases rejected with
    | true => rfl
    | false => cases hslot
  ready _ := rfl
  uncopied _ := rfl
  copied h := by
    have hkeeps : o.keeps = true := h
    have hparts := hkeeps
    simp only [Object.keeps, Bool.and_eq_true, decide_eq_true_eq, Bool.not_eq_true'] at hparts
    obtain ⟨⟨hmany, hcopy⟩, hsub⟩ := hparts
    have hfew := o.few
    have hn : (UInt32.ofNat o.rejects.length).toNat = o.rejects.length := by
      rw [UInt32.toNat_ofNat', Nat.mod_eq_of_lt hfew]
    have hcount : o.createDeviceBuffers.count (.buffer true) = 0 := by
      rw [List.count_eq_zero]
      intro hmem
      rcases mem_createDeviceBuffers hmem with h | h
      · cases h
      · rw [o.exclusive hcopy hsub] at h
        cases h
    have hne : UInt32.ofNat o.rejects.length ≠ 0 := by
      intro hzero
      rw [hzero, UInt32.toNat_zero] at hn
      omega
    refine ⟨hkeeps, _, rfl, ?_, ?_, ?_⟩
    · rw [hcount, Nat.add_zero]
      exact hn
    · rw [Object.createDeviceBuffers, List.length_map]
    · exact (if_neg hne).symm
  freed h := absurd h hend
  nullDeleted h := by cases h

/-- Without a table nothing has happened yet. -/
theorem kept_failed {left : UInt32} : Kept o { State.constructed with
    phase := .failed
    devicesToAllocate := left } where
  start h := by cases h
  fault := rfl
  staleRead := rfl
  initialised _ _ h := by cases h
  rejected _ h := by cases h
  ready h := by cases h
  uncopied _ := rfl
  copied h := by cases h
  freed h := by cases h
  nullDeleted h := by cases h

/-- `allocate` does not ask how far the object has come. -/
theorem allocateBuffer_phase (phase : Phase) :
    o.allocateBuffer memalignFails slots i { s with phase := phase } =
      ({ (o.allocateBuffer memalignFails slots i s).1 with phase := phase },
        (o.allocateBuffer memalignFails slots i s).2) := by
  unfold Object.allocateBuffer
  dsimp only
  split_ifs
  · rfl
  · rfl
  · rfl
  · rfl

/-- The only device of a context allocates its buffer at once. -/
theorem kept_single (hone : o.rejects.length = 1)
    (hall : ¬∀ rejected ∈ o.rejects, rejected = true) :
    Kept o
      { (o.allocateBuffer memalignFails o.createDeviceBuffers 0 (o.created .constructed)).1 with
        phase := .ready } := by
  obtain ⟨rejected, hrejects⟩ := List.length_eq_one_iff.mp hone
  have hmany : ¬1 < o.rejects.length := by omega
  have hkeeps : o.keeps = false := by simp [Object.keeps, hmany]
  have hslot : o.createDeviceBuffers[0]? = some (.buffer o.preset) := by
    rw [hrejects] at hall
    have hfalse : rejected = false := by simpa using hall
    rw [Object.createDeviceBuffers, hrejects, hfalse]
    rfl
  have hready : o.created .ready = { o.created .constructed with phase := .ready } := rfl
  have hcopied : (o.created .ready).copied = true → o.preset = false := by
    intro hcopied
    rw [← hkeeps]
    exact absurd hcopied (by simp [Object.created, hkeeps])
  have hbuffer : Kept o
      (o.allocateBuffer memalignFails o.createDeviceBuffers 0 (o.created .ready)).1 :=
    (kept_created .ready (by decide) (by decide)).allocateBuffer rfl rfl hslot hcopied
      fun _ h => hmany h.1
  rw [hready, allocateBuffer_phase] at hbuffer
  exact hbuffer

theorem Kept.init (hk : Kept o s) (hs : s.phase = .constructed)
    (hc : o.keeps = true → f.mallocHostptr = false) : Kept o (o.init f s) := by
  cases hk.start hs
  have hmalloc : ¬(o.keeps && f.mallocHostptr) = true := by
    cases hkeeps : o.keeps with
    | true => simp [hc hkeeps]
    | false => simp
  unfold Object.init
  dsimp only
  split_ifs with hinfo hfails hall hnone hone
  · exact kept_failed
  · exact kept_failed
  · exact kept_created .ready (by decide) (by decide)
  · exact kept_created .failed (by decide) (by decide)
  · exact kept_single hone hall
  · exact (kept_single hone hall).fail rfl
  · exact kept_created .ready (by decide) (by decide)

theorem Kept.ended (hk : Kept o s) (hfreed : s.copied = true → s.freed = 1) {deleted : Bool}
    (hdeleted : deleted = true → true ∈ o.rejects) :
    Kept o { s with phase := .destroyed, nullDeleted := deleted } where
  start h := by cases h
  fault := hk.fault
  staleRead := hk.staleRead
  initialised h := absurd rfl h
  rejected := hk.rejected
  ready h := by cases h
  uncopied := hk.uncopied
  copied := hk.copied
  freed _ := hfreed
  nullDeleted := hdeleted

theorem Kept.destroy (hk : Kept o s) (hs : s.phase ≠ .destroyed)
    (hc : s.copied = true → ∀ slots, s.devicebuffers = some slots →
      ∀ slot ∈ slots, slot = .buffer true) : Kept o s.destroy := by
  have hfreed : s.copied = true → s.freed = 1 := by
    intro hcopied
    obtain ⟨-, slots, hslots, hcount, hlength, hfreed⟩ := hk.copied hcopied
    have hall : slots.count (.buffer true) = slots.length :=
      List.count_eq_length.mpr fun slot hslot => (hc hcopied slots hslots slot hslot).symm
    have hzero : s.devicesToAllocate = 0 := UInt32.toNat_inj.mp (by rw [UInt32.toNat_zero]; omega)
    rw [hfreed, if_pos hzero]
  cases hslots : s.devicebuffers with
  | none =>
    have hdestroy : s.destroy = { s with phase := .destroyed } := by
      simp only [State.destroy, hslots]
    rw [hdestroy]
    exact hk.ended hfreed hk.nullDeleted
  | some slots =>
    have hinit := hk.initialised hs slots hslots
    have hdestroy : s.destroy = { s with
        phase := .destroyed, nullDeleted := s.nullDeleted || decide (Slot.null ∈ slots) } := by
      simp only [State.destroy, hslots, hinit, decide_false, Bool.or_false]
    rw [hdestroy]
    refine hk.ended hfreed fun h => ?_
    simp only [Bool.or_eq_true, decide_eq_true_eq] at h
    rcases h with h | h
    · exact hk.nullDeleted h
    · obtain ⟨k, hlt, hnull⟩ := List.getElem_of_mem h
      have hsome : slots[k]? = some .null := by rw [List.getElem?_eq_getElem hlt, hnull]
      exact List.mem_of_getElem? (hk.rejected slots hslots k hsome)

theorem kept_step (hk : Kept o s) (h : step o s c = some t) (hc : Clean o s c) : Kept o t := by
  cases c with
  | init f =>
    simp only [step] at h
    split_ifs at h with hs
    cases h
    exact hk.init hs hc
  | allocate i memalignFails =>
    simp only [step] at h
    split_ifs at h with hs
    cases h
    exact hk.allocate hs.1 hc
  | deviceBuffer i =>
    simp only [step] at h
    split_ifs at h with hs
    cases hslots : s.devicebuffers with
    | none =>
      rw [hslots] at h
      dsimp only at h
      cases h
      exact hk
    | some slots =>
      rw [hslots] at h
      obtain ⟨found, hfound⟩ := deviceBuffer_some (hk.initialised (by simp [hs]) slots hslots)
        (not_null_of_clean hk hslots hc)
      dsimp only at h
      rw [hfound, Option.isNone_some, Bool.or_false, ← hslots] at h
      cases h
      exact hk
  | destroy =>
    simp only [step] at h
    split_ifs at h with hs
    cases h
    exact hk.destroy hs hc

/-- In every run of clean calls the object is safe, and a null entry is deleted only if a device has
rejected the object. -/
theorem device_buffers_safe (h : Reachable ((system o).restrict (Clean o)) s) :
    Safe s ∧ (s.nullDeleted = true → true ∈ o.rejects) := by
  have hk : Kept o s := by
    refine h.invariant (fun s hs => ?_) fun s c t _ hk ht => kept_step hk ht.1 ht.2
    cases hs
    exact kept_constructed
  refine ⟨⟨hk.fault, hk.staleRead, ?_, hk.freed⟩, hk.nullDeleted⟩
  cases hcopied : s.copied with
  | false => exact (hk.uncopied hcopied).le.trans (Nat.zero_le 1)
  | true =>
    obtain ⟨-, _, -, -, -, hfreed⟩ := hk.copied hcopied
    split_ifs at hfreed
    all_goals omega

end Runs

/-- An object with a copy of the host memory, on two devices. -/
def twoDevices : Object :=
  ⟨[false, false], true, false, false, false, by simp, fun _ _ => rfl⟩

def noFailures : Failures := ⟨false, false, false, false, false, false⟩

/-- The object is destroyed before the second device has allocated it, and the copy is not freed. -/
theorem copy_leaked : ¬∀ (o : Object) (s : State), Reachable (system o) s → Safe s := by
  intro h
  obtain ⟨s, hs, hleak⟩ : ∃ s, Reachable (system twoDevices) s ∧
      decide (s.phase = .destroyed ∧ s.copied = true ∧ s.freed = 0) = true :=
    exists_exec (I := (· = State.constructed)) rfl
      [.init noFailures, .allocate 0 false, .destroy] _ (by decide +kernel)
  obtain ⟨hdestroyed, hcopied, hkept⟩ := of_decide_eq_true hleak
  have hfreed := (h twoDevices s hs).freed hdestroyed hcopied
  rw [hkept] at hfreed
  cases hfreed

theorem two_devices_safe : ∃ s, s.phase = .destroyed ∧ s.freed = 1 ∧ Safe s ∧
    (s.nullDeleted = true → true ∈ twoDevices.rejects) := by
  have haccepted : ∀ i < 2, ∀ k ≤ i, twoDevices.rejects[k]? ≠ some true := by decide
  have hinit : Reachable ((system twoDevices).restrict (Clean twoDevices)) _ :=
    .step (a := .init noFailures) (.initial rfl) ⟨rfl, fun _ => rfl⟩
  have hfst : Reachable ((system twoDevices).restrict (Clean twoDevices)) _ :=
    .step (a := .allocate 0 false) hinit ⟨rfl, haccepted 0 (by decide)⟩
  have hsnd : Reachable ((system twoDevices).restrict (Clean twoDevices)) _ :=
    .step (a := .allocate 1 false) hfst ⟨rfl, haccepted 1 (by decide)⟩
  have hclean : ∀ s, s.devicebuffers = some [.buffer true, .buffer true] →
      Clean twoDevices s .destroy := by
    intro s hs _ slots hslots
    cases hs.symm.trans hslots
    decide
  exact ⟨_, rfl, rfl, device_buffers_safe (.step (a := .destroy) hsnd ⟨rfl, hclean _ rfl⟩)⟩

end Shamrock.Runtime.DeviceBuffers
