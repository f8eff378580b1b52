import Shamrock.Dsp.LocalBuffers
import Mathlib.Logic.Function.Basic

/-!
# Sending a kernel to the DSP

`DSPKernelEvent::run` gets device memory for what a kernel allocates itself and for the buffers in
host memory, has addresses over 32 bits mapped, and mails a message. The memory is given back when
the kernel has completed.
-/
namespace Shamrock.Dsp

def dsp36BitAddr : Nat := 0x800000000

/-! ## Global memory -/

/-- `dspheap::malloc` where it may fail: 0 stands for no block. -/
def Heap.mallocOrZero (h : Heap) (size : UInt32) : Nat × Heap := (h.malloc size).getD (0, h)

/-- `p_device_ddr_heap1`, `p_device_ddr_heap2`, `p_device_ddr_heap3` -/
structure DdrHeaps where
  heap1 : Heap
  heap2 : Heap
  heap3 : Heap
  deriving DecidableEq, Repr

namespace DdrHeaps

def fractionPersistentForBuffer : Nat := 8

def malloc1 (d : DdrHeaps) (size : UInt32) : Nat × DdrHeaps :=
  let r := d.heap1.mallocOrZero size
  (r.1, { d with heap1 := r.2 })

def malloc2 (d : DdrHeaps) (size : UInt32) : Nat × DdrHeaps :=
  let r := d.heap2.mallocOrZero size
  (r.1, { d with heap2 := r.2 })

def malloc3 (d : DdrHeaps) (size : UInt32) : Nat × DdrHeaps :=
  let r := d.heap3.mallocOrZero size
  (r.1, { d with heap3 := r.2 })

/-- A heap takes the low 32 bits of the size. -/
def mallocGlobal (d : DdrHeaps) (size : UInt64) (prefer32bit : Bool) : Nat × DdrHeaps :=
  if prefer32bit then d.malloc1 size.toUInt32
  else
    let r := if fractionPersistentForBuffer < d.heap1.maxBlockSize.size / size.toNat then
      d.malloc1 size.toUInt32 else (0, d)
    let r := if r.1 = 0 then r.2.malloc2 size.toUInt32 else r
    let r := if r.1 = 0 then r.2.malloc3 size.toUInt32 else r
    if r.1 = 0 then r.2.malloc1 size.toUInt32 else r

def freeGlobal (d : DdrHeaps) (addr : Nat) : DdrHeaps :=
  if addr < dsp36BitAddr then { d with heap1 := (d.heap1.free addr).2 }
  else
    let r := d.heap2.free addr
    if r.1 = -1 then { d with heap2 := r.2, heap3 := (d.heap3.free addr).2 }
    else { d with heap2 := r.2 }

end DdrHeaps

/-! ## The event -/

/-- A word of the message that gets an address: of an argument, or `WG_alloca_start`. -/
inductive AddrWord
  | arg (i : Nat)
  | wgAllocaStart
  deriving DecidableEq, Repr

/-- `DSPMemRange` -/
structure MemRange where
  addr : Nat
  word : AddrWord
  size : UInt32
  deriving DecidableEq, Repr

/-- An argument in host memory. -/
structure HostptrBuf where
  size : UInt64
  readOnly : Bool
  writeOnly : Bool
  word : AddrWord
  deriving DecidableEq, Repr

/-- What the constructor has made of the arguments, and what `run` asks the kernel. -/
structure KernelLaunch where
  wiAllocaSize : UInt32
  localSz0 : UInt32
  localSz1 : UInt32
  localSz2 : UInt32
  localBufs : List (AddrWord × UInt32)
  hostptrTmpbufs : List HostptrBuf
  bufs64bit : List MemRange
  flushBufs : List MemRange
  words : AddrWord → UInt32
  debugKernel : Bool

/-- What `run` asks of others: virtual addresses and settings for ranges over 32 bits, and memory
for a name that is printed. -/
structure LaunchHost where
  mmapResourceAlloc : List (Nat × UInt32) → Option (List UInt32 × List (UInt32 × UInt32))
  mallocName : Bool

structure KernelMsg where
  words : AddrWord → UInt32
  wgAllocaSize : UInt32
  mpaxSettings : List (UInt32 × UInt32)
  numBuffers : Nat

/-- The calls of a run. -/
inductive RunCall
  | localScratch (enough : Bool)
  | mallocGlobal (size : UInt64) (prefer32bit : Bool) (addr : Nat)
  | freeGlobal (addr : Nat)
  | mmapResourceAlloc (done : Bool)
  | mallocName (done : Bool)
  | mailTo (msg : KernelMsg)

structure RunState where
  ddr : DdrHeaps
  words : AddrWord → UInt32
  wgAllocaSize : UInt32
  wgAllocaStart : Nat
  tmpAddrs : List Nat
  bufs64bit : List MemRange
  flushBufs : List MemRange
  mpaxSettings : List (UInt32 × UInt32)
  calls : List RunCall

def maxKernelArguments : Nat := 10

namespace RunState

def call (s : RunState) (c : RunCall) : RunState := { s with calls := s.calls ++ [c] }

/-- The words that are set to addresses. -/
def setWords (s : RunState) (l : List (AddrWord × UInt32)) : RunState :=
  { s with words := l.foldl (fun words p => Function.update words p.1 p.2) s.words }

/-- An address goes to its word at once, or into the list of those to be mapped. -/
def place (s : RunState) (r : MemRange) : RunState :=
  if r.addr < 0xFFFFFFFF then s.setWords [(r.word, r.addr.toUInt32)]
  else { s with bufs64bit := s.bufs64bit ++ [r] }

/-- A round of the loop over `p_hostptr_tmpbufs`. The test is of the pointer to the address, which
is never null. `Driver::map` ends the process at address 0, which is in no memory region. -/
def hostptrTmpbuf (s : RunState) (b : HostptrBuf) : Option RunState :=
  let r := s.ddr.mallocGlobal b.size false
  let s := { s with ddr := r.2, tmpAddrs := s.tmpAddrs ++ [r.1] }
  let s := (s.call (.mallocGlobal b.size false r.1)).place ⟨r.1, b.word, b.size.toUInt32⟩
  if b.writeOnly then some s
  else if r.1 = 0 then none
  else some { s with flushBufs := s.flushBufs ++ [⟨r.1, b.word, b.size.toUInt32⟩] }

end RunState

namespace KernelLaunch

def start (e : KernelLaunch) (ddr : DdrHeaps) : RunState where
  ddr := ddr
  words := e.words
  wgAllocaSize := 0
  wgAllocaStart := 0
  tmpAddrs := []
  bufs64bit := e.bufs64bit
  flushBufs := e.flushBufs
  mpaxSettings := []
  calls := []

/-- `WG_alloca_size` before it is padded. -/
def allocaSize (e : KernelLaunch) : UInt32 :=
  e.wiAllocaSize * e.localSz0 * e.localSz1 * e.localSz2

def chipAllocaSize (e : KernelLaunch) : UInt32 := (e.allocaSize + 4096) * 8

/-- Memory for what the kernel allocates. -/
def alloca (e : KernelLaunch) (s : RunState) : Int × RunState :=
  if 0 < e.allocaSize then
    let r := s.ddr.mallocGlobal e.chipAllocaSize.toUInt64 true
    let s := { s with
      ddr := r.2
      wgAllocaSize := e.allocaSize + 4096
      wgAllocaStart := r.1 }
    let s := s.call (.mallocGlobal e.chipAllocaSize.toUInt64 true r.1)
    if r.1 = 0 then (clOutOfResources, s)
    else (clSuccess, s.place ⟨r.1, .wgAllocaStart, e.chipAllocaSize⟩)
  else (clSuccess, s)

/-- The mapping of the ranges over 32 bits. -/
def mapMpax (host : LaunchHost) (s : RunState) : Int × RunState :=
  if s.bufs64bit = [] then (clSuccess, s)
  else
    match host.mmapResourceAlloc (s.bufs64bit.map fun r => (r.addr, r.size)) with
    | none => (clOutOfResources, s.call (.mmapResourceAlloc false))
    | some (virtAddrs, settings) =>
      (clSuccess, { (s.call (.mmapResourceAlloc true)).setWords
        ((s.bufs64bit.map MemRange.word).zip virtAddrs) with mpaxSettings := settings })

/-- The message, after the name has been printed if the kernel is debugged. -/
def mail (host : LaunchHost) (e : KernelLaunch) (s : RunState) : Int × RunState :=
  let msg : KernelMsg := ⟨s.words, s.wgAllocaSize, s.mpaxSettings, s.flushBufs.length⟩
  if e.debugKernel then
    if host.mallocName then (clSuccess, (s.call (.mallocName true)).call (.mailTo msg))
    else (clOutOfHostMemory, s.call (.mallocName false))
  else (clSuccess, s.call (.mailTo msg))

/-- `run` from the mapping on. -/
def dispatch (host : LaunchHost) (e : KernelLaunch) (s : RunState) : Int × RunState :=
  let r := mapMpax host s
  if r.1 ≠ clSuccess then r
  else if maxKernelArguments < r.2.flushBufs.length then (clOutOfResources, r.2)
  else e.mail host r.2

/-- `DSPKernelEvent::run`; there is no result when it ends the process. -/
def run (host : LaunchHost) (l2 : Heap) (e : KernelLaunch) (ddr : DdrHeaps) :
    Option (Int × RunState) :=
  let s := e.start ddr
  match l2.localBuffers (e.localBufs.map Prod.snd) with
  | .error code => some (code, s.call (.localScratch false))
  | .ok ranges =>
    let s := (s.call (.localScratch true)).setWords
      ((e.localBufs.map Prod.fst).zip (ranges.map Prod.fst))
    let r := e.alloca s
    if r.1 ≠ clSuccess then some r
    else (e.hostptrTmpbufs.foldlM RunState.hostptrTmpbuf r.2).map (e.dispatch host)

end KernelLaunch

/-! ## All or nothing -/

namespace RunCall

/-- The allocations that have failed. -/
def Failed : RunCall → Prop
  | localScratch enough => enough = false
  | mallocGlobal _ _ addr => addr = 0
  | mmapResourceAlloc done => done = false
  | mallocName done => done = false
  | freeGlobal _ | mailTo _ => False

def obtained : RunCall → Option Nat
  | mallocGlobal _ _ addr => if addr = 0 then none else some addr
  | _ => none

def returned : RunCall → Option Nat
  | freeGlobal addr => some addr
  | _ => none

end RunCall

/-- What is promised of a run that returns: a failed allocation is reported, and after an error
nothing has been mailed and every block has been given back. -/
structure Settled (r : Int × RunState) : Prop where
  reported : (∃ c ∈ r.2.calls, c.Failed) → r.1 ≠ clSuccess
  unmailed : r.1 ≠ clSuccess → ∀ msg, .mailTo msg ∉ r.2.calls
  restored : r.1 ≠ clSuccess → ∀ addr ∈ r.2.calls.filterMap RunCall.obtained,
    addr ∈ r.2.calls.filterMap RunCall.returned

/-- A run returns and keeps the promise; one that ends the process reports nothing. -/
def AllOrNothing (result : Option (Int × RunState)) : Prop := ∃ r, result = some r ∧ Settled r

/-! ## When a run keeps the promise -/

namespace KernelLaunch

/-- The address of the memory for the kernel's own allocations, and the heaps behind it. -/
def allocaGrant (e : KernelLaunch) (ddr : DdrHeaps) : Nat × DdrHeaps :=
  ddr.mallocGlobal e.chipAllocaSize.toUInt64 true

/-- There is no memory for what the kernel allocates. -/
def AllocaRefused (e : KernelLaunch) (ddr : DdrHeaps) : Prop :=
  0 < e.allocaSize ∧ (e.allocaGrant ddr).1 = 0

/-- The addresses that the heaps give for buffers, one after the other. -/
def tmpGrants : DdrHeaps → List HostptrBuf → List Nat
  | _, [] => []
  | d, b :: l =>
    let r := d.mallocGlobal b.size false
    r.1 :: tmpGrants r.2 l

/-- The grants of the buffers in host memory. -/
def grants (e : KernelLaunch) (ddr : DdrHeaps) : List Nat :=
  tmpGrants (if 0 < e.allocaSize then (e.allocaGrant ddr).2 else ddr) e.hostptrTmpbufs

def tmpRanges (addrs : List Nat) (bufs : List HostptrBuf) : List MemRange :=
  List.zipWith (fun addr (b : HostptrBuf) => ⟨addr, b.word, b.size.toUInt32⟩) addrs bufs

/-- The host copies to no buffer that has got no memory. -/
def Copyable (addrs : List Nat) (bufs : List HostptrBuf) : Prop :=
  ∀ p ∈ addrs.zip bufs, p.1 = 0 → p.2.writeOnly = true

/-- The ranges that have to be mapped. -/
def rangesOver32 (e : KernelLaunch) (ddr : DdrHeaps) : List MemRange :=
  e.bufs64bit ++ ((if 0 < e.allocaSize then
    [(⟨(e.allocaGrant ddr).1, .wgAllocaStart, e.chipAllocaSize⟩ : MemRange)] else []) ++
      tmpRanges (e.grants ddr) e.hostptrTmpbufs).filter fun r => ¬ r.addr < 0xFFFFFFFF

/-- Whether ranges can be mapped. -/
def Mapped (host : LaunchHost) (ranges : List MemRange) : Prop :=
  ranges = [] ∨ (host.mmapResourceAlloc (ranges.map fun r => (r.addr, r.size))).isSome

instance (host : LaunchHost) (ranges : List MemRange) : Decidable (Mapped host ranges) :=
  inferInstanceAs (Decidable (ranges = [] ∨ _))

/-- Mapping, number of buffers to flush and name let the message be sent. -/
def Sendable (e : KernelLaunch) (host : LaunchHost) (ddr : DdrHeaps) : Prop :=
  Mapped host (e.rangesOver32 ddr) ∧
  e.flushBufs.length + e.hostptrTmpbufs.countP (fun b => !b.writeOnly) ≤ maxKernelArguments ∧
  (e.debugKernel = true → host.mallocName = true)

end KernelLaunch

instance (e : KernelLaunch) (host : LaunchHost) (ddr : DdrHeaps) :
    Decidable (e.Sendable host ddr) :=
  inferInstanceAs (Decidable (KernelLaunch.Mapped _ _ ∧ _ ∧ (_ → _)))

open KernelLaunch

variable {host : LaunchHost} {l2 : Heap} {e : KernelLaunch} {ddr : DdrHeaps} {s : RunState}
  {bufs : List HostptrBuf}

section Rounds

@[simp] theorem call_calls (s : RunState) (c : RunCall) : (s.call c).calls = s.calls ++ [c] := rfl
@[simp] theorem call_bufs64bit (s : RunState) (c : RunCall) :
    (s.call c).bufs64bit = s.bufs64bit := rfl
@[simp] theorem call_flushBufs (s : RunState) (c : RunCall) :
    (s.call c).flushBufs = s.flushBufs := rfl
@[simp] theorem call_ddr (s : RunState) (c : RunCall) : (s.call c).ddr = s.ddr := rfl

@[simp] theorem place_calls (s : RunState) (r : MemRange) : (s.place r).calls = s.calls := by
  unfold RunState.place
  split_ifs <;> rfl

@[simp] theorem place_flushBufs (s : RunState) (r : MemRange) :
    (s.place r).flushBufs = s.flushBufs := by
  unfold RunState.place
  split_ifs <;> rfl

@[simp] theorem place_ddr (s : RunState) (r : MemRange) : (s.place r).ddr = s.ddr := by
  unfold RunState.place
  split_ifs <;> rfl

theorem place_bufs64bit (s : RunState) (r : MemRange) :
    (s.place r).bufs64bit = s.bufs64bit ++ [r].filter fun r => ¬ r.addr < 0xFFFFFFFF := by
  unfold RunState.place
  by_cases hlow : r.addr < 0xFFFFFFFF
  · rw [if_pos hlow, List.filter_cons_of_neg (by simpa using hlow), List.filter_nil,
      List.append_nil]
    rfl
  · rw [if_neg hlow, List.filter_cons_of_pos (by simpa using hlow), List.filter_nil]

/-- One round of the loop over the buffers in host memory, if the process goes on. -/
theorem hostptrTmpbuf_spec (s : RunState) (b : HostptrBuf)
    (hcopy : (s.ddr.mallocGlobal b.size false).1 = 0 → b.writeOnly = true) :
    ∃ s', s.hostptrTmpbuf b = some s' ∧ s'.ddr = (s.ddr.mallocGlobal b.size false).2 ∧
      s'.calls = s.calls ++ [.mallocGlobal b.size false (s.ddr.mallocGlobal b.size false).1] ∧
      s'.bufs64bit = s.bufs64bit ++
        [⟨(s.ddr.mallocGlobal b.size false).1, b.word, b.size.toUInt32⟩].filter
          (fun r => ¬ r.addr < 0xFFFFFFFF) ∧
      s'.flushBufs.length = s.flushBufs.length + [b].countP fun b => !b.writeOnly := by
  unfold RunState.hostptrTmpbuf
  cases hwrite : b.writeOnly with
  | true => exact ⟨_, if_pos rfl, by simp, by simp, by simp [place_bufs64bit], by simp [hwrite]⟩
  | false =>
    have hgot : (s.ddr.mallocGlobal b.size false).1 ≠ 0 := by
      intro hzero
      cases hwrite.symm.trans (hcopy hzero)
    refine ⟨_, (if_neg Bool.false_ne_true).trans (if_neg hgot), ?_, ?_, ?_, ?_⟩
    · simp
    · simp
    · simp [place_bufs64bit]
    · simp [hwrite]

/-- The process ends when the host copies to a buffer that has got no memory. -/
theorem hostptrTmpbuf_exit {b : HostptrBuf} (hzero : (s.ddr.mallocGlobal b.size false).1 = 0)
    (hwrite : b.writeOnly = false) : s.hostptrTmpbuf b = none := by
  simp only [RunState.hostptrTmpbuf, hwrite, hzero, Bool.false_eq_true, if_false, if_true]

/-- All rounds, if the process goes on. -/
theorem hostptrTmpbufs_spec (s : RunState) (bufs : List HostptrBuf)
    (hcopy : Copyable (tmpGrants s.ddr bufs) bufs) :
    ∃ s', bufs.foldlM RunState.hostptrTmpbuf s = some s' ∧
      s'.calls = s.calls ++ List.zipWith
        (fun addr (b : HostptrBuf) => .mallocGlobal b.size false addr) (tmpGrants s.ddr bufs) bufs ∧
      s'.bufs64bit = s.bufs64bit ++
        (tmpRanges (tmpGrants s.ddr bufs) bufs).filter (fun r => ¬ r.addr < 0xFFFFFFFF) ∧
      s'.flushBufs.length = s.flushBufs.length + bufs.countP fun b => !b.writeOnly := by
  induction bufs generalizing s with
  | nil => exact ⟨s, rfl, by simp [tmpGrants], by simp [tmpGrants, tmpRanges], rfl⟩
  | cons b bufs ih =>
    obtain ⟨hfirst, hrest⟩ := List.forall_mem_cons.mp hcopy
    obtain ⟨s', hround, hddr, hcalls, hranges, hflush⟩ := hostptrTmpbuf_spec s b hfirst
    rw [← hddr] at hrest
    obtain ⟨s'', hrounds, hcalls', hranges', hflush'⟩ := ih s' hrest
    refine ⟨s'', ?_, ?_, ?_, ?_⟩
    · rw [List.foldlM_cons, hround]
      exact hrounds
    · rw [hcalls', hcalls, hddr, List.append_assoc]
      rfl
    · rw [hranges', hranges, hddr, List.append_assoc, ← List.filter_append]
      rfl
    · rw [hflush', hflush, Nat.add_assoc, ← List.countP_append]
      rfl

theorem hostptrTmpbufs_exit (s : RunState) (bufs : List HostptrBuf)
    (hcopy : ¬ Copyable (tmpGrants s.ddr bufs) bufs) :
    bufs.foldlM RunState.hostptrTmpbuf s = none := by
  induction bufs generalizing s with
  | nil => exact absurd (fun _ hp => absurd hp List.not_mem_nil) hcopy
  | cons b bufs ih =>
    rw [List.foldlM_cons]
    by_cases hfirst : (s.ddr.mallocGlobal b.size false).1 = 0 → b.writeOnly = true
    · obtain ⟨s', hround, hddr, -⟩ := hostptrTmpbuf_spec s b hfirst
      rw [hround]
      refine ih s' fun hrest => hcopy ?_
      rw [hddr] at hrest
      exact List.forall_mem_cons.mpr ⟨hfirst, hrest⟩
    · obtain ⟨hzero, hwrite⟩ := Classical.not_imp.mp hfirst
      rw [hostptrTmpbuf_exit hzero (Bool.eq_false_iff.mpr hwrite)]
      rfl

theorem tmpGrants_length (d : DdrHeaps) (bufs : List HostptrBuf) :
    (tmpGrants d bufs).length = bufs.length := by
  induction bufs generalizing d with
  | nil => rfl
  | cons b bufs ih => rw [tmpGrants, List.length_cons, ih, List.length_cons]

end Rounds

section Runs

/-- The calls that neither get nor give back device memory. -/
def RunCall.Neutral (c : RunCall) : Prop := c.obtained = none ∧ c.returned = none

theorem mapMpax_spec (host : LaunchHost) (s : RunState) :
    ∃ tail, (mapMpax host s).2.calls = s.calls ++ tail ∧ (∀ c ∈ tail, c.Neutral) ∧
      (∀ msg, .mailTo msg ∉ tail) ∧ (mapMpax host s).2.flushBufs = s.flushBufs ∧
      ((mapMpax host s).1 = clSuccess ↔ Mapped host s.bufs64bit) ∧
      (Mapped host s.bufs64bit → ∀ c ∈ tail, ¬ c.Failed) := by
  unfold mapMpax Mapped
  by_cases hempty : s.bufs64bit = []
  · rw [if_pos hempty]
    exact ⟨[], (List.append_nil _).symm, nofun, nofun, rfl, by simp [hempty], nofun⟩
  · rw [if_neg hempty]
    cases hmap : host.mmapResourceAlloc (s.bufs64bit.map fun r => (r.addr, r.size)) with
    | none =>
      refine ⟨[.mmapResourceAlloc false], rfl, ?_, by simp, rfl, by simp [hempty]; decide,
        by simp [hempty]⟩
      intro c hc
      rw [List.mem_singleton.mp hc]
      exact ⟨rfl, rfl⟩
    | some r =>
      refine ⟨[.mmapResourceAlloc true], rfl, ?_, by simp, rfl, by simp, ?_⟩
      · intro c hc
        rw [List.mem_singleton.mp hc]
        exact ⟨rfl, rfl⟩
      · intro _ c hc
        rw [List.mem_singleton.mp hc]
        exact fun hfailed => Bool.false_ne_true (Eq.symm hfailed)

theorem mail_spec (host : LaunchHost) (e : KernelLaunch) (s : RunState) :
    ∃ tail, (e.mail host s).2.calls = s.calls ++ tail ∧ (∀ c ∈ tail, c.Neutral) ∧
      if e.debugKernel = true → host.mallocName = true then
        (e.mail host s).1 = clSuccess ∧ ∀ c ∈ tail, ¬ c.Failed
      else (e.mail host s).1 ≠ clSuccess ∧ ∀ msg, .mailTo msg ∉ tail := by
  unfold mail
  cases hdebug : e.debugKernel with
  | false =>
    refine ⟨[.mailTo ⟨s.words, s.wgAllocaSize, s.mpaxSettings, s.flushBufs.length⟩], rfl, ?_, ?_⟩
    · intro c hc
      rw [List.mem_singleton.mp hc]
      exact ⟨rfl, rfl⟩
    · rw [if_pos nofun]
      refine ⟨rfl, fun c hc => ?_⟩
      rw [List.mem_singleton.mp hc]
      exact id
  | true =>
    cases hname : host.mallocName with
    | true =>
      refine ⟨[.mallocName true, .mailTo ⟨s.words, s.wgAllocaSize, s.mpaxSettings,
        s.flushBufs.length⟩], List.append_assoc _ _ _, ?_, ?_⟩
      · intro c hc
        rcases List.mem_pair.mp hc with rfl | rfl <;> exact ⟨rfl, rfl⟩
      · rw [if_pos fun _ => rfl]
        refine ⟨rfl, fun c hc => ?_⟩
        rcases List.mem_pair.mp hc with rfl | rfl
        · exact fun hfailed => Bool.false_ne_true (Eq.symm hfailed)
        · exact id
    | false =>
      refine ⟨[.mallocName false], rfl, ?_, ?_⟩
      · intro c hc
        rw [List.mem_singleton.mp hc]
        exact ⟨rfl, rfl⟩
      · rw [if_neg (by simp)]
        refine ⟨?_, by simp⟩
        have hcode : clOutOfHostMemory ≠ clSuccess := by decide
        exact hcode

/-- The last part of a run sends the message, or reports an error and sends nothing. -/
theorem dispatch_spec (host : LaunchHost) (e : KernelLaunch) (s : RunState) :
    ∃ tail, (e.dispatch host s).2.calls = s.calls ++ tail ∧ (∀ c ∈ tail, c.Neutral) ∧
      if Mapped host s.bufs64bit ∧ s.flushBufs.length ≤ maxKernelArguments ∧
          (e.debugKernel = true → host.mallocName = true) then
        (e.dispatch host s).1 = clSuccess ∧ ∀ c ∈ tail, ¬ c.Failed
      else (e.dispatch host s).1 ≠ clSuccess ∧ ∀ msg, .mailTo msg ∉ tail := by
  obtain ⟨tail, hcalls, hneutral, hmail, hflush, hcode, hfine⟩ := mapMpax_spec host s
  unfold dispatch
  by_cases hmapped : Mapped host s.bufs64bit
  · have hcode := hcode.mpr hmapped
    rw [if_neg (not_not.mpr hcode), hflush]
    by_cases hmany : maxKernelArguments < s.flushBufs.length
    · rw [if_pos hmany]
      refine ⟨tail, hcalls, hneutral, ?_⟩
      rw [if_neg fun hall => absurd hall.2.1 (Nat.not_le.mpr hmany)]
      have hcode : clOutOfResources ≠ clSuccess := by decide
      exact ⟨hcode, hmail⟩
    · rw [if_neg hmany]
      obtain ⟨tail', hcalls', hneutral', hend⟩ := mail_spec host e (mapMpax host s).2
      refine ⟨tail ++ tail', by rw [hcalls', hcalls, List.append_assoc], ?_, ?_⟩
      · intro c hc
        exact (List.mem_append.mp hc).elim (hneutral c) (hneutral' c)
      · by_cases hname : e.debugKernel = true → host.mallocName = true
        · rw [if_pos hname] at hend
          rw [if_pos ⟨hmapped, Nat.not_lt.mp hmany, hname⟩]
          refine ⟨hend.1, fun c hc => ?_⟩
          exact (List.mem_append.mp hc).elim (hfine hmapped c) (hend.2 c)
        · rw [if_neg hname] at hend
          rw [if_neg fun hall => hname hall.2.2]
          refine ⟨hend.1, fun msg hmem => ?_⟩
          exact (List.mem_append.mp hmem).elim (hmail msg) (hend.2 msg)
  · have hcode := mt hcode.mp hmapped
    rw [if_pos hcode]
    refine ⟨tail, hcalls, hneutral, ?_⟩
    rw [if_neg fun hall => hmapped hall.1]
    exact ⟨hcode, hmail⟩

@[simp] theorem setWords_calls (s : RunState) (l : List (AddrWord × UInt32)) :
    (s.setWords l).calls = s.calls := rfl
@[simp] theorem setWords_ddr (s : RunState) (l : List (AddrWord × UInt32)) :
    (s.setWords l).ddr = s.ddr := rfl
@[simp] theorem setWords_bufs64bit (s : RunState) (l : List (AddrWord × UInt32)) :
    (s.setWords l).bufs64bit = s.bufs64bit := rfl
@[simp] theorem setWords_flushBufs (s : RunState) (l : List (AddrWord × UInt32)) :
    (s.setWords l).flushBufs = s.flushBufs := rfl

/-- The memory for the kernel's own allocations, as a call. -/
def allocaCalls (e : KernelLaunch) (ddr : DdrHeaps) : List RunCall :=
  if 0 < e.allocaSize then
    [.mallocGlobal e.chipAllocaSize.toUInt64 true (e.allocaGrant ddr).1] else []

theorem alloca_spec (e : KernelLaunch) (s : RunState) :
    (e.alloca s).2.calls = s.calls ++ allocaCalls e s.ddr ∧
    ((e.alloca s).1 = clSuccess ↔ ¬ e.AllocaRefused s.ddr) ∧
    (¬ e.AllocaRefused s.ddr →
      (e.alloca s).2.ddr = (if 0 < e.allocaSize then (e.allocaGrant s.ddr).2 else s.ddr) ∧
      (e.alloca s).2.bufs64bit = s.bufs64bit ++ (if 0 < e.allocaSize then
        [(⟨(e.allocaGrant s.ddr).1, .wgAllocaStart, e.chipAllocaSize⟩ : MemRange)] else []).filter
          (fun r => ¬ r.addr < 0xFFFFFFFF) ∧
      (e.alloca s).2.flushBufs = s.flushBufs) := by
  unfold alloca AllocaRefused allocaCalls allocaGrant
  by_cases hneeds : 0 < e.allocaSize
  · simp only [if_pos hneeds]
    generalize s.ddr.mallocGlobal e.chipAllocaSize.toUInt64 true = r
    by_cases hzero : r.1 = 0
    · have hcode : clOutOfResources ≠ clSuccess := by decide
      rw [if_pos hzero]
      exact ⟨rfl, iff_of_false hcode (not_not.mpr ⟨hneeds, hzero⟩),
        fun hgranted => absurd ⟨hneeds, hzero⟩ hgranted⟩
    · rw [if_neg hzero]
      exact ⟨place_calls _ _, iff_of_true rfl fun hrefused => hzero hrefused.2,
        fun _ => ⟨place_ddr _ _, place_bufs64bit _ _, place_flushBufs _ _⟩⟩
  · simp only [if_neg hneeds]
    refine ⟨(List.append_nil _).symm, iff_of_true trivial fun hrefused => hneeds hrefused.1,
      fun _ => ⟨trivial, ?_, trivial⟩⟩
    rw [List.filter_nil, List.append_nil]

theorem assignLocal_error {scratch totalSz blockSz : UInt32} {sizes : List UInt32} {code : Int}
    (herror : assignLocal scratch totalSz blockSz sizes = .error code) :
    code = clMemObjectAllocationFailure := by
  induction sizes generalizing scratch totalSz with
  | nil => cases herror
  | cons size sizes ih =>
    unfold assignLocal at herror
    dsimp only at herror
    split_ifs at herror
    · cases herror
      rfl
    · cases hrest : assignLocal (scratch + roundUp size blockSz)
          (totalSz - roundUp size blockSz) blockSz sizes with
      | error code' =>
        rw [hrest] at herror
        cases herror
        exact ih hrest
      | ok ranges =>
        rw [hrest] at herror
        cases herror

/-- The calls before the last part: all the device memory that is asked for. -/
def memoryCalls (e : KernelLaunch) (ddr : DdrHeaps) : List RunCall :=
  [.localScratch true] ++ allocaCalls e ddr ++ List.zipWith
    (fun addr (b : HostptrBuf) => .mallocGlobal b.size false addr) (e.grants ddr) e.hostptrTmpbufs

/-- A run that is not refused before its buffers in host memory. -/
theorem run_eq (host : LaunchHost)
    (hlocal : ∀ code, l2.localBuffers (e.localBufs.map Prod.snd) ≠ .error code)
    (halloca : ¬ e.AllocaRefused ddr) :
    ∃ s, e.run host l2 ddr =
        (e.hostptrTmpbufs.foldlM RunState.hostptrTmpbuf s).map (e.dispatch host) ∧
      s.calls = .localScratch true :: allocaCalls e ddr ∧
      s.ddr = (if 0 < e.allocaSize then (e.allocaGrant ddr).2 else ddr) ∧
      s.bufs64bit = e.bufs64bit ++ (if 0 < e.allocaSize then
        [(⟨(e.allocaGrant ddr).1, .wgAllocaStart, e.chipAllocaSize⟩ : MemRange)] else []).filter
          (fun r => ¬ r.addr < 0xFFFFFFFF) ∧
      s.flushBufs = e.flushBufs := by
  cases hranges : l2.localBuffers (e.localBufs.map Prod.snd) with
  | error code => exact absurd hranges (hlocal code)
  | ok ranges =>
    simp only [run, hranges]
    generalize hs : ((e.start ddr).call (.localScratch true)).setWords
      ((e.localBufs.map Prod.fst).zip (ranges.map Prod.fst)) = s
    have hddr : s.ddr = ddr := by rw [← hs]; rfl
    obtain ⟨hcalls, hcode, hstate⟩ := alloca_spec e s
    rw [hddr] at hcalls hcode hstate
    obtain ⟨hddr', hbufs, hflush⟩ := hstate halloca
    rw [if_neg (not_not.mpr (hcode.mpr halloca))]
    refine ⟨(e.alloca s).2, rfl, ?_, hddr', ?_, ?_⟩
    · rw [hcalls, ← hs]
      rfl
    · rw [hbufs, ← hs]
      rfl
    · rw [hflush, ← hs]
      rfl

/-- A run that goes on to its last part. -/
theorem run_spec (host : LaunchHost)
    (hlocal : ∀ code, l2.localBuffers (e.localBufs.map Prod.snd) ≠ .error code)
    (halloca : ¬ e.AllocaRefused ddr) (hcopy : Copyable (e.grants ddr) e.hostptrTmpbufs) :
    ∃ r tail, e.run host l2 ddr = some r ∧ r.2.calls = memoryCalls e ddr ++ tail ∧
      (∀ c ∈ tail, c.Neutral) ∧
      if e.Sendable host ddr then r.1 = clSuccess ∧ ∀ c ∈ tail, ¬ c.Failed
      else r.1 ≠ clSuccess ∧ ∀ msg, .mailTo msg ∉ tail := by
  obtain ⟨s, hrun, hcalls, hddr, hbufs, hflush⟩ := run_eq host hlocal halloca
  have hgrants : tmpGrants s.ddr e.hostptrTmpbufs = e.grants ddr := by rw [hddr]; rfl
  obtain ⟨s', hrounds, hcalls', hbufs', hflush'⟩ :=
    hostptrTmpbufs_spec s e.hostptrTmpbufs (hgrants ▸ hcopy)
  obtain ⟨tail, htail, hneutral, hend⟩ := dispatch_spec host e s'
  have hsend : (Mapped host s'.bufs64bit ∧ s'.flushBufs.length ≤ maxKernelArguments ∧
      (e.debugKernel = true → host.mallocName = true)) ↔ e.Sendable host ddr := by
    rw [hbufs', hbufs, hflush', hflush, hgrants, List.append_assoc, ← List.filter_append]
    exact Iff.rfl
  refine ⟨e.dispatch host s', tail, by rw [hrun, hrounds]; rfl, ?_, hneutral, ?_⟩
  · rw [htail, hcalls', hcalls, hgrants]
    rfl
  · by_cases hok : e.Sendable host ddr
    · rw [if_pos (hsend.mpr hok)] at hend
      rw [if_pos hok]
      exact hend
    · rw [if_neg (mt hsend.mp hok)] at hend
      rw [if_neg hok]
      exact hend

theorem run_exit (host : LaunchHost)
    (hlocal : ∀ code, l2.localBuffers (e.localBufs.map Prod.snd) ≠ .error code)
    (halloca : ¬ e.AllocaRefused ddr) (hcopy : ¬ Copyable (e.grants ddr) e.hostptrTmpbufs) :
    e.run host l2 ddr = none := by
  obtain ⟨s, hrun, -, hddr, -⟩ := run_eq host hlocal halloca
  have hgrants : tmpGrants s.ddr e.hostptrTmpbufs = e.grants ddr := by rw [hddr]; rfl
  rw [hrun, hostptrTmpbufs_exit s e.hostptrTmpbufs (hgrants ▸ hcopy)]
  rfl

theorem tmpCalls_failed (addrs : List Nat) (bufs : List HostptrBuf)
    (hlen : addrs.length = bufs.length) :
    (∃ c ∈ List.zipWith (fun addr (b : HostptrBuf) => .mallocGlobal b.size false addr) addrs bufs,
      RunCall.Failed c) ↔ ∃ addr ∈ addrs, addr = 0 := by
  induction addrs generalizing bufs with
  | nil => simp
  | cons addr addrs ih =>
    cases bufs with
    | nil => cases hlen
    | cons b bufs =>
      simp only [List.zipWith_cons_cons, List.mem_cons, exists_eq_or_imp]
      rw [ih bufs (Nat.succ.inj hlen)]
      exact Iff.rfl

theorem tmpCalls_obtained (addrs : List Nat) (bufs : List HostptrBuf)
    (hlen : addrs.length = bufs.length) :
    (List.zipWith (fun addr (b : HostptrBuf) => .mallocGlobal b.size false addr) addrs
      bufs).filterMap RunCall.obtained = addrs.filter fun addr => addr ≠ 0 := by
  induction addrs generalizing bufs with
  | nil => rfl
  | cons addr addrs ih =>
    cases bufs with
    | nil => cases hlen
    | cons b bufs =>
      rw [List.zipWith_cons_cons, List.filterMap_cons, ih bufs (Nat.succ.inj hlen)]
      by_cases hzero : addr = 0
      · simp [RunCall.obtained, hzero]
      · simp [RunCall.obtained, hzero]

theorem tmpCalls_returned (addrs : List Nat) (bufs : List HostptrBuf) :
    (List.zipWith (fun addr (b : HostptrBuf) => .mallocGlobal b.size false addr) addrs
      bufs).filterMap RunCall.returned = [] := by
  induction addrs generalizing bufs with
  | nil => rfl
  | cons addr addrs ih =>
    cases bufs with
    | nil => rfl
    | cons b bufs =>
      rw [List.zipWith_cons_cons, List.filterMap_cons]
      exact ih bufs

/-- What the calls for device memory say: which have failed, and what has been got. -/
theorem memoryCalls_spec (halloca : ¬ e.AllocaRefused ddr) :
    ((∃ c ∈ memoryCalls e ddr, c.Failed) ↔ ∃ addr ∈ e.grants ddr, addr = 0) ∧
    (memoryCalls e ddr).filterMap RunCall.obtained =
      (if 0 < e.allocaSize then [(e.allocaGrant ddr).1] else []) ++
        (e.grants ddr).filter (fun addr => addr ≠ 0) ∧
    (memoryCalls e ddr).filterMap RunCall.returned = [] := by
  have hlen : (e.grants ddr).length = e.hostptrTmpbufs.length := tmpGrants_length _ _
  unfold memoryCalls allocaCalls
  rw [List.filterMap_append, List.filterMap_append, tmpCalls_obtained _ _ hlen]
  rw [List.filterMap_append, List.filterMap_append, tmpCalls_returned]
  have hmem : ∀ l l' : List RunCall, (∃ c ∈ l ++ l', c.Failed) ↔
      (∃ c ∈ l, c.Failed) ∨ ∃ c ∈ l', c.Failed := by
    intro l l'
    simp only [List.mem_append, or_and_right, exists_or]
  rw [hmem, tmpCalls_failed _ _ hlen]
  by_cases hneeds : 0 < e.allocaSize
  · have hgrant : (e.allocaGrant ddr).1 ≠ 0 := fun hzero => halloca ⟨hneeds, hzero⟩
    simp [hneeds, hgrant, RunCall.Failed, RunCall.obtained, RunCall.returned]
  · simp [hneeds, RunCall.Failed, RunCall.obtained, RunCall.returned]

theorem filterMap_neutral {head tail calls : List RunCall} {f : RunCall → Option Nat}
    (hcalls : calls = head ++ tail) (hnone : ∀ c ∈ tail, f c = none) :
    calls.filterMap f = head.filterMap f := by
  rw [hcalls, List.filterMap_append, List.filterMap_eq_nil_iff.mpr hnone, List.append_nil]

/-- Without memory for its own allocations the run ends at once. -/
theorem run_refused (hlocal : ∀ code, l2.localBuffers (e.localBufs.map Prod.snd) ≠ .error code)
    (halloca : e.AllocaRefused ddr) : AllOrNothing (e.run host l2 ddr) := by
  cases hranges : l2.localBuffers (e.localBufs.map Prod.snd) with
  | error code => exact absurd hranges (hlocal code)
  | ok ranges =>
    simp only [run, hranges]
    generalize hs : ((e.start ddr).call (.localScratch true)).setWords
      ((e.localBufs.map Prod.fst).zip (ranges.map Prod.fst)) = s
    have hddr : s.ddr = ddr := by rw [← hs]; rfl
    obtain ⟨hcalls, hcode, -⟩ := alloca_spec e s
    rw [hddr] at hcalls hcode
    have hcode := mt hcode.mp (not_not.mpr halloca)
    have hlist : (e.alloca s).2.calls =
        [.localScratch true, .mallocGlobal e.chipAllocaSize.toUInt64 true 0] := by
      rw [hcalls, allocaCalls, if_pos halloca.1, halloca.2, ← hs]
      rfl
    rw [if_pos hcode]
    refine ⟨_, rfl, fun _ => hcode, fun _ msg => ?_, fun _ => ?_⟩
    · rw [hlist]
      simp
    · rw [hlist]
      exact fun addr hmem => absurd hmem List.not_mem_nil

theorem memoryCalls_unmailed (e : KernelLaunch) (ddr : DdrHeaps) (msg : KernelMsg) :
    .mailTo msg ∉ memoryCalls e ddr := by
  unfold memoryCalls allocaCalls
  intro hmem
  rcases List.mem_append.mp hmem with hmem | hmem
  · split_ifs at hmem <;> simp at hmem
  · rw [← List.map_uncurry_zip_eq_zipWith, List.mem_map] at hmem
    obtain ⟨p, -, hp⟩ := hmem
    cases hp

/-- A run that sends its message keeps the promise if all buffers have got memory. -/
theorem settled_of_sent {r : Int × RunState} {tail : List RunCall}
    (halloca : ¬ e.AllocaRefused ddr) (hcalls : r.2.calls = memoryCalls e ddr ++ tail)
    (hcode : r.1 = clSuccess) (hfine : ∀ c ∈ tail, ¬ c.Failed) :
    Settled r ↔ ∀ addr ∈ e.grants ddr, addr ≠ 0 := by
  have hfailed := (memoryCalls_spec halloca).1
  constructor
  · intro hall addr hmem hzero
    obtain ⟨c, hc, hbad⟩ := hfailed.mpr ⟨addr, hmem, hzero⟩
    exact hall.reported ⟨c, by rw [hcalls]; exact List.mem_append_left tail hc, hbad⟩ hcode
  · intro hgranted
    refine ⟨?_, fun hne => absurd hcode hne, fun hne => absurd hcode hne⟩
    rintro ⟨c, hc, hbad⟩
    rw [hcalls] at hc
    rcases List.mem_append.mp hc with hc | hc
    · obtain ⟨addr, hmem, hzero⟩ := hfailed.mp ⟨c, hc, hbad⟩
      exact absurd hzero (hgranted addr hmem)
    · exact absurd hbad (hfine c hc)

/-- A run that fails after it has asked for memory keeps the promise if it has got none. -/
theorem settled_of_failed {r : Int × RunState} {tail : List RunCall}
    (halloca : ¬ e.AllocaRefused ddr) (hcalls : r.2.calls = memoryCalls e ddr ++ tail)
    (hneutral : ∀ c ∈ tail, c.Neutral) (hcode : r.1 ≠ clSuccess)
    (hmail : ∀ msg, .mailTo msg ∉ tail) :
    Settled r ↔ e.allocaSize = 0 ∧ ∀ addr ∈ e.grants ddr, addr = 0 := by
  obtain ⟨-, hobtained, hreturned⟩ := memoryCalls_spec halloca
  have hobtained' : r.2.calls.filterMap RunCall.obtained = _ :=
    (filterMap_neutral hcalls fun c hc => (hneutral c hc).1).trans hobtained
  have hreturned' : r.2.calls.filterMap RunCall.returned = [] :=
    (filterMap_neutral hcalls fun c hc => (hneutral c hc).2).trans hreturned
  constructor
  · intro hall
    have hnone := hall.restored hcode
    rw [hobtained', hreturned'] at hnone
    constructor
    · by_contra hsize
      have hneeds : 0 < e.allocaSize := UInt32.pos_iff_ne_zero.mpr hsize
      rw [if_pos hneeds] at hnone
      exact absurd (hnone _ List.mem_cons_self) List.not_mem_nil
    · intro addr hmem
      by_contra hzero
      have hgot : addr ∈ (e.grants ddr).filter fun addr => addr ≠ 0 :=
        List.mem_filter.mpr ⟨hmem, by simpa using hzero⟩
      exact absurd (hnone addr (List.mem_append_right _ hgot)) List.not_mem_nil
  · rintro ⟨hsize, hgrants⟩
    refine ⟨fun _ => hcode, fun _ msg hmem => ?_, fun _ addr hmem => ?_⟩
    · rw [hcalls] at hmem
      exact (List.mem_append.mp hmem).elim (memoryCalls_unmailed e ddr msg) (hmail msg)
    · rw [hobtained', if_neg (by rw [hsize]; decide)] at hmem
      obtain ⟨hmem, hne⟩ := List.mem_filter.mp hmem
      exact absurd (hgrants addr hmem) (by simpa using hne)

theorem copyable_of_granted {addrs : List Nat} {bufs : List HostptrBuf}
    (hgranted : ∀ addr ∈ addrs, addr ≠ 0) : Copyable addrs bufs := by
  rintro ⟨addr, b⟩ hp hzero
  exact absurd hzero (hgranted addr (List.of_mem_zip hp).1)

/-- If no buffer has got memory, all have to be write-only. -/
theorem copyable_of_refused {addrs : List Nat} {bufs : List HostptrBuf}
    (hlen : addrs.length = bufs.length) (hrefused : ∀ addr ∈ addrs, addr = 0) :
    Copyable addrs bufs ↔ ∀ b ∈ bufs, b.writeOnly = true := by
  constructor
  · intro hcopy b hb
    obtain ⟨i, hi, rfl⟩ := List.getElem_of_mem hb
    have hp : (addrs[i], bufs[i]) ∈ addrs.zip bufs := by
      rw [← List.getElem_zip (h := by simpa [hlen] using hi)]
      exact List.getElem_mem _
    exact hcopy _ hp (hrefused _ (List.of_mem_zip hp).1)
  · rintro hwrite ⟨addr, b⟩ hp -
    exact hwrite b (List.of_mem_zip hp).2

/-- A run keeps the promise exactly when it is refused before it has got any memory, or all the
buffers in host memory get some and the message can be sent, or it fails later and has got none, and
all the buffers are write-only. -/
theorem run_all_or_nothing_iff : AllOrNothing (e.run host l2 ddr) ↔
    (∃ code, l2.localBuffers (e.localBufs.map Prod.snd) = .error code) ∨
    e.AllocaRefused ddr ∨
    e.Sendable host ddr ∧ (∀ addr ∈ e.grants ddr, addr ≠ 0) ∨
    ¬ e.Sendable host ddr ∧ e.allocaSize = 0 ∧ (∀ addr ∈ e.grants ddr, addr = 0) ∧
      ∀ b ∈ e.hostptrTmpbufs, b.writeOnly = true := by
  have hlen : (e.grants ddr).length = e.hostptrTmpbufs.length := tmpGrants_length _ _
  by_cases hlocal : ∃ code, l2.localBuffers (e.localBufs.map Prod.snd) = .error code
  · refine iff_of_true ?_ (Or.inl hlocal)
    obtain ⟨code, hcode⟩ := hlocal
    have hne : code ≠ clSuccess := by
      rw [assignLocal_error hcode]
      decide
    simp only [run, hcode]
    exact ⟨_, rfl, fun _ => hne, fun _ msg hmem => (nomatch List.mem_singleton.mp hmem),
      fun _ addr hmem => absurd hmem List.not_mem_nil⟩
  by_cases halloca : e.AllocaRefused ddr
  · refine iff_of_true ?_ (Or.inr (Or.inl halloca))
    exact run_refused (not_exists.mp hlocal) halloca
  simp only [hlocal, halloca, false_or]
  by_cases hcopy : Copyable (e.grants ddr) e.hostptrTmpbufs
  · obtain ⟨r, tail, hrun, hcalls, hneutral, hend⟩ :=
      run_spec host (not_exists.mp hlocal) halloca hcopy
    have hsome : AllOrNothing (e.run host l2 ddr) ↔ Settled r := by
      rw [hrun]
      simp [AllOrNothing]
    rw [hsome]
    by_cases hsend : e.Sendable host ddr
    · rw [if_pos hsend] at hend
      simp only [hsend, true_and, not_true, false_and, or_false]
      exact settled_of_sent halloca hcalls hend.1 hend.2
    · rw [if_neg hsend] at hend
      simp only [hsend, false_and, not_false_eq_true, true_and, false_or]
      rw [settled_of_failed halloca hcalls hneutral hend.1 hend.2]
      refine and_congr_right fun _ => ⟨fun hgrants => ?_, And.left⟩
      exact ⟨hgrants, (copyable_of_refused hlen hgrants).mp hcopy⟩
  · rw [run_exit host (not_exists.mp hlocal) halloca hcopy]
    refine iff_of_false ?_ ?_
    · rintro ⟨r, heq, -⟩
      cases heq
    rintro (⟨-, hgranted⟩ | ⟨-, -, hgrants, hwrite⟩)
    · exact hcopy (copyable_of_granted hgranted)
    · exact hcopy ((copyable_of_refused hlen hgrants).mpr hwrite)

/-- A kernel with one argument in host memory. -/
def hostptrLaunch (size : UInt64) (writeOnly : Bool) : KernelLaunch where
  wiAllocaSize := 0
  localSz0 := 1
  localSz1 := 1
  localSz2 := 1
  localBufs := []
  hostptrTmpbufs := [⟨size, false, writeOnly, .arg 1⟩]
  bufs64bit := []
  flushBufs := []
  words _ := 0
  debugKernel := false

/-- Two heaps without memory, and one of 16 MB. -/
def smallDdr : DdrHeaps where
  heap1 := Heap.new.configure 0xA2000000 0x1000000 false
  heap2 := Heap.new.configure 0 0 true
  heap3 := Heap.new.configure 0 0 true

/-- A buffer of 32 MB in host memory that is write-only gets none of the 16 MB of the heaps. The run
reports success, and the kernel finds address 0. -/
theorem failed_tmpbuf_unreported : ∃ (host : LaunchHost) (l2 : Heap) (r : Int × RunState),
    (hostptrLaunch 0x2000000 true).run host l2 smallDdr = some r ∧ r.1 = clSuccess ∧
    ¬ AllOrNothing ((hostptrLaunch 0x2000000 true).run host l2 smallDdr) := by
  let host : LaunchHost := ⟨fun _ => none, true⟩
  let l2 := Heap.new.configure 0x00800000 0x20000 false
  have hlocal : ∀ code, l2.localBuffers ((hostptrLaunch 0x2000000 true).localBufs.map Prod.snd) ≠
      .error code := nofun
  have halloca : ¬ (hostptrLaunch 0x2000000 true).AllocaRefused smallDdr :=
    fun hrefused => absurd hrefused.1 (by decide)
  have hgrants : (hostptrLaunch 0x2000000 true).grants smallDdr = [0] := by decide +kernel
  have hcopy : Copyable ((hostptrLaunch 0x2000000 true).grants smallDdr)
      (hostptrLaunch 0x2000000 true).hostptrTmpbufs := by
    rw [hgrants]
    intro p hp _
    obtain rfl := List.mem_singleton.mp hp
    rfl
  have hsend : (hostptrLaunch 0x2000000 true).Sendable host smallDdr := by
    refine ⟨Or.inl ?_, by decide, nofun⟩
    unfold rangesOver32
    rw [hgrants]
    decide
  obtain ⟨r, tail, hrun, hcalls, -, hend⟩ := run_spec host hlocal halloca hcopy
  rw [if_pos hsend] at hend
  refine ⟨host, l2, r, hrun, hend.1, ?_⟩
  rintro ⟨r', hrun', hsettled⟩
  obtain rfl := Option.some.inj (hrun.symm.trans hrun')
  refine (settled_of_sent halloca hcalls hend.1 hend.2).mp hsettled 0 ?_ rfl
  rw [hgrants]
  exact List.mem_singleton_self 0

end Runs

end Shamrock.Dsp
