import Shamrock.Lib.Chunks
import Shamrock.Lib.Transition
import Mathlib.Data.List.Nodup
import Mathlib.Logic.Function.Basic

/-!
# Writing to a DSP by DMA

`Cmem::dma_write` copies a buffer in chunks to staging buffers in contiguous memory, and a transfer
writes each chunk to the device. Up to four transfers are in flight. The steps of the host
interleave with what the transfers move and with their completion.
-/
namespace Shamrock.Dsp

open Transition

def hostCmemBufferSize : UInt32 := 0x400000

/-- `CEIL_DIVIDE` -/
def ceilDivide (x y : UInt32) : UInt32 := (x + y - 1) / y

/-- The arguments of `dma_write`; `buf` is read at signed offsets. -/
structure DmaWrite where
  addr : UInt32
  buf : Int → UInt8
  size : UInt32

namespace DmaWrite

def simulDmas : Nat := 4
@[irreducible] def totBuffers (w : DmaWrite) : UInt32 := ceilDivide w.size hostCmemBufferSize
def circBuffers (w : DmaWrite) : Nat := min simulDmas w.totBuffers.toNat
@[irreducible] def lastBufferSize (w : DmaWrite) : UInt32 :=
  w.size - (w.totBuffers - 1) * hostCmemBufferSize

/-- `int offset` -/
@[irreducible] def offset (i : Nat) : Int32 := (i.toUInt32 * hostCmemBufferSize).toInt32

end DmaWrite

/-- `host_buf_desc[i]`, and the size in `host_frame_desc[i]`. -/
structure HostFrame where
  userAddr : Nat
  length : UInt32
  frameSize : UInt32
  deriving DecidableEq, Repr

/-- A transfer from the start of a staging buffer, and which positions it has moved. -/
structure DmaTransfer where
  transId : UInt32
  addr : UInt32
  userAddr : Nat
  frameSize : UInt32
  moved : List Nat
  complete : Bool
  deriving DecidableEq, Repr

/-- Where the host is; a step with an index begins a round of its loop, or leaves the loop. `fault`
is an access behind the end of an array, or to the front of an empty queue. -/
inductive DmaPc
  | bufmgrAlloc (i : Nat)
  | memcpy (i : Nat)
  | initiate (i : Nat)
  | check (i : Nat)
  | checkLast (i : Nat)
  | bufmgrFreeDesc (i : Nat)
  | returned
  | exited
  | fault
  deriving DecidableEq, Repr

/-- `held` are the buffers that the call has got and not given back; `transfers` are all that it has
initiated. -/
structure DmaState where
  pc : DmaPc
  frames : List HostFrame
  dmaIds : List UInt32
  held : List Nat
  staging : Nat → Nat → UInt8
  device : UInt32 → UInt8
  transfers : List DmaTransfer

namespace DmaState

open DmaWrite

/-- Every buffer of the pool is made with `HOST_CMEM_BUFFER_SIZE` bytes. -/
def bufmgrAlloc (s : DmaState) (i userAddr : Nat) : DmaState :=
  { s with
    frames := s.frames ++ [⟨userAddr, hostCmemBufferSize, hostCmemBufferSize⟩]
    held := s.held ++ [userAddr]
    pc := .bufmgrAlloc (i + 1) }

def memcpy (w : DmaWrite) (s : DmaState) (i : Nat) : DmaState :=
  let circI := i % simulDmas
  match s.frames[circI]? with
  | none => { s with pc := .fault }
  | some f =>
    let cpySize := if i.toUInt32 = w.totBuffers - 1 then w.lastBufferSize else f.length
    { s with
      frames := if i.toUInt32 = w.totBuffers - 1 then
        s.frames.set circI { f with frameSize := w.lastBufferSize } else s.frames
      staging := fun a k => if a = f.userAddr ∧ k < cpySize.toNat then
        w.buf ((offset i).toInt + k) else s.staging a k
      pc := .initiate i }

def initiate (w : DmaWrite) (s : DmaState) (i : Nat) (transId : UInt32) : DmaState :=
  match s.frames[i % simulDmas]? with
  | none => { s with pc := .fault }
  | some f =>
    { s with
      transfers := s.transfers ++
        [⟨transId, w.addr + (offset i).toUInt32, f.userAddr, f.frameSize, [], false⟩]
      dmaIds := s.dmaIds ++ [transId]
      pc := if simulDmas ≤ s.dmaIds.length + 1 then .check i else .memcpy (i + 1) }

/-- `pciedrv_dma_check`: whether a transfer of this number is in flight. -/
def pciedrvDmaCheck (s : DmaState) (transId : UInt32) : Bool :=
  s.transfers.any fun t => t.transId = transId ∧ t.complete = false

def check (s : DmaState) (i : Nat) : DmaState :=
  match s.dmaIds with
  | [] => { s with pc := .fault }
  | id :: ids =>
    if s.pciedrvDmaCheck id then s else { s with dmaIds := ids, pc := .memcpy (i + 1) }

def checkLast (s : DmaState) (i : Nat) : DmaState :=
  match s.dmaIds[i]? with
  | none => { s with pc := .bufmgrFreeDesc 0 }
  | some id => if s.pciedrvDmaCheck id then s else { s with pc := .checkLast (i + 1) }

def bufmgrFreeDesc (s : DmaState) (i : Nat) : DmaState :=
  match s.frames[i]? with
  | none => { s with pc := .fault }
  | some f => { s with held := s.held.erase f.userAddr, pc := .bufmgrFreeDesc (i + 1) }

/-- A transfer in flight moves the byte at position `k`. -/
def move (s : DmaState) (n k : Nat) : Option DmaState :=
  s.transfers[n]?.bind fun t =>
    if t.complete = false ∧ k < t.frameSize.toNat then
      some { s with
        device := Function.update s.device (t.addr + k.toUInt32) (s.staging t.userAddr k)
        transfers := s.transfers.set n { t with moved := k :: t.moved } }
    else none

/-- A transfer that has moved everything is complete. -/
def finish (s : DmaState) (n : Nat) : Option DmaState :=
  s.transfers[n]?.bind fun t =>
    if ∀ k < t.frameSize.toNat, k ∈ t.moved then
      some { s with transfers := s.transfers.set n { t with complete := true } }
    else none

end DmaState

/-- Steps of the host, and of the transfer with index `n`. -/
inductive DmaAction
  | bufmgrAlloc (userAddr : Nat)
  | initiate (transId : UInt32)
  | run
  | fail
  | move (n k : Nat)
  | finish (n : Nat)
  deriving DecidableEq, Repr

/-- The pool gives a buffer that the call does not hold; a transfer can get any number. A failed
call of the drivers ends the process. -/
def dmaStep (w : DmaWrite) (s : DmaState) : DmaAction → Option DmaState
  | .bufmgrAlloc userAddr =>
    match s.pc with
    | .bufmgrAlloc i =>
      if i < w.circBuffers ∧ userAddr ∉ s.held then some (s.bufmgrAlloc i userAddr) else none
    | _ => none
  | .initiate transId =>
    match s.pc with
    | .initiate i => some (s.initiate w i transId)
    | _ => none
  | .run =>
    match s.pc with
    | .bufmgrAlloc i => if i < w.circBuffers then none else some { s with pc := .memcpy 0 }
    | .memcpy i =>
      some (if i < w.totBuffers.toNat then s.memcpy w i else { s with pc := .checkLast 0 })
    | .check i => some (s.check i)
    | .checkLast i => some (s.checkLast i)
    | .bufmgrFreeDesc i =>
      some (if i < w.circBuffers then s.bufmgrFreeDesc i else { s with pc := .returned })
    | _ => none
  | .fail =>
    match s.pc with
    | .bufmgrAlloc i | .bufmgrFreeDesc i =>
      if i < w.circBuffers then some { s with pc := .exited } else none
    | .initiate _ => some { s with pc := .exited }
    | _ => none
  | .move n k => s.move n k
  | .finish n => s.finish n

def dmaSystem (w : DmaWrite) (device : UInt32 → UInt8) : LTS DmaState DmaAction :=
  ofStep (fun s => s.pc = .bufmgrAlloc 0 ∧ s.frames = [] ∧ s.dmaIds = [] ∧ s.held = [] ∧
    s.device = device ∧ s.transfers = []) (dmaStep w)

namespace DmaTransfer

/-- The address lies in the range that the transfer writes. -/
def Covers (t : DmaTransfer) (x : UInt32) : Prop := (x - t.addr).toNat < t.frameSize.toNat

instance (t : DmaTransfer) (x : UInt32) : Decidable (t.Covers x) :=
  inferInstanceAs (Decidable ((x - t.addr).toNat < t.frameSize.toNat))

end DmaTransfer

/-- The range `[addr, addr + size)`, where addresses wrap. -/
def DmaWrite.Covers (w : DmaWrite) (x : UInt32) : Prop := (x - w.addr).toNat < w.size.toNat

instance (w : DmaWrite) (x : UInt32) : Decidable (w.Covers x) :=
  inferInstanceAs (Decidable ((x - w.addr).toNat < w.size.toNat))

/-- What is promised of a call in every state: it stays in its arrays, fills no buffer that a
transfer reads, and what a transfer reads are the bytes for its addresses. When the call returns,
each address of the range has been written by one transfer and no other address has. -/
structure DmaWriteSafe (w : DmaWrite) (device : UInt32 → UInt8) (s : DmaState) : Prop where
  noFault : s.pc ≠ .fault
  index : ∀ i, s.pc = .memcpy i ∧ i < w.totBuffers.toNat ∨ s.pc = .initiate i →
    i % DmaWrite.simulDmas < w.circBuffers ∧ s.frames.length = w.circBuffers
  idle : ∀ i f, s.pc = .memcpy i → i < w.totBuffers.toNat →
    s.frames[i % DmaWrite.simulDmas]? = some f →
      ∀ t ∈ s.transfers, t.complete = false → t.userAddr ≠ f.userAddr
  source : ∀ t ∈ s.transfers, t.complete = false → ∀ k < t.frameSize.toNat,
    s.staging t.userAddr k = w.buf (t.addr + k.toUInt32 - w.addr).toNat
  once : s.pc = .returned → ∀ x,
    s.transfers.countP (fun t => t.Covers x) = if w.Covers x then 1 else 0
  written : s.pc = .returned → ∀ x,
    s.device x = if w.Covers x then w.buf (x - w.addr).toNat else device x
  complete : s.pc = .returned → ∀ t ∈ s.transfers, t.complete = true
  freed : s.pc = .returned → s.held = []

end Shamrock.Dsp
