import Shamrock.Lib.Transition
import Mathlib.Logic.Function.Basic

/-!
# Objects and their parents

The tree of contexts, command queues, events and memory objects, with the `p_references` of each.
An object is a number, in the order of creation. `delete` follows the destructors up the tree.
-/
namespace Shamrock.Runtime

open Transition

inductive ObjectType
  | context
  | commandQueue
  | event
  | memObject
  deriving DecidableEq, Repr

/-- `Object`; `buffer` is the `p_parent` that a `SubBuffer` has besides that of `Object`. -/
structure Object where
  type : ObjectType
  parent : Option Nat
  buffer : Option Nat
  references : Nat
  releaseParent : Bool
  deriving DecidableEq, Repr

/-- `known` is the list of known objects. `queued` are the events in the lists of their queues,
and `taken` those that a queue has erased to complete them itself. The last block are history
variables: the references that the application owns, those held inside the implementation (by
dependent events, commands, calls that are under way), and the objects destroyed. -/
structure Heap where
  known : List Nat
  object : Nat → Object
  nextObject : Nat
  queued : List Nat
  taken : List Nat
  handles : Nat → Nat
  holds : Nat → Nat
  destroyed : List Nat

namespace Heap

def setObject (h : Heap) (o : Nat) (obj : Object) : Heap :=
  { h with object := Function.update h.object o obj }

def reference (h : Heap) (o : Nat) : Heap :=
  h.setObject o { h.object o with references := (h.object o).references + 1 }

/-- `dereference`, before its result: whether the count has reached zero. -/
def dereference (h : Heap) (o : Nat) : Heap :=
  h.setObject o { h.object o with references := (h.object o).references - 1 }

def setReleaseParent (h : Heap) (o : Nat) (release : Bool) : Heap :=
  h.setObject o { h.object o with releaseParent := release }

/-- `delete` on an object: `~SubBuffer` releases its buffer, then `~Object` dereferences the
parent, which is deleted in turn unless the object was told not to. Parents are older than
their children, so that `n` bounds the depth. -/
def delete : Nat → Heap → Nat → Heap
  | 0, h, _ => h
  | n + 1, h, o =>
    let obj := h.object o
    let h₁ := match obj.buffer with
      | none => h
      | some b =>
        if b ∈ h.known then
          if ((h.dereference b).object b).references = 0 then delete n (h.dereference b) b
          else h.dereference b
        else h
    let h₂ := match obj.parent with
      | none => h₁
      | some p =>
        if ((h₁.dereference p).object p).references = 0 ∧ obj.releaseParent then
          delete n (h₁.dereference p) p
        else h₁.dereference p
    { h₂ with known := h₂.known.erase o, destroyed := h₂.destroyed ++ [o] }

/-- `clReleaseContext`, `clReleaseEvent` and so on, after a queue has been flushed. -/
def release (h : Heap) (o : Nat) : Heap :=
  if o ∈ h.known then
    if ((h.dereference o).object o).references = 0 then delete (o + 1) (h.dereference o) o
    else h.dereference o
  else h

/-- `Object(type, parent)`, and `clRetainMemObject` on the buffer of a sub-buffer. -/
def create (h : Heap) (type : ObjectType) (parent buffer : Option Nat) : Heap :=
  let h₁ := match parent with
    | none => h
    | some p => h.reference p
  let h₂ := match buffer with
    | none => h₁
    | some b => h₁.reference b
  { h₂.setObject h.nextObject ⟨type, parent, buffer, 1, true⟩ with
    known := h.nextObject :: h.known
    nextObject := h.nextObject + 1 }

def setHandles (h : Heap) (o n : Nat) : Heap :=
  { h with handles := Function.update h.handles o n }

def setHolds (h : Heap) (o n : Nat) : Heap :=
  { h with holds := Function.update h.holds o n }

end Heap

inductive HeapAction
  | createContext
  | createCommandQueue (context : Nat)
  | createUserEvent
  | createBuffer (context : Nat)
  | createSubBuffer (buffer : Nat)
  /-- a `clEnqueue*` call: the queue's list holds the reference of the constructor, and the
  application gets one if it asked for the event -/
  | enqueue (queue : Nat) (event : Bool)
  /-- `clRetain*` by the application -/
  | retain (o : Nat)
  /-- `clRelease*` by the application -/
  | release (o : Nat)
  /-- `pushEventsOnDevice` or `cleanEvents` erases a terminal event from the list of its queue -/
  | erase (event : Nat)
  /-- `pushEventsOnDevice` erases an instantaneous event -/
  | take (event : Nat)
  /-- and releases it after completing it -/
  | releaseTaken (event : Nat)
  /-- a reference taken inside: by `addDependentEvent`, by `setStatus` on its queue, by a command
  on its memory objects -/
  | hold (o : Nat)
  /-- and given back by `clRelease*` -/
  | unhold (o : Nat)
  /-- given back by `dereference` alone, as a blocking call does with its command -/
  | dereference (o : Nat)
  /-- the last lines of `cleanEvents` -/
  | cleanEvents (queue : Nat)

namespace Heap

/-- The application names objects that it owns a reference on. -/
def step (h : Heap) : HeapAction → Option Heap
  | .createContext => some ((h.create .context none none).setHandles h.nextObject 1)
  | .createCommandQueue c =>
    if 0 < h.handles c ∧ (h.object c).type = .context then
      some ((h.create .commandQueue (some c) none).setHandles h.nextObject 1)
    else none
  | .createUserEvent => some ((h.create .event none none).setHandles h.nextObject 1)
  | .createBuffer c =>
    if 0 < h.handles c ∧ (h.object c).type = .context then
      some ((h.create .memObject (some c) none).setHandles h.nextObject 1)
    else none
  | .createSubBuffer b =>
    if 0 < h.handles b ∧ (h.object b).type = .memObject ∧ (h.object b).buffer = none then
      some ((h.create .memObject (h.object b).parent (some b)).setHandles h.nextObject 1)
    else none
  | .enqueue q event =>
    if 0 < h.handles q ∧ (h.object q).type = .commandQueue then
      let h₁ := h.create .event (some q) none
      let h₂ := { h₁ with queued := h₁.queued ++ [h.nextObject] }
      some (if event then (h₂.reference h.nextObject).setHandles h.nextObject 1 else h₂)
    else none
  | .retain o =>
    if 0 < h.handles o then some ((h.reference o).setHandles o (h.handles o + 1)) else none
  | .release o =>
    if 0 < h.handles o then some ((h.setHandles o (h.handles o - 1)).release o) else none
  | .erase e =>
    if e ∈ h.queued then
      some (({ h with queued := h.queued.erase e }.setReleaseParent e false).release e)
    else none
  | .take e =>
    if e ∈ h.queued then some { h with queued := h.queued.erase e, taken := h.taken ++ [e] }
    else none
  | .releaseTaken e =>
    if e ∈ h.taken then some ({ h with taken := h.taken.erase e }.release e) else none
  | .hold o =>
    if o ∈ h.known then some ((h.reference o).setHolds o (h.holds o + 1)) else none
  | .unhold o =>
    if 0 < h.holds o then some ((h.setHolds o (h.holds o - 1)).release o) else none
  | .dereference o =>
    if 0 < h.holds o then some ((h.setHolds o (h.holds o - 1)).dereference o) else none
  | .cleanEvents q =>
    if q ∈ h.known ∧ (h.object q).references = 0 then some (h.delete (q + 1) q) else some h

end Heap

def Heap.empty : Heap where
  known := []
  object := fun _ => ⟨.context, none, none, 0, true⟩
  nextObject := 0
  queued := []
  taken := []
  handles := fun _ => 0
  holds := fun _ => 0
  destroyed := []

def heapRuns : LTS Heap HeapAction := ofStep (· = Heap.empty) Heap.step

end Shamrock.Runtime
