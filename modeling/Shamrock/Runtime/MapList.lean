import Mathlib.Data.List.Pairwise
import Shamrock.Lib.Transition
import Shamrock.Runtime.Linear

/-!
# The mapped ranges of a buffer

`Buffer::addMapEvent` and `Buffer::removeMapEvent` on the list `p_mapped_events`, which a buffer
has together with its sub-buffers.
-/
namespace Shamrock.Runtime

open Transition

/-- What the two functions ask a `MapBufferEvent`. -/
structure MapEvent where
  buffer : MemObject
  offset : UInt64
  cb : UInt64
  flags : UInt64
  ptr : UInt64
  deriving DecidableEq, Repr

namespace MapEvent

/-- The offset in the buffer, with the one of the sub-buffer. -/
def mbeOffset (e : MapEvent) : UInt64 :=
  if e.buffer.type = .subBuffer then e.offset + e.buffer.offset else e.offset

/-- The test for a conflict of `mbe` with a map `e` of the list. -/
def conflicts (mbe e : MapEvent) : Bool :=
  mbe.mbeOffset ≤ e.mbeOffset + e.cb - 1 && e.mbeOffset ≤ mbe.mbeOffset + mbe.cb - 1 &&
    (mbe.flags &&& clMapWrite ≠ 0 || e.flags &&& clMapWrite ≠ 0)

/-- The loop over the list: where to insert, unless there is a conflict. -/
def insertAt (mbe : MapEvent) : List MapEvent → Nat → Nat → Option Nat
  | [], _, itInsert => some itInsert
  | e :: es, it, itInsert =>
    let itInsert := if mbe.mbeOffset < e.mbeOffset then it else itInsert
    if mbe.conflicts e then none else insertAt mbe es (it + 1) itInsert

end MapEvent

def addMapEvent (events : List MapEvent) (mbe : MapEvent) : Bool × List MapEvent :=
  match mbe.insertAt events 0 events.length with
  | none => (false, events)
  | some itInsert => (true, events.insertIdx itInsert mbe)

def removeMapEvent : List MapEvent → UInt64 → Option MapEvent × List MapEvent
  | [], _ => (none, [])
  | e :: es, mappedPtr =>
    if e.ptr ≠ mappedPtr then
      let rest := removeMapEvent es mappedPtr
      (rest.1, e :: rest.2)
    else (some e, es)

namespace MapEvent

/-- The map gives access to this byte of the buffer. -/
def Covers (e : MapEvent) (b : UInt64) : Prop := b - e.mbeOffset < e.cb

def Overlaps (e m : MapEvent) : Prop := ∃ b, e.Covers b ∧ m.Covers b

def Writing (e : MapEvent) : Prop :=
  e.flags &&& (clMapWrite ||| clMapWriteInvalidateRegion) ≠ 0

def Wraps (e : MapEvent) : Prop := 2 ^ 64 < e.mbeOffset.toNat + e.cb.toNat

/-- The map is not an obstacle to the other one. -/
def Apart (e m : MapEvent) : Prop := e.Overlaps m → ¬(e.Writing ∨ m.Writing)

/-- A map of the buffer or of one of its sub-buffers, by a command that is accepted. -/
def Accepted (root : MemObject) (queue : QueueInfo) (e : MapEvent) : Prop :=
  (e.buffer = root ∨ e.buffer.type = .subBuffer ∧
    ∃ flags, subBuffer root e.buffer.offset e.buffer.size flags = pure ()) ∧
  mapBufferEvent queue (some e.buffer) e.offset e.cb e.flags = pure ()

end MapEvent

inductive MapCall
  | add (queue : QueueInfo) (mbe : MapEvent)
  | remove (mappedPtr : UInt64)

/-- The calls on a buffer and on its sub-buffers, which pass them on. -/
inductive MapStep (root : MemObject) : List MapEvent → MapCall → List MapEvent → Prop
  | add {events : List MapEvent} {mbe : MapEvent} (queue : QueueInfo) :
      mbe.Accepted root queue → MapStep root events (.add queue mbe) (addMapEvent events mbe).2
  | remove {events : List MapEvent} {mappedPtr : UInt64} :
      MapStep root events (.remove mappedPtr) (removeMapEvent events mappedPtr).2

def mapSystem (root : MemObject) : LTS (List MapEvent) MapCall where
  Initial := (· = [])
  Tr := MapStep root

/-- Sorted by offset, and no map for writing overlaps with another one. -/
structure MapsKept (events : List MapEvent) : Prop where
  sorted : events.Pairwise fun e m => e.mbeOffset ≤ m.mbeOffset
  apart : events.Pairwise MapEvent.Apart

/-- What a call makes of the list. -/
structure MapCallsExact (events : List MapEvent) : Prop where
  refused : ∀ mbe, (addMapEvent events mbe).1 = false → (addMapEvent events mbe).2 = events
  removed : ∀ p, (∃ e ∈ events, e.ptr = p) → ∃ before e behind, events = before ++ e :: behind ∧
    e.ptr = p ∧ removeMapEvent events p = (some e, before ++ behind)
  missing : ∀ p, (∀ e ∈ events, e.ptr ≠ p) → removeMapEvent events p = (none, events)

/-- At most one map of the list is behind the new one, and those that overlap with it are found:
one of the two has `CL_MAP_WRITE`, and no end point wraps around. -/
structure CleanAdd (events : List MapEvent) (mbe : MapEvent) : Prop where
  behind : (∀ e ∈ events, mbe.conflicts e = false) →
    (events.filter fun e => mbe.mbeOffset < e.mbeOffset).length ≤ 1
  found : ∀ e ∈ events, mbe.Overlaps e → mbe.Writing ∨ e.Writing →
    (mbe.flags &&& clMapWrite ≠ 0 ∨ e.flags &&& clMapWrite ≠ 0) ∧ ¬mbe.Wraps ∧ ¬e.Wraps

def CleanCall (events : List MapEvent) : MapCall → Prop
  | .add _ mbe => CleanAdd events mbe
  | .remove _ => True

section Maps

variable {root : MemObject} {queue : QueueInfo} {events es rest : List MapEvent}
  {e m mbe : MapEvent} {c : MapCall} {it ins i : Nat} {p : UInt64}

theorem MapEvent.apart_comm : e.Apart m ↔ m.Apart e := by
  unfold Apart Overlaps
  constructor
  · rintro h ⟨b, hm, he⟩ hw
    exact h ⟨b, he, hm⟩ hw.symm
  · rintro h ⟨b, he, hm⟩ hw
    exact h ⟨b, hm, he⟩ hw.symm

/-- A range with a byte of another one starts before the end of that one. -/
theorem start_le_end {x c y d b : UInt64} (hx : b - x < c) (hy : b - y < d)
    (hc : x.toNat + c.toNat ≤ 2 ^ 64) (hd : y.toNat + d.toNat ≤ 2 ^ 64) : x ≤ y + d - 1 := by
  have hone : (1 : UInt64).toNat = 1 := rfl
  have hxlt := x.toNat_lt
  have hylt := y.toNat_lt
  have hblt := b.toNat_lt
  rw [UInt64.lt_iff_toNat_lt, UInt64.toNat_sub] at hx hy
  rw [UInt64.le_iff_toNat_le, UInt64.toNat_sub, UInt64.toNat_add]
  omega

/-- Ranges that do not wrap around and have a byte in common pass the test of the end points. -/
theorem MapEvent.Overlaps.conflicts (h : mbe.Overlaps e) (hmbe : ¬mbe.Wraps) (he : ¬e.Wraps)
    (hw : mbe.flags &&& clMapWrite ≠ 0 ∨ e.flags &&& clMapWrite ≠ 0) : mbe.conflicts e = true := by
  obtain ⟨b, hb, hb'⟩ := h
  have hmbe := Nat.le_of_not_lt hmbe
  have he := Nat.le_of_not_lt he
  have hfst := start_le_end hb hb' hmbe he
  have hsnd := start_le_end hb' hb he hmbe
  simp only [MapEvent.conflicts, Bool.and_eq_true, Bool.or_eq_true, decide_eq_true_eq]
  exact ⟨⟨hfst, hsnd⟩, hw⟩

/-- The loop inserts before the last map of the list that is behind the new one. -/
theorem insertAt_eq_some (h : mbe.insertAt events it ins = some i) :
    (∀ e ∈ events, mbe.conflicts e = false) ∧
    ((i = ins ∧ ∀ e ∈ events, ¬mbe.mbeOffset < e.mbeOffset) ∨
      ∃ before e after, events = before ++ e :: after ∧ i = it + before.length ∧
        mbe.mbeOffset < e.mbeOffset ∧ ∀ m ∈ after, ¬mbe.mbeOffset < m.mbeOffset) := by
  induction events generalizing it ins with
  | nil =>
    cases h
    have hnone : ∀ e ∈ ([] : List MapEvent), ¬mbe.mbeOffset < e.mbeOffset := List.forall_mem_nil _
    exact ⟨List.forall_mem_nil _, .inl ⟨rfl, hnone⟩⟩
  | cons e es ih =>
    unfold MapEvent.insertAt at h
    dsimp only at h
    split at h
    · cases h
    · rename_i hconflict
      obtain ⟨hclean, hwhere⟩ := ih h
      refine ⟨List.forall_mem_cons.mpr ⟨Bool.eq_false_of_not_eq_true hconflict, hclean⟩, ?_⟩
      obtain ⟨hi, hnone⟩ | ⟨before, m, after, rfl, hi, hm, hafter⟩ := hwhere
      · by_cases hlt : mbe.mbeOffset < e.mbeOffset
        · rw [if_pos hlt] at hi
          exact .inr ⟨[], e, es, rfl, hi, hlt, hnone⟩
        · rw [if_neg hlt] at hi
          exact .inl ⟨hi, List.forall_mem_cons.mpr ⟨hlt, hnone⟩⟩
      · refine .inr ⟨e :: before, m, after, rfl, ?_, hm, hafter⟩
        rw [hi, List.length_cons]
        omega

theorem insertIdx_length_append (before after : List MapEvent) :
    (before ++ after).insertIdx before.length mbe = before ++ mbe :: after := by
  induction before with
  | nil => rfl
  | cons m before ih => exact congrArg (m :: ·) ih

/-- A map that is not refused is put at the end, or before the last one behind it. -/
theorem addMapEvent_cases (events : List MapEvent) (mbe : MapEvent) :
    addMapEvent events mbe = (false, events) ∨
    (∀ e ∈ events, mbe.conflicts e = false) ∧
      ((addMapEvent events mbe = (true, events ++ [mbe]) ∧
        ∀ e ∈ events, ¬mbe.mbeOffset < e.mbeOffset) ∨
      ∃ before e after, events = before ++ e :: after ∧
        addMapEvent events mbe = (true, before ++ mbe :: e :: after) ∧
        mbe.mbeOffset < e.mbeOffset ∧ ∀ m ∈ after, ¬mbe.mbeOffset < m.mbeOffset) := by
  unfold addMapEvent
  cases h : mbe.insertAt events 0 events.length with
  | none => exact .inl rfl
  | some i =>
    obtain ⟨hclean, ⟨rfl, hnone⟩ | ⟨before, e, after, rfl, hi, he, hafter⟩⟩ := insertAt_eq_some h
    · refine .inr ⟨hclean, .inl ⟨?_, hnone⟩⟩
      simp
    · refine .inr ⟨hclean, .inr ⟨before, e, after, rfl, ?_, he, hafter⟩⟩
      dsimp only
      rw [hi, Nat.zero_add, insertIdx_length_append]

theorem removeMapEvent_cases (events : List MapEvent) (p : UInt64) :
    (∃ before e after, events = before ++ e :: after ∧ e.ptr = p ∧
      removeMapEvent events p = (some e, before ++ after)) ∨
    (∀ e ∈ events, e.ptr ≠ p) ∧ removeMapEvent events p = (none, events) := by
  induction events with
  | nil => exact .inr ⟨fun _ he => absurd he List.not_mem_nil, rfl⟩
  | cons e es ih =>
    unfold removeMapEvent
    by_cases hp : e.ptr = p
    · rw [if_neg (not_not.mpr hp)]
      exact .inl ⟨[], e, es, rfl, hp, rfl⟩
    · rw [if_pos hp]
      obtain ⟨before, m, after, rfl, hm, hrest⟩ | ⟨hnone, hrest⟩ := ih
      · rw [hrest]
        exact .inl ⟨e :: before, m, after, rfl, hm, rfl⟩
      · rw [hrest]
        exact .inr ⟨List.forall_mem_cons.mpr ⟨hp, hnone⟩, rfl⟩

theorem mapCallsExact : MapCallsExact events where
  refused mbe h := by
    obtain heq | ⟨-, ⟨heq, -⟩ | ⟨_, _, _, -, heq, -⟩⟩ := addMapEvent_cases events mbe
    · rw [heq]
    · rw [heq] at h
      cases h
    · rw [heq] at h
      cases h
  removed p hp := by
    obtain ⟨e, he, hep⟩ := hp
    obtain hfound | ⟨hnone, -⟩ := removeMapEvent_cases events p
    · exact hfound
    · exact absurd hep (hnone e he)
  missing p hp := by
    obtain ⟨before, e, after, rfl, he, -⟩ | ⟨-, heq⟩ :=
      removeMapEvent_cases events p
    · exact absurd he (hp e (by simp))
    · exact heq

/-- The new map is apart from those of the list. -/
theorem CleanAdd.apart (h : CleanAdd events mbe) (hclean : ∀ e ∈ events, mbe.conflicts e = false) :
    ∀ e ∈ events, mbe.Apart e := by
  intro e he hover hw
  obtain ⟨hwrite, hmbe, hwraps⟩ := h.found e he hover hw
  have hconflict := hover.conflicts hmbe hwraps hwrite
  rw [hclean e he] at hconflict
  cases hconflict

/-- In a sorted list nothing is behind the last map behind the new one, and with a clean call
nothing before it. -/
theorem CleanAdd.sorted {before after : List MapEvent}
    (h : CleanAdd (before ++ e :: after) mbe)
    (hclean : ∀ m ∈ before ++ e :: after, mbe.conflicts m = false)
    (hsorted : (before ++ e :: after).Pairwise fun e m => e.mbeOffset ≤ m.mbeOffset)
    (he : mbe.mbeOffset < e.mbeOffset) :
    (before ++ mbe :: e :: after).Pairwise fun e m => e.mbeOffset ≤ m.mbeOffset := by
  have hfew := h.behind hclean
  rw [List.filter_append, List.filter_cons_of_pos (by exact decide_eq_true he), List.length_append,
    List.length_cons] at hfew
  have hbefore : ∀ m ∈ before, m.mbeOffset ≤ mbe.mbeOffset := by
    intro m hm
    by_contra hlt
    have hmem : m ∈ before.filter fun e => mbe.mbeOffset < e.mbeOffset :=
      List.mem_filter.mpr ⟨hm, decide_eq_true (UInt64.not_le.mp hlt)⟩
    have hpos := List.length_pos_of_mem hmem
    omega
  obtain ⟨hl, hr, hlr⟩ := List.pairwise_append.mp hsorted
  have hrest : ∀ m ∈ e :: after, mbe.mbeOffset ≤ m.mbeOffset := by
    refine List.forall_mem_cons.mpr ⟨UInt64.le_of_lt he, fun m hm => ?_⟩
    exact UInt64.le_trans (UInt64.le_of_lt he) (List.rel_of_pairwise_cons hr hm)
  refine List.pairwise_append.mpr ⟨hl, List.pairwise_cons.mpr ⟨hrest, hr⟩, fun m hm => ?_⟩
  exact List.forall_mem_cons.mpr ⟨hbefore m hm, hlr m hm⟩

theorem MapsKept.add (hs : MapsKept events) (h : CleanAdd events mbe) :
    MapsKept (addMapEvent events mbe).2 := by
  have hsymm : ∀ {e m : MapEvent}, e.Apart m → m.Apart e := MapEvent.apart_comm.mp
  obtain heq | ⟨hclean, ⟨heq, hlast⟩ | ⟨before, e, after, rfl, heq, he, -⟩⟩ :=
    addMapEvent_cases events mbe
  · rw [heq]
    exact hs
  · have hapart := h.apart hclean
    rw [heq]
    constructor
    · refine List.pairwise_append.mpr ⟨hs.sorted, List.pairwise_singleton _ _, fun e he m hm => ?_⟩
      cases List.mem_singleton.mp hm
      exact UInt64.not_lt.mp (hlast e he)
    · refine (List.perm_append_singleton mbe events).pairwise_iff hsymm |>.mpr ?_
      exact List.pairwise_cons.mpr ⟨hapart, hs.apart⟩
  · have hapart := h.apart hclean
    rw [heq]
    constructor
    · exact h.sorted hclean hs.sorted he
    · refine (List.perm_middle (a := mbe)).pairwise_iff hsymm |>.mpr ?_
      exact List.pairwise_cons.mpr ⟨hapart, hs.apart⟩

theorem MapsKept.remove (hs : MapsKept events) : MapsKept (removeMapEvent events p).2 := by
  obtain ⟨before, e, after, rfl, -, heq⟩ | ⟨-, heq⟩ := removeMapEvent_cases events p
  · have hsub : (before ++ after).Sublist (before ++ e :: after) :=
      (List.Sublist.refl before).append (List.sublist_cons_self e after)
    rw [heq]
    exact ⟨hs.sorted.sublist hsub, hs.apart.sublist hsub⟩
  · rw [heq]
    exact hs

theorem mapsKept_step (h : MapStep root events c rest) (hc : CleanCall events c)
    (hs : MapsKept events) : MapsKept rest := by
  cases h with
  | add _ _ => exact hs.add hc
  | remove => exact hs.remove

/-- After clean calls the list is sorted and its maps are apart, and every call does to it what it
should. -/
theorem mapped_events_kept (h : Reachable ((mapSystem root).restrict CleanCall) events) :
    MapsKept events ∧ MapCallsExact events := by
  refine ⟨h.invariant (fun s hs => ?_) fun s a t _ hs ht => ?_, mapCallsExact⟩
  · cases hs
    exact ⟨.nil, .nil⟩
  · exact mapsKept_step ht.1 ht.2 hs

end Maps

/-- A map of the small buffer for reading. -/
def readMap (offset : UInt64) : MapEvent where
  buffer := LinearCommand.smallBuffer
  offset := offset
  cb := 1
  flags := clMapRead
  ptr := 4096 + offset

/-- An accepted map takes a run to the list with it. -/
theorem reachable_readMap {events : List MapEvent} (offset : UInt64)
    (h : Reachable (mapSystem LinearCommand.smallBuffer) events)
    (haccepted : mapBufferEvent LinearCommand.smallQueue (some LinearCommand.smallBuffer)
      offset 1 clMapRead = pure ()) :
    Reachable (mapSystem LinearCommand.smallBuffer) (addMapEvent events (readMap offset)).2 :=
  .step h (.add LinearCommand.smallQueue ⟨.inl rfl, haccepted⟩)

/-- Three maps, the last one in front of the others. -/
theorem mapped_unsorted : ¬∀ (root : MemObject) (events : List MapEvent),
    Reachable (mapSystem root) events → MapsKept events ∧ MapCallsExact events := by
  intro h
  have hfst := reachable_readMap 2 (.initial rfl) rfl
  have hsnd := reachable_readMap 4 hfst rfl
  have hreach := reachable_readMap 1 hsnd rfl
  have hsorted := (h LinearCommand.smallBuffer _ hreach).1.sorted
  revert hsorted
  decide

theorem clean_maps_kept : ∃ events, events.length = 2 ∧ MapsKept events ∧ MapCallsExact events := by
  have hfst : CleanAdd [] (readMap 4) := by
    constructor
    · exact fun _ => Nat.zero_le 1
    · exact fun _ he => absurd he List.not_mem_nil
  have hsnd : CleanAdd [readMap 4] (readMap 2) := by
    constructor
    · exact fun _ => by decide
    · intro e he _ hw
      cases List.mem_singleton.mp he
      exact absurd hw (by unfold MapEvent.Writing; decide)
  have hone : Reachable ((mapSystem LinearCommand.smallBuffer).restrict CleanCall) _ :=
    .step (.initial rfl) ⟨.add LinearCommand.smallQueue ⟨.inl rfl, rfl⟩, hfst⟩
  have hreach : Reachable ((mapSystem LinearCommand.smallBuffer).restrict CleanCall) _ :=
    .step hone ⟨.add LinearCommand.smallQueue ⟨.inl rfl, rfl⟩, hsnd⟩
  exact ⟨_, rfl, mapped_events_kept hreach⟩

end Shamrock.Runtime
