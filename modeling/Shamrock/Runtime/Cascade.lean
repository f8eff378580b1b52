import Shamrock.Runtime.Object

/-! Counting the references on every object, through the deletions that one release can cause. -/
namespace Shamrock.Runtime

open Transition

variable {h h' : Heap} {L L' : List Nat} {E : Nat → Nat} {n o x y : Nat}

/-- The references on `x` that are not those of other objects. -/
def Heap.base (h : Heap) (x : Nat) : Nat :=
  h.handles x + h.holds x + h.queued.count x + h.taken.count x

/-- How many of the objects in `L` have `x` as parent or as buffer. -/
def Heap.kids (h : Heap) (L : List Nat) (x : Nat) : Nat :=
  L.countP (fun y => (h.object y).parent = some x) +
    L.countP (fun y => (h.object y).buffer = some x)

/-- One more reference on `o` is still to be given back. -/
def owed (E : Nat → Nat) (o : Option Nat) : Nat → Nat :=
  fun x => if o = some x then E x + 1 else E x

/-- The state within a cascade of deletions: `L` are the objects whose destructor does not run,
and `E` counts the references that running destructors have yet to give back. -/
structure Counted (h : Heap) (L : List Nat) (E : Nat → Nat) : Prop where
  nodup : L.Nodup
  known : ∀ x ∈ L, x ∈ h.known
  links : ∀ x ∈ L, ∀ y, (h.object x).parent = some y ∨ (h.object x).buffer = some y →
    y ∈ L ∧ y < x ∧ (h.object y).releaseParent = true
  counts : ∀ x ∈ L, (h.object x).references = h.base x + h.kids L x + E x ∧
    0 < (h.object x).references
  gone : ∀ x, x ∉ L → h.base x = 0 ∧ h.kids L x = 0 ∧ E x = 0
  once : ∀ x, h.known.count x + h.destroyed.count x = if x < h.nextObject then 1 else 0

/-- Only reference counts and the lists of known and destroyed objects differ. -/
structure SameShape (h h' : Heap) : Prop where
  object : ∀ x, h'.object x = { h.object x with references := (h'.object x).references }
  queued : h'.queued = h.queued
  taken : h'.taken = h.taken
  handles : h'.handles = h.handles
  holds : h'.holds = h.holds

theorem SameShape.refl (h : Heap) : SameShape h h := ⟨fun _ => rfl, rfl, rfl, rfl, rfl⟩

theorem SameShape.trans {h'' : Heap} (h₁ : SameShape h h') (h₂ : SameShape h' h'') :
    SameShape h h'' where
  object x := by rw [h₂.object x, h₁.object x]
  queued := h₂.queued.trans h₁.queued
  taken := h₂.taken.trans h₁.taken
  handles := h₂.handles.trans h₁.handles
  holds := h₂.holds.trans h₁.holds

theorem SameShape.base (hs : SameShape h h') (x : Nat) : h'.base x = h.base x := by
  rw [Heap.base, hs.queued, hs.taken, hs.handles, hs.holds]
  rfl

theorem SameShape.type (hs : SameShape h h') (x : Nat) :
    (h'.object x).type = (h.object x).type := by rw [hs.object x]

theorem SameShape.parent (hs : SameShape h h') (x : Nat) :
    (h'.object x).parent = (h.object x).parent := by rw [hs.object x]

theorem SameShape.buffer (hs : SameShape h h') (x : Nat) :
    (h'.object x).buffer = (h.object x).buffer := by rw [hs.object x]

theorem SameShape.releaseParent (hs : SameShape h h') (x : Nat) :
    (h'.object x).releaseParent = (h.object x).releaseParent := by rw [hs.object x]

theorem SameShape.kids (hs : SameShape h h') (L : List Nat) (x : Nat) :
    h'.kids L x = h.kids L x := by
  unfold Heap.kids
  simp only [hs.parent, hs.buffer]

theorem sameShape_dereference (h : Heap) (o : Nat) : SameShape h (h.dereference o) where
  object x := by
    by_cases hx : x = o
    · subst hx
      simp [Heap.dereference, Heap.setObject]
    · simp [Heap.dereference, Heap.setObject, hx]
  queued := rfl
  taken := rfl
  handles := rfl
  holds := rfl

theorem references_dereference (h : Heap) (o x : Nat) :
    ((h.dereference o).object x).references =
      if x = o then (h.object o).references - 1 else (h.object x).references := by
  by_cases hx : x = o
  · subst hx
    simp [Heap.dereference, Heap.setObject]
  · simp [Heap.dereference, Heap.setObject, hx]

theorem Counted.mem_of_owed (hc : Counted h L (owed E (some o))) : o ∈ L := by
  by_contra hno
  have := (hc.gone o hno).2.2
  simp [owed] at this

/-- Another reference remains. -/
theorem counted_dereference (hc : Counted h L (owed E (some o)))
    (hr : 1 < (h.object o).references) : Counted (h.dereference o) L E := by
  have hs := sameShape_dereference h o
  have howed : ∀ x, x ≠ o → owed E (some o) x = E x := by
    intro x hx
    exact if_neg fun heq => hx (Option.some.inj heq).symm
  refine ⟨hc.nodup, hc.known, fun x hx y hy => ?_, fun x hx => ?_, fun x hx => ?_, hc.once⟩
  · rw [hs.parent, hs.buffer] at hy
    rw [hs.releaseParent]
    exact hc.links x hx y hy
  · obtain ⟨hcount, hpos⟩ := hc.counts x hx
    rw [references_dereference, hs.base, hs.kids]
    split
    · rename_i hxo
      subst hxo
      simp only [owed, if_true] at hcount
      omega
    · rename_i hxo
      rw [howed x hxo] at hcount
      exact ⟨hcount, hpos⟩
  · have hxo : x ≠ o := fun hxo => hx (hxo ▸ hc.mem_of_owed)
    obtain ⟨hb, hk, he⟩ := hc.gone x hx
    rw [howed x hxo] at he
    rw [hs.base, hs.kids]
    exact ⟨hb, hk, he⟩

theorem kids_erase (ho : o ∈ L) (x : Nat) :
    h.kids L x = h.kids (L.erase o) x + (if (h.object o).parent = some x then 1 else 0) +
      if (h.object o).buffer = some x then 1 else 0 := by
  have hperm := List.perm_cons_erase ho
  unfold Heap.kids
  rw [hperm.countP_eq, hperm.countP_eq (fun y => (h.object y).buffer = some x),
    List.countP_cons, List.countP_cons]
  simp only [decide_eq_true_eq]
  omega

/-- The last reference goes: the destructor of `o` has those on its parent and its buffer to give
back. -/
theorem counted_dying (hc : Counted h L (owed E (some o)))
    (hr : (h.object o).references = 1) :
    Counted (h.dereference o) (L.erase o)
      (owed (owed E (h.object o).parent) (h.object o).buffer) := by
  have hs := sameShape_dereference h o
  have ho := hc.mem_of_owed
  have howed : ∀ x, x ≠ o → owed E (some o) x = E x := by
    intro x hx
    exact if_neg fun heq => hx (Option.some.inj heq).symm
  obtain ⟨hcount, -⟩ := hc.counts o ho
  simp only [owed, if_true] at hcount
  have hkids : ∀ x ∈ L, (h.object x).parent ≠ some o ∧ (h.object x).buffer ≠ some o := by
    intro x hx
    have hzero : h.kids L o = 0 := by omega
    unfold Heap.kids at hzero
    constructor
    · intro heq
      have := (List.countP_pos_iff (p := fun y => (h.object y).parent = some o)).mpr
        ⟨x, hx, decide_eq_true heq⟩
      omega
    · intro heq
      have := (List.countP_pos_iff (p := fun y => (h.object y).buffer = some o)).mpr
        ⟨x, hx, decide_eq_true heq⟩
      omega
  have hmem : ∀ x, x ∈ L.erase o ↔ x ≠ o ∧ x ∈ L := fun x => hc.nodup.mem_erase_iff
  refine ⟨hc.nodup.erase o, fun x hx => hc.known x ((hmem x).mp hx).2, fun x hx y hy => ?_,
    fun x hx => ?_, fun x hx => ?_, hc.once⟩
  · rw [hs.parent, hs.buffer] at hy
    rw [hs.releaseParent]
    have hxL := ((hmem x).mp hx).2
    obtain ⟨hyL, hlt, hrel⟩ := hc.links x hxL y hy
    refine ⟨(hmem y).mpr ⟨?_, hyL⟩, hlt, hrel⟩
    rintro rfl
    exact hy.elim (hkids x hxL).1 (hkids x hxL).2
  · obtain ⟨hxo, hxL⟩ := (hmem x).mp hx
    obtain ⟨hcx, hpos⟩ := hc.counts x hxL
    rw [howed x hxo, kids_erase ho x] at hcx
    rw [references_dereference, if_neg hxo, hs.base, hs.kids]
    refine ⟨?_, hpos⟩
    unfold owed
    split <;> split <;> simp_all <;> omega
  · rw [hs.base, hs.kids]
    by_cases hxo : x = o
    · subst hxo
      have hne : ∀ y, (h.object x).parent = some y ∨ (h.object x).buffer = some y → y ≠ x := by
        intro y hy
        exact Nat.ne_of_lt (hc.links x ho y hy).2.1
      have hp : (h.object x).parent ≠ some x := fun heq => hne x (.inl heq) rfl
      have hb : (h.object x).buffer ≠ some x := fun heq => hne x (.inr heq) rfl
      have hk := kids_erase (h := h) ho x
      simp only [owed, if_neg hp, if_neg hb] at hk ⊢
      omega
    · have hxL : x ∉ L := fun hxL => hx ((hmem x).mpr ⟨hxo, hxL⟩)
      obtain ⟨hbase, hk, he⟩ := hc.gone x hxL
      have hp : (h.object o).parent ≠ some x := fun heq => hxL (hc.links o ho x (.inl heq)).1
      have hb : (h.object o).buffer ≠ some x := fun heq => hxL (hc.links o ho x (.inr heq)).1
      rw [howed x hxo] at he
      have hk' := kids_erase (h := h) ho x
      simp only [owed, if_neg hp, if_neg hb] at hk' ⊢
      omega

/-- What a cascade does that leaves `L'` of the objects in `L`. -/
structure Dropped (h h' : Heap) (L L' : List Nat) : Prop where
  shape : SameShape h h'
  sub : ∀ x ∈ L', x ∈ L
  known : ∀ x, x ∈ h'.known ↔ x ∈ h.known ∧ (x ∈ L → x ∈ L')

theorem Dropped.trans {h'' : Heap} {L'' : List Nat} (h₁ : Dropped h h' L L')
    (h₂ : Dropped h' h'' L' L'') : Dropped h h'' L L'' where
  shape := h₁.shape.trans h₂.shape
  sub x hx := h₁.sub x (h₂.sub x hx)
  known x := by
    have hsub₁ := h₁.sub x
    have hsub₂ := h₂.sub x
    rw [h₂.known, h₁.known]
    tauto

theorem dropped_dereference (h : Heap) (L : List Nat) (o : Nat) :
    Dropped h (h.dereference o) L L :=
  ⟨sameShape_dereference h o, fun _ hx => hx, fun _ => ⟨fun hx => ⟨hx, id⟩, And.left⟩⟩

/-- The object whose destructor is about to run, with the references that it will give back. -/
structure Dying (h : Heap) (L : List Nat) (E : Nat → Nat) (o : Nat) : Prop where
  counted : Counted h L (owed (owed E (h.object o).parent) (h.object o).buffer)
  known : o ∈ h.known
  out : o ∉ L
  links : ∀ y, (h.object o).parent = some y ∨ (h.object o).buffer = some y →
    y < o ∧ (h.object y).releaseParent = true
  parent : (h.object o).releaseParent = true ∨
    (h.object o).buffer = none ∧ ∀ p, (h.object o).parent = some p → 1 < (h.object p).references

/-- The same condition before the last reference goes. -/
theorem dying_of_counted (hc : Counted h L (owed E (some o))) (hr : (h.object o).references = 1)
    (hp : (h.object o).releaseParent = true ∨ (h.object o).buffer = none ∧
      ∀ p, (h.object o).parent = some p → 1 < (h.object p).references) :
    Dying (h.dereference o) (L.erase o) E o := by
  have hs := sameShape_dereference h o
  have ho := hc.mem_of_owed
  refine ⟨?_, hc.known o ho, hc.nodup.not_mem_erase, fun y hy => ?_, ?_⟩
  · rw [hs.parent, hs.buffer]
    exact counted_dying hc hr
  · rw [hs.parent, hs.buffer] at hy
    rw [hs.releaseParent]
    exact (hc.links o ho y hy).2
  · rw [hs.releaseParent, hs.parent, hs.buffer]
    refine hp.imp_right fun ⟨hb, hp⟩ => ⟨hb, fun p hpar => ?_⟩
    have hlt := (hc.links o ho p (.inl hpar)).2.1
    rw [references_dereference, if_neg (Nat.ne_of_lt hlt)]
    exact hp p hpar

/-- The destructor of `o` has given back its references: it leaves the list of known objects. -/
theorem counted_destroyed (hc : Counted h L E) (hk : o ∈ h.known) (ho : o ∉ L) :
    Counted { h with known := h.known.erase o, destroyed := h.destroyed ++ [o] } L E := by
  refine ⟨hc.nodup, fun x hx => ?_, hc.links, hc.counts, hc.gone, fun x => ?_⟩
  · have hne : x ≠ o := fun heq => ho (heq ▸ hx)
    exact (List.mem_erase_of_ne hne).mpr (hc.known x hx)
  · have honce := hc.once x
    have hpos := List.count_pos_iff.mpr hk
    simp only [List.count_append]
    by_cases hxo : x = o
    · subst hxo
      rw [List.count_erase_self, List.count_singleton_self]
      omega
    · rw [List.count_erase_of_ne hxo, List.count_singleton, if_neg (by simpa using Ne.symm hxo)]
      omega

theorem Counted.nodup_known (hc : Counted h L E) : h.known.Nodup := by
  rw [List.nodup_iff_count_le_one]
  intro x
  have := hc.once x
  split at this <;> omega

theorem dropped_destroyed (hc : Counted h' L' E) (hd : Dropped h h' L L') (ho : o ∉ L') :
    Dropped h { h' with known := h'.known.erase o, destroyed := h'.destroyed ++ [o] }
      (o :: L) L' := by
  refine ⟨⟨hd.shape.object, hd.shape.queued, hd.shape.taken, hd.shape.handles,
    hd.shape.holds⟩, fun x hx => List.mem_cons_of_mem o (hd.sub x hx), fun x => ?_⟩
  rw [hc.nodup_known.mem_erase_iff, hd.known, List.mem_cons]
  by_cases hxo : x = o
  · subst hxo
    tauto
  · tauto

/-- `o` and whatever its destructor took with it are gone. -/
def Deleted (h h' : Heap) (L : List Nat) (E : Nat → Nat) (o : Nat) : Prop :=
  ∃ L', Counted h' L' E ∧ (∀ x ∈ L', x ∈ L) ∧ Dropped h h' (o :: L) L'

/-- What one `dereference` does, with the deletion that may follow. -/
theorem counted_drop (hd : ∀ h, Dying h (L.erase o) E o → Deleted h (h.delete n o) (L.erase o) E o)
    (hc : Counted h L (owed E (some o)))
    (hp : (h.object o).releaseParent = true ∨ (h.object o).buffer = none ∧
      ∀ p, (h.object o).parent = some p → 1 < (h.object p).references) :
    ∃ L', Counted (if ((h.dereference o).object o).references = 0 then
        (h.dereference o).delete n o else h.dereference o) L' E ∧
      Dropped h (if ((h.dereference o).object o).references = 0 then
        (h.dereference o).delete n o else h.dereference o) L L' := by
  have ho := hc.mem_of_owed
  have hpos := (hc.counts o ho).2
  rw [references_dereference, if_pos rfl]
  split
  · obtain ⟨L', hc', hsub, hdrop⟩ := hd _ (dying_of_counted hc (by omega) hp)
    refine ⟨L', hc', (dropped_dereference h L o).trans ⟨hdrop.shape, fun x hx => ?_, fun x => ?_⟩⟩
    · exact List.mem_of_mem_erase (hsub x hx)
    · rw [hdrop.known]
      have hperm := (List.perm_cons_erase ho).mem_iff (a := x)
      rw [hperm]
  · exact ⟨L, counted_dereference hc (by omega), dropped_dereference h L o⟩

/-- `~SubBuffer`. -/
def Heap.releaseBuffer (n : Nat) (h : Heap) : Option Nat → Heap
  | none => h
  | some b =>
    if b ∈ h.known then
      if ((h.dereference b).object b).references = 0 then (h.dereference b).delete n b
      else h.dereference b
    else h

/-- `~Object`, up to its last line. -/
def Heap.releaseParent (n : Nat) (release : Bool) (h : Heap) : Option Nat → Heap
  | none => h
  | some p =>
    if ((h.dereference p).object p).references = 0 ∧ release then (h.dereference p).delete n p
    else h.dereference p

theorem delete_succ (n : Nat) (h : Heap) (o : Nat) :
    h.delete (n + 1) o =
      let h' := ((h.releaseBuffer n (h.object o).buffer).releaseParent n
        (h.object o).releaseParent (h.object o).parent)
      { h' with known := h'.known.erase o, destroyed := h'.destroyed ++ [o] } := by
  rw [Heap.delete]
  cases (h.object o).buffer <;> cases (h.object o).parent <;> rfl

section Cascade

-- the induction hypothesis: deleting an older object
variable (ih : ∀ {h : Heap} {L : List Nat} {E : Nat → Nat} {o : Nat}, o < n → Dying h L E o →
  Deleted h (h.delete n o) L E o)

include ih

theorem counted_releaseBuffer {b : Option Nat} (hc : Counted h L (owed E b))
    (hb : ∀ y, b = some y → y < n ∧ (h.object y).releaseParent = true) :
    ∃ L', Counted (h.releaseBuffer n b) L' E ∧ Dropped h (h.releaseBuffer n b) L L' := by
  cases b with
  | none => exact ⟨L, hc, .refl h, fun _ hx => hx, fun _ => ⟨fun hx => ⟨hx, id⟩, And.left⟩⟩
  | some b =>
    obtain ⟨hlt, hrel⟩ := hb b rfl
    simp only [Heap.releaseBuffer, if_pos (hc.known b hc.mem_of_owed)]
    exact counted_drop (fun _ => ih hlt) hc (.inl hrel)

theorem counted_releaseParent {p : Option Nat} {release : Bool} (hc : Counted h L (owed E p))
    (hb : ∀ y, p = some y → y < n ∧ (h.object y).releaseParent = true)
    (hr : release = true ∨ ∀ y, p = some y → 1 < (h.object y).references) :
    ∃ L', Counted (h.releaseParent n release p) L' E ∧
      Dropped h (h.releaseParent n release p) L L' := by
  cases p with
  | none => exact ⟨L, hc, .refl h, fun _ hx => hx, fun _ => ⟨fun hx => ⟨hx, id⟩, And.left⟩⟩
  | some p =>
    obtain ⟨hlt, hrel⟩ := hb p rfl
    rcases hr with rfl | hr
    · simp only [Heap.releaseParent, and_true]
      exact counted_drop (fun _ => ih hlt) hc (.inl hrel)
    · have hmany := hr p rfl
      have hne : ¬(((h.dereference p).object p).references = 0 ∧ release = true) := by
        rw [references_dereference, if_pos rfl]
        omega
      simp only [Heap.releaseParent, if_neg hne]
      exact ⟨L, counted_dereference hc hmany, dropped_dereference h L p⟩

end Cascade

/-- By induction on the depth: a parent and a buffer are older than the object. -/
theorem deleted_delete (n : Nat) {h : Heap} {L : List Nat} {E : Nat → Nat} {o : Nat} (hn : o < n)
    (hd : Dying h L E o) : Deleted h (h.delete n o) L E o := by
  induction n generalizing h L E o with
  | zero => omega
  | succ n ih =>
    rw [delete_succ]
    have hlt : ∀ y, (h.object o).parent = some y ∨ (h.object o).buffer = some y →
        y < n ∧ (h.object y).releaseParent = true := by
      intro y hy
      obtain ⟨hlt, hrel⟩ := hd.links y hy
      exact ⟨by omega, hrel⟩
    obtain ⟨L₁, hc₁, hd₁⟩ := counted_releaseBuffer ih hd.counted fun y hy => hlt y (.inr hy)
    have hrel : (h.object o).releaseParent = true ∨ ∀ y, (h.object o).parent = some y →
        1 < ((h.releaseBuffer n (h.object o).buffer).object y).references := by
      refine hd.parent.imp_right fun ⟨hb, hp⟩ => ?_
      rw [hb]
      exact hp
    obtain ⟨L₂, hc₂, hd₂⟩ := counted_releaseParent ih hc₁
      (fun y hy => by
        rw [hd₁.shape.releaseParent]
        exact hlt y (.inl hy)) hrel
    have hdrop := hd₁.trans hd₂
    have hout : o ∉ L₂ := fun ho => hd.out (hdrop.sub o ho)
    have hknown := (hdrop.known o).mpr ⟨hd.known, fun ho => absurd ho hd.out⟩
    exact ⟨L₂, counted_destroyed hc₂ hknown hout, hdrop.sub, dropped_destroyed hc₂ hdrop hout⟩

end Shamrock.Runtime
