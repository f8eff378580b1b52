import Shamrock.Runtime.Cascade

/-!
# Lifetimes in the object tree

Every step of the application, of the queues and of the commands keeps the count of every object,
as long as no event takes the last reference of its queue along once it may not delete it.
-/
namespace Shamrock.Runtime

open Transition

variable {h h' : Heap} {L L' : List Nat} {E E' : Nat → Nat} {o x y : Nat}

/-- Which objects can be parents and which can be told not to release theirs. -/
structure Typed (h : Heap) : Prop where
  parents : ∀ x ∈ h.known, ∀ y, (h.object x).parent = some y ∨ (h.object x).buffer = some y →
    (h.object y).type ≠ .event
  events : ∀ x ∈ h.known, (h.object x).type = .event → (h.object x).buffer = none
  flags : ∀ x ∈ h.known, (h.object x).releaseParent = false → (h.object x).type = .event
  queued : ∀ e, e ∈ h.queued ∨ e ∈ h.taken → (h.object e).type = .event

theorem typed_of_sub (ht : Typed h) (hk : ∀ x ∈ h'.known, x ∈ h.known)
    (htype : ∀ x, (h'.object x).type = (h.object x).type)
    (hparent : ∀ x, (h'.object x).parent = (h.object x).parent)
    (hbuffer : ∀ x, (h'.object x).buffer = (h.object x).buffer)
    (hflag : ∀ x, (h'.object x).releaseParent = false →
      (h.object x).releaseParent = false ∨ (h.object x).type = .event)
    (hq : ∀ e, e ∈ h'.queued ∨ e ∈ h'.taken → e ∈ h.queued ∨ e ∈ h.taken) : Typed h' where
  parents x hx y hy := by
    rw [hparent, hbuffer] at hy
    rw [htype]
    exact ht.parents x (hk x hx) y hy
  events x hx he := by
    rw [htype] at he
    rw [hbuffer]
    exact ht.events x (hk x hx) he
  flags x hx hr := by
    rw [htype]
    exact (hflag x hr).elim (ht.flags x (hk x hx)) id
  queued e he := by
    rw [htype]
    exact ht.queued e (hq e he)

theorem typed_of_dropped (ht : Typed h) (hd : Dropped h h' L L') : Typed h' := by
  refine typed_of_sub ht (fun x hx => ((hd.known x).mp hx).1) hd.shape.type hd.shape.parent
    hd.shape.buffer (fun x hr => ?_) (fun e he => ?_)
  · rw [hd.shape.releaseParent] at hr
    exact .inl hr
  · rwa [hd.shape.queued, hd.shape.taken] at he

/-- The state between two steps. -/
structure Settled (h : Heap) : Prop where
  counted : Counted h h.known fun _ => 0
  typed : Typed h

theorem counted_perm (hc : Counted h L E) (hp : L.Perm L') : Counted h L' E := by
  have hkids : ∀ x, h.kids L' x = h.kids L x := by
    intro x
    unfold Heap.kids
    rw [hp.countP_eq, hp.countP_eq]
  refine ⟨hp.nodup hc.nodup, fun x hx => hc.known x (hp.mem_iff.mpr hx), fun x hx y hy => ?_,
    fun x hx => ?_, fun x hx => ?_, hc.once⟩
  · obtain ⟨hy, hlt, hrel⟩ := hc.links x (hp.mem_iff.mpr hx) y hy
    exact ⟨hp.mem_iff.mp hy, hlt, hrel⟩
  · rw [hkids]
    exact hc.counts x (hp.mem_iff.mpr hx)
  · rw [hkids]
    exact hc.gone x fun hx' => hx (hp.mem_iff.mp hx')

/-- References move between the application, the lists of the queues and those underway. -/
theorem counted_base (hc : Counted h L E) (hobject : h'.object = h.object)
    (hknown : h'.known = h.known) (hdestroyed : h'.destroyed = h.destroyed)
    (hnext : h'.nextObject = h.nextObject)
    (hbase : ∀ x, h'.base x + E' x = h.base x + E x) : Counted h' L E' := by
  have hkids : ∀ x, h'.kids L x = h.kids L x := by
    intro x
    unfold Heap.kids
    rw [hobject]
  refine ⟨hc.nodup, fun x hx => ?_, fun x hx y hy => ?_, fun x hx => ?_, fun x hx => ?_,
    fun x => ?_⟩
  · rw [hknown]
    exact hc.known x hx
  · rw [hobject] at hy ⊢
    exact hc.links x hx y hy
  · have hb := hbase x
    obtain ⟨hcount, hpos⟩ := hc.counts x hx
    rw [hobject, hkids]
    exact ⟨by omega, hpos⟩
  · have hb := hbase x
    obtain ⟨hzero, hk, he⟩ := hc.gone x hx
    rw [hkids]
    exact ⟨by omega, hk, by omega⟩
  · rw [hknown, hdestroyed, hnext]
    exact hc.once x

theorem references_reference (h : Heap) (o x : Nat) :
    ((h.reference o).object x).references =
      if x = o then (h.object o).references + 1 else (h.object x).references := by
  by_cases hx : x = o
  · subst hx
    simp [Heap.reference, Heap.setObject]
  · simp [Heap.reference, Heap.setObject, hx]

theorem sameShape_reference (h : Heap) (o : Nat) : SameShape h (h.reference o) where
  object x := by
    by_cases hx : x = o
    · subst hx
      simp [Heap.reference, Heap.setObject]
    · simp [Heap.reference, Heap.setObject, hx]
  queued := rfl
  taken := rfl
  handles := rfl
  holds := rfl

theorem counted_reference (hc : Counted h L E) (ho : o ∈ L) :
    Counted (h.reference o) L (owed E (some o)) := by
  have hs := sameShape_reference h o
  refine ⟨hc.nodup, hc.known, fun x hx y hy => ?_, fun x hx => ?_, fun x hx => ?_, hc.once⟩
  · rw [hs.parent, hs.buffer] at hy
    rw [hs.releaseParent]
    exact hc.links x hx y hy
  · obtain ⟨hcount, hpos⟩ := hc.counts x hx
    rw [references_reference, hs.base, hs.kids]
    by_cases hxo : x = o
    · subst hxo
      simp only [owed, if_true]
      omega
    · rw [if_neg hxo, owed, if_neg fun heq => hxo (Option.some.inj heq).symm]
      exact ⟨hcount, hpos⟩
  · obtain ⟨hb, hk, he⟩ := hc.gone x hx
    have hxo : x ≠ o := fun hxo => hx (hxo ▸ ho)
    rw [hs.base, hs.kids, owed, if_neg fun heq => hxo (Option.some.inj heq).symm]
    exact ⟨hb, hk, he⟩

/-- The constructor of `Object`, once the parent and the buffer have been referenced. -/
def Heap.born (h : Heap) (type : ObjectType) (parent buffer : Option Nat) : Heap :=
  { h.setObject h.nextObject ⟨type, parent, buffer, 1, true⟩ with
    known := h.nextObject :: h.known
    nextObject := h.nextObject + 1 }

theorem born_object_ne {type : ObjectType} {p b : Option Nat} (hx : x ≠ h.nextObject) :
    (h.born type p b).object x = h.object x := by
  simp [Heap.born, Heap.setObject, hx]

theorem born_object_self {type : ObjectType} {p b : Option Nat} :
    (h.born type p b).object h.nextObject = ⟨type, p, b, 1, true⟩ := by
  simp [Heap.born, Heap.setObject]

theorem Counted.lt_nextObject (hc : Counted h L E) (hx : x ∈ L) : x < h.nextObject := by
  have honce := hc.once x
  have hpos := List.count_pos_iff.mpr (hc.known x hx)
  split at honce
  · assumption
  · omega

theorem kids_born {type : ObjectType} {p b : Option Nat} (hc : Counted h L E) (x : Nat) :
    (h.born type p b).kids (h.nextObject :: L) x = h.kids L x +
      (if p = some x then 1 else 0) + if b = some x then 1 else 0 := by
  have hsame : ∀ y ∈ L, (h.born type p b).object y = h.object y := by
    intro y hy
    exact born_object_ne (Nat.ne_of_lt (hc.lt_nextObject hy))
  have hparent : L.countP (fun y => ((h.born type p b).object y).parent = some x) =
      L.countP (fun y => (h.object y).parent = some x) :=
    List.countP_congr fun y hy => by rw [hsame y hy]
  have hbuffer : L.countP (fun y => ((h.born type p b).object y).buffer = some x) =
      L.countP (fun y => (h.object y).buffer = some x) :=
    List.countP_congr fun y hy => by rw [hsame y hy]
  unfold Heap.kids
  rw [List.countP_cons, List.countP_cons, hparent, hbuffer, born_object_self]
  simp only [decide_eq_true_eq]
  omega

theorem counted_born {type : ObjectType} {p b : Option Nat}
    (hc : Counted h L (owed (owed E p) b))
    (hlinks : ∀ y, p = some y ∨ b = some y → y ∈ L ∧ (h.object y).releaseParent = true) :
    Counted (h.born type p b) (h.nextObject :: L) (owed E (some h.nextObject)) := by
  have hnext : h.nextObject ∉ L := fun hx => Nat.lt_irrefl _ (hc.lt_nextObject hx)
  obtain ⟨hbase, hkids, howed⟩ := hc.gone _ hnext
  have hne : ∀ y, p = some y ∨ b = some y → y ≠ h.nextObject := by
    intro y hy
    exact Nat.ne_of_lt (hc.lt_nextObject (hlinks y hy).1)
  have hE : ∀ x, x ≠ h.nextObject → owed E (some h.nextObject) x = E x := by
    intro x hx
    exact if_neg fun heq => hx (Option.some.inj heq).symm
  have hp : p ≠ some h.nextObject := fun heq => hne _ (.inl heq) rfl
  have hb : b ≠ some h.nextObject := fun heq => hne _ (.inr heq) rfl
  simp only [owed, if_neg hp, if_neg hb] at howed
  refine ⟨List.nodup_cons.mpr ⟨hnext, hc.nodup⟩, fun x hx => ?_, fun x hx y hy => ?_,
    fun x hx => ?_, fun x hx => ?_, fun x => ?_⟩
  · exact (List.mem_cons.mp hx).elim (fun heq => heq ▸ List.mem_cons_self)
      fun hx => List.mem_cons_of_mem _ (hc.known x hx)
  · rcases List.mem_cons.mp hx with rfl | hx
    · rw [born_object_self] at hy
      obtain ⟨hyL, hrel⟩ := hlinks y hy
      rw [born_object_ne (hne y hy)]
      exact ⟨List.mem_cons_of_mem _ hyL, hc.lt_nextObject hyL, hrel⟩
    · rw [born_object_ne (Nat.ne_of_lt (hc.lt_nextObject hx))] at hy
      obtain ⟨hyL, hlt, hrel⟩ := hc.links x hx y hy
      rw [born_object_ne (Nat.ne_of_lt (hc.lt_nextObject hyL))]
      exact ⟨List.mem_cons_of_mem _ hyL, hlt, hrel⟩
  · rw [kids_born hc]
    change _ = h.base x + _ + _ ∧ _
    rcases List.mem_cons.mp hx with rfl | hx
    · rw [born_object_self, if_neg hp, if_neg hb]
      simp only [owed, if_true]
      omega
    · have hxn := Nat.ne_of_lt (hc.lt_nextObject hx)
      obtain ⟨hcount, hpos⟩ := hc.counts x hx
      rw [born_object_ne hxn, hE x hxn]
      refine ⟨?_, hpos⟩
      unfold owed at hcount
      split at hcount <;> split at hcount <;> simp_all <;> omega
  · rw [List.mem_cons, not_or] at hx
    obtain ⟨hzero, hk, he⟩ := hc.gone x hx.2
    have hpx : p ≠ some x := fun heq => hx.2 (hlinks x (.inl heq)).1
    have hbx : b ≠ some x := fun heq => hx.2 (hlinks x (.inr heq)).1
    simp only [owed, if_neg hpx, if_neg hbx] at he
    rw [kids_born hc, if_neg hpx, if_neg hbx, hE x hx.1]
    exact ⟨hzero, hk, he⟩
  · have honce := hc.once x
    change (h.nextObject :: h.known).count x + h.destroyed.count x =
      if x < h.nextObject + 1 then 1 else 0
    by_cases hxn : x = h.nextObject
    · subst hxn
      rw [if_neg (Nat.lt_irrefl _)] at honce
      rw [List.count_cons_self, if_pos (Nat.lt_succ_self _)]
      omega
    · rw [List.count_cons_of_ne (Ne.symm hxn)]
      split at honce <;> split <;> omega

def Heap.referenceOption (h : Heap) : Option Nat → Heap
  | none => h
  | some o => h.reference o

theorem create_eq (h : Heap) (type : ObjectType) (p b : Option Nat) :
    h.create type p b = ((h.referenceOption p).referenceOption b).born type p b := by
  cases p <;> cases b <;> rfl

theorem sameShape_referenceOption (h : Heap) (p : Option Nat) :
    SameShape h (h.referenceOption p) := by
  cases p with
  | none => exact .refl h
  | some o => exact sameShape_reference h o

theorem counted_referenceOption {p : Option Nat} (hc : Counted h L E)
    (hp : ∀ y, p = some y → y ∈ L) : Counted (h.referenceOption p) L (owed E p) := by
  cases p with
  | none => exact hc
  | some o => exact counted_reference hc (hp o rfl)

theorem known_referenceOption (h : Heap) (p : Option Nat) :
    (h.referenceOption p).known = h.known := by
  cases p <;> rfl

theorem nextObject_referenceOption (h : Heap) (p : Option Nat) :
    (h.referenceOption p).nextObject = h.nextObject := by
  cases p <;> rfl

/-- A parent and a buffer that a new object may get. -/
def Heap.CanHold (h : Heap) (y : Nat) : Prop := y ∈ h.known ∧ (h.object y).type ≠ .event

theorem Typed.releaseParent (ht : Typed h) (hy : h.CanHold y) :
    (h.object y).releaseParent = true := by
  cases hr : (h.object y).releaseParent with
  | false => exact absurd (ht.flags y hy.1 hr) hy.2
  | true => rfl

variable {type : ObjectType} {p b : Option Nat}

theorem counted_create (hs : Settled h) (hl : ∀ y, p = some y ∨ b = some y → h.CanHold y) :
    Counted (h.create type p b) (h.create type p b).known
      (owed (fun _ => 0) (some h.nextObject)) := by
  have hshape := (sameShape_referenceOption h p).trans (sameShape_referenceOption _ b)
  have hc := counted_referenceOption (p := b)
    (counted_referenceOption (p := p) hs.counted fun y hy => (hl y (.inl hy)).1)
    fun y hy => (hl y (.inr hy)).1
  have hlinks : ∀ y, p = some y ∨ b = some y → y ∈ h.known ∧
      (((h.referenceOption p).referenceOption b).object y).releaseParent = true := by
    intro y hy
    rw [hshape.releaseParent]
    exact ⟨(hl y hy).1, hs.typed.releaseParent (hl y hy)⟩
  have hborn : Counted (((h.referenceOption p).referenceOption b).born type p b) _ _ :=
    counted_born hc hlinks
  rw [create_eq]
  simp only [Heap.born, known_referenceOption, nextObject_referenceOption] at hborn ⊢
  exact hborn

theorem create_object_self :
    (h.create type p b).object h.nextObject = ⟨type, p, b, 1, true⟩ := by
  simp [Heap.create, Heap.setObject]

theorem create_object_ne (hx : x ≠ h.nextObject) : (h.create type p b).object x =
    { h.object x with references := ((h.create type p b).object x).references } := by
  have hshape := (sameShape_referenceOption h p).trans (sameShape_referenceOption _ b)
  have hn : x ≠ ((h.referenceOption p).referenceOption b).nextObject := by
    rwa [nextObject_referenceOption, nextObject_referenceOption]
  rw [create_eq, born_object_ne hn]
  exact hshape.object x

theorem create_known : (h.create type p b).known = h.nextObject :: h.known := rfl

theorem create_queued : (h.create type p b).queued = h.queued := by
  cases p <;> cases b <;> rfl

theorem create_taken : (h.create type p b).taken = h.taken := by
  cases p <;> cases b <;> rfl

theorem create_handles : (h.create type p b).handles = h.handles := by
  cases p <;> cases b <;> rfl

theorem Settled.known_of_base (hs : Settled h) (hb : 0 < h.base x) : x ∈ h.known := by
  by_contra hx
  have := (hs.counted.gone x hx).1
  omega

theorem typed_create (hs : Settled h) (hl : ∀ y, p = some y ∨ b = some y → h.CanHold y)
    (hb : type = .event → b = none) : Typed (h.create type p b) := by
  have hlt : ∀ x ∈ h.known, x ≠ h.nextObject := by
    intro x hx
    exact Nat.ne_of_lt (hs.counted.lt_nextObject hx)
  have hlinks : ∀ x ∈ h.known, ∀ y, (h.object x).parent = some y ∨ (h.object x).buffer = some y →
      y ∈ h.known := by
    intro x hx y hy
    exact (hs.counted.links x hx y hy).1
  refine ⟨fun x hx y hy => ?_, fun x hx he => ?_, fun x hx hr => ?_, fun e he => ?_⟩
  · rw [create_known] at hx
    rcases List.mem_cons.mp hx with rfl | hx
    · rw [create_object_self] at hy
      rw [create_object_ne (hlt y (hl y hy).1)]
      exact (hl y hy).2
    · rw [create_object_ne (hlt x hx)] at hy
      rw [create_object_ne (hlt y (hlinks x hx y hy))]
      exact hs.typed.parents x hx y hy
  · rw [create_known] at hx
    rcases List.mem_cons.mp hx with rfl | hx
    · rw [create_object_self] at he ⊢
      exact hb he
    · rw [create_object_ne (hlt x hx)] at he ⊢
      exact hs.typed.events x hx he
  · rw [create_known] at hx
    rcases List.mem_cons.mp hx with rfl | hx
    · rw [create_object_self] at hr
      cases hr
    · rw [create_object_ne (hlt x hx)] at hr ⊢
      exact hs.typed.flags x hx hr
  · rw [create_queued, create_taken] at he
    have hbase : 0 < h.base e := by
      unfold Heap.base
      rcases he with he | he
      · have := List.count_pos_iff.mpr he
        omega
      · have := List.count_pos_iff.mpr he
        omega
    rw [create_object_ne (hlt e (hs.known_of_base hbase))]
    exact hs.typed.queued e he

/-- The last reference on `o` is also the last on its parent. -/
def Heap.Stranding (h : Heap) (o : Nat) : Prop :=
  (h.object o).references = 1 ∧ ∃ p, (h.object o).parent = some p ∧ (h.object p).references = 1

instance (h : Heap) (o : Nat) : Decidable (h.Stranding o) :=
  match hp : (h.object o).parent with
  | none => .isFalse fun ⟨_, _, hp', _⟩ => by simp [hp] at hp'
  | some p => decidable_of_iff
    ((h.object o).references = 1 ∧ (h.object p).references = 1)
    ⟨fun ⟨h₁, h₂⟩ => ⟨h₁, p, hp, h₂⟩,
      fun ⟨h₁, p', hp', h₂⟩ => ⟨h₁, Option.some.inj (hp.symm.trans hp') ▸ h₂⟩⟩

theorem settled_of_dropped (ht : Typed h) (hc : Counted h' L' fun _ => 0)
    (hd : Dropped h h' h.known L') : Settled h' := by
  refine ⟨counted_perm hc ?_, typed_of_dropped ht hd⟩
  rw [List.perm_ext_iff_of_nodup hc.nodup hc.nodup_known]
  intro x
  rw [hd.known]
  exact ⟨fun hx => ⟨hd.sub x hx, fun _ => hx⟩, fun hx => hx.2 hx.1⟩

theorem settled_release (hc : Counted h h.known (owed (fun _ => 0) (some o))) (ht : Typed h)
    (hg : (h.object o).releaseParent = false → ¬h.Stranding o) : Settled (h.release o) := by
  have ho := hc.mem_of_owed
  have hpos := (hc.counts o ho).2
  unfold Heap.release
  rw [if_pos ho]
  have hp : (h.object o).references = 1 → (h.object o).releaseParent = true ∨
      (h.object o).buffer = none ∧ ∀ p, (h.object o).parent = some p →
        1 < (h.object p).references := by
    intro hone
    cases hr : (h.object o).releaseParent with
    | true => exact .inl rfl
    | false =>
      refine .inr ⟨ht.events o ho (ht.flags o ho hr), fun p hpar => ?_⟩
      have hppos := (hc.counts p (hc.links o ho p (.inl hpar)).1).2
      have hne : (h.object p).references ≠ 1 := fun heq => hg hr ⟨hone, p, hpar, heq⟩
      omega
  by_cases hone : (h.object o).references = 1
  · obtain ⟨L', hc', hd⟩ := counted_drop (n := o + 1)
      (fun _ hdying => deleted_delete (o + 1) (Nat.lt_succ_self o) hdying) hc (hp hone)
    exact settled_of_dropped ht hc' hd
  · have hne : ¬((h.dereference o).object o).references = 0 := by
      rw [references_dereference, if_pos rfl]
      omega
    rw [if_neg hne]
    exact settled_of_dropped ht (counted_dereference hc (by omega)) (dropped_dereference h _ o)

theorem base_setHandles (h : Heap) (o n x : Nat) : (h.setHandles o n).base x +
    (if x = o then h.handles o else 0) = h.base x + if x = o then n else 0 := by
  by_cases hx : x = o
  · subst hx
    simp only [Heap.setHandles, Heap.base, Function.update_self, if_true]
    omega
  · simp [Heap.setHandles, Heap.base, hx]

theorem base_setHolds (h : Heap) (o n x : Nat) : (h.setHolds o n).base x +
    (if x = o then h.holds o else 0) = h.base x + if x = o then n else 0 := by
  by_cases hx : x = o
  · subst hx
    simp only [Heap.setHolds, Heap.base, Function.update_self, if_true]
    omega
  · simp [Heap.setHolds, Heap.base, hx]

theorem count_erase_mem {l : List Nat} (ho : o ∈ l) (x : Nat) :
    (l.erase o).count x + (if x = o then 1 else 0) = l.count x := by
  have hpos := List.count_pos_iff.mpr ho
  by_cases hx : x = o
  · subst hx
    rw [List.count_erase_self, if_pos rfl]
    omega
  · rw [List.count_erase_of_ne hx, if_neg hx, Nat.add_zero]

theorem owed_apply (E : Nat → Nat) (o x : Nat) :
    owed E (some o) x = E x + if x = o then 1 else 0 := by
  unfold owed
  by_cases hx : x = o
  · simp [hx]
  · simp [hx, Ne.symm hx]

/-- The reference that is underway has found its owner. -/
theorem settled_of_base (hc : Counted h h.known E) (ht : Typed h) (hobject : h'.object = h.object)
    (hknown : h'.known = h.known) (hdestroyed : h'.destroyed = h.destroyed)
    (hnext : h'.nextObject = h.nextObject)
    (hq : ∀ e, e ∈ h'.queued ∨ e ∈ h'.taken → (h.object e).type = .event)
    (hbase : ∀ x, h'.base x = h.base x + E x) : Settled h' where
  counted := by
    rw [hknown]
    exact counted_base hc hobject hknown hdestroyed hnext hbase
  typed := by
    refine ⟨?_, ?_, ?_, ?_⟩ <;> rw [hobject]
    · rw [hknown]
      exact ht.parents
    · rw [hknown]
      exact ht.events
    · rw [hknown]
      exact ht.flags
    · exact hq

theorem Settled.fresh (hs : Settled h) : h.base h.nextObject = 0 :=
  (hs.counted.gone h.nextObject fun hx => Nat.lt_irrefl _ (hs.counted.lt_nextObject hx)).1

/-- The application is given the reference of the constructor. -/
theorem settled_create (hs : Settled h) (hl : ∀ y, p = some y ∨ b = some y → h.CanHold y)
    (hb : type = .event → b = none) :
    Settled ((h.create type p b).setHandles h.nextObject 1) := by
  have ht : Typed (h.create type p b) := typed_create hs hl hb
  refine settled_of_base (counted_create hs hl) ht rfl rfl rfl rfl ht.queued fun x => ?_
  have hbase := base_setHandles (h.create type p b) h.nextObject 1 x
  have hfresh := hs.fresh
  unfold Heap.base at hfresh
  have hnew : h.handles h.nextObject = 0 := by omega
  rw [create_handles, hnew, ite_self] at hbase
  rw [owed_apply]
  omega

/-- The list of the queue is given the reference of the constructor. -/
theorem settled_queued {q : Nat} (hs : Settled h) (hq : h.CanHold q) :
    Settled { h.create .event (some q) none with
      queued := (h.create .event (some q) none).queued ++ [h.nextObject] } := by
  have hl : ∀ y, some q = some y ∨ none = some y → h.CanHold y := by
    rintro y (heq | heq)
    · exact Option.some.inj heq ▸ hq
    · cases heq
  have ht : Typed (h.create .event (some q) none) := typed_create hs hl fun _ => rfl
  refine settled_of_base (counted_create hs hl) ht rfl rfl rfl rfl (fun e he => ?_) fun x => ?_
  · rw [List.mem_append, List.mem_singleton] at he
    rcases he with (he | rfl) | he
    · exact ht.queued e (.inl he)
    · rw [create_object_self]
    · exact ht.queued e (.inr he)
  · rw [owed_apply]
    simp only [Heap.base, List.count_append, List.count_singleton, beq_iff_eq,
      eq_comm (a := h.nextObject)]
    omega

theorem Settled.mem_of_handles (hs : Settled h) (ho : 0 < h.handles o) : o ∈ h.known :=
  hs.known_of_base (by unfold Heap.base; omega)

theorem Settled.mem_of_holds (hs : Settled h) (ho : 0 < h.holds o) : o ∈ h.known :=
  hs.known_of_base (by unfold Heap.base; omega)

theorem typed_reference (ht : Typed h) (o : Nat) : Typed (h.reference o) := by
  have hsh := sameShape_reference h o
  exact typed_of_sub ht (fun _ hx => hx) hsh.type hsh.parent hsh.buffer
    (fun x hr => .inl (hsh.releaseParent x ▸ hr)) (fun _ he => he)

theorem settled_retain (hs : Settled h) (ho : o ∈ h.known) :
    Settled ((h.reference o).setHandles o (h.handles o + 1)) := by
  have ht := typed_reference hs.typed o
  refine settled_of_base (counted_reference hs.counted ho) ht rfl rfl rfl rfl ht.queued
    fun x => ?_
  have hbase := base_setHandles (h.reference o) o (h.handles o + 1) x
  rw [(sameShape_reference h o).handles] at hbase
  rw [owed_apply]
  by_cases hx : x = o
  · simp only [if_pos hx] at hbase ⊢
    omega
  · simp only [if_neg hx] at hbase ⊢
    omega

theorem settled_hold (hs : Settled h) (ho : o ∈ h.known) :
    Settled ((h.reference o).setHolds o (h.holds o + 1)) := by
  have ht := typed_reference hs.typed o
  refine settled_of_base (counted_reference hs.counted ho) ht rfl rfl rfl rfl ht.queued
    fun x => ?_
  have hbase := base_setHolds (h.reference o) o (h.holds o + 1) x
  rw [(sameShape_reference h o).holds] at hbase
  rw [owed_apply]
  by_cases hx : x = o
  · simp only [if_pos hx] at hbase ⊢
    omega
  · simp only [if_neg hx] at hbase ⊢
    omega

theorem base_giveHandle (ho : 0 < h.handles o) (x : Nat) :
    (h.setHandles o (h.handles o - 1)).base x + (if x = o then 1 else 0) = h.base x := by
  have hbase := base_setHandles h o (h.handles o - 1) x
  by_cases hx : x = o
  · simp only [if_pos hx] at hbase ⊢
    omega
  · simp only [if_neg hx] at hbase ⊢
    omega

theorem base_giveHold (ho : 0 < h.holds o) (x : Nat) :
    (h.setHolds o (h.holds o - 1)).base x + (if x = o then 1 else 0) = h.base x := by
  have hbase := base_setHolds h o (h.holds o - 1) x
  by_cases hx : x = o
  · simp only [if_pos hx] at hbase ⊢
    omega
  · simp only [if_neg hx] at hbase ⊢
    omega

/-- An owner is about to give its reference back. -/
theorem counted_giving (hs : Settled h) (hobject : h'.object = h.object)
    (hknown : h'.known = h.known) (hdestroyed : h'.destroyed = h.destroyed)
    (hnext : h'.nextObject = h.nextObject)
    (hbase : ∀ x, h'.base x + (if x = o then 1 else 0) = h.base x) :
    Counted h' h'.known (owed (fun _ => 0) (some o)) := by
  rw [hknown]
  refine counted_base hs.counted hobject hknown hdestroyed hnext fun x => ?_
  rw [owed_apply, Nat.zero_add]
  exact hbase x

theorem settled_giveHandle (hs : Settled h) (ho : 0 < h.handles o)
    (hg : (h.object o).releaseParent = false → ¬h.Stranding o) :
    Settled ((h.setHandles o (h.handles o - 1)).release o) :=
  settled_release (counted_giving hs rfl rfl rfl rfl (base_giveHandle ho))
    (typed_of_sub hs.typed (fun _ hx => hx) (fun _ => rfl) (fun _ => rfl) (fun _ => rfl)
      (fun _ hr => .inl hr) fun _ he => he) hg

theorem settled_giveHold (hs : Settled h) (ho : 0 < h.holds o)
    (hg : (h.object o).releaseParent = false → ¬h.Stranding o) :
    Settled ((h.setHolds o (h.holds o - 1)).release o) :=
  settled_release (counted_giving hs rfl rfl rfl rfl (base_giveHold ho))
    (typed_of_sub hs.typed (fun _ hx => hx) (fun _ => rfl) (fun _ => rfl) (fun _ => rfl)
      (fun _ hr => .inl hr) fun _ he => he) hg

theorem settled_dereference (hs : Settled h) (ho : 0 < h.holds o)
    (hg : (h.object o).references ≠ 1) :
    Settled ((h.setHolds o (h.holds o - 1)).dereference o) := by
  have hc : Counted (h.setHolds o (h.holds o - 1)) h.known (owed (fun _ => 0) (some o)) :=
    counted_giving hs rfl rfl rfl rfl (base_giveHold ho)
  have hpos := (hs.counted.counts o (hs.mem_of_holds ho)).2
  have hmany : 1 < (h.object o).references := by omega
  have ht : Typed (h.setHolds o (h.holds o - 1)) :=
    typed_of_sub hs.typed (fun _ hx => hx) (fun _ => rfl) (fun _ => rfl) (fun _ => rfl)
      (fun _ hr => .inl hr) fun _ he => he
  exact settled_of_dropped ht (counted_dereference hc hmany) (dropped_dereference _ _ o)

theorem settled_releaseTaken (hs : Settled h) (ho : o ∈ h.taken)
    (hg : (h.object o).releaseParent = false → ¬h.Stranding o) :
    Settled ({ h with taken := h.taken.erase o }.release o) := by
  refine settled_release (counted_giving hs rfl rfl rfl rfl fun x => ?_)
    (typed_of_sub hs.typed (fun _ hx => hx) (fun _ => rfl) (fun _ => rfl) (fun _ => rfl)
      (fun _ hr => .inl hr) fun e he => he.imp_right List.mem_of_mem_erase) hg
  have := count_erase_mem ho x
  simp only [Heap.base]
  omega

theorem settled_take (hs : Settled h) (ho : o ∈ h.queued) :
    Settled { h with queued := h.queued.erase o, taken := h.taken ++ [o] } := by
  refine settled_of_base hs.counted hs.typed rfl rfl rfl rfl (fun e he => ?_) fun x => ?_
  · rw [List.mem_append, List.mem_singleton] at he
    rcases he with he | he | rfl
    · exact hs.typed.queued e (.inl (List.mem_of_mem_erase he))
    · exact hs.typed.queued e (.inr he)
    · exact hs.typed.queued e (.inl ho)
  · have := count_erase_mem ho x
    simp only [Heap.base, List.count_append, List.count_singleton, beq_iff_eq, eq_comm (a := o)]
    omega

/-- No object has an event as its parent, so that the flag of an event may change. -/
theorem settled_setReleaseParent (hs : Settled h) (ho : (h.object o).type = .event) :
    Settled (h.setReleaseParent o false) := by
  have hfield : ∀ x, ((h.setReleaseParent o false).object x).type = (h.object x).type ∧
      ((h.setReleaseParent o false).object x).parent = (h.object x).parent ∧
      ((h.setReleaseParent o false).object x).buffer = (h.object x).buffer ∧
      ((h.setReleaseParent o false).object x).references = (h.object x).references := by
    intro x
    by_cases hx : x = o
    · subst hx
      simp [Heap.setReleaseParent, Heap.setObject]
    · simp [Heap.setReleaseParent, Heap.setObject, hx]
  have hflag : ∀ x, x ≠ o → ((h.setReleaseParent o false).object x).releaseParent =
      (h.object x).releaseParent := by
    intro x hx
    simp [Heap.setReleaseParent, Heap.setObject, hx]
  have hkids : ∀ L x, (h.setReleaseParent o false).kids L x = h.kids L x := by
    intro L x
    unfold Heap.kids
    simp only [(hfield _).2.1, (hfield _).2.2.1]
  refine ⟨⟨hs.counted.nodup, hs.counted.known, fun x hx y hy => ?_, fun x hx => ?_,
    fun x hx => ?_, hs.counted.once⟩, typed_of_sub hs.typed (fun _ hx => hx)
      (fun x => (hfield x).1) (fun x => (hfield x).2.1) (fun x => (hfield x).2.2.1)
      (fun x hr => ?_) fun _ he => he⟩
  · rw [(hfield x).2.1, (hfield x).2.2.1] at hy
    have hne : y ≠ o := fun heq => hs.typed.parents x hx y hy (heq ▸ ho)
    rw [hflag y hne]
    exact hs.counted.links x hx y hy
  · rw [(hfield x).2.2.2, hkids]
    exact hs.counted.counts x hx
  · rw [hkids]
    exact hs.counted.gone x hx
  · by_cases hx : x = o
    · exact .inr (hx ▸ ho)
    · rw [hflag x hx] at hr
      exact .inl hr

theorem settled_erase (hs : Settled h) (ho : o ∈ h.queued) (hg : ¬h.Stranding o) :
    Settled (({ h with queued := h.queued.erase o }.setReleaseParent o false).release o) := by
  have hflag := settled_setReleaseParent hs (hs.typed.queued o (.inl ho))
  have hobject : ∀ x, ((h.setReleaseParent o false).object x).parent = (h.object x).parent ∧
      ((h.setReleaseParent o false).object x).references = (h.object x).references := by
    intro x
    by_cases hx : x = o
    · subst hx
      simp [Heap.setReleaseParent, Heap.setObject]
    · simp [Heap.setReleaseParent, Heap.setObject, hx]
  refine settled_release (counted_giving hflag rfl rfl rfl rfl fun x => ?_)
    (typed_of_sub hflag.typed (fun _ hx => hx) (fun _ => rfl) (fun _ => rfl) (fun _ => rfl)
      (fun _ hr => .inl hr) fun e he => he.imp_left List.mem_of_mem_erase) fun _ hst => hg ?_
  · have := count_erase_mem ho x
    simp only [Heap.base, Heap.setReleaseParent, Heap.setObject]
    omega
  · obtain ⟨hone, p, hp, hpone⟩ := hst
    change ((h.setReleaseParent o false).object o).references = 1 at hone
    change ((h.setReleaseParent o false).object o).parent = some p at hp
    change ((h.setReleaseParent o false).object p).references = 1 at hpone
    rw [(hobject _).2] at hone hpone
    rw [(hobject _).1] at hp
    exact ⟨hone, p, hp, hpone⟩

/-- What no step may do: an event that may not delete its queue takes the last reference of the
queue along, or a last reference is given back by `dereference` alone. -/
def Heap.KeepsParents (h : Heap) : HeapAction → Prop
  | .release o | .unhold o | .releaseTaken o =>
    (h.object o).releaseParent = false → ¬h.Stranding o
  | .erase e => ¬h.Stranding e
  | .dereference o => (h.object o).references ≠ 1
  | _ => True

instance (h : Heap) : DecidablePred h.KeepsParents
  | .release o | .unhold o | .releaseTaken o =>
    inferInstanceAs (Decidable ((h.object o).releaseParent = false → ¬h.Stranding o))
  | .erase e => inferInstanceAs (Decidable (¬h.Stranding e))
  | .dereference o => inferInstanceAs (Decidable ((h.object o).references ≠ 1))
  | .createContext | .createCommandQueue _ | .createUserEvent | .createBuffer _
  | .createSubBuffer _ | .enqueue _ _ | .retain _ | .take _ | .hold _ | .cleanEvents _ =>
    .isTrue trivial

theorem Settled.canHold (hs : Settled h) (ho : 0 < h.handles o)
    (ht : (h.object o).type ≠ .event) : h.CanHold o :=
  ⟨hs.mem_of_handles ho, ht⟩

theorem settled_step {a : HeapAction} (hs : Settled h) (hg : h.KeepsParents a)
    (hstep : h.step a = some h') : Settled h' := by
  cases a with
  | createContext =>
    cases hstep
    exact settled_create hs (by simp) (by simp)
  | createUserEvent =>
    cases hstep
    exact settled_create hs (by simp) (by simp)
  | createCommandQueue c =>
    obtain ⟨⟨hc, htype⟩, ⟨⟩⟩ := Option.ite_none_right_eq_some.mp hstep
    have hhold := hs.canHold hc (by simp [htype])
    exact settled_create hs (by simpa using hhold) (by simp)
  | createBuffer c =>
    obtain ⟨⟨hc, htype⟩, ⟨⟩⟩ := Option.ite_none_right_eq_some.mp hstep
    have hhold := hs.canHold hc (by simp [htype])
    exact settled_create hs (by simpa using hhold) (by simp)
  | createSubBuffer b =>
    obtain ⟨⟨hb, htype, -⟩, ⟨⟩⟩ := Option.ite_none_right_eq_some.mp hstep
    have hhold := hs.canHold hb (by simp [htype])
    refine settled_create hs ?_ (by simp)
    rintro y (hy | hy)
    · exact ⟨(hs.counted.links b hhold.1 y (.inl hy)).1, hs.typed.parents b hhold.1 y (.inl hy)⟩
    · exact Option.some.inj hy ▸ hhold
  | enqueue q event =>
    obtain ⟨⟨hq, htype⟩, hh⟩ := Option.ite_none_right_eq_some.mp hstep
    have hqueued := settled_queued hs (hs.canHold hq (by simp [htype]))
    cases event with
    | false =>
      cases hh
      exact hqueued
    | true =>
      have hnew : h.handles h.nextObject = 0 := by
        have hfresh := hs.fresh
        unfold Heap.base at hfresh
        omega
      have hretain := settled_retain hqueued (o := h.nextObject) List.mem_cons_self
      cases hh
      rwa [create_handles, hnew] at hretain
  | retain o =>
    obtain ⟨ho, ⟨⟩⟩ := Option.ite_none_right_eq_some.mp hstep
    exact settled_retain hs (hs.mem_of_handles ho)
  | release o =>
    obtain ⟨ho, ⟨⟩⟩ := Option.ite_none_right_eq_some.mp hstep
    exact settled_giveHandle hs ho hg
  | erase e =>
    obtain ⟨he, ⟨⟩⟩ := Option.ite_none_right_eq_some.mp hstep
    exact settled_erase hs he hg
  | take e =>
    obtain ⟨he, ⟨⟩⟩ := Option.ite_none_right_eq_some.mp hstep
    exact settled_take hs he
  | releaseTaken e =>
    obtain ⟨he, ⟨⟩⟩ := Option.ite_none_right_eq_some.mp hstep
    exact settled_releaseTaken hs he hg
  | hold o =>
    obtain ⟨ho, ⟨⟩⟩ := Option.ite_none_right_eq_some.mp hstep
    exact settled_hold hs ho
  | unhold o =>
    obtain ⟨ho, ⟨⟩⟩ := Option.ite_none_right_eq_some.mp hstep
    exact settled_giveHold hs ho hg
  | dereference o =>
    obtain ⟨ho, ⟨⟩⟩ := Option.ite_none_right_eq_some.mp hstep
    exact settled_dereference hs ho hg
  | cleanEvents q =>
    -- a known queue has a reference, so that the last lines do nothing
    have hno : ¬(q ∈ h.known ∧ (h.object q).references = 0) := by
      rintro ⟨hq, hzero⟩
      have := (hs.counted.counts q hq).2
      omega
    simp only [Heap.step, if_neg hno] at hstep
    cases hstep
    exact hs

theorem settled_empty : Settled Heap.empty where
  counted := ⟨.nil, by simp [Heap.empty], by simp [Heap.empty], by simp [Heap.empty],
    by simp [Heap.empty, Heap.base, Heap.kids], by simp [Heap.empty]⟩
  typed := ⟨by simp [Heap.empty], by simp [Heap.empty], by simp [Heap.empty],
    by simp [Heap.empty]⟩

theorem settled_of_reachable (hr : Reachable (heapRuns.restrict Heap.KeepsParents) h) :
    Settled h := by
  refine hr.invariant ?_ ?_
  · rintro _ rfl
    exact settled_empty
  · intro h a h' _ hs ht
    exact settled_step hs ht.2 ht.1

/-- The handles of the application, the live children and the holds inside. -/
def Heap.owners (h : Heap) (x : Nat) : Nat :=
  h.handles x + h.kids h.known x + (h.holds x + h.queued.count x + h.taken.count x)

/-- The objects that exist are those with an owner, and each other one was destroyed once. -/
structure Heap.Owned (h : Heap) : Prop where
  parents : ∀ x ∈ h.known, ∀ y, (h.object x).parent = some y ∨ (h.object x).buffer = some y →
    y ∈ h.known
  references : ∀ x ∈ h.known, (h.object x).references = h.owners x
  live : ∀ x < h.nextObject, x ∈ h.known ↔ h.owners x ≠ 0
  destroyed : ∀ x < h.nextObject, h.destroyed.count x = if h.owners x = 0 then 1 else 0

theorem objects_live_while_owned (hr : Reachable (heapRuns.restrict Heap.KeepsParents) h) :
    h.Owned := by
  have hc := (settled_of_reachable hr).counted
  have hcount : ∀ x ∈ h.known, (h.object x).references = h.owners x ∧ h.owners x ≠ 0 := by
    intro x hx
    obtain ⟨hcount, hpos⟩ := hc.counts x hx
    unfold Heap.base at hcount
    unfold Heap.owners
    omega
  have hgone : ∀ x, x ∉ h.known → h.owners x = 0 := by
    intro x hx
    obtain ⟨hb, hk, -⟩ := hc.gone x hx
    unfold Heap.base at hb
    unfold Heap.owners
    omega
  refine ⟨fun x hx y hy => (hc.links x hx y hy).1, fun x hx => (hcount x hx).1,
    fun x _ => ⟨fun hx => (hcount x hx).2, fun hx => ?_⟩, fun x hlt => ?_⟩
  · by_contra hk
    exact hx (hgone x hk)
  · have honce := hc.once x
    rw [if_pos hlt] at honce
    by_cases hx : x ∈ h.known
    · have hpos := List.count_pos_iff.mpr hx
      rw [if_neg (hcount x hx).2]
      omega
    · have hzero := List.count_eq_zero.mpr hx
      rw [if_pos (hgone x hx)]
      omega

/-- The application releases the context and the queue while a command is queued; the queue goes
with the reference that `setStatus` has on it. -/
theorem objects_live_while_owned_of_read : ∃ h : Heap,
    Reachable (heapRuns.restrict Heap.KeepsParents) h ∧ h.destroyed = [2, 0, 1] ∧ h.Owned := by
  obtain ⟨h, hr, hc⟩ := exists_execGuarded (I := (· = Heap.empty)) Heap.KeepsParents rfl
    [.createContext, .createCommandQueue 0, .enqueue 1 true, .release 1, .release 0, .hold 1,
      .erase 2, .release 2, .unhold 1]
    (fun h : Heap => h.destroyed = [2, 0, 1])
    (by decide +kernel : (execGuarded Heap.step _ Heap.empty _).map _ = some true)
  exact ⟨h, hr, of_decide_eq_true hc, objects_live_while_owned hr⟩

/-- The event outlives the handle of its queue, and the queue is left without a reference. -/
theorem queue_not_destroyed : ∃ h : Heap, Reachable heapRuns h ∧ h.known = [1, 0] ∧
    (h.object 1).type = .commandQueue ∧ (h.object 1).references = 0 ∧ h.owners 1 = 0 ∧
    h.destroyed = [2] ∧ ¬h.Owned := by
  obtain ⟨h, hr, hc⟩ := exists_exec (I := (· = Heap.empty)) rfl
    [HeapAction.createContext, .createCommandQueue 0, .enqueue 1 true, .erase 2, .release 1,
      .release 0, .release 2]
    (fun h : Heap => 1 < h.nextObject ∧ h.known = [1, 0] ∧ (h.object 1).type = .commandQueue ∧
      (h.object 1).references = 0 ∧ h.owners 1 = 0 ∧ h.destroyed = [2])
    (by decide +kernel : (exec Heap.step Heap.empty _).map _ = some true)
  obtain ⟨hlt, hknown, htype, hzero, howners, hdestroyed⟩ := of_decide_eq_true hc
  refine ⟨h, hr, hknown, htype, hzero, howners, hdestroyed, fun ho => ?_⟩
  exact (ho.live 1 hlt).mp (by simp [hknown]) howners

end Shamrock.Runtime
