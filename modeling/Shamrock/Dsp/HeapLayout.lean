import Shamrock.Dsp.Heap
import Shamrock.Lib.Segments
import Mathlib.Data.List.Chain
import Mathlib.Algebra.Order.BigOperators.Group.List
import Mathlib.Algebra.Order.Group.Nat

/-!
# What the blocks of a heap cover

The range of a heap is a list of segments, and its two maps are the free and the allocated ones. A
segment is lost when the length of a merged block is cut off to 32 bits.
-/
namespace Shamrock.Dsp

open Segments Transition

inductive Use
  | free | allocated | lost
  deriving DecidableEq, Repr

abbrev Seg := Segment Use

/-- Free segments are merged, and only a block that has lost its end is empty. -/
def Beside (x y : Seg) : Prop :=
  x.kind = .free → y.kind ≠ .free ∧ (x.size = 0 → y.kind = .lost)

structure Layout (segs : List Seg) : Prop where
  beside : segs.IsChain Beside
  used : ∀ s ∈ segs, s.kind ≠ .free → 0 < s.size
  short : ∀ s ∈ segs, s.kind = .allocated → s.size < 2 ^ 32

structure Represents (startAddr length : Nat) (h : Heap) (segs : List Seg) : Prop where
  layout : Layout segs
  free : h.freeList = blocks .free startAddr segs
  alloc : h.allocList = blocks .allocated startAddr segs
  total : total segs = length
  nonempty : segs ≠ []

variable {startAddr length a addr n : Nat} {hp hp' : Heap} {segs pre post : List Seg} {s x : Seg}
  {b b' : Nat × Nat}

/-! ## The free blocks of a layout -/

section Layouts

theorem Layout.left (h : Layout (pre ++ post)) : Layout pre where
  beside := h.beside.left_of_append
  used s hs := h.used s (List.mem_append_left _ hs)
  short s hs := h.short s (List.mem_append_left _ hs)

theorem Layout.right (h : Layout (pre ++ post)) : Layout post where
  beside := h.beside.right_of_append
  used s hs := h.used s (List.mem_append_right _ hs)
  short s hs := h.short s (List.mem_append_right _ hs)

/-- Segments that fit together at their ends. -/
theorem Layout.append (hpre : Layout pre) (hpost : Layout post)
    (hends : ∀ x ∈ pre.getLast?, ∀ y ∈ post.head?, Beside x y) : Layout (pre ++ post) where
  beside := hpre.beside.append hpost.beside hends
  used s hs := (List.mem_append.mp hs).elim (hpre.used s) (hpost.used s)
  short s hs := (List.mem_append.mp hs).elim (hpre.short s) (hpost.short s)

theorem Layout.ends (h : Layout (pre ++ post)) :
    ∀ x ∈ pre.getLast?, ∀ y ∈ post.head?, Beside x y :=
  (List.isChain_append.mp h.beside).2.2

theorem Layout.tail (h : Layout (s :: segs)) : Layout segs where
  beside := h.beside.tail
  used x hx := h.used x (List.mem_cons_of_mem _ hx)
  short x hx := h.short x (List.mem_cons_of_mem _ hx)

theorem Layout.next (h : Layout (s :: segs)) : ∀ y ∈ segs.head?, Beside s y :=
  (List.isChain_cons.mp h.beside).1

theorem Layout.cons (h : Layout segs) (hused : s.kind ≠ .free → 0 < s.size)
    (hshort : s.kind = .allocated → s.size < 2 ^ 32) (hnext : ∀ y ∈ segs.head?, Beside s y) :
    Layout (s :: segs) where
  beside := h.beside.cons hnext
  used := List.forall_mem_cons.mpr ⟨hused, h.used⟩
  short := List.forall_mem_cons.mpr ⟨hshort, h.short⟩

theorem layout_nil : Layout [] where
  beside := List.isChain_nil
  used := by simp
  short := by simp

/-- A free block does not reach the next one. -/
theorem free_blocks_gap (h : Layout segs) :
    (blocks .free a segs).Pairwise fun b b' => b.1 + b.2 < b'.1 := by
  induction segs generalizing a with
  | nil => exact .nil
  | cons s segs ih =>
    have htail := h.tail
    rw [blocks_cons]
    split
    · rename_i hs
      refine .cons (fun b hb => ?_) (ih htail)
      cases segs with
      | nil => cases hb
      | cons y segs =>
        have hy := ((List.isChain_cons_cons.mp h.beside).1 hs).1
        rw [blocks_cons, if_neg hy, List.nil_append] at hb
        have hlo := (blocks_bounds hb).1
        have hpos := h.used y (by simp) hy
        dsimp only
        omega
    · exact ih htail

/-- The free blocks before a segment that is not free end before it. -/
theorem free_before (h : Layout pre) (hlast : ∀ x ∈ pre.getLast?, x.kind ≠ .free)
    (hb : b ∈ blocks .free a pre) : b.1 + b.2 < a + total pre := by
  rcases List.eq_nil_or_concat pre with rfl | ⟨init, x, rfl⟩
  · cases hb
  · rw [List.concat_eq_append] at *
    have hx : x.kind ≠ .free := hlast x (by simp)
    have hpos := h.used x (by simp) hx
    rw [blocks_append, blocks_cons, if_neg hx] at hb
    have hb : b ∈ blocks .free a init := by simpa using hb
    have hhi := (blocks_bounds hb).2
    rw [total_append, total_cons]
    omega

theorem free_after (h : Layout post) (hfirst : ∀ y ∈ post.head?, y.kind ≠ .free)
    (hb : b ∈ blocks .free a post) : a < b.1 := by
  cases post with
  | nil => cases hb
  | cons y post =>
    have hy : y.kind ≠ .free := hfirst y (by simp)
    have hpos := h.used y (by simp) hy
    rw [blocks_cons, if_neg hy, List.nil_append] at hb
    have hlo := (blocks_bounds hb).1
    omega

/-- Allocated blocks are not empty, so their addresses are before what follows. -/
theorem allocated_before (h : Layout pre) (hb : b ∈ blocks .allocated a pre) :
    b.1 < a + total pre := by
  have hpos : 0 < b.2 := h.used _ (exists_segment hb) (by simp)
  have hhi := (blocks_bounds hb).2
  omega

end Layouts

/-! ## malloc -/

section Malloc

variable {m : Nat}

/-- What `malloc` leaves of a free segment. -/
def remainder (m n : Nat) : List Seg := if n < m then [⟨.free, m - n⟩] else []

theorem total_remainder (hle : n ≤ m) : n + total (remainder m n) = m := by
  simp only [remainder]
  split
  · rw [total_cons, total_nil]
    dsimp only
    omega
  · rw [total_nil]
    omega

theorem layout_malloc (h : Layout (pre ++ ⟨.free, m⟩ :: post)) (hpos : 0 < n) (hlt : n < 2 ^ 32) :
    Layout (pre ++ ⟨.allocated, n⟩ :: (remainder m n ++ post)) := by
  have hpost : Layout post := h.right.tail
  have hrest : Layout (remainder m n ++ post) := by
    simp only [remainder]
    split
    · refine hpost.cons (by simp) (by simp) fun y hy hfree => ?_
      obtain ⟨hy, -⟩ := h.right.next y hy rfl
      exact ⟨hy, fun hzero => absurd hzero (by dsimp only; omega)⟩
    · exact hpost
  refine Layout.append h.left (hrest.cons (fun _ => hpos) (fun _ => hlt) ?_) ?_
  · intro y _ hfree
    cases hfree
  · intro x hx y _ hfree
    exact absurd rfl (h.ends x hx ⟨.free, m⟩ (by simp) hfree).1

theorem malloc_represents (hwrap : startAddr + length < 2 ^ 64)
    (h : Represents startAddr length hp segs) {size : UInt32}
    (hpos : 0 < (roundUp size hp.blockSize).toNat)
    (hcall : hp.malloc size = some (addr, hp')) :
    ∃ segs', Represents startAddr length hp' segs' ∧
      ((∀ s ∈ segs, s.kind ≠ .lost) → ∀ s ∈ segs', s.kind ≠ .lost) := by
  generalize hn : (roundUp size hp.blockSize).toNat = n at hpos
  have hlt : n < 2 ^ 32 := hn ▸ (roundUp size hp.blockSize).toNat_lt
  obtain ⟨l₁, m, l₂, hfree, hle, hfree', halloc'⟩ := malloc_split hn hcall
  rw [h.free] at hfree
  obtain ⟨pre, post, rfl, rfl, ha, rfl⟩ := blocks_split hfree
  dsimp only at ha hle hfree' h
  subst ha
  have hpre : Layout pre := h.layout.left
  have htotal : total pre + (m + total post) = length := by
    rw [← h.total, total_append, total_cons]
  have hrest := total_remainder hle
  refine ⟨pre ++ ⟨.allocated, n⟩ :: (remainder m n ++ post), ⟨layout_malloc h.layout hpos hlt,
    ?_, ?_, ?_, by simp⟩, ?_⟩
  · -- the end of the block, if it is not used up, goes where the block was
    have hbefore : ∀ b ∈ blocks .free startAddr pre, b.1 < startAddr + total pre + n := by
      intro b hb
      have hhi := (blocks_bounds hb).2
      omega
    have hnew : blocks .free startAddr (pre ++ ⟨.allocated, n⟩ :: (remainder m n ++ post)) =
        blocks .free startAddr pre ++ (blocks .free (startAddr + total pre + n) (remainder m n) ++
          blocks .free (startAddr + total pre + m) post) := by
      rw [blocks_append, blocks_cons, if_neg (by simp), List.nil_append, blocks_append,
        Nat.add_assoc _ n, hrest]
    rw [hfree', hnew]
    by_cases hsplit : n < m
    · have hafter : ∀ b ∈ blocks .free (startAddr + total pre + m) post,
          startAddr + total pre + n < b.1 := by
        intro b hb
        have hlo := (blocks_bounds hb).1
        omega
      rw [if_pos hsplit, Nat.mod_eq_of_lt (by omega), set_between hbefore hafter, remainder,
        if_pos hsplit]
      simp [blocks]
    · rw [if_neg hsplit, remainder, if_neg hsplit]
      rfl
  · have hbefore : ∀ b ∈ blocks .allocated startAddr pre, b.1 < startAddr + total pre :=
      fun b hb => allocated_before hpre hb
    have hafter : ∀ b ∈ blocks .allocated (startAddr + total pre + m) post,
        startAddr + total pre < b.1 := by
      intro b hb
      have hlo := (blocks_bounds hb).1
      omega
    have hnone : ∀ a, blocks .allocated a (remainder m n) = [] := by
      intro a
      simp only [remainder]
      split <;> rfl
    rw [halloc', h.alloc, blocks_append, blocks_cons, if_neg (by simp), List.nil_append,
      set_between hbefore hafter, blocks_append, blocks_cons, if_pos rfl, blocks_append, hnone]
    dsimp only
    rw [Nat.add_assoc _ n, hrest]
    rfl
  · rw [total_append, total_cons, total_append]
    dsimp only
    omega
  · intro hlost s hs
    simp only [remainder] at hs
    have hmem : s ∈ pre ∨ s = ⟨.allocated, n⟩ ∨ s = ⟨.free, m - n⟩ ∨ s ∈ post := by
      split at hs <;> simp at hs <;> tauto
    rcases hmem with hs | rfl | rfl | hs
    · exact hlost s (by simp [hs])
    · simp
    · simp
    · exact hlost s (by simp [hs])

end Malloc

/-! ## free -/

section Free

variable {t u : Nat}

/-- What a merged block of `t` bytes leaves: its length has 32 bits. -/
def freed (t : Nat) : List Seg :=
  ⟨.free, t % 2 ^ 32⟩ :: (if t < 2 ^ 32 then [] else [⟨.lost, t - t % 2 ^ 32⟩])

theorem total_freed (t : Nat) : total (freed t) = t := by
  have hle := Nat.mod_le t (2 ^ 32)
  simp only [freed]
  split
  · rename_i hlt
    simpa using hlt
  · simp only [total_cons, total_nil]
    omega

theorem layout_freed (hpos : 0 < t) (hpost : Layout post)
    (hfirst : t < 2 ^ 32 → ∀ y ∈ post.head?, y.kind ≠ .free) : Layout (freed t ++ post) := by
  have hmod := Nat.mod_lt t (show 0 < 2 ^ 32 by omega)
  simp only [freed]
  split
  · rename_i hlt
    refine hpost.cons (by simp) (by simp) fun y hy _ => ⟨hfirst hlt y hy, fun hzero => ?_⟩
    dsimp only at hzero
    omega
  · refine (hpost.cons (s := ⟨.lost, t - t % 2 ^ 32⟩) (fun _ => by dsimp only; omega) (by simp)
      fun y _ hkind => by cases hkind).cons (by simp) (by simp) fun y hy _ => ?_
    obtain rfl : y = ⟨.lost, t - t % 2 ^ 32⟩ := by simpa [eq_comm] using hy
    exact ⟨by simp, fun _ => rfl⟩

/-- At most one segment, and that is free. -/
def FreeEnd (mid : List Seg) : Prop := mid = [] ∨ ∃ t, mid = [⟨.free, t⟩]

theorem FreeEnd.blocks_free {mid : List Seg} (h : FreeEnd mid) (hpos : 0 < total mid) :
    blocks .free a mid = [(a, total mid)] := by
  rcases h with rfl | ⟨t, rfl⟩
  · simp at hpos
  · rfl

theorem FreeEnd.blocks_allocated {mid : List Seg} (h : FreeEnd mid) :
    blocks .allocated a mid = [] := by
  rcases h with rfl | ⟨t, rfl⟩ <;> rfl

theorem split_last (pre : List Seg) :
    (∀ x ∈ pre.getLast?, x.kind ≠ .free) ∨ ∃ init t, pre = init ++ [⟨.free, t⟩] := by
  rcases List.eq_nil_or_concat pre with rfl | ⟨init, ⟨k, t⟩, rfl⟩
  · exact .inl (by simp)
  · rw [List.concat_eq_append]
    by_cases hk : k = .free
    · exact .inr ⟨init, t, by rw [hk]⟩
    · exact .inl (by simpa using hk)

theorem split_first (post : List Seg) :
    (∀ y ∈ post.head?, y.kind ≠ .free) ∨ ∃ u rest, post = ⟨.free, u⟩ :: rest := by
  cases post with
  | nil => exact .inl (by simp)
  | cons y rest =>
    by_cases hk : y.kind = .free
    · exact .inr ⟨y.size, rest, by rw [← hk]⟩
    · exact .inl (by simpa using hk)

/-- The loop passes the blocks before the one that is given back, and takes the last of them if it
is a neighbour. -/
theorem merge_left (h : Layout (pre ++ ⟨.allocated, n⟩ :: post)) (hn : 0 < n) (hlt : n < 2 ^ 32)
    (hwrap : startAddr + total pre + n < 2 ^ 64) (r : BlockList) :
    ∃ init mid, pre = init ++ mid ∧ (∀ x ∈ init.getLast?, x.kind ≠ .free) ∧ FreeEnd mid ∧
      Heap.merge (startAddr + total pre) n (blocks .free startAddr pre ++ r) =
        { Heap.merge (startAddr + total init) ((total mid + n) % 2 ^ 32) r with
          rest := blocks .free startAddr init ++
            (Heap.merge (startAddr + total init) ((total mid + n) % 2 ^ 32) r).rest } := by
  rcases split_last pre with hlast | ⟨init, t, rfl⟩
  · refine ⟨pre, [], by simp, hlast, .inl rfl, ?_⟩
    rw [merge_skip fun b hb => ?_]
    · rw [total_nil, Nat.zero_add, Nat.mod_eq_of_lt hlt]
    · have hhi := free_before h.left hlast hb
      rw [Nat.mod_eq_of_lt (by omega), Nat.mod_eq_of_lt (by omega)]
      omega
  · have hinit : Layout (init ++ [⟨.free, t⟩]) := h.left
    have hlast : ∀ x ∈ init.getLast?, x.kind ≠ .free := fun x hx hfree =>
      (hinit.ends x hx ⟨.free, t⟩ (by simp) hfree).1 rfl
    have ht : 0 < t := by
      by_contra hzero
      have hends : Beside ⟨.free, t⟩ ⟨.allocated, n⟩ := h.ends _ (by simp) _ (by simp)
      cases (hends rfl).2 (by dsimp only; omega)
    refine ⟨init, [⟨.free, t⟩], rfl, hlast, .inr ⟨t, rfl⟩, ?_⟩
    rw [total_append, total_cons, total_nil] at hwrap ⊢
    dsimp only at hwrap ⊢
    rw [blocks_append, List.append_assoc, merge_skip fun b hb => ?_]
    · have hstep : Heap.merge (startAddr + (total init + (t + 0))) n
          (blocks Use.free (startAddr + total init) [⟨Use.free, t⟩] ++ r) =
            Heap.merge (startAddr + total init) ((t + n) % 2 ^ 32) r := by
        change Heap.merge _ _ ((startAddr + total init, t) :: r) = _
        rw [Heap.merge, if_pos (.inl (by dsimp only; omega)), if_pos (by dsimp only; omega)]
      rw [hstep]
      rfl
    · have hhi := free_before hinit.left hlast hb
      rw [Nat.mod_eq_of_lt (by omega), Nat.mod_eq_of_lt (by omega)]
      omega

/-- After it, the loop takes the first block if it is a neighbour; it is not when the length has
been cut off. -/
theorem merge_right (h : Layout post) (ht : 0 < t) (hwrap : a + t + total post < 2 ^ 64) :
    ∃ mid rest, post = mid ++ rest ∧ FreeEnd mid ∧
      (t + total mid < 2 ^ 32 → ∀ y ∈ rest.head?, y.kind ≠ .free) ∧
      Heap.merge a (t % 2 ^ 32) (blocks .free (a + t) post) =
        ⟨a, (t + total mid) % 2 ^ 32, blocks .free (a + t + total mid) rest⟩ := by
  have hmod := Nat.mod_le t (2 ^ 32)
  have hskip : ∀ {size l}, (∀ b ∈ l, (b.1 + b.2) % 2 ^ 64 ≠ a ∧ (a + size) % 2 ^ 64 ≠ b.1) →
      Heap.merge a size l = ⟨a, size, l⟩ := by
    intro size l hl
    have hall := merge_skip (r := []) hl
    rwa [List.append_nil, Heap.merge, List.append_nil] at hall
  by_cases hlong : 2 ^ 32 ≤ t
  · refine ⟨[], post, rfl, .inl rfl, fun hshort => absurd hshort (by rw [total_nil]; omega), ?_⟩
    have hcut := Nat.mod_lt t (show 0 < 2 ^ 32 by omega)
    refine hskip fun b hb => ?_
    obtain ⟨hlo, hhi⟩ := blocks_bounds hb
    rw [Nat.mod_eq_of_lt (by omega), Nat.mod_eq_of_lt (by omega)]
    omega
  · rcases split_first post with hfirst | ⟨u, rest, rfl⟩
    · refine ⟨[], post, rfl, .inl rfl, fun _ => hfirst, hskip fun b hb => ?_⟩
      have hlo := free_after h hfirst hb
      have hhi := (blocks_bounds hb).2
      rw [Nat.mod_eq_of_lt (by omega), Nat.mod_eq_of_lt (by omega)]
      omega
    · have hrest : Layout rest := h.tail
      have hfirst : ∀ y ∈ rest.head?, y.kind ≠ .free := fun y hy =>
        (h.next y hy rfl).1
      rw [total_cons] at hwrap
      dsimp only at hwrap
      refine ⟨[⟨.free, u⟩], rest, rfl, .inr ⟨u, rfl⟩, fun _ => hfirst, ?_⟩
      change Heap.merge a (t % 2 ^ 32) ((a + t, u) :: blocks .free (a + t + u) rest) = _
      have hsize : (u + t % 2 ^ 32) % 2 ^ 32 = (t + u) % 2 ^ 32 := by omega
      rw [Heap.merge, if_pos (.inr (by dsimp only; omega)), if_neg (by dsimp only; omega)]
      dsimp only
      rw [hsize, hskip fun b hb => ?_]
      · rfl
      · have hlo := free_after hrest hfirst hb
        have hhi := (blocks_bounds hb).2
        have hcut := Nat.mod_le (t + u) (2 ^ 32)
        rw [Nat.mod_eq_of_lt (by omega), Nat.mod_eq_of_lt (by omega)]
        omega

/-- The block is put back with its neighbours. -/
theorem free_blocks (h : Layout (pre ++ ⟨.allocated, n⟩ :: post))
    (hwrap : startAddr + total (pre ++ ⟨.allocated, n⟩ :: post) < 2 ^ 64) :
    ∃ init mid mid' rest, pre = init ++ mid ∧ post = mid' ++ rest ∧ FreeEnd mid ∧ FreeEnd mid' ∧
      Layout (init ++ (freed (total mid + n + total mid') ++ rest)) ∧
      Heap.merge (startAddr + total pre) (n % 2 ^ 32)
          (blocks .free startAddr (pre ++ ⟨.allocated, n⟩ :: post)) =
        ⟨startAddr + total init, (total mid + n + total mid') % 2 ^ 32,
          blocks .free startAddr init ++
            blocks .free (startAddr + total init + (total mid + n + total mid')) rest⟩ ∧
      (∀ b ∈ blocks .free startAddr init, b.1 < startAddr + total init) := by
  have hn : 0 < n := h.used ⟨.allocated, n⟩ (by simp) (by simp)
  have hlt : n < 2 ^ 32 := h.short ⟨.allocated, n⟩ (by simp) rfl
  have hpost : Layout post := h.right.tail
  rw [total_append, total_cons] at hwrap
  dsimp only at hwrap
  rw [Nat.mod_eq_of_lt hlt, blocks_append, blocks_cons, if_neg (by simp), List.nil_append]
  dsimp only
  have hroom : startAddr + total pre + n < 2 ^ 64 := by omega
  obtain ⟨init, mid, rfl, hlast, hmid, hleft⟩ := merge_left h hn hlt hroom
    (blocks .free (startAddr + total pre + n) post)
  rw [hleft]
  rw [total_append] at hwrap ⊢
  have hend : startAddr + (total init + total mid) + n =
      startAddr + total init + (total mid + n) := by omega
  obtain ⟨mid', rest, rfl, hmid', hfirst, hright⟩ :=
    merge_right (a := startAddr + total init) (t := total mid + n) hpost (by omega) (by omega)
  have hrest : Layout rest := hpost.right
  refine ⟨init, mid, mid', rest, rfl, rfl, hmid, hmid', ?_, ?_, ?_⟩
  · refine Layout.append h.left.left (layout_freed (by omega) hrest hfirst) ?_
    intro x hx y _ hfree
    exact absurd hfree (hlast x hx)
  · rw [hend, hright]
    dsimp only
    rw [Nat.add_assoc (startAddr + total init)]
  · intro b hb
    have hhi := free_before h.left.left hlast hb
    omega

/-- The neighbours are counted. -/
theorem le_neighbours {mid : List Seg} {l : BlockList} {p : Nat × Nat → Bool} (hmid : FreeEnd mid)
    (hp : p (a, total mid)) (hmem : ∀ b ∈ blocks .free a mid, b ∈ l) :
    total mid ≤ ((l.filter p).map Prod.snd).sum := by
  by_cases hpos : 0 < total mid
  · rw [hmid.blocks_free hpos] at hmem
    have hl : (a, total mid) ∈ l.filter p := List.mem_filter.mpr ⟨hmem _ (by simp), hp⟩
    exact List.le_sum_of_mem (List.mem_map.mpr ⟨_, hl, rfl⟩)
  · omega

theorem free_represents (hwrap : startAddr + length < 2 ^ 64)
    (h : Represents startAddr length hp segs) (addr : Nat) :
    ∃ segs', Represents startAddr length (hp.free addr).2 segs' ∧
      ((∀ s ∈ segs, s.kind ≠ .lost) → MergeFits hp (.free addr) →
        ∀ s ∈ segs', s.kind ≠ .lost) := by
  cases hfind : hp.allocList.find addr with
  | none =>
    refine ⟨segs, ?_, fun hlost _ => hlost⟩
    simpa only [Heap.free, hfind] using h
  | some n =>
    obtain ⟨l₁, l₂, halloc, halloc', hfree'⟩ := free_split hfind
    rw [h.alloc] at halloc
    obtain ⟨pre, post, rfl, rfl, ha, rfl⟩ := blocks_split halloc
    dsimp only at ha halloc' h
    subst ha
    obtain ⟨init, mid, mid', rest, rfl, rfl, hmid, hmid', hlayout, hmerge, hbefore⟩ :=
      free_blocks h.layout (by rw [h.total]; exact hwrap)
    generalize ht : total mid + n + total mid' = t at hlayout hmerge
    have hn : 0 < n := h.layout.used ⟨.allocated, n⟩ (by simp) (by simp)
    have htotal : total init + t + total rest = length := by
      have htotal := h.total
      simp only [total_append, total_cons] at htotal
      omega
    have hend : startAddr + total (init ++ mid) + n + total mid' = startAddr + total init + t := by
      rw [total_append]
      omega
    have hcut := Nat.mod_le t (2 ^ 32)
    refine ⟨init ++ (freed t ++ rest), ⟨hlayout, ?_, ?_, ?_, by simp [freed]⟩, ?_⟩
    · have hafter : ∀ b ∈ blocks .free (startAddr + total init + t) rest,
          startAddr + total init < b.1 := by
        intro b hb
        have hlo := (blocks_bounds hb).1
        omega
      have hone : blocks .free (startAddr + total init) (freed t) =
          [(startAddr + total init, t % 2 ^ 32)] := by
        simp only [freed]
        split <;> rfl
      rw [hfree', h.free, hmerge, set_between hbefore hafter, blocks_append, blocks_append, hone,
        total_freed]
      rfl
    · have hnone : blocks .allocated (startAddr + total init) (freed t) = [] := by
        simp only [freed]
        split <;> rfl
      rw [halloc', blocks_append, blocks_append, hmid.blocks_allocated, hmid'.blocks_allocated,
        blocks_append, blocks_append, hnone, total_freed, List.append_nil, List.nil_append,
        List.nil_append, hend]
    · rw [total_append, total_append, total_freed]
      omega
    · intro hlost hfits s hs
      have hshort : t < 2 ^ 32 := by
        have hsum := hfits n hfind
        have hleft := le_neighbours (a := startAddr + total init)
          (l := blocks .free startAddr (init ++ mid))
          (p := fun b => b.1 + b.2 = startAddr + total (init ++ mid) ∨
            startAddr + total (init ++ mid) + n = b.1) hmid
          (by simp [Nat.add_assoc]) fun b hb => by
            rw [blocks_append]
            exact List.mem_append_right _ hb
        have hright := le_neighbours (a := startAddr + total (init ++ mid) + n)
          (l := blocks .free (startAddr + total (init ++ mid) + n) (mid' ++ rest))
          (p := fun b => b.1 + b.2 = startAddr + total (init ++ mid) ∨
            startAddr + total (init ++ mid) + n = b.1) hmid'
          (by simp) fun b hb => by
            rw [blocks_append]
            exact List.mem_append_left _ hb
        rw [Heap.neighbours, h.free, blocks_append, blocks_cons, if_neg (by simp),
          List.nil_append, List.filter_append, List.map_append, List.sum_append] at hsum
        dsimp only at hsum
        omega
      simp only [freed, if_pos hshort] at hs
      have hmem : s ∈ init ∨ s = ⟨.free, t % 2 ^ 32⟩ ∨ s ∈ rest := by simpa using hs
      rcases hmem with hs | rfl | hs
      · exact hlost s (by simp [hs])
      · simp
      · exact hlost s (by simp [hs])

end Free

end Shamrock.Dsp
