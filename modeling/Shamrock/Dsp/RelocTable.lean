import Shamrock.Dsp.Reloc
import Mathlib.Data.List.Forall2
import Mathlib.Data.List.TakeWhile

/-!
# Tables of relocations

For each segment the loader goes through the table, takes the first entries in a row that lie in the
segment and carries them out. These are all of them when the entries of a segment stand together.
A module has two tables, and the one of its PLT comes first.
-/
namespace Shamrock.Dsp

open BitFields

/-- The type that `ELF32_R_TYPE` names. -/
def RelocType.ofNumber : Nat → RelocType
  | 0 => .none
  | 1 => .abs32
  | 2 => .abs16
  | 3 => .abs8
  | 4 => .pcrS21
  | 5 => .pcrS12
  | 6 => .pcrS10
  | 7 => .pcrS7
  | 8 => .absS16
  | 9 => .absL16
  | 10 => .absH16
  | 11 => .sbrU15B
  | 12 => .sbrU15H
  | 13 => .sbrU15W
  | 14 => .sbrS16
  | 15 => .sbrL16B
  | 16 => .sbrL16H
  | 17 => .sbrL16W
  | 18 => .sbrH16B
  | 19 => .sbrH16H
  | 20 => .sbrH16W
  | 21 => .sbrGotU15W
  | 22 => .sbrGotL16W
  | 23 => .sbrGotH16W
  | 24 => .dsbtIndex
  | 25 => .prel31
  | 26 => .copy
  | _ => .unknown

/-- `Elf32_Rela` -/
structure Rela where
  rOffset : BitVec 32
  rInfo : BitVec 32
  rAddend : BitVec 32
  deriving DecidableEq, Repr

/-- `ELF32_R_SYM` -/
def Rela.sym (r : Rela) : BitVec 32 := r.rInfo >>> 8

/-- `ELF32_R_TYPE` -/
def Rela.type (r : Rela) : RelocType := .ofNumber (r.rInfo &&& 0xFF).toNat

/-- `DLIMP_Loaded_Segment`, with the bytes at its `host_address`. -/
structure LoadedSegment where
  inputVaddr : BitVec 32
  pVaddr : BitVec 32
  pMemsz : BitVec 32
  pFilesz : BitVec 32
  host : Nat → UInt8

/-- What relocations need of a module: `lookup` is `DLSYM_canonical_lookup`, which prints what it
does not find, and `staticBase` the value of `__TI_STATIC_BASE`. -/
structure DynModule where
  wrongEndian : Bool
  dsbtIndex : BitVec 32
  lookup : BitVec 32 → Except String (BitVec 32)
  staticBase : Option (BitVec 32)

/-- The offset lies in the segment. -/
def LoadedSegment.covers (seg : LoadedSegment) (r : Rela) : Bool :=
  decide (seg.inputVaddr ≤ r.rOffset) && decide (r.rOffset < seg.inputVaddr + seg.pMemsz)

namespace DynModule

/-- What `reloc_do` is called with. -/
def args (m : DynModule) (tiStaticBase : BitVec 32) (seg : LoadedSegment) (r : Rela)
    (symval : BitVec 32) : RelocArgs where
  segmentVaddr := seg.pVaddr
  addend := r.rAddend
  symval := symval
  spc := r.rOffset - seg.inputVaddr
  basePointer := tiStaticBase
  dsbtIndex := m.dsbtIndex

/-- The body of the loop of `process_rela_table` for an entry in the segment. -/
def relocEntry (m : DynModule) (tiStaticBase : BitVec 32) (seg : LoadedSegment) (r : Rela)
    (buffer : Nat → UInt8) : Printed (Nat → UInt8) :=
  match m.lookup r.sym with
  | .error text => (buffer, [text])
  | .ok symval => relocDo r.type (m.args tiStaticBase seg r symval) m.wrongEndian buffer

/-- `process_rela_table`. The start index that it is called with is 0. -/
def processRelaTable (m : DynModule) (tiStaticBase : BitVec 32) (seg : LoadedSegment) :
    Bool → List Rela → (Nat → UInt8) → Printed (Nat → UInt8)
  | _, [], buffer => (buffer, [])
  | found, r :: table, buffer =>
    if seg.covers r then
      let done := m.relocEntry tiStaticBase seg r buffer
      let rest := processRelaTable m tiStaticBase seg true table done.1
      (rest.1, done.2 ++ rest.2)
    else if found then (buffer, [])
    else processRelaTable m tiStaticBase seg false table buffer

/-- One segment of `process_got_relocs`. -/
def relocSegment (m : DynModule) (tiStaticBase : BitVec 32) (table : List Rela)
    (seg : LoadedSegment) : Printed LoadedSegment :=
  if seg.pFilesz = 0 then (seg, [])
  else
    let done := m.processRelaTable tiStaticBase seg false table seg.host
    ({ seg with host := done.1 }, done.2)

def tiStaticBase (m : DynModule) : BitVec 32 := m.staticBase.getD 0

/-- `process_got_relocs` -/
def processGotRelocs (m : DynModule) (table : List Rela) (segs : List LoadedSegment) :
    Printed (List LoadedSegment) :=
  let done := segs.map (m.relocSegment m.tiStaticBase table)
  (done.map Prod.fst,
    (if m.staticBase.isNone then ["Could not resolve value of __TI_STATIC_BASE\n"] else []) ++
      done.flatMap Prod.snd)

/-- The loop of `process_pltgot_relocs`, up to the segment in which the first entry lies. -/
def relocOwner (m : DynModule) (tiStaticBase : BitVec 32) (table : List Rela) (first : Rela) :
    List LoadedSegment → Printed (List LoadedSegment)
  | [] => ([], [])
  | seg :: segs =>
    if seg.pFilesz ≠ 0 ∧ seg.covers first = true then
      let done := m.relocSegment tiStaticBase table seg
      (done.1 :: segs, done.2)
    else
      let rest := relocOwner m tiStaticBase table first segs
      (seg :: rest.1, rest.2)

/-- `process_pltgot_relocs` -/
def processPltgotRelocs (m : DynModule) (table : List Rela) (first : Rela)
    (segs : List LoadedSegment) : Printed (List LoadedSegment) :=
  let done := m.relocOwner m.tiStaticBase table first segs
  (done.1,
    (if m.staticBase.isNone then ["Could not resolve value of __TI_STATIC_BASE\n"] else []) ++
      done.2)

/-- `DLREL_c60_relocate`, once the tables have been read. -/
def relocate (m : DynModule) (pltTable table : List Rela) (segs : List LoadedSegment) :
    Printed (List LoadedSegment) :=
  let plt := match pltTable with
    | [] => (segs, [])
    | first :: _ => m.processPltgotRelocs pltTable first segs
  let got := match table with
    | [] => (plt.1, [])
    | _ :: _ => m.processGotRelocs table plt.1
  (got.1, plt.2 ++ got.2)

end DynModule

/-! ## The entries of a segment -/

section Entries

variable {m : DynModule} {base : BitVec 32} {seg : LoadedSegment} {table es : List Rela}
  {buffer : Nat → UInt8}

/-- Entries one after the other. -/
def DynModule.relocAll (m : DynModule) (base : BitVec 32) (seg : LoadedSegment) :
    List Rela → (Nat → UInt8) → Printed (Nat → UInt8)
  | [], buffer => (buffer, [])
  | r :: es, buffer =>
    let done := m.relocEntry base seg r buffer
    let rest := m.relocAll base seg es done.1
    (rest.1, done.2 ++ rest.2)

theorem processRelaTable_found : m.processRelaTable base seg true table buffer =
    m.relocAll base seg (table.takeWhile seg.covers) buffer := by
  induction table generalizing buffer with
  | nil => rfl
  | cons r table ih =>
    cases hcovers : seg.covers r with
    | false =>
      rw [List.takeWhile_cons_of_neg (by simp [hcovers])]
      simp [DynModule.processRelaTable, DynModule.relocAll, hcovers]
    | true =>
      rw [List.takeWhile_cons_of_pos hcovers]
      simp only [DynModule.processRelaTable, DynModule.relocAll, hcovers, if_true, ih]

/-- The loop carries out the first entries in a row that lie in the segment. -/
theorem processRelaTable_eq : m.processRelaTable base seg false table buffer =
    m.relocAll base seg ((table.dropWhile fun r => !seg.covers r).takeWhile seg.covers) buffer := by
  induction table with
  | nil => rfl
  | cons r table ih =>
    cases hcovers : seg.covers r with
    | false =>
      rw [List.dropWhile_cons_of_pos (by simp [hcovers]), ← ih]
      simp [DynModule.processRelaTable, hcovers]
    | true =>
      rw [List.dropWhile_cons_of_neg (by simp [hcovers]), List.takeWhile_cons_of_pos hcovers]
      simp only [DynModule.processRelaTable, DynModule.relocAll, hcovers, if_true,
        processRelaTable_found]

/-- The entries of the segment stand together in the table. -/
def Together (seg : LoadedSegment) (table : List Rela) : Prop :=
  ∃ before own after, table = before ++ own ++ after ∧ (∀ r ∈ before, seg.covers r = false) ∧
    (∀ r ∈ own, seg.covers r = true) ∧ ∀ r ∈ after, seg.covers r = false

theorem firstRun_of_together (h : Together seg table) :
    (table.dropWhile fun r => !seg.covers r).takeWhile seg.covers = table.filter seg.covers := by
  obtain ⟨before, own, after, rfl, hbefore, hown, hafter⟩ := h
  have hnone : (before.filter seg.covers) = [] ∧ after.filter seg.covers = [] := by
    simp only [List.filter_eq_nil_iff, Bool.not_eq_true]
    exact ⟨hbefore, hafter⟩
  rw [List.filter_append, List.filter_append, hnone.1, hnone.2, List.filter_eq_self.mpr hown,
    List.append_assoc, List.dropWhile_append_of_pos (fun r hr => by simp [hbefore r hr]),
    List.nil_append, List.append_nil]
  cases own with
  | nil =>
    have hempty : (after.dropWhile fun r => !seg.covers r) = [] := by
      rw [List.dropWhile_eq_nil_iff]
      intro r hr
      simp [hafter r hr]
    rw [List.nil_append, hempty, List.takeWhile_nil]
  | cons r own =>
    have hr := hown r List.mem_cons_self
    rw [List.cons_append, List.dropWhile_cons_of_neg (by simp [hr]), ← List.cons_append,
      List.takeWhile_append_of_pos hown]
    cases after with
    | nil => simp
    | cons r' after =>
      rw [List.takeWhile_cons_of_neg (by simp [hafter r' List.mem_cons_self]), List.append_nil]

end Entries

/-! ## Cells -/

/-- The number of bytes that a relocation writes. -/
def RelocType.size : RelocType → Nat
  | .abs16 => 2
  | .abs8 => 1
  | _ => 4

section Cells

variable {t : RelocType} {f : RelocField} {args : RelocArgs} {wrongEndian : Bool}
  {buffer buffer' : Nat → UInt8} {a : Nat} {v : BitVec 32}

/-- Halfwords and bytes are only relocated in the byte order of the host. -/
def RelocType.InPlace (t : RelocType) (wrongEndian : Bool) : Prop :=
  wrongEndian = false ∨ t.size = 4

theorem relocDo_bytes {b : Nat} (h : t.field = some f) (hplace : t.InPlace wrongEndian)
    (hout : b < args.spc.toNat ∨ args.spc.toNat + t.size ≤ b) :
    (relocDo t args wrongEndian buffer).1 b = buffer b := by
  rcases hplace with rfl | hsize
  · have hwrite : (relocDo t args false buffer).1 =
        (writeRelocR buffer args.spc.toNat t (relocBits t (relocValue t args).1)).1 := rfl
    rw [hwrite]
    cases t <;> first | exact store_outside hout | cases h
  · rw [hsize] at hout
    exact (relocDo_relocated h).bytes b hout

theorem word_congr (h : ∀ b, a ≤ b → b < a + 4 → buffer' b = buffer b) :
    word buffer' a = word buffer a := by
  simp only [word, h a (by omega) (by omega), h (a + 1) (by omega) (by omega),
    h (a + 2) (by omega) (by omega), h (a + 3) (by omega) (by omega)]

/-- A field depends on the bytes of its own cell. -/
theorem field_congr (h : t.field = some f) (hplace : t.InPlace wrongEndian)
    (hsame : ∀ b, a ≤ b → b < a + t.size → buffer' b = buffer b) :
    field f.width f.start (targetWord wrongEndian buffer' a) =
      field f.width f.start (targetWord wrongEndian buffer a) := by
  by_cases hsize : t.size = 4
  · rw [hsize] at hsame
    rw [targetWord, word_congr hsame, targetWord]
  · obtain rfl : wrongEndian = false := by
      rcases hplace with hfalse | hfour
      · exact hfalse
      · exact absurd hfour hsize
    apply BitVec.eq_of_getLsbD_eq
    intro i hi
    have hin : f.start + f.width ≤ 8 * t.size ∧ t.size ≤ 4 := by
      cases t <;> cases h <;> decide
    rw [field, field, BitVec.getLsbD_extractLsb', BitVec.getLsbD_extractLsb']
    simp only [targetWord, Bool.false_eq_true, if_false]
    rw [getLsbD_word (by omega), getLsbD_word (by omega), hsame _ (by omega) (by omega)]

theorem plain_of_ne {x y : BitVec 32} (h : t ≠ .prel31) :
    t.Plain wrongEndian x v ↔ t.Plain wrongEndian y v := by
  cases t <;> first | exact Iff.rfl | exact absurd rfl h

theorem plain_congr (hsame : ∀ b, a ≤ b → b < a + t.size → buffer' b = buffer b) :
    t.Plain wrongEndian (targetWord wrongEndian buffer' a) v ↔
      t.Plain wrongEndian (targetWord wrongEndian buffer a) v := by
  by_cases hne : t = .prel31
  · subst hne
    rw [targetWord, word_congr hsame, targetWord]
  · exact plain_of_ne hne

end Cells

/-! ## Runs over a table -/

/-- Where a relocation is in the bytes of its segment. -/
def Rela.cell (seg : LoadedSegment) (r : Rela) : Nat := (r.rOffset - seg.inputVaddr).toNat

/-- The byte `b` is not one that the relocation writes. -/
def Rela.Avoids (seg : LoadedSegment) (b : Nat) (r : Rela) : Prop :=
  b < r.cell seg ∨ r.cell seg + r.type.size ≤ b

def CellsApart (seg : LoadedSegment) (r r' : Rela) : Prop :=
  r.cell seg + r.type.size ≤ r'.cell seg ∨ r'.cell seg + r'.type.size ≤ r.cell seg

instance (seg : LoadedSegment) (r r' : Rela) : Decidable (CellsApart seg r r') :=
  inferInstanceAs (Decidable (_ ∨ _))

/-- The relocation can be carried out: its symbol is found, its type is one that is supported, and
it is in its place. -/
structure Carried (m : DynModule) (r : Rela) : Prop where
  resolved : ∃ symval, m.lookup r.sym = .ok symval
  field : ∃ f, r.type.field = some f
  place : r.type.InPlace m.wrongEndian

namespace DynModule

def symval (m : DynModule) (r : Rela) : BitVec 32 :=
  match m.lookup r.sym with
  | .ok symval => symval
  | .error _ => 0

/-- The value of a relocation. -/
def value (m : DynModule) (base : BitVec 32) (seg : LoadedSegment) (r : Rela) : BitVec 32 :=
  (relocValue r.type (m.args base seg r (m.symval r))).1

def overflows (m : DynModule) (base : BitVec 32) (seg : LoadedSegment) (r : Rela) : Bool :=
  (relOverflow r.type (m.value base seg r)).1

end DynModule

section Runs

variable {m : DynModule} {base : BitVec 32} {seg : LoadedSegment} {table es : List Rela}
  {buffer : Nat → UInt8} {r : Rela} {f : RelocField}

theorem relocEntry_eq (h : Carried m r) : m.relocEntry base seg r buffer =
    relocDo r.type (m.args base seg r (m.symval r)) m.wrongEndian buffer := by
  obtain ⟨symval, hfound⟩ := h.resolved
  simp only [DynModule.relocEntry, DynModule.symval, hfound]

theorem relocEntry_bytes {b : Nat} (h : Carried m r) (hout : r.Avoids seg b) :
    (m.relocEntry base seg r buffer).1 b = buffer b := by
  obtain ⟨f, hf⟩ := h.field
  rw [relocEntry_eq h]
  exact relocDo_bytes hf h.place hout

theorem relocAll_bytes {b : Nat} (hok : ∀ r ∈ es, Carried m r)
    (hout : ∀ r ∈ es, r.Avoids seg b) : (m.relocAll base seg es buffer).1 b = buffer b := by
  induction es generalizing buffer with
  | nil => rfl
  | cons r es ih =>
    rw [DynModule.relocAll, ih (fun r' hr' => hok r' (List.mem_cons_of_mem r hr'))
      fun r' hr' => hout r' (List.mem_cons_of_mem r hr')]
    exact relocEntry_bytes (hok r List.mem_cons_self) (hout r List.mem_cons_self)

/-- Relocations of other cells do not touch a cell. -/
theorem avoids_of_apart {r' : Rela} {b : Nat} (h : CellsApart seg r r') (hlow : r.cell seg ≤ b)
    (hhigh : b < r.cell seg + r.type.size) : r'.Avoids seg b := by
  rcases h with hbefore | hafter
  · exact Or.inl (by omega)
  · exact Or.inr (by omega)

theorem CellsApart.symm {r' : Rela} (h : CellsApart seg r r') : CellsApart seg r' r := Or.symm h

/-- Every field has the bits of its value in the end. -/
theorem relocAll_field (hok : ∀ r ∈ es, Carried m r) (hapart : es.Pairwise (CellsApart seg))
    (hr : r ∈ es) (hf : r.type.field = some f)
    (hplain : r.type.Plain m.wrongEndian (targetWord m.wrongEndian buffer (r.cell seg))
      (m.value base seg r)) :
    field f.width f.start (targetWord m.wrongEndian (m.relocAll base seg es buffer).1
      (r.cell seg)) = f.cut (m.value base seg r) := by
  induction es generalizing buffer with
  | nil => cases hr
  | cons e es ih =>
    obtain ⟨hfirst, htail⟩ := List.pairwise_cons.mp hapart
    have hoks : ∀ r ∈ es, Carried m r := fun r' hr' => hok r' (List.mem_cons_of_mem e hr')
    have he := hok e List.mem_cons_self
    rw [DynModule.relocAll]
    rcases List.mem_cons.mp hr with rfl | hin
    · -- the relocations behind this one leave its cell alone
      have hrest : ∀ b, r.cell seg ≤ b → b < r.cell seg + r.type.size →
          (m.relocAll base seg es (m.relocEntry base seg r buffer).1).1 b =
            (m.relocEntry base seg r buffer).1 b := by
        intro b hlow hhigh
        apply relocAll_bytes hoks
        intro r' hr'
        exact avoids_of_apart (hfirst r' hr') hlow hhigh
      rw [field_congr hf he.place hrest, relocEntry_eq he]
      exact (relocDo_relocated hf).field hplain
    · apply ih hoks htail hin
      have hkept : ∀ b, r.cell seg ≤ b → b < r.cell seg + r.type.size →
          (m.relocEntry base seg e buffer).1 b = buffer b := by
        intro b hlow hhigh
        exact relocEntry_bytes he (avoids_of_apart (hfirst r hin).symm hlow hhigh)
      exact (plain_congr hkept).mpr hplain

theorem relocAll_printed (hok : ∀ r ∈ es, Carried m r) : (m.relocAll base seg es buffer).2 =
    es.flatMap fun r => if m.overflows base seg r then ["relocation overflow!\n"] else [] := by
  induction es generalizing buffer with
  | nil => rfl
  | cons r es ih =>
    have hr := hok r List.mem_cons_self
    obtain ⟨f, hf⟩ := hr.field
    rw [DynModule.relocAll, ih fun r' hr' => hok r' (List.mem_cons_of_mem r hr'),
      List.flatMap_cons, relocEntry_eq hr, relocDo_printed hf]
    rfl

/-- A segment after relocation: every field is read as the value of its relocation exactly when the
value is a multiple of the unit and in range, and no other byte has changed. -/
structure SegmentRelocated (m : DynModule) (table : List Rela) (seg seg' : LoadedSegment) :
    Prop where
  reads : ∀ r ∈ table, seg.covers r = true → ∀ f, r.type.field = some f →
    r.type.Plain m.wrongEndian (targetWord m.wrongEndian seg.host (r.cell seg))
      (m.value m.tiStaticBase seg r) →
    (f.Holds (m.value m.tiStaticBase seg r)
        (targetWord m.wrongEndian seg'.host (r.cell seg)) ↔
      (2 : Int) ^ f.scale ∣ (m.value m.tiStaticBase seg r).toInt ∧
        m.overflows m.tiStaticBase seg r = false)
  kept : ∀ b, (∀ r ∈ table, seg.covers r = true → r.Avoids seg b) → seg'.host b = seg.host b
  placed : seg' = { seg with host := seg'.host }

theorem relocAll_relocated (hown : ∀ r ∈ table.filter seg.covers, Carried m r)
    (hapart : (table.filter seg.covers).Pairwise (CellsApart seg)) :
    SegmentRelocated m table seg { seg with
      host := (m.relocAll m.tiStaticBase seg (table.filter seg.covers) seg.host).1 } := by
  refine ⟨?_, ?_, rfl⟩
  · intro r hr hcovers f hf hplain
    have hin : r ∈ table.filter seg.covers := List.mem_filter.mpr ⟨hr, hcovers⟩
    have hfield := relocAll_field hown hapart hin hf hplain
    rw [RelocField.holds_iff (RelocField.sound hf) hfield]
    constructor
    · rintro ⟨hdvd, hrange⟩
      exact ⟨hdvd, (RelocField.relOverflow_iff hf hdvd).mpr hrange⟩
    · rintro ⟨hdvd, hfits⟩
      exact ⟨hdvd, (RelocField.relOverflow_iff hf hdvd).mp hfits⟩
  · intro b hout
    apply relocAll_bytes hown
    intro r hr
    obtain ⟨hmem, hcovers⟩ := List.mem_filter.mp hr
    exact hout r hmem hcovers

theorem relocAll_append {es' : List Rela} : m.relocAll base seg (es ++ es') buffer =
    ((m.relocAll base seg es' (m.relocAll base seg es buffer).1).1,
      (m.relocAll base seg es buffer).2 ++
        (m.relocAll base seg es' (m.relocAll base seg es buffer).1).2) := by
  induction es generalizing buffer with
  | nil => rfl
  | cons r es ih =>
    simp only [List.cons_append, DynModule.relocAll, ih, List.append_assoc]

/-- A relocation depends on where its segment is, and not on the bytes of it. -/
theorem relocAll_host {host : Nat → UInt8} :
    m.relocAll base { seg with host := host } es buffer = m.relocAll base seg es buffer := by
  induction es generalizing buffer with
  | nil => rfl
  | cons r es ih =>
    simp only [DynModule.relocAll, ih]
    rfl

/-! ## Segments -/

theorem relocSegment_eq (hgroup : Together seg table) (hfilesz : seg.pFilesz ≠ 0) :
    m.relocSegment base table seg =
      ({ seg with host := (m.relocAll base seg (table.filter seg.covers) seg.host).1 },
        (m.relocAll base seg (table.filter seg.covers) seg.host).2) := by
  simp only [DynModule.relocSegment, if_neg hfilesz, processRelaTable_eq,
    firstRun_of_together hgroup]

theorem relocSegment_placed :
    ∃ host, (m.relocSegment base table seg).1 = { seg with host := host } := by
  by_cases hfilesz : seg.pFilesz = 0
  · rw [DynModule.relocSegment, if_pos hfilesz]
    exact ⟨seg.host, rfl⟩
  · rw [DynModule.relocSegment, if_neg hfilesz]
    exact ⟨_, rfl⟩

theorem relocSegment_empty (hfilesz : seg.pFilesz = 0) :
    m.relocSegment base table seg = (seg, []) := if_pos hfilesz

/-- A table of other segments. -/
theorem relocSegment_other (hother : ∀ r ∈ table, seg.covers r = false) :
    m.relocSegment base table seg = (seg, []) := by
  by_cases hfilesz : seg.pFilesz = 0
  · exact relocSegment_empty hfilesz
  · have hgroup : Together seg table := ⟨table, [], [], by simp, hother, by simp, by simp⟩
    have hnone : table.filter seg.covers = [] := by
      rw [List.filter_eq_nil_iff]
      intro r hr
      rw [hother r hr]
      exact Bool.false_ne_true
    rw [relocSegment_eq hgroup hfilesz, hnone]
    rfl

theorem relocSegment_silent (hgroup : Together seg table) (hok : ∀ r ∈ table, Carried m r) :
    (m.relocSegment m.tiStaticBase table seg).2 = [] ↔
      (seg.pFilesz ≠ 0 → ∀ r ∈ table, seg.covers r = true →
        m.overflows m.tiStaticBase seg r = false) := by
  by_cases hfilesz : seg.pFilesz = 0
  · simp [relocSegment_empty hfilesz, hfilesz]
  · have hown : ∀ r ∈ table.filter seg.covers, Carried m r := by
      intro r hr
      exact hok r (List.mem_filter.mp hr).1
    rw [relocSegment_eq hgroup hfilesz]
    simp only [relocAll_printed hown, List.flatMap_eq_nil_iff, List.mem_filter]
    constructor
    · intro hsilent _ r hr hcovers
      have hnone := hsilent r ⟨hr, hcovers⟩
      cases hover : m.overflows m.tiStaticBase seg r
      · rfl
      · rw [hover] at hnone
        cases hnone
    · rintro hfits r ⟨hr, hcovers⟩
      rw [hfits hfilesz r hr hcovers]
      rfl

/-- Both tables, one after the other, do what one table with the entries of both does. -/
theorem relocSegment_twice {plt : List Rela} (hplt : Together seg plt) (hgroup : Together seg table)
    (hok : ∀ r ∈ plt ++ table, Carried m r)
    (hapart : ((plt ++ table).filter seg.covers).Pairwise (CellsApart seg))
    (hfilesz : seg.pFilesz ≠ 0) :
    SegmentRelocated m (plt ++ table) seg
      (m.relocSegment m.tiStaticBase table (m.relocSegment m.tiStaticBase plt seg).1).1 := by
  have hown : ∀ r ∈ (plt ++ table).filter seg.covers, Carried m r := by
    intro r hr
    exact hok r (List.mem_filter.mp hr).1
  have hall : SegmentRelocated m (plt ++ table) seg { seg with
      host := (m.relocAll m.tiStaticBase seg ((plt ++ table).filter seg.covers) seg.host).1 } :=
    relocAll_relocated hown hapart
  have hfirst : (m.relocSegment m.tiStaticBase plt seg).1 = { seg with
      host := (m.relocAll m.tiStaticBase seg (plt.filter seg.covers) seg.host).1 } := by
    rw [relocSegment_eq hplt hfilesz]
  have hsecond (host : Nat → UInt8) :
      (m.relocSegment m.tiStaticBase table { seg with host := host }).1 = { seg with
        host := (m.relocAll m.tiStaticBase seg (table.filter seg.covers) host).1 } := by
    have hgroup' : Together { seg with host := host } table := hgroup
    rw [relocSegment_eq hgroup' hfilesz, relocAll_host]
    rfl
  rw [List.filter_append, relocAll_append] at hall
  rw [hfirst, hsecond]
  exact hall

/-! ## The module -/

def DynModule.relocEach (m : DynModule) (base : BitVec 32) (table : List Rela)
    (segs : List LoadedSegment) : Printed (List LoadedSegment) :=
  (segs.map fun seg => (m.relocSegment base table seg).1,
    segs.flatMap fun seg => (m.relocSegment base table seg).2)

/-- All entries lie in the same segment, an initialized one. -/
def InOneSegment (table : List Rela) (segs : List LoadedSegment) : Prop :=
  ∃ before seg after, segs = before ++ seg :: after ∧ seg.pFilesz ≠ 0 ∧
    (∀ r ∈ table, seg.covers r = true) ∧
    ∀ other ∈ before ++ after, ∀ r ∈ table, other.covers r = false

variable {segs : List LoadedSegment} {plt : List Rela}

theorem InOneSegment.together (h : InOneSegment table segs) : ∀ seg ∈ segs, Together seg table := by
  obtain ⟨before, owner, after, rfl, -, hin, hout⟩ := h
  intro seg hseg
  have hcase : seg = owner ∨ seg ∈ before ++ after := by
    rw [List.mem_append, List.mem_cons] at hseg
    rw [List.mem_append]
    tauto
  rcases hcase with rfl | hother
  · exact ⟨[], table, [], by simp, by simp, hin, by simp⟩
  · exact ⟨table, [], [], by simp, hout seg hother, by simp, by simp⟩

theorem relocEach_other (h : ∀ seg ∈ segs, ∀ r ∈ table, seg.covers r = false) :
    m.relocEach base table segs = (segs, []) := by
  induction segs with
  | nil => rfl
  | cons seg segs ih =>
    have hrest := ih fun s hs => h s (List.mem_cons_of_mem seg hs)
    rw [DynModule.relocEach, Prod.mk.injEq] at hrest
    rw [DynModule.relocEach, List.map_cons, List.flatMap_cons, hrest.1, hrest.2,
      relocSegment_other (h seg List.mem_cons_self)]
    rfl

/-- The loop that stops at the owner of the table does what one over all segments does. -/
theorem relocOwner_eq {first : Rela} (hfirst : first ∈ table) (h : InOneSegment table segs) :
    m.relocOwner base table first segs = m.relocEach base table segs := by
  obtain ⟨before, owner, after, rfl, hfilesz, hin, hout⟩ := h
  induction before with
  | nil =>
    have hafter : m.relocEach base table after = (after, []) := relocEach_other hout
    rw [DynModule.relocEach, Prod.mk.injEq] at hafter
    simp only [List.nil_append, DynModule.relocOwner, DynModule.relocEach, List.map_cons,
      List.flatMap_cons, hafter.1, hafter.2, List.append_nil]
    rw [if_pos ⟨hfilesz, hin first hfirst⟩]
  | cons other before ih =>
    have hother : ∀ r ∈ table, other.covers r = false := hout other List.mem_cons_self
    have hrest := ih fun s hs => hout s (List.mem_cons_of_mem other hs)
    have hskip : ¬(other.pFilesz ≠ 0 ∧ other.covers first = true) := by
      rintro ⟨-, hcovers⟩
      rw [hother first hfirst] at hcovers
      cases hcovers
    simp only [List.cons_append, DynModule.relocOwner, if_neg hskip, hrest, DynModule.relocEach,
      List.map_cons, List.flatMap_cons, relocSegment_other hother, List.nil_append]

theorem processGotRelocs_eq (hbase : m.staticBase.isNone = false) :
    m.processGotRelocs table segs = m.relocEach m.tiStaticBase table segs := by
  simp only [DynModule.processGotRelocs, DynModule.relocEach, hbase, Bool.false_eq_true, if_false,
    List.nil_append, List.map_map, List.flatMap_map]
  rfl

theorem relocate_eq (hbase : m.staticBase.isNone = false)
    (hplt : plt ≠ [] → InOneSegment plt segs) :
    m.relocate plt table segs =
      ((m.relocEach m.tiStaticBase table (m.relocEach m.tiStaticBase plt segs).1).1,
        (m.relocEach m.tiStaticBase plt segs).2 ++
          (m.relocEach m.tiStaticBase table (m.relocEach m.tiStaticBase plt segs).1).2) := by
  have hnil (segs : List LoadedSegment) : m.relocEach m.tiStaticBase [] segs = (segs, []) :=
    relocEach_other fun _ _ _ hr => absurd hr List.not_mem_nil
  have hgot (segs : List LoadedSegment) : (match table with
      | [] => (segs, [])
      | _ :: _ => m.processGotRelocs table segs) = m.relocEach m.tiStaticBase table segs := by
    cases table with
    | nil => exact (hnil segs).symm
    | cons r table => exact processGotRelocs_eq hbase
  cases plt with
  | nil =>
    rw [hnil]
    simp only [DynModule.relocate, hgot]
  | cons first plt =>
    have howner : m.relocOwner m.tiStaticBase (first :: plt) first segs =
        m.relocEach m.tiStaticBase (first :: plt) segs :=
      relocOwner_eq List.mem_cons_self (hplt (List.cons_ne_nil first plt))
    simp only [DynModule.relocate, DynModule.processPltgotRelocs, howner, hbase, Bool.false_eq_true,
      if_false, List.nil_append, hgot]

/-- The loader goes through both tables: in every initialized segment all relocations are carried
out, an uninitialized one is left as it is, and nothing is printed exactly when no value is out of
range. -/
theorem module_relocated (hbase : m.staticBase.isNone = false)
    (hplt : plt ≠ [] → InOneSegment plt segs) (hgroup : ∀ seg ∈ segs, Together seg table)
    (hok : ∀ r ∈ plt ++ table, Carried m r)
    (hapart : ∀ seg ∈ segs, ((plt ++ table).filter seg.covers).Pairwise (CellsApart seg)) :
    List.Forall₂ (fun seg seg' => (seg.pFilesz = 0 → seg' = seg) ∧
        (seg.pFilesz ≠ 0 → SegmentRelocated m (plt ++ table) seg seg'))
      segs (m.relocate plt table segs).1 ∧
    ((m.relocate plt table segs).2 = [] ↔ ∀ seg ∈ segs, seg.pFilesz ≠ 0 →
      ∀ r ∈ plt ++ table, seg.covers r = true → m.overflows m.tiStaticBase seg r = false) := by
  have hown : ∀ seg ∈ segs, Together seg plt := by
    intro seg hseg
    by_cases hempty : plt = []
    · subst hempty
      exact ⟨[], [], [], rfl, by simp, by simp, by simp⟩
    · exact (hplt hempty).together seg hseg
  have hokPlt : ∀ r ∈ plt, Carried m r := fun r hr => hok r (List.mem_append_left table hr)
  have hokGot : ∀ r ∈ table, Carried m r := fun r hr => hok r (List.mem_append_right plt hr)
  rw [relocate_eq hbase hplt]
  constructor
  · simp only [DynModule.relocEach, List.map_map]
    rw [List.forall₂_map_right_iff, List.forall₂_same]
    intro seg hseg
    constructor
    · intro hfilesz
      simp only [Function.comp, relocSegment_empty hfilesz]
    · intro hfilesz
      exact relocSegment_twice (hown seg hseg) (hgroup seg hseg) hok (hapart seg hseg) hfilesz
  · simp only [DynModule.relocEach, List.append_eq_nil_iff, List.flatMap_map,
      List.flatMap_eq_nil_iff, ← forall₂_and]
    refine forall₂_congr fun seg hseg => ?_
    -- the first table changes only bytes, so that the second one finds the segment where it was
    obtain ⟨host, hplaced⟩ :
        ∃ host, (m.relocSegment m.tiStaticBase plt seg).1 = { seg with host := host } :=
      relocSegment_placed
    have hgroup' : Together { seg with host := host } table := hgroup seg hseg
    have hfirst := relocSegment_silent (hown seg hseg) hokPlt
    have hsecond := relocSegment_silent hgroup' hokGot
    rw [hplaced, hfirst, hsecond]
    constructor
    · rintro ⟨hfits, hfits'⟩ hfilesz r hr
      rcases List.mem_append.mp hr with hr | hr
      · exact hfits hfilesz r hr
      · exact hfits' hfilesz r hr
    · intro hfits
      exact ⟨fun hfilesz r hr => hfits hfilesz r (List.mem_append_left table hr),
        fun hfilesz r hr => hfits hfilesz r (List.mem_append_right plt hr)⟩

/-- Two instructions that load the halves of one value load the value. -/
theorem SegmentRelocated.halves {seg' : LoadedSegment} {low high : Rela} {fl fh : RelocField}
    (h : SegmentRelocated m table seg seg')
    (hlow : low ∈ table ∧ seg.covers low = true ∧ low.type.field = some fl ∧ fl.reading = .low)
    (hhigh : high ∈ table ∧ seg.covers high = true ∧ high.type.field = some fh ∧
      fh.reading = .high)
    (hscale : fl.scale = fh.scale)
    (hvalue : m.value m.tiStaticBase seg low = m.value m.tiStaticBase seg high)
    (hdvd : (2 : Int) ^ fh.scale ∣ (m.value m.tiStaticBase seg high).toInt) :
    ((field fh.width fh.start (targetWord m.wrongEndian seg'.host (high.cell seg))).toInt * 2 ^ 16 +
      (field fl.width fl.start (targetWord m.wrongEndian seg'.host (low.cell seg))).toNat) *
        2 ^ fh.scale = (m.value m.tiStaticBase seg high).toInt := by
  have hplain {t : RelocType} {f : RelocField} {x v : BitVec 32} (hf : t.field = some f)
      (hhalf : f.reading = .low ∨ f.reading = .high) : t.Plain m.wrongEndian x v := by
    cases t <;> cases hf <;> trivial
  obtain ⟨hlmem, hlcovers, hlfield, hlread⟩ := hlow
  obtain ⟨hhmem, hhcovers, hhfield, hhread⟩ := hhigh
  have hldvd : (2 : Int) ^ fl.scale ∣ (m.value m.tiStaticBase seg low).toInt := by
    rw [hvalue, hscale]
    exact hdvd
  have hlfits : fl.InRange (m.value m.tiStaticBase seg low) := by
    rw [RelocField.InRange, hlread]
    trivial
  have hhfits : fh.InRange (m.value m.tiStaticBase seg high) := by
    rw [RelocField.InRange, hhread]
    trivial
  have hl := (h.reads low hlmem hlcovers fl hlfield (hplain hlfield (Or.inl hlread))).mpr
    ⟨hldvd, (RelocField.relOverflow_iff hlfield hldvd).mpr hlfits⟩
  have hh := (h.reads high hhmem hhcovers fh hhfield (hplain hhfield (Or.inr hhread))).mpr
    ⟨hdvd, (RelocField.relOverflow_iff hhfield hdvd).mpr hhfits⟩
  rw [hvalue] at hl
  exact halves_join hlread hhread hscale hl hh ((RelocField.sound hlfield).half (Or.inl hlread))

end Runs

section Small

def smallModule : DynModule where
  wrongEndian := false
  dsbtIndex := 0
  lookup := fun sym => if sym = 1 then .ok 0x8000 else .error "Could not resolve symbol!\n"
  staticBase := some 0x9000

/-- A call and the two halves of an address. -/
def smallTable : List Rela :=
  [⟨0x1004, 0x104, 0⟩, ⟨0x1008, 0x109, 4⟩, ⟨0x100C, 0x10A, 4⟩]

/-- The address of a function. -/
def smallPlt : List Rela := [⟨0x1010, 0x101, 0⟩]

def smallSegment : LoadedSegment := ⟨0x1000, 0x2000, 0x100, 0x100, fun _ => 0xFF⟩

/-- Memory that is not initialized. -/
def smallBss : LoadedSegment := ⟨0x3000, 0x3000, 0x40, 0, fun _ => 0⟩

theorem smallTable_together : ∀ seg ∈ [smallBss, smallSegment], Together seg smallTable := by
  intro seg hseg
  rcases List.mem_cons.mp hseg with rfl | hseg
  · exact ⟨smallTable, [], [], rfl, by decide, by decide, by decide⟩
  · obtain rfl := List.mem_singleton.mp hseg
    exact ⟨[], smallTable, [], rfl, by decide, by decide, by decide⟩

theorem small_carried : ∀ r ∈ smallPlt ++ smallTable, Carried smallModule r := by
  intro r hr
  have hfound : r.sym = 1 ∧ ∃ f, r.type.field = some f := by
    simp only [smallPlt, smallTable, List.cons_append, List.nil_append, List.mem_cons,
      List.not_mem_nil, or_false] at hr
    rcases hr with rfl | rfl | rfl | rfl <;> exact ⟨by decide, _, rfl⟩
  refine ⟨⟨0x8000, ?_⟩, hfound.2, Or.inl rfl⟩
  rw [smallModule, hfound.1]
  rfl

theorem small_apart : ∀ seg ∈ [smallBss, smallSegment],
    ((smallPlt ++ smallTable).filter seg.covers).Pairwise (CellsApart seg) := by
  intro seg hseg
  rcases List.mem_cons.mp hseg with rfl | hseg
  · decide
  · obtain rfl := List.mem_singleton.mp hseg
    decide

theorem small_module_relocated :
    List.Forall₂ (fun seg seg' => (seg.pFilesz = 0 → seg' = seg) ∧
        (seg.pFilesz ≠ 0 → SegmentRelocated smallModule (smallPlt ++ smallTable) seg seg'))
      [smallBss, smallSegment]
      (smallModule.relocate smallPlt smallTable [smallBss, smallSegment]).1 ∧
    (smallModule.relocate smallPlt smallTable [smallBss, smallSegment]).2 = [] := by
  have hplt : InOneSegment smallPlt [smallBss, smallSegment] := by
    refine ⟨[smallBss], smallSegment, [], rfl, by decide, by decide, ?_⟩
    intro other hother
    obtain rfl := List.mem_singleton.mp hother
    decide
  have hfits : ∀ r ∈ smallPlt ++ smallTable, ∀ seg ∈ [smallBss, smallSegment],
      smallModule.overflows smallModule.tiStaticBase seg r = false := by
    intro r hr seg hseg
    simp only [smallPlt, smallTable, List.cons_append, List.nil_append, List.mem_cons,
      List.not_mem_nil, or_false] at hr hseg
    rcases hr with rfl | rfl | rfl | rfl <;> rcases hseg with rfl | rfl <;> decide
  obtain ⟨hall, hprinted⟩ := module_relocated (m := smallModule) rfl (fun _ => hplt)
    smallTable_together small_carried small_apart
  refine ⟨hall, hprinted.mpr ?_⟩
  intro seg hseg hfilesz r hr hcovers
  exact hfits r hr seg hseg

/-- The segment after both tables. -/
def smallLoaded : LoadedSegment :=
  (smallModule.relocSegment smallModule.tiStaticBase smallTable
    (smallModule.relocSegment smallModule.tiStaticBase smallPlt smallSegment).1).1

theorem small_address_loaded :
    ((field 16 7 (targetWord smallModule.wrongEndian smallLoaded.host
        (Rela.cell smallSegment ⟨0x100C, 0x10A, 4⟩))).toInt * 2 ^ 16 +
      (field 16 7 (targetWord smallModule.wrongEndian smallLoaded.host
        (Rela.cell smallSegment ⟨0x1008, 0x109, 4⟩))).toNat) * 2 ^ 0 =
      (smallModule.value smallModule.tiStaticBase smallSegment ⟨0x100C, 0x10A, 4⟩).toInt := by
  have hplt : Together smallSegment smallPlt :=
    ⟨[], smallPlt, [], rfl, by decide, by decide, by decide⟩
  have hmem : smallSegment ∈ [smallBss, smallSegment] :=
    List.mem_cons_of_mem smallBss List.mem_cons_self
  have hdone : SegmentRelocated smallModule (smallPlt ++ smallTable) smallSegment smallLoaded :=
    relocSegment_twice hplt (smallTable_together _ hmem) small_carried (small_apart _ hmem)
      (by decide)
  have hlow : (⟨0x1008, 0x109, 4⟩ : Rela) ∈ smallPlt ++ smallTable ∧
      smallSegment.covers ⟨0x1008, 0x109, 4⟩ = true ∧
      (⟨0x1008, 0x109, 4⟩ : Rela).type.field = some ⟨16, 7, 0, .low⟩ ∧
      (⟨16, 7, 0, .low⟩ : RelocField).reading = .low :=
    ⟨by decide, by decide, rfl, rfl⟩
  have hhigh : (⟨0x100C, 0x10A, 4⟩ : Rela) ∈ smallPlt ++ smallTable ∧
      smallSegment.covers ⟨0x100C, 0x10A, 4⟩ = true ∧
      (⟨0x100C, 0x10A, 4⟩ : Rela).type.field = some ⟨16, 7, 0, .high⟩ ∧
      (⟨16, 7, 0, .high⟩ : RelocField).reading = .high :=
    ⟨by decide, by decide, rfl, rfl⟩
  have hvalue : smallModule.value smallModule.tiStaticBase smallSegment ⟨0x1008, 0x109, 4⟩ =
      smallModule.value smallModule.tiStaticBase smallSegment ⟨0x100C, 0x10A, 4⟩ := by decide
  have hloaded := hdone.halves hlow hhigh rfl hvalue (by simp only [pow_zero, one_dvd])
  exact hloaded

end Small

end Shamrock.Dsp
