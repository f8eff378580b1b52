import Shamrock.Lib.Loop
import Mathlib.Algebra.BigOperators.Group.List.Basic
import Mathlib.Data.Nat.Find

/-!
# Guessing the size of a work-group

What `guessWorkGroupSize` answers on both devices when the application gives no local size. The
number of passes of its loop is an argument: a loop that is never left has no answer for any.
-/
namespace Shamrock.Runtime

open Loop

inductive DeviceKind
  | cpu
  | dsp
  deriving DecidableEq, Repr

/-- `CPUKernel` or `DSPKernel`, with what `numCPUs` or `numDSPs` answers. -/
structure DeviceKernel where
  kind : DeviceKind
  units : UInt32
  units_pos : 0 < units
  deriving DecidableEq, Repr

def kExp (base : UInt64) (e : Nat) : UInt64 := (· * base)^[e - 1] base

/-- `a % b` -/
def remainder (a b : UInt64) : Option UInt64 := if b = 0 then none else some (a % b)

/-- `a / b` -/
def quotient (a b : UInt64) : Option UInt64 := if b = 0 then none else some (a / b)

/-- One pass of the search for a divisor, and what is tried `next`. -/
def searchPass (next : UInt32 → UInt32) (units : UInt32) (size : UInt64) (divisor : UInt32) :
    Option (UInt32 ⊕ UInt32) := do
  if (← remainder size divisor.toUInt64) = 0 then return .inr divisor
  if size < divisor.toUInt64 || units * 32 < divisor then return .inr 1
  return .inl (next divisor)

/-- The loop of `CPUKernel::guessWorkGroupSize`: the divisor stays what it is. -/
def cpuPass (cpus : UInt32) : UInt64 → UInt32 → Option (UInt32 ⊕ UInt32) :=
  searchPass (fun divisor => divisor) cpus

/-- The loop of `DSPKernel::guessWorkGroupSize`. -/
def dspPass (dsps : UInt32) : UInt64 → UInt32 → Option (UInt32 ⊕ UInt32) :=
  searchPass (fun divisor => divisor - 1) dsps

namespace DeviceKernel

/-- One pass of the loop over the divisors. -/
def pass (k : DeviceKernel) : UInt64 → UInt32 → Option (UInt32 ⊕ UInt32) :=
  match k.kind with
  | .cpu => cpuPass k.units
  | .dsp => dspPass k.units

def firstDivisor (k : DeviceKernel) : UInt32 :=
  match k.kind with
  | .cpu => k.units
  | .dsp => if k.units ≤ 0 then 1 else k.units

/-- `guessWorkGroupSize`, with at most `n` passes; neither device looks at `dim`. -/
def guessWorkGroupSize (k : DeviceKernel) (n numDims : Nat) (size : UInt64) : Option UInt64 :=
  if 64 < kExp size numDims then some size
  else (passes (k.pass size) n k.firstDivisor).bind fun divisor => quotient size divisor.toUInt64

/-- What `info` answers for `CL_DEVICE_MAX_WORK_GROUP_SIZE`. -/
def maxWorkGroupSize (k : DeviceKernel) : UInt64 :=
  match k.kind with
  | .cpu => 46 * 1024
  | .dsp => 0xffffffff

/-- A size is not broken into parts if its power, as far as it fits, is large. -/
def Whole (numDims : Nat) (size : UInt64) : Prop := 64 < size.toNat ^ numDims % 2 ^ 64

instance {numDims : Nat} {size : UInt64} : Decidable (Whole numDims size) :=
  inferInstanceAs (Decidable (_ < _))

/-- The first divisor is the only one that is tried. -/
def TriesOne (k : DeviceKernel) (size : UInt64) : Prop :=
  k.kind = .cpu ∨ size.toNat < k.units.toNat ∨ k.units.toNat * 32 % 2 ^ 32 < k.units.toNat

instance {k : DeviceKernel} {size : UInt64} : Decidable (k.TriesOne size) :=
  inferInstanceAs (Decidable (_ ∨ _))

/-- How many parts a size is broken into. -/
def parts (k : DeviceKernel) (numDims : Nat) (size : UInt64) : Nat :=
  if Whole numDims size then 1
  else if k.TriesOne size then if k.units.toNat ∣ size.toNat then k.units.toNat else 1
  else Nat.findGreatest (· ∣ size.toNat) k.units.toNat

/-- The loop is not entered, or its first divisor is one, or it is too large, or there is a next
one. -/
def Leaves (k : DeviceKernel) (numDims : Nat) (size : UInt64) : Prop :=
  Whole numDims size ∨ k.units.toNat ∣ size.toNat ∨ size.toNat < k.units.toNat ∨
    k.units.toNat * 32 % 2 ^ 32 < k.units.toNat ∨ k.kind = .dsp

instance {k : DeviceKernel} {numDims : Nat} {size : UInt64} : Decidable (k.Leaves numDims size) :=
  inferInstanceAs (Decidable (_ ∨ _))

end DeviceKernel

variable {k : DeviceKernel} {size l : UInt64} {divisor d e : UInt32} {numDims n : Nat}

theorem kExp_toNat (h : 0 < numDims) :
    (kExp size numDims).toNat = size.toNat ^ numDims % 2 ^ 64 := by
  have hiter : ∀ i, ((· * size)^[i] size).toNat = size.toNat ^ (i + 1) % 2 ^ 64 := by
    intro i
    induction i with
    | zero => simp [Nat.mod_eq_of_lt size.toNat_lt]
    | succ i ih =>
      rw [Function.iterate_succ_apply', UInt64.toNat_mul, ih, pow_succ _ (i + 1), Nat.mod_mul_mod]
  rw [kExp, hiter, Nat.sub_add_cancel h]

theorem whole_iff (h : 0 < numDims) : 64 < kExp size numDims ↔ DeviceKernel.Whole numDims size := by
  rw [DeviceKernel.Whole, ← kExp_toNat h]
  exact Iff.rfl

theorem toUInt64_eq_zero : divisor.toUInt64 = 0 ↔ divisor = 0 := by
  rw [← UInt64.toNat_inj, ← UInt32.toNat_inj, UInt32.toNat_toUInt64]
  exact Iff.rfl

/-- A pass, in numbers. -/
theorem searchPass_eq {next : UInt32 → UInt32} {units : UInt32} (h : divisor ≠ 0) :
    searchPass next units size divisor = some
      (if divisor.toNat ∣ size.toNat then .inr divisor
      else if size.toNat < divisor.toNat ∨ units.toNat * 32 % 2 ^ 32 < divisor.toNat then .inr 1
      else .inl (next divisor)) := by
  have hmod : size % divisor.toUInt64 = 0 ↔ divisor.toNat ∣ size.toNat := by
    rw [← UInt64.toNat_inj, UInt64.toNat_mod, UInt32.toNat_toUInt64, Nat.dvd_iff_mod_eq_zero]
    exact Iff.rfl
  have hsize : size < divisor.toUInt64 ↔ size.toNat < divisor.toNat := by
    rw [UInt64.lt_iff_toNat_lt, UInt32.toNat_toUInt64]
  have hunits : units * 32 < divisor ↔ units.toNat * 32 % 2 ^ 32 < divisor.toNat := by
    rw [UInt32.lt_iff_toNat_lt, UInt32.toNat_mul]
    exact Iff.rfl
  have hne : divisor.toUInt64 ≠ 0 := mt toUInt64_eq_zero.mp h
  simp only [searchPass, remainder, hne, if_false, Option.bind_eq_bind, Option.bind_some, hmod,
    Bool.or_eq_true, decide_eq_true_eq, hsize, hunits]
  split_ifs <;> rfl

namespace DeviceKernel

theorem units_ne (k : DeviceKernel) : k.units ≠ 0 := fun h => by
  have hpos := k.units_pos
  rw [h] at hpos
  exact absurd hpos (by decide)

theorem units_toNat_pos (k : DeviceKernel) : 0 < k.units.toNat := k.units_pos

theorem firstDivisor_eq : k.firstDivisor = k.units := by
  have hle : ¬k.units ≤ 0 := UInt32.not_le.mpr k.units_pos
  unfold firstDivisor
  cases k.kind with
  | cpu => rfl
  | dsp => exact if_neg hle

/-- What the device tries after a divisor. -/
def next (k : DeviceKernel) (divisor : UInt32) : UInt32 :=
  match k.kind with
  | .cpu => divisor
  | .dsp => divisor - 1

theorem pass_eq (h : divisor ≠ 0) : k.pass size divisor = some
    (if divisor.toNat ∣ size.toNat then .inr divisor
    else if size.toNat < divisor.toNat ∨ k.units.toNat * 32 % 2 ^ 32 < divisor.toNat then .inr 1
    else .inl (k.next divisor)) := by
  unfold pass next
  cases k.kind with
  | cpu => exact searchPass_eq h
  | dsp => exact searchPass_eq h

/-- Where only one divisor is tried, it is the answer, or one is, or the search goes on with the
same divisor. -/
theorem first_pass (htries : k.TriesOne size) : k.pass size k.firstDivisor = some
    (if k.units.toNat ∣ size.toNat then .inr k.units
    else if size.toNat < k.units.toNat ∨ k.units.toNat * 32 % 2 ^ 32 < k.units.toNat then .inr 1
    else .inl k.firstDivisor) := by
  rw [firstDivisor_eq, pass_eq k.units_ne]
  split_ifs with hdvd hlarge
  · rfl
  · rfl
  · have hcpu : k.kind = .cpu := htries.resolve_right hlarge
    rw [next, hcpu]

theorem kind_of_not_triesOne (h : ¬k.TriesOne size) : k.kind = .dsp := by
  cases hkind : k.kind with
  | cpu => exact absurd (.inl hkind) h
  | dsp => rfl

/-- The search on the DSP goes down to the largest divisor. -/
structure Descends (k : DeviceKernel) (size : UInt64) (d : UInt32) : Prop where
  pos : 0 < d.toNat
  le : d.toNat ≤ k.units.toNat
  greatest : Nat.findGreatest (· ∣ size.toNat) d.toNat =
    Nat.findGreatest (· ∣ size.toNat) k.units.toNat

theorem descends_pass (htries : ¬k.TriesOne size) (h : k.Descends size d) :
    (k.pass size d = some (.inr d) ∧ d.toNat ∣ size.toNat) ∨
    ∃ e, k.pass size d = some (.inl e) ∧ k.Descends size e ∧ e.toNat < d.toNat := by
  have hpos := h.pos
  have hle := h.le
  have hne : d ≠ 0 := by
    rintro rfl
    exact absurd hpos (by decide)
  have hdsp := kind_of_not_triesOne htries
  unfold TriesOne at htries
  have hfits : ¬(size.toNat < d.toNat ∨ k.units.toNat * 32 % 2 ^ 32 < d.toNat) := by omega
  rw [pass_eq hne, if_neg hfits, next, hdsp]
  by_cases hdvd : d.toNat ∣ size.toNat
  · left
    rw [if_pos hdvd]
    exact ⟨rfl, hdvd⟩
  · right
    have hone : d.toNat ≠ 1 := by
      intro h1
      rw [h1] at hdvd
      exact hdvd (one_dvd _)
    have hge : (1 : UInt32) ≤ d := UInt32.le_iff_toNat_le.mpr hpos
    have hpred : (d - 1).toNat = d.toNat - 1 := UInt32.toNat_sub_of_le d 1 hge
    rw [if_neg hdvd]
    refine ⟨d - 1, rfl, ⟨by omega, by omega, ?_⟩, by omega⟩
    obtain ⟨m, hm⟩ : ∃ m, d.toNat = m + 1 := ⟨d.toNat - 1, by omega⟩
    rw [← h.greatest, hpred, hm, Nat.add_sub_cancel, Nat.findGreatest_of_not (by rwa [← hm])]

theorem descends_first : k.Descends size k.firstDivisor := by
  rw [firstDivisor_eq]
  exact ⟨k.units_toNat_pos, le_rfl, rfl⟩

theorem search_ends (h : ¬k.TriesOne size) :
    ∃ n d, passes (k.pass size) n k.firstDivisor = some d := by
  refine ⟨k.firstDivisor.toNat + 1, passes_end UInt32.toNat ?_ (descends_first : k.Descends size _)
    (by omega)⟩
  intro d hd
  rcases descends_pass h hd with ⟨hr, -⟩ | ⟨e, he, hdesc, hlt⟩
  · exact .inl ⟨d, hr⟩
  · exact .inr ⟨e, he, hdesc, hlt⟩

/-- The divisor that the search leaves with. -/
theorem divisor_of_search (h : passes (k.pass size) n k.firstDivisor = some d) :
    d.toNat = if k.TriesOne size then if k.units.toNat ∣ size.toNat then k.units.toNat else 1
      else Nat.findGreatest (· ∣ size.toNat) k.units.toNat := by
  by_cases htries : k.TriesOne size
  · rw [if_pos htries]
    have hpass := first_pass htries
    cases n with
    | zero => cases h
    | succ n =>
      split_ifs at hpass ⊢ with hdvd hlarge
      · cases (passes_leave hpass).symm.trans h
        rfl
      · cases (passes_leave hpass).symm.trans h
        rfl
      · cases (passes_stuck hpass).symm.trans h
  · rw [if_neg htries]
    refine passes_post (Q := fun d => d.toNat = _) ?_ ?_
      (descends_first : k.Descends size k.firstDivisor) h
    · intro s t hs ht
      rcases descends_pass htries hs with ⟨hr, -⟩ | ⟨e, he, hdesc, -⟩
      · cases hr.symm.trans ht
      · cases he.symm.trans ht
        exact hdesc
    · intro s b hs hb
      rcases descends_pass htries hs with ⟨hr, hdvd⟩ | ⟨e, he, -, -⟩
      · cases hr.symm.trans hb
        rw [← hs.greatest]
        exact (Nat.findGreatest_eq (P := (· ∣ size.toNat)) hdvd).symm
      · cases he.symm.trans hb

theorem parts_pos (k : DeviceKernel) (numDims : Nat) (size : UInt64) :
    0 < k.parts numDims size := by
  have hunits := k.units_toNat_pos
  unfold parts
  split_ifs with hwhole htries hdvd
  · omega
  · exact hunits
  · omega
  · exact Nat.findGreatest_pos.mpr ⟨1, by omega, hunits, one_dvd _⟩

theorem parts_dvd (k : DeviceKernel) (numDims : Nat) (size : UInt64) :
    k.parts numDims size ∣ size.toNat := by
  unfold parts
  split_ifs with hwhole htries hdvd
  · exact one_dvd _
  · exact hdvd
  · exact one_dvd _
  · exact Nat.findGreatest_spec (P := (· ∣ size.toNat)) k.units_pos (one_dvd _)

/-- A guess, if there is one, is the size of one of the parts. -/
theorem guess_eq (hdims : 0 < numDims) (h : k.guessWorkGroupSize n numDims size = some l) :
    l.toNat = size.toNat / k.parts numDims size := by
  unfold guessWorkGroupSize at h
  unfold parts
  by_cases hwhole : 64 < kExp size numDims
  · rw [if_pos hwhole] at h
    cases h
    rw [if_pos ((whole_iff hdims).mp hwhole), Nat.div_one]
  · rw [if_neg hwhole] at h
    rw [if_neg (mt (whole_iff hdims).mpr hwhole)]
    obtain ⟨d, hd, hl⟩ := Option.bind_eq_some_iff.mp h
    rw [← divisor_of_search hd]
    unfold quotient at hl
    split_ifs at hl
    cases hl
    rw [UInt64.toNat_div, UInt32.toNat_toUInt64]

theorem guess_mono {m : Nat} (h : k.guessWorkGroupSize n numDims size = some l) (hle : n ≤ m) :
    k.guessWorkGroupSize m numDims size = some l := by
  unfold guessWorkGroupSize at h ⊢
  split_ifs at h ⊢ with hwhole
  · exact h
  · obtain ⟨d, hd, hl⟩ := Option.bind_eq_some_iff.mp h
    exact Option.bind_eq_some_iff.mpr ⟨d, passes_mono hd hle, hl⟩

theorem search_leaves_iff : (∃ n d, passes (k.pass size) n k.firstDivisor = some d) ↔
    k.units.toNat ∣ size.toNat ∨ size.toNat < k.units.toNat ∨
      k.units.toNat * 32 % 2 ^ 32 < k.units.toNat ∨ k.kind = .dsp := by
  by_cases htries : k.TriesOne size
  · have hpass := first_pass htries
    split_ifs at hpass with hdvd hlarge
    · exact iff_of_true ⟨1, _, passes_leave hpass⟩ (.inl hdvd)
    · refine iff_of_true ⟨1, _, passes_leave hpass⟩ (.inr ?_)
      rcases hlarge with hlt | hwrap
      · exact .inl hlt
      · exact .inr (.inl hwrap)
    · apply iff_of_false
      · rintro ⟨n, d, hd⟩
        cases (passes_stuck hpass).symm.trans hd
      · rintro (h | h | h | h)
        · exact hdvd h
        · exact hlarge (.inl h)
        · exact hlarge (.inr h)
        · have hcpu : k.kind = .cpu := htries.resolve_right hlarge
          cases h.symm.trans hcpu
  · exact iff_of_true (search_ends htries) (.inr (.inr (.inr (kind_of_not_triesOne htries))))

/-- The device guesses exactly when its loop is left. -/
theorem guess_iff (hdims : 0 < numDims) :
    (∃ n l, k.guessWorkGroupSize n numDims size = some l) ↔ k.Leaves numDims size := by
  by_cases hwhole : 64 < kExp size numDims
  · have hw := (whole_iff hdims).mp hwhole
    exact iff_of_true ⟨0, size, if_pos hwhole⟩ (.inl hw)
  · have hw := mt (whole_iff hdims).mpr hwhole
    rw [Leaves, or_iff_right hw, ← search_leaves_iff]
    simp only [guessWorkGroupSize, if_neg hwhole]
    constructor
    · rintro ⟨n, l, h⟩
      obtain ⟨d, hd, -⟩ := Option.bind_eq_some_iff.mp h
      exact ⟨n, d, hd⟩
    · rintro ⟨n, d, hd⟩
      refine ⟨n, size / d.toUInt64, Option.bind_eq_some_iff.mpr ⟨d, hd, if_neg ?_⟩⟩
      rw [toUInt64_eq_zero]
      rintro rfl
      have hparts := parts_pos k numDims size
      rw [parts, if_neg hw, ← divisor_of_search hd] at hparts
      exact absurd hparts (by decide)

/-- The sizes guessed for the dimensions of one launch. -/
def guesses (k : DeviceKernel) (n : Nat) (globals : List UInt64) : Option (List UInt64) :=
  globals.mapM (k.guessWorkGroupSize n globals.length)

end DeviceKernel

section Launch

variable {globals sizes : List UInt64}

/-- Every guess comes and divides its global size, and a work-group of these sizes is not larger
than the device allows. -/
def GuessesUsable (k : DeviceKernel) (globals : List UInt64) : Prop :=
  ∃ n sizes, k.guesses n globals = some sizes ∧
    List.Forall₂ (fun size l => 0 < l.toNat ∧ l.toNat ∣ size.toNat) globals sizes ∧
    (sizes.map UInt64.toNat).prod ≤ k.maxWorkGroupSize.toNat

theorem guesses_iff (hdims : globals ≠ []) : (∃ n sizes, k.guesses n globals = some sizes) ↔
    ∀ size ∈ globals, k.Leaves globals.length size := by
  have hlen : 0 < globals.length := List.length_pos_iff.mpr hdims
  have hmono : ∀ n m size l, n ≤ m → k.guessWorkGroupSize n globals.length size = some l →
      k.guessWorkGroupSize m globals.length size = some l :=
    fun n m size l hle h => DeviceKernel.guess_mono h hle
  calc (∃ n sizes, k.guesses n globals = some sizes)
    _ ↔ ∀ size ∈ globals, ∃ n l, k.guessWorkGroupSize n globals.length size = some l :=
      mapM_ends_iff hmono
    _ ↔ _ := forall₂_congr fun size _ => DeviceKernel.guess_iff hlen

theorem guesses_eq (hdims : globals ≠ []) (h : k.guesses n globals = some sizes) :
    sizes.map UInt64.toNat = globals.map fun size => size.toNat / k.parts globals.length size := by
  have hlen : 0 < globals.length := List.length_pos_iff.mpr hdims
  have hall := forall₂_of_mapM h
  generalize globals.length = numDims at hlen hall ⊢
  clear hdims h
  induction hall with
  | nil => rfl
  | cons hl _ ih => rw [List.map_cons, List.map_cons, ih, DeviceKernel.guess_eq hlen hl]

theorem guesses_divide (hdims : globals ≠ []) (hpos : ∀ size ∈ globals, 0 < size.toNat)
    (h : k.guesses n globals = some sizes) :
    List.Forall₂ (fun size l => 0 < l.toNat ∧ l.toNat ∣ size.toNat) globals sizes := by
  have hlen : 0 < globals.length := List.length_pos_iff.mpr hdims
  have hall := forall₂_of_mapM h
  generalize globals.length = numDims at hlen hall
  clear hdims h
  induction hall with
  | nil => exact .nil
  | @cons size l globals sizes hl _ ih =>
    rw [List.forall_mem_cons] at hpos
    have hdvd := k.parts_dvd numDims size
    have hle := Nat.le_of_dvd hpos.1 hdvd
    have heq := DeviceKernel.guess_eq hlen hl
    refine .cons ⟨?_, ?_⟩ (ih hpos.2)
    · rw [heq]
      exact Nat.div_pos hle (k.parts_pos numDims size)
    · rw [heq]
      exact Nat.div_dvd_of_dvd hdvd

/-- A launch gets sizes it can use if every loop is left, and the parts of its global sizes make
up a work-group that the device allows. -/
theorem guesses_usable_iff (k : DeviceKernel) (globals : List UInt64)
    (hdims : 1 ≤ globals.length ∧ globals.length ≤ 3) (hpos : ∀ size ∈ globals, 0 < size.toNat) :
    GuessesUsable k globals ↔ (∀ size ∈ globals, k.Leaves globals.length size) ∧
      (globals.map fun size => size.toNat / k.parts globals.length size).prod ≤
        k.maxWorkGroupSize.toNat := by
  have hne : globals ≠ [] := List.length_pos_iff.mp hdims.1
  unfold GuessesUsable
  rw [← guesses_iff hne]
  constructor
  · rintro ⟨n, sizes, h, -, hle⟩
    rw [← guesses_eq hne h]
    exact ⟨⟨n, sizes, h⟩, hle⟩
  · rintro ⟨⟨n, sizes, h⟩, hle⟩
    rw [← guesses_eq hne h] at hle
    exact ⟨n, sizes, h, guesses_divide hne hpos h, hle⟩

def fourCPUs : DeviceKernel := ⟨.cpu, 4, by decide⟩

theorem eight_items_guessed : GuessesUsable fourCPUs [8] :=
  (guesses_usable_iff fourCPUs [8] (by decide) (List.forall_mem_singleton.mpr (by decide))).mpr
    ⟨List.forall_mem_singleton.mpr (by decide), by decide⟩

/-- The divisor of five work-items is tried on four processors forever. -/
theorem five_items_never_guessed : ¬∀ (k : DeviceKernel) (globals : List UInt64),
    1 ≤ globals.length ∧ globals.length ≤ 3 → (∀ size ∈ globals, 0 < size.toNat) →
    GuessesUsable k globals := by
  intro h
  obtain ⟨n, sizes, hsome, -⟩ :=
    h fourCPUs [5] (by decide) (List.forall_mem_singleton.mpr (by decide))
  have hleaves := (guesses_iff (List.cons_ne_nil 5 [])).mp ⟨n, sizes, hsome⟩
  exact absurd (List.forall_mem_singleton.mp hleaves) (by decide)

end Launch

end Shamrock.Runtime
