import Shamrock.Dsp.Aggregation

/-!
# What aggregation preserves

The loops of the new function read the local ids of the work-group if no dimension is missing. A
query at run time reads the last two of them in exchange.
-/
namespace Shamrock.Dsp

open LoopNest

variable {calls : List DimArg} {sizes : Nat → BitVec 32} {dims i d : Nat}

/-! ## The pass -/

section Pass

theorem findNeededLoopNest_le (h : d ≤ 3) : findNeededLoopNest d calls ≤ 3 := by
  induction calls generalizing d with
  | nil => exact h
  | cons c calls ih =>
    cases c with
    | const dim =>
      refine ih ?_
      unfold maxDimensions
      omega
    | runTime => exact Nat.le_refl _

theorem le_findNeededLoopNest (calls : List DimArg) (h : d ≤ 3) :
    d ≤ findNeededLoopNest d calls := by
  induction calls generalizing d with
  | nil => exact Nat.le_refl _
  | cons c calls ih =>
    cases c with
    | const dim => exact Nat.le_trans (Nat.le_max_left _ _) (ih (by unfold maxDimensions; omega))
    | runTime => exact h

/-- A constant dimension has its loop. -/
theorem lt_findNeededLoopNest {dim : Fin 3} (h : d ≤ 3) (hmem : DimArg.const dim ∈ calls) :
    dim.val < findNeededLoopNest d calls := by
  induction calls generalizing d with
  | nil => cases hmem
  | cons c calls ih =>
    cases c with
    | const dim' =>
      have hle : max d (min (maxDimensions - 1) dim'.val + 1) ≤ 3 := by
        unfold maxDimensions
        omega
      rcases List.mem_cons.mp hmem with heq | hmem
      · cases heq
        have hnest := le_findNeededLoopNest calls hle
        unfold maxDimensions at hnest
        simp only [findNeededLoopNest, maxDimensions]
        omega
      · exact ih hle hmem
    | runTime =>
      have hlt := dim.isLt
      exact hlt

theorem findNeededLoopNest_runTime (hmem : DimArg.runTime ∈ calls) :
    findNeededLoopNest d calls = 3 := by
  induction calls generalizing d with
  | nil => cases hmem
  | cons c calls ih =>
    cases c with
    | const dim =>
      rcases List.mem_cons.mp hmem with heq | hmem
      · cases heq
      · exact ih hmem
    | runTime => rfl

/-- The loops that are needed, the last dimension outermost. -/
def nested (dims : Nat) : Nested := (List.range dims).foldl addLoop ⟨[], fun _ => none⟩

theorem nested_loops (dims : Nat) : (nested dims).loops = (List.range dims).reverse := by
  induction dims with
  | zero => rfl
  | succ dims ih =>
    rw [List.range_succ, List.reverse_append, ← ih, nested, List.range_succ, List.foldl_append]
    rfl

theorem nested_ivPhi (hdims : dims ≤ 3) (hd : d < dims) : (nested dims).ivPhi d = some d := by
  have hcases : dims = 1 ∨ dims = 2 ∨ dims = 3 := by omega
  rcases hcases with rfl | rfl | rfl
  · obtain rfl : d = 0 := by omega
    rfl
  · have hd : d = 0 ∨ d = 1 := by omega
    rcases hd with rfl | rfl <;> rfl
  · have hd : d = 0 ∨ d = 1 ∨ d = 2 := by omega
    rcases hd with rfl | rfl | rfl <;> rfl

/-- What replaces a call in the end. -/
def replacement : DimArg → Value
  | .const dim => .phi dim.val
  | .runTime => .select 0 1 2

theorem getIV_nested {c : DimArg} (hmem : c ∈ calls) :
    getIV (nested (findNeededLoopNest 0 calls)) c = some (replacement c) := by
  have hle : findNeededLoopNest 0 calls ≤ 3 := findNeededLoopNest_le (Nat.zero_le _)
  cases c with
  | const dim =>
    have hlt := lt_findNeededLoopNest (Nat.zero_le 3) hmem
    simp only [getIV, nested_ivPhi hle hlt]
    rfl
  | runTime =>
    rw [findNeededLoopNest_runTime hmem]
    rfl

theorem mapM_some {α β : Type} {f : α → Option β} {g : α → β} {l : List α}
    (h : ∀ a ∈ l, f a = some (g a)) : l.mapM f = some (l.map g) := by
  induction l with
  | nil => rfl
  | cons a l ih =>
    rw [List.mapM_cons, h a List.mem_cons_self, ih fun b hb => h b (List.mem_cons_of_mem _ hb)]
    rfl

/-- The pass always makes a function. -/
theorem runOnFunction_eq (calls : List DimArg) : runOnFunction calls =
    some ⟨(List.range (findNeededLoopNest 0 calls)).reverse, calls.map replacement⟩ := by
  have hmapM := mapM_some fun c (hc : c ∈ calls) => getIV_nested hc
  rw [← nested_loops]
  change (calls.mapM (getIV (nested (findNeededLoopNest 0 calls)))).bind
    (fun values => some (Aggregated.mk (nested _).loops values)) = _
  rw [hmapM]
  rfl

end Pass

/-! ## The readings of the loops -/

section Readings

theorem readings_eq_nil {ds : List Nat} {iv : Nat → BitVec 32} (hmem : d ∈ ds)
    (hzero : count (sizes d) = 0) : readings sizes ds iv = [] := by
  induction ds generalizing iv with
  | nil => cases hmem
  | cons e ds ih =>
    rw [readings]
    rcases List.mem_cons.mp hmem with rfl | hmem
    · rw [hzero]
      rfl
    · rw [List.flatMap_eq_nil_iff]
      exact fun k _ => ih hmem

theorem mem_workItems {z y x : Nat} : (z, y, x) ∈ workItems sizes ↔
    z < (sizes 2).toNat ∧ y < (sizes 1).toNat ∧ x < (sizes 0).toNat := by
  unfold workItems
  rw [List.mem_product, List.mem_product, List.mem_range, List.mem_range, List.mem_range]

theorem nodup_workItems : (workItems sizes).Nodup :=
  List.nodup_range.product (List.nodup_range.product List.nodup_range)

theorem length_workItems :
    (workItems sizes).length = (sizes 2).toNat * ((sizes 1).toNat * (sizes 0).toNat) := by
  unfold workItems
  rw [List.length_product, List.length_product, List.length_range, List.length_range,
    List.length_range]

theorem count_of_pos (h : 0 < count (sizes d)) : count (sizes d) = (sizes d).toNat := by
  unfold count at h ⊢
  split
  · rfl
  · rename_i hneg
    rw [if_neg hneg] at h
    exact absurd h (Nat.lt_irrefl 0)

/-- Loops over all dimensions. -/
theorem readings_three (hcount : ∀ d < 3, count (sizes d) = (sizes d).toNat) :
    readings sizes [2, 1, 0] (fun _ => 0) = (workItems sizes).map localId := by
  have hcounters : ∀ z y x : Nat,
      Function.update (Function.update (Function.update (fun _ => 0) 2 (BitVec.ofNat 32 z)) 1
        (BitVec.ofNat 32 y)) 0 (BitVec.ofNat 32 x) = localId (z, y, x) := by
    intro z y x
    funext d
    match d with
    | 0 => rfl
    | 1 => rfl
    | 2 => rfl
    | d + 3 => rfl
  simp only [readings, hcounters, hcount 0 (by omega), hcount 1 (by omega), hcount 2 (by omega)]
  change _ = List.map localId ((List.range _).flatMap fun z =>
    ((List.range _).flatMap fun y => (List.range _).map (Prod.mk y)).map (Prod.mk z))
  simp only [List.map_eq_flatMap, List.flatMap_assoc, List.flatMap_singleton]

theorem count_one (h : (sizes d).toNat = 1) : count (sizes d) = 1 := by
  have hslt : (0#32).slt (sizes d) = true := zero_slt_iff.mpr (by omega)
  rw [count, if_pos hslt, h]

/-- A loop that runs once reads a zero, as without it. -/
theorem readings_skip {ds : List Nat} (h : (sizes d).toNat = 1) :
    readings sizes (d :: ds) (fun _ => 0) = readings sizes ds (fun _ => 0) := by
  have hupdate : Function.update (fun _ : Nat => (0 : BitVec 32)) d (BitVec.ofNat 32 0) =
      fun _ => 0 := Function.update_eq_self d _
  rw [readings, count_one h, List.range_one, List.flatMap_singleton, hupdate]

/-- The loops that are needed read the local ids if they are entered and the other dimensions have
size one. -/
theorem readings_eq_workItems (hdims : dims ≤ 3) (hpos : ∀ d < dims, 0 < count (sizes d))
    (hone : ∀ d < 3, dims ≤ d → (sizes d).toNat = 1) :
    readings sizes (List.range dims).reverse (fun _ => 0) = (workItems sizes).map localId := by
  have hcount : ∀ d < 3, count (sizes d) = (sizes d).toNat := by
    intro d hd
    by_cases hlt : d < dims
    · exact count_of_pos (hpos d hlt)
    · have hsize := hone d hd (by omega)
      rw [count_one hsize, hsize]
  have hall := readings_three hcount
  have hcases : dims = 0 ∨ dims = 1 ∨ dims = 2 ∨ dims = 3 := by omega
  rcases hcases with rfl | rfl | rfl | rfl
  · rw [readings_skip (hone 2 (by omega) (by omega)), readings_skip (hone 1 (by omega) (by omega)),
      readings_skip (hone 0 (by omega) (by omega))] at hall
    exact hall
  · rw [readings_skip (hone 2 (by omega) (by omega)), readings_skip (hone 1 (by omega) (by omega))]
      at hall
    exact hall
  · rw [readings_skip (hone 2 (by omega) (by omega))] at hall
    exact hall
  · exact hall

end Readings

/-! ## Runs -/

section Runs

variable {σ : Type} {k : Kernel σ} {item : Nat × Nat × Nat}

/-- What the calls of the new function answer. -/
def newAnswers (calls : List DimArg) (iv : Nat → BitVec 32) : Answers :=
  Aggregated.answers ⟨[], calls.map replacement⟩ iv

/-- The last two components in exchange. -/
def exchange (item : Nat × Nat × Nat) : Nat × Nat × Nat := (item.2.1, item.1, item.2.2)

theorem newAnswers_const {dim : Fin 3} (h : calls[i]? = some (.const dim)) :
    newAnswers calls (localId item) i dim.val = localId item dim.val := by
  simp only [newAnswers, Aggregated.answers, List.getElem?_map, h]
  rfl

theorem newAnswers_runTime (h : calls[i]? = some .runTime) (hd : d < 3) :
    newAnswers calls (localId item) i d = localId (exchange item) d := by
  simp only [newAnswers, Aggregated.answers, List.getElem?_map, h]
  have hcases : d = 0 ∨ d = 1 ∨ d = 2 := by omega
  rcases hcases with rfl | rfl | rfl <;> rfl

theorem preserved_iff : Preserved k sizes ↔ ∃ items : List (Nat × Nat × Nat),
    items.Perm (workItems sizes) ∧ ∀ s,
      (readings sizes (List.range (findNeededLoopNest 0 k.calls)).reverse (fun _ => 0)).foldlM
        (fun s iv => k.effect (newAnswers k.calls iv) s) s =
      items.foldlM (fun s item => k.effect (fun _ d => localId item d) s) s := by
  unfold Preserved
  rw [runOnFunction_eq]
  simp only [Option.some.injEq, exists_eq_left', Aggregated.run, nest_eq_foldlM]
  rfl

theorem effect_eq {item' : Nat × Nat × Nat}
    (h : ∀ i d, Asks k.calls i d → newAnswers k.calls (localId item) i d = localId item' d) :
    k.effect (newAnswers k.calls (localId item)) = k.effect fun _ d => localId item' d :=
  k.depends _ _ h

/-- Without queries at run time the counters are what was asked for. -/
theorem effect_of_const (h : DimArg.runTime ∉ k.calls) :
    k.effect (newAnswers k.calls (localId item)) = k.effect fun _ d => localId item d := by
  refine effect_eq fun i d hask => ?_
  unfold Asks at hask
  split at hask
  · rename_i dim heq
    subst hask
    exact newAnswers_const heq
  · rename_i heq
    exact absurd (List.mem_of_getElem? heq) h
  · exact hask.elim

/-- Without constant queries of the last two dimensions these are exchanged for the whole body. -/
theorem effect_of_exchange (h₁ : DimArg.const 1 ∉ k.calls) (h₂ : DimArg.const 2 ∉ k.calls) :
    k.effect (newAnswers k.calls (localId item)) =
      k.effect fun _ d => localId (exchange item) d := by
  refine effect_eq fun i d hask => ?_
  unfold Asks at hask
  split at hask
  · rename_i dim heq
    subst hask
    rw [newAnswers_const heq]
    have hmem := List.mem_of_getElem? heq
    match dim with
    | 0 => rfl
    | 1 => exact absurd hmem h₁
    | 2 => exact absurd hmem h₂
  · rename_i heq
    exact newAnswers_runTime heq hask
  · exact hask.elim

/-- Equal sizes: the exchanged local ids are the local ids. -/
theorem exchange_perm (h : (sizes 1).toNat = (sizes 2).toNat) :
    ((workItems sizes).map exchange).Perm (workItems sizes) := by
  have hinj : ∀ p q, exchange p = exchange q → p = q := by
    rintro ⟨z, y, x⟩ ⟨z', y', x'⟩ heq
    cases heq
    rfl
  refine (List.perm_ext_iff_of_nodup (nodup_workItems.map hinj) nodup_workItems).mpr ?_
  rintro ⟨z, y, x⟩
  rw [List.mem_map, mem_workItems]
  constructor
  · rintro ⟨⟨z', y', x'⟩, hmem, heq⟩
    obtain ⟨rfl, rfl, rfl⟩ : y' = z ∧ z' = y ∧ x' = x := by simpa [exchange] using heq
    have hmem := mem_workItems.mp hmem
    omega
  · intro hmem
    exact ⟨(y, z, x), mem_workItems.mpr (by omega), rfl⟩

theorem foldlM_map_congr {α β : Type} {f : σ → β → Option σ} {g : σ → α → Option σ} {e : α → β}
    {l : List α} (h : ∀ a ∈ l, ∀ s, f s (e a) = g s a) (s : σ) :
    (l.map e).foldlM f s = l.foldlM g s := by
  induction l generalizing s with
  | nil => rfl
  | cons a l ih =>
    rw [List.map_cons, List.foldlM_cons, List.foldlM_cons, h a List.mem_cons_self]
    exact Option.bind_congr fun s' _ => ih (fun b hb => h b (List.mem_cons_of_mem _ hb)) s'

theorem preserved_of_covered (h : Covered k.calls sizes) : Preserved k sizes := by
  rw [preserved_iff]
  have hle : findNeededLoopNest 0 k.calls ≤ 3 := findNeededLoopNest_le (Nat.zero_le _)
  unfold Covered at h
  dsimp only at h
  split at h
  · rename_i hpos
    obtain ⟨hone, hrun⟩ := h
    rw [readings_eq_workItems hle hpos hone]
    by_cases hmem : DimArg.runTime ∈ k.calls
    · obtain ⟨heq, hlast⟩ := hrun hmem
      rcases hlast with hlast | ⟨h₁, h₂⟩
      · -- both of the last two components are zero
        refine ⟨_, List.Perm.refl _, foldlM_map_congr ?_⟩
        rintro ⟨z, y, x⟩ hitem s
        have hitem := mem_workItems.mp hitem
        obtain rfl : z = 0 := by omega
        obtain rfl : y = 0 := by omega
        refine congrFun (effect_eq fun i d hask => ?_) s
        unfold Asks at hask
        split at hask
        · rename_i dim heq
          subst hask
          exact newAnswers_const heq
        · rename_i heq
          exact newAnswers_runTime heq hask
        · exact hask.elim
      · refine ⟨_, exchange_perm heq, fun s => ?_⟩
        rw [foldlM_map_congr fun item _ s => congrFun (effect_of_exchange h₁ h₂) s,
          foldlM_map_congr fun item _ s => rfl]
    · exact ⟨_, List.Perm.refl _,
        foldlM_map_congr fun item _ s => congrFun (effect_of_const hmem) s⟩
  · rename_i hneg
    -- a loop that is not entered
    obtain ⟨e, he, hzero⟩ := h
    obtain ⟨d, hd⟩ := not_forall.mp hneg
    obtain ⟨hd, hcount⟩ := Classical.not_imp.mp hd
    have hnone : workItems sizes = [] := by
      rw [← List.length_eq_zero_iff, length_workItems]
      have hcases : e = 0 ∨ e = 1 ∨ e = 2 := by omega
      rcases hcases with rfl | rfl | rfl <;> simp [hzero]
    refine ⟨[], by rw [hnone], fun s => ?_⟩
    rw [readings_eq_nil (List.mem_reverse.mpr (List.mem_range.mpr hd))
      (Nat.eq_zero_of_not_pos hcount)]
    rfl

/-! ## Kernels that tell the work-items apart -/

/-- A kernel that counts the work-items whose answers meet a test. -/
def counting (calls : List DimArg) (test : Answers → Bool)
    (h : ∀ a a', (∀ i d, Asks calls i d → a i d = a' i d) → test a = test a') : Kernel Nat where
  calls := calls
  effect a s := some (s + if test a then 1 else 0)
  depends a a' hsame := by rw [h a a' hsame]

theorem foldlM_counting {α : Type} (p : α → Bool) (l : List α) (s : Nat) :
    l.foldlM (fun s a => some (s + if p a then 1 else 0)) s = some (s + l.countP p) := by
  induction l generalizing s with
  | nil => rfl
  | cons a l ih =>
    rw [List.foldlM_cons, List.countP_cons]
    change List.foldlM _ (s + _) l = _
    rw [ih]
    congr 1
    omega

/-- The loops and the work-group have as many readings that meet a test. -/
theorem countP_of_preserved {test : Answers → Bool}
    {h : ∀ a a', (∀ i d, Asks calls i d → a i d = a' i d) → test a = test a'}
    (hkept : Preserved (counting calls test h) sizes) :
    (readings sizes (List.range (findNeededLoopNest 0 calls)).reverse (fun _ => 0)).countP
        (fun iv => test (newAnswers calls iv)) =
      (workItems sizes).countP fun item => test fun _ d => localId item d := by
  obtain ⟨items, hperm, hrun⟩ := preserved_iff.mp hkept
  have hrun := hrun 0
  simp only [counting] at hrun
  rw [foldlM_counting (fun iv => test (newAnswers calls iv)),
    foldlM_counting (fun item => test fun _ d => localId item d), Option.some.injEq, Nat.zero_add,
    Nat.zero_add] at hrun
  rw [hrun]
  exact hperm.countP_eq _

/-- The number of passes is that of the work-items. -/
theorem length_of_preserved
    (h : Preserved (counting calls (fun _ => true) fun _ _ _ => rfl) sizes) :
    (readings sizes (List.range (findNeededLoopNest 0 calls)).reverse (fun _ => 0)).length =
      (sizes 2).toNat * ((sizes 1).toNat * (sizes 0).toNat) := by
  have hcount := countP_of_preserved h
  rwa [List.countP_true, List.countP_true, length_workItems] at hcount

/-- Dimensions without a loop have size one, if the loops are entered. -/
theorem ones_of_preserved (hdims : dims ≤ 3) (hpos : ∀ d < dims, 0 < count (sizes d))
    (hlen : (readings sizes (List.range dims).reverse (fun _ => 0)).length =
      (sizes 2).toNat * ((sizes 1).toNat * (sizes 0).toNat)) :
    ∀ d < 3, dims ≤ d → (sizes d).toNat = 1 := by
  rw [length_readings] at hlen
  have hcases : dims = 0 ∨ dims = 1 ∨ dims = 2 ∨ dims = 3 := by omega
  rcases hcases with rfl | rfl | rfl | rfl
  · have h₂ := Nat.eq_one_of_mul_eq_one_right hlen.symm
    have hrest := Nat.eq_one_of_mul_eq_one_left hlen.symm
    have h₁ := Nat.eq_one_of_mul_eq_one_right hrest
    have h₀ := Nat.eq_one_of_mul_eq_one_left hrest
    intro d hd _
    have hd : d = 0 ∨ d = 1 ∨ d = 2 := by omega
    rcases hd with rfl | rfl | rfl <;> assumption
  · have h₀ := hpos 0 (by omega)
    have hlen : 1 * (sizes 0).toNat = (sizes 2).toNat * (sizes 1).toNat * (sizes 0).toNat := by
      rw [Nat.mul_assoc, ← hlen, Nat.one_mul, ← count_of_pos h₀]
      simp [List.range_succ]
    rw [count_of_pos h₀] at h₀
    have hrest := (Nat.eq_of_mul_eq_mul_right h₀ hlen).symm
    have h₂ := Nat.eq_one_of_mul_eq_one_right hrest
    have h₁ := Nat.eq_one_of_mul_eq_one_left hrest
    intro d hd hle
    have hd : d = 1 ∨ d = 2 := by omega
    rcases hd with rfl | rfl <;> assumption
  · have h₀ := hpos 0 (by omega)
    have h₁ := hpos 1 (by omega)
    have hlen : 1 * ((sizes 1).toNat * (sizes 0).toNat) =
        (sizes 2).toNat * ((sizes 1).toNat * (sizes 0).toNat) := by
      rw [← hlen, Nat.one_mul, ← count_of_pos h₀, ← count_of_pos h₁]
      simp [List.range_succ]
    rw [count_of_pos h₀] at h₀
    rw [count_of_pos h₁] at h₁
    have h₂ := Nat.eq_of_mul_eq_mul_right (Nat.mul_pos h₁ h₀) hlen
    intro d hd hle
    obtain rfl : d = 2 := by omega
    exact h₂.symm
  · intro d hd hle
    omega

theorem ofNat_eq_iff {a b c : Nat} (ha : a < c) (hb : b ≤ c) (hc : 2 * c < 2 ^ 32) :
    BitVec.ofNat 32 a = BitVec.ofNat 32 b ↔ a = b := by
  rw [← BitVec.toNat_inj, BitVec.toNat_ofNat, BitVec.toNat_ofNat, Nat.mod_eq_of_lt (by omega),
    Nat.mod_eq_of_lt (by omega)]

/-- Queries at run time find every value that they should, so the last two sizes are equal. -/
theorem sizes_of_preserved (hmem : calls[i]? = some .runTime) (hbound : ∀ d < 3,
      2 * (sizes d).toNat < 2 ^ 32) (hpos : ∀ d < 3, 0 < (sizes d).toNat)
    (hcount : ∀ v, (workItems sizes).countP (fun item =>
        newAnswers calls (localId item) i 1 == BitVec.ofNat 32 v) =
      (workItems sizes).countP fun item => localId item 1 == BitVec.ofNat 32 v) :
    (sizes 1).toNat = (sizes 2).toNat := by
  have h₀ := hpos 0 (by omega)
  have h₁ := hpos 1 (by omega)
  have h₂ := hpos 2 (by omega)
  by_contra hne
  rcases Nat.lt_or_gt_of_ne hne with hlt | hlt
  · have hcount := hcount (sizes 1).toNat
    have hsome : 0 < (workItems sizes).countP fun item =>
        newAnswers calls (localId item) i 1 == BitVec.ofNat 32 (sizes 1).toNat := by
      refine List.countP_pos_iff.mpr ⟨((sizes 1).toNat, 0, 0), mem_workItems.mpr (by omega), ?_⟩
      rw [newAnswers_runTime hmem (by omega)]
      exact beq_self_eq_true _
    rw [hcount] at hsome
    obtain ⟨⟨z, y, x⟩, hitem, heq⟩ := List.countP_pos_iff.mp hsome
    obtain ⟨-, hy, -⟩ := mem_workItems.mp hitem
    have heq := (ofNat_eq_iff hy (Nat.le_refl _) (hbound 1 (by omega))).mp (eq_of_beq heq)
    omega
  · have hcount := hcount (sizes 2).toNat
    have hsome : 0 < (workItems sizes).countP fun item =>
        localId item 1 == BitVec.ofNat 32 (sizes 2).toNat := by
      refine List.countP_pos_iff.mpr ⟨(0, (sizes 2).toNat, 0), mem_workItems.mpr (by omega), ?_⟩
      exact beq_self_eq_true _
    rw [← hcount] at hsome
    obtain ⟨⟨z, y, x⟩, hitem, heq⟩ := List.countP_pos_iff.mp hsome
    rw [newAnswers_runTime hmem (by omega)] at heq
    obtain ⟨hz, -, -⟩ := mem_workItems.mp hitem
    have heq := (ofNat_eq_iff hz (Nat.le_refl _) (hbound 2 (by omega))).mp (eq_of_beq heq)
    omega

/-- A kernel that asks at run time and by a constant gets two answers for one dimension. -/
theorem mixed_answers_differ {j : Nat} {dim : Fin 3} (hi : calls[i]? = some .runTime)
    (hj : calls[j]? = some (.const dim)) (hdim : dim = 1 ∨ dim = 2)
    (h₂ : 1 < (sizes 2).toNat) (h₁ : 0 < (sizes 1).toNat) (h₀ : 0 < (sizes 0).toNat)
    (hcount : (workItems sizes).countP (fun item =>
        newAnswers calls (localId item) i dim.val != newAnswers calls (localId item) j dim.val) =
      (workItems sizes).countP fun item => localId item dim.val != localId item dim.val) :
    False := by
  have hsome : 0 < (workItems sizes).countP fun item =>
      newAnswers calls (localId item) i dim.val != newAnswers calls (localId item) j dim.val := by
    refine List.countP_pos_iff.mpr ⟨(1, 0, 0), mem_workItems.mpr (by omega), ?_⟩
    rw [newAnswers_runTime hi dim.isLt, newAnswers_const hj]
    rcases hdim with rfl | rfl <;> rfl
  rw [hcount] at hsome
  obtain ⟨item, -, hne⟩ := List.countP_pos_iff.mp hsome
  exact (bne_iff_ne.mp hne) rfl

theorem covered_of_preserved
    (h : ∀ (σ : Type) (k : Kernel σ), k.calls = calls → Preserved k sizes) :
    Covered calls sizes := by
  have hle : findNeededLoopNest 0 calls ≤ 3 := findNeededLoopNest_le (Nat.zero_le _)
  have hlen := length_of_preserved
    (h Nat (counting calls (fun _ => true) fun _ _ _ => rfl) rfl)
  unfold Covered
  dsimp only
  split
  · rename_i hpos
    have hone := ones_of_preserved hle hpos hlen
    refine ⟨hone, fun hmem => ?_⟩
    have hthree := findNeededLoopNest_runTime (d := 0) hmem
    obtain ⟨i, hi⟩ := List.mem_iff_getElem?.mp hmem
    -- the number of work-items that meet a test about the query at run time
    have hcount : ∀ (test : Answers → Bool)
        (hdep : ∀ a a', (∀ i d, Asks calls i d → a i d = a' i d) → test a = test a'),
        (workItems sizes).countP (fun item => test (newAnswers calls (localId item))) =
          (workItems sizes).countP fun item => test fun _ d => localId item d := by
      intro test hdep
      have hkept := countP_of_preserved (h Nat (counting calls test hdep) rfl)
      rwa [readings_eq_workItems hle hpos hone, List.countP_map] at hkept
    have hasks : ∀ d < 3, Asks calls i d := by
      intro d hd
      unfold Asks
      rw [hi]
      exact hd
    rw [hthree] at hpos
    have hsize : ∀ d < 3, 0 < (sizes d).toNat := fun d hd => count_of_pos (hpos d hd) ▸ hpos d hd
    have hbound : ∀ d < 3, 2 * (sizes d).toNat < 2 ^ 32 := by
      intro d hd
      by_contra hlarge
      have hslt : ¬(0#32).slt (sizes d) = true := fun h => hlarge (zero_slt_iff.mp h).2
      have hpos := hpos d hd
      rw [count, if_neg hslt] at hpos
      exact absurd hpos (Nat.lt_irrefl 0)
    have heq := sizes_of_preserved hi hbound hsize fun v =>
      hcount (fun a => a i 1 == BitVec.ofNat 32 v) fun a a' hsame => by
        rw [hsame i 1 (hasks 1 (by omega))]
    refine ⟨heq, ?_⟩
    by_contra hnot
    rw [not_or] at hnot
    obtain ⟨hne, hconst⟩ := hnot
    have h₁ := hsize 1 (by omega)
    have hmixed : ∀ dim : Fin 3, dim = 1 ∨ dim = 2 → DimArg.const dim ∉ calls := by
      intro dim hdim hdimMem
      obtain ⟨j, hj⟩ := List.mem_iff_getElem?.mp hdimMem
      refine mixed_answers_differ hi hj hdim (by omega) h₁ (hsize 0 (by omega)) ?_
      refine hcount (fun a => a i dim.val != a j dim.val) fun a a' hsame => ?_
      have hask : Asks calls j dim.val := by
        unfold Asks
        rw [hj]
      rw [hsame i dim.val (hasks dim.val dim.isLt), hsame j dim.val hask]
    exact hconst ⟨hmixed 1 (.inl rfl), hmixed 2 (.inr rfl)⟩
  · rename_i hneg
    obtain ⟨d, hd⟩ := not_forall.mp hneg
    obtain ⟨hd, hcount⟩ := Classical.not_imp.mp hd
    rw [readings_eq_nil (List.mem_reverse.mpr (List.mem_range.mpr hd))
      (Nat.eq_zero_of_not_pos hcount), List.length_nil] at hlen
    rcases Nat.mul_eq_zero.mp hlen.symm with h₂ | hrest
    · exact ⟨2, by omega, h₂⟩
    · rcases Nat.mul_eq_zero.mp hrest with h₁ | h₀
      · exact ⟨1, by omega, h₁⟩
      · exact ⟨0, by omega, h₀⟩

/-- The pass preserves every kernel with the given calls exactly when the loops cover the
work-group and read its local ids. -/
theorem aggregation_preserves_iff (calls : List DimArg) (sizes : Nat → BitVec 32) :
    (∀ (σ : Type) (k : Kernel σ), k.calls = calls → Preserved k sizes) ↔ Covered calls sizes := by
  constructor
  · exact covered_of_preserved
  · rintro h σ k rfl
    exact preserved_of_covered h

/-- Two work-items in the last dimension, for a query at run time. -/
def twoDeep (d : Nat) : BitVec 32 := if d = 2 then 2 else 1

theorem run_time_dimensions_exchanged : ¬∀ (σ : Type) (k : Kernel σ) (sizes : Nat → BitVec 32),
    Preserved k sizes := by
  intro h
  have hcovered : Covered [.runTime] twoDeep :=
    covered_of_preserved fun σ k _ => h σ k twoDeep
  unfold Covered at hcovered
  revert hcovered
  decide

end Runs

end Shamrock.Dsp
