import Mathlib.Data.List.Forall2
import Mathlib.Logic.Function.Iterate
import Mathlib.Order.Basic

/-!
# Loops that are left from within

One pass of `while (true)` goes on with a new state, leaves with an answer, or fails. A loop that
is never left gives no answer after any number of passes.
-/
namespace Shamrock.Loop

variable {σ β : Type*} {body : σ → Option (σ ⊕ β)} {I : σ → Prop} {Q : β → Prop} {s : σ}
  {b c : β} {m n : Nat}

def passes (body : σ → Option (σ ⊕ β)) : Nat → σ → Option β
  | 0, _ => none
  | n + 1, s => (body s).bind fun
    | .inl s => passes body n s
    | .inr b => some b

theorem passes_leave (h : body s = some (.inr b)) : passes body (n + 1) s = some b := by
  simp [passes, h]

theorem passes_go {t : σ} (h : body s = some (.inl t)) :
    passes body (n + 1) s = passes body n t := by
  simp [passes, h]

/-- More passes do not change an answer. -/
theorem passes_mono (h : passes body n s = some b) (hle : n ≤ m) : passes body m s = some b := by
  induction n generalizing m s with
  | zero => cases h
  | succ n ih =>
    obtain ⟨m, rfl⟩ : ∃ k, m = k + 1 := ⟨m - 1, by omega⟩
    obtain ⟨r, hr, h⟩ := Option.bind_eq_some_iff.mp h
    cases r with
    | inl t =>
      rw [passes_go hr]
      exact ih h (by omega)
    | inr c =>
      cases h
      exact passes_leave hr

/-- A pass that changes nothing is repeated forever. -/
theorem passes_stuck (h : body s = some (.inl s)) : passes body n s = none := by
  induction n with
  | zero => rfl
  | succ n ih => rw [passes_go h, ih]

/-- What every pass keeps, and makes true of the answer it leaves with. -/
theorem passes_post (hgo : ∀ s t, I s → body s = some (.inl t) → I t)
    (hleave : ∀ s b, I s → body s = some (.inr b) → Q b) (hs : I s)
    (h : passes body n s = some b) : Q b := by
  induction n generalizing s with
  | zero => cases h
  | succ n ih =>
    obtain ⟨r, hr, h⟩ := Option.bind_eq_some_iff.mp h
    cases r with
    | inl t => exact ih (hgo s t hs hr) h
    | inr c =>
      cases h
      exact hleave s b hs hr

/-- A loop is left if its passes do not fail and a measure gets smaller. -/
theorem passes_end (measure : σ → Nat)
    (hpass : ∀ s, I s → (∃ b, body s = some (.inr b)) ∨
      ∃ t, body s = some (.inl t) ∧ I t ∧ measure t < measure s)
    (hs : I s) (hn : measure s < n) : ∃ b, passes body n s = some b := by
  induction n generalizing s with
  | zero => omega
  | succ n ih =>
    rcases hpass s hs with ⟨b, hb⟩ | ⟨t, ht, hinv, hlt⟩
    · exact ⟨b, passes_leave hb⟩
    · rw [passes_go ht]
      exact ih hinv (by omega)

section While

variable {test : σ → Prop} {next : σ → σ} {out : σ → β}

/-- `while (test)`: the passes go on until the test fails for the first time. -/
theorem passes_while_iff [DecidablePred test]
    (hbody : ∀ s, body s = if test s then some (.inl (next s)) else some (.inr (out s))) :
    passes body n s = some b ↔ ∃ k < n, (∀ j < k, test (next^[j] s)) ∧ ¬test (next^[k] s) ∧
      out (next^[k] s) = b := by
  induction n generalizing s with
  | zero =>
    exact iff_of_false (fun h => nomatch h) (fun ⟨k, hk, _⟩ => absurd hk (Nat.not_lt_zero k))
  | succ n ih =>
    have hs := hbody s
    split_ifs at hs with htest
    · rw [passes_go hs, ih]
      constructor
      · rintro ⟨k, hk, hall, hstop, hout⟩
        refine ⟨k + 1, by omega, fun j hj => ?_, hstop, hout⟩
        cases j with
        | zero => exact htest
        | succ j => exact hall j (by omega)
      · rintro ⟨k, hk, hall, hstop, hout⟩
        cases k with
        | zero => exact absurd htest hstop
        | succ k => exact ⟨k, by omega, fun j hj => hall (j + 1) (by omega), hstop, hout⟩
    · rw [passes_leave hs]
      constructor
      · intro h
        exact ⟨0, by omega, fun j hj => absurd hj (Nat.not_lt_zero j), htest, Option.some.inj h⟩
      · rintro ⟨k, hk, hall, hstop, hout⟩
        cases k with
        | zero => exact congrArg some hout
        | succ k => exact absurd (hall 0 (by omega)) htest

end While

section Several

variable {α : Type*} {f : Nat → α → Option β} {l : List α} {ys : List β}

/-- Enough passes for each item of a list are enough for all of them. -/
theorem exists_forall {p : Nat → α → Prop} (hmono : ∀ n m x, n ≤ m → p n x → p m x)
    (h : ∀ x ∈ l, ∃ n, p n x) : ∃ n, ∀ x ∈ l, p n x := by
  induction l with
  | nil => exact ⟨0, by simp⟩
  | cons x l ih =>
    rw [List.forall_mem_cons] at h
    obtain ⟨n, hn⟩ := h.1
    obtain ⟨m, hm⟩ := ih h.2
    refine ⟨max n m, List.forall_mem_cons.mpr ⟨hmono _ _ x (Nat.le_max_left n m) hn, ?_⟩⟩
    exact fun y hy => hmono _ _ y (Nat.le_max_right n m) (hm y hy)

/-- The answers for a whole list, item by item. -/
theorem forall₂_of_mapM {g : α → Option β} (h : l.mapM g = some ys) :
    List.Forall₂ (fun x y => g x = some y) l ys := by
  induction l generalizing ys with
  | nil =>
    cases h
    exact .nil
  | cons x l ih =>
    rw [List.mapM_cons] at h
    obtain ⟨y, hy, h⟩ := Option.bind_eq_some_iff.mp h
    obtain ⟨zs, hzs, h⟩ := Option.bind_eq_some_iff.mp h
    cases h
    exact .cons hy (ih hzs)

theorem mapM_mono (hmono : ∀ n m x y, n ≤ m → f n x = some y → f m x = some y) (hle : n ≤ m)
    (h : l.mapM (f n) = some ys) : l.mapM (f m) = some ys := by
  induction l generalizing ys with
  | nil => exact h
  | cons x l ih =>
    rw [List.mapM_cons] at h ⊢
    obtain ⟨y, hy, h⟩ := Option.bind_eq_some_iff.mp h
    obtain ⟨zs, hzs, h⟩ := Option.bind_eq_some_iff.mp h
    cases h
    rw [hmono n m x y hle hy, Option.bind_eq_bind, Option.bind_some, ih hzs]
    rfl

/-- Loops that run one after the other are all left if each of them is. -/
theorem mapM_ends_iff (hmono : ∀ n m x y, n ≤ m → f n x = some y → f m x = some y) :
    (∃ n ys, l.mapM (f n) = some ys) ↔ ∀ x ∈ l, ∃ n y, f n x = some y := by
  induction l with
  | nil => exact iff_of_true ⟨0, [], rfl⟩ (by simp)
  | cons x l ih =>
    rw [List.forall_mem_cons, ← ih]
    constructor
    · rintro ⟨n, ys, h⟩
      rw [List.mapM_cons] at h
      obtain ⟨y, hy, h⟩ := Option.bind_eq_some_iff.mp h
      obtain ⟨zs, hzs, -⟩ := Option.bind_eq_some_iff.mp h
      exact ⟨⟨n, y, hy⟩, n, zs, hzs⟩
    · rintro ⟨⟨n, y, hy⟩, m, zs, hzs⟩
      refine ⟨max n m, y :: zs, ?_⟩
      rw [List.mapM_cons, hmono n (max n m) x y (by omega) hy,
        mapM_mono hmono (Nat.le_max_right n m) hzs]
      rfl

end Several

end Shamrock.Loop
