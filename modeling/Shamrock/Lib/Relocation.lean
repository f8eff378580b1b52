import Shamrock.Lib.Strided

/-!
# Memories that keep the same bytes at different addresses

One memory has a single address space, the other has several. A relation tells which addresses hold
the same byte; block copies on both sides keep it, and so do loops of them.
-/
namespace Relocation

open Strided

variable {S V : Type*} [DecidableEq S]

/-- A memory with several address spaces. -/
abbrev Spaces (S V : Type*) := S → Nat → V

/-- `n` bytes from `src` to `dst`, each of them an address in a space. -/
def copy (d : Spaces S V) (dst src : S × Nat) (n : Nat) : Spaces S V := fun s a =>
  if s = dst.1 ∧ dst.2 ≤ a ∧ a < dst.2 + n then d src.1 (src.2 + (a - dst.2)) else d s a

theorem copy_inside {x n : Nat} (d : Spaces S V) (dst src : S × Nat) (hx : x < n) :
    copy d dst src n dst.1 (dst.2 + x) = d src.1 (src.2 + x) := by
  unfold copy
  rw [if_pos ⟨rfl, by omega, by omega⟩, Nat.add_sub_cancel_left]

theorem copy_outside {a n : Nat} {s : S} (d : Spaces S V) (dst src : S × Nat)
    (h : ∀ x < n, a ≠ dst.2 + x) : copy d dst src n s a = d s a := by
  unfold copy
  rw [if_neg]
  rintro ⟨-, hle, hlt⟩
  exact h (a - dst.2) (by omega) (by omega)

variable {At : Nat → S → Nat → Prop} {m : Nat → V} {d : Spaces S V} {a b n : Nat} {p q : S × Nat}

/-- No address corresponds to two. -/
structure OneToOne (At : Nat → S → Nat → Prop) : Prop where
  right {a s b s' b'} : At a s b → At a s' b' → s = s' ∧ b = b'
  left {a a' s b} : At a s b → At a' s b → a = a'

/-- Corresponding addresses hold the same byte. -/
def Same (At : Nat → S → Nat → Prop) (m : Nat → V) (d : Spaces S V) : Prop :=
  ∀ a s b, At a s b → m a = d s b

/-- The `n` bytes from `a` on correspond to those from `p` on. -/
def Block (At : Nat → S → Nat → Prop) (n a : Nat) (p : S × Nat) : Prop :=
  ∀ i < n, At (a + i) p.1 (p.2 + i)

theorem same_copy (hone : OneToOne At) (hdst : Block At n a p) (hsrc : Block At n b q)
    (h : Same At m d) : Same At (memcpy m a b n) (copy d p q n) := by
  intro c s e hat
  by_cases hin : a ≤ c ∧ c < a + n
  · have hcell := hdst (c - a) (by omega)
    rw [Nat.add_sub_cancel' hin.1] at hcell
    obtain ⟨rfl, rfl⟩ := hone.right hcell hat
    have hbyte := h _ _ _ (hsrc (c - a) (by omega))
    rw [memcpy, if_pos hin, copy, if_pos ⟨rfl, by omega, by omega⟩, Nat.add_sub_cancel_left]
    exact hbyte
  · have hout : ¬(s = p.1 ∧ p.2 ≤ e ∧ e < p.2 + n) := by
      rintro ⟨rfl, hle, hlt⟩
      have hcell := hdst (e - p.2) (by omega)
      rw [Nat.add_sub_cancel' hle] at hcell
      have hc := hone.left hcell hat
      omega
    rw [memcpy, if_neg hin, copy, if_neg hout]
    exact h _ _ _ hat

omit [DecidableEq S] in
/-- Any contents can be kept at the other addresses. -/
theorem exists_same [Inhabited V] (hone : OneToOne At) (m : Nat → V) : ∃ d, Same At m d := by
  classical
  refine ⟨fun s b => if h : ∃ a, At a s b then m h.choose else default, ?_⟩
  intro a s b hat
  have hex : ∃ a, At a s b := ⟨a, hat⟩
  dsimp only
  rw [dif_pos hex, hone.left hat hex.choose_spec]

section Sweep

variable {α β σ μ : Type*}

/-- A loop whose body may fail, with two cursors that advance after each pass. -/
def sweep (next : α → α) (next' : β → β) (body : α → β → σ → Option σ) :
    Nat → α → β → σ → Option σ
  | 0, _, _, s => some s
  | n + 1, x, y, s => (body x y s).bind (sweep next next' body n (next x) (next' y))

/-- The same as a loop over an index, where each pass is. -/
theorem sweep_same {R : μ → σ → Prop} {next : α → α} {next' : β → β}
    {body : α → β → σ → Option σ} {f : Nat → μ → μ} {n : Nat} {x : α} {y : β} {s : σ} {m : μ}
    (h : ∀ k < n, ∀ m s, R m s →
      ∃ s', body (next^[k] x) (next'^[k] y) s = some s' ∧ R (f k m) s')
    (hR : R m s) :
    ∃ s', sweep next next' body n x y s = some s' ∧
      R ((List.range n).foldl (fun m k => f k m) m) s' := by
  induction n generalizing x y s m f with
  | zero => exact ⟨s, rfl, hR⟩
  | succ n ih =>
    obtain ⟨s₁, hbody, hR₁⟩ := h 0 (by omega) m s hR
    obtain ⟨s₂, hrest, hR₂⟩ := ih (f := fun k => f (k + 1))
      (fun k hk m s hms => h (k + 1) (by omega) m s hms) hR₁
    refine ⟨s₂, ?_, ?_⟩
    · change (body x y s).bind _ = _
      rw [show body x y s = some s₁ from hbody]
      exact hrest
    · rw [List.range_succ_eq_map, List.foldl_cons, List.foldl_map]
      exact hR₂

end Sweep

end Relocation
