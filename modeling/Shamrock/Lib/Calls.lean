import Mathlib.Data.List.Basic

/-!
# Calls one after the other

Each call is made in the state that the ones before it have left.
-/
namespace Shamrock.Calls

section Each

variable {State Call : Type*} {step : State → Call → State} {P Q : State → Call → Prop}
  {I : State → Prop} {s : State} {cs : List Call}

/-- Every call meets `P` in the state in which it is made. -/
def Each (step : State → Call → State) (P : State → Call → Prop) : State → List Call → Prop
  | _, [] => True
  | s, c :: cs => P s c ∧ Each step P (step s c) cs

/-- Two properties that say the same where an invariant holds, which the calls that meet them
keep. -/
theorem each_iff (hkeep : ∀ s c, I s → P s c → I (step s c))
    (hiff : ∀ s c, I s → (P s c ↔ Q s c)) (hs : I s) :
    Each step P s cs ↔ Each step Q s cs := by
  induction cs generalizing s with
  | nil => exact Iff.rfl
  | cons c cs ih =>
    constructor
    · rintro ⟨hp, hrest⟩
      exact ⟨(hiff s c hs).mp hp, (ih (hkeep s c hs hp)).mp hrest⟩
    · rintro ⟨hq, hrest⟩
      have hp := (hiff s c hs).mpr hq
      exact ⟨hp, (ih (hkeep s c hs hp)).mpr hrest⟩

/-- A property that depends on the call only, where the invariant holds. -/
theorem each_forall_iff {q : Call → Prop} (hkeep : ∀ s c, I s → I (step s c))
    (hiff : ∀ s c, I s → (P s c ↔ q c)) (hs : I s) : Each step P s cs ↔ ∀ c ∈ cs, q c := by
  induction cs generalizing s with
  | nil => exact iff_of_true trivial fun c hc => absurd hc List.not_mem_nil
  | cons c cs ih => rw [Each, hiff s c hs, ih (hkeep s c hs), List.forall_mem_cons]

end Each

section Failing

variable {σ α : Type} {step : σ → α → Option σ} {good K : α → Prop} {I Q : σ → Prop} {l : List α}
  {s t : σ}

theorem foldlM_cons_some {a : α} : (a :: l).foldlM step s = some t ↔
    ∃ u, step s a = some u ∧ l.foldlM step u = some t := by
  rw [List.foldlM_cons]
  exact Option.bind_eq_some_iff

/-- A fold ends if every item is one that the steps end with. -/
theorem foldlM_ends_iff (hkeep : ∀ s t, ∀ a ∈ l, I s → step s a = some t → I t)
    (hgood : ∀ s, ∀ a ∈ l, I s → ((∃ t, step s a = some t) ↔ good a)) (hs : I s) :
    (∃ t, l.foldlM step s = some t) ↔ ∀ a ∈ l, good a := by
  induction l generalizing s with
  | nil => exact iff_of_true ⟨s, rfl⟩ fun a ha => absurd ha List.not_mem_nil
  | cons a l ih =>
    have ih := fun {s} => ih (s := s) (fun s t b hb => hkeep s t b (List.mem_cons_of_mem a hb))
      fun s b hb => hgood s b (List.mem_cons_of_mem a hb)
    have ha := hgood s a List.mem_cons_self hs
    rw [List.forall_mem_cons, ← ha]
    constructor
    · rintro ⟨t, h⟩
      obtain ⟨u, hu, h⟩ := foldlM_cons_some.mp h
      exact ⟨⟨u, hu⟩, (ih (hkeep s u a List.mem_cons_self hs hu)).mp ⟨t, h⟩⟩
    · rintro ⟨⟨u, hu⟩, hall⟩
      obtain ⟨t, h⟩ := (ih (hkeep s u a List.mem_cons_self hs hu)).mpr hall
      exact ⟨t, foldlM_cons_some.mpr ⟨u, hu, h⟩⟩

theorem foldlM_keeps (hkeep : ∀ s t, ∀ a ∈ l, I s → step s a = some t → I t)
    (h : l.foldlM step s = some t) (hs : I s) : I t := by
  induction l generalizing s with
  | nil =>
    cases h
    exact hs
  | cons a l ih =>
    obtain ⟨u, hu, h⟩ := foldlM_cons_some.mp h
    exact ih (fun s t b hb => hkeep s t b (List.mem_cons_of_mem a hb)) h
      (hkeep s u a List.mem_cons_self hs hu)

/-- What one item makes true and the others keep. -/
theorem foldlM_establishes (hkeep : ∀ s t, ∀ a ∈ l, I s → step s a = some t → I t)
    (hmake : ∀ s t, ∀ a ∈ l, K a → I s → step s a = some t → Q t)
    (hrest : ∀ s t, ∀ a ∈ l, ¬K a → Q s → step s a = some t → Q t) (hweak : ∀ s, Q s → I s)
    (hex : ∃ a ∈ l, K a) (h : l.foldlM step s = some t) (hs : I s) : Q t := by
  induction l generalizing s with
  | nil => simp at hex
  | cons a l ih =>
    obtain ⟨u, hu, h⟩ := foldlM_cons_some.mp h
    have hmake' := fun s t b (hb : b ∈ l) => hmake s t b (List.mem_cons_of_mem a hb)
    have hrest' := fun s t b (hb : b ∈ l) => hrest s t b (List.mem_cons_of_mem a hb)
    by_cases ha : K a
    · refine foldlM_keeps (fun s t b hb hq hst => ?_) h (hmake s u a List.mem_cons_self ha hs hu)
      by_cases hb' : K b
      · exact hmake' s t b hb hb' (hweak s hq) hst
      · exact hrest' s t b hb hb' hq hst
    · have hex : ∃ b ∈ l, K b := by
        obtain ⟨b, hb, hkey⟩ := hex
        rcases List.mem_cons.mp hb with rfl | hb
        · exact absurd hkey ha
        · exact ⟨b, hb, hkey⟩
      exact ih (fun s t b hb => hkeep s t b (List.mem_cons_of_mem a hb)) hmake' hrest' hex h
        (hkeep s u a List.mem_cons_self hs hu)

end Failing

end Shamrock.Calls
