import Shamrock.Lib.Transition

/-!
# Calls on one memory cell

Every call is a program of atomic steps on the same cell, and the steps of different calls come in
any order. A call of one step is a read-modify-write operation, and the order of the steps is the
order in which the calls take effect.
-/
namespace Shamrock.AtomicCell

open Transition

variable {ι α : Type*} {init : α} {update : ι → α → α} {answer : ι → α → α} {i : ι}
  {order l : List ι}

/-- What a call still has to do. -/
inductive Prog (α : Type*)
  | ret (result : α)
  /-- an atomic step, that goes on with the value it has found -/
  | atomic (update : α → α) (next : α → Prog α)

/-- A single atomic step, and the answer from the value it has found. -/
def Prog.once (update answer : α → α) : Prog α := .atomic update fun x => .ret (answer x)

structure State (ι α : Type*) where
  value : α
  prog : ι → Prog α

/-- The call `i` takes its next step. -/
def step [DecidableEq ι] (s : State ι α) (i : ι) : Option (State ι α) :=
  match s.prog i with
  | .ret _ => none
  | .atomic update next => some ⟨update s.value, Function.update s.prog i (next s.value)⟩

/-- The calls `progs` on a cell with the value `init`. -/
def calls [DecidableEq ι] (init : α) (progs : ι → Prog α) : LTS (State ι α) ι :=
  ofStep (fun s => s = ⟨init, progs⟩) step

def Finished (s : State ι α) : Prop := ∀ i, ∃ r, s.prog i = .ret r

/-- The value of the cell when these calls have taken effect one after the other. -/
def after (update : ι → α → α) (init : α) (l : List ι) : α := l.foldl (fun x i => update i x) init

/-- The calls take effect in this order, and each returns what the cell held before. -/
structure Linearized (update : ι → α → α) (init : α) (s : State ι α) (order : List ι)
    (returned : ι → α) : Prop where
  nodup : order.Nodup
  complete : ∀ i, i ∈ order
  returns : ∀ i, s.prog i = .ret (returned i)
  before : ∀ pre i post, order = pre ++ i :: post → returned i = after update init pre
  final : s.value = after update init order

theorem after_append : after update init (l ++ [i]) = update i (after update init l) :=
  List.foldl_concat ..

theorem after_eq_self (h : ∀ i ∈ l, update i init = init) : after update init l = init := by
  unfold after
  induction l with
  | nil => rfl
  | cons i l ih =>
    rw [List.foldl_cons, h i List.mem_cons_self]
    exact ih fun j hj => h j (List.mem_cons_of_mem i hj)

/-- The state after some calls of one step each have taken it. -/
structure Taken (update answer : ι → α → α) (init : α) (order : List ι) (s : State ι α) :
    Prop where
  nodup : order.Nodup
  value : s.value = after update init order
  waiting : ∀ i, i ∉ order → s.prog i = .once (update i) (answer i)
  answered : ∀ pre i post, order = pre ++ i :: post →
    s.prog i = .ret (answer i (after update init pre))

theorem Taken.mem_of_ret {s : State ι α} {r : α} (h : Taken update answer init order s)
    (hi : s.prog i = .ret r) : i ∈ order := by
  by_contra hni
  rw [h.waiting i hni] at hi
  cases hi

theorem step_once [DecidableEq ι] {s t : State ι α} {f g : α → α} (hi : s.prog i = .once f g)
    (ht : step s i = some t) : t.value = f s.value ∧ t.prog i = .ret (g s.value) ∧
    ∀ j, j ≠ i → t.prog j = s.prog j := by
  rw [step, hi] at ht
  obtain rfl := Option.some.inj ht
  exact ⟨rfl, Function.update_self .., fun j hj => Function.update_of_ne hj ..⟩

theorem Taken.step [DecidableEq ι] {s t : State ι α} (h : Taken update answer init order s)
    (ht : step s i = some t) : Taken update answer init (order ++ [i]) t := by
  have hni : i ∉ order := by
    intro hmem
    obtain ⟨pre, post, horder⟩ := List.append_of_mem hmem
    rw [AtomicCell.step, h.answered pre i post horder] at ht
    cases ht
  obtain ⟨hvalue, hself, hother⟩ := step_once (h.waiting i hni) ht
  refine ⟨?_, ?_, fun j hj => ?_, fun pre j post horder => ?_⟩
  · rw [← List.concat_eq_append]
    exact h.nodup.concat hni
  · rw [after_append, ← h.value, hvalue]
  · rw [List.mem_append, List.mem_singleton, not_or] at hj
    rw [hother j hj.2, h.waiting j hj.1]
  · rcases List.eq_nil_or_concat post with rfl | ⟨post', k, rfl⟩
    · obtain ⟨rfl, hlast⟩ := List.append_inj' horder rfl
      obtain rfl : i = j := by simpa using hlast
      rw [hself, h.value]
    · rw [List.concat_eq_append, ← List.cons_append, ← List.append_assoc] at horder
      obtain ⟨hinit, -⟩ := List.append_inj' horder rfl
      have hne : j ≠ i := by
        rintro rfl
        exact hni (by rw [hinit]; simp)
      rw [hother j hne, h.answered pre j post' hinit]

theorem taken_run [DecidableEq ι] {s : State ι α}
    (h : Run (calls init fun i => .once (update i) (answer i)) order s) :
    Taken update answer init order s := by
  induction h with
  | initial hs =>
    obtain rfl := hs
    exact ⟨List.nodup_nil, rfl, fun _ _ => rfl, fun pre i post h => by simp at h⟩
  | step _ ht ih => exact ih.step ht

/-- Operations that return what they find take effect in the order of their steps. -/
theorem linearized_of_finished [DecidableEq ι] {s : State ι α}
    (h : Run (calls init fun i => .once (update i) id) order s) (hs : Finished s) :
    ∃ returned, Linearized update init s order returned := by
  have htaken := taken_run h
  choose returned hreturned using hs
  refine ⟨returned, htaken.nodup, fun i => htaken.mem_of_ret (hreturned i), hreturned,
    fun pre i post horder => ?_, htaken.value⟩
  have hret := htaken.answered pre i post horder
  rw [hreturned i] at hret
  exact Prog.ret.inj hret

end Shamrock.AtomicCell
