import Shamrock.Cpu.Device

/-!
# One kernel event

What the device and its workers do to a single kernel event, with everything else left out.
`listed` tells whether the event is in the device's list.
-/
namespace Shamrock.Cpu

open Transition Odometer

variable {W : Type} [DecidableEq W]

@[ext] structure Launch (W : Type) where
  listed : Bool
  ke : CPUKernelEvent W
  taken : List CPUKernelWorkGroup
  executed : List (CPUKernelWorkGroup × List UInt64)
  completions : Nat
  failures : Nat
  workers : W → Option Stage

namespace Launch

def move (L : Launch W) (w : W) (stage : Option Stage) : Launch W :=
  { L with workers := Function.update L.workers w stage }

@[simp] theorem move_workers (L : Launch W) (w : W) (stage : Option Stage) :
    (L.move w stage).workers = Function.update L.workers w stage := rfl

theorem move_self (L : Launch W) (w : W) (stage : Option Stage) :
    (L.move w stage).workers w = stage := by simp

@[simp] theorem move_ke (L : Launch W) (w : W) (stage : Option Stage) :
    (L.move w stage).ke = L.ke := rfl

@[simp] theorem move_taken (L : Launch W) (w : W) (stage : Option Stage) :
    (L.move w stage).taken = L.taken := rfl

@[simp] theorem move_executed (L : Launch W) (w : W) (stage : Option Stage) :
    (L.move w stage).executed = L.executed := rfl

@[simp] theorem move_listed (L : Launch W) (w : W) (stage : Option Stage) :
    (L.move w stage).listed = L.listed := rfl

@[simp] theorem move_completions (L : Launch W) (w : W) (stage : Option Stage) :
    (L.move w stage).completions = L.completions := rfl

/-- One critical section of a worker that has to do with the event. -/
inductive Step (L : Launch W) (w : W) : Bool → Launch W → Prop
  | getEvent (c : Bool) : L.workers w = none → L.listed = true →
      (∀ v, L.workers v ≠ some .reserve) → Step L w c (L.move w (some .reserve))
  | reserve (c : Bool) : L.workers w = some .reserve → L.ke.mutex = none →
      Step L w c ({ L with
        listed := L.listed && !(L.ke.reserve w).2
        ke := (L.ke.reserve w).1 }.move w (some .start))
  | start (c : Bool) : L.workers w = some .start → Step L w c (L.move w (some .execute))
  | takeInstance (c : Bool) : L.workers w = some .execute →
      Step L w c ({ L with
        ke := L.ke.takeInstance.1
        taken := L.taken ++ [L.ke.takeInstance.2] }.move w (some (.call L.ke.takeInstance.2)))
  | call {wg : CPUKernelWorkGroup} : L.workers w = some (.call wg) →
      Step L w true (L.move w (some (.item wg (wg.maxLocalId.map fun _ => 0))))
  | noFunction {wg : CPUKernelWorkGroup} : L.workers w = some (.call wg) →
      Step L w false (L.move w (some (.delete false)))
  | item (c : Bool) {wg : CPUKernelWorkGroup} {l : List UInt64} :
      L.workers w = some (.item wg l) →
      Step L w c ({ L with executed := L.executed ++ [(wg, l)] }.move w
        (some (if (incVec l wg.maxLocalId).2 then .delete true
          else .item wg (incVec l wg.maxLocalId).1)))
  | delete (c : Bool) {ok : Bool} : L.workers w = some (.delete ok) → L.ke.mutex = none →
      Step L w c ({ L with ke := L.ke.workGroupFinished }.move w (some (.cleanup ok)))
  | unfinished (c : Bool) : L.workers w = some (.cleanup true) → L.ke.mutex = none →
      L.ke.finished = false → Step L w c (L.move w none)
  | finished (c : Bool) : L.workers w = some (.cleanup true) → L.ke.mutex = none →
      L.ke.finished = true → Step L w c (L.move w (some (.report true)))
  | failed (c : Bool) : L.workers w = some (.cleanup false) →
      Step L w c (L.move w (some (.report false)))
  | complete (c : Bool) : L.workers w = some (.report true) →
      Step L w c ({ L with completions := L.completions + 1 }.move w none)
  | fail (c : Bool) : L.workers w = some (.report false) →
      Step L w c ({ L with failures := L.failures + 1 }.move w none)

/-- The event as it is pushed. -/
def create (W : Type) (nd : NDRange) : Launch W where
  listed := true
  ke := .create W nd
  taken := []
  executed := []
  completions := 0
  failures := 0
  workers := fun _ => none

end Launch

/-- All runs of one kernel event. -/
def launch (W : Type) [DecidableEq W] (nd : NDRange) : LTS (Launch W) (W × Bool) where
  Initial L := L = .create W nd
  Tr L a L' := Launch.Step L a.1 a.2 L'

namespace Launch

variable {nd : NDRange} {L L' : Launch W} {w : W} {c : Bool}

/-- The reservation protocol: groups are handed out in the odometer's order, under the mutex
that `reserve` takes and `takeInstance` gives back. -/
structure Counted (nd : NDRange) (L : Launch W) : Prop where
  event : L.ke.event = nd
  maxs : L.ke.maxWorkGroups = nd.dims.map WorkSize.maxWorkGroup
  num : L.ke.numWg.toNat = nd.numGroups
  current : L.ke.currentWg.toNat = L.taken.length
  groups : L.taken.map (fun wg => nats wg.index) = readings nd.maxGroups L.taken.length
  created : ∀ wg ∈ L.taken, wg = .create nd wg.index
  cursor : L.taken.length < nd.numGroups →
    nats L.ke.currentWorkGroup = digits nd.maxGroups L.taken.length
  length : L.taken.length ≤ nd.numGroups
  holder : ∀ v, L.ke.mutex = some v ↔
    L.workers v = some .start ∨ L.workers v = some .execute
  reserved : L.ke.mutex.isSome → L.taken.length < nd.numGroups
  listed : L.listed = true ↔ L.taken.length + (if L.ke.mutex.isSome then 1 else 0) < nd.numGroups
  getting : ∀ v, L.workers v = some .reserve → L.listed = true
  alone : ∀ v u, L.workers v = some .reserve → L.workers u = some .reserve → v = u

omit [DecidableEq W] in
theorem counted_create : Counted nd (create W nd) where
  event := rfl
  maxs := rfl
  num := nd.numWg_toNat W
  current := rfl
  groups := rfl
  created := by simp [create]
  cursor := by
    intro _
    simp only [create, CPUKernelEvent.create, NDRange.maxGroups, List.length_nil]
    generalize nd.dims = ds
    induction ds with
    | nil => rfl
    | cons d ds ih => simpa [digits] using ih
  length := Nat.zero_le _
  holder := by simp [create, CPUKernelEvent.create]
  reserved := by simp [create, CPUKernelEvent.create]
  listed := by simp [create, CPUKernelEvent.create, nd.numGroups_pos]
  getting := by simp [create]
  alone := by simp [create]

theorem reserve_of_move {x : Option Stage} (hx : x ≠ some .reserve) {v : W}
    (hv : (L.move w x).workers v = some .reserve) : L.workers v = some .reserve := by
  by_cases hvw : v = w
  · subst v
    exact absurd (by simpa using hv) hx
  · simpa [hvw] using hv

/-- A worker that moves between stages outside of the reservation protocol. -/
theorem Counted.move (h : Counted nd L) {x : Option Stage}
    (hw : L.workers w ≠ some .start ∧ L.workers w ≠ some .execute)
    (hx : x ≠ some .start ∧ x ≠ some .execute ∧ x ≠ some .reserve) : Counted nd (L.move w x) :=
  { h with
    holder := by
      intro v
      by_cases hv : v = w
      · subst v
        have := h.holder w
        simp [hx, this, hw]
      · simpa [hv] using h.holder v
    getting := fun v hv => h.getting v (reserve_of_move hx.2.2 hv)
    alone := fun v u hv hu =>
      h.alone v u (reserve_of_move hx.2.2 hv) (reserve_of_move hx.2.2 hu) }

omit [DecidableEq W] in
/-- `reserve` answers true for the last work-group only. -/
theorem Counted.reserve_last (h : Counted nd L) (hlt : L.taken.length < nd.numGroups) :
    (L.ke.reserve w).2 = decide (L.taken.length + 1 = nd.numGroups) := by
  have hle : (1 : UInt64) ≤ L.ke.numWg := by
    rw [UInt64.le_iff_toNat_le, h.num]
    exact nd.numGroups_pos
  have hone : (1 : UInt64).toNat = 1 := rfl
  simp only [CPUKernelEvent.reserve, ← UInt64.toNat_inj, UInt64.toNat_sub_of_le _ _ hle, h.num,
    h.current, hone]
  exact decide_eq_decide.mpr (by omega)

theorem Counted.getEvent (h : Counted nd L) (hw : L.workers w = none) (hl : L.listed = true)
    (hr : ∀ v, L.workers v ≠ some .reserve) : Counted nd (L.move w (some .reserve)) :=
  { h with
    holder := by
      intro v
      by_cases hv : v = w
      · subst v
        have := h.holder w
        simp [this, hw]
      · simpa [hv] using h.holder v
    getting := fun _ _ => hl
    alone := by
      intro v u
      by_cases hv : v = w
      · by_cases hu : u = w
        · simp [hv, hu]
        · simp [hu, hr]
      · simp [hv, hr] }

theorem Counted.reserve (h : Counted nd L) (hw : L.workers w = some .reserve)
    (hm : L.ke.mutex = none) :
    Counted nd ({ L with
      listed := L.listed && !(L.ke.reserve w).2
      ke := (L.ke.reserve w).1 }.move w (some .start)) := by
  have hl := h.getting w hw
  have hlt : L.taken.length < nd.numGroups := by simpa [hm] using h.listed.mp hl
  exact
    { h with
      holder := by
        intro v
        have hv' := h.holder v
        rw [hm] at hv'
        by_cases hv : v = w
        · subst v
          simp [CPUKernelEvent.reserve]
        · simp only [hv, move_workers, Function.update_of_ne, ne_eq, not_false_eq_true, ← hv']
          simp [CPUKernelEvent.reserve, Ne.symm hv]
      reserved := fun _ => hlt
      listed := by
        simp only [move_listed, h.reserve_last hlt, hl]
        simp [CPUKernelEvent.reserve]
        omega
      getting := by
        intro v hv
        obtain rfl := h.alone v w (reserve_of_move (by simp) hv) hw
        simp at hv
      alone := fun v u hv hu =>
        h.alone v u (reserve_of_move (by simp) hv) (reserve_of_move (by simp) hu) }

theorem Counted.start (h : Counted nd L) (hw : L.workers w = some .start) :
    Counted nd (L.move w (some .execute)) :=
  { h with
    holder := by
      intro v
      by_cases hv : v = w
      · subst v
        have := h.holder w
        simp [this, hw]
      · simpa [hv] using h.holder v
    getting := fun v hv => h.getting v (reserve_of_move (by simp) hv)
    alone := fun v u hv hu =>
      h.alone v u (reserve_of_move (by simp) hv) (reserve_of_move (by simp) hu) }

/-- The holder of the mutex takes the group under the cursor and moves the cursor on. -/
theorem Counted.takeInstance (h : Counted nd L) (hw : L.workers w = some .execute) :
    Counted nd ({ L with
      ke := L.ke.takeInstance.1
      taken := L.taken ++ [L.ke.takeInstance.2] }.move w (some (.call L.ke.takeInstance.2))) := by
  have hm : L.ke.mutex = some w := (h.holder w).mpr (.inr hw)
  have hlt := h.reserved (by simp [hm])
  have hcur := h.cursor hlt
  have hvalid : Valid nd.maxGroups (nats L.ke.currentWorkGroup) := hcur ▸ digits_valid _ _
  have hsize : L.taken.length < size nd.maxGroups := nd.size_maxGroups.symm ▸ hlt
  have hrank : rank nd.maxGroups (nats L.ke.currentWorkGroup) = L.taken.length := by
    rw [hcur, rank_digits hsize]
  have hnum := nd.numGroups_lt
  exact
    { h with
      current := by
        have hone : (1 : UInt64).toNat = 1 := rfl
        simp only [move_ke, move_taken, CPUKernelEvent.takeInstance, UInt64.toNat_add, h.current,
          hone, List.length_append, List.length_singleton]
        exact Nat.mod_eq_of_lt (by omega)
      groups := by
        simp [CPUKernelEvent.takeInstance, CPUKernelWorkGroup.create, h.groups, hcur,
          readings_succ]
      created := by
        intro wg hwg
        rcases List.mem_append.mp hwg with hwg | hwg
        · exact h.created wg hwg
        · obtain rfl := List.mem_singleton.mp hwg
          simp [CPUKernelEvent.takeInstance, CPUKernelWorkGroup.create, h.event]
      cursor := by
        intro hlt'
        simp only [move_taken, List.length_append, List.length_singleton] at hlt' ⊢
        have hb := bounded_maxWorkGroups nd.accepted
        rw [← h.maxs] at hb
        have hmax : nats L.ke.maxWorkGroups = nd.maxGroups := congrArg nats h.maxs
        have hv : Valid (nats L.ke.maxWorkGroups) (nats L.ke.currentWorkGroup) := hmax ▸ hvalid
        have hk : rank (nats L.ke.maxWorkGroups) (nats L.ke.currentWorkGroup) + 1 <
            size (nats L.ke.maxWorkGroups) := by
          rw [hmax, hrank, nd.size_maxGroups]
          exact hlt'
        have hnext := (incVec_next hb hv hk).2
        have hdig := digits_rank (incVec_valid hb hv)
        rw [hnext, hmax, hrank] at hdig
        exact hdig.symm
      length := by
        simp only [move_taken, List.length_append, List.length_singleton]
        omega
      holder := by
        intro v
        by_cases hv : v = w
        · simp [hv, CPUKernelEvent.takeInstance]
        · have := h.holder v
          simp only [hm, Option.some.injEq, Ne.symm hv, false_iff] at this
          simp [hv, CPUKernelEvent.takeInstance, this]
      reserved := by simp [CPUKernelEvent.takeInstance]
      listed := by
        have := h.listed
        simp only [hm] at this
        simpa [CPUKernelEvent.takeInstance] using this
      getting := fun v hv => h.getting v (reserve_of_move (by simp) hv)
      alone := fun v u hv hu =>
        h.alone v u (reserve_of_move (by simp) hv) (reserve_of_move (by simp) hu) }

theorem counted_step (h : Step L w c L') (hs : Counted nd L) : Counted nd L' := by
  cases h with
  | getEvent _ hw hl hr => exact hs.getEvent hw hl hr
  | reserve _ hw hm => exact hs.reserve hw hm
  | start _ hw => exact hs.start hw
  | takeInstance _ hw => exact hs.takeInstance hw
  | call hw => exact hs.move (by simp [hw]) (by simp)
  | noFunction hw => exact hs.move (by simp [hw]) (by simp)
  | @item _ wg l hw =>
    have hs' : Counted nd { L with executed := L.executed ++ [(wg, l)] } := { hs with }
    refine hs'.move (by simp [hw]) ?_
    split <;> simp
  | delete _ hw hm =>
    have hs' : Counted nd { L with ke := L.ke.workGroupFinished } := { hs with }
    exact hs'.move (by simp [hw]) (by simp)
  | unfinished _ hw => exact hs.move (by simp [hw]) (by simp)
  | finished _ hw => exact hs.move (by simp [hw]) (by simp)
  | failed _ hw => exact hs.move (by simp [hw]) (by simp)
  | complete _ hw =>
    have hs' : Counted nd { L with completions := L.completions + 1 } := { hs with }
    exact hs'.move (by simp [hw]) (by simp)
  | fail _ hw =>
    have hs' : Counted nd { L with failures := L.failures + 1 } := { hs with }
    exact hs'.move (by simp [hw]) (by simp)

theorem counted_reachable (h : Reachable (launch W nd) L) : Counted nd L :=
  h.invariant (fun _ hi => hi ▸ counted_create) fun _ _ _ _ hs ht => counted_step ht hs

end Launch

end Shamrock.Cpu
