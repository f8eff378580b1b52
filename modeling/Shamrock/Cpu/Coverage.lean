import Shamrock.Cpu.Projection

/-!
# Which work-groups are taken and which work-items run
-/
namespace Shamrock.Cpu

open Transition Odometer

variable {W : Type} {nd : NDRange} {w : W}

/-- The work-group a worker is running and the position of its next work-item. -/
def Stage.progress : Stage → Option (CPUKernelWorkGroup × Nat)
  | .call wg => some (wg, 0)
  | .item wg l => some (wg, rank (nats wg.maxLocalId) (nats l))
  | _ => none

namespace Launch

variable {L L' : Launch W}

def progress (L : Launch W) (v : W) : Option (CPUKernelWorkGroup × Nat) :=
  (L.workers v).bind Stage.progress

/-- A group that was taken has executed all its items, except for those that the one worker that
runs it has still to come to. -/
structure Running (nd : NDRange) (L : Launch W) : Prop where
  member : ∀ v wg p, L.progress v = some (wg, p) → wg ∈ L.taken
  item : ∀ v wg l, L.workers v = some (.item wg l) → Valid nd.maxLocals (nats l)
  distinct : ∀ v u wg p q, L.progress v = some (wg, p) → L.progress u = some (wg, q) → v = u
  nodup : L.executed.Nodup
  done : ∀ wg l, (wg, l) ∈ L.executed ↔ wg ∈ L.taken ∧ Valid nd.maxLocals (nats l) ∧
    ∀ v p, L.progress v = some (wg, p) → rank nd.maxLocals (nats l) < p

/-- Steps that leave alone what is taken, executed and run. -/
theorem Running.same (h : Running nd L) (ht : L'.taken = L.taken) (he : L'.executed = L.executed)
    (hp : ∀ v, L'.progress v = L.progress v)
    (hi : ∀ v wg l, L'.workers v = some (.item wg l) → Valid nd.maxLocals (nats l)) :
    Running nd L' where
  member := by simpa only [hp, ht] using h.member
  item := hi
  distinct := by simpa only [hp] using h.distinct
  nodup := he ▸ h.nodup
  done := by simpa only [hp, ht, he] using h.done

theorem Counted.taken_nodup (h : Counted nd L) : L.taken.Nodup := by
  have hn : (L.taken.map fun wg => nats wg.index).Nodup := by
    rw [h.groups]
    exact readings_nodup (nd.size_maxGroups.symm ▸ h.length)
  exact hn.of_map _

theorem Counted.maxLocalId (h : Counted nd L) {wg : CPUKernelWorkGroup} (hwg : wg ∈ L.taken) :
    wg.maxLocalId = nd.dims.map WorkSize.maxLocalId := by
  rw [h.created wg hwg]
  rfl

/-- What `incVec` makes of the local id: the next one, or the end of the loop. -/
theorem Running.incVec_item (hc : Counted nd L) (h : Running nd L) {wg : CPUKernelWorkGroup}
    {l : List UInt64} (hw : L.workers w = some (.item wg l)) :
    rank nd.maxLocals (nats l) + 1 < size nd.maxLocals ∧ (incVec l wg.maxLocalId).2 = false ∧
        Valid nd.maxLocals (nats (incVec l wg.maxLocalId).1) ∧
        rank nd.maxLocals (nats (incVec l wg.maxLocalId).1) = rank nd.maxLocals (nats l) + 1 ∨
      rank nd.maxLocals (nats l) + 1 = size nd.maxLocals ∧ (incVec l wg.maxLocalId).2 = true := by
  have hmem : wg ∈ L.taken := h.member w wg _ (by simp [Launch.progress, hw, Stage.progress]; rfl)
  have hl := h.item w wg l hw
  have hmax := hc.maxLocalId hmem
  have hmax' : nats wg.maxLocalId = nd.maxLocals := congrArg nats hmax
  have hb : Bounded wg.maxLocalId := hmax ▸ bounded_maxLocalId nd.accepted
  have hne : wg.maxLocalId ≠ [] := hmax ▸ nd.maxLocalId_ne_nil
  rw [← hmax'] at hl ⊢
  have hlt := rank_lt hl
  rcases Nat.lt_or_ge (rank (nats wg.maxLocalId) (nats l) + 1) (size (nats wg.maxLocalId))
    with hk | hk
  · obtain ⟨h₁, h₂⟩ := incVec_next hb hl hk
    exact .inl ⟨hk, h₁, incVec_valid hb hl, h₂⟩
  · have hk' : rank (nats wg.maxLocalId) (nats l) + 1 = size (nats wg.maxLocalId) := by omega
    exact .inr ⟨hk', (incVec_last hne hb hl hk').1⟩

variable [DecidableEq W]

theorem progress_move (L : Launch W) (w v : W) (x : Option Stage) :
    (L.move w x).progress v = if v = w then x.bind Stage.progress else L.progress v := by
  by_cases hv : v = w
  · simp [progress, hv]
  · simp [progress, hv]

/-- The group under the cursor has not been taken before. -/
theorem Counted.not_taken (h : Counted nd L) (hw : L.workers w = some .execute) :
    L.ke.takeInstance.2 ∉ L.taken := by
  have hn := (h.takeInstance hw).taken_nodup
  intro hmem
  have := List.disjoint_of_nodup_append hn hmem (by simp)
  exact this

theorem running_takeInstance (hc : Counted nd L) (h : Running nd L)
    (hw : L.workers w = some .execute) :
    Running nd ({ L with
      ke := L.ke.takeInstance.1
      taken := L.taken ++ [L.ke.takeInstance.2] }.move w (some (.call L.ke.takeInstance.2))) := by
  have hnew := hc.not_taken hw
  generalize L.ke.takeInstance.2 = wg₀ at hnew ⊢
  have hp : ∀ v, Launch.progress ({ L with
      ke := L.ke.takeInstance.1
      taken := L.taken ++ [wg₀] }.move w (some (.call wg₀))) v =
      if v = w then some (wg₀, 0) else L.progress v := fun v => progress_move _ w v _
  refine ⟨?_, ?_, ?_, h.nodup, ?_⟩
  · intro v wg p hv
    rw [hp] at hv
    split at hv
    · obtain ⟨rfl, -⟩ := Prod.mk.inj (Option.some.inj hv)
      simp
    · exact List.mem_append_left _ (h.member v wg p hv)
  · intro v wg l hv
    by_cases hvw : v = w
    · simp [hvw] at hv
    · exact h.item v wg l (by simpa [hvw] using hv)
  · intro v u wg p q hv hu
    rw [hp] at hv hu
    split at hv <;> split at hu
    · simp_all
    · obtain ⟨rfl, -⟩ := Prod.mk.inj (Option.some.inj hv)
      exact absurd (h.member u _ q hu) hnew
    · obtain ⟨rfl, -⟩ := Prod.mk.inj (Option.some.inj hu)
      exact absurd (h.member v _ p hv) hnew
    · exact h.distinct v u wg p q hv hu
  · intro wg l
    rw [move_executed, h.done]
    simp only [hp, move_taken, List.mem_append, List.mem_singleton]
    by_cases hwg : wg = wg₀
    · subst wg
      refine iff_of_false (fun hl => hnew hl.1) fun hl => ?_
      have := hl.2.2 w 0 (by simp)
      omega
    · simp only [hwg, or_false]
      refine and_congr_right fun _ => and_congr_right fun _ => forall_congr' fun v =>
        forall_congr' fun p => ?_
      by_cases hvw : v = w
      · subst v
        have hno : L.progress w = none := by simp [Launch.progress, hw, Stage.progress]
        simp [hno, Ne.symm hwg]
      · simp [hvw]

omit [DecidableEq W] in
/-- After an item the worker is one position further, or it was at the last one. -/
theorem Running.next_position (hc : Counted nd L) (h : Running nd L) {wg : CPUKernelWorkGroup}
    {l : List UInt64} (hw : L.workers w = some (.item wg l))
    (hmax : nats wg.maxLocalId = nd.maxLocals) :
    ∃ y : Option Stage,
      some (if (incVec l wg.maxLocalId).2 then Stage.delete true
        else .item wg (incVec l wg.maxLocalId).1) = y ∧
      (∀ wg' q, y.bind Stage.progress = some (wg', q) →
        wg' = wg ∧ q = rank nd.maxLocals (nats l) + 1) ∧
      (y.bind Stage.progress = none →
        rank nd.maxLocals (nats l) + 1 = size nd.maxLocals) ∧
      ∀ wg' l', y = some (.item wg' l') → Valid nd.maxLocals (nats l') := by
  refine ⟨_, rfl, ?_⟩
  obtain ⟨-, h₁, h₂, h₃⟩ | ⟨hk, h₁⟩ := h.incVec_item hc hw
  · simp [h₁, Stage.progress, hmax, h₂, h₃]
  · simp [h₁, Stage.progress, hk]

/-- Two different items of a group stand at different positions. -/
theorem rank_ne_of_item_ne {wg wg' : CPUKernelWorkGroup} {l l' : List UInt64}
    (hl : Valid nd.maxLocals (nats l)) (hl' : Valid nd.maxLocals (nats l')) (hwg : wg' = wg)
    (hne : ¬ (wg' = wg ∧ l' = l)) :
    rank nd.maxLocals (nats l') ≠ rank nd.maxLocals (nats l) :=
  fun hr => hne ⟨hwg, nats_injective (rank_injective hl' hl hr)⟩

/-- The loop of `run` executes the items of its group in the odometer's order and leaves after
the last one. -/
theorem running_item (hc : Counted nd L) (h : Running nd L) {wg : CPUKernelWorkGroup}
    {l : List UInt64} (hw : L.workers w = some (.item wg l)) :
    Running nd ({ L with executed := L.executed ++ [(wg, l)] }.move w
      (some (if (incVec l wg.maxLocalId).2 then .delete true
        else .item wg (incVec l wg.maxLocalId).1))) := by
  have hprog : L.progress w = some (wg, rank (nats wg.maxLocalId) (nats l)) := by
    simp [Launch.progress, hw, Stage.progress]
  have hmem := h.member w wg _ hprog
  have hl := h.item w wg l hw
  have hmax : nats wg.maxLocalId = nd.maxLocals := congrArg nats (hc.maxLocalId hmem)
  rw [hmax] at hprog
  obtain ⟨y, hy, hy₁, hy₂, hy₃⟩ := h.next_position hc hw hmax
  rw [hy]
  have hp : ∀ v, Launch.progress ({ L with executed := L.executed ++ [(wg, l)] }.move w y) v =
      if v = w then y.bind Stage.progress else L.progress v := fun v => progress_move _ w v _
  refine ⟨?_, ?_, ?_, ?_, ?_⟩
  · intro v wg' p hv
    rw [hp] at hv
    split at hv
    · exact (hy₁ wg' p hv).1 ▸ hmem
    · exact h.member v wg' p hv
  · intro v wg' l' hv
    by_cases hvw : v = w
    · exact hy₃ wg' l' (by simpa [hvw] using hv)
    · exact h.item v wg' l' (by simpa [hvw] using hv)
  · intro v u wg' p q hv hu
    rw [hp] at hv hu
    split at hv <;> split at hu
    · simp_all
    · rename_i hvw _
      obtain rfl := (hy₁ wg' p hv).1
      exact hvw ▸ (h.distinct u w _ q _ hu hprog).symm
    · rename_i huw
      obtain rfl := (hy₁ wg' q hu).1
      exact huw ▸ h.distinct v w _ p _ hv hprog
    · exact h.distinct v u wg' p q hv hu
  · refine List.nodup_append.mpr ⟨h.nodup, by simp, ?_⟩
    intro a ha b hb' hab
    obtain rfl := List.mem_singleton.mp hb'
    subst hab
    exact absurd (((h.done wg l).mp ha).2.2 w _ hprog) (Nat.lt_irrefl _)
  · intro wg' l'
    simp only [move_executed, move_taken, hp, List.mem_append, List.mem_singleton, h.done,
      Prod.mk.injEq]
    constructor
    · rintro (⟨h₁, h₂, h₃⟩ | ⟨rfl, rfl⟩)
      · refine ⟨h₁, h₂, fun v p hv => ?_⟩
        split at hv
        · obtain ⟨rfl, rfl⟩ := hy₁ wg' p hv
          have := h₃ w _ hprog
          omega
        · exact h₃ v p hv
      · refine ⟨hmem, hl, fun v p hv => ?_⟩
        split at hv
        · have := (hy₁ wg' p hv).2
          omega
        · rename_i hvw
          exact absurd (h.distinct v w wg' p _ hv hprog) hvw
    · rintro ⟨h₁, h₂, h₃⟩
      by_cases heq : wg' = wg ∧ l' = l
      · exact .inr heq
      refine .inl ⟨h₁, h₂, fun v p hv => ?_⟩
      by_cases hvw : v = w
      · subst v
        obtain ⟨rfl, rfl⟩ : wg = wg' ∧ rank nd.maxLocals (nats l) = p := by
          simpa using hprog.symm.trans hv
        have hne' := rank_ne_of_item_ne hl h₂ rfl heq
        -- an item other than `l` that the worker has passed comes before `l`
        cases hq : y.bind Stage.progress with
        | none =>
          have hsize := hy₂ hq
          have := rank_lt h₂
          omega
        | some q =>
          obtain ⟨rfl, hq'⟩ := hy₁ q.1 q.2 hq
          have := h₃ w q.2 (by simpa using hq)
          omega
      · exact h₃ v p (by simpa [hvw] using hv)

theorem running_step (hstep : Step L w true L') (hc : Counted nd L) (h : Running nd L) :
    Running nd L' := by
  -- a worker between stages outside of `run`
  have hmove : ∀ (M : Launch W) (x : Option Stage), M.taken = L.taken → M.executed = L.executed →
      M.workers = L.workers → L.progress w = none → x.bind Stage.progress = none →
      Running nd (M.move w x) := by
    intro M x ht he hw hp hx
    refine h.same ht he (fun v => ?_) fun v wg l hv => ?_
    · rw [progress_move]
      split
      · rename_i hvw
        rw [hx, hvw, hp]
      · simp [Launch.progress, hw]
    · by_cases hvw : v = w
      · have hv' : x = some (.item wg l) := by simpa [hvw] using hv
        simp [hv', Stage.progress] at hx
      · exact h.item v wg l (by simpa [hvw, hw] using hv)
  cases hstep with
  | getEvent _ hw => exact hmove L _ rfl rfl rfl (by simp [Launch.progress, hw]) rfl
  | reserve _ hw => exact hmove _ _ rfl rfl rfl (by simp [Launch.progress, hw, Stage.progress]) rfl
  | start _ hw => exact hmove L _ rfl rfl rfl (by simp [Launch.progress, hw, Stage.progress]) rfl
  | takeInstance _ hw => exact running_takeInstance hc h hw
  | @call wg hw =>
    have hprog : L.progress w = some (wg, 0) := by simp [Launch.progress, hw, Stage.progress]
    obtain ⟨hz, hv₀⟩ := rank_zeros wg.maxLocalId
    refine h.same rfl rfl (fun v => ?_) fun v wg' l hv => ?_
    · rw [progress_move]
      split
      · rename_i hvw
        subst v
        rw [hprog]
        exact congrArg (fun n => some (wg, n)) hz
      · rfl
    · by_cases hvw : v = w
      · obtain ⟨rfl, rfl⟩ : wg = wg' ∧ (wg.maxLocalId.map fun _ => 0) = l := by
          simpa [hvw] using hv
        have hmax : nats wg.maxLocalId = nd.maxLocals :=
          congrArg nats (hc.maxLocalId (h.member w wg 0 hprog))
        exact hmax ▸ hv₀
      · exact h.item v wg' l (by simpa [hvw] using hv)
  | item _ hw => exact running_item hc h hw
  | delete _ hw => exact hmove _ _ rfl rfl rfl (by simp [Launch.progress, hw, Stage.progress]) rfl
  | unfinished _ hw =>
    exact hmove L _ rfl rfl rfl (by simp [Launch.progress, hw, Stage.progress]) rfl
  | finished _ hw => exact hmove L _ rfl rfl rfl (by simp [Launch.progress, hw, Stage.progress]) rfl
  | failed _ hw => exact hmove L _ rfl rfl rfl (by simp [Launch.progress, hw, Stage.progress]) rfl
  | complete _ hw => exact hmove _ _ rfl rfl rfl (by simp [Launch.progress, hw, Stage.progress]) rfl
  | fail _ hw => exact hmove _ _ rfl rfl rfl (by simp [Launch.progress, hw, Stage.progress]) rfl

theorem running_reachable (h : Reachable (succeeding W nd) L) : Running nd L := by
  refine h.invariant ?_ ?_
  · rintro _ rfl
    refine ⟨?_, ?_, ?_, ?_, ?_⟩ <;> simp [create, Launch.progress]
  · intro L a L' hr hs ht
    obtain ⟨v, c⟩ := a
    obtain ⟨hstep, rfl⟩ := ht
    exact running_step hstep (counted_reachable hr.of_restrict) hs

end Launch

/-- The work-group indices taken from the event. -/
def State.takenIndices (s : State W) (e : EventId) : List (List UInt64) :=
  (s.slots e).taken.map CPUKernelWorkGroup.index

/-- The global ids of the work-items executed for the event. -/
def State.executedIds (s : State W) (e : EventId) : List (List UInt64) :=
  (s.slots e).executed.map fun p => p.1.getGlobalId p.2

/-- A worker has reserved a work-group that it has not taken yet. -/
def State.Reserved (s : State W) (e : EventId) : Prop :=
  ∃ w, s.workers w = some (e, .start) ∨ s.workers w = some (e, .execute)

/-- A worker runs a work-group of the event. -/
def State.Executing (s : State W) (e : EventId) : Prop :=
  ∃ w wg, s.workers w = some (e, .call wg) ∨ ∃ l, s.workers w = some (e, .item wg l)

/-- Every work-group is taken once, the event is popped with its last group, and every global id
of the range is executed once. -/
structure ExactCoverage (nd : NDRange) (s : State W) (e : EventId) : Prop where
  groups_once : (s.takenIndices e).Nodup
  groups_grid : ∀ index ∈ s.takenIndices e, nd.InGrid index
  listed_once : s.events.Nodup
  popped : e ∉ s.events ↔ (s.takenIndices e).length = nd.numGroups ∨
    (s.takenIndices e).length + 1 = nd.numGroups ∧ s.Reserved e
  groups_all : e ∉ s.events → ¬ s.Reserved e → ∀ index, nd.InGrid index → index ∈ s.takenIndices e
  items_once : (s.executedIds e).Nodup
  items_range : ∀ id ∈ s.executedIds e, nd.InRange id
  items_all : e ∉ s.events → ¬ s.Reserved e → ¬ s.Executing e →
    ∀ id, nd.InRange id → id ∈ s.executedIds e

namespace Launch

variable {L : Launch W}

theorem Counted.indices (h : Counted nd L) :
    (L.taken.map CPUKernelWorkGroup.index).map nats = readings nd.maxGroups L.taken.length := by
  rw [List.map_map]
  exact h.groups

theorem Counted.mem_indices (h : Counted nd L) (index : List UInt64) :
    index ∈ L.taken.map CPUKernelWorkGroup.index ↔
      nd.InGrid index ∧ rank nd.maxGroups (nats index) < L.taken.length := by
  have hlen : L.taken.length ≤ size nd.maxGroups := nd.size_maxGroups.symm ▸ h.length
  rw [← List.mem_map_of_injective nats_injective, h.indices, mem_readings hlen, nd.inGrid_iff]

/-- An executed item is an item of the launch and carries its ids. -/
theorem Running.executed_item (hc : Counted nd L) (h : Running nd L) {wg : CPUKernelWorkGroup}
    {l : List UInt64} (hm : (wg, l) ∈ L.executed) :
    Item nd.dims wg.index l ∧ wg.getGlobalId l = globalIds nd.dims wg.index l := by
  obtain ⟨hwg, hl, -⟩ := (h.done wg l).mp hm
  have hin := ((hc.mem_indices wg.index).mp (List.mem_map_of_mem hwg)).1
  refine ⟨⟨(nd.inGrid_iff _).mp hin, hl⟩, ?_⟩
  rw [hc.created wg hwg]
  exact getGlobalId_eq nd wg.index l

end Launch

section Device

variable [DecidableEq W] {s : State W} {e : EventId} {ke : CPUKernelEvent W}

/-- Over every run of the device, in any order of its workers' steps. -/
theorem ndrange_coverage (h : Reachable ((device W).restrict RunsSucceed) s)
    (hd : (s.slots e).data = some ke) : ExactCoverage ke.event s e := by
  have hrun := project_reachable h hd
  have hc := Launch.counted_reachable hrun.of_restrict
  have hr := Launch.running_reachable hrun
  have hlisted : e ∈ s.events ↔ (s.slots e).taken.length +
      (if ke.mutex.isSome then 1 else 0) < ke.event.numGroups :=
    decide_eq_true_iff.symm.trans hc.listed
  have hmutex : ke.mutex.isSome = true ↔ s.Reserved e := by
    rw [Option.isSome_iff_exists]
    refine exists_congr fun v => (hc.holder v).trans ?_
    exact or_congr onEvent_eq_some onEvent_eq_some
  have hlen : (s.slots e).taken.length ≤ ke.event.numGroups := hc.length
  have hall : e ∉ s.events → ¬ s.Reserved e → (s.slots e).taken.length = ke.event.numGroups := by
    intro hl hres
    rw [hlisted, if_neg (hmutex.not.mpr hres)] at hl
    omega
  exact
    { groups_once := by
        refine List.Nodup.of_map nats ?_
        rw [State.takenIndices, show ((s.slots e).taken.map _).map nats = _ from hc.indices]
        exact readings_nodup (ke.event.size_maxGroups.symm ▸ hlen)
      groups_grid := fun index hi => ((hc.mem_indices index).mp hi).1
      listed_once := (wf_reachable h.of_restrict).nodup
      popped := by
        rw [hlisted, State.takenIndices, List.length_map]
        by_cases hres : s.Reserved e
        · have hlt : (s.slots e).taken.length < ke.event.numGroups :=
            hc.reserved (hmutex.mpr hres)
          simp only [if_pos (hmutex.mpr hres), hres, and_true]
          omega
        · simp only [if_neg (hmutex.not.mpr hres), hres, and_false, or_false]
          omega
      groups_all := by
        intro hl hres index hi
        refine (hc.mem_indices index).mpr ⟨hi, ?_⟩
        have hrank := rank_lt ((ke.event.inGrid_iff index).mp hi)
        rw [ke.event.size_maxGroups, ← hall hl hres] at hrank
        exact hrank
      items_once := by
        refine List.Nodup.map_on ?_ hr.nodup
        rintro ⟨wg, l⟩ hm ⟨wg', l'⟩ hm' heq
        obtain ⟨hitem, hid⟩ := hr.executed_item hc hm
        obtain ⟨hitem', hid'⟩ := hr.executed_item hc hm'
        obtain ⟨hi, rfl⟩ := globalIds_injective ke.event.accepted hitem hitem'
          (hid.symm.trans (heq.trans hid'))
        have hwg := hc.created wg ((hr.done wg l).mp hm).1
        have hwg' := hc.created wg' ((hr.done wg' l).mp hm').1
        rw [hwg, hwg', hi]
      items_range := by
        intro id hid
        obtain ⟨⟨wg, l⟩, hm, rfl⟩ := List.mem_map.mp hid
        obtain ⟨hitem, hid⟩ := hr.executed_item hc hm
        exact (inRange_iff_item ke.event.accepted _).mpr ⟨_, _, hitem, hid.symm⟩
      items_all := by
        intro hl hres hexec id hid
        obtain ⟨i, l, ⟨hi, hl'⟩, rfl⟩ := (inRange_iff_item ke.event.accepted id).mp hid
        -- the group of the id was taken, and nobody is still running it
        have hi' := (ke.event.inGrid_iff i).mpr hi
        have hrank := rank_lt hi
        have hmem : i ∈ (s.slots e).taken.map CPUKernelWorkGroup.index := by
          refine (hc.mem_indices i).mpr ⟨hi', ?_⟩
          have hsize : size (nats (ke.event.dims.map WorkSize.maxWorkGroup)) =
            (s.slots e).taken.length := ke.event.size_maxGroups.trans (hall hl hres).symm
          exact hsize ▸ hrank
        obtain ⟨wg, hwg, rfl⟩ := List.mem_map.mp hmem
        have hdone : (wg, l) ∈ (s.slots e).executed := by
          refine (hr.done wg l).mpr ⟨hwg, hl', fun v p hv => ?_⟩
          obtain ⟨stage, hst, hp⟩ := Option.bind_eq_some_iff.mp hv
          have hst' := onEvent_eq_some.mp hst
          cases stage with
          | call wg₁ => exact absurd ⟨v, wg₁, .inl hst'⟩ hexec
          | item wg₁ l₁ => exact absurd ⟨v, wg₁, .inr ⟨l₁, hst'⟩⟩ hexec
          | _ => cases hp
        refine List.mem_map.mpr ⟨(wg, l), hdone, ?_⟩
        exact (hr.executed_item hc hdone).2 }

/-- Four work-items from offset 5 in two work-groups. -/
def twoGroups : NDRange where
  dims := [{ globalWorkOffset := 5, globalWorkSize := 4, localWorkSize := 2 }]
  workDim_pos := by decide
  workDim_le := by decide
  global_pos := by decide
  local_pos := by decide
  local_dvd := by decide
  groups_lt := by decide

/-- Two workers, one work-group each. -/
theorem two_workers_cover : ∃ (s : State Bool) (ke : CPUKernelEvent Bool),
    Reachable ((device Bool).restrict RunsSucceed) s ∧ (s.slots 0).data = some ke ∧
      s.executedIds 0 = [[5], [7], [6], [8]] ∧ ExactCoverage ke.event s 0 := by
  obtain ⟨s, hr, hc⟩ := exists_succeeding_run
    (List.flatten [[.pushEvent (some twoGroups)], List.replicate 4 (.resume true true),
      List.replicate 4 (.resume false true),
      [.resume true true, .resume false true, .resume true true, .resume false true,
        .resume true true, .resume false true]])
    (fun s => (s.slots 0).data.isSome && s.executedIds 0 == [[5], [7], [6], [8]])
    (by decide +kernel)
  simp only [Bool.and_eq_true, beq_iff_eq] at hc
  obtain ⟨ke, hke⟩ := Option.isSome_iff_exists.mp hc.1
  exact ⟨s, ke, hr, hke, hc.2, ndrange_coverage hr hke⟩

end Device

end Shamrock.Cpu
