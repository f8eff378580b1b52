import Shamrock.Dsp.Worker

/-!
# Who has the memory of the device

Every block that has been handed out belongs to a buffer of the host, to a kernel that has been sent
and not completed, or to a run that has failed, which does not give back what it has got.
-/
namespace Shamrock.Dsp

open Transition

/-! ## Addresses -/

namespace DdrHeaps

/-- The addresses of the blocks that have been handed out. -/
def taken (d : DdrHeaps) : Multiset Nat := (d.live.map Prod.fst : List Nat)

end DdrHeaps

section Addresses

variable {lossless : Prop} {c : CmemBlocks} {nomap : Bool} {d : DdrHeaps} {size : UInt64}

theorem zero_not_taken (h : MemoryValid lossless c nomap d) : 0 ∉ d.taken := by
  intro hmem
  obtain ⟨b, hb, hzero⟩ := List.mem_map.mp (Multiset.mem_coe.mp hmem)
  rcases mem_live.mp hb with hb | hb | hb
  · have hlo := (h.heap1_bounds hb).1
    omega
  · have hlo := (h.heap2_bounds hb).1
    unfold dsp36BitAddr at hlo
    omega
  · have hlo := (h.heap3_bounds hb).1
    unfold dsp36BitAddr at hlo
    omega

/-- Different blocks have different addresses. -/
theorem taken_nodup (h : MemoryValid lossless c nomap d) : d.taken.Nodup := by
  rw [DdrHeaps.taken, Multiset.coe_nodup, List.Nodup, List.pairwise_map]
  apply h.apart.imp_of_mem
  intro b b' hb hb' hapart heq
  have hpos : ∀ b ∈ d.live, 0 < b.2 := by
    intro b hb
    rcases mem_live.mp hb with hb | hb | hb
    · exact (h.heap1.mem_bounds hb).2.2
    · exact (h.heap2.mem_bounds hb).2.2
    · exact (h.heap3.mem_bounds hb).2.2
  have hlen := hpos b hb
  have hlen' := hpos b' hb'
  simp only [Apart, physRange, heq] at hapart
  omega

/-- `malloc_global` adds the address that it returns, unless this is 0. -/
theorem mallocGlobal_taken (h : MemoryValid lossless c nomap d) (hask : CanAskGlobal size)
    (prefer32bit : Bool) :
    MemoryValid lossless c nomap (d.mallocGlobal size prefer32bit).2 ∧
      (d.mallocGlobal size prefer32bit).2.taken =
        d.taken + ([(d.mallocGlobal size prefer32bit).1].filter (0 < ·) : List Nat) := by
  rcases mallocGlobal_cases h hask prefer32bit with ⟨-, hzero⟩ | ⟨-, hgrant⟩
  · rw [hzero]
    exact ⟨h, by simp⟩
  · obtain ⟨n, -, hperm⟩ := hgrant.block
    have hfst := Multiset.coe_eq_coe.mpr (hperm.map Prod.fst)
    refine ⟨hgrant.valid, ?_⟩
    rw [DdrHeaps.taken, hfst, List.map_cons, List.filter_cons_of_pos
      (by simpa using Nat.pos_of_ne_zero hgrant.address), List.filter_nil, ← Multiset.cons_coe,
      ← Multiset.singleton_add, add_comm]
    rfl

/-- `free_global` takes the address of a block away. -/
theorem freeGlobal_taken (h : MemoryValid False c nomap d) {addr : Nat} {rest : Multiset Nat}
    (htaken : d.taken = addr ::ₘ rest) :
    MemoryValid False c nomap (d.freeGlobal addr) ∧ (d.freeGlobal addr).taken = rest := by
  have hmem : addr ∈ d.taken := htaken ▸ Multiset.mem_cons_self _ _
  obtain ⟨⟨a, n⟩, hlive, rfl⟩ := List.mem_map.mp (Multiset.mem_coe.mp hmem)
  have hfst := Multiset.coe_eq_coe.mpr ((h.freeGlobal_perm hlive).map Prod.fst)
  rw [DdrHeaps.taken, hfst, List.map_cons, ← Multiset.cons_coe] at htaken
  exact ⟨h.freeGlobal_valid False.elim, (Multiset.cons_inj_right _).mp htaken⟩

theorem freeGlobal_zero (h : MemoryValid lossless c nomap d) : d.freeGlobal 0 = d := by
  apply freeGlobal_other
  intro n hlive
  exact zero_not_taken h (Multiset.mem_coe.mpr (List.mem_map_of_mem hlive))

/-- One address after the other is given back; an address 0 changes nothing. -/
theorem freeAll_taken {addrs : List Nat} {rest : Multiset Nat} (h : MemoryValid False c nomap d)
    (htaken : d.taken = (addrs.filter (0 < ·) : List Nat) + rest) :
    MemoryValid False c nomap (addrs.foldl DdrHeaps.freeGlobal d) ∧
      (addrs.foldl DdrHeaps.freeGlobal d).taken = rest := by
  induction addrs generalizing d with
  | nil => exact ⟨h, by simpa using htaken⟩
  | cons addr addrs ih =>
    rw [List.foldl_cons]
    rcases Nat.eq_zero_or_pos addr with rfl | hpos
    · rw [freeGlobal_zero h]
      exact ih h (by simpa using htaken)
    · rw [List.filter_cons_of_pos (by simpa using hpos), ← Multiset.cons_coe,
        Multiset.cons_add] at htaken
      obtain ⟨hvalid, htaken'⟩ := freeGlobal_taken h htaken
      exact ih hvalid htaken'

/-- A kernel that has completed gives back what its run has got. -/
theorem freeTmpBufs_taken {k : SentKernel} {rest : Multiset Nat} (h : MemoryValid False c nomap d)
    (htaken : d.taken = (k.addrs : Multiset Nat) + rest) :
    MemoryValid False c nomap (k.freeTmpBufs d) ∧ (k.freeTmpBufs d).taken = rest := by
  unfold SentKernel.freeTmpBufs
  split
  · have hall : d.taken = ((k.wgAllocaStart :: k.tmpAddrs).filter (0 < ·) : List Nat) + rest :=
      htaken
    have hfree := freeAll_taken h hall
    exact hfree
  · rename_i hzero
    refine freeAll_taken h ?_
    rw [htaken, SentKernel.addrs, List.filter_cons_of_neg (by simpa using hzero)]

end Addresses

/-! ## A run -/

/-- The sizes of a launch can be rounded up. -/
def KernelLaunch.CanAsk (e : KernelLaunch) : Prop :=
  (0 < e.allocaSize → CanAskGlobal e.chipAllocaSize.toUInt64) ∧
    ∀ b ∈ e.hostptrTmpbufs, CanAskGlobal b.size

instance (e : KernelLaunch) : Decidable e.CanAsk :=
  inferInstanceAs (Decidable ((_ → _) ∧ ∀ b ∈ e.hostptrTmpbufs, CanAskGlobal b.size))

/-- A run that has got its addresses from valid heaps. -/
structure RunLedger (c : CmemBlocks) (nomap : Bool) (before : Multiset Nat) (s : RunState) :
    Prop where
  valid : MemoryValid False c nomap s.ddr
  taken : s.ddr.taken = before + s.addrs

section Runs

variable {c : CmemBlocks} {nomap : Bool} {before : Multiset Nat} {s s' : RunState}
  {host : LaunchHost} {l2 : Heap} {e : KernelLaunch} {d : DdrHeaps}

/-- Words, lists and calls do not matter. -/
theorem RunLedger.congr (h : RunLedger c nomap before s) (hddr : s'.ddr = s.ddr)
    (hstart : s'.wgAllocaStart = s.wgAllocaStart) (haddrs : s'.tmpAddrs = s.tmpAddrs) :
    RunLedger c nomap before s' := by
  constructor
  · rw [hddr]
    exact h.valid
  · rw [hddr, RunState.addrs, hstart, haddrs]
    exact h.taken

theorem RunLedger.call (h : RunLedger c nomap before s) (call : RunCall) :
    RunLedger c nomap before (s.call call) := h.congr rfl rfl rfl

theorem RunLedger.setWords (h : RunLedger c nomap before s) (l : List (AddrWord × UInt32)) :
    RunLedger c nomap before (s.setWords l) := h.congr rfl rfl rfl

theorem place_tmpAddrs (s : RunState) (r : MemRange) : (s.place r).tmpAddrs = s.tmpAddrs := by
  unfold RunState.place
  split_ifs <;> rfl

theorem place_wgAllocaStart (s : RunState) (r : MemRange) :
    (s.place r).wgAllocaStart = s.wgAllocaStart := by
  unfold RunState.place
  split_ifs <;> rfl

theorem RunLedger.place (h : RunLedger c nomap before s) (r : MemRange) :
    RunLedger c nomap before (s.place r) :=
  h.congr (place_ddr s r) (place_wgAllocaStart s r) (place_tmpAddrs s r)

theorem RunLedger.hostptrTmpbuf (h : RunLedger c nomap before s) {b : HostptrBuf}
    (hask : CanAskGlobal b.size) (hround : s.hostptrTmpbuf b = some s') :
    RunLedger c nomap before s' := by
  obtain ⟨hvalid, htaken⟩ := mallocGlobal_taken h.valid hask false
  have hgot : RunLedger c nomap before { s with
      ddr := (s.ddr.mallocGlobal b.size false).2
      tmpAddrs := s.tmpAddrs ++ [(s.ddr.mallocGlobal b.size false).1] } := by
    refine ⟨hvalid, ?_⟩
    rw [htaken, h.taken, RunState.addrs, RunState.addrs, ← List.cons_append, List.filter_append,
      ← Multiset.coe_add, add_assoc]
  have hplaced := (hgot.call (.mallocGlobal b.size false (s.ddr.mallocGlobal b.size false).1)).place
    ⟨(s.ddr.mallocGlobal b.size false).1, b.word, b.size.toUInt32⟩
  unfold RunState.hostptrTmpbuf at hround
  dsimp only at hround
  split at hround
  · cases hround
    exact hplaced
  · split at hround <;> cases hround
    exact hplaced.congr rfl rfl rfl

theorem RunLedger.hostptrTmpbufs {bufs : List HostptrBuf} (h : RunLedger c nomap before s)
    (hask : ∀ b ∈ bufs, CanAskGlobal b.size)
    (hrounds : bufs.foldlM RunState.hostptrTmpbuf s = some s') : RunLedger c nomap before s' := by
  induction bufs generalizing s with
  | nil =>
    cases hrounds
    exact h
  | cons b bufs ih =>
    obtain ⟨hfirst, hrest⟩ := List.forall_mem_cons.mp hask
    rw [List.foldlM_cons] at hrounds
    obtain ⟨s'', hround, hrounds⟩ := Option.bind_eq_some_iff.mp hrounds
    exact ih (h.hostptrTmpbuf hfirst hround) hrest hrounds

theorem RunLedger.alloca (h : RunLedger c nomap before s) (hstart : s.wgAllocaStart = 0)
    (hask : 0 < e.allocaSize → CanAskGlobal e.chipAllocaSize.toUInt64) :
    RunLedger c nomap before (e.alloca s).2 := by
  unfold KernelLaunch.alloca
  split
  · rename_i hneeds
    obtain ⟨hvalid, htaken⟩ := mallocGlobal_taken h.valid (hask hneeds) true
    have hgot : RunLedger c nomap before { s with
        ddr := (s.ddr.mallocGlobal e.chipAllocaSize.toUInt64 true).2
        wgAllocaSize := e.allocaSize + 4096
        wgAllocaStart := (s.ddr.mallocGlobal e.chipAllocaSize.toUInt64 true).1 } := by
      refine ⟨hvalid, ?_⟩
      rw [htaken, h.taken, RunState.addrs, RunState.addrs, hstart,
        List.filter_cons_of_neg (by simp), add_assoc, Multiset.coe_add]
      refine congrArg (before + ·) (Multiset.coe_eq_coe.mpr ?_)
      refine List.perm_append_comm.trans ?_
      rw [← List.filter_append]
      rfl
    have hcalled := hgot.call (.mallocGlobal e.chipAllocaSize.toUInt64 true
      (s.ddr.mallocGlobal e.chipAllocaSize.toUInt64 true).1)
    dsimp only
    split
    · exact hcalled
    · exact hcalled.place _
  · exact h

theorem RunLedger.mapMpax (h : RunLedger c nomap before s) :
    RunLedger c nomap before (KernelLaunch.mapMpax host s).2 := by
  unfold KernelLaunch.mapMpax
  split
  · exact h
  · split <;> exact h.congr rfl rfl rfl

theorem RunLedger.mail (h : RunLedger c nomap before s) :
    RunLedger c nomap before (e.mail host s).2 := by
  unfold KernelLaunch.mail
  dsimp only
  split
  · split <;> exact h.congr rfl rfl rfl
  · exact h.congr rfl rfl rfl

theorem RunLedger.dispatch (h : RunLedger c nomap before s) :
    RunLedger c nomap before (e.dispatch host s).2 := by
  unfold KernelLaunch.dispatch
  dsimp only
  split
  · exact h.mapMpax
  · split
    · exact h.mapMpax
    · exact h.mapMpax.mail

/-- A run takes just the addresses that it keeps, whether it succeeds or not. -/
theorem run_ledger {r : Int × RunState} (h : MemoryValid False c nomap d) (hask : e.CanAsk)
    (hrun : e.run host l2 d = some r) : RunLedger c nomap d.taken r.2 := by
  have hstart : RunLedger c nomap d.taken (e.start d) := ⟨h, by simp [KernelLaunch.start,
    RunState.addrs]⟩
  unfold KernelLaunch.run at hrun
  dsimp only at hrun
  split at hrun
  · cases hrun
    exact hstart.call _
  · rename_i ranges _
    have halloca := ((hstart.call (.localScratch true)).setWords
      ((e.localBufs.map Prod.fst).zip (ranges.map Prod.fst))).alloca rfl hask.1
    split at hrun
    · cases hrun
      exact halloca
    · obtain ⟨s, hrounds, rfl⟩ := Option.map_eq_some_iff.mp hrun
      exact (halloca.hostptrTmpbufs hask.2 hrounds).dispatch

end Runs

/-! ## The device -/

/-- What the kernel that the worker holds has got. -/
def WorkerPc.holding : WorkerPc → List Nat
  | found k | sent k => k.addrs
  | _ => []

theorem WorkerPc.Idle.holding {pc : WorkerPc} (h : pc.Idle) : pc.holding = [] := by
  cases pc <;> first | rfl | cases h

/-- What the kernels that have been sent and not completed have got. -/
def DspState.heldAddrs (s : DspState) : Multiset Nat :=
  (s.completePending.entries.flatMap fun e => e.2.addrs : List Nat) + s.pc.holding

/-- What is asked of the heaps can be rounded up. -/
def AsksInRange (_ : DspState) : DspAction → Prop
  | .create (some e) => e.CanAsk
  | .malloc size _ => CanAskGlobal size
  | _ => True

instance (s : DspState) (act : DspAction) : Decidable (AsksInRange s act) :=
  match act with
  | .create (some e) => inferInstanceAs (Decidable e.CanAsk)
  | .malloc size _ => inferInstanceAs (Decidable (CanAskGlobal size))
  | .create none | .push _ | .free _ | .stop | .answer _ | .print | .work =>
    inferInstanceAs (Decidable True)

/-- The launches of all events can ask, and each address belongs to one of the three. -/
structure Owned (c : CmemBlocks) (nomap : Bool) (s : DspState) : Prop where
  asks : ∀ j ∈ s.jobs, ∀ kernelId e, j.kernel = some (kernelId, e) → e.CanAsk
  valid : MemoryValid False c nomap s.ddr
  taken : s.ddr.taken = (s.buffers : Multiset Nat) + s.heldAddrs + s.lostAddrs

section Steps

variable {c : CmemBlocks} {nomap : Bool} {env : DspEnv} {s t : DspState}

theorem Owned.work (h : Owned c nomap s) (hn : Numbered s) (hstep : WorkStep env s t) :
    Owned c nomap t := by
  have hjobs := jobs_work (fun k hpc => hn.sending_new hpc) hstep
  have hasks : ∀ j ∈ t.jobs, ∀ kernelId e, j.kernel = some (kernelId, e) → e.CanAsk := by
    rw [hjobs]
    exact h.asks
  have hvalid := h.valid
  have htaken := h.taken
  cases hstep with
  | move pc hidle hidle' =>
    refine ⟨hasks, hvalid, ?_⟩
    rw [DspState.heldAddrs, hidle.holding] at htaken
    rw [DspState.heldAddrs, hidle'.holding]
    exact htaken
  | printed mails hpc =>
    rw [DspState.heldAddrs, hpc] at htaken
    exact ⟨hasks, hvalid, htaken⟩
  | mailFrom kernelId mails hpc =>
    rw [DspState.heldAddrs, hpc] at htaken
    exact ⟨hasks, hvalid, htaken⟩
  | notFound kernelId hpc =>
    rw [DspState.heldAddrs, hpc] at htaken
    exact ⟨hasks, hvalid, htaken⟩
  | getCompletePending kernelId k m hpc hpop =>
    have hperm := (tryPop_spec hpop).1.flatMap_right fun e => e.2.addrs
    refine ⟨hasks, hvalid, ?_⟩
    rw [DspState.heldAddrs, hpc, Multiset.coe_eq_coe.mpr hperm] at htaken
    rw [htaken]
    simp only [DspState.heldAddrs, WorkerPc.holding, List.flatMap_cons, ← Multiset.coe_add,
      Multiset.coe_nil, add_zero]
    abel
  | freeTmpBufs k hpc =>
    rw [DspState.heldAddrs, hpc] at htaken
    have hgot : s.ddr.taken = (k.addrs : Multiset Nat) + ((s.buffers : Multiset Nat) +
        (s.completePending.entries.flatMap fun e => e.2.addrs : List Nat) + s.lostAddrs) := by
      rw [htaken]
      simp only [WorkerPc.holding]
      abel
    have hfree := freeTmpBufs_taken hvalid hgot
    refine ⟨hasks, hfree.1, hfree.2.trans ?_⟩
    simp only [DspState.heldAddrs, WorkerPc.holding, Multiset.coe_nil, add_zero]
  | complete j hpc =>
    rw [DspState.heldAddrs, hpc] at htaken
    exact ⟨hasks, hvalid, htaken⟩
  | getEvent j events hpc =>
    rw [DspState.heldAddrs, hpc] at htaken
    exact ⟨hasks, hvalid, htaken⟩
  | buffer j hpc =>
    rw [DspState.heldAddrs, hpc] at htaken
    exact ⟨hasks, hvalid, htaken⟩
  | run j kernelId e r hpc hkernel hrun =>
    have hask : e.CanAsk := by
      refine h.asks j ?_ kernelId e hkernel
      simp [DspState.jobs, hpc, WorkerPc.inHand]
    obtain ⟨hvalid', htaken'⟩ := run_ledger hvalid hask hrun
    rw [DspState.heldAddrs, hpc] at htaken
    unfold DspState.runKernel at hasks ⊢
    split at hasks
    · -- what the run has got goes with the kernel
      rename_i hcode
      rw [if_pos hcode]
      refine ⟨hasks, hvalid', htaken'.trans ?_⟩
      rw [htaken]
      simp only [DspState.heldAddrs, WorkerPc.holding, SentKernel.addrs, RunState.addrs,
        Multiset.coe_nil, add_zero]
      abel
    · rename_i hcode
      rw [if_neg hcode]
      refine ⟨hasks, hvalid', htaken'.trans ?_⟩
      rw [htaken]
      simp only [DspState.heldAddrs, WorkerPc.holding, ← Multiset.coe_add, Multiset.coe_nil,
        add_zero]
      abel
  | pushCompletePending k hpc =>
    refine ⟨hasks, hvalid, ?_⟩
    rw [DspState.heldAddrs, hpc] at htaken
    rw [htaken]
    simp only [DspState.heldAddrs, WorkerPc.holding, push_entries (hn.sending_new hpc),
      List.flatMap_cons, ← Multiset.coe_add, Multiset.coe_nil, add_zero]
    abel
  | finish j errcode hpc =>
    rw [DspState.heldAddrs, hpc] at htaken
    exact ⟨hasks, hvalid, htaken⟩
  | exit => exact ⟨hasks, hvalid, htaken⟩

theorem Owned.step (h : Owned c nomap s) (hn : Numbered s) {act : DspAction}
    (hstep : dspStep env s act = some t) (hask : AsksInRange s act) : Owned c nomap t := by
  replace hstep := (dspStep_spec hstep).2
  have hvalid := h.valid
  have htaken := h.taken
  cases act with
  | create kernel =>
    have hadd : ∀ j n k, (∀ kernelId e, j.kernel = some (kernelId, e) → e.CanAsk) →
        Owned c nomap { s with nextEvent := n, nextKernelId := k, created := j :: s.created } := by
      intro j n k hj
      refine ⟨fun j' hj' => ?_, hvalid, htaken⟩
      have hcases : j' = j ∨ j' ∈ s.jobs := by
        simp only [DspState.jobs, Multiset.mem_add, Multiset.mem_coe, List.mem_cons] at hj' ⊢
        tauto
      rcases hcases with rfl | hold
      · exact hj
      · exact h.asks j' hold
    cases kernel with
    | none =>
      cases hstep
      apply hadd
      intro kernelId e heq
      cases heq
    | some e =>
      simp only [DspState.act, DspState.create] at hstep
      split at hstep <;> cases hstep
      refine hadd _ _ _ ?_
      rintro kernelId e' heq
      cases heq
      exact hask
  | push event =>
    obtain ⟨j, hfind, rfl⟩ := Option.map_eq_some_iff.mp hstep
    refine ⟨fun j' hj' => h.asks j' ?_, hvalid, htaken⟩
    have hin : ∀ j', j' ∈ s.created.eraseP (fun j => j.event = event) → j' ∈ s.created :=
      fun j' hmem => List.mem_of_mem_eraseP hmem
    have hj : j ∈ s.created := List.mem_of_find?_eq_some hfind
    simp only [DspState.jobs, Multiset.mem_add, Multiset.mem_coe, List.mem_append,
      List.mem_singleton] at hj' ⊢
    rcases hj' with (((hmem | hmem | rfl) | hmem) | hmem) | hmem
    · simp [hin j' hmem]
    · simp [hmem]
    · simp [hj]
    · simp [hmem]
    · simp [hmem]
    · simp [hmem]
  | malloc size prefer32bit =>
    cases hstep
    obtain ⟨hvalid', htaken'⟩ := mallocGlobal_taken hvalid hask prefer32bit
    refine ⟨h.asks, hvalid', htaken'.trans ?_⟩
    rw [htaken]
    split
    · rename_i hzero
      simp only [hzero, Nat.lt_irrefl, decide_false, Bool.false_eq_true, not_false_eq_true,
        List.filter_cons_of_neg, List.filter_nil, Multiset.coe_nil, add_zero]
      rfl
    · rename_i hpos
      rw [List.filter_cons_of_pos (by simpa using Nat.pos_of_ne_zero hpos), List.filter_nil,
        ← Multiset.cons_coe, ← Multiset.cons_coe, ← Multiset.singleton_add,
        ← Multiset.singleton_add, Multiset.coe_nil]
      simp only [DspState.heldAddrs]
      abel
  | free addr =>
    simp only [DspState.act] at hstep
    split at hstep
    · rename_i hmem
      cases hstep
      have hperm := Multiset.coe_eq_coe.mpr (List.perm_cons_erase hmem)
      rw [hperm, ← Multiset.cons_coe, Multiset.cons_add, Multiset.cons_add] at htaken
      obtain ⟨hvalid', htaken'⟩ := freeGlobal_taken hvalid htaken
      exact ⟨h.asks, hvalid', htaken'⟩
    · cases hstep
  | stop =>
    cases hstep
    exact ⟨h.asks, hvalid, htaken⟩
  | answer kernelId =>
    simp only [DspState.act] at hstep
    split at hstep <;> cases hstep
    exact ⟨h.asks, hvalid, htaken⟩
  | print =>
    cases hstep
    exact ⟨h.asks, hvalid, htaken⟩
  | work => exact h.work hn (work_spec hstep)

theorem owned_reachable
    (h : Reachable ((dspSystem env (c.heaps nomap)).restrict AsksInRange) s) :
    Owned c nomap s := by
  refine h.invariant (fun s hi => ?_) fun s act t hs howned hstep =>
    howned.step (tracked_reachable hs.of_restrict).numbered hstep.1 hstep.2
  obtain rfl : s = _ := hi
  refine ⟨fun j hj => ?_, memoryValid_heaps _ _ _, ?_⟩
  · simp [DspState.jobs, DspState.start, ConcurrentMap.new, WorkerPc.inHand] at hj
  · rfl

end Steps

/-- The memory of the device, over whole runs: no two blocks share memory, each belongs to one
buffer, to one kernel that has been sent and not completed, or to a failed run, and when the worker
has left no kernel has any. -/
structure OwnersSafe (c : CmemBlocks) (nomap : Bool) (s : DspState) : Prop where
  balance : s.ddr.taken = (s.buffers : Multiset Nat) + s.heldAddrs + s.lostAddrs
  distinct : ((s.buffers : Multiset Nat) + s.heldAddrs + s.lostAddrs).Nodup
  memory : MemorySafe c nomap s.ddr
  left : s.pc = .exited → s.ddr.taken = (s.buffers : Multiset Nat) + s.lostAddrs

section Safe

variable {c : CmemBlocks} {nomap : Bool} {env : DspEnv} {s : DspState}

/-- In every run with such requests no block is given back under its owner, given back twice or
handed out twice. -/
theorem worker_memory_safe
    (h : Reachable ((dspSystem env (c.heaps nomap)).restrict AsksInRange) s) :
    OwnersSafe c nomap s := by
  have howned := owned_reachable h
  refine ⟨howned.taken, ?_, howned.valid.safe, ?_⟩
  · rw [← howned.taken]
    exact taken_nodup howned.valid
  · intro hpc
    have hentries := ((tracked_reachable h.of_restrict).counted.left hpc).2
    rw [howned.taken, DspState.heldAddrs, hentries, hpc]
    simp [WorkerPc.holding]

theorem exists_in_range (env : DspEnv) (ddr : DdrHeaps) (acts : List DspAction)
    (p : DspState → Bool) (h : (execGuarded (dspStep env) (fun s act => decide (AsksInRange s act))
      (.start ddr) acts).map p = some true) :
    ∃ s, Reachable ((dspSystem env ddr).restrict AsksInRange) s ∧ p s = true :=
  exists_execGuarded (I := (· = DspState.start ddr)) AsksInRange rfl acts p h

/-- A buffer of the host, two kernels, and all of it given back but the buffer. -/
theorem three_events_owned :
    ∃ s, s.buffers = [0xA3000000] ∧ OwnersSafe largeBlocks false s := by
  obtain ⟨s, hreach, hcheck⟩ := exists_in_range smallEnv (largeBlocks.heaps false)
    (.malloc 4096 true :: threeEvents)
    (fun s => s.buffers = [0xA3000000] ∧ s.pc.inHand.length = 0) (by decide +kernel)
  exact ⟨s, (of_decide_eq_true hcheck).1, worker_memory_safe hreach⟩

end Safe

end Shamrock.Dsp
