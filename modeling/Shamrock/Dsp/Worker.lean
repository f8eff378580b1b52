import Shamrock.Dsp.DeviceMemory
import Mathlib.Algebra.Order.Group.Multiset
import Mathlib.Data.Multiset.Range
import Mathlib.Tactic.Abel

/-!
# The worker of the DSP

`dsp_worker` takes events from the queue of the device. An event of a buffer is finished at once, a
kernel is sent to the DSP and waits in a map until an answer with its number comes back. The host
goes on pushing events, and the DSP answers in any order.
-/
namespace Shamrock.Dsp

open Transition

/-! ## The map of pending events -/

/-- `concurrent_map`; every call holds its lock. -/
structure ConcurrentMap (I T : Type*) where
  entries : List (I × T)
  numElements : Nat

namespace ConcurrentMap

variable {I T : Type*} [DecidableEq I]

def new : ConcurrentMap I T := ⟨[], 0⟩

def push (m : ConcurrentMap I T) (index : I) (data : T) : ConcurrentMap I T where
  entries := (index, data) :: m.entries.filter fun e => e.1 ≠ index
  numElements := m.numElements + 1

def empty (m : ConcurrentMap I T) : Bool := m.numElements = 0

def tryPop (m : ConcurrentMap I T) (idx : I) : Option (T × ConcurrentMap I T) :=
  if m.numElements = 0 then none
  else (m.entries.find? fun e => e.1 = idx).map fun e =>
    (e.2, ⟨m.entries.eraseP fun e => e.1 = idx, m.numElements - 1⟩)

end ConcurrentMap

section Maps

variable {I T : Type*} [DecidableEq I] {m : ConcurrentMap I T} {idx : I} {data : T}

theorem push_entries (hnew : idx ∉ m.entries.map Prod.fst) :
    (m.push idx data).entries = (idx, data) :: m.entries := by
  have hkeep : (m.entries.filter fun e => e.1 ≠ idx) = m.entries := by
    apply List.filter_eq_self.mpr
    intro e he
    have hne : e.1 ≠ idx := fun heq => hnew (heq ▸ List.mem_map_of_mem he)
    simpa using hne
  simp only [ConcurrentMap.push, hkeep]

/-- What is found is taken out of the map. -/
theorem tryPop_spec {m' : ConcurrentMap I T} (hpop : m.tryPop idx = some (data, m')) :
    m.entries.Perm ((idx, data) :: m'.entries) ∧
      (m.numElements = m.entries.length → m'.numElements = m'.entries.length) := by
  unfold ConcurrentMap.tryPop at hpop
  split at hpop
  · cases hpop
  · obtain ⟨e, hfind, heq⟩ := Option.map_eq_some_iff.mp hpop
    obtain ⟨rfl, rfl⟩ := Prod.mk.inj heq
    obtain ⟨hkey, l₁, l₂, hsplit, hbefore⟩ := List.find?_eq_some_iff_append.mp hfind
    have hkey : e.1 = idx := by simpa using hkey
    have herase : m.entries.eraseP (fun e => e.1 = idx) = l₁ ++ l₂ := by
      rw [hsplit, List.eraseP_append_right _ (by simpa using hbefore),
        List.eraseP_cons_of_pos (by simpa using hkey)]
    constructor
    · rw [herase, hsplit, ← hkey]
      exact List.perm_middle
    · intro hcount
      dsimp only
      rw [hcount, herase, hsplit, List.length_append, List.length_cons, List.length_append]
      omega

/-- What is in the map is found. -/
theorem tryPop_of_mem (hcount : m.numElements = m.entries.length)
    (hmem : idx ∈ m.entries.map Prod.fst) : m.tryPop idx ≠ none := by
  obtain ⟨e, he, rfl⟩ := List.mem_map.mp hmem
  have hsome : m.numElements ≠ 0 := by
    intro hzero
    rw [hcount, List.length_eq_zero_iff] at hzero
    simp [hzero] at he
  simp only [ConcurrentMap.tryPop, if_neg hsome, ne_eq, Option.map_eq_none_iff,
    List.find?_eq_none]
  intro hnone
  exact absurd (hnone e he) (by simp)

end Maps

/-! ## Device, worker and DSP -/

/-- An event; if it runs a kernel, with the number and the launch of its `DSPKernelEvent`. -/
structure Job where
  event : Nat
  kernel : Option (Nat × KernelLaunch)

def Job.kernelId (j : Job) : Option Nat := j.kernel.map Prod.fst

/-- A kernel that has been sent, and the addresses that `free_tmp_bufs` gives back. -/
structure SentKernel where
  job : Job
  id : Nat
  wgAllocaStart : Nat
  tmpAddrs : List Nat

/-- Where the worker is. -/
inductive WorkerPc
  | loop
  | readMail
  | answered (kernelId : Nat)
  | found (k : SentKernel)
  | freed (j : Job)
  | readStop
  | checkEvents
  | getEvent
  | taken (j : Job)
  | sent (k : SentKernel)
  | cleanup (j : Job) (errcode : Int)
  | leave (stop : Bool)
  | exited
  | aborted

/-- The state of the device, with the numbers given out so far, what the DSP has been sent, what it
has answered, a log of the events, and whether the process has ended. A mail without a number is a
text to be printed. -/
structure DspState where
  nextEvent : Nat
  nextKernelId : Nat
  created : List Job
  events : List Job
  numEvents : Nat
  stopped : Bool
  completePending : ConcurrentMap Nat SentKernel
  ddr : DdrHeaps
  buffers : List Nat
  pc : WorkerPc
  running : List Nat
  rxMbox : List (Option Nat)
  finished : List (Job × Int)
  pushedLog : List Nat
  takenLog : List Nat
  answerLog : List Nat
  lostAddrs : List Nat
  ended : Bool

/-- What a run gets from outside. -/
structure DspEnv where
  host : LaunchHost
  l2 : Heap

inductive DspAction
  | create (kernel : Option KernelLaunch)
  | push (event : Nat)
  | malloc (size : UInt64) (prefer32bit : Bool)
  | free (addr : Nat)
  | stop
  | answer (kernelId : Nat)
  | print
  | work

def SentKernel.bufs (k : SentKernel) : List HostptrBuf :=
  match k.job.kernel with
  | none => []
  | some (_, e) => e.hostptrTmpbufs

/-- What the kernel has written has an address from which `free_tmp_bufs` can copy it back. -/
def SentKernel.copiesBack (k : SentKernel) : Bool :=
  (k.tmpAddrs.zip k.bufs).all fun p => p.1 ≠ 0 || p.2.readOnly

/-- `DSPKernelEvent::free_tmp_bufs`, when the process goes on -/
def SentKernel.freeTmpBufs (k : SentKernel) (d : DdrHeaps) : DdrHeaps :=
  k.tmpAddrs.foldl DdrHeaps.freeGlobal
    (if 0 < k.wgAllocaStart then d.freeGlobal k.wgAllocaStart else d)

/-- The addresses of a run that are not 0. -/
def RunState.addrs (s : RunState) : List Nat := (s.wgAllocaStart :: s.tmpAddrs).filter (0 < ·)

def SentKernel.addrs (k : SentKernel) : List Nat := (k.wgAllocaStart :: k.tmpAddrs).filter (0 < ·)

namespace DspState

/-- The kernel case of `handle_event_dispatch`, after the run. -/
def runKernel (s : DspState) (j : Job) (kernelId : Nat) (r : Int × RunState) : DspState :=
  if r.1 = clSuccess then
    { s with
      ddr := r.2.ddr
      running := kernelId :: s.running
      pc := .sent ⟨j, kernelId, r.2.wgAllocaStart, r.2.tmpAddrs⟩ }
  else
    { s with
      ddr := r.2.ddr
      lostAddrs := r.2.addrs ++ s.lostAddrs
      pc := .cleanup j r.1 }

/-- A step of `dsp_worker`, `handle_event_completion` and `handle_event_dispatch`. To map the
address 0 of a buffer ends the process. -/
def work (env : DspEnv) (s : DspState) : Option DspState :=
  match s.pc with
  | .loop =>
    if !s.completePending.empty && !s.rxMbox.isEmpty then some { s with pc := .readMail }
    else some { s with pc := .readStop }
  | .readMail =>
    match s.rxMbox with
    | [] => none
    | none :: mails => some { s with rxMbox := mails, pc := .readStop }
    | some kernelId :: mails => some { s with rxMbox := mails, pc := .answered kernelId }
  | .answered kernelId =>
    match s.completePending.tryPop kernelId with
    | none => some { s with pc := .aborted }
    | some (k, m) => some { s with completePending := m, pc := .found k }
  | .found k =>
    if k.copiesBack then some { s with ddr := k.freeTmpBufs s.ddr, pc := .freed k.job }
    else some { s with ended := true }
  | .freed j => some { s with finished := (j, clComplete) :: s.finished, pc := .readStop }
  | .readStop => some { s with pc := if s.stopped then .leave true else .checkEvents }
  | .checkEvents => some { s with pc := if 0 < s.numEvents then .getEvent else .leave false }
  | .getEvent =>
    if s.stopped then some { s with pc := .leave true }
    else
      match s.events with
      | [] => none
      | j :: events => some { s with
          events := events
          numEvents := s.numEvents - 1
          takenLog := s.takenLog ++ [j.event]
          pc := .taken j }
  | .taken j =>
    match j.kernel with
    | none => some { s with pc := .cleanup j clSuccess }
    | some (kernelId, e) =>
      match e.run env.host env.l2 s.ddr with
      | none => some { s with ended := true }
      | some r => some (s.runKernel j kernelId r)
  | .sent k => some { s with
      completePending := s.completePending.push k.id k
      pc := .leave false }
  | .cleanup j errcode => some { s with
      finished := (j, if errcode = clSuccess then clComplete else errcode) :: s.finished
      pc := .leave false }
  | .leave stop =>
    some { s with pc := if stop && s.completePending.empty then .exited else .loop }
  | .exited | .aborted => none

/-- The host creates an event; `kernelID` counts up as a signed number. -/
def create (s : DspState) : Option KernelLaunch → Option DspState
  | none => some { s with
      nextEvent := s.nextEvent + 1
      created := ⟨s.nextEvent, none⟩ :: s.created }
  | some e =>
    if s.nextKernelId + 1 < 2 ^ 31 then
      some { s with
        nextEvent := s.nextEvent + 1
        nextKernelId := s.nextKernelId + 1
        created := ⟨s.nextEvent, some (s.nextKernelId, e)⟩ :: s.created }
    else none

/-- `DSPDevice::pushEvent` -/
def pushEvent (s : DspState) (event : Nat) : Option DspState :=
  (s.created.find? fun j => j.event = event).map fun j =>
    { s with
      created := s.created.eraseP fun j => j.event = event
      events := s.events ++ [j]
      numEvents := s.numEvents + 1
      pushedLog := s.pushedLog ++ [event] }

/-- A step of the host, the DSP or the worker. -/
def act (env : DspEnv) (s : DspState) : DspAction → Option DspState
  | .create kernel => s.create kernel
  | .push event => s.pushEvent event
  | .malloc size prefer32bit =>
    let r := s.ddr.mallocGlobal size prefer32bit
    some { s with ddr := r.2, buffers := if r.1 = 0 then s.buffers else r.1 :: s.buffers }
  | .free addr =>
    if addr ∈ s.buffers then
      some { s with ddr := s.ddr.freeGlobal addr, buffers := s.buffers.erase addr }
    else none
  | .stop => some { s with stopped := true }
  | .answer kernelId =>
    if kernelId ∈ s.running then
      some { s with
        running := s.running.erase kernelId
        rxMbox := s.rxMbox ++ [some kernelId]
        answerLog := kernelId :: s.answerLog }
    else none
  | .print => some { s with rxMbox := s.rxMbox ++ [none] }
  | .work => s.work env

end DspState

/-- Nothing happens after the end of the process. -/
def dspStep (env : DspEnv) (s : DspState) (act : DspAction) : Option DspState :=
  if s.ended then none else s.act env act

/-- A device with its heaps, before its worker has begun. -/
def DspState.start (ddr : DdrHeaps) : DspState where
  nextEvent := 0
  nextKernelId := 0
  created := []
  events := []
  numEvents := 0
  stopped := false
  completePending := .new
  ddr := ddr
  buffers := []
  pc := .loop
  running := []
  rxMbox := []
  finished := []
  pushedLog := []
  takenLog := []
  answerLog := []
  lostAddrs := []
  ended := false

def dspSystem (env : DspEnv) (ddr : DdrHeaps) : LTS DspState DspAction :=
  ofStep (fun s => s = .start ddr) (dspStep env)

/-! ## What a step of the worker does -/

namespace WorkerPc

/-- The worker holds no event and has read no answer. -/
def Idle : WorkerPc → Prop
  | loop | readMail | readStop | checkEvents | getEvent | leave _ | exited => True
  | _ => False

/-- The event that the worker holds. -/
def inHand : WorkerPc → List Job
  | found k | sent k => [k.job]
  | freed j | taken j | cleanup j _ => [j]
  | _ => []

/-- The kernel that has been sent and is not in the map yet. -/
def sending : WorkerPc → List Nat
  | sent k => [k.id]
  | _ => []

/-- The answer that has been read. -/
def answer : WorkerPc → List Nat
  | answered kernelId => [kernelId]
  | _ => []

/-- The kernel that has been answered and is not finished yet. -/
def completing : WorkerPc → List Nat
  | found k => k.job.kernelId.toList
  | freed j => j.kernelId.toList
  | _ => []

variable {pc : WorkerPc}

theorem Idle.inHand (h : pc.Idle) : pc.inHand = [] := by
  cases pc <;> first | rfl | cases h

theorem Idle.sending (h : pc.Idle) : pc.sending = [] := by
  cases pc <;> first | rfl | cases h

theorem Idle.answer (h : pc.Idle) : pc.answer = [] := by
  cases pc <;> first | rfl | cases h

theorem Idle.completing (h : pc.Idle) : pc.completing = [] := by
  cases pc <;> first | rfl | cases h

end WorkerPc

/-- The steps of the worker. -/
inductive WorkStep (env : DspEnv) (s : DspState) : DspState → Prop
  | move (pc : WorkerPc) : s.pc.Idle → pc.Idle →
      (pc = .leave true → s.stopped = true) →
      (pc = .exited → s.pc = .leave true ∧ s.completePending.empty = true) →
      WorkStep env s { s with pc := pc }
  | printed (mails : List (Option Nat)) : s.pc = .readMail → s.rxMbox = none :: mails →
      WorkStep env s { s with rxMbox := mails, pc := .readStop }
  | mailFrom (kernelId : Nat) (mails : List (Option Nat)) : s.pc = .readMail →
      s.rxMbox = some kernelId :: mails →
      WorkStep env s { s with rxMbox := mails, pc := .answered kernelId }
  | notFound (kernelId : Nat) : s.pc = .answered kernelId →
      s.completePending.tryPop kernelId = none →
      WorkStep env s { s with pc := .aborted }
  | getCompletePending (kernelId : Nat) (k : SentKernel) (m : ConcurrentMap Nat SentKernel) :
      s.pc = .answered kernelId → s.completePending.tryPop kernelId = some (k, m) →
      WorkStep env s { s with completePending := m, pc := .found k }
  | freeTmpBufs (k : SentKernel) : s.pc = .found k →
      WorkStep env s { s with ddr := k.freeTmpBufs s.ddr, pc := .freed k.job }
  | complete (j : Job) : s.pc = .freed j →
      WorkStep env s { s with finished := (j, clComplete) :: s.finished, pc := .readStop }
  | getEvent (j : Job) (events : List Job) : s.pc = .getEvent → s.events = j :: events →
      WorkStep env s { s with
        events := events
        numEvents := s.numEvents - 1
        takenLog := s.takenLog ++ [j.event]
        pc := .taken j }
  | buffer (j : Job) : s.pc = .taken j → j.kernel = none →
      WorkStep env s { s with pc := .cleanup j clSuccess }
  | run (j : Job) (kernelId : Nat) (e : KernelLaunch) (r : Int × RunState) : s.pc = .taken j →
      j.kernel = some (kernelId, e) → e.run env.host env.l2 s.ddr = some r →
      WorkStep env s (s.runKernel j kernelId r)
  | pushCompletePending (k : SentKernel) : s.pc = .sent k →
      WorkStep env s { s with
        completePending := s.completePending.push k.id k
        pc := .leave false }
  | finish (j : Job) (errcode : Int) : s.pc = .cleanup j errcode →
      WorkStep env s { s with
        finished := (j, if errcode = clSuccess then clComplete else errcode) :: s.finished
        pc := .leave false }
  | exit : WorkStep env s { s with ended := true }

theorem dspStep_spec {env : DspEnv} {s t : DspState} {act : DspAction}
    (h : dspStep env s act = some t) : s.ended = false ∧ s.act env act = some t := by
  unfold dspStep at h
  split at h
  · cases h
  · rename_i hlive
    exact ⟨Bool.eq_false_iff.mpr hlive, h⟩

theorem work_spec {env : DspEnv} {s t : DspState} (h : s.work env = some t) :
    WorkStep env s t := by
  unfold DspState.work at h
  split at h
  case h_1 hpc =>
    split at h <;> cases h
    · exact .move .readMail (by simp [hpc, WorkerPc.Idle]) trivial nofun nofun
    · exact .move .readStop (by simp [hpc, WorkerPc.Idle]) trivial nofun nofun
  case h_2 hpc =>
    split at h
    · cases h
    · rename_i mails hmails
      cases h
      exact .printed mails hpc hmails
    · rename_i kernelId mails hmails
      cases h
      exact .mailFrom kernelId mails hpc hmails
  case h_3 kernelId hpc =>
    split at h
    · rename_i hpop
      cases h
      exact .notFound kernelId hpc hpop
    · rename_i k m hpop
      cases h
      exact .getCompletePending kernelId k m hpc hpop
  case h_4 k hpc =>
    split at h <;> cases h
    · exact .freeTmpBufs k hpc
    · exact .exit
  case h_5 j hpc =>
    cases h
    exact .complete j hpc
  case h_6 hpc =>
    cases h
    split
    · rename_i hstop
      exact .move _ (by simp [hpc, WorkerPc.Idle]) trivial (fun _ => hstop) nofun
    · exact .move _ (by simp [hpc, WorkerPc.Idle]) trivial nofun nofun
  case h_7 hpc =>
    cases h
    split <;> exact .move _ (by simp [hpc, WorkerPc.Idle]) trivial nofun nofun
  case h_8 hpc =>
    split at h
    · rename_i hstop
      cases h
      exact .move _ (by simp [hpc, WorkerPc.Idle]) trivial (fun _ => hstop) nofun
    · split at h
      · cases h
      · rename_i j events hevents
        cases h
        exact .getEvent j events hpc hevents
  case h_9 j hpc =>
    split at h
    · rename_i hkernel
      cases h
      exact .buffer j hpc hkernel
    · rename_i kernelId e hkernel
      split at h <;> cases h
      · exact .exit
      · rename_i r hrun
        exact .run j kernelId e r hpc hkernel hrun
  case h_10 k hpc =>
    cases h
    exact .pushCompletePending k hpc
  case h_11 j errcode hpc =>
    cases h
    exact .finish j errcode hpc
  case h_12 stop hpc =>
    cases h
    split
    · rename_i hstop
      obtain ⟨rfl, hempty⟩ := Bool.and_eq_true_iff.mp hstop
      exact .move _ (by simp [hpc, WorkerPc.Idle]) trivial nofun fun _ => ⟨hpc, hempty⟩
    · exact .move _ (by simp [hpc, WorkerPc.Idle]) trivial nofun nofun
  case h_13 => cases h
  case h_14 => cases h

/-! ## Where the events are -/

/-- The numbers in the mails. -/
def mailIds (mails : List (Option Nat)) : List Nat := mails.filterMap id

theorem mailIds_some (kernelId : Nat) (mails : List (Option Nat)) :
    (mailIds (some kernelId :: mails) : Multiset Nat) = {kernelId} + mailIds mails := by
  rw [Multiset.singleton_add, Multiset.cons_coe]
  rfl

/-- The kernels that have been completed. -/
def finishedIds (finished : List (Job × Int)) : List Nat :=
  (finished.filter fun f => f.2 = clComplete).filterMap fun f => f.1.kernelId

theorem finishedIds_complete (j : Job) (finished : List (Job × Int)) :
    finishedIds ((j, clComplete) :: finished) = j.kernelId.toList ++ finishedIds finished := by
  unfold finishedIds
  rw [List.filter_cons_of_pos (by simp), List.filterMap_cons]
  cases j.kernelId <;> rfl

theorem finishedIds_failed {errcode : Int} (j : Job) (finished : List (Job × Int))
    (hcode : errcode ≠ clComplete) :
    finishedIds ((j, errcode) :: finished) = finishedIds finished := by
  unfold finishedIds
  rw [List.filter_cons_of_neg (by simpa using hcode)]

namespace DspState

/-- All events, wherever they are. -/
def jobs (s : DspState) : Multiset Job :=
  (s.created : Multiset Job) + s.events + s.pc.inHand +
    (s.completePending.entries.map fun e => e.2.job) + s.finished.map Prod.fst

/-- The kernels in the map. -/
def pendingIds (s : DspState) : List Nat := s.completePending.entries.map Prod.fst

/-- The answers that have not been read. -/
def unread (s : DspState) : Multiset Nat := mailIds s.rxMbox

end DspState

section Steps

variable {env : DspEnv} {s t : DspState}

/-- A run ends with a kernel that has been sent or with an error; it also changes the memory. -/
theorem runKernel_cases (s : DspState) (j : Job) (kernelId : Nat) (r : Int × RunState) :
    (∃ ddr start addrs, s.runKernel j kernelId r =
      { s with
        ddr := ddr
        running := kernelId :: s.running
        pc := .sent ⟨j, kernelId, start, addrs⟩ }) ∨
    ∃ ddr lost code, code ≠ clSuccess ∧ s.runKernel j kernelId r =
      { s with ddr := ddr, lostAddrs := lost, pc := .cleanup j code } := by
  unfold DspState.runKernel
  split
  · exact Or.inl ⟨_, _, _, rfl⟩
  · rename_i hcode
    exact Or.inr ⟨_, _, _, hcode, rfl⟩

theorem next_work (h : WorkStep env s t) :
    t.nextEvent = s.nextEvent ∧ t.nextKernelId = s.nextKernelId := by
  cases h with
  | run j kernelId e r hpc =>
    rcases runKernel_cases s j kernelId r with ⟨_, _, _, heq⟩ | ⟨_, _, _, -, heq⟩ <;>
      simp only [heq, and_self]
  | _ => exact ⟨rfl, rfl⟩

/-- The worker moves events, and neither loses nor doubles one. -/
theorem jobs_work (hnew : ∀ k, s.pc = .sent k → k.id ∉ s.pendingIds) (h : WorkStep env s t) :
    t.jobs = s.jobs := by
  cases h with
  | move pc hidle hidle' =>
    simp only [DspState.jobs, hidle.inHand, hidle'.inHand]
  | printed mails hpc =>
    simp only [DspState.jobs, hpc, WorkerPc.inHand]
  | mailFrom kernelId mails hpc =>
    simp only [DspState.jobs, hpc, WorkerPc.inHand]
  | notFound kernelId hpc =>
    simp only [DspState.jobs, hpc, WorkerPc.inHand]
  | getCompletePending kernelId k m hpc hpop =>
    have hperm := ((tryPop_spec hpop).1.map fun e => e.2.job)
    rw [← Multiset.coe_eq_coe] at hperm
    simp only [DspState.jobs, hpc, WorkerPc.inHand, hperm]
    simp only [List.map_cons, ← Multiset.cons_coe, Multiset.coe_nil, ← Multiset.singleton_add]
    abel
  | freeTmpBufs k hpc =>
    simp only [DspState.jobs, hpc, WorkerPc.inHand]
  | complete j hpc =>
    simp only [DspState.jobs, hpc, WorkerPc.inHand, List.map_cons, ← Multiset.cons_coe,
      Multiset.coe_nil, ← Multiset.singleton_add]
    abel
  | getEvent j events hpc hevents =>
    simp only [DspState.jobs, hpc, hevents, WorkerPc.inHand, ← Multiset.cons_coe,
      Multiset.coe_nil, ← Multiset.singleton_add]
    abel
  | buffer j hpc =>
    simp only [DspState.jobs, hpc, WorkerPc.inHand]
  | run j kernelId e r hpc =>
    rcases runKernel_cases s j kernelId r with ⟨_, _, _, heq⟩ | ⟨_, _, _, -, heq⟩ <;>
      simp only [heq, DspState.jobs, hpc, WorkerPc.inHand]
  | pushCompletePending k hpc =>
    simp only [DspState.jobs, hpc, WorkerPc.inHand, push_entries (hnew k hpc), List.map_cons,
      ← Multiset.cons_coe, Multiset.coe_nil, ← Multiset.singleton_add]
    abel
  | finish j errcode hpc =>
    simp only [DspState.jobs, hpc, WorkerPc.inHand, List.map_cons, ← Multiset.cons_coe,
      Multiset.coe_nil, ← Multiset.singleton_add]
    abel
  | exit => rfl

/-! ## Queue and map -/

/-- The counters count, events are taken in the order in which they were pushed, and the worker
leaves only when it has been stopped and nothing is pending. -/
structure Counted (s : DspState) : Prop where
  numEvents : s.numEvents = s.events.length
  numElements : s.completePending.numElements = s.completePending.entries.length
  order : s.takenLog ++ s.events.map Job.event = s.pushedLog
  stopSeen : s.pc = .leave true → s.stopped = true
  left : s.pc = .exited → s.stopped = true ∧ s.completePending.entries = []

theorem Counted.work (h : Counted s) (hnew : ∀ k, s.pc = .sent k → k.id ∉ s.pendingIds)
    (hstep : WorkStep env s t) : Counted t := by
  cases hstep with
  | move pc hidle hidle' hstop hexit =>
    refine ⟨h.numEvents, h.numElements, h.order, hstop, ?_⟩
    intro hleft
    obtain ⟨hpc, hempty⟩ := hexit hleft
    have hzero : s.completePending.numElements = 0 := of_decide_eq_true hempty
    exact ⟨h.stopSeen hpc, List.eq_nil_of_length_eq_zero (h.numElements ▸ hzero)⟩
  | printed mails hpc => exact ⟨h.numEvents, h.numElements, h.order, nofun, nofun⟩
  | mailFrom kernelId mails hpc => exact ⟨h.numEvents, h.numElements, h.order, nofun, nofun⟩
  | notFound kernelId hpc => exact ⟨h.numEvents, h.numElements, h.order, nofun, nofun⟩
  | getCompletePending kernelId k m hpc hpop =>
    exact ⟨h.numEvents, (tryPop_spec hpop).2 h.numElements, h.order, nofun, nofun⟩
  | freeTmpBufs k hpc => exact ⟨h.numEvents, h.numElements, h.order, nofun, nofun⟩
  | complete j hpc => exact ⟨h.numEvents, h.numElements, h.order, nofun, nofun⟩
  | getEvent j events hpc hevents =>
    have hcount := h.numEvents
    have horder := h.order
    rw [hevents] at hcount horder
    refine ⟨?_, h.numElements, ?_, nofun, nofun⟩
    · dsimp only
      rw [hcount, List.length_cons, Nat.add_sub_cancel]
    · simpa using horder
  | buffer j hpc => exact ⟨h.numEvents, h.numElements, h.order, nofun, nofun⟩
  | run j kernelId e r hpc =>
    rcases runKernel_cases s j kernelId r with ⟨_, _, _, heq⟩ | ⟨_, _, _, -, heq⟩ <;>
      rw [heq] <;> exact ⟨h.numEvents, h.numElements, h.order, nofun, nofun⟩
  | pushCompletePending k hpc =>
    refine ⟨h.numEvents, ?_, h.order, nofun, nofun⟩
    rw [push_entries (hnew k hpc), List.length_cons, ← h.numElements]
    rfl
  | finish j errcode hpc => exact ⟨h.numEvents, h.numElements, h.order, nofun, nofun⟩
  | exit => exact ⟨h.numEvents, h.numElements, h.order, h.stopSeen, h.left⟩

/-! ## Numbers -/

/-- Every event and every kernel that has got a number is in one place, and the map is by the
numbers of its kernels. -/
structure Numbered (s : DspState) : Prop where
  events : s.jobs.map Job.event = Multiset.range s.nextEvent
  ids : s.jobs.filterMap Job.kernelId = Multiset.range s.nextKernelId
  keys : ∀ e ∈ s.completePending.entries, e.2.id = e.1 ∧ e.2.job.kernelId = some e.1
  held : ∀ k, s.pc = .sent k ∨ s.pc = .found k → k.job.kernelId = some k.id

/-- The kernels that the worker holds or that are in the map are different. -/
theorem Numbered.nodup (h : Numbered s) :
    (s.pc.inHand.filterMap Job.kernelId ++ s.pendingIds).Nodup := by
  have hpending : (s.completePending.entries.map fun e => e.2.job).filterMap Job.kernelId =
      s.pendingIds := by
    rw [List.filterMap_map, DspState.pendingIds, ← List.filterMap_eq_map]
    exact List.filterMap_congr fun e he => (h.keys e he).2
  have hle : ((s.pc.inHand ++ s.completePending.entries.map fun e => e.2.job : List Job) :
      Multiset Job) ≤ s.jobs := by
    refine Multiset.le_iff_exists_add.mpr
      ⟨(s.created : Multiset Job) + s.events + s.finished.map Prod.fst, ?_⟩
    simp only [DspState.jobs, ← Multiset.coe_add]
    abel
  have hids := Multiset.filterMap_le_filterMap Job.kernelId hle
  rw [h.ids, Multiset.filterMap_coe, List.filterMap_append, hpending] at hids
  exact Multiset.coe_nodup.mp (Multiset.nodup_of_le hids (Multiset.nodup_range _))

theorem Numbered.sending_new (h : Numbered s) {k : SentKernel} (hpc : s.pc = .sent k) :
    k.id ∉ s.pendingIds := by
  have hnodup := h.nodup
  rw [hpc, WorkerPc.inHand, List.filterMap_cons_some (h.held k (Or.inl hpc))] at hnodup
  exact (List.nodup_cons.mp hnodup).1

theorem Numbered.work (h : Numbered s) (hstep : WorkStep env s t) : Numbered t := by
  have hjobs := jobs_work (fun k hpc => h.sending_new hpc) hstep
  have hnext := next_work hstep
  have hevents : t.jobs.map Job.event = Multiset.range t.nextEvent := by
    rw [hjobs, hnext.1]
    exact h.events
  have hids : t.jobs.filterMap Job.kernelId = Multiset.range t.nextKernelId := by
    rw [hjobs, hnext.2]
    exact h.ids
  cases hstep with
  | move pc hidle hidle' =>
    refine ⟨hevents, hids, h.keys, ?_⟩
    rintro k (rfl | rfl) <;> cases hidle'
  | printed mails hpc => exact ⟨hevents, hids, h.keys, by simp⟩
  | mailFrom kernelId mails hpc => exact ⟨hevents, hids, h.keys, by simp⟩
  | notFound kernelId hpc => exact ⟨hevents, hids, h.keys, by simp⟩
  | getCompletePending kernelId k m hpc hpop =>
    have hperm := (tryPop_spec hpop).1
    refine ⟨hevents, hids, ?_, ?_⟩
    · intro e he
      exact h.keys e (hperm.symm.subset (List.mem_cons_of_mem _ he))
    · rintro k' (hk | hk)
      · cases hk
      · cases hk
        obtain ⟨hid, hkernel⟩ := h.keys (kernelId, k) (hperm.symm.subset List.mem_cons_self)
        rw [hid]
        exact hkernel
  | freeTmpBufs k hpc => exact ⟨hevents, hids, h.keys, by simp⟩
  | complete j hpc => exact ⟨hevents, hids, h.keys, by simp⟩
  | getEvent j events hpc hevents' => exact ⟨hevents, hids, h.keys, by simp⟩
  | buffer j hpc => exact ⟨hevents, hids, h.keys, by simp⟩
  | run j kernelId e r hpc hkernel =>
    rcases runKernel_cases s j kernelId r with
      ⟨ddr, start, addrs, heq⟩ | ⟨ddr, lost, code, -, heq⟩
    · rw [heq] at hevents hids ⊢
      refine ⟨hevents, hids, h.keys, ?_⟩
      rintro k (hk | hk)
      · cases hk
        simp [Job.kernelId, hkernel]
      · cases hk
    · rw [heq] at hevents hids ⊢
      exact ⟨hevents, hids, h.keys, by simp⟩
  | pushCompletePending k hpc =>
    refine ⟨hevents, hids, ?_, by simp⟩
    rw [push_entries (h.sending_new hpc)]
    intro e he
    rcases List.mem_cons.mp he with rfl | he
    · exact ⟨rfl, h.held k (Or.inl hpc)⟩
    · exact h.keys e he
  | finish j errcode hpc => exact ⟨hevents, hids, h.keys, by simp⟩
  | exit => exact ⟨hevents, hids, h.keys, h.held⟩

/-! ## Answers -/

/-- The kernels that have been completed or are about to be. -/
def DspState.completedIds (s : DspState) : Multiset Nat :=
  finishedIds s.finished + s.pc.completing

/-- What has been sent is answered once: the kernels that run and the answers that have not been
handled are those of the map, and every answer but those completes one kernel. -/
structure Answered (s : DspState) : Prop where
  waiting : s.running + s.unread + s.pc.answer = s.pendingIds + s.pc.sending
  completed : (s.answerLog : Multiset Nat) = s.unread + s.pc.answer + s.completedIds
  failed : ∀ j errcode, s.pc = .cleanup j errcode → errcode = clSuccess → j.kernelId = none
  alive : s.pc ≠ .aborted

/-- An answer that has been read belongs to a kernel in the map. -/
theorem Answered.found (h : Answered s) (hc : Counted s) {kernelId : Nat}
    (hpc : s.pc = .answered kernelId) : s.completePending.tryPop kernelId ≠ none := by
  have hwaiting := h.waiting
  unfold DspState.pendingIds at hwaiting
  rw [hpc] at hwaiting
  have hmem : kernelId ∈ (s.completePending.entries.map Prod.fst : Multiset Nat) + 0 := by
    refine hwaiting ▸ Multiset.mem_add.mpr (Or.inr ?_)
    exact Multiset.mem_singleton_self kernelId
  rw [add_zero, Multiset.mem_coe] at hmem
  exact tryPop_of_mem hc.numElements hmem

theorem Answered.waiting_work (h : Answered s) (hn : Numbered s) (hc : Counted s)
    (hstep : WorkStep env s t) :
    t.running + t.unread + t.pc.answer = t.pendingIds + t.pc.sending := by
  have hwaiting := h.waiting
  unfold DspState.unread DspState.pendingIds at hwaiting
  cases hstep with
  | move pc hidle hidle' =>
    rw [hidle.answer, hidle.sending] at hwaiting
    rw [hidle'.answer, hidle'.sending]
    exact hwaiting
  | printed mails hpc hmails =>
    rw [hpc, hmails] at hwaiting
    exact hwaiting
  | mailFrom kernelId mails hpc hmails =>
    rw [hpc, hmails] at hwaiting
    simp only [DspState.unread, DspState.pendingIds, mailIds_some, WorkerPc.answer,
      WorkerPc.sending, Multiset.coe_singleton, Multiset.coe_nil, add_zero] at hwaiting ⊢
    rw [← hwaiting]
    abel
  | notFound kernelId hpc hpop => exact absurd hpop (h.found hc hpc)
  | getCompletePending kernelId k m hpc hpop =>
    have hids := Multiset.coe_eq_coe.mpr ((tryPop_spec hpop).1.map Prod.fst)
    rw [hpc, hids, List.map_cons, ← Multiset.cons_coe, ← Multiset.singleton_add] at hwaiting
    simp only [DspState.unread, DspState.pendingIds, WorkerPc.answer, WorkerPc.sending,
      Multiset.coe_singleton, Multiset.coe_nil, add_zero] at hwaiting ⊢
    rw [add_comm] at hwaiting
    exact add_left_cancel hwaiting
  | freeTmpBufs k hpc | complete j hpc | getEvent j events hpc | buffer j hpc
  | finish j errcode hpc =>
    rw [hpc] at hwaiting
    exact hwaiting
  | run j kernelId e r hpc hkernel =>
    rw [hpc] at hwaiting
    rcases runKernel_cases s j kernelId r with ⟨ddr, start, addrs, heq⟩ | ⟨ddr, lost, code, -, heq⟩
    · rw [heq]
      simp only [DspState.unread, DspState.pendingIds, WorkerPc.answer, WorkerPc.sending,
        ← Multiset.cons_coe, ← Multiset.singleton_add, Multiset.coe_nil, add_zero] at hwaiting ⊢
      rw [← hwaiting]
      abel
    · rw [heq]
      exact hwaiting
  | pushCompletePending k hpc =>
    have hnew := hn.sending_new hpc
    rw [hpc] at hwaiting
    simp only [DspState.unread, DspState.pendingIds, WorkerPc.answer, WorkerPc.sending,
      push_entries hnew, List.map_cons, ← Multiset.cons_coe, ← Multiset.singleton_add,
      Multiset.coe_nil, add_zero] at hwaiting ⊢
    rw [hwaiting]
    abel
  | exit => exact h.waiting

theorem Answered.completed_work (h : Answered s) (hn : Numbered s) (hc : Counted s)
    (hstep : WorkStep env s t) :
    (t.answerLog : Multiset Nat) = t.unread + t.pc.answer + t.completedIds := by
  have hcompleted := h.completed
  unfold DspState.unread DspState.completedIds at hcompleted
  cases hstep with
  | move pc hidle hidle' =>
    rw [hidle.answer, hidle.completing] at hcompleted
    unfold DspState.completedIds
    rw [hidle'.answer, hidle'.completing]
    exact hcompleted
  | printed mails hpc hmails =>
    rw [hpc, hmails] at hcompleted
    exact hcompleted
  | mailFrom kernelId mails hpc hmails =>
    rw [hpc, hmails] at hcompleted
    simp only [DspState.unread, DspState.completedIds, mailIds_some, WorkerPc.answer,
      WorkerPc.completing, Multiset.coe_singleton, Multiset.coe_nil, add_zero] at hcompleted ⊢
    rw [hcompleted]
    abel
  | notFound kernelId hpc hpop => exact absurd hpop (h.found hc hpc)
  | getCompletePending kernelId k m hpc hpop =>
    have hkernel := (hn.keys _ ((tryPop_spec hpop).1.symm.subset List.mem_cons_self)).2
    rw [hpc] at hcompleted
    simp only [DspState.unread, DspState.completedIds, WorkerPc.answer, WorkerPc.completing,
      hkernel, Option.toList, Multiset.coe_singleton, Multiset.coe_nil, add_zero] at hcompleted ⊢
    rw [hcompleted]
    abel
  | freeTmpBufs k hpc | getEvent j events hpc | buffer j hpc | pushCompletePending k hpc =>
    rw [hpc] at hcompleted
    exact hcompleted
  | complete j hpc =>
    rw [hpc] at hcompleted
    refine hcompleted.trans ?_
    simp only [DspState.unread, DspState.completedIds, finishedIds_complete, WorkerPc.answer,
      WorkerPc.completing, ← Multiset.coe_add, Multiset.coe_nil, add_zero]
    abel
  | run j kernelId e r hpc hkernel =>
    rw [hpc] at hcompleted
    rcases runKernel_cases s j kernelId r with ⟨ddr, start, addrs, heq⟩ | ⟨ddr, lost, code, -, heq⟩
    all_goals
      rw [heq]
      exact hcompleted
  | finish j errcode hpc =>
    have hfailed := h.failed j errcode hpc
    rw [hpc] at hcompleted
    refine hcompleted.trans ?_
    simp only [DspState.unread, DspState.completedIds]
    by_cases hcode : errcode = clSuccess
    · rw [if_pos hcode, finishedIds_complete, hfailed hcode]
      rfl
    · rw [if_neg hcode, finishedIds_failed _ _ hcode]
      rfl
  | exit => exact h.completed

/-- Only a kernel that was refused is cleaned up, and no answer is unknown. -/
theorem Answered.pc_work (h : Answered s) (hc : Counted s) (hstep : WorkStep env s t) :
    (∀ j errcode, t.pc = .cleanup j errcode → errcode = clSuccess → j.kernelId = none) ∧
      t.pc ≠ .aborted := by
  cases hstep with
  | move pc hidle hidle' =>
    constructor
    · rintro j errcode rfl
      cases hidle'
    · rintro rfl
      cases hidle'
  | notFound kernelId hpc hpop => exact absurd hpop (h.found hc hpc)
  | buffer j hpc hkernel =>
    refine ⟨?_, nofun⟩
    rintro j' errcode hj -
    cases hj
    simp [Job.kernelId, hkernel]
  | run j kernelId e r hpc hkernel =>
    rcases runKernel_cases s j kernelId r with
      ⟨ddr, start, addrs, heq⟩ | ⟨ddr, lost, code, hcode, heq⟩
    · rw [heq]
      exact ⟨nofun, nofun⟩
    · rw [heq]
      refine ⟨?_, nofun⟩
      rintro j' errcode hj hsuccess
      cases hj
      exact absurd hsuccess hcode
  | exit => exact ⟨h.failed, h.alive⟩
  | _ => exact ⟨nofun, nofun⟩

theorem Answered.work (h : Answered s) (hn : Numbered s) (hc : Counted s)
    (hstep : WorkStep env s t) : Answered t :=
  ⟨h.waiting_work hn hc hstep, h.completed_work hn hc hstep, (h.pc_work hc hstep).1,
    (h.pc_work hc hstep).2⟩

/-! ## Every run -/

structure Tracked (s : DspState) : Prop where
  counted : Counted s
  numbered : Numbered s
  answered : Answered s

theorem Tracked.work (h : Tracked s) (hstep : WorkStep env s t) : Tracked t where
  counted := h.counted.work (fun _ hpc => h.numbered.sending_new hpc) hstep
  numbered := h.numbered.work hstep
  answered := h.answered.work h.numbered h.counted hstep

/-- Neither the memory nor the buffers are tracked here. -/
theorem Tracked.memory (h : Tracked s) (ddr : DdrHeaps) (buffers : List Nat) :
    Tracked { s with ddr := ddr, buffers := buffers } where
  counted := ⟨h.counted.numEvents, h.counted.numElements, h.counted.order, h.counted.stopSeen,
    h.counted.left⟩
  numbered := ⟨h.numbered.events, h.numbered.ids, h.numbered.keys, h.numbered.held⟩
  answered := ⟨h.answered.waiting, h.answered.completed, h.answered.failed, h.answered.alive⟩

theorem Tracked.create (h : Tracked s) {kernel : Option KernelLaunch}
    (hstep : s.create kernel = some t) : Tracked t := by
  obtain ⟨hc, hn, ha⟩ := h
  -- the new event joins the ones that have been created
  have hjobs : ∀ j n k, ({ s with
      nextEvent := n
      nextKernelId := k
      created := j :: s.created } : DspState).jobs = j ::ₘ s.jobs := by
    intro j n k
    simp only [DspState.jobs, ← Multiset.cons_coe, ← Multiset.singleton_add]
    abel
  cases kernel with
  | none =>
    cases hstep
    refine ⟨⟨hc.numEvents, hc.numElements, hc.order, hc.stopSeen, hc.left⟩,
      ⟨?_, ?_, hn.keys, hn.held⟩, ⟨ha.waiting, ha.completed, ha.failed, ha.alive⟩⟩
    · rw [hjobs, Multiset.map_cons, hn.events]
      exact (Multiset.range_succ _).symm
    · rw [hjobs, Multiset.filterMap_cons_none _ _ rfl]
      exact hn.ids
  | some e =>
    simp only [DspState.create] at hstep
    split at hstep
    · cases hstep
      refine ⟨⟨hc.numEvents, hc.numElements, hc.order, hc.stopSeen, hc.left⟩,
        ⟨?_, ?_, hn.keys, hn.held⟩, ⟨ha.waiting, ha.completed, ha.failed, ha.alive⟩⟩
      · rw [hjobs, Multiset.map_cons, hn.events]
        exact (Multiset.range_succ _).symm
      · have hid : Job.kernelId ⟨s.nextEvent, some (s.nextKernelId, e)⟩ = some s.nextKernelId := rfl
        rw [hjobs, Multiset.filterMap_cons_some _ _ _ hid, hn.ids]
        exact (Multiset.range_succ _).symm
    · cases hstep

theorem Tracked.pushEvent (h : Tracked s) {event : Nat} (hstep : s.pushEvent event = some t) :
    Tracked t := by
  obtain ⟨hc, hn, ha⟩ := h
  obtain ⟨j, hfind, rfl⟩ := Option.map_eq_some_iff.mp hstep
  obtain ⟨hkey, l₁, l₂, hsplit, hbefore⟩ := List.find?_eq_some_iff_append.mp hfind
  have hkey : j.event = event := by simpa using hkey
  have herase : s.created.eraseP (fun j => j.event = event) = l₁ ++ l₂ := by
    rw [hsplit, List.eraseP_append_right _ (by simpa using hbefore),
      List.eraseP_cons_of_pos (by simpa using hkey)]
  rw [herase]
  have hjobs : ({ s with
      created := l₁ ++ l₂
      events := s.events ++ [j]
      numEvents := s.numEvents + 1
      pushedLog := s.pushedLog ++ [event] } : DspState).jobs = s.jobs := by
    simp only [DspState.jobs, hsplit, ← Multiset.coe_add, ← Multiset.cons_coe, Multiset.coe_nil,
      ← Multiset.singleton_add]
    abel
  have hnumEvents := hc.numEvents
  have horder := hc.order
  refine ⟨⟨?_, hc.numElements, ?_, hc.stopSeen, hc.left⟩, ⟨?_, ?_, hn.keys, hn.held⟩,
    ⟨ha.waiting, ha.completed, ha.failed, ha.alive⟩⟩
  · simp [hnumEvents]
  · simp [← horder, hkey]
  · rw [hjobs]
    exact hn.events
  · rw [hjobs]
    exact hn.ids

theorem Tracked.step (h : Tracked s) {act : DspAction} (hstep : dspStep env s act = some t) :
    Tracked t := by
  replace hstep := (dspStep_spec hstep).2
  cases act with
  | create kernel => exact h.create hstep
  | push event => exact h.pushEvent hstep
  | malloc size prefer32bit =>
    cases hstep
    exact h.memory _ _
  | free addr =>
    simp only [DspState.act] at hstep
    split at hstep
    · cases hstep
      exact h.memory _ _
    · cases hstep
  | stop =>
    cases hstep
    obtain ⟨hc, hn, ha⟩ := h
    exact ⟨⟨hc.numEvents, hc.numElements, hc.order, fun _ => rfl,
      fun hpc => ⟨rfl, (hc.left hpc).2⟩⟩,
      ⟨hn.events, hn.ids, hn.keys, hn.held⟩, ⟨ha.waiting, ha.completed, ha.failed, ha.alive⟩⟩
  | answer kernelId =>
    simp only [DspState.act] at hstep
    split at hstep
    · rename_i hrunning
      cases hstep
      obtain ⟨hc, hn, ha⟩ := h
      have hrun : (s.running : Multiset Nat) = {kernelId} + s.running.erase kernelId := by
        rw [Multiset.singleton_add, Multiset.cons_coe]
        exact Multiset.coe_eq_coe.mpr (List.perm_cons_erase hrunning)
      have hmail : (mailIds (s.rxMbox ++ [some kernelId]) : Multiset Nat) =
          mailIds s.rxMbox + {kernelId} := by
        rw [mailIds, List.filterMap_append, ← Multiset.coe_add]
        rfl
      refine ⟨⟨hc.numEvents, hc.numElements, hc.order, hc.stopSeen, hc.left⟩,
        ⟨hn.events, hn.ids, hn.keys, hn.held⟩, ⟨?_, ?_, ha.failed, ha.alive⟩⟩
      · have hwaiting := ha.waiting
        simp only [DspState.unread, DspState.pendingIds, hmail, hrun] at hwaiting ⊢
        rw [← hwaiting]
        abel
      · have hcompleted := ha.completed
        simp only [DspState.unread, DspState.completedIds, hmail, ← Multiset.cons_coe,
          ← Multiset.singleton_add] at hcompleted ⊢
        rw [hcompleted]
        abel
    · cases hstep
  | print =>
    cases hstep
    obtain ⟨hc, hn, ha⟩ := h
    have hmail : mailIds (s.rxMbox ++ [none]) = mailIds s.rxMbox := by simp [mailIds]
    refine ⟨⟨hc.numEvents, hc.numElements, hc.order, hc.stopSeen, hc.left⟩,
      ⟨hn.events, hn.ids, hn.keys, hn.held⟩, ⟨?_, ?_, ha.failed, ha.alive⟩⟩
    · have hwaiting := ha.waiting
      simp only [DspState.unread, DspState.pendingIds, hmail] at hwaiting ⊢
      exact hwaiting
    · have hcompleted := ha.completed
      simp only [DspState.unread, DspState.completedIds, hmail] at hcompleted ⊢
      exact hcompleted
  | work => exact h.work (work_spec hstep)

theorem tracked_reachable {ddr : DdrHeaps} (h : Reachable (dspSystem env ddr) s) : Tracked s := by
  refine h.invariant (P := Tracked) (fun s hi => ?_) fun s act t _ htracked hstep =>
    htracked.step hstep
  obtain rfl : s = _ := hi
  have hjobs : (DspState.start ddr).jobs = 0 := by
    simp [DspState.jobs, DspState.start, ConcurrentMap.new, WorkerPc.inHand]
  refine ⟨⟨rfl, rfl, rfl, nofun, nofun⟩, ⟨?_, ?_, nofun, ?_⟩, ⟨?_, ?_, nofun, nofun⟩⟩
  · rw [hjobs]
    exact Multiset.range_zero.symm
  · rw [hjobs]
    exact Multiset.range_zero.symm
  · simp [DspState.start]
  · simp [DspState.start, DspState.unread, DspState.pendingIds, mailIds, ConcurrentMap.new,
      WorkerPc.answer, WorkerPc.sending]
  · simp [DspState.start, DspState.unread, DspState.completedIds, finishedIds, mailIds,
      WorkerPc.answer, WorkerPc.completing]

end Steps

/-- The worker is safe: an event is in one place and is finished at most once, events are taken in
the order in which they were pushed, the kernels in the map are those that the DSP has been sent and
that have not been answered or whose answer has not been handled, an answer completes one kernel,
it always finds it, and the worker does not leave before the map is empty. -/
structure WorkerSafe (s : DspState) : Prop where
  once : s.jobs.map Job.event = Multiset.range s.nextEvent
  order : s.takenLog ++ s.events.map Job.event = s.pushedLog
  counted : s.numEvents = s.events.length ∧
    s.completePending.numElements = s.completePending.entries.length
  distinct : s.pendingIds.Nodup
  waiting : s.running + s.unread + s.pc.answer = s.pendingIds + s.pc.sending
  completed : (s.answerLog : Multiset Nat) = s.unread + s.pc.answer + s.completedIds
  found : s.pc ≠ .aborted
  left : s.pc = .exited → s.stopped = true ∧ s.completePending.entries = []

section Runs

variable {env : DspEnv} {ddr : DdrHeaps} {s : DspState}

/-- In every run, with any order of pushes and answers, the worker is safe. -/
theorem worker_safe (h : Reachable (dspSystem env ddr) s) : WorkerSafe s := by
  obtain ⟨hc, hn, ha⟩ := tracked_reachable h
  exact ⟨hn.events, hc.order, ⟨hc.numEvents, hc.numElements⟩, hn.nodup.of_append_right, ha.waiting,
    ha.completed, ha.alive, hc.left⟩

def works (n : Nat) : List DspAction := List.replicate n .work

/-- Two kernels and an event of a buffer. -/
def threeEvents : List DspAction :=
  .create (some (hostptrLaunch 4096 false)) :: .create none ::
    .create (some (hostptrLaunch 8192 true)) :: .push 0 :: .push 1 :: .push 2 :: (works 21 ++
      .answer 1 :: .print :: .answer 0 :: (works 21 ++ .stop :: works 3))

def smallEnv : DspEnv := ⟨⟨fun _ => none, true⟩, Heap.new.configure 0x00800000 0x20000 false⟩

theorem exists_dsp (env : DspEnv) (ddr : DdrHeaps) (acts : List DspAction) (p : DspState → Bool)
    (h : (exec (dspStep env) (.start ddr) acts).map p = some true) :
    ∃ s, Reachable (dspSystem env ddr) s ∧ p s = true :=
  exists_exec (I := (· = DspState.start ddr)) rfl acts p h

/-- The answers come back in the other order. -/
theorem three_events_safe : ∃ s, (s.takenLog = [0, 1, 2] ∧
    s.finished.map (fun f => (f.1.event, f.2)) = [(0, 0), (2, 0), (1, 0)]) ∧ WorkerSafe s := by
  obtain ⟨s, hreach, hcheck⟩ := exists_dsp smallEnv smallDdr threeEvents (fun s =>
    decide (s.takenLog = [0, 1, 2] ∧ s.finished.map (fun f => (f.1.event, f.2)) =
      [(0, 0), (2, 0), (1, 0)])) (by decide +kernel)
  exact ⟨s, of_decide_eq_true hcheck, worker_safe hreach⟩

end Runs

end Shamrock.Dsp
