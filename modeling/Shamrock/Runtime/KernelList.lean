import Shamrock.Runtime.Commands
import Shamrock.Lib.Transition

/-!
# Kernel objects of a program

`kernelList` and `kernelReleasedList` of a built program, and the calls that share the kernels in
them between handles. A kernel is a number, in the order of creation.
-/
namespace Shamrock.Runtime

open Transition

/-- An access that has no result. -/
inductive Fault
  /-- `linked_module` is null -/
  | nullModule
  /-- a kernel has been deleted -/
  | deletedKernel
  /-- `device_list` is null -/
  | nullDeviceList
  /-- beyond the end of `device_list` -/
  | pastDeviceList
  /-- beyond the end of the copy that `clCreateProgramWithBinary` makes of it -/
  | pastDevices
  /-- beyond the end of `input_programs` -/
  | pastInputPrograms
  /-- through `p_null_device_dependent` -/
  | nullDependent
  /-- a handle is that of no program -/
  | notAProgram
  /-- `input_headers` or `header_include_names` is null -/
  | nullHeaders
  /-- an assertion fails -/
  | assertion
  deriving DecidableEq, Repr

/-- What a built program offers: the names of `kernelFunctions` for its first device and for the
others, unless the module of the device is null, and what `addFunction` answers. -/
structure KernelTable where
  first : Option (List String)
  others : List (Option (List String))
  addFunction : Nat → String → Bool

structure KernelObject where
  name : String
  references : Int
  deleted : Bool
  deriving DecidableEq, Repr

/-- `handles` is a history variable: the handles returned for a kernel and its retains, less its
releases. -/
structure KernelLists where
  heap : List KernelObject
  kernelList : List Nat
  kernelReleasedList : List Nat
  fault : Option Fault
  handles : Nat → Int

namespace KernelLists

/-- `kernelList[i]->p_name` -/
def nameOf (l : KernelLists) (k : Nat) : Except Fault String :=
  match l.heap[k]? with
  | some o => if o.deleted then .error .deletedKernel else .ok o.name
  | none => .error .deletedKernel

/-- The first kernel of a list with this name. -/
def find (l : KernelLists) (name : String) : List Nat → Except Fault (Option Nat)
  | [] => .ok none
  | k :: ks =>
    match l.nameOf k with
    | .error f => .error f
    | .ok n => if n = name then .ok (some k) else find l name ks

def setObject (l : KernelLists) (k : Nat) (f : KernelObject → KernelObject) : KernelLists :=
  { l with heap := l.heap.modify k f }

/-- `delete kernel` -/
def delete (l : KernelLists) (k : Nat) : Except Fault KernelLists :=
  match l.nameOf k with
  | .error f => .error f
  | .ok _ => .ok (l.setObject k fun o => { o with deleted := true })

/-- A handle is returned or retained, or one is given up. -/
def addHandles (l : KernelLists) (k : Nat) (n : Int) : KernelLists :=
  { l with handles := Function.update l.handles k (l.handles k + n) }

/-- The loop of `createKernel` over the devices, from device `i` on. -/
def addFunctions (table : KernelTable) (name : String) (k : Nat) :
    Nat → List (Option (List String)) → KernelLists → Except Fault (KernelLists × Int)
  | _, [], l => .ok (l, clSuccess)
  | _, none :: _, _ => .error .nullModule
  | i, some names :: rest, l =>
    if name ∈ names then
      let l := l.setObject k fun o => { o with name := name }
      if table.addFunction i name then
        addFunctions table name k (i + 1) rest { l with kernelList := l.kernelList ++ [k] }
      else .ok (l, clInvalidKernelDefinition)
    else .ok (l, clInvalidKernelName)

/-- The two searches that `createKernel` and `createKernelsAndReturnKernel` start with. -/
def cached (l : KernelLists) (name : String) : Except Fault (Option (KernelLists × Nat)) :=
  match l.find name l.kernelList with
  | .error f => .error f
  | .ok (some k) => .ok (some (l, k))
  | .ok none =>
    match l.find name l.kernelReleasedList with
    | .error f => .error f
    | .ok (some k) =>
      .ok (some ({ l with
        kernelList := l.kernelList ++ [k]
        kernelReleasedList := l.kernelReleasedList.erase k }, k))
    | .ok none => .ok none

/-- `Program::createKernel` -/
def createKernel (table : KernelTable) (l : KernelLists) (name : String) :
    Except Fault (KernelLists × Nat × Int) :=
  match l.cached name with
  | .error f => .error f
  | .ok (some (l, k)) => .ok (l, k, clSuccess)
  | .ok none =>
    let k := l.heap.length
    let l := { l with heap := l.heap ++ [{ name := "", references := 1, deleted := false }] }
    match addFunctions table name k 0 (table.first :: table.others) l with
    | .error f => .error f
    | .ok (l, code) => .ok (l, k, code)

/-- The loop of `createKernelsAndReturnKernel`. A kernel that could not be created is deleted, and
then asked for its name. -/
def createAll (table : KernelTable) (name : String) :
    List String → KernelLists → Option Nat → Except Fault (KernelLists × Option Nat)
  | [], l, rs => .ok (l, rs)
  | n :: ns, l, rs =>
    match createKernel table l n with
    | .error f => .error f
    | .ok (l, k, code) =>
      if code = clSuccess then
        match l.nameOf k with
        | .error f => .error f
        | .ok m => createAll table name ns l (if m = name then some k else rs)
      else .error .deletedKernel

def createKernelsAndReturnKernel (table : KernelTable) (l : KernelLists) (name : String) :
    Except Fault (KernelLists × Option Nat × Int) :=
  match l.cached name with
  | .error f => .error f
  | .ok (some (l, k)) => .ok (l, some k, clSuccess)
  | .ok none =>
    match table.first with
    | none => .error .nullModule
    | some names =>
      match createAll table name names l none with
      | .error f => .error f
      | .ok (l, some k) => .ok (l, some k, clSuccess)
      | .ok (l, none) => .ok (l, none, clInvalidKernelName)

/-- The loop of `createKernels`, which stops at the first kernel that cannot be created. -/
def createEach (table : KernelTable) :
    List String → KernelLists → Except Fault (KernelLists × Int)
  | [], l => .ok (l, clSuccess)
  | n :: ns, l =>
    match createKernel table l n with
    | .error f => .error f
    | .ok (l, k, code) =>
      if code = clSuccess then createEach table ns l
      else
        match l.delete k with
        | .error f => .error f
        | .ok l => .ok (l, code)

/-- `Program::createKernels`; it returns a copy of `kernelList`. -/
def createKernels (table : KernelTable) (l : KernelLists) : Except Fault (KernelLists × Int) :=
  let l := { l with
    kernelList := l.kernelList ++ l.kernelReleasedList
    kernelReleasedList := [] }
  if l.kernelList ≠ [] then .ok (l, clSuccess)
  else
    match table.first with
    | none => .error .nullModule
    | some names => createEach table names l

/-- `while (ks.size()) delete ks.back()` -/
def deleteAll : List Nat → KernelLists → Except Fault KernelLists
  | [], l => .ok l
  | k :: ks, l =>
    match l.delete k with
    | .error f => .error f
    | .ok l => deleteAll ks l

def clCreateKernel (table : KernelTable) (l : KernelLists) (name : String) :
    Except Fault (KernelLists × Int) :=
  match createKernelsAndReturnKernel table l name with
  | .error f => .error f
  | .ok (l, some k, code) =>
    if code = clSuccess then .ok (l.addHandles k 1, code)
    else
      match l.delete k with
      | .error f => .error f
      | .ok l => .ok (l, code)
  | .ok (l, none, code) => .ok (l, code)

/-- `array` tells whether `kernels` is not null, `numKernels` how many fit in it. -/
def clCreateKernelsInProgram (table : KernelTable) (l : KernelLists) (array : Bool)
    (numKernels : Nat) : Except Fault (KernelLists × Int) :=
  match createKernels table l with
  | .error f => .error f
  | .ok (l, code) =>
    if code ≠ clSuccess then (deleteAll l.kernelList.reverse l).map (·, code)
    else if array && numKernels < l.kernelList.length then
      (deleteAll l.kernelList.reverse l).map (·, clInvalidValue)
    else if array then .ok (l.kernelList.foldl (fun l k => l.addHandles k 1) l, clSuccess)
    else .ok (l, clSuccess)

/-- `isA(T_Kernel)` -/
def known (l : KernelLists) (k : Nat) : Bool := l.heap[k]?.any fun o => !o.deleted

def clRetainKernel (l : KernelLists) (k : Nat) : Except Fault (KernelLists × Int) :=
  if l.known k then
    .ok ((l.setObject k fun o => { o with references := o.references + 1 }).addHandles k 1,
      clSuccess)
  else .ok (l, clInvalidKernel)

/-- The loop of `clReleaseKernel` over `kernelList`: the kernel after one that is moved takes its
place and is passed over. -/
def moveReleased (l : KernelLists) (name : String) :
    List Nat → List Nat → List Nat → Except Fault (List Nat × List Nat)
  | [], kept, moved => .ok (kept, moved)
  | [k], kept, moved =>
    match l.nameOf k with
    | .error f => .error f
    | .ok n => if n = name then .ok (kept, moved ++ [k]) else .ok (kept ++ [k], moved)
  | k :: next :: ks, kept, moved =>
    match l.nameOf k with
    | .error f => .error f
    | .ok n =>
      if n = name then moveReleased l name ks (kept ++ [next]) (moved ++ [k])
      else moveReleased l name (next :: ks) (kept ++ [k]) moved

def clReleaseKernel (l : KernelLists) (k : Nat) : Except Fault (KernelLists × Int) :=
  match l.heap[k]? with
  | none => .ok (l, clInvalidKernel)
  | some o =>
    if o.deleted then .ok (l, clInvalidKernel)
    else
      let l := (l.setObject k fun o => { o with references := o.references - 1 }).addHandles k (-1)
      if o.references - 1 = 0 then
        match l.moveReleased o.name l.kernelList [] l.kernelReleasedList with
        | .error f => .error f
        | .ok (kept, moved) =>
          .ok ({ l with kernelList := kept, kernelReleasedList := moved }, clSuccess)
      else .ok (l, clSuccess)

end KernelLists

inductive KernelAction
  | createKernel (name : String)
  | createKernelsInProgram (array : Bool) (numKernels : Nat)
  | retainKernel (k : Nat)
  | releaseKernel (k : Nat)

def kernelCall (table : KernelTable) (l : KernelLists) :
    KernelAction → Except Fault (KernelLists × Int)
  | .createKernel name => l.clCreateKernel table name
  | .createKernelsInProgram array numKernels => l.clCreateKernelsInProgram table array numKernels
  | .retainKernel k => l.clRetainKernel k
  | .releaseKernel k => l.clReleaseKernel k

/-- Nothing happens after a fault. -/
def kernelStep (table : KernelTable) (l : KernelLists) (a : KernelAction) : Option KernelLists :=
  if l.fault.isSome then none
  else
    match kernelCall table l a with
    | .error f => some { l with fault := some f }
    | .ok (l, _) => some l

def KernelLists.empty : KernelLists where
  heap := []
  kernelList := []
  kernelReleasedList := []
  fault := none
  handles := fun _ => 0

def kernelSystem (table : KernelTable) : LTS KernelLists KernelAction :=
  ofStep (fun l => l = .empty) (kernelStep table)

namespace KernelLists

/-- `p_name`, whether the kernel is alive or not. -/
def name (l : KernelLists) (k : Nat) : String := l.heap[k]?.elim "" KernelObject.name

/-- A kernel of this name is in `kernelList`. -/
def Lists (l : KernelLists) (name : String) : Prop := ∃ k ∈ l.kernelList, l.name k = name

instance (l : KernelLists) (name : String) : Decidable (l.Lists name) :=
  inferInstanceAs (Decidable (∃ k ∈ l.kernelList, l.name k = name))

/-- No kernel of this name is in either list. -/
def Fresh (l : KernelLists) (name : String) : Prop :=
  ∀ k ∈ l.kernelList ++ l.kernelReleasedList, l.name k ≠ name

instance (l : KernelLists) (name : String) : Decidable (l.Fresh name) :=
  inferInstanceAs (Decidable (∀ k ∈ l.kernelList ++ l.kernelReleasedList, l.name k ≠ name))

end KernelLists

/-- `clCreateKernel` creates the kernel it is asked for and no other, on one device, or it finds
that the program lacks it. -/
def CreatesOne (table : KernelTable) (l : KernelLists) (name : String) (names : List String) :
    Prop :=
  l.Fresh name ∧ (∀ n ∈ names, n ≠ name → l.Lists n) ∧
    (name ∈ names → table.others = [] ∧ table.addFunction 0 name = true)

instance (table : KernelTable) (l : KernelLists) (name : String) (names : List String) :
    Decidable (CreatesOne table l name names) :=
  inferInstanceAs (Decidable (_ ∧ _ ∧ _))

/-- `clCreateKernelsInProgram` counts the kernels that exist, or it creates them all and returns
them all, or it fails at the first. -/
def CreatesAll (table : KernelTable) (l : KernelLists) (array : Bool) (numKernels : Nat)
    (names : List String) : Prop :=
  l.kernelReleasedList = [] ∧
    (l.kernelList ≠ [] ∧ array = false ∨ l.kernelList = [] ∧ (names = [] ∨ table.others = [] ∧
      ((∀ n ∈ names.head?, table.addFunction 0 n = false) ∨
        (∀ n ∈ names, table.addFunction 0 n = true) ∧ array = true ∧
          names.dedup.length ≤ numKernels)))

instance (table : KernelTable) (l : KernelLists) (array : Bool) (numKernels : Nat)
    (names : List String) : Decidable (CreatesAll table l array numKernels names) :=
  inferInstanceAs (Decidable (_ ∧ _))

/-- The module of the first device exists, a call that creates kernels is of one of the kinds
above, and only kernels with references are retained and released. -/
def KernelsKept (table : KernelTable) (l : KernelLists) : KernelAction → Prop
  | .createKernel name => table.first ≠ none ∧ ∀ names ∈ table.first, CreatesOne table l name names
  | .createKernelsInProgram array numKernels =>
    table.first ≠ none ∧ ∀ names ∈ table.first, CreatesAll table l array numKernels names
  | .retainKernel k | .releaseKernel k => ∀ o ∈ l.heap[k]?, o.deleted = false → 0 < o.references

instance (table : KernelTable) (l : KernelLists) (a : KernelAction) :
    Decidable (KernelsKept table l a) :=
  match a with
  | .createKernel name => inferInstanceAs (Decidable (
      table.first ≠ none ∧ ∀ names ∈ table.first, CreatesOne table l name names))
  | .createKernelsInProgram array numKernels => inferInstanceAs (Decidable (
      table.first ≠ none ∧ ∀ names ∈ table.first, CreatesAll table l array numKernels names))
  | .retainKernel k => inferInstanceAs (Decidable (
      ∀ o ∈ l.heap[k]?, o.deleted = false → 0 < o.references))
  | .releaseKernel k => inferInstanceAs (Decidable (
      ∀ o ∈ l.heap[k]?, o.deleted = false → 0 < o.references))

/-- The count of a kernel is the number of its handles, and the lists hold the kernels that have
some and those that have none. -/
structure KernelsOk (l : KernelLists) : Prop where
  fault : l.fault = none
  counts : ∀ k, ∀ o ∈ l.heap[k]?, o.deleted = false →
    o.references = l.handles k ∧ 0 ≤ o.references
  listed : ∀ k, ∀ o ∈ l.heap[k]?, o.deleted = false → (k ∈ l.kernelList ↔ 0 < o.references)
  live : ∀ k ∈ l.kernelList ++ l.kernelReleasedList, ∃ o ∈ l.heap[k]?, o.deleted = false
  disjoint : ∀ k ∈ l.kernelList, k ∉ l.kernelReleasedList
  nodup : l.kernelList.Nodup ∧ l.kernelReleasedList.Nodup
  names : ∀ k ∈ l.kernelList ++ l.kernelReleasedList,
    ∀ k' ∈ l.kernelList ++ l.kernelReleasedList, l.name k = l.name k' → k = k'

section Invariant

variable {table : KernelTable} {l l' : KernelLists} {k : Nat} {n name : String} {ks : List Nat}
  {pending : Nat → Int}

/-- As `KernelsOk`, where `pending` are handles that are still to be returned. -/
structure KernelInv (l : KernelLists) (pending : Nat → Int) : Prop where
  fault : l.fault = none
  live : ∀ k ∈ l.kernelList ++ l.kernelReleasedList, ∃ o ∈ l.heap[k]?, o.deleted = false
  names : (l.kernelList ++ l.kernelReleasedList).Pairwise fun k k' => l.name k ≠ l.name k'
  counts : ∀ k, ∀ o ∈ l.heap[k]?, o.deleted = false → o.references = l.handles k + pending k ∧
    (k ∈ l.kernelList ∧ 0 < o.references ∨ k ∈ l.kernelReleasedList ∧ o.references = 0)
  handles : ∀ k, l.heap.length ≤ k → l.handles k = 0

theorem KernelInv.distinct (hi : KernelInv l pending) :
    (l.kernelList ++ l.kernelReleasedList).Nodup :=
  hi.names.imp fun hne heq => hne (congrArg _ heq)

theorem KernelInv.inj (hi : KernelInv l pending) {k' : Nat}
    (hk : k ∈ l.kernelList ++ l.kernelReleasedList)
    (hk' : k' ∈ l.kernelList ++ l.kernelReleasedList) (h : l.name k = l.name k') : k = k' := by
  have hsymm : Std.Symm fun k k' => l.name k ≠ l.name k' := ⟨fun _ _ hne => Ne.symm hne⟩
  by_contra hne
  exact hi.names.forall hk hk' hne h

theorem KernelInv.kernelsOk (hi : KernelInv l fun _ => 0) : KernelsOk l := by
  have hd := List.nodup_append.mp hi.distinct
  refine ⟨hi.fault, ?_, ?_, hi.live, ?_, ⟨hd.1, hd.2.1⟩, ?_⟩
  · intro k o ho hlive
    obtain ⟨heq, hpos⟩ := hi.counts k o ho hlive
    rcases hpos with ⟨-, hpos⟩ | ⟨-, hzero⟩ <;> omega
  · intro k o ho hlive
    obtain ⟨-, hpos⟩ := hi.counts k o ho hlive
    constructor
    · intro hk
      rcases hpos with ⟨-, hpos⟩ | ⟨hk', -⟩
      · exact hpos
      · exact absurd rfl (hd.2.2 k hk k hk')
    · intro hpos'
      rcases hpos with ⟨hk, -⟩ | ⟨-, hzero⟩
      · exact hk
      · omega
  · intro k hk hk'
    exact hd.2.2 k hk k hk' rfl
  · exact fun k hk k' hk' heq => hi.inj hk hk' heq

section Search

theorem nameOf_live {o : KernelObject} (ho : l.heap[k]? = some o) (hlive : o.deleted = false) :
    l.nameOf k = .ok (l.name k) := by
  simp [KernelLists.nameOf, KernelLists.name, ho, hlive]

theorem find_live (h : ∀ k ∈ ks, ∃ o ∈ l.heap[k]?, o.deleted = false) :
    l.find name ks = .ok (ks.find? fun k => l.name k = name) := by
  induction ks with
  | nil => rfl
  | cons k ks ih =>
    obtain ⟨o, ho, hlive⟩ := h k List.mem_cons_self
    have ih := ih fun k hk => h k (List.mem_cons_of_mem _ hk)
    simp only [KernelLists.find, nameOf_live ho hlive, ih, List.find?_cons]
    by_cases hn : l.name k = name <;> simp [hn]

theorem KernelInv.cached_fresh (hi : KernelInv l pending) (hf : l.Fresh name) :
    l.cached name = .ok none := by
  have hnone : ∀ {ks : List Nat}, ks ⊆ l.kernelList ++ l.kernelReleasedList →
      l.find name ks = .ok none := by
    intro ks hks
    rw [find_live fun k hk => hi.live k (hks hk)]
    congr 1
    rw [List.find?_eq_none]
    intro k hk
    simpa using hf k (hks hk)
  simp only [KernelLists.cached, hnone (List.subset_append_left _ _),
    hnone (List.subset_append_right _ _)]

theorem KernelInv.cached_listed (hi : KernelInv l pending) (hl : l.Lists name) :
    ∃ k ∈ l.kernelList, l.name k = name ∧ l.cached name = .ok (some (l, k)) := by
  obtain ⟨j, hj, hjn⟩ := hl
  have hfind : l.find name l.kernelList = .ok (l.kernelList.find? fun k => l.name k = name) :=
    find_live fun k hk => hi.live k (List.mem_append_left l.kernelReleasedList hk)
  cases hs : l.kernelList.find? fun k => l.name k = name with
  | none =>
    have hno := List.find?_eq_none.mp hs j hj
    simp [hjn] at hno
  | some k =>
    refine ⟨k, List.mem_of_find?_eq_some hs, by simpa using List.find?_some hs, ?_⟩
    rw [hs] at hfind
    simp only [KernelLists.cached, hfind]

end Search

/-- The kernel that `createKernel` makes on one device. -/
def KernelLists.withNew (l : KernelLists) (name : String) : KernelLists :=
  { l with
    heap := l.heap ++ [{ name := name, references := 1, deleted := false }]
    kernelList := l.kernelList ++ [l.heap.length] }

theorem modify_last {α : Type} (xs : List α) (x : α) (f : α → α) :
    (xs ++ [x]).modify xs.length f = xs ++ [f x] := by
  induction xs with
  | nil => rfl
  | cons y ys ih => simpa using ih

section Create

variable {names : List String}

theorem KernelInv.createKernel_fresh (hi : KernelInv l pending) (hf : l.Fresh name)
    (hfirst : table.first = some names) (hothers : table.others = []) (hmem : name ∈ names)
    (hadd : table.addFunction 0 name = true) :
    l.createKernel table name = .ok (l.withNew name, l.heap.length, clSuccess) := by
  simp only [KernelLists.createKernel, hi.cached_fresh hf, hfirst, hothers,
    KernelLists.addFunctions, hmem, hadd, if_true, KernelLists.setObject, modify_last]
  rfl

theorem KernelInv.createKernel_rejected (hi : KernelInv l pending) (hf : l.Fresh name)
    (hfirst : table.first = some names) (hmem : name ∈ names)
    (hadd : table.addFunction 0 name = false) :
    l.createKernel table name =
      .ok ({ l with heap := l.heap ++ [{ name := name, references := 1, deleted := false }] },
        l.heap.length, clInvalidKernelDefinition) := by
  simp only [KernelLists.createKernel, hi.cached_fresh hf, hfirst, KernelLists.addFunctions, hmem,
    hadd, if_true, KernelLists.setObject, modify_last, Bool.false_eq_true, if_false]

theorem KernelInv.createKernel_listed (hi : KernelInv l pending) (table : KernelTable)
    (hl : l.Lists name) :
    ∃ k ∈ l.kernelList, l.name k = name ∧ l.createKernel table name = .ok (l, k, clSuccess) := by
  obtain ⟨k, hk, hn, hc⟩ := hi.cached_listed hl
  exact ⟨k, hk, hn, by simp only [KernelLists.createKernel, hc]⟩

theorem name_withNew (h : k < l.heap.length) : (l.withNew n).name k = l.name k := by
  simp only [KernelLists.name, KernelLists.withNew, List.getElem?_append_left h]

theorem name_withNew_self : (l.withNew n).name l.heap.length = n := by
  simp [KernelLists.name, KernelLists.withNew]

theorem KernelInv.lt (hi : KernelInv l pending) (hk : k ∈ l.kernelList ++ l.kernelReleasedList) :
    k < l.heap.length := by
  obtain ⟨o, ho, -⟩ := hi.live k hk
  exact (List.getElem?_eq_some_iff.mp ho).1

theorem lists_withNew (hi : KernelInv l pending) (hl : l.Lists n) : (l.withNew name).Lists n := by
  obtain ⟨k, hk, hn⟩ := hl
  refine ⟨k, List.mem_append_left _ hk, ?_⟩
  rw [name_withNew (hi.lt (List.mem_append_left _ hk)), hn]

theorem lists_withNew_self : (l.withNew name).Lists name :=
  ⟨l.heap.length, by simp [KernelLists.withNew], name_withNew_self⟩

/-- A new kernel waits for its handle. -/
theorem kernelInv_withNew (hi : KernelInv l pending) (hf : l.Fresh name) :
    KernelInv (l.withNew name) (Function.update pending l.heap.length 1) := by
  have hperm : ((l.withNew name).kernelList ++ (l.withNew name).kernelReleasedList).Perm
      (l.heap.length :: (l.kernelList ++ l.kernelReleasedList)) := by
    simp only [KernelLists.withNew, List.append_assoc, List.singleton_append]
    exact List.perm_middle
  have hold : ∀ k ∈ l.kernelList ++ l.kernelReleasedList,
      (l.withNew name).name k = l.name k := fun k hk => name_withNew (hi.lt hk)
  refine ⟨hi.fault, ?_, ?_, ?_, ?_⟩
  · intro k hk
    rcases List.mem_cons.mp (hperm.mem_iff.mp hk) with rfl | hk
    · exact ⟨⟨name, 1, false⟩, by simp [KernelLists.withNew], rfl⟩
    · obtain ⟨o, ho, hlive⟩ := hi.live k hk
      refine ⟨o, ?_, hlive⟩
      simp only [KernelLists.withNew, List.getElem?_append_left (hi.lt hk)]
      exact ho
  · rw [hperm.pairwise_iff fun hne => Ne.symm hne, List.pairwise_cons]
    constructor
    · intro k hk
      rw [name_withNew_self, hold k hk]
      exact Ne.symm (hf k hk)
    · refine hi.names.imp_of_mem ?_
      intro k k' hk hk' hne
      rwa [hold k hk, hold k' hk']
  · intro k o ho hlive
    by_cases hk : k = l.heap.length
    · subst hk
      simp only [KernelLists.withNew, List.getElem?_concat_length, Option.mem_some_iff] at ho
      subst ho
      refine ⟨?_, .inl ⟨by simp [KernelLists.withNew], by simp⟩⟩
      simp [KernelLists.withNew, hi.handles l.heap.length (Nat.le_refl _)]
    · have hlt : k < l.heap.length := by
        have hlt := (List.getElem?_eq_some_iff.mp ho).1
        simp only [KernelLists.withNew, List.length_append, List.length_singleton] at hlt
        omega
      simp only [KernelLists.withNew, List.getElem?_append_left hlt] at ho
      obtain ⟨heq, hpos⟩ := hi.counts k o ho hlive
      rw [Function.update_of_ne hk]
      refine ⟨heq, hpos.imp_left ?_⟩
      rintro ⟨hk', hpos⟩
      exact ⟨List.mem_append_left _ hk', hpos⟩
  · intro k hk
    simp only [KernelLists.withNew, List.length_append, List.length_singleton] at hk
    exact hi.handles k (by omega)

theorem KernelInv.nameOf_listed (hi : KernelInv l pending) (hk : k ∈ l.kernelList) :
    l.nameOf k = .ok (l.name k) := by
  obtain ⟨o, ho, hlive⟩ := hi.live k (List.mem_append_left _ hk)
  exact nameOf_live ho hlive

/-- Nothing is created once every name is listed. -/
theorem KernelInv.createAll_listed {ns : List String} {rs : Option Nat} (hi : KernelInv l pending)
    (hl : ∀ n ∈ ns, l.Lists n) (hrs : ∀ k ∈ l.kernelList, l.name k = name → rs = some k) :
    l.createAll table name ns rs = .ok (l, rs) := by
  induction ns with
  | nil => rfl
  | cons n ns ih =>
    obtain ⟨k, hk, -, hc⟩ := hi.createKernel_listed table (hl n List.mem_cons_self)
    have hkeep : (if l.name k = name then some k else rs) = rs := by
      split
      · exact (hrs k hk ‹_›).symm
      · rfl
    simp only [KernelLists.createAll, hc, if_true, hi.nameOf_listed hk, hkeep]
    exact ih fun n hn => hl n (List.mem_cons_of_mem _ hn)

/-- The one kernel that is asked for is new. -/
theorem KernelInv.createAll_fresh {ns : List String} (hi : KernelInv l pending)
    (hf : l.Fresh name) (hfirst : table.first = some names) (hns : ns ⊆ names)
    (hrest : ∀ n ∈ ns, n ≠ name → l.Lists n)
    (hnew : name ∈ ns → table.others = [] ∧ table.addFunction 0 name = true) :
    l.createAll table name ns none =
      .ok (if name ∈ ns then (l.withNew name, some l.heap.length) else (l, none)) := by
  induction ns with
  | nil => simp [KernelLists.createAll]
  | cons n ns ih =>
    by_cases hn : n = name
    · subst hn
      have hi' := kernelInv_withNew hi hf
      obtain ⟨hothers, hadd⟩ := hnew List.mem_cons_self
      have hlist : l.heap.length ∈ (l.withNew n).kernelList := by simp [KernelLists.withNew]
      simp only [KernelLists.createAll, List.mem_cons_self, if_true,
        hi.createKernel_fresh hf hfirst hothers (hns List.mem_cons_self) hadd,
        hi'.nameOf_listed hlist, name_withNew_self]
      -- every other name is listed, this one now too
      apply hi'.createAll_listed
      · intro m hm
        by_cases hmn : m = n
        · subst hmn
          exact lists_withNew_self
        · exact lists_withNew hi (hrest m (List.mem_cons_of_mem _ hm) hmn)
      · intro k hk hkn
        rw [hi'.inj (List.mem_append_left _ hk) (List.mem_append_left _ hlist)
          (hkn.trans name_withNew_self.symm)]
    · obtain ⟨k, hk, hkn, hc⟩ := hi.createKernel_listed table (hrest n List.mem_cons_self hn)
      have hne : l.name k ≠ name := by rwa [hkn]
      have ih := ih (fun m hm => hns (List.mem_cons_of_mem _ hm))
        (fun m hm => hrest m (List.mem_cons_of_mem _ hm))
        (fun hm => hnew (List.mem_cons_of_mem _ hm))
      simp only [KernelLists.createAll, hc, if_true, hi.nameOf_listed hk, if_neg hne, ih,
        List.mem_cons, Ne.symm hn, false_or]

theorem kernelInv_addHandles (hi : KernelInv l pending) (hk : k < l.heap.length) (d : Int) :
    KernelInv (l.addHandles k d) (Function.update pending k (pending k - d)) := by
  refine ⟨hi.fault, hi.live, hi.names, ?_, ?_⟩
  · intro j o ho hlive
    obtain ⟨heq, hpos⟩ := hi.counts j o ho hlive
    refine ⟨?_, hpos⟩
    by_cases hj : j = k
    · subst hj
      simp only [KernelLists.addHandles, Function.update_self]
      omega
    · simpa only [KernelLists.addHandles, Function.update_of_ne hj] using heq
  · intro j hj
    have hne : j ≠ k := by
      intro heq
      subst heq
      exact absurd hk (Nat.not_lt.mpr hj)
    simpa only [KernelLists.addHandles, Function.update_of_ne hne] using hi.handles j hj

theorem kernelInv_clCreateKernel (hi : KernelInv l fun _ => 0)
    (hfirst : table.first = some names) (hg : CreatesOne table l name names) :
    ∃ code, ∃ l', l.clCreateKernel table name = .ok (l', code) ∧ KernelInv l' fun _ => 0 := by
  obtain ⟨hf, hrest, hnew⟩ := hg
  have hall := hi.createAll_fresh hf hfirst (List.Subset.refl _) hrest hnew
  by_cases hmem : name ∈ names
  · rw [if_pos hmem] at hall
    have hi' := kernelInv_addHandles (kernelInv_withNew hi hf) (k := l.heap.length)
      (by simp [KernelLists.withNew]) 1
    simp only [Function.update_self, Function.update_idem, Int.sub_self] at hi'
    rw [Function.update_eq_self] at hi'
    refine ⟨clSuccess, _, ?_, hi'⟩
    simp only [KernelLists.clCreateKernel, KernelLists.createKernelsAndReturnKernel,
      hi.cached_fresh hf, hfirst, hall, if_true]
  · rw [if_neg hmem] at hall
    refine ⟨clInvalidKernelName, l, ?_, hi⟩
    simp only [KernelLists.clCreateKernel, KernelLists.createKernelsAndReturnKernel,
      hi.cached_fresh hf, hfirst, hall]

/-- Each listed kernel waits for its handle. -/
def KernelLists.waiting (l : KernelLists) : Nat → Int := fun k => if k ∈ l.kernelList then 1 else 0

theorem waiting_withNew (l : KernelLists) (name : String) :
    Function.update l.waiting l.heap.length 1 = (l.withNew name).waiting := by
  funext k
  by_cases hk : k = l.heap.length
  · subst hk
    simp [KernelLists.waiting, KernelLists.withNew]
  · simp [KernelLists.waiting, KernelLists.withNew, hk]

theorem lists_or_fresh (hr : l.kernelReleasedList = []) (name : String) :
    l.Lists name ∨ l.Fresh name := by
  by_cases hl : l.Lists name
  · exact .inl hl
  · right
    intro k hk hn
    rw [hr, List.append_nil] at hk
    exact hl ⟨k, hk, hn⟩

theorem names_withNew {S : List String} (hi : KernelInv l pending)
    (hS : ∀ k ∈ l.kernelList, l.name k ∈ S) (hn : n ∈ S) :
    ∀ k ∈ (l.withNew n).kernelList, (l.withNew n).name k ∈ S := by
  intro k hk
  rcases List.mem_append.mp hk with hk | hk
  · rw [name_withNew (hi.lt (List.mem_append_left _ hk))]
    exact hS k hk
  · rw [List.mem_singleton.mp hk, name_withNew_self]
    exact hn

/-- On one device, where every kernel is accepted, each name gets its kernel. -/
theorem createEach_all {ns : List String} (hfirst : table.first = some names)
    (hothers : table.others = []) (hns : ns ⊆ names)
    (hadd : ∀ n ∈ ns, table.addFunction 0 n = true) (hi : KernelInv l l.waiting)
    (hr : l.kernelReleasedList = []) (hS : ∀ k ∈ l.kernelList, l.name k ∈ names) :
    ∃ l', l.createEach table ns = .ok (l', clSuccess) ∧ KernelInv l' l'.waiting ∧
      ∀ k ∈ l'.kernelList, l'.name k ∈ names := by
  induction ns generalizing l with
  | nil => exact ⟨l, rfl, hi, hS⟩
  | cons n ns ih =>
    have hns' : ns ⊆ names := fun m hm => hns (List.mem_cons_of_mem _ hm)
    have hadd' : ∀ m ∈ ns, table.addFunction 0 m = true :=
      fun m hm => hadd m (List.mem_cons_of_mem _ hm)
    rcases lists_or_fresh hr n with hl | hf
    · obtain ⟨k, -, -, hc⟩ := hi.createKernel_listed table hl
      simp only [KernelLists.createEach, hc, if_true]
      exact ih hns' hadd' hi hr hS
    · have hn := hns List.mem_cons_self
      have hi' := kernelInv_withNew hi hf
      rw [waiting_withNew l n] at hi'
      simp only [KernelLists.createEach, if_true,
        hi.createKernel_fresh hf hfirst hothers hn (hadd n List.mem_cons_self)]
      exact ih hns' hadd' hi' hr (names_withNew hi hS hn)

theorem KernelInv.length_le (hi : KernelInv l pending)
    (hS : ∀ k ∈ l.kernelList, l.name k ∈ names) : l.kernelList.length ≤ names.dedup.length := by
  have hnodup : (l.kernelList.map l.name).Nodup :=
    List.pairwise_map.mpr (List.pairwise_append.mp hi.names).1
  have hsub : l.kernelList.map l.name ⊆ names.dedup := by
    intro n hn
    obtain ⟨k, hk, rfl⟩ := List.mem_map.mp hn
    exact List.mem_dedup.mpr (hS k hk)
  have hle := (hnodup.subperm hsub).length_le
  rwa [List.length_map] at hle

theorem kernelInv_foldl_addHandles (hi : KernelInv l pending) (hnodup : ks.Nodup)
    (hks : ∀ k ∈ ks, k < l.heap.length) :
    KernelInv (ks.foldl (fun l k => l.addHandles k 1) l)
      fun k => pending k - if k ∈ ks then 1 else 0 := by
  induction ks generalizing l pending with
  | nil => simpa using hi
  | cons k ks ih =>
    obtain ⟨hk, hnodup⟩ := List.nodup_cons.mp hnodup
    have hi' := kernelInv_addHandles hi (hks k List.mem_cons_self) 1
    have ih := ih hi' hnodup fun j hj => hks j (List.mem_cons_of_mem _ hj)
    rw [List.foldl_cons]
    convert ih using 1
    funext j
    by_cases hj : j = k
    · subst hj
      simp [hk]
    · simp [hj]

/-- A kernel that was rejected and deleted. -/
def KernelLists.withDeleted (l : KernelLists) (name : String) : KernelLists :=
  { l with heap := l.heap ++ [{ name := name, references := 1, deleted := true }] }

theorem kernelInv_withDeleted (hi : KernelInv l pending) : KernelInv (l.withDeleted n) pending := by
  have hget : ∀ k, k < l.heap.length → (l.withDeleted n).heap[k]? = l.heap[k]? := by
    intro k hk
    simp only [KernelLists.withDeleted, List.getElem?_append_left hk]
  have hname : ∀ k ∈ l.kernelList ++ l.kernelReleasedList, (l.withDeleted n).name k = l.name k := by
    intro k hk
    simp only [KernelLists.name, hget k (hi.lt hk)]
  refine ⟨hi.fault, ?_, ?_, ?_, ?_⟩
  · intro k hk
    rw [hget k (hi.lt hk)]
    exact hi.live k hk
  · refine hi.names.imp_of_mem ?_
    intro k k' hk hk' hne
    rwa [hname k hk, hname k' hk']
  · intro k o ho hlive
    by_cases hk : k < l.heap.length
    · rw [hget k hk] at ho
      exact hi.counts k o ho hlive
    · have hlt := (List.getElem?_eq_some_iff.mp ho).1
      simp only [KernelLists.withDeleted, List.length_append, List.length_singleton] at hlt
      obtain rfl : k = l.heap.length := by omega
      simp only [KernelLists.withDeleted, List.getElem?_concat_length, Option.mem_some_iff] at ho
      subst ho
      cases hlive
  · intro k hk
    simp only [KernelLists.withDeleted, List.length_append, List.length_singleton] at hk
    exact hi.handles k (by omega)

theorem createKernels_unreleased (hr : l.kernelReleasedList = [])
    (hfirst : table.first = some names) :
    l.createKernels table =
      if l.kernelList ≠ [] then .ok (l, clSuccess) else l.createEach table names := by
  obtain ⟨heap, kernels, released, fault, handles⟩ := l
  subst hr
  simp only [KernelLists.createKernels, hfirst, List.append_nil]

theorem createEach_rejected (ns : List String) (hi : KernelInv l pending) (hf : l.Fresh n)
    (hfirst : table.first = some names) (hmem : n ∈ names)
    (hadd : table.addFunction 0 n = false) :
    l.createEach table (n :: ns) = .ok (l.withDeleted n, clInvalidKernelDefinition) := by
  have hcode : clInvalidKernelDefinition ≠ clSuccess := by decide
  simp [KernelLists.createEach, hi.createKernel_rejected hf hfirst hmem hadd, hcode,
    KernelLists.delete, KernelLists.nameOf, KernelLists.setObject, modify_last,
    KernelLists.withDeleted]

theorem kernelInv_clCreateKernelsInProgram {array : Bool} {numKernels : Nat}
    (hi : KernelInv l fun _ => 0) (hfirst : table.first = some names)
    (hg : CreatesAll table l array numKernels names) :
    ∃ code, ∃ l', l.clCreateKernelsInProgram table array numKernels = .ok (l', code) ∧
      KernelInv l' fun _ => 0 := by
  obtain ⟨hr, hcases⟩ := hg
  have hcreate := createKernels_unreleased hr hfirst
  rcases hcases with ⟨hne, rfl⟩ | ⟨hl, hcases⟩
  · -- the count of the kernels that exist
    refine ⟨clSuccess, l, ?_, hi⟩
    rw [if_pos hne] at hcreate
    simp only [KernelLists.clCreateKernelsInProgram, hcreate, ne_eq, not_true_eq_false, if_false,
      Bool.false_and, Bool.false_eq_true]
  · rw [if_neg (not_not_intro hl)] at hcreate
    have hfresh : ∀ n, l.Fresh n := by
      intro n k hk
      simp [hl, hr] at hk
    rcases names with _ | ⟨n, ns⟩
    · refine ⟨clSuccess, l, ?_, hi⟩
      simp [KernelLists.clCreateKernelsInProgram, hcreate, KernelLists.createEach, hl]
    · obtain ⟨hothers, hrej | ⟨hadd, rfl, hle⟩⟩ := hcases.resolve_left (by simp)
      · have heach := createEach_rejected ns hi (hfresh n) hfirst List.mem_cons_self (hrej n rfl)
        have hcode : clInvalidKernelDefinition ≠ clSuccess := by decide
        refine ⟨clInvalidKernelDefinition, l.withDeleted n, ?_, kernelInv_withDeleted hi⟩
        have hnil : (l.withDeleted n).kernelList = [] := hl
        simp only [KernelLists.clCreateKernelsInProgram, hcreate, heach, ne_eq, hcode,
          not_false_eq_true, if_true, hnil, List.reverse_nil, KernelLists.deleteAll, Except.map]
      · have hwait : l.waiting = fun _ => 0 := by
          funext k
          simp [KernelLists.waiting, hl]
        obtain ⟨l', heach, hi', hS⟩ := createEach_all hfirst hothers (List.Subset.refl _) hadd
          (hwait ▸ hi) hr (by simp [hl])
        have hfit : ¬ numKernels < l'.kernelList.length :=
          Nat.not_lt.mpr (Nat.le_trans (hi'.length_le hS) hle)
        have hreturn := kernelInv_foldl_addHandles hi' (List.nodup_append.mp hi'.distinct).1
          fun k hk => hi'.lt (List.mem_append_left _ hk)
        simp only [KernelLists.waiting, Int.sub_self] at hreturn
        refine ⟨clSuccess, _, ?_, hreturn⟩
        simp only [KernelLists.clCreateKernelsInProgram, hcreate, heach, ne_eq, not_true_eq_false,
          if_false, hfit, decide_false, Bool.and_false, Bool.false_eq_true, if_true]

end Create

section Count

/-- Handles and count of a kernel change together. -/
def KernelLists.recount (l : KernelLists) (k : Nat) (d : Int) : KernelLists :=
  (l.setObject k fun o => { o with references := o.references + d }).addHandles k d

theorem heap_recount {d : Int} {j : Nat} (hj : j ≠ k) :
    (l.recount k d).heap[j]? = l.heap[j]? := by
  simp [KernelLists.recount, KernelLists.setObject, KernelLists.addHandles, Ne.symm hj]

theorem heap_recount_self {o : KernelObject} {d : Int} (ho : l.heap[k]? = some o) :
    (l.recount k d).heap[k]? = some { o with references := o.references + d } := by
  simp [KernelLists.recount, KernelLists.setObject, KernelLists.addHandles, ho]

theorem name_recount {d : Int} {j : Nat} : (l.recount k d).name j = l.name j := by
  by_cases hj : j = k
  · subst hj
    cases ho : l.heap[j]? with
    | none => simp [KernelLists.name, KernelLists.recount, KernelLists.setObject,
        KernelLists.addHandles, ho]
    | some o => simp [KernelLists.name, heap_recount_self ho, ho]
  · simp only [KernelLists.name, heap_recount hj]

theorem live_recount {d : Int} {j : Nat} (h : ∃ o ∈ l.heap[j]?, o.deleted = false) :
    ∃ o ∈ (l.recount k d).heap[j]?, o.deleted = false := by
  obtain ⟨o, ho, hlive⟩ := h
  by_cases hj : j = k
  · subst hj
    exact ⟨_, heap_recount_self ho, hlive⟩
  · exact ⟨o, by rwa [heap_recount hj], hlive⟩

/-- A kernel is retained or released: it goes to the list that its new count asks for. -/
theorem kernelInv_recount {o : KernelObject} {d : Int} {kernels released : List Nat}
    (hi : KernelInv l pending) (ho : l.heap[k]? = some o)
    (hperm : (kernels ++ released).Perm (l.kernelList ++ l.kernelReleasedList))
    (hother : ∀ j, j ≠ k → (j ∈ kernels ↔ j ∈ l.kernelList) ∧
      (j ∈ released ↔ j ∈ l.kernelReleasedList))
    (hself : k ∈ kernels ∧ 0 < o.references + d ∨ k ∈ released ∧ o.references + d = 0) :
    KernelInv { l.recount k d with kernelList := kernels, kernelReleasedList := released }
      pending := by
  refine ⟨hi.fault, ?_, ?_, ?_, ?_⟩
  · intro j hj
    exact live_recount (hi.live j (hperm.mem_iff.mp hj))
  · refine (hperm.pairwise_iff fun hne => Ne.symm hne).mpr (hi.names.imp ?_)
    intro j j' hne heq
    apply hne
    calc l.name j = (l.recount k d).name j := name_recount.symm
      _ = (l.recount k d).name j' := heq
      _ = l.name j' := name_recount
  · intro j p hp hlive
    by_cases hj : j = k
    · subst hj
      obtain rfl := Option.some.inj ((heap_recount_self ho).symm.trans hp)
      obtain ⟨heq, -⟩ := hi.counts j o ho hlive
      refine ⟨?_, hself⟩
      simp only [KernelLists.recount, KernelLists.addHandles, KernelLists.setObject,
        Function.update_self]
      omega
    · have hp : p ∈ l.heap[j]? := (heap_recount hj).symm.trans hp
      obtain ⟨heq, hpos⟩ := hi.counts j p hp hlive
      refine ⟨?_, ?_⟩
      · simpa only [KernelLists.recount, KernelLists.addHandles, KernelLists.setObject,
          Function.update_of_ne hj] using heq
      · rw [(hother j hj).1, (hother j hj).2]
        exact hpos
  · intro j hj
    simp only [KernelLists.recount, KernelLists.addHandles, KernelLists.setObject,
      List.length_modify] at hj
    have hlt := (List.getElem?_eq_some_iff.mp ho).1
    have hne : j ≠ k := by omega
    simpa only [KernelLists.recount, KernelLists.addHandles, KernelLists.setObject,
      Function.update_of_ne hne] using hi.handles j hj

theorem kernelInv_recount_listed {o : KernelObject} {d : Int} (hi : KernelInv l pending)
    (ho : l.heap[k]? = some o) (hk : k ∈ l.kernelList) (hpos : 0 < o.references + d) :
    KernelInv (l.recount k d) pending :=
  kernelInv_recount hi ho (List.Perm.refl _) (fun _ _ => ⟨.rfl, .rfl⟩) (.inl ⟨hk, hpos⟩)

/-- The last handle is gone. -/
theorem kernelInv_recount_released {o : KernelObject} {d : Int} (hi : KernelInv l pending)
    (ho : l.heap[k]? = some o) (hk : k ∈ l.kernelList) (hzero : o.references + d = 0) :
    KernelInv { l.recount k d with
      kernelList := l.kernelList.erase k
      kernelReleasedList := l.kernelReleasedList ++ [k] } pending := by
  apply kernelInv_recount hi ho
  · calc l.kernelList.erase k ++ (l.kernelReleasedList ++ [k])
      _ = l.kernelList.erase k ++ l.kernelReleasedList ++ [k] := (List.append_assoc _ _ _).symm
      List.Perm _ ([k] ++ (l.kernelList.erase k ++ l.kernelReleasedList)) := List.perm_append_comm
      _ = (k :: l.kernelList.erase k) ++ l.kernelReleasedList := rfl
      List.Perm _ (l.kernelList ++ l.kernelReleasedList) :=
        List.Perm.append_right _ (List.perm_cons_erase hk).symm
  · intro j hj
    exact ⟨List.mem_erase_of_ne hj, by simp [hj]⟩
  · exact .inr ⟨by simp, hzero⟩

theorem kernelInv_clRetainKernel (hi : KernelInv l pending)
    (hg : ∀ o ∈ l.heap[k]?, o.deleted = false → 0 < o.references) :
    ∃ code, ∃ l', l.clRetainKernel k = .ok (l', code) ∧ KernelInv l' pending := by
  cases ho : l.heap[k]? with
  | none => exact ⟨clInvalidKernel, l, by simp [KernelLists.clRetainKernel, KernelLists.known, ho],
      hi⟩
  | some o =>
    cases hd : o.deleted with
    | true => exact ⟨clInvalidKernel, l,
        by simp [KernelLists.clRetainKernel, KernelLists.known, ho, hd], hi⟩
    | false =>
      have hpos := hg o ho hd
      obtain ⟨-, ⟨hk, -⟩ | ⟨-, hzero⟩⟩ := hi.counts k o ho hd
      · refine ⟨clSuccess, l.recount k 1, ?_, kernelInv_recount_listed hi ho hk (by omega)⟩
        simp [KernelLists.clRetainKernel, KernelLists.known, ho, hd, KernelLists.recount]
      · omega

theorem moveReleased_none (kept moved : List Nat)
    (h : ∀ j ∈ ks, l.nameOf j = .ok (l.name j) ∧ l.name j ≠ name) :
    l.moveReleased name ks kept moved = .ok (kept ++ ks, moved) := by
  induction ks generalizing kept with
  | nil => simp [KernelLists.moveReleased]
  | cons j ks ih =>
    obtain ⟨hj, hne⟩ := h j List.mem_cons_self
    have ih := fun kept => ih kept fun i hi => h i (List.mem_cons_of_mem _ hi)
    cases ks with
    | nil => simp only [KernelLists.moveReleased, hj, if_neg hne]
    | cons next ks =>
      simp only [KernelLists.moveReleased, hj, if_neg hne, ih, List.append_assoc,
        List.singleton_append]

/-- One kernel has the name, so no other is moved or passed over. -/
theorem moveReleased_one (kept moved : List Nat)
    (h : ∀ j ∈ ks, l.nameOf j = .ok (l.name j))
    (hd : ks.Pairwise fun j j' => l.name j ≠ l.name j') (hk : k ∈ ks) :
    l.moveReleased (l.name k) ks kept moved = .ok (kept ++ ks.erase k, moved ++ [k]) := by
  induction ks generalizing kept with
  | nil => cases hk
  | cons j ks ih =>
    obtain ⟨hj, hd⟩ := List.pairwise_cons.mp hd
    have hname := h j List.mem_cons_self
    have h' : ∀ i ∈ ks, l.nameOf i = .ok (l.name i) := fun i hi => h i (List.mem_cons_of_mem _ hi)
    by_cases hjk : j = k
    · subst hjk
      cases ks with
      | nil => simp [KernelLists.moveReleased, hname]
      | cons next ks =>
        have hnone := moveReleased_none (kept ++ [next]) (moved ++ [j])
          fun i (hi : i ∈ ks) => ⟨h' i (List.mem_cons_of_mem _ hi),
            Ne.symm (hj i (List.mem_cons_of_mem _ hi))⟩
        simp only [KernelLists.moveReleased, hname, if_true, hnone, List.erase_cons_head,
          List.append_assoc, List.singleton_append]
    · have hk : k ∈ ks := (List.mem_cons.mp hk).resolve_left (Ne.symm hjk)
      have hne : l.name j ≠ l.name k := hj k hk
      have ih := fun kept => ih kept h' hd hk
      cases ks with
      | nil => cases hk
      | cons next ks =>
        rw [List.erase_cons_tail (by simpa using hjk)]
        simp only [KernelLists.moveReleased, hname, if_neg hne, ih, List.append_assoc,
          List.singleton_append]

theorem moveReleased_recount {o : KernelObject} {d : Int} (hi : KernelInv l pending)
    (ho : l.heap[k]? = some o) (hk : k ∈ l.kernelList) :
    (l.recount k d).moveReleased o.name (l.recount k d).kernelList []
        (l.recount k d).kernelReleasedList =
      .ok (l.kernelList.erase k, l.kernelReleasedList ++ [k]) := by
  have hname : o.name = (l.recount k d).name k := by
    rw [name_recount]
    simp [KernelLists.name, ho]
  rw [hname]
  apply moveReleased_one
  · intro j hj
    obtain ⟨p, hp, hlive⟩ := live_recount (hi.live j (List.mem_append_left _ hj))
    exact nameOf_live hp hlive
  · refine (List.pairwise_append.mp hi.names).1.imp ?_
    intro j j' hne
    rwa [name_recount, name_recount]
  · exact hk

theorem kernelInv_clReleaseKernel (hi : KernelInv l pending)
    (hg : ∀ o ∈ l.heap[k]?, o.deleted = false → 0 < o.references) :
    ∃ code, ∃ l', l.clReleaseKernel k = .ok (l', code) ∧ KernelInv l' pending := by
  cases ho : l.heap[k]? with
  | none => exact ⟨clInvalidKernel, l, by simp only [KernelLists.clReleaseKernel, ho], hi⟩
  | some o =>
    cases hd : o.deleted with
    | true => exact ⟨clInvalidKernel, l,
        by simp only [KernelLists.clReleaseKernel, ho, hd, if_true], hi⟩
    | false =>
      have hpos := hg o ho hd
      obtain ⟨-, ⟨hk, -⟩ | ⟨-, hzero⟩⟩ := hi.counts k o ho hd
      · have hrecount :
          (l.setObject k fun o => { o with references := o.references - 1 }).addHandles
            k (-1) = l.recount k (-1) := rfl
        by_cases hlast : o.references - 1 = 0
        · have hmove := moveReleased_recount hi ho hk (d := -1)
          refine ⟨clSuccess, _, ?_, kernelInv_recount_released hi ho hk hlast⟩
          simp only [KernelLists.clReleaseKernel, ho, hd, Bool.false_eq_true, if_false, hrecount,
            hlast, if_true, hmove]
        · refine ⟨clSuccess, l.recount k (-1), ?_,
            kernelInv_recount_listed hi ho hk (by omega)⟩
          simp only [KernelLists.clReleaseKernel, ho, hd, Bool.false_eq_true, if_false, hrecount,
            hlast]
      · omega

end Count

/-- Every guarded call returns. -/
theorem kernelInv_call {a : KernelAction} (hi : KernelInv l fun _ => 0)
    (hg : KernelsKept table l a) :
    ∃ code, ∃ l', kernelCall table l a = .ok (l', code) ∧ KernelInv l' fun _ => 0 := by
  cases a with
  | createKernel name =>
    obtain ⟨hne, hg⟩ := hg
    obtain ⟨names, hfirst⟩ := Option.ne_none_iff_exists'.mp hne
    exact kernelInv_clCreateKernel hi hfirst (hg names hfirst)
  | createKernelsInProgram array numKernels =>
    obtain ⟨hne, hg⟩ := hg
    obtain ⟨names, hfirst⟩ := Option.ne_none_iff_exists'.mp hne
    exact kernelInv_clCreateKernelsInProgram hi hfirst (hg names hfirst)
  | retainKernel k => exact kernelInv_clRetainKernel hi hg
  | releaseKernel k => exact kernelInv_clReleaseKernel hi hg

theorem kernelInv_step {a : KernelAction} (hi : KernelInv l fun _ => 0)
    (hg : KernelsKept table l a) (h : kernelStep table l a = some l') :
    KernelInv l' fun _ => 0 := by
  obtain ⟨code, l'', hcall, hi'⟩ := kernelInv_call hi hg
  simp only [kernelStep, hi.fault, Option.isSome_none, Bool.false_eq_true, if_false, hcall] at h
  cases h
  exact hi'

theorem kernelInv_empty : KernelInv .empty fun _ => 0 where
  fault := rfl
  live := by simp [KernelLists.empty]
  names := List.Pairwise.nil
  counts := by simp [KernelLists.empty]
  handles := fun _ _ => rfl

/-- As long as the calls keep to the guard, the count of every kernel is the number of its
handles and both lists are in order. -/
theorem kernel_handles_counted
    (h : Reachable ((kernelSystem table).restrict (KernelsKept table)) l) : KernelsOk l := by
  suffices hi : KernelInv l fun _ => 0 from hi.kernelsOk
  apply h.invariant
  · rintro s rfl
    exact kernelInv_empty
  · intro s a t _ hi ht
    exact kernelInv_step hi ht.2 ht.1

end Invariant

section Faults

variable {table : KernelTable} {l : KernelLists} {name : String} {ks : List Nat} {k : Nat}
  {f : Fault}

theorem nameOf_fault (h : l.nameOf k = .error f) : f = .deletedKernel := by
  simp only [KernelLists.nameOf] at h
  split at h
  · split at h
    · cases h
      rfl
    · cases h
  · cases h
    rfl

theorem find_fault (h : l.find name ks = .error f) : f = .deletedKernel := by
  induction ks with
  | nil => cases h
  | cons k ks ih =>
    simp only [KernelLists.find] at h
    split at h
    · rename_i hname
      cases h
      exact nameOf_fault hname
    · split at h
      · cases h
      · exact ih h

theorem delete_fault (h : l.delete k = .error f) : f = .deletedKernel := by
  simp only [KernelLists.delete] at h
  split at h
  · rename_i hname
    cases h
    exact nameOf_fault hname
  · cases h

theorem deleteAll_fault (h : KernelLists.deleteAll ks l = .error f) : f = .deletedKernel := by
  induction ks generalizing l with
  | nil => cases h
  | cons k ks ih =>
    simp only [KernelLists.deleteAll] at h
    split at h
    · rename_i hdelete
      cases h
      exact delete_fault hdelete
    · exact ih h

theorem cached_fault (h : l.cached name = .error f) : f = .deletedKernel := by
  simp only [KernelLists.cached] at h
  split at h
  · rename_i hfind
    cases h
    exact find_fault hfind
  · cases h
  · split at h
    · rename_i hfind
      cases h
      exact find_fault hfind
    · cases h
    · cases h

/-- The module of every device is there. -/
def KernelTable.Complete (table : KernelTable) : Prop :=
  ∀ names ∈ table.first :: table.others, names ≠ none

theorem addFunctions_ok (table : KernelTable) (name : String) (k i : Nat) (l : KernelLists)
    {functions : List (Option (List String))} (h : ∀ names ∈ functions, names ≠ none) :
    ∃ l' code, KernelLists.addFunctions table name k i functions l = .ok (l', code) := by
  induction functions generalizing i l with
  | nil => exact ⟨l, clSuccess, rfl⟩
  | cons names functions ih =>
    obtain ⟨names, rfl⟩ := Option.ne_none_iff_exists'.mp (h names List.mem_cons_self)
    simp only [KernelLists.addFunctions]
    split
    · split
      · exact ih _ _ fun names hnames => h names (List.mem_cons_of_mem _ hnames)
      · exact ⟨_, _, rfl⟩
    · exact ⟨_, _, rfl⟩

theorem createKernel_fault (ht : table.Complete) (h : l.createKernel table name = .error f) :
    f = .deletedKernel := by
  simp only [KernelLists.createKernel] at h
  split at h
  · rename_i hcached
    cases h
    exact cached_fault hcached
  · cases h
  · split at h
    · rename_i hadd
      obtain ⟨l', code, hok⟩ := addFunctions_ok table name l.heap.length 0 _ ht
      rw [hok] at hadd
      cases hadd
    · cases h

theorem createAll_fault {ns : List String} {rs : Option Nat} (ht : table.Complete)
    (h : l.createAll table name ns rs = .error f) : f = .deletedKernel := by
  induction ns generalizing l rs with
  | nil => cases h
  | cons n ns ih =>
    simp only [KernelLists.createAll] at h
    split at h
    · rename_i hcreate
      cases h
      exact createKernel_fault ht hcreate
    · split at h
      · split at h
        · rename_i hname
          cases h
          exact nameOf_fault hname
        · exact ih h
      · cases h
        rfl

theorem createEach_fault {ns : List String} (ht : table.Complete)
    (h : l.createEach table ns = .error f) : f = .deletedKernel := by
  induction ns generalizing l with
  | nil => cases h
  | cons n ns ih =>
    simp only [KernelLists.createEach] at h
    split at h
    · rename_i hcreate
      cases h
      exact createKernel_fault ht hcreate
    · split at h
      · exact ih h
      · split at h
        · rename_i hdelete
          cases h
          exact delete_fault hdelete
        · cases h

theorem createKernels_fault (ht : table.Complete) (h : l.createKernels table = .error f) :
    f = .deletedKernel := by
  obtain ⟨names, hfirst⟩ := Option.ne_none_iff_exists'.mp (ht _ List.mem_cons_self)
  simp only [KernelLists.createKernels, hfirst] at h
  split at h
  · cases h
  · exact createEach_fault ht h

theorem clCreateKernel_fault (ht : table.Complete) (h : l.clCreateKernel table name = .error f) :
    f = .deletedKernel := by
  obtain ⟨names, hfirst⟩ := Option.ne_none_iff_exists'.mp (ht _ List.mem_cons_self)
  simp only [KernelLists.clCreateKernel] at h
  split at h
  · rename_i hcreate
    cases h
    simp only [KernelLists.createKernelsAndReturnKernel, hfirst] at hcreate
    split at hcreate
    · rename_i hcached
      cases hcreate
      exact cached_fault hcached
    · cases hcreate
    · split at hcreate
      · rename_i hall
        cases hcreate
        exact createAll_fault ht hall
      · cases hcreate
      · cases hcreate
  · split at h
    · cases h
    · split at h
      · rename_i hdelete
        cases h
        exact delete_fault hdelete
      · cases h
  · cases h

theorem clCreateKernelsInProgram_fault {array : Bool} {numKernels : Nat} (ht : table.Complete)
    (h : l.clCreateKernelsInProgram table array numKernels = .error f) : f = .deletedKernel := by
  have hmap : ∀ {code : Int} {l : KernelLists},
      (KernelLists.deleteAll l.kernelList.reverse l).map (·, code) = .error f →
        f = .deletedKernel := by
    intro code l h
    cases hdelete : KernelLists.deleteAll l.kernelList.reverse l with
    | error g =>
      rw [hdelete] at h
      cases h
      exact deleteAll_fault hdelete
    | ok l' =>
      rw [hdelete] at h
      cases h
  simp only [KernelLists.clCreateKernelsInProgram] at h
  split at h
  · rename_i hcreate
    cases h
    exact createKernels_fault ht hcreate
  · split at h
    · exact hmap h
    · split at h
      · exact hmap h
      · split at h <;> cases h

end Faults

section Runs

theorem exists_kept_kernel_run (table : KernelTable) (as : List KernelAction)
    (c : KernelLists → Bool)
    (h : (execGuarded (kernelStep table) (fun l a => decide (KernelsKept table l a))
      .empty as).map c = some true) :
    ∃ l, Reachable ((kernelSystem table).restrict (KernelsKept table)) l ∧ c l = true :=
  exists_execGuarded (I := fun l : KernelLists => l = .empty) (KernelsKept table) rfl as c h

theorem exists_kernel_run (table : KernelTable) (as : List KernelAction) (c : KernelLists → Bool)
    (h : (exec (kernelStep table) .empty as).map c = some true) :
    ∃ l, Reachable (kernelSystem table) l ∧ c l = true :=
  exists_exec (I := fun l : KernelLists => l = .empty) rfl as c h

/-- A device with two kernels, both created at once; a third does not exist, one of the two is
retained, and both are released. -/
theorem two_kernels_counted : ∃ l, (l.kernelList = [0] ∧ l.kernelReleasedList = [1]) ∧
    KernelsOk l := by
  obtain ⟨l, hr, hc⟩ := exists_kept_kernel_run ⟨some ["add", "scale"], [], fun _ _ => true⟩
    [.createKernelsInProgram true 2, .createKernel "none", .retainKernel 0, .releaseKernel 0,
      .releaseKernel 1]
    (fun l => l.kernelList = [0] ∧ l.kernelReleasedList = [1]) (by decide +kernel)
  exact ⟨l, by simpa using hc, kernel_handles_counted hr⟩

/-- Two calls of `clCreateKernel` share one reference. -/
theorem kernel_created_twice : ¬ ∀ table l, Reachable (kernelSystem table) l → KernelsOk l := by
  intro hall
  obtain ⟨l, hr, hc⟩ := exists_kernel_run ⟨some ["add"], [], fun _ _ => true⟩
    [.createKernel "add", .createKernel "add"]
    (fun l => l.heap = [⟨"add", 1, false⟩] ∧ l.handles 0 = 2) (by decide +kernel)
  simp only [Bool.decide_and, Bool.and_eq_true, decide_eq_true_eq] at hc
  obtain ⟨hheap, hhandles⟩ := hc
  obtain ⟨heq, -⟩ := (hall _ l hr).counts 0 ⟨"add", 1, false⟩ (by simp [hheap]) rfl
  rw [hhandles] at heq
  exact absurd heq (by decide)

end Runs

end Shamrock.Runtime
