import Mathlib.Algebra.Group.Nat.Defs
import Mathlib.Data.List.Forall2
import Mathlib.Data.List.Infix
import Mathlib.Tactic.SplitIfs
import Shamrock.Lib.Calls

/-!
# What the metadata says of the arguments of a kernel

The table `opencl.kernels` has an entry for each kernel, and an entry has a node for each attribute:
its name and its operands. `none` is a cast that fails.
-/
namespace Shamrock.Runtime

open Shamrock.Calls

/-- An operand behind the name of an attribute. -/
inductive Operand
  | string (s : String)
  | int (n : Nat)
  /-- any other value: the type of `vec_type_hint` is an undefined one -/
  | value
  deriving DecidableEq, Repr

structure AttributeNode where
  name : String
  operands : List Operand
  deriving DecidableEq, Repr

/-- The first operand of an entry. -/
inductive EntryHead
  | function (name : String)
  | value
  /-- not a value, or null -/
  | other
  deriving DecidableEq, Repr

structure KernelEntry where
  head : EntryHead
  nodes : List AttributeNode
  deriving DecidableEq, Repr

/-- `getLimitedValue` in an `int` or a `uint` -/
def low32 (n : Nat) : Nat := min n (2 ^ 64 - 1) % 2 ^ 32

inductive AddressQualifier
  | priv
  | global
  | loc
  | constant
  deriving DecidableEq, Repr

/-- The `switch` over the address spaces; `old` is what an unknown one leaves. -/
def AddressQualifier.switch (old : AddressQualifier) : Nat → AddressQualifier
  | 0 => .priv
  | 1 => .global
  | 2 => .loc
  | 3 => .constant
  | _ => old

inductive AccessQualifier
  | readOnly
  | writeOnly
  | readWrite
  | none
  deriving DecidableEq, Repr

def AccessQualifier.ofString (v : String) : AccessQualifier :=
  if v = "read_only" then .readOnly
  else if v = "write_only" then .writeOnly
  else if v = "read_write" then .readWrite
  else .none

def clKernelArgTypeConst : UInt64 := 1
def clKernelArgTypeRestrict : UInt64 := 2
def clKernelArgTypeVolatile : UInt64 := 4

/-- `v.find(word) != std::string::npos` -/
def finds (v word : String) : Bool := word.toList <:+: v.toList

def typeQualifiers (v : String) : UInt64 :=
  (if finds v "const" then clKernelArgTypeConst else 0) |||
    (if finds v "restrict" then clKernelArgTypeRestrict else 0) |||
    (if finds v "volatile" then clKernelArgTypeVolatile else 0)

/-- `Kernel::ArgInfo` -/
structure ArgInfo where
  addressQualifier : AddressQualifier
  accessQualifier : AccessQualifier
  typeName : String
  typeQualifier : UInt64
  name : String
  deriving DecidableEq, Repr

namespace ArgInfo

def default : ArgInfo where
  addressQualifier := .priv
  accessQualifier := .none
  typeName := ""
  typeQualifier := 0
  name := ""

/-- The body of the loop over the operands of a node. -/
def read (name : String) (operand : Operand) (info : ArgInfo) : Option ArgInfo :=
  if name = "kernel_arg_addr_space" then
    match operand with
    | .int n => some { info with addressQualifier := info.addressQualifier.switch (low32 n) }
    | _ => none
  else
    match operand with
    | .string v => some <|
        if name = "kernel_arg_access_qual" then { info with accessQualifier := .ofString v }
        else if name = "kernel_arg_type" then { info with typeName := v }
        else if name = "kernel_arg_type_qual" then { info with typeQualifier := typeQualifiers v }
        else if name = "kernel_arg_name" then { info with name := v }
        else info
    | _ => none

end ArgInfo

/-- The loop over the operands of a node, one for each of the arguments. -/
def fillOperands (name : String) : List Operand → List ArgInfo → Option (List ArgInfo)
  | operand :: operands, info :: infos => do
    let info ← info.read name operand
    let infos ← fillOperands name operands infos
    return info :: infos
  | _, infos => some infos

def fillNode (infos : List ArgInfo) (node : AttributeNode) : Option (List ArgInfo) :=
  -- this could be a different attribute, like `reqd_work_group_size`
  if node.operands.length ≠ infos.length then some infos
  else if node.name = "vec_type_hint" then some infos
  else fillOperands node.name node.operands infos

/-- `p_argsInfo.resize(count, defaultArgInfo)` -/
def resizeInfos (count : Nat) (infos : List ArgInfo) : List ArgInfo :=
  infos.take count ++ List.replicate (count - infos.length) .default

def fillEntry (name : String) (count : Nat) (infos : List ArgInfo) (entry : KernelEntry) :
    Option (List ArgInfo) :=
  if entry.nodes = [] then some infos
  else
    match entry.head with
    | .function kernName =>
      if name ≠ kernName then some infos
      else entry.nodes.foldlM fillNode (resizeInfos count infos)
    | _ => none

/-- `Kernel::fillArgsInfo`, for the kernel `name` with `count` arguments. -/
def fillArgsInfo (name : String) (count : Nat) (kernels : Option (List KernelEntry))
    (infos : List ArgInfo) : Option (List ArgInfo) :=
  if infos ≠ [] then some infos
  else
    match kernels with
    | none => some infos
    | some entries => entries.foldlM (fillEntry name count) infos

/-- The loop of `reqdWorkGroupSize` over the nodes of the entry. -/
def reqdOfNodes : List AttributeNode → Option (Nat × Nat × Nat)
  | [] => some (0, 0, 0)
  | node :: nodes =>
    if node.operands.length = 3 ∧ node.name = "reqd_work_group_size" then
      match node.operands with
      | [.int x, .int y, .int z] => some (low32 x, low32 y, low32 z)
      | _ => none
    else reqdOfNodes nodes

def reqdOfEntries (name : String) : List KernelEntry → Option (Nat × Nat × Nat)
  | [] => some (0, 0, 0)
  | entry :: entries =>
    match entry.head with
    | .other => none
    | .value => reqdOfEntries name entries
    | .function f => if f ≠ name then reqdOfEntries name entries else reqdOfNodes entry.nodes

/-- `Kernel::reqdWorkGroupSize` -/
def reqdWorkGroupSize (name : String) (kernels : Option (List KernelEntry)) :
    Option (Nat × Nat × Nat) :=
  match kernels with
  | none => some (0, 0, 0)
  | some entries => reqdOfEntries name entries

/-- What the nodes say of one argument. -/
structure ArgData where
  addrSpace : Nat
  accessQual : String
  type : String
  typeQual : String
  name : String
  deriving DecidableEq, Repr

/-- The nodes that are about the arguments. -/
inductive ArgField
  | addrSpace
  | accessQual
  | type
  | typeQual
  | name
  deriving DecidableEq, Repr

def ArgField.nodeName : ArgField → String
  | .addrSpace => "kernel_arg_addr_space"
  | .accessQual => "kernel_arg_access_qual"
  | .type => "kernel_arg_type"
  | .typeQual => "kernel_arg_type_qual"
  | .name => "kernel_arg_name"

namespace ArgData

def operand (d : ArgData) : ArgField → Operand
  | .addrSpace => .int d.addrSpace
  | .accessQual => .string d.accessQual
  | .type => .string d.type
  | .typeQual => .string d.typeQual
  | .name => .string d.name

/-- The argument that the data describes. An address space without a name is private. -/
def info (d : ArgData) : ArgInfo where
  addressQualifier := AddressQualifier.priv.switch d.addrSpace
  accessQualifier := .ofString d.accessQual
  typeName := d.type
  typeQualifier := typeQualifiers d.typeQual
  name := d.name

end ArgData

theorem ArgField.nodeName_injective {f g : ArgField} (h : f.nodeName = g.nodeName) : f = g := by
  cases f <;> cases g <;> first | rfl | simp [nodeName] at h

theorem ArgField.nodeName_ne_reqd {f : ArgField} : f.nodeName ≠ "reqd_work_group_size" := by
  cases f <;> simp [nodeName]

def ArgField.node (f : ArgField) (args : List ArgData) : AttributeNode :=
  ⟨f.nodeName, args.map (·.operand f)⟩

def reqdNode (size : Nat × Nat × Nat) : AttributeNode :=
  ⟨"reqd_work_group_size", [.int size.1, .int size.2.1, .int size.2.2]⟩

/-- A table with one entry for the kernel, which has one node for each field of its arguments, at
most one with its work-group size, and any others. -/
structure MetadataTable where
  name : String
  before : List KernelEntry
  nodes : List AttributeNode
  after : List KernelEntry
  args : List ArgData
  reqd : Option (Nat × Nat × Nat)
  others : ∀ e ∈ before ++ after, e.head ≠ .function name
  argNode : ∀ (f : ArgField), ∀ node, node ∈ nodes ∧ node.name = f.nodeName ↔ node = f.node args
  reqdNode : ∀ node, node ∈ nodes ∧ node.name = "reqd_work_group_size" ↔
    ∃ size ∈ reqd, node = reqdNode size

namespace MetadataTable

def entries (t : MetadataTable) : List KernelEntry :=
  t.before ++ ⟨.function t.name, t.nodes⟩ :: t.after

/-- Both functions end, with what the nodes of the kernel say. -/
structure Exact (t : MetadataTable) : Prop where
  args : fillArgsInfo t.name t.args.length (some t.entries) [] = some (t.args.map ArgData.info)
  size : reqdWorkGroupSize t.name (some t.entries) = some (t.reqd.getD (0, 0, 0))

/-- Every entry with attributes is one of a function, and so is every entry before that of the
kernel, unless it is another value. No other attribute has as many operands as the kernel has
arguments, but for `vec_type_hint` and attributes with strings. The integers have 32 bits, except
for address spaces which remain unknown when they are cut to 32 bits. -/
structure Clean (t : MetadataTable) : Prop where
  functions : ∀ e ∈ t.before ++ t.after, e.nodes = [] ∨ ∃ f, e.head = .function f
  heads : ∀ e ∈ t.before, e.head ≠ .other
  attributes : ∀ node ∈ t.nodes, node.operands.length = t.args.length →
    node.name ≠ "vec_type_hint" → (∀ f : ArgField, node.name ≠ f.nodeName) →
      ∀ operand ∈ node.operands, ∃ v, operand = .string v
  spaces : ∀ d ∈ t.args, d.addrSpace < 2 ^ 32 ∨ low32 d.addrSpace = 0 ∨ 4 ≤ low32 d.addrSpace
  sizes : ∀ size ∈ t.reqd, size.1 < 2 ^ 32 ∧ size.2.1 < 2 ^ 32 ∧ size.2.2 < 2 ^ 32

end MetadataTable

section ArgsInfo

variable {name : String} {operand : Operand} {operands : List Operand} {info info' : ArgInfo}
  {infos infos' : List ArgInfo} {node : AttributeNode} {nodes : List AttributeNode}
  {args : List ArgData} {d : ArgData} {f : ArgField} {entry : KernelEntry}
  {entries : List KernelEntry} {count : Nat}

theorem low32_lt (n : Nat) : low32 n < 2 ^ 32 := Nat.mod_lt _ (by decide)

theorem low32_of_lt {n : Nat} (h : n < 2 ^ 32) : low32 n = n := by
  unfold low32
  rw [Nat.min_eq_left (by omega), Nat.mod_eq_of_lt h]

theorem low32_eq_iff {n : Nat} : low32 n = n ↔ n < 2 ^ 32 :=
  ⟨fun h => h ▸ low32_lt n, low32_of_lt⟩

/-- An unknown address space is the private one. -/
theorem switch_low32_iff {n : Nat} :
    AddressQualifier.priv.switch (low32 n) = AddressQualifier.priv.switch n ↔
      n < 2 ^ 32 ∨ low32 n = 0 ∨ 4 ≤ low32 n := by
  have hunknown : ∀ m, 4 ≤ m → AddressQualifier.priv.switch m = .priv := by
    intro m hm
    obtain ⟨k, rfl⟩ := Nat.exists_eq_add_of_le' hm
    rfl
  by_cases hn : n < 2 ^ 32
  · rw [low32_of_lt hn]
    exact iff_of_true rfl (.inl hn)
  · rw [hunknown n (by omega)]
    constructor
    · intro h
      match hm : low32 n with
      | 0 => exact .inr (.inl rfl)
      | 1 | 2 | 3 =>
        rw [hm] at h
        cases h
      | m + 4 => exact .inr (.inr (by omega))
    · rintro (h | h | h)
      · exact absurd h hn
      · rw [h]
        rfl
      · exact hunknown _ h

/-- What is read for an argument. -/
def ArgData.loaded (d : ArgData) : ArgInfo :=
  { d.info with addressQualifier := AddressQualifier.priv.switch (low32 d.addrSpace) }

/-- The two have the same entry in the field. -/
def ArgField.same : ArgField → ArgInfo → ArgInfo → Prop
  | .addrSpace, a, b => a.addressQualifier = b.addressQualifier
  | .accessQual, a, b => a.accessQualifier = b.accessQualifier
  | .type, a, b => a.typeName = b.typeName
  | .typeQual, a, b => a.typeQualifier = b.typeQualifier
  | .name, a, b => a.name = b.name

theorem ArgField.same_refl : f.same info info := by
  cases f <;> rfl

theorem ArgField.same_trans {a b c : ArgInfo} (h : f.same a b) (h' : f.same b c) : f.same a c := by
  cases f <;> exact Eq.trans h h'

theorem eq_of_same (h : ∀ f : ArgField, f.same info info') : info = info' := by
  cases info
  cases info'
  have := h .addrSpace
  have := h .accessQual
  have := h .type
  have := h .typeQual
  have := h .name
  simp_all [ArgField.same]

/-- The operands that a node of this name can have. -/
def Accepts (name : String) (operand : Operand) : Prop :=
  if name = "kernel_arg_addr_space" then ∃ n, operand = .int n else ∃ v, operand = .string v

theorem read_ends_iff (info : ArgInfo) :
    (∃ info', info.read name operand = some info') ↔ Accepts name operand := by
  unfold ArgInfo.read Accepts
  split_ifs <;> cases operand <;> simp

/-- A node about another field, or about none, leaves a field as it is. -/
theorem read_other (hname : name ≠ f.nodeName) (h : info.read name operand = some info') :
    f.same info' info := by
  unfold ArgInfo.read at h
  split_ifs at h with haddr haccess htype hqual hname'
  all_goals
    cases operand <;> cases h
    cases f <;> first | rfl | exact absurd ‹_› hname

theorem switch_again {old : AddressQualifier} {n : Nat}
    (h : old = .priv ∨ old = AddressQualifier.priv.switch n) :
    old.switch n = AddressQualifier.priv.switch n := by
  rcases h with rfl | rfl
  · rfl
  · match n with
    | 0 | 1 | 2 | 3 => rfl
    | n + 4 => rfl

/-- The node of a field sets it, whether it has been set before or not. -/
theorem read_own (hold : f.same info .default ∨ f.same info d.loaded)
    (h : info.read f.nodeName (d.operand f) = some info') : f.same info' d.loaded := by
  cases f with
  | addrSpace =>
    cases h
    exact switch_again hold
  | _ =>
    cases h
    rfl

theorem fillOperands_cons :
    fillOperands name (operand :: operands) (info :: infos) = some infos' ↔
      ∃ info', info.read name operand = some info' ∧
        ∃ rest, fillOperands name operands infos = some rest ∧ infos' = info' :: rest := by
  rw [fillOperands]
  constructor
  · intro h
    obtain ⟨info', hread, h⟩ := Option.bind_eq_some_iff.mp h
    obtain ⟨rest, hrest, h⟩ := Option.bind_eq_some_iff.mp h
    cases h
    exact ⟨info', hread, rest, hrest, rfl⟩
  · rintro ⟨info', hread, rest, hrest, rfl⟩
    rw [hread, Option.bind_eq_bind, Option.bind_some, hrest]
    rfl

theorem fillOperands_ends_iff (hlen : operands.length = infos.length) :
    (∃ infos', fillOperands name operands infos = some infos') ↔
      ∀ operand ∈ operands, Accepts name operand := by
  induction operands generalizing infos with
  | nil => exact iff_of_true ⟨infos, by rw [fillOperands]; simp⟩ (by simp)
  | cons operand operands ih =>
    cases infos with
    | nil => cases hlen
    | cons info infos =>
      rw [List.forall_mem_cons, ← ih (Nat.succ.inj hlen), ← read_ends_iff info]
      constructor
      · rintro ⟨infos', h⟩
        obtain ⟨info', hread, rest, hrest, -⟩ := fillOperands_cons.mp h
        exact ⟨⟨info', hread⟩, rest, hrest⟩
      · rintro ⟨⟨info', hread⟩, rest, hrest⟩
        exact ⟨info' :: rest, fillOperands_cons.mpr ⟨info', hread, rest, hrest, rfl⟩⟩

/-- What reading does for each argument, it does for all of them. -/
theorem forall₂_fillOperands {R S : ArgInfo → ArgData → Prop} {g : ArgData → Operand}
    (hread : ∀ info info' d, R info d → info.read name (g d) = some info' → S info' d)
    (hinfos : List.Forall₂ R infos args)
    (h : fillOperands name (args.map g) infos = some infos') : List.Forall₂ S infos' args := by
  induction hinfos generalizing infos' with
  | nil =>
    cases h
    exact .nil
  | @cons info d infos args hr _ ih =>
    obtain ⟨info', hi, rest, hrest, rfl⟩ := fillOperands_cons.mp h
    exact .cons (hread info info' d hr hi) (ih hrest)

theorem fillOperands_other (hname : name ≠ f.nodeName) (hlen : operands.length = infos.length)
    {R : ArgInfo → ArgData → Prop} (hR : ∀ info info' d, f.same info' info → R info d → R info' d)
    (hinfos : List.Forall₂ R infos args) (h : fillOperands name operands infos = some infos') :
    List.Forall₂ R infos' args := by
  induction hinfos generalizing operands infos' with
  | nil =>
    cases operands with
    | nil =>
      cases h
      exact .nil
    | cons => cases hlen
  | @cons info d infos args hr _ ih =>
    cases operands with
    | nil => cases hlen
    | cons operand operands =>
      obtain ⟨info', hi, rest, hrest, rfl⟩ := fillOperands_cons.mp h
      exact .cons (hR info info' d (read_other hname hi) hr) (ih (Nat.succ.inj hlen) hrest)

theorem fillOperands_length (h : fillOperands name operands infos = some infos') :
    infos'.length = infos.length := by
  fun_induction fillOperands name operands infos generalizing infos' with
  | case1 operand operands info infos ih =>
    obtain ⟨info', -, h⟩ := Option.bind_eq_some_iff.mp h
    obtain ⟨rest, hrest, h⟩ := Option.bind_eq_some_iff.mp h
    cases h
    exact congrArg (· + 1) (ih hrest)
  | case2 =>
    cases h
    rfl

theorem fillNode_length (h : fillNode infos node = some infos') : infos'.length = infos.length := by
  unfold fillNode at h
  split_ifs at h
  · exact congrArg List.length (Option.some.inj h).symm
  · exact congrArg List.length (Option.some.inj h).symm
  · exact fillOperands_length h

theorem fillNode_ends_iff (node : AttributeNode) (hlen : infos.length = count) :
    (∃ infos', fillNode infos node = some infos') ↔ node.operands.length ≠ count ∨
      node.name = "vec_type_hint" ∨ ∀ operand ∈ node.operands, Accepts node.name operand := by
  unfold fillNode
  rw [hlen]
  split_ifs with hcount hhint
  · exact iff_of_true ⟨infos, rfl⟩ (.inl hcount)
  · exact iff_of_true ⟨infos, rfl⟩ (.inr (.inl hhint))
  · rw [fillOperands_ends_iff ((not_not.mp hcount).trans hlen.symm)]
    exact ⟨fun h => .inr (.inr h), fun h => (h.resolve_left hcount).resolve_left hhint⟩

/-- Before and after the node of a field has been read. -/
def ArgField.Either (f : ArgField) (info : ArgInfo) (d : ArgData) : Prop :=
  f.same info .default ∨ f.same info d.loaded

theorem fillNode_other {R : ArgInfo → ArgData → Prop} (hname : node.name ≠ f.nodeName)
    (hR : ∀ info info' d, f.same info' info → R info d → R info' d)
    (hinfos : List.Forall₂ R infos args) (h : fillNode infos node = some infos') :
    List.Forall₂ R infos' args := by
  unfold fillNode at h
  split_ifs at h with hcount hhint
  · cases h
    exact hinfos
  · cases h
    exact hinfos
  · exact fillOperands_other hname (not_not.mp hcount) hR hinfos h

theorem fillNode_own (hinfos : List.Forall₂ f.Either infos args)
    (h : fillNode infos (f.node args) = some infos') :
    List.Forall₂ (fun info d => f.same info d.loaded) infos' args := by
  unfold fillNode at h
  have hcount : ¬(f.node args).operands.length ≠ infos.length := by
    rw [hinfos.length_eq]
    exact not_not.mpr (List.length_map _)
  have hhint : (f.node args).name ≠ "vec_type_hint" := by
    cases f <;> simp [ArgField.node, ArgField.nodeName]
  rw [if_neg hcount, if_neg hhint] at h
  exact forall₂_fillOperands (fun info info' d hold hread => read_own hold hread) hinfos h

theorem eq_loaded_of_same
    (h : ∀ f : ArgField, List.Forall₂ (fun info d => f.same info d.loaded) infos args) :
    infos = args.map ArgData.loaded := by
  induction args generalizing infos with
  | nil => exact List.forall₂_nil_right_iff.mp (h .name)
  | cons d args ih =>
    cases infos with
    | nil => cases h .name
    | cons info infos =>
      have hall := fun f : ArgField => List.forall₂_cons.mp (h f)
      rw [List.map_cons, ih fun f => (hall f).2, eq_of_same fun f => (hall f).1]

namespace MetadataTable

variable {t : MetadataTable}

theorem node_mem (t : MetadataTable) (f : ArgField) : f.node t.args ∈ t.nodes :=
  ((t.argNode f _).mpr rfl).1

/-- The nodes of the kernel are read without a failing cast. -/
theorem fillNodes_ends_iff (hlen : infos.length = t.args.length) :
    (∃ infos', t.nodes.foldlM fillNode infos = some infos') ↔
      ∀ node ∈ t.nodes, node.operands.length = t.args.length → node.name ≠ "vec_type_hint" →
        (∀ f : ArgField, node.name ≠ f.nodeName) →
          ∀ operand ∈ node.operands, ∃ v, operand = .string v := by
  have hends := fun (infos : List ArgInfo) node (_ : node ∈ t.nodes)
    (hlen : infos.length = t.args.length) => fillNode_ends_iff node hlen
  rw [foldlM_ends_iff (fun _ _ _ _ hlen h => (fillNode_length h).trans hlen) hends hlen]
  refine forall₂_congr fun node hnode => ?_
  by_cases hfield : ∃ f : ArgField, node.name = f.nodeName
  · obtain ⟨f, hname⟩ := hfield
    refine iff_of_true (.inr (.inr fun operand hoperand => ?_)) fun _ _ hf => absurd hname (hf f)
    cases (t.argNode f node).mp ⟨hnode, hname⟩
    obtain ⟨d, -, rfl⟩ := List.mem_map.mp hoperand
    cases f <;> simp [Accepts, ArgField.node, ArgField.nodeName, ArgData.operand]
  · have hfield' := not_exists.mp hfield
    have haddr : node.name ≠ "kernel_arg_addr_space" := hfield' .addrSpace
    simp only [Accepts, haddr, if_false]
    constructor
    · exact fun h hcount hhint _ => (h.resolve_left (not_not.mpr hcount)).resolve_left hhint
    · intro h
      by_cases hcount : node.operands.length = t.args.length
      · by_cases hhint : node.name = "vec_type_hint"
        · exact .inr (.inl hhint)
        · exact .inr (.inr (h hcount hhint hfield'))
      · exact .inl hcount

/-- A node leaves what is known of a field, unless it is the node of that field. -/
theorem fillNode_keeps {R : ArgInfo → ArgData → Prop}
    (hR : ∀ info info' d, f.same info' info → R info d → R info' d) (hnode : node ∈ t.nodes)
    (hne : node ≠ f.node t.args) (hinfos : List.Forall₂ R infos t.args)
    (h : fillNode infos node = some infos') : List.Forall₂ R infos' t.args := by
  refine fillNode_other (fun hname => hne ?_) hR hinfos h
  exact (t.argNode f node).mp ⟨hnode, hname⟩

/-- Whatever the order of the nodes, each field is read from its own node. -/
theorem fillNodes_eq
    (h : t.nodes.foldlM fillNode (List.replicate t.args.length .default) = some infos) :
    infos = t.args.map ArgData.loaded := by
  refine eq_loaded_of_same fun f => ?_
  have hstart : List.Forall₂ f.Either (List.replicate t.args.length .default) t.args := by
    induction t.args with
    | nil => exact .nil
    | cons d args ih => exact .cons (.inl ArgField.same_refl) ih
  have hsame : ∀ info info' d, f.same info' info → f.same info (ArgData.loaded d) →
      f.same info' d.loaded := fun _ _ _ => ArgField.same_trans
  refine foldlM_establishes (I := fun infos => List.Forall₂ f.Either infos t.args)
    (Q := fun infos => List.Forall₂ (fun info d => f.same info d.loaded) infos t.args)
    (K := fun node => node = f.node t.args) ?_ ?_ ?_ ?_ ⟨_, t.node_mem f, rfl⟩ h hstart
  · intro infos infos' node hnode hinfos h
    by_cases hown : node = f.node t.args
    · subst hown
      exact (fillNode_own hinfos h).imp fun _ _ => .inr
    · refine fillNode_keeps (fun info info' d hs hold => ?_) hnode hown hinfos h
      exact hold.imp (ArgField.same_trans hs) (ArgField.same_trans hs)
  · rintro infos infos' node - rfl hinfos h
    exact fillNode_own hinfos h
  · exact fun infos infos' node hnode hne hinfos h => fillNode_keeps hsame hnode hne hinfos h
  · exact fun infos h => h.imp fun _ _ => .inr

/-- The entry of another kernel, or one without attributes, is passed by. -/
theorem fillEntry_other (h : entry.head ≠ .function name) :
    fillEntry name count infos entry = some infos' ↔
      (entry.nodes = [] ∨ ∃ f, entry.head = .function f) ∧ infos = infos' := by
  unfold fillEntry
  split_ifs with hnodes
  · simp [hnodes]
  · cases hhead : entry.head with
    | function f =>
      have hne : name ≠ f := by
        rintro rfl
        exact h hhead
      simp [hne]
    | value => simp [hnodes]
    | other => simp [hnodes]

theorem fillEntries_other (h : ∀ e ∈ entries, e.head ≠ .function name) :
    entries.foldlM (fillEntry name count) infos = some infos' ↔
      (∀ e ∈ entries, e.nodes = [] ∨ ∃ f, e.head = .function f) ∧ infos = infos' := by
  induction entries generalizing infos with
  | nil => simp
  | cons e entries ih =>
    rw [List.forall_mem_cons] at h ⊢
    rw [foldlM_cons_some]
    simp only [fillEntry_other h.1, ih h.2]
    constructor
    · rintro ⟨_, ⟨he, rfl⟩, hrest, rfl⟩
      exact ⟨⟨he, hrest⟩, rfl⟩
    · rintro ⟨⟨he, hrest⟩, rfl⟩
      exact ⟨infos, ⟨he, rfl⟩, hrest, rfl⟩

theorem fillArgsInfo_iff : fillArgsInfo t.name t.args.length (some t.entries) [] = some infos ↔
    (∀ e ∈ t.before ++ t.after, e.nodes = [] ∨ ∃ f, e.head = .function f) ∧
      t.nodes.foldlM fillNode (List.replicate t.args.length .default) = some infos := by
  have hothers := t.others
  rw [List.forall_mem_append] at hothers ⊢
  have hnodes : t.nodes ≠ [] := List.ne_nil_of_mem (t.node_mem .name)
  have hentry : fillEntry t.name t.args.length [] ⟨.function t.name, t.nodes⟩ =
      t.nodes.foldlM fillNode (List.replicate t.args.length .default) := by
    unfold fillEntry
    rw [if_neg hnodes]
    dsimp only
    rw [if_neg (not_not.mpr rfl), resizeInfos, List.take_nil, List.nil_append]
    rfl
  unfold fillArgsInfo entries
  rw [if_neg (not_not.mpr rfl)]
  dsimp only
  rw [List.foldlM_append, Option.bind_eq_bind, Option.bind_eq_some_iff]
  simp only [foldlM_cons_some, fillEntries_other hothers.1, fillEntries_other hothers.2]
  constructor
  · rintro ⟨_, ⟨hbefore, rfl⟩, infos', h, hafter, rfl⟩
    exact ⟨⟨hbefore, hafter⟩, hentry.symm.trans h⟩
  · rintro ⟨⟨hbefore, hafter⟩, h⟩
    exact ⟨[], ⟨hbefore, rfl⟩, infos, hentry.trans h, hafter, rfl⟩

/-- The arguments get what the nodes say unless a cast fails or an address space is cut. -/
theorem args_iff :
    fillArgsInfo t.name t.args.length (some t.entries) [] = some (t.args.map ArgData.info) ↔
      (∀ e ∈ t.before ++ t.after, e.nodes = [] ∨ ∃ f, e.head = .function f) ∧
      (∀ node ∈ t.nodes, node.operands.length = t.args.length → node.name ≠ "vec_type_hint" →
        (∀ f : ArgField, node.name ≠ f.nodeName) →
          ∀ operand ∈ node.operands, ∃ v, operand = .string v) ∧
      ∀ d ∈ t.args, d.addrSpace < 2 ^ 32 ∨ low32 d.addrSpace = 0 ∨ 4 ≤ low32 d.addrSpace := by
  have hloaded : t.args.map ArgData.loaded = t.args.map ArgData.info ↔
      ∀ d ∈ t.args, d.addrSpace < 2 ^ 32 ∨ low32 d.addrSpace = 0 ∨ 4 ≤ low32 d.addrSpace := by
    rw [List.map_inj_left]
    refine forall₂_congr fun d _ => ?_
    rw [← switch_low32_iff]
    exact ⟨congrArg ArgInfo.addressQualifier, fun h => by rw [ArgData.loaded, h]; rfl⟩
  rw [fillArgsInfo_iff, ← hloaded, ← fillNodes_ends_iff (List.length_replicate ..)]
  refine and_congr_right fun _ => ⟨fun h => ⟨⟨_, h⟩, (fillNodes_eq h).symm⟩, ?_⟩
  rintro ⟨⟨infos, h⟩, heq⟩
  rw [h, fillNodes_eq h, heq]

theorem reqdOfNodes_eq {size : Nat × Nat × Nat} (hmem : Runtime.reqdNode size ∈ nodes)
    (h : ∀ node ∈ nodes, node.name = "reqd_work_group_size" → node = Runtime.reqdNode size) :
    reqdOfNodes nodes = some (low32 size.1, low32 size.2.1, low32 size.2.2) := by
  induction nodes with
  | nil => cases hmem
  | cons node nodes ih =>
    rw [List.forall_mem_cons] at h
    rw [reqdOfNodes]
    by_cases hname : node.name = "reqd_work_group_size"
    · rw [h.1 hname, if_pos ⟨rfl, rfl⟩]
      rfl
    · rw [if_neg fun hnode => hname hnode.2]
      rcases List.mem_cons.mp hmem with rfl | hmem
      · exact absurd rfl hname
      · exact ih hmem h.2

theorem reqdOfNodes_none (h : ∀ node ∈ nodes, node.name ≠ "reqd_work_group_size") :
    reqdOfNodes nodes = some (0, 0, 0) := by
  induction nodes with
  | nil => rfl
  | cons node nodes ih =>
    rw [List.forall_mem_cons] at h
    rw [reqdOfNodes, if_neg fun hnode => h.1 hnode.2]
    exact ih h.2

theorem reqdOfEntries_append {rest : List KernelEntry} {size : Nat × Nat × Nat}
    (h : ∀ e ∈ entries, e.head ≠ .function name) :
    reqdOfEntries name (entries ++ rest) = some size ↔
      (∀ e ∈ entries, e.head ≠ .other) ∧ reqdOfEntries name rest = some size := by
  induction entries with
  | nil => simp
  | cons e entries ih =>
    rw [List.forall_mem_cons] at h ⊢
    rw [List.cons_append, reqdOfEntries]
    cases hhead : e.head with
    | function f =>
      have hne : f ≠ name := by
        rintro rfl
        exact h.1 hhead
      simp [hne, ih h.2]
    | value => simp [ih h.2]
    | other => simp

/-- The work-group size is that of the node if each part has 32 bits. -/
theorem size_iff : reqdWorkGroupSize t.name (some t.entries) = some (t.reqd.getD (0, 0, 0)) ↔
    (∀ e ∈ t.before, e.head ≠ .other) ∧
      ∀ size ∈ t.reqd, size.1 < 2 ^ 32 ∧ size.2.1 < 2 ^ 32 ∧ size.2.2 < 2 ^ 32 := by
  have hothers := t.others
  rw [List.forall_mem_append] at hothers
  unfold reqdWorkGroupSize entries
  dsimp only
  rw [reqdOfEntries_append hothers.1, reqdOfEntries]
  dsimp only
  rw [if_neg (not_not.mpr rfl)]
  refine and_congr_right fun _ => ?_
  cases hreqd : t.reqd with
  | none =>
    refine iff_of_true (reqdOfNodes_none fun node hnode hname => ?_) (fun _ h => nomatch h)
    obtain ⟨size, hsize, -⟩ := (t.reqdNode node).mp ⟨hnode, hname⟩
    rw [hreqd] at hsize
    cases hsize
  | some size =>
    have hnode := (t.reqdNode (Runtime.reqdNode size)).mpr ⟨size, hreqd, rfl⟩
    rw [reqdOfNodes_eq hnode.1 fun node hmem hname => ?_]
    · rw [Option.getD_some, Option.some_inj, Prod.ext_iff, Prod.ext_iff]
      dsimp only
      rw [low32_eq_iff, low32_eq_iff, low32_eq_iff]
      exact ⟨fun h size' hsize => Option.some.inj hsize ▸ h, fun h => h size rfl⟩
    · obtain ⟨size', hsize, rfl⟩ := (t.reqdNode node).mp ⟨hmem, hname⟩
      cases hreqd.symm.trans hsize
      rfl

/-- The metadata of a kernel is read as it stands iff the table is clean. -/
theorem metadata_exact_iff (t : MetadataTable) : t.Exact ↔ t.Clean := by
  constructor
  · intro h
    obtain ⟨hfunctions, hattributes, hspaces⟩ := args_iff.mp h.args
    obtain ⟨hheads, hsizes⟩ := size_iff.mp h.size
    exact ⟨hfunctions, hheads, hattributes, hspaces, hsizes⟩
  · intro h
    exact ⟨args_iff.mpr ⟨h.functions, h.attributes, h.spaces⟩, size_iff.mpr ⟨h.heads, h.sizes⟩⟩

/-- A table with one entry, and in it no nodes but those it has to have. -/
def plain (name : String) (args : List ArgData) (reqd : Option (Nat × Nat × Nat)) :
    MetadataTable where
  name := name
  before := []
  nodes := [ArgField.addrSpace, .accessQual, .type, .typeQual, .name].map (·.node args) ++
    reqd.toList.map Runtime.reqdNode
  after := []
  args := args
  reqd := reqd
  others := fun e he => absurd he List.not_mem_nil
  argNode := fun f node => by
    constructor
    · rintro ⟨hnode, hname⟩
      rcases List.mem_append.mp hnode with hnode | hnode
      · obtain ⟨g, -, rfl⟩ := List.mem_map.mp hnode
        rw [ArgField.nodeName_injective hname]
      · obtain ⟨size, -, rfl⟩ := List.mem_map.mp hnode
        exact absurd hname.symm ArgField.nodeName_ne_reqd
    · rintro rfl
      refine ⟨List.mem_append_left _ (List.mem_map_of_mem ?_), rfl⟩
      cases f <;> decide
  reqdNode := fun node => by
    constructor
    · rintro ⟨hnode, hname⟩
      rcases List.mem_append.mp hnode with hnode | hnode
      · obtain ⟨g, -, rfl⟩ := List.mem_map.mp hnode
        exact absurd hname ArgField.nodeName_ne_reqd
      · obtain ⟨size, hsize, rfl⟩ := List.mem_map.mp hnode
        exact ⟨size, Option.mem_toList.mp hsize, rfl⟩
    · rintro ⟨size, hsize, rfl⟩
      refine ⟨List.mem_append_right _ (List.mem_map_of_mem ?_), rfl⟩
      exact Option.mem_toList.mpr hsize

/-- Three arguments and a work-group size: both kinds of nodes have three operands. -/
theorem reqd_size_cast_fails : ¬∀ t : MetadataTable, t.Exact := by
  intro h
  have hargs :=
    (h (plain "f" (List.replicate 3 ⟨1, "none", "int*", "", "a"⟩) (some (8, 8, 1)))).args
  cases hargs

end MetadataTable

end ArgsInfo

end Shamrock.Runtime
