import Shamrock.Runtime.Rect
import Mathlib.Data.List.ProdSigma

/-!
# The loop of a rectangular transfer

The rows that a worker copies, one `memcpy` for each. The memory of the process is a function of the
address, and a memory object is given by the address of its first byte.
-/
namespace Shamrock.Runtime

open Strided

abbrev Memory := Nat → UInt8

namespace RectCommand

/-- Writing exchanges source and destination. -/
def write : RectCommand → Bool
  | .readWriteBufferRect write .. | .readWriteImage write .. => write
  | _ => false

/-- The address that `dst` starts with: host memory, or the data of the destination. -/
def target (dstData : UInt64) : RectCommand → UInt64
  | .readWriteBufferRect _ _ _ ptr | .readWriteImage _ _ _ _ _ _ ptr => ptr
  | _ => dstData

/-- The body of the two loops. -/
def pass (c : RectCommand) (r : Rect) (srcData dstData y z : UInt64) (m : Memory) : Memory :=
  let d := c.target dstData + r.dst.row y z + c.dstOffset
  let s := srcData + r.src.row y z + c.srcOffset
  if c.write then memcpy m s.toNat d.toNat r.region.x.toNat
  else memcpy m d.toNat s.toNat r.region.x.toNat

def copy (c : RectCommand) (r : Rect) (srcData dstData : UInt64) (m : Memory) : Memory :=
  (List.range r.region.z.toNat).foldl (fun m z =>
    (List.range r.region.y.toNat).foldl (fun m y =>
      c.pass r srcData dstData (UInt64.ofNat y) (UInt64.ofNat z) m) m) m

/-- The address of a cell of the source. -/
def srcCell (c : RectCommand) (region : Vec3) (srcData : UInt64) (x y z : Nat) : Nat :=
  srcData.toNat + (c.srcLayout region).cell x y z + c.srcOffset.toNat

def dstCell (c : RectCommand) (region : Vec3) (dstData : UInt64) (x y z : Nat) : Nat :=
  (c.target dstData).toNat + (c.dstLayout region).cell x y z + c.dstOffset.toNat

/-- The cell that the worker writes, and the one that it reads for it. -/
def toCell (c : RectCommand) (region : Vec3) (srcData dstData : UInt64) (x y z : Nat) : Nat :=
  if c.write then c.srcCell region srcData x y z else c.dstCell region dstData x y z

def fromCell (c : RectCommand) (region : Vec3) (srcData dstData : UInt64) (x y z : Nat) : Nat :=
  if c.write then c.dstCell region dstData x y z else c.srcCell region srcData x y z

/-- A cell of the region. -/
def Cell (c : RectCommand) (region : Vec3) (x y z : Nat) : Prop :=
  x < c.width region ∧ y < region.y.toNat ∧ z < region.z.toNat

/-- No arithmetic of the constructor or of the worker wraps around. -/
structure AddressesFit (c : RectCommand) (region : Vec3) (srcData dstData : UInt64) : Prop where
  source : LayoutFits c.args.srcOrigin c.args.srcRowPitch c.args.srcSlicePitch c.bytesPerElement
    region
  destination : LayoutFits c.args.dstOrigin c.args.dstRowPitch c.args.dstSlicePitch
    c.bytesPerElement region
  srcCell : ∀ x y z, c.Cell region x y z → c.srcCell region srcData x y z < 2 ^ 64
  dstCell : ∀ x y z, c.Cell region x y z → c.dstCell region dstData x y z < 2 ^ 64

/-- No byte is on both sides. -/
def Apart (c : RectCommand) (region : Vec3) (srcData dstData : UInt64) : Prop :=
  ∀ x y z x' y' z', c.Cell region x y z → c.Cell region x' y' z' →
    c.srcCell region srcData x y z ≠ c.dstCell region dstData x' y' z'

/-- Every byte of the region has been copied, and no other byte has changed. -/
structure Copied (c : RectCommand) (region : Vec3) (srcData dstData : UInt64) (m m' : Memory) :
    Prop where
  copied : ∀ x y z, c.Cell region x y z →
    m' (c.toCell region srcData dstData x y z) = m (c.fromCell region srcData dstData x y z)
  kept : ∀ a, (∀ x y z, c.Cell region x y z → a ≠ c.toCell region srcData dstData x y z) →
    m' a = m a

variable {c : RectCommand} {queue : QueueInfo} {r : Rect} {region : Vec3}
  {srcData dstData : UInt64} {m : Memory}

/-- The passes of both loops, in their order. -/
def passes (region : Vec3) : List (Nat × Nat) :=
  List.range region.z.toNat ×ˢ List.range region.y.toNat

theorem mem_passes {p : Nat × Nat} :
    p ∈ passes region ↔ p.1 < region.z.toNat ∧ p.2 < region.y.toNat := by
  obtain ⟨z, y⟩ := p
  unfold passes
  rw [List.mem_product, List.mem_range, List.mem_range]

theorem nodup_passes : (passes region).Nodup := List.nodup_range.product List.nodup_range

theorem copy_eq_foldl (c : RectCommand) (r : Rect) (srcData dstData : UInt64) (m : Memory) :
    c.copy r srcData dstData m = (passes r.region).foldl (fun m p =>
      c.pass r srcData dstData (UInt64.ofNat p.2) (UInt64.ofNat p.1) m) m := by
  change _ = ((List.range r.region.z.toNat).flatMap fun z =>
    (List.range r.region.y.toNat).map (Prod.mk z)).foldl _ m
  rw [List.foldl_flatMap]
  simp only [List.foldl_map]
  rfl

/-- The rows of the passes: where each is written, and where it is read. -/
def rows (c : RectCommand) (region : Vec3) (srcData dstData : UInt64) : List (Nat × Nat) :=
  (passes region).map fun p =>
    (c.toCell region srcData dstData 0 p.2 p.1, c.fromCell region srcData dstData 0 p.2 p.1)

/-- An address that a worker computes, when it does not wrap around. -/
theorem toNat_address {s : Side} {l : Layout} (base offset y z : UInt64) (hl : s.layout = l)
    (h : base.toNat + l.cell 0 y.toNat z.toNat + offset.toNat < 2 ^ 64) :
    (base + s.row y z + offset).toNat =
      base.toNat + l.cell 0 y.toNat z.toNat + offset.toNat := by
  subst hl
  have heq : base + s.row y z + offset =
      UInt64.ofNat (base.toNat + s.layout.cell 0 y.toNat z.toNat + offset.toNat) := by
    rw [UInt64.ofNat_add, UInt64.ofNat_add, UInt64.ofNat_toNat, UInt64.ofNat_toNat, row_eq_ofNat]
    rfl
  rw [heq, UInt64.toNat_ofNat_of_lt' h]

theorem toNat_ofNat_of_lt_toNat {n : Nat} {v : UInt64} (h : n < v.toNat) :
    (UInt64.ofNat n).toNat = n := UInt64.toNat_ofNat_of_lt' (Nat.lt_trans h v.toNat_lt)

theorem pass_eq_memcpy (hc : r.Computed c.args c.bytesPerElement region)
    (hf : c.AddressesFit region srcData dstData) (hw : 0 < c.width region) {p : Nat × Nat}
    (hp : p ∈ passes region) :
    c.pass r srcData dstData (UInt64.ofNat p.2) (UInt64.ofNat p.1) m =
      memcpy m (c.toCell region srcData dstData 0 p.2 p.1)
        (c.fromCell region srcData dstData 0 p.2 p.1) (c.width region) := by
  obtain ⟨hz, hy⟩ := mem_passes.mp hp
  have hy' := toNat_ofNat_of_lt_toNat hy
  have hz' := toNat_ofNat_of_lt_toNat hz
  have hwidth : r.region.x.toNat = c.width region := by
    rw [hc.region]
    exact toNat_scale hf.source
  have hcell : c.Cell region 0 p.2 p.1 := ⟨hw, hy, hz⟩
  have hsrc : (srcData + r.src.row (UInt64.ofNat p.2) (UInt64.ofNat p.1) + c.srcOffset).toNat =
      c.srcCell region srcData 0 p.2 p.1 := by
    have haddr := toNat_address srcData c.srcOffset (UInt64.ofNat p.2) (UInt64.ofNat p.1)
      (layout_eq (hc.region ▸ hc.src) hf.source)
    rw [hy', hz'] at haddr
    exact haddr (hf.srcCell 0 p.2 p.1 hcell)
  have hdst : (c.target dstData + r.dst.row (UInt64.ofNat p.2) (UInt64.ofNat p.1) +
      c.dstOffset).toNat = c.dstCell region dstData 0 p.2 p.1 := by
    have haddr := toNat_address (c.target dstData) c.dstOffset (UInt64.ofNat p.2)
      (UInt64.ofNat p.1) (layout_eq (hc.region ▸ hc.dst) hf.destination)
    rw [hy', hz'] at haddr
    exact haddr (hf.dstCell 0 p.2 p.1 hcell)
  simp only [pass, toCell, fromCell, hsrc, hdst, hwidth]
  cases c.write with
  | true => rfl
  | false => rfl

theorem copy_eq_copyRows (hc : r.Computed c.args c.bytesPerElement region)
    (hf : c.AddressesFit region srcData dstData) (hw : 0 < c.width region) :
    c.copy r srcData dstData m = copyRows (c.width region) m (c.rows region srcData dstData) := by
  have hpasses : passes r.region = passes region := by
    rw [hc.region]
    rfl
  unfold copyRows rows
  rw [copy_eq_foldl, hpasses, List.foldl_map]
  exact List.foldl_ext _ _ _ fun m p hp => pass_eq_memcpy hc hf hw hp

/-- A row of no bytes. -/
theorem copy_eq_self (hwidth : r.region.x.toNat = 0) : c.copy r srcData dstData m = m := by
  have hmemcpy : ∀ (m : Memory) d s, memcpy m d s 0 = m := by
    intro m d s
    funext a
    exact memcpy_outside m d s nofun
  have hpass : ∀ y z (m : Memory), c.pass r srcData dstData y z m = m := by
    intro y z m
    simp only [pass, hwidth, hmemcpy, ite_self]
  rw [copy_eq_foldl]
  simp only [hpass]
  exact List.foldl_fixed' (fun _ => rfl) _

/-- Both pitches that the constructor computes leave room for the rows and the slices. -/
theorem pitch_le {s : Side} {origin : Option Vec3} {row slice bpe : UInt64}
    (hc : s.Computed origin row slice bpe (region.scale bpe))
    (hf : LayoutFits origin row slice bpe region) :
    region.x.toNat * bpe.toNat ≤ (layout origin row slice bpe region).row ∧
      region.y.toNat * (layout origin row slice bpe region).row ≤
        (layout origin row slice bpe region).slice := by
  have harea := hf.area
  have hrow := UInt64.le_iff_toNat_le.mp hc.rowPitch.2
  have hslice := UInt64.le_iff_toNat_le.mp hc.slicePitch.2
  rw [toNat_scale hf] at hrow
  rw [← layout_eq hc hf] at harea ⊢
  have hprod : ((region.scale bpe).y * s.rowPitch).toNat = region.y.toNat * s.rowPitch.toNat :=
    toNat_mul_of_lt harea
  rw [hprod] at hslice
  exact ⟨hrow, hslice⟩

/-- Different cells of a region have different addresses. -/
theorem cell_injective {l : Layout} {x y z x' y' z' : Nat}
    (hl : c.width region ≤ l.row ∧ region.y.toNat * l.row ≤ l.slice) (h : c.Cell region x y z)
    (h' : c.Cell region x' y' z') (heq : l.cell x y z = l.cell x' y' z') :
    x = x' ∧ y = y' ∧ z = z' := by
  obtain ⟨hx, hy, -⟩ := h
  obtain ⟨hx', hy', -⟩ := h'
  unfold Layout.cell at heq
  rw [position_add, position_add] at heq
  exact position_injective (by omega) (by omega) (lt_slice hl.1 hl.2 hx hy)
    (lt_slice hl.1 hl.2 hx' hy') (Nat.add_left_cancel heq)

theorem srcCell_eq (x y z : Nat) :
    c.srcCell region srcData x y z = c.srcCell region srcData 0 y z + x := by
  unfold srcCell
  rw [Layout.cell_eq]
  omega

theorem dstCell_eq (x y z : Nat) :
    c.dstCell region dstData x y z = c.dstCell region dstData 0 y z + x := by
  unfold dstCell
  rw [Layout.cell_eq]
  omega

theorem toCell_eq (x y z : Nat) : c.toCell region srcData dstData x y z =
    c.toCell region srcData dstData 0 y z + x := by
  unfold toCell
  split
  · exact srcCell_eq x y z
  · exact dstCell_eq x y z

theorem fromCell_eq (x y z : Nat) : c.fromCell region srcData dstData x y z =
    c.fromCell region srcData dstData 0 y z + x := by
  unfold fromCell
  split
  · exact dstCell_eq x y z
  · exact srcCell_eq x y z

theorem toCell_injective (hc : r.Computed c.args c.bytesPerElement region)
    (hf : c.AddressesFit region srcData dstData) {x y z x' y' z' : Nat}
    (h : c.Cell region x y z) (h' : c.Cell region x' y' z')
    (heq : c.toCell region srcData dstData x y z = c.toCell region srcData dstData x' y' z') :
    x = x' ∧ y = y' ∧ z = z' := by
  unfold toCell at heq
  cases hw : c.write with
  | true =>
    rw [if_pos hw, if_pos hw] at heq
    unfold srcCell at heq
    have hcells : (c.srcLayout region).cell x y z = (c.srcLayout region).cell x' y' z' := by omega
    exact cell_injective (pitch_le (hc.region ▸ hc.src) hf.source) h h' hcells
  | false =>
    have hne : ¬c.write = true := by simp [hw]
    rw [if_neg hne, if_neg hne] at heq
    unfold dstCell at heq
    have hcells : (c.dstLayout region).cell x y z = (c.dstLayout region).cell x' y' z' := by omega
    exact cell_injective (pitch_le (hc.region ▸ hc.dst) hf.destination) h h' hcells

theorem toCell_ne_fromCell (ha : c.Apart region srcData dstData) {x y z x' y' z' : Nat}
    (h : c.Cell region x y z) (h' : c.Cell region x' y' z') :
    c.toCell region srcData dstData x y z ≠ c.fromCell region srcData dstData x' y' z' := by
  unfold toCell fromCell
  split
  · exact ha x y z x' y' z' h h'
  · exact (ha x' y' z' x y z h' h).symm

/-- Rows are written once. -/
theorem rows_pairwise (hc : r.Computed c.args c.bytesPerElement region)
    (hf : c.AddressesFit region srcData dstData) :
    (c.rows region srcData dstData).Pairwise fun q q' =>
      ∀ x < c.width region, ∀ x' < c.width region, q.1 + x ≠ q'.1 + x' := by
  refine List.pairwise_map.mpr (nodup_passes.imp_of_mem ?_)
  intro p p' hp hp' hne x hx x' hx' heq
  obtain ⟨hz, hy⟩ := mem_passes.mp hp
  obtain ⟨hz', hy'⟩ := mem_passes.mp hp'
  have hcells : c.toCell region srcData dstData x p.2 p.1 =
      c.toCell region srcData dstData x' p'.2 p'.1 := by
    rw [toCell_eq, toCell_eq x']
    exact heq
  obtain ⟨-, hyy, hzz⟩ := toCell_injective hc hf ⟨hx, hy, hz⟩ ⟨hx', hy', hz'⟩ hcells
  exact hne (Prod.ext hzz hyy)

/-- No row that is written is read. -/
theorem rows_apart (ha : c.Apart region srcData dstData) :
    ∀ q ∈ c.rows region srcData dstData, ∀ q' ∈ c.rows region srcData dstData,
      ∀ x < c.width region, ∀ x' < c.width region, q.1 + x ≠ q'.2 + x' := by
  intro q hq q' hq' x hx x' hx' heq
  obtain ⟨p, hp, rfl⟩ := List.mem_map.mp hq
  obtain ⟨p', hp', rfl⟩ := List.mem_map.mp hq'
  obtain ⟨hz, hy⟩ := mem_passes.mp hp
  obtain ⟨hz', hy'⟩ := mem_passes.mp hp'
  have hcell : c.Cell region x p.2 p.1 := ⟨hx, hy, hz⟩
  have hcell' : c.Cell region x' p'.2 p'.1 := ⟨hx', hy', hz'⟩
  have hne := toCell_ne_fromCell ha hcell hcell'
  rw [toCell_eq, fromCell_eq] at hne
  exact hne heq

/-- The loop of a worker copies the region and nothing else. -/
theorem copied_of_computed (hc : r.Computed c.args c.bytesPerElement region)
    (hf : c.AddressesFit region srcData dstData) (ha : c.Apart region srcData dstData)
    (m : Memory) : c.Copied region srcData dstData m (c.copy r srcData dstData m) := by
  rcases Nat.eq_zero_or_pos (c.width region) with hw | hw
  · have hwidth : r.region.x.toNat = 0 := by
      rw [hc.region, ← hw]
      exact toNat_scale hf.source
    rw [copy_eq_self hwidth]
    refine ⟨?_, fun _ _ => rfl⟩
    rintro x y z ⟨hx, -⟩
    omega
  · rw [copy_eq_copyRows hc hf hw]
    constructor
    · rintro x y z ⟨hx, hy, hz⟩
      rw [toCell_eq, fromCell_eq]
      have hmem : (c.toCell region srcData dstData 0 y z, c.fromCell region srcData dstData 0 y z) ∈
          c.rows region srcData dstData :=
        List.mem_map.mpr ⟨(z, y), mem_passes.mpr ⟨hz, hy⟩, rfl⟩
      exact copyRows_inside (rows_pairwise hc hf) (rows_apart ha) hmem hx
    · intro a hout
      refine copyRows_outside ?_
      intro q hq x hx heq
      obtain ⟨p, hp, rfl⟩ := List.mem_map.mp hq
      obtain ⟨hz, hy⟩ := mem_passes.mp hp
      refine hout x p.2 p.1 ⟨hx, hy, hz⟩ ?_
      rw [toCell_eq]
      exact heq

/-- A command that was accepted, with addresses that do not wrap around and sides that are apart. -/
structure Ready (c : RectCommand) (queue : QueueInfo) (srcData dstData : UInt64) : Prop where
  accepted : c.construct queue = pure ()
  fit : ∀ region ∈ c.args.region, c.AddressesFit region srcData dstData
  apart : ∀ region ∈ c.args.region, c.Apart region srcData dstData

theorem copied_of_ready (h : c.Ready queue srcData dstData) :
    ∃ r, c.rect queue = pure r ∧ ∀ m, ∀ region ∈ c.args.region,
      c.Copied region srcData dstData m (c.copy r srcData dstData m) := by
  obtain ⟨r, given, hr, ha⟩ := accepted_of_construct h.accepted
  refine ⟨r, hr, ?_⟩
  intro m region hregion
  cases hregion.symm.trans ha.computed.given
  exact copied_of_computed ha.computed (h.fit _ hregion) (h.apart _ hregion) m

/-- The arguments with another rectangle of the host. -/
def withHost (args : RectArgs) (origin : Option Vec3) (rowPitch slicePitch : UInt64) : RectArgs :=
  { args with dstOrigin := origin, dstRowPitch := rowPitch, dstSlicePitch := slicePitch }

/-- The loop copies the region and nothing else; what is written from the host is read back. -/
theorem rect_copy_exact (queue : QueueInfo) (srcData dstData : UInt64) :
    (∀ c : RectCommand, c.Ready queue srcData dstData →
      ∃ r, c.rect queue = pure r ∧ ∀ m, ∀ region ∈ c.args.region,
        c.Copied region srcData dstData m (c.copy r srcData dstData m)) ∧
    ∀ buffer args origin rowPitch slicePitch ptr ptr',
      let w := readWriteBufferRect true buffer args ptr
      let w' := readWriteBufferRect false buffer (withHost args origin rowPitch slicePitch) ptr'
      w.Ready queue srcData dstData → w'.Ready queue srcData dstData →
      ∃ r r', w.rect queue = pure r ∧ w'.rect queue = pure r' ∧
        ∀ m, ∀ region ∈ args.region, ∀ x y z, w.Cell region x y z →
          w'.copy r' srcData dstData (w.copy r srcData dstData m)
            (w'.dstCell region dstData x y z) =
            m (w.dstCell region dstData x y z) := by
  constructor
  · intro c hready
    exact copied_of_ready hready
  · intro buffer args origin rowPitch slicePitch ptr ptr' w w' hw hw'
    obtain ⟨r, hr, hcopied⟩ := copied_of_ready hw
    obtain ⟨r', hr', hcopied'⟩ := copied_of_ready hw'
    refine ⟨r, r', hr, hr', ?_⟩
    intro m region hregion x y z hcell
    -- both commands have the same cells in the buffer
    have hwritten := (hcopied m region hregion).copied x y z hcell
    have hread := (hcopied' (w.copy r srcData dstData m) region hregion).copied x y z hcell
    exact hread.trans hwritten

/-- Two slices of two rows of two bytes, in a buffer with rows of four bytes, written from rows
that follow each other. -/
def smallRect : RectArgs := ⟨some ⟨1, 0, 0⟩, none, some ⟨2, 2, 2⟩, 4, 8, 0, 0⟩

def writeSmall : RectCommand := .readWriteBufferRect true LinearCommand.smallBuffer smallRect 8192

/-- The same, read to rows with a gap. -/
def readSmall : RectCommand :=
  .readWriteBufferRect false LinearCommand.smallBuffer (withHost smallRect none 3 7) 12288

theorem ready_of_cells {d : Nat → Nat → Nat → Nat} (hok : c.construct queue = pure ())
    (hregion : c.args.region = some ⟨2, 2, 2⟩) (hb : c.bytesPerElement = 1)
    (hs : LayoutFits c.args.srcOrigin c.args.srcRowPitch c.args.srcSlicePitch c.bytesPerElement
      ⟨2, 2, 2⟩)
    (hd : LayoutFits c.args.dstOrigin c.args.dstRowPitch c.args.dstSlicePitch c.bytesPerElement
      ⟨2, 2, 2⟩)
    (hsrc : ∀ x y z, c.srcCell ⟨2, 2, 2⟩ srcData x y z = 4096 + (z * 8 + y * 4 + (1 + x)))
    (hdst : ∀ x y z, c.dstCell ⟨2, 2, 2⟩ dstData x y z = 8192 + d x y z)
    (hle : ∀ x < 2, ∀ y < 2, ∀ z < 2, d x y z < 8192) : c.Ready queue srcData dstData := by
  have hcell : ∀ x y z, c.Cell ⟨2, 2, 2⟩ x y z → x < 2 ∧ y < 2 ∧ z < 2 := by
    unfold Cell width
    rw [hb]
    exact fun x y z h => h
  refine ⟨hok, ?_, ?_⟩
  · intro region hmem
    cases hmem.symm.trans hregion
    refine ⟨hs, hd, ?_, ?_⟩
    · intro x y z h
      have hlt := hcell x y z h
      rw [hsrc]
      omega
    · intro x y z h
      obtain ⟨hx, hy, hz⟩ := hcell x y z h
      have hlt := hle x hx y hy z hz
      rw [hdst]
      omega
  · intro region hmem
    cases hmem.symm.trans hregion
    intro x y z x' y' z' h h'
    have hlt := hcell x y z h
    rw [hsrc, hdst]
    omega

theorem writeSmall_ready : writeSmall.Ready LinearCommand.smallQueue 4096 0 := by
  refine ready_of_cells (d := fun x y z => z * 4 + y * 2 + x) rfl rfl rfl
    ⟨by decide, by decide, by decide⟩ ⟨by decide, by decide, by decide⟩ ?_ ?_ (by decide)
  · intro x y z
    change 4096 + ((0 + z) * 8 + (0 + y) * 4 + (1 + x)) + 0 = _
    omega
  · intro x y z
    change 8192 + ((0 + z) * 4 + (0 + y) * 2 + (0 + x)) + 0 = _
    omega

theorem readSmall_ready : readSmall.Ready LinearCommand.smallQueue 4096 0 := by
  refine ready_of_cells (d := fun x y z => 4096 + (z * 7 + y * 3 + x)) rfl rfl rfl
    ⟨by decide, by decide, by decide⟩ ⟨by decide, by decide, by decide⟩ ?_ ?_ (by decide)
  · intro x y z
    change 4096 + ((0 + z) * 8 + (0 + y) * 4 + (1 + x)) + 0 = _
    omega
  · intro x y z
    change 12288 + ((0 + z) * 7 + (0 + y) * 3 + (0 + x)) + 0 = _
    omega

theorem small_rect_read_back :
    (∃ r, writeSmall.rect LinearCommand.smallQueue = pure r ∧ ∀ m, ∀ region ∈ smallRect.region,
      writeSmall.Copied region 4096 0 m (writeSmall.copy r 4096 0 m)) ∧
    ∃ r r', writeSmall.rect LinearCommand.smallQueue = pure r ∧
      readSmall.rect LinearCommand.smallQueue = pure r' ∧
      ∀ m, ∀ region ∈ smallRect.region, ∀ x y z, writeSmall.Cell region x y z →
        readSmall.copy r' 4096 0 (writeSmall.copy r 4096 0 m) (readSmall.dstCell region 0 x y z) =
          m (writeSmall.dstCell region 0 x y z) :=
  ⟨(rect_copy_exact LinearCommand.smallQueue 4096 0).1 writeSmall writeSmall_ready,
    (rect_copy_exact LinearCommand.smallQueue 4096 0).2 LinearCommand.smallBuffer smallRect none 3 7
      8192 12288 writeSmall_ready readSmall_ready⟩

end RectCommand

end Shamrock.Runtime
