import Shamrock.Runtime.Linear
import Shamrock.Lib.Strided

/-!
# Rectangular transfers

The eight commands that share `ReadWriteCopyBufferRectEvent`, and the rows that the loop of a worker
copies for them. A row is given by its offset from the start of the memory object.
-/
namespace Shamrock.Runtime

open Strided

/-- `imageData` from a base of zero, with one byte for each pixel. -/
def imageData (x y z rowPitch slicePitch : UInt64) : UInt64 := z * slicePitch + y * rowPitch + x * 1

/-- One of the two sides of a transfer. -/
structure Side where
  origin : Vec3
  rowPitch : UInt64
  slicePitch : UInt64
  deriving DecidableEq, Repr

namespace Side

/-- The row that the worker computes for one pass of its loops. -/
def row (s : Side) (y z : UInt64) : UInt64 :=
  imageData s.origin.x (y + s.origin.y) (z + s.origin.z) s.rowPitch s.slicePitch

end Side

namespace Rect

def src (r : Rect) : Side := ⟨r.srcOrigin, r.srcRowPitch, r.srcSlicePitch⟩

def dst (r : Rect) : Side := ⟨r.dstOrigin, r.dstRowPitch, r.dstSlicePitch⟩

end Rect

/-- A command with the objects it was given. -/
inductive RectCommand
  | readWriteBufferRect (write : Bool) (buffer : MemObject) (args : RectArgs) (ptr : UInt64)
  | copyBufferRect (source destination : MemObject) (same : Bool) (args : RectArgs)
  | readWriteImage (write : Bool) (image : MemObject) (origin region : Option Vec3)
      (rowPitch slicePitch ptr : UInt64)
  | copyImage (source destination : MemObject) (same : Bool)
      (srcOrigin dstOrigin region : Option Vec3)
  | copyImageToBuffer (source destination : MemObject) (same : Bool)
      (srcOrigin region : Option Vec3) (dstOffset : UInt64)
  | copyBufferToImage (source destination : MemObject) (same : Bool) (srcOffset : UInt64)
      (dstOrigin region : Option Vec3)

namespace RectCommand

def construct (queue : QueueInfo) : RectCommand → Check Unit
  | .readWriteBufferRect _ buffer args ptr =>
    readWriteBufferRectEvent queue (some buffer) args ptr 1
  | .copyBufferRect source destination same args => do
    let _ ← copyBufferRectEvent queue (some source) (some destination) same args 1
  | .readWriteImage _ image origin region rowPitch slicePitch ptr =>
    readWriteImageEvent queue (some image) origin region rowPitch slicePitch ptr
  | .copyImage source destination same srcOrigin dstOrigin region =>
    copyImageEvent queue (some source) (some destination) same srcOrigin dstOrigin region
  | .copyImageToBuffer source destination same srcOrigin region dstOffset =>
    copyImageToBufferEvent queue (some source) (some destination) same srcOrigin region dstOffset
  | .copyBufferToImage source destination same srcOffset dstOrigin region =>
    copyBufferToImageEvent queue (some source) (some destination) same srcOffset dstOrigin region

def source : RectCommand → MemObject
  | .readWriteBufferRect _ source .. | .copyBufferRect source .. | .readWriteImage _ source ..
  | .copyImage source .. | .copyImageToBuffer source .. | .copyBufferToImage source .. => source

/-- The other side is host memory if it is not a memory object. -/
def destination : RectCommand → Option MemObject
  | .readWriteBufferRect .. | .readWriteImage .. => none
  | .copyBufferRect _ destination .. | .copyImage _ destination ..
  | .copyImageToBuffer _ destination .. | .copyBufferToImage _ destination .. => some destination

/-- What the constructors give to `ReadWriteCopyBufferRectEvent`. -/
def args : RectCommand → RectArgs
  | .readWriteBufferRect _ _ args _ | .copyBufferRect _ _ _ args => args
  | .readWriteImage _ image origin region rowPitch slicePitch _ =>
    ⟨origin, none, region, image.rowPitch, image.slicePitch, rowPitch, slicePitch⟩
  | .copyImage source destination _ srcOrigin dstOrigin region =>
    ⟨srcOrigin, dstOrigin, region, source.rowPitch, source.slicePitch, destination.rowPitch,
      destination.slicePitch⟩
  | .copyImageToBuffer source _ _ srcOrigin region _ =>
    ⟨srcOrigin, none, region, source.rowPitch, source.slicePitch, 0, 0⟩
  | .copyBufferToImage _ destination _ _ dstOrigin region =>
    ⟨none, dstOrigin, region, 0, 0, destination.rowPitch, destination.slicePitch⟩

def bytesPerElement : RectCommand → UInt64
  | .readWriteBufferRect .. | .copyBufferRect .. => 1
  | .readWriteImage _ image .. => image.pixelSize
  | .copyImage source .. | .copyImageToBuffer source .. => source.pixelSize
  | .copyBufferToImage _ destination .. => destination.pixelSize

/-- The members that `ReadWriteCopyBufferRectEvent` has computed. -/
def rect (queue : QueueInfo) (c : RectCommand) : Check Rect :=
  Prod.snd <$> readWriteCopyBufferRectEvent queue (some c.source) c.args c.bytesPerElement

/-- What the worker adds to the rows of a buffer that an image is copied to or from. -/
def srcOffset : RectCommand → UInt64
  | .copyBufferToImage _ _ _ srcOffset .. => srcOffset
  | _ => 0

def dstOffset : RectCommand → UInt64
  | .copyImageToBuffer _ _ _ _ _ dstOffset => dstOffset
  | _ => 0

/-- Every byte of every row lies in its memory object. -/
def InBounds (c : RectCommand) (r : Rect) : Prop :=
  ∀ z < r.region.z, ∀ y < r.region.y, ∀ x < r.region.x,
    r.src.row y z + c.srcOffset + x < c.source.size ∧
      ∀ d ∈ c.destination, r.dst.row y z + c.dstOffset + x < d.size

end RectCommand

section Constructor

variable {queue : QueueInfo} {source s : MemObject} {a : RectArgs} {bpe : UInt64} {r : Rect}

/-- A pitch, or the least one where none is given. -/
def pitch (least given : UInt64) : UInt64 := if given ≠ 0 then given else least

theorem checkPitch_eq_pure {least given p : UInt64} :
    checkPitch least given = pure p ↔ p = pitch least given ∧ least ≤ p := by
  unfold checkPitch pitch
  by_cases hg : given ≠ 0
  · simp only [if_pos hg, bind_eq_pure, reject_eq_pure, decide_eq_false_iff_not, UInt64.not_lt]
    constructor
    · rintro ⟨-, hle, heq⟩
      cases heq
      exact ⟨rfl, hle⟩
    · rintro ⟨rfl, hle⟩
      exact ⟨(), hle, rfl⟩
  · simp only [if_neg hg]
    constructor
    · intro heq
      cases heq
      exact ⟨rfl, UInt64.le_refl _⟩
    · rintro ⟨rfl, -⟩
      rfl

theorem checkRegion_eq_pure {region : Option Vec3} {v : Vec3} :
    checkRegion region = pure v ↔ region = some v ∧ v.x ≠ 0 ∧ v.y ≠ 0 ∧ v.z ≠ 0 := by
  cases region with
  | none =>
    constructor
    · intro h
      cases h
    · rintro ⟨h, -⟩
      cases h
  | some w =>
    simp only [checkRegion, bind_eq_pure, reject_eq_pure]
    constructor
    · rintro ⟨-, hne, heq⟩
      cases heq
      simp only [Bool.or_eq_false_iff, decide_eq_false_iff_not] at hne
      exact ⟨rfl, hne.1.1, hne.1.2, hne.2⟩
    · rintro ⟨heq, hx, hy, hz⟩
      cases heq
      exact ⟨(), by simp [hx, hy, hz], rfl⟩

/-- The elements of a vector in bytes. -/
def Vec3.scale (v : Vec3) (bpe : UInt64) : Vec3 := { v with x := v.x * bpe }

/-- What the constructor computes for one side, and that no pitch is smaller than the least one. -/
structure Side.Computed (s : Side) (origin : Option Vec3) (row slice bpe : UInt64)
    (region : Vec3) : Prop where
  origin : s.origin = (originOrZero origin).scale bpe
  rowPitch : s.rowPitch = pitch region.x row ∧ region.x ≤ s.rowPitch
  slicePitch : s.slicePitch = pitch (region.y * s.rowPitch) slice ∧
    region.y * s.rowPitch ≤ s.slicePitch

structure Rect.Computed (r : Rect) (a : RectArgs) (bpe : UInt64) (region : Vec3) : Prop where
  given : a.region = some region
  nonzero : region.x ≠ 0 ∧ region.y ≠ 0 ∧ region.z ≠ 0
  region : r.region = region.scale bpe
  src : r.src.Computed a.srcOrigin a.srcRowPitch a.srcSlicePitch bpe r.region
  dst : r.dst.Computed a.dstOrigin a.dstRowPitch a.dstSlicePitch bpe r.region

theorem computed_of_eq_pure
    (h : readWriteCopyBufferRectEvent queue (some source) a bpe = pure (s, r)) :
    s = source ∧ ∃ region, r.Computed a bpe region := by
  simp only [readWriteCopyBufferRectEvent, bind_eq_pure, bufferEvent_eq_pure,
    checkRegion_eq_pure, checkPitch_eq_pure] at h
  obtain ⟨s', ⟨-, rfl⟩, region, ⟨hgiven, hne⟩, srow, hsrow, sslice, hsslice, drow, hdrow, dslice,
    hdslice, heq⟩ := h
  cases heq
  exact ⟨rfl, region, hgiven, hne, rfl, ⟨rfl, hsrow, hsslice⟩, ⟨rfl, hdrow, hdslice⟩⟩

end Constructor

/-- The pitch over the natural numbers. -/
def natPitch (least : Nat) (given : UInt64) : Nat := if given ≠ 0 then given.toNat else least

/-- One side over the natural numbers. -/
structure Layout where
  x : Nat
  y : Nat
  z : Nat
  row : Nat
  slice : Nat
  deriving DecidableEq, Repr

/-- The side that the arguments describe. -/
def layout (origin : Option Vec3) (row slice bpe : UInt64) (region : Vec3) : Layout :=
  let row := natPitch (region.x.toNat * bpe.toNat) row
  { x := (originOrZero origin).x.toNat * bpe.toNat
    y := (originOrZero origin).y.toNat
    z := (originOrZero origin).z.toNat
    row := row
    slice := natPitch (region.y.toNat * row) slice }

/-- Where a cell of the region lies. -/
def Layout.cell (l : Layout) (x y z : Nat) : Nat :=
  position l.row l.slice (l.x + x) (l.y + y) (l.z + z)

theorem Layout.cell_eq (l : Layout) (x y z : Nat) : l.cell x y z = l.cell 0 y z + x := by
  unfold cell position
  omega

/-- None of the numbers that describe the far corner of one side reaches `2 ^ 64`. -/
def CornerFits (origin : Option Vec3) (row slice bpe : UInt64) (region : Vec3) : Prop :=
  let l := layout origin row slice bpe region
  l.x + region.x.toNat * bpe.toNat < 2 ^ 64 ∧ (l.y + region.y.toNat) * l.row < 2 ^ 64 ∧
    (l.z + region.z.toNat) * l.slice < 2 ^ 64

/-- The side that the constructor has computed. -/
def Side.layout (s : Side) : Layout :=
  ⟨s.origin.x.toNat, s.origin.y.toNat, s.origin.z.toNat, s.rowPitch.toNat, s.slicePitch.toNat⟩

/-- The same for the numbers that the constructor has computed. -/
structure Side.NoWrap (s : Side) (region : Vec3) : Prop where
  x : s.origin.x.toNat + region.x.toNat < 2 ^ 64
  y : (s.origin.y.toNat + region.y.toNat) * s.rowPitch.toNat < 2 ^ 64
  z : (s.origin.z.toNat + region.z.toNat) * s.slicePitch.toNat < 2 ^ 64

section Numbers

variable {s : Side} {origin : Option Vec3} {row slice bpe size : UInt64} {region : Vec3}
  {x y z : UInt64}

theorem toNat_mul_of_lt {a b : UInt64} (h : a.toNat * b.toNat < 2 ^ 64) :
    (a * b).toNat = a.toNat * b.toNat := by
  rw [UInt64.toNat_mul, Nat.mod_eq_of_lt h]

theorem toNat_add_of_lt {a b : UInt64} (h : a.toNat + b.toNat < 2 ^ 64) :
    (a + b).toNat = a.toNat + b.toNat := by
  rw [UInt64.toNat_add, Nat.mod_eq_of_lt h]

theorem toNat_pitch (least given : UInt64) :
    (pitch least given).toNat = natPitch least.toNat given := by
  unfold pitch natPitch
  split <;> rfl

/-- The products that the constructor computes do not wrap around. -/
structure LayoutFits (origin : Option Vec3) (row slice bpe : UInt64) (region : Vec3) : Prop where
  width : region.x.toNat * bpe.toNat < 2 ^ 64
  left : (layout origin row slice bpe region).x < 2 ^ 64
  area : region.y.toNat * (layout origin row slice bpe region).row < 2 ^ 64

theorem layoutFits_of_cornerFits (hf : CornerFits origin row slice bpe region) :
    LayoutFits origin row slice bpe region := by
  obtain ⟨hx, hy, -⟩ := hf
  refine ⟨?_, ?_, ?_⟩
  · omega
  · omega
  · exact Nat.lt_of_le_of_lt (Nat.mul_le_mul_right _ (Nat.le_add_left _ _)) hy

theorem toNat_scale (hf : LayoutFits origin row slice bpe region) :
    (region.scale bpe).x.toNat = region.x.toNat * bpe.toNat := toNat_mul_of_lt hf.width

theorem layout_eq (hc : s.Computed origin row slice bpe (region.scale bpe))
    (hf : LayoutFits origin row slice bpe region) :
    s.layout = layout origin row slice bpe region := by
  have hrx := toNat_scale hf
  have hox : s.origin.x.toNat = (originOrZero origin).x.toNat * bpe.toNat := by
    rw [hc.origin]
    exact toNat_mul_of_lt hf.left
  have hoy : s.origin.y = (originOrZero origin).y := by rw [hc.origin]; rfl
  have hoz : s.origin.z = (originOrZero origin).z := by rw [hc.origin]; rfl
  have hrow : s.rowPitch.toNat = natPitch (region.x.toNat * bpe.toNat) row := by
    rw [hc.rowPitch.1, toNat_pitch, hrx]
  have hry : (region.scale bpe).y * s.rowPitch = region.y * s.rowPitch := rfl
  have hslice : s.slicePitch.toNat = natPitch (region.y.toNat *
      natPitch (region.x.toNat * bpe.toNat) row) slice := by
    rw [hc.slicePitch.1, toNat_pitch, hry, toNat_mul_of_lt, hrow]
    rw [hrow]
    exact hf.area
  unfold Side.layout layout
  rw [hox, hoy, hoz, hrow, hslice]

theorem noWrap_of_cornerFits (hc : s.Computed origin row slice bpe (region.scale bpe))
    (hf : CornerFits origin row slice bpe region) : s.NoWrap (region.scale bpe) := by
  have hrx := toNat_scale (layoutFits_of_cornerFits hf)
  have hl := layout_eq hc (layoutFits_of_cornerFits hf)
  unfold CornerFits at hf
  rw [← hl] at hf
  obtain ⟨hx, hy, hz⟩ := hf
  refine ⟨?_, hy, hz⟩
  rw [hrx]
  exact hx

theorem row_eq_ofNat (s : Side) (y z : UInt64) : s.row y z = UInt64.ofNat
    (position s.rowPitch.toNat s.slicePitch.toNat s.origin.x.toNat (s.origin.y.toNat + y.toNat)
      (s.origin.z.toNat + z.toNat)) := by
  simp only [position, UInt64.ofNat_add, UInt64.ofNat_mul, UInt64.ofNat_toNat, Side.row, imageData,
    UInt64.mul_one, UInt64.add_comm y, UInt64.add_comm z]

/-- The tests of the constructor, over the natural numbers. -/
structure Side.Inside (s : Side) (region : Vec3) (size : UInt64) : Prop where
  x : s.origin.x.toNat + region.x.toNat ≤ s.rowPitch.toNat
  y : (s.origin.y.toNat + region.y.toNat) * s.rowPitch.toNat ≤ s.slicePitch.toNat
  z : (s.origin.z.toNat + region.z.toNat) * s.slicePitch.toNat ≤ size.toNat

/-- A sum of which a multiple does not wrap around. -/
theorem toNat_add_mul_of_lt {a b c : UInt64} (hc : 0 < c.toNat)
    (h : (a.toNat + b.toNat) * c.toNat < 2 ^ 64) :
    ((a + b) * c).toNat = (a.toNat + b.toNat) * c.toNat := by
  have hle : (a.toNat + b.toNat) * 1 ≤ (a.toNat + b.toNat) * c.toNat := Nat.mul_le_mul_left _ hc
  have hsum : (a + b).toNat = a.toNat + b.toNat := toNat_add_of_lt (by omega)
  rw [toNat_mul_of_lt, hsum]
  rw [hsum]
  exact h

theorem inside_of_outOfBounds (hn : s.NoWrap region)
    (hb : outOfBounds s.origin region s.rowPitch s.slicePitch size = false)
    (hrow : 0 < s.rowPitch.toNat) (hslice : 0 < s.slicePitch.toNat) : s.Inside region size := by
  simp only [outOfBounds, Bool.or_eq_false_iff, decide_eq_false_iff_not, UInt64.not_lt,
    UInt64.le_iff_toNat_le] at hb
  obtain ⟨⟨hx, hy⟩, hz⟩ := hb
  rw [toNat_add_of_lt hn.x] at hx
  rw [toNat_add_mul_of_lt hrow hn.y] at hy
  rw [toNat_add_mul_of_lt hslice hn.z] at hz
  exact ⟨hx, hy, hz⟩

/-- A cell of a side whose numbers do not wrap around lies where the worker computes it. -/
theorem toNat_row_add (hi : s.Inside region size) (hx : x < region.x) (hy : y < region.y)
    (hz : z < region.z) :
    (s.row y z + x).toNat = position s.rowPitch.toNat s.slicePitch.toNat
      (s.origin.x.toNat + x.toNat) (s.origin.y.toNat + y.toNat) (s.origin.z.toNat + z.toNat) ∧
    (s.row y z + x).toNat < size.toNat := by
  have hlt : position s.rowPitch.toNat s.slicePitch.toNat (s.origin.x.toNat + x.toNat)
      (s.origin.y.toNat + y.toNat) (s.origin.z.toNat + z.toNat) < size.toNat :=
    position_lt hi.x hi.y hi.z hx hy hz
  have hrow : s.row y z + x = UInt64.ofNat (position s.rowPitch.toNat s.slicePitch.toNat
      (s.origin.x.toNat + x.toNat) (s.origin.y.toNat + y.toNat) (s.origin.z.toNat + z.toNat)) := by
    rw [row_eq_ofNat]
    simp only [position, UInt64.ofNat_add, UInt64.ofNat_toNat, UInt64.add_assoc]
  rw [hrow, UInt64.toNat_ofNat_of_lt' (Nat.lt_trans hlt size.toNat_lt)]
  exact ⟨rfl, hlt⟩

theorem inside_of_computed (hc : s.Computed origin row slice bpe region) (hn : s.NoWrap region)
    (hb : outOfBounds s.origin region s.rowPitch s.slicePitch size = false) (hx : x < region.x)
    (hy : y < region.y) : s.Inside region size := by
  have hrow : 0 < s.rowPitch.toNat := by
    have hle := UInt64.le_iff_toNat_le.mp hc.rowPitch.2
    have hlt := UInt64.lt_iff_toNat_lt.mp hx
    omega
  have hslice : 0 < s.slicePitch.toNat := by
    have hle := UInt64.le_iff_toNat_le.mp hc.slicePitch.2
    have hprod : region.y.toNat * s.rowPitch.toNat < 2 ^ 64 :=
      Nat.lt_of_le_of_lt (Nat.mul_le_mul_right _ (Nat.le_add_left _ _)) hn.y
    rw [toNat_mul_of_lt hprod] at hle
    have hpos : 0 < region.y.toNat := Nat.lt_of_le_of_lt (Nat.zero_le _) hy
    exact Nat.lt_of_lt_of_le (Nat.mul_pos hpos hrow) hle
  exact inside_of_outOfBounds hn hb hrow hslice

/-- The room for a whole region that nothing wraps around in. -/
theorem toNat_total (h : region.z.toNat * region.y.toNat * region.x.toNat * bpe.toNat < 2 ^ 64) :
    (region.z * region.y * region.x * bpe).toNat =
      region.z.toNat * region.y.toNat * region.x.toNat * bpe.toNat := by
  have heq : region.z * region.y * region.x * bpe =
      UInt64.ofNat (region.z.toNat * region.y.toNat * region.x.toNat * bpe.toNat) := by
    simp only [UInt64.ofNat_mul, UInt64.ofNat_toNat]
  rw [heq, UInt64.toNat_ofNat_of_lt' h]

/-- A side without origin and pitches is one block of bytes. -/
theorem inside_block (hc : s.Computed none 0 0 bpe (region.scale bpe)) (hy : 0 < region.y.toNat)
    (hz : 0 < region.z.toNat)
    (h : region.z.toNat * region.y.toNat * region.x.toNat * bpe.toNat < 2 ^ 64) :
    s.Inside (region.scale bpe) (region.z * region.y * region.x * bpe) := by
  have hzy : region.y.toNat * (region.x.toNat * bpe.toNat) ≤
      region.z.toNat * region.y.toNat * region.x.toNat * bpe.toNat := by
    rw [Nat.mul_assoc, Nat.mul_assoc region.z.toNat]
    exact Nat.le_mul_of_pos_left _ hz
  have hyx : region.x.toNat * bpe.toNat ≤ region.y.toNat * (region.x.toNat * bpe.toNat) :=
    Nat.le_mul_of_pos_left _ hy
  have hrx : (region.scale bpe).x.toNat = region.x.toNat * bpe.toNat :=
    toNat_mul_of_lt (by omega)
  have hox : s.origin.x.toNat = 0 := by
    rw [hc.origin]
    change (0 * bpe).toNat = 0
    rw [UInt64.zero_mul]
    rfl
  have hoy : s.origin.y = 0 := by rw [hc.origin]; rfl
  have hoz : s.origin.z = 0 := by rw [hc.origin]; rfl
  have hrow : s.rowPitch.toNat = region.x.toNat * bpe.toNat := by
    rw [hc.rowPitch.1, toNat_pitch, ← hrx]
    rfl
  have hslice : s.slicePitch.toNat = region.y.toNat * (region.x.toNat * bpe.toNat) := by
    rw [hc.slicePitch.1, toNat_pitch]
    change (region.y * s.rowPitch).toNat = _
    rw [toNat_mul_of_lt, hrow]
    rw [hrow]
    omega
  refine ⟨?_, ?_, ?_⟩
  · rw [hox, hrow, hrx]
    omega
  · rw [hoy, hrow, hslice]
    exact Nat.le_of_eq (by rw [UInt64.toNat_zero, Nat.zero_add]; rfl)
  · rw [hoz, hslice, toNat_total h, UInt64.toNat_zero, Nat.zero_add]
    change region.z.toNat * _ ≤ _
    exact Nat.le_of_eq (by ring)

theorem row_offset_lt {offset total : UInt64} (hi : s.Inside region total)
    (hw : offset.toNat + total.toNat < 2 ^ 64) (hle : offset + total ≤ size)
    (hx : x < region.x) (hy : y < region.y) (hz : z < region.z) :
    s.row y z + offset + x < size := by
  have hlt := (toNat_row_add hi hx hy hz).2
  have hcomm : s.row y z + offset + x = offset + (s.row y z + x) := by
    rw [UInt64.add_comm (s.row y z), UInt64.add_assoc]
  rw [UInt64.le_iff_toNat_le, toNat_add_of_lt hw] at hle
  rw [hcomm, UInt64.lt_iff_toNat_lt, toNat_add_of_lt (by omega)]
  omega

end Numbers

namespace RectCommand

def same : RectCommand → Bool
  | .readWriteBufferRect .. | .readWriteImage .. => false
  | .copyBufferRect _ _ same _ | .copyImage _ _ same .. | .copyImageToBuffer _ _ same ..
  | .copyBufferToImage _ _ same .. => same

/-- The room that an image needs in the buffer on the other side. -/
def OffsetInside (region : Vec3) : RectCommand → Prop
  | .copyImageToBuffer source destination _ _ _ offset =>
    offset + region.z * region.y * region.x * source.pixelSize ≤ destination.size
  | .copyBufferToImage source destination _ offset _ _ =>
    offset + region.z * region.y * region.x * destination.pixelSize ≤ source.size
  | _ => True

/-- What a constructor has tested. -/
structure Accepted (c : RectCommand) (r : Rect) (region : Vec3) : Prop where
  computed : r.Computed c.args c.bytesPerElement region
  source : outOfBounds r.src.origin r.region r.src.rowPitch r.src.slicePitch c.source.size = false
  destination : ∀ d ∈ c.destination,
    outOfBounds r.dst.origin r.region r.dst.rowPitch r.dst.slicePitch d.size = false
  overlap : c.same = true → ¬(overlaps r.src.origin.x r.dst.origin.x r.region.x = true ∧
    overlaps r.src.origin.y r.dst.origin.y r.region.y = true ∧
    overlaps r.src.origin.z r.dst.origin.z r.region.z = true)
  offset : c.OffsetInside region

end RectCommand

section Inversion

variable {queue : QueueInfo} {source destination s d : MemObject} {a : RectArgs}
  {ptr bpe : UInt64} {same : Bool}

theorem readWriteBufferRectEvent_eq_pure
    (h : readWriteBufferRectEvent queue (some source) a ptr bpe = pure ()) :
    ∃ r, readWriteCopyBufferRectEvent queue (some source) a bpe = pure (source, r) ∧
      outOfBounds r.src.origin r.region r.src.rowPitch r.src.slicePitch source.size = false := by
  simp only [readWriteBufferRectEvent, bind_eq_pure, reject_eq_pure] at h
  obtain ⟨⟨s, r⟩, hr, -, -, hb⟩ := h
  obtain ⟨rfl, -⟩ := computed_of_eq_pure hr
  exact ⟨r, hr, hb⟩

theorem copyBufferRectEvent_eq_pure
    (h : copyBufferRectEvent queue (some source) (some destination) same a bpe = pure (s, d)) :
    s = source ∧ d = destination ∧
    ∃ r, readWriteCopyBufferRectEvent queue (some source) a bpe = pure (source, r) ∧
      outOfBounds r.src.origin r.region r.src.rowPitch r.src.slicePitch source.size = false ∧
      outOfBounds r.dst.origin r.region r.dst.rowPitch r.dst.slicePitch destination.size = false ∧
      (same = true → ¬(overlaps r.src.origin.x r.dst.origin.x r.region.x = true ∧
        overlaps r.src.origin.y r.dst.origin.y r.region.y = true ∧
        overlaps r.src.origin.z r.dst.origin.z r.region.z = true)) := by
  simp only [copyBufferRectEvent, bind_eq_pure, reject_eq_pure] at h
  obtain ⟨⟨s', r⟩, hr, -, hsrc, -, hdst, -, hover, -, -, -, -, heq⟩ := h
  obtain ⟨rfl, -⟩ := computed_of_eq_pure hr
  cases heq
  refine ⟨rfl, rfl, r, hr, hsrc, hdst, ?_⟩
  rintro rfl ⟨hx, hy, hz⟩
  rw [show r.srcOrigin = r.src.origin from rfl, show r.dstOrigin = r.dst.origin from rfl, hx, hy,
    hz] at hover
  cases hover

end Inversion

namespace RectCommand

variable {queue : QueueInfo} {c : RectCommand}

theorem rect_eq_pure {r : Rect} (h : readWriteCopyBufferRectEvent queue (some c.source) c.args
    c.bytesPerElement = pure (c.source, r)) : c.rect queue = pure r := by
  unfold rect
  rw [h]
  rfl

/-- The constructors of all eight commands. -/
theorem accepted_of_construct (h : c.construct queue = pure ()) :
    ∃ r region, c.rect queue = pure r ∧ c.Accepted r region := by
  cases c with
  | readWriteBufferRect write buffer args ptr =>
    obtain ⟨r, hr, hb⟩ := readWriteBufferRectEvent_eq_pure h
    obtain ⟨-, region, hc⟩ := computed_of_eq_pure hr
    exact ⟨r, region, rect_eq_pure hr, hc, hb, nofun, nofun, trivial⟩
  | copyBufferRect source destination same args =>
    obtain ⟨⟨s, d⟩, hcopy, -⟩ := bind_eq_pure.mp h
    obtain ⟨rfl, rfl, r, hr, hsrc, hdst, hover⟩ := copyBufferRectEvent_eq_pure hcopy
    obtain ⟨-, region, hc⟩ := computed_of_eq_pure hr
    refine ⟨r, region, rect_eq_pure hr, hc, hsrc, ?_, hover, trivial⟩
    rintro _ ⟨⟩
    exact hdst
  | readWriteImage write image origin region rowPitch slicePitch ptr =>
    obtain ⟨⟨⟩, hread, -⟩ := bind_eq_pure.mp h
    obtain ⟨r, hr, hb⟩ := readWriteBufferRectEvent_eq_pure hread
    obtain ⟨-, region, hc⟩ := computed_of_eq_pure hr
    exact ⟨r, region, rect_eq_pure hr, hc, hb, nofun, nofun, trivial⟩
  | copyImage source destination same srcOrigin dstOrigin region =>
    obtain ⟨⟨s, d⟩, hcopy, -⟩ := bind_eq_pure.mp h
    obtain ⟨rfl, rfl, r, hr, hsrc, hdst, hover⟩ := copyBufferRectEvent_eq_pure hcopy
    obtain ⟨-, region, hc⟩ := computed_of_eq_pure hr
    refine ⟨r, region, rect_eq_pure hr, hc, hsrc, ?_, hover, trivial⟩
    rintro _ ⟨⟩
    exact hdst
  | copyImageToBuffer source destination same srcOrigin region dstOffset =>
    obtain ⟨⟨s, d⟩, hcopy, hrest⟩ := bind_eq_pure.mp h
    obtain ⟨rfl, rfl, r, hr, hsrc, hdst, hover⟩ := copyBufferRectEvent_eq_pure hcopy
    obtain ⟨-, region, hc⟩ := computed_of_eq_pure hr
    simp only [bind_eq_pure, reject_eq_pure, checkRegion_eq_pure, decide_eq_false_iff_not,
      UInt64.not_lt] at hrest
    obtain ⟨region', ⟨hgiven, -⟩, -, hoff, -⟩ := hrest
    cases hgiven.symm.trans hc.given
    refine ⟨r, region, rect_eq_pure hr, hc, hsrc, ?_, hover, hoff⟩
    rintro _ ⟨⟩
    exact hdst
  | copyBufferToImage source destination same srcOffset dstOrigin region =>
    obtain ⟨⟨s, d⟩, hcopy, hrest⟩ := bind_eq_pure.mp h
    obtain ⟨rfl, rfl, r, hr, hsrc, hdst, hover⟩ := copyBufferRectEvent_eq_pure hcopy
    obtain ⟨-, region, hc⟩ := computed_of_eq_pure hr
    simp only [bind_eq_pure, reject_eq_pure, checkRegion_eq_pure, decide_eq_false_iff_not,
      UInt64.not_lt] at hrest
    obtain ⟨region', ⟨hgiven, -⟩, -, hoff, -⟩ := hrest
    cases hgiven.symm.trans hc.given
    refine ⟨r, region, rect_eq_pure hr, hc, hsrc, ?_, hover, hoff⟩
    rintro _ ⟨⟩
    exact hdst

/-- The same for the room that an image needs in a buffer. -/
def OffsetFits (region : Vec3) : RectCommand → Prop
  | .copyImageToBuffer source _ _ _ _ offset => offset.toNat +
    region.z.toNat * region.y.toNat * region.x.toNat * source.pixelSize.toNat < 2 ^ 64
  | .copyBufferToImage _ destination _ offset _ _ => offset.toNat +
    region.z.toNat * region.y.toNat * region.x.toNat * destination.pixelSize.toNat < 2 ^ 64
  | _ => True

/-- No number that the tests compare has wrapped around. -/
def NoWrap (c : RectCommand) : Prop :=
  ∀ region ∈ c.args.region,
    CornerFits c.args.srcOrigin c.args.srcRowPitch c.args.srcSlicePitch c.bytesPerElement region ∧
    (c.destination.isSome → CornerFits c.args.dstOrigin c.args.dstRowPitch c.args.dstSlicePitch
      c.bytesPerElement region) ∧
    c.OffsetFits region

/-- The source side of the arguments. -/
def srcLayout (c : RectCommand) (region : Vec3) : Layout :=
  layout c.args.srcOrigin c.args.srcRowPitch c.args.srcSlicePitch c.bytesPerElement region

def dstLayout (c : RectCommand) (region : Vec3) : Layout :=
  layout c.args.dstOrigin c.args.dstRowPitch c.args.dstSlicePitch c.bytesPerElement region

/-- The bytes of a row. -/
def width (c : RectCommand) (region : Vec3) : Nat := region.x.toNat * c.bytesPerElement.toNat

variable {r : Rect} {region : Vec3} {x y z : UInt64}

theorem inside_source (ha : c.Accepted r region) (hn : c.NoWrap) (hx : x < r.region.x)
    (hy : y < r.region.y) : r.src.Inside r.region c.source.size := by
  have hc := ha.computed
  have hnw : r.src.NoWrap r.region := by
    rw [hc.region]
    exact noWrap_of_cornerFits (hc.region ▸ hc.src) (hn region hc.given).1
  exact inside_of_computed hc.src hnw ha.source hx hy

theorem inside_destination (ha : c.Accepted r region) (hn : c.NoWrap) {d : MemObject}
    (hd : d ∈ c.destination) (hx : x < r.region.x) (hy : y < r.region.y) :
    r.dst.Inside r.region d.size := by
  have hc := ha.computed
  have hsome : c.destination.isSome := Option.isSome_iff_exists.mpr ⟨d, hd⟩
  have hnw : r.dst.NoWrap r.region := by
    rw [hc.region]
    exact noWrap_of_cornerFits (hc.region ▸ hc.dst) ((hn region hc.given).2.1 hsome)
  exact inside_of_computed hc.dst hnw (ha.destination d hd) hx hy

/-- The side of a buffer that an image is copied to or from. -/
theorem row_lt_of_block {s : Side} {bpe offset size : UInt64}
    (hc : s.Computed none 0 0 bpe (region.scale bpe))
    (hfits : offset.toNat +
      region.z.toNat * region.y.toNat * region.x.toNat * bpe.toNat < 2 ^ 64)
    (hle : offset + region.z * region.y * region.x * bpe ≤ size)
    (hx : x < (region.scale bpe).x) (hy : y < region.y) (hz : z < region.z) :
    s.row y z + offset + x < size := by
  have htotal : region.z.toNat * region.y.toNat * region.x.toNat * bpe.toNat < 2 ^ 64 := by omega
  have hypos : 0 < region.y.toNat := Nat.lt_of_le_of_lt (Nat.zero_le _) hy
  have hzpos : 0 < region.z.toNat := Nat.lt_of_le_of_lt (Nat.zero_le _) hz
  refine row_offset_lt (inside_block hc hypos hzpos htotal) ?_ hle hx hy hz
  rw [toNat_total htotal]
  exact hfits

theorem source_row_lt (ha : c.Accepted r region) (hn : c.NoWrap) (hx : x < r.region.x)
    (hy : y < r.region.y) (hz : z < r.region.z) :
    r.src.row y z + c.srcOffset + x < c.source.size := by
  have hc := ha.computed
  have hplain : r.src.row y z + 0 + x < c.source.size := by
    rw [UInt64.add_zero]
    exact (toNat_row_add (inside_source ha hn hx hy) hx hy hz).2
  cases c with
  | copyBufferToImage source destination same offset dstOrigin given =>
    have hregion := hc.region
    have hsrc := hc.src
    rw [hregion] at hx hy hz hsrc
    exact row_lt_of_block hsrc (hn region hc.given).2.2 ha.offset hx hy hz
  | readWriteBufferRect _ _ _ _ => exact hplain
  | copyBufferRect _ _ _ _ => exact hplain
  | readWriteImage _ _ _ _ _ _ _ => exact hplain
  | copyImage _ _ _ _ _ _ => exact hplain
  | copyImageToBuffer _ _ _ _ _ _ => exact hplain

theorem destination_row_lt (ha : c.Accepted r region) (hn : c.NoWrap) {d : MemObject}
    (hd : d ∈ c.destination) (hx : x < r.region.x) (hy : y < r.region.y) (hz : z < r.region.z) :
    r.dst.row y z + c.dstOffset + x < d.size := by
  have hc := ha.computed
  have hplain : r.dst.row y z + 0 + x < d.size := by
    rw [UInt64.add_zero]
    exact (toNat_row_add (inside_destination ha hn hd hx hy) hx hy hz).2
  cases c with
  | copyImageToBuffer source destination same srcOrigin given offset =>
    have hdst := hc.dst
    rw [hc.region] at hx hy hz hdst
    cases hd
    exact row_lt_of_block hdst (hn region hc.given).2.2 ha.offset hx hy hz
  | readWriteBufferRect _ _ _ _ => exact hplain
  | copyBufferRect _ _ _ _ => exact hplain
  | readWriteImage _ _ _ _ _ _ _ => exact hplain
  | copyImage _ _ _ _ _ _ => exact hplain
  | copyBufferToImage _ _ _ _ _ _ => exact hplain

/-- A worker that copies what a constructor accepted stays in the memory objects. -/
theorem transfer_in_bounds (hn : c.NoWrap) (h : c.construct queue = pure ()) :
    ∃ r, c.rect queue = pure r ∧ c.InBounds r := by
  obtain ⟨r, region, hr, ha⟩ := accepted_of_construct h
  refine ⟨r, hr, ?_⟩
  intro z hz y hy x hx
  exact ⟨source_row_lt ha hn hx hy hz, fun d hd => destination_row_lt ha hn hd hx hy hz⟩

/-- Two rows of two pixels. -/
def smallImage : MemObject :=
  { LinearCommand.smallBuffer with
    type := .image2D
    width := 2
    height := 2
    depth := 1
    rowPitch := 8
    slicePitch := 16
    pixelSize := 4 }

/-- The second row of the image goes to the second half of the buffer. -/
def secondRow : RectCommand :=
  .copyImageToBuffer smallImage LinearCommand.smallBuffer false (some ⟨0, 1, 0⟩) (some ⟨2, 1, 1⟩) 8

theorem second_row_in_bounds :
    ∃ r, secondRow.rect LinearCommand.smallQueue = pure r ∧ secondRow.InBounds r := by
  refine transfer_in_bounds ?_ rfl
  rintro _ ⟨⟩
  exact ⟨by unfold CornerFits; decide, fun _ => by unfold CornerFits; decide,
    by unfold OffsetFits secondRow; decide⟩

/-- One byte of the last of `2 ^ 64` slices: the slices are counted to zero. -/
def lastSlice : RectCommand :=
  .readWriteBufferRect false LinearCommand.smallBuffer
    ⟨some ⟨0, 0, 0xFFFFFFFFFFFFFFFF⟩, none, some ⟨1, 1, 1⟩, 0, 0, 0, 0⟩ 4096

theorem last_slice_accepted : ¬∀ (queue : QueueInfo) (c : RectCommand),
    c.construct queue = pure () → ∃ r, c.rect queue = pure r ∧ c.InBounds r := by
  intro h
  obtain ⟨r, hr, hb⟩ := h LinearCommand.smallQueue lastSlice rfl
  have hrect : lastSlice.rect LinearCommand.smallQueue =
      pure ⟨⟨0, 0, 0xFFFFFFFFFFFFFFFF⟩, ⟨0, 0, 0⟩, ⟨1, 1, 1⟩, 1, 1, 1, 1⟩ := rfl
  cases hr.symm.trans hrect
  have hlt := (hb 0 (by decide) 0 (by decide) 0 (by decide)).1
  revert hlt
  decide

end RectCommand

end Shamrock.Runtime
