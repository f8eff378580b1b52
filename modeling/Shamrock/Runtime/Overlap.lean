import Shamrock.Runtime.Rect

/-!
# Copies within one memory object

The constructors compare the origins of both sides, but `memcpy` asks that no byte is both read and
written.
-/
namespace Shamrock.Runtime

open Strided

namespace RectCommand

/-- A byte that the worker reads in the source. -/
def Reads (c : RectCommand) (queue : QueueInfo) (b : UInt64) : Prop :=
  ∃ r, c.rect queue = pure r ∧ ∃ z < r.region.z, ∃ y < r.region.y, ∃ x < r.region.x,
    b = r.src.row y z + c.srcOffset + x

def Writes (c : RectCommand) (queue : QueueInfo) (b : UInt64) : Prop :=
  ∃ r, c.rect queue = pure r ∧ ∃ z < r.region.z, ∃ y < r.region.y, ∃ x < r.region.x,
    b = r.dst.row y z + c.dstOffset + x

/-- Where the test of the constructor finds no overlap though there is one: with the same pitches
on both sides, the boxes meet and have an origin in common in some dimension; with different ones,
two rows are near each other. -/
def MissedIn (c : RectCommand) (region : Vec3) : Prop :=
  let s := c.srcLayout region
  let d := c.dstLayout region
  if s.row = d.row ∧ s.slice = d.slice then
    Near s.x d.x (c.width region) ∧ Near s.y d.y region.y.toNat ∧ Near s.z d.z region.z.toNat ∧
      (s.x = d.x ∨ s.y = d.y ∨ s.z = d.z)
  else
    ∃ y < region.y.toNat, ∃ z < region.z.toNat, ∃ y' < region.y.toNat, ∃ z' < region.z.toNat,
      Near (s.cell 0 y z) (d.cell 0 y' z') (c.width region)

def Missed (c : RectCommand) : Prop := ∃ region ∈ c.args.region, c.MissedIn region

end RectCommand

/-- A copy whose source is its destination. -/
inductive SelfCopy
  | copyBuffer (buffer : MemObject) (srcOffset dstOffset cb : UInt64)
  | copyBufferRect (buffer : MemObject) (args : RectArgs)
  | copyImage (image : MemObject) (srcOrigin dstOrigin region : Option Vec3)

namespace SelfCopy

/-- The command with a rectangular region. -/
def command : SelfCopy → Option RectCommand
  | .copyBuffer .. => none
  | .copyBufferRect buffer args => some (.copyBufferRect buffer buffer true args)
  | .copyImage image srcOrigin dstOrigin region =>
    some (.copyImage image image true srcOrigin dstOrigin region)

def construct (queue : QueueInfo) : SelfCopy → Check Unit
  | .copyBuffer buffer srcOffset dstOffset cb =>
    copyBufferEvent queue (some buffer) (some buffer) true srcOffset dstOffset cb
  | .copyBufferRect buffer args =>
    (RectCommand.copyBufferRect buffer buffer true args).construct queue
  | .copyImage image srcOrigin dstOrigin region =>
    (RectCommand.copyImage image image true srcOrigin dstOrigin region).construct queue

def Reads (queue : QueueInfo) (b : UInt64) : SelfCopy → Prop
  | .copyBuffer _ srcOffset _ cb => ∃ i < cb, b = srcOffset + i
  | c => ∃ rc ∈ c.command, rc.Reads queue b

def Writes (queue : QueueInfo) (b : UInt64) : SelfCopy → Prop
  | .copyBuffer _ _ dstOffset cb => ∃ i < cb, b = dstOffset + i
  | c => ∃ rc ∈ c.command, rc.Writes queue b

/-- No arithmetic has wrapped around. -/
def NoWrap : SelfCopy → Prop
  | .copyBuffer _ srcOffset dstOffset cb =>
    srcOffset.toNat + cb.toNat < 2 ^ 64 ∧ dstOffset.toNat + cb.toNat < 2 ^ 64
  | c => ∀ rc ∈ c.command, rc.NoWrap

def Missed : SelfCopy → Prop
  | .copyBuffer _ srcOffset dstOffset cb => srcOffset = dstOffset ∧ cb ≠ 0
  | c => ∃ rc ∈ c.command, rc.Missed

end SelfCopy

section Cells

variable {c : RectCommand} {queue : QueueInfo} {r : Rect} {region : Vec3} {b size : UInt64}

/-- One dimension of the test, where nothing wraps around. -/
theorem overlaps_iff {s d n : UInt64} (hs : s.toNat + n.toNat < 2 ^ 64)
    (hd : d.toNat + n.toNat < 2 ^ 64) :
    overlaps s d n = true ↔ Near s.toNat d.toNat n.toNat ∧ s.toNat ≠ d.toNat := by
  unfold overlaps Near
  simp only [Bool.or_eq_true, Bool.and_eq_true, decide_eq_true_eq, UInt64.lt_iff_toNat_lt,
    toNat_add_of_lt hs, toNat_add_of_lt hd]
  omega

/-- The bytes of one side, as natural numbers. -/
theorem side_bytes {s : Side} {v : Vec3} (hi : s.Inside v size) :
    (∃ z < v.z, ∃ y < v.y, ∃ x < v.x, b = s.row y z + x) ↔
      ∃ x < v.x.toNat, ∃ y < v.y.toNat, ∃ z < v.z.toNat, b.toNat = s.layout.cell x y z := by
  constructor
  · rintro ⟨z, hz, y, hy, x, hx, rfl⟩
    exact ⟨x.toNat, hx, y.toNat, hy, z.toNat, hz, (toNat_row_add hi hx hy hz).1⟩
  · rintro ⟨x, hx, y, hy, z, hz, hb⟩
    have hx' : (UInt64.ofNat x).toNat = x :=
      UInt64.toNat_ofNat_of_lt' (Nat.lt_trans hx v.x.toNat_lt)
    have hy' : (UInt64.ofNat y).toNat = y :=
      UInt64.toNat_ofNat_of_lt' (Nat.lt_trans hy v.y.toNat_lt)
    have hz' : (UInt64.ofNat z).toNat = z :=
      UInt64.toNat_ofNat_of_lt' (Nat.lt_trans hz v.z.toNat_lt)
    have hxlt : UInt64.ofNat x < v.x := UInt64.lt_iff_toNat_lt.mpr (hx'.symm ▸ hx)
    have hylt : UInt64.ofNat y < v.y := UInt64.lt_iff_toNat_lt.mpr (hy'.symm ▸ hy)
    have hzlt : UInt64.ofNat z < v.z := UInt64.lt_iff_toNat_lt.mpr (hz'.symm ▸ hz)
    refine ⟨UInt64.ofNat z, hzlt, UInt64.ofNat y, hylt, UInt64.ofNat x, hxlt, ?_⟩
    have hrow := (toNat_row_add hi hxlt hylt hzlt).1
    rw [hx', hy', hz'] at hrow
    exact UInt64.toNat_inj.mp (hb.trans hrow.symm)

end Cells

/-- What the constructor has made sure of a command without wrap-around, in the numbers of its
arguments. -/
structure RectCommand.Cells (c : RectCommand) (r : Rect) (region : Vec3) : Prop where
  srcLayout : r.src.layout = c.srcLayout region
  dstLayout : r.dst.layout = c.dstLayout region
  width : r.region.x.toNat = c.width region
  region : r.region.y = region.y ∧ r.region.z = region.z
  source : r.src.Inside r.region c.source.size
  destination : ∀ d ∈ c.destination, r.dst.Inside r.region d.size

namespace RectCommand

variable {c : RectCommand} {queue : QueueInfo} {r : Rect} {region : Vec3} {b : UInt64}

theorem cells_of_accepted (ha : c.Accepted r region) (hn : c.NoWrap) (hd : c.destination.isSome)
    (hw : 0 < c.width region) : c.Cells r region := by
  have hc := ha.computed
  obtain ⟨hsrc, hdst, -⟩ := hn region hc.given
  have hwidth : r.region.x.toNat = c.width region := by
    rw [hc.region]
    exact toNat_scale (layoutFits_of_cornerFits hsrc)
  have hx : (0 : UInt64) < r.region.x := by
    rw [UInt64.lt_iff_toNat_lt, hwidth]
    exact hw
  have hy : (0 : UInt64) < r.region.y := by
    rw [hc.region]
    exact UInt64.pos_iff_ne_zero.mpr hc.nonzero.2.1
  refine ⟨layout_eq (hc.region ▸ hc.src) (layoutFits_of_cornerFits hsrc),
    layout_eq (hc.region ▸ hc.dst) (layoutFits_of_cornerFits (hdst hd)), hwidth, ?_,
    inside_source ha hn hx hy, fun d hd => inside_destination ha hn hd hx hy⟩
  rw [hc.region]
  exact ⟨rfl, rfl⟩

/-- The bytes that are both read and written are common cells of both layouts. -/
theorem shared_iff (hcells : c.Cells r region) (hr : c.rect queue = pure r)
    (hd : c.destination.isSome) (hs : c.srcOffset = 0 ∧ c.dstOffset = 0) :
    (∃ b, c.Reads queue b ∧ c.Writes queue b) ↔
      ∃ x < c.width region, ∃ y < region.y.toNat, ∃ z < region.z.toNat,
        ∃ x' < c.width region, ∃ y' < region.y.toNat, ∃ z' < region.z.toNat,
          (c.srcLayout region).cell x y z = (c.dstLayout region).cell x' y' z' := by
  obtain ⟨d, hd⟩ := Option.isSome_iff_exists.mp hd
  have hreads : ∀ b, c.Reads queue b ↔ ∃ x < c.width region, ∃ y < region.y.toNat,
      ∃ z < region.z.toNat, b.toNat = (c.srcLayout region).cell x y z := by
    intro b
    rw [← hcells.width, ← hcells.region.1, ← hcells.region.2, ← hcells.srcLayout,
      ← side_bytes hcells.source]
    unfold Reads
    rw [hr, hs.1]
    simp only [UInt64.add_zero]
    exact ⟨fun ⟨_, heq, h⟩ => by cases heq; exact h, fun h => ⟨r, rfl, h⟩⟩
  have hwrites : ∀ b, c.Writes queue b ↔ ∃ x < c.width region, ∃ y < region.y.toNat,
      ∃ z < region.z.toNat, b.toNat = (c.dstLayout region).cell x y z := by
    intro b
    rw [← hcells.width, ← hcells.region.1, ← hcells.region.2, ← hcells.dstLayout,
      ← side_bytes (hcells.destination d hd)]
    unfold Writes
    rw [hr, hs.2]
    simp only [UInt64.add_zero]
    exact ⟨fun ⟨_, heq, h⟩ => by cases heq; exact h, fun h => ⟨r, rfl, h⟩⟩
  constructor
  · rintro ⟨b, hread, hwrite⟩
    obtain ⟨x, hx, y, hy, z, hz, hb⟩ := (hreads b).mp hread
    obtain ⟨x', hx', y', hy', z', hz', hb'⟩ := (hwrites b).mp hwrite
    exact ⟨x, hx, y, hy, z, hz, x', hx', y', hy', z', hz', hb.symm.trans hb'⟩
  · rintro ⟨x, hx, y, hy, z, hz, x', hx', y', hy', z', hz', heq⟩
    have hlt : (c.srcLayout region).cell x y z < 2 ^ 64 := by
      have hi := hcells.source
      rw [← hcells.srcLayout]
      rw [← hcells.width] at hx
      rw [← hcells.region.1] at hy
      rw [← hcells.region.2] at hz
      exact Nat.lt_trans (position_lt hi.x hi.y hi.z hx hy hz) c.source.size.toNat_lt
    have hb : (UInt64.ofNat ((c.srcLayout region).cell x y z)).toNat =
      (c.srcLayout region).cell x y z := UInt64.toNat_ofNat_of_lt' hlt
    exact ⟨_, (hreads _).mpr ⟨x, hx, y, hy, z, hz, hb⟩,
      (hwrites _).mpr ⟨x', hx', y', hy', z', hz', hb.trans heq⟩⟩

/-- The far corner of a side is a vector of 64-bit numbers. -/
theorem corner_lt {s : Side} {v : Vec3} {size : UInt64} (hi : s.Inside v size)
    (hx : 0 < v.x.toNat) (hy : 0 < v.y.toNat) :
    s.origin.x.toNat + v.x.toNat < 2 ^ 64 ∧ s.origin.y.toNat + v.y.toNat < 2 ^ 64 ∧
      s.origin.z.toNat + v.z.toNat < 2 ^ 64 := by
  have hrow := s.rowPitch.toNat_lt
  have hslice := s.slicePitch.toNat_lt
  have hsize := size.toNat_lt
  obtain ⟨hix, hiy, hiz⟩ := hi
  have hrows : s.origin.y.toNat + v.y.toNat ≤
      (s.origin.y.toNat + v.y.toNat) * s.rowPitch.toNat := Nat.le_mul_of_pos_right _ (by omega)
  have hslices : s.origin.z.toNat + v.z.toNat ≤
      (s.origin.z.toNat + v.z.toNat) * s.slicePitch.toNat :=
    Nat.le_mul_of_pos_right _ (by omega)
  omega

/-- Boxes that meet have passed the test only if an origin is the same on both sides. -/
theorem origin_shared (ha : c.Accepted r region) (hcells : c.Cells r region)
    (hd : c.destination.isSome) (hsame : c.same = true) (hw : 0 < c.width region)
    (hx : Near (c.srcLayout region).x (c.dstLayout region).x (c.width region))
    (hy : Near (c.srcLayout region).y (c.dstLayout region).y region.y.toNat)
    (hz : Near (c.srcLayout region).z (c.dstLayout region).z region.z.toNat) :
    (c.srcLayout region).x = (c.dstLayout region).x ∨
      (c.srcLayout region).y = (c.dstLayout region).y ∨
      (c.srcLayout region).z = (c.dstLayout region).z := by
  obtain ⟨d, hd⟩ := Option.isSome_iff_exists.mp hd
  rw [← hcells.srcLayout, ← hcells.dstLayout] at hx hy hz ⊢
  rw [← hcells.width] at hx hw
  rw [← hcells.region.1] at hy
  rw [← hcells.region.2] at hz
  have hypos : 0 < r.region.y.toNat := by
    unfold Near at hy
    omega
  obtain ⟨hsx, hsy, hsz⟩ := corner_lt hcells.source hw hypos
  obtain ⟨hdx, hdy, hdz⟩ := corner_lt (hcells.destination d hd) hw hypos
  have hnot := ha.overlap hsame
  rw [overlaps_iff hsx hdx, overlaps_iff hsy hdy, overlaps_iff hsz hdz] at hnot
  by_contra hne
  push Not at hne
  exact hnot ⟨⟨hx, hne.1⟩, ⟨hy, hne.2.1⟩, ⟨hz, hne.2.2⟩⟩

/-- A side of a region that no cell leaves its row or its slice in. -/
theorem layout_inside {s : Side} {v : Vec3} {size : UInt64} (hi : s.Inside v size) :
    s.layout.x + v.x.toNat ≤ s.layout.row ∧
      (s.layout.y + v.y.toNat) * s.layout.row ≤ s.layout.slice := ⟨hi.x, hi.y⟩

theorem missedIn_iff (ha : c.Accepted r region) (hcells : c.Cells r region)
    (hd : c.destination.isSome) (hsame : c.same = true) (hw : 0 < c.width region) :
    c.MissedIn region ↔ ∃ x < c.width region, ∃ y < region.y.toNat, ∃ z < region.z.toNat,
      ∃ x' < c.width region, ∃ y' < region.y.toNat, ∃ z' < region.z.toNat,
        (c.srcLayout region).cell x y z = (c.dstLayout region).cell x' y' z' := by
  unfold MissedIn
  by_cases hp : (c.srcLayout region).row = (c.dstLayout region).row ∧
      (c.srcLayout region).slice = (c.dstLayout region).slice
  · -- one grid for both boxes
    obtain ⟨d, hmem⟩ := Option.isSome_iff_exists.mp hd
    obtain ⟨hsx, hsy⟩ := layout_inside hcells.source
    obtain ⟨hdx, hdy⟩ := layout_inside (hcells.destination d hmem)
    rw [hcells.srcLayout, hcells.width] at hsx
    rw [hcells.srcLayout, hcells.region.1] at hsy
    rw [hcells.dstLayout, hcells.width, ← hp.1] at hdx
    rw [hcells.dstLayout, hcells.region.1, ← hp.1, ← hp.2] at hdy
    have hmeet := boxes_meet_iff (c.srcLayout region).z (c.dstLayout region).z region.z.toNat hsx
      hsy hdx hdy
    unfold Layout.cell
    rw [if_pos hp, ← hp.1, ← hp.2, hmeet]
    constructor
    · rintro ⟨hx, hy, hz, -⟩
      exact ⟨hx, hy, hz⟩
    · rintro ⟨hx, hy, hz⟩
      exact ⟨hx, hy, hz, origin_shared ha hcells hd hsame hw hx hy hz⟩
  · rw [if_neg hp]
    constructor
    · rintro ⟨y, hy, z, hz, y', hy', z', hz', hnear⟩
      obtain ⟨x, hx, x', hx', heq⟩ := near_iff.mp hnear
      refine ⟨x, hx, y, hy, z, hz, x', hx', y', hy', z', hz', ?_⟩
      rw [Layout.cell_eq, Layout.cell_eq _ x']
      exact heq
    · rintro ⟨x, hx, y, hy, z, hz, x', hx', y', hy', z', hz', heq⟩
      rw [Layout.cell_eq, Layout.cell_eq _ x'] at heq
      exact ⟨y, hy, z, hz, y', hy', z', hz', near_iff.mpr ⟨x, hx, x', hx', heq⟩⟩

/-- A row of no bytes. -/
theorem not_missedIn (hw : c.width region = 0) : ¬c.MissedIn region := by
  have hnear : ∀ a b, ¬Near a b 0 := by
    intro a b hab
    unfold Near at hab
    omega
  intro hm
  unfold MissedIn at hm
  rw [hw] at hm
  by_cases hp : (c.srcLayout region).row = (c.dstLayout region).row ∧
      (c.srcLayout region).slice = (c.dstLayout region).slice
  · rw [if_pos hp] at hm
    exact hnear _ _ hm.1
  · rw [if_neg hp] at hm
    obtain ⟨_, _, _, _, _, _, _, _, h⟩ := hm
    exact hnear _ _ h

theorem missed_iff (hd : c.destination.isSome) (hsame : c.same = true)
    (hs : c.srcOffset = 0 ∧ c.dstOffset = 0) (h : c.construct queue = pure ()) (hn : c.NoWrap) :
    (∃ b, c.Reads queue b ∧ c.Writes queue b) ↔ c.Missed := by
  obtain ⟨r, region, hr, ha⟩ := accepted_of_construct h
  have hmissed : c.Missed ↔ c.MissedIn region := by
    unfold Missed
    rw [ha.computed.given]
    exact ⟨fun ⟨_, heq, h⟩ => by cases heq; exact h, fun h => ⟨region, rfl, h⟩⟩
  rw [hmissed]
  rcases Nat.eq_zero_or_pos (c.width region) with hw | hw
  · constructor
    · rintro ⟨b, ⟨r', hr', z, -, y, -, x, hx, -⟩, -⟩
      cases hr.symm.trans hr'
      have hwidth : r.region.x.toNat = c.width region := by
        rw [ha.computed.region]
        exact toNat_scale (layoutFits_of_cornerFits (hn region ha.computed.given).1)
      rw [UInt64.lt_iff_toNat_lt, hwidth, hw] at hx
      omega
    · intro hm
      exact (not_missedIn hw hm).elim
  · have hcells := cells_of_accepted ha hn hd hw
    rw [shared_iff hcells hr hd hs, missedIn_iff ha hcells hd hsame hw]

end RectCommand

namespace SelfCopy

variable {queue : QueueInfo} {c : SelfCopy}

theorem copyBuffer_missed_iff {buffer : MemObject} {srcOffset dstOffset cb : UInt64}
    (h : copyBufferEvent queue (some buffer) (some buffer) true srcOffset dstOffset cb = pure ())
    (hs : srcOffset.toNat + cb.toNat < 2 ^ 64) (hd : dstOffset.toNat + cb.toNat < 2 ^ 64) :
    (∃ b, (∃ i < cb, b = srcOffset + i) ∧ ∃ j < cb, b = dstOffset + j) ↔
      srcOffset = dstOffset ∧ cb ≠ 0 := by
  simp only [copyBufferEvent, bind_eq_pure, reject_eq_pure] at h
  obtain ⟨_, -, _, -, _, hover, -⟩ := h
  simp only [Bool.true_and, Bool.or_eq_false_iff, Bool.and_eq_false_iff, decide_eq_false_iff_not,
    UInt64.lt_iff_toNat_lt, toNat_add_of_lt hs, toNat_add_of_lt hd] at hover
  constructor
  · rintro ⟨b, ⟨i, hi, rfl⟩, j, hj, heq⟩
    rw [UInt64.lt_iff_toNat_lt] at hi hj
    have hnat := congrArg UInt64.toNat heq
    rw [toNat_add_of_lt (by omega), toNat_add_of_lt (by omega)] at hnat
    refine ⟨UInt64.toNat_inj.mp (by omega), ?_⟩
    rintro rfl
    exact Nat.not_lt_zero _ hi
  · rintro ⟨rfl, hcb⟩
    have hpos : 0 < cb := UInt64.pos_iff_ne_zero.mpr hcb
    exact ⟨srcOffset + 0, ⟨0, hpos, rfl⟩, 0, hpos, rfl⟩

theorem missed_iff (h : c.construct queue = pure ()) (hn : c.NoWrap) :
    (∃ b, c.Reads queue b ∧ c.Writes queue b) ↔ c.Missed := by
  cases c with
  | copyBuffer buffer srcOffset dstOffset cb => exact copyBuffer_missed_iff h hn.1 hn.2
  | copyBufferRect buffer args =>
    have hrect := RectCommand.missed_iff (c := .copyBufferRect buffer buffer true args) rfl rfl
      ⟨rfl, rfl⟩ h (hn _ rfl)
    simpa [Reads, Writes, Missed, command] using hrect
  | copyImage image srcOrigin dstOrigin region =>
    have hrect := RectCommand.missed_iff
      (c := .copyImage image image true srcOrigin dstOrigin region) rfl rfl ⟨rfl, rfl⟩ h (hn _ rfl)
    simpa [Reads, Writes, Missed, command] using hrect

/-- No byte is both read and written, unless the test has missed an overlap. -/
theorem bytes_disjoint_iff (queue : QueueInfo) (c : SelfCopy) :
    (c.construct queue = pure () → c.NoWrap → ∀ b, ¬(c.Reads queue b ∧ c.Writes queue b)) ↔
      ¬(c.construct queue = pure () ∧ c.NoWrap ∧ c.Missed) := by
  constructor
  · rintro h ⟨hok, hn, hm⟩
    obtain ⟨b, hb⟩ := (missed_iff hok hn).mpr hm
    exact h hok hn b hb
  · intro h hok hn b hb
    exact h ⟨hok, hn, (missed_iff hok hn).mp ⟨b, hb⟩⟩

/-- A buffer copied onto itself. -/
theorem copy_onto_itself_accepted : ¬∀ (queue : QueueInfo) (c : SelfCopy),
    c.construct queue = pure () → c.NoWrap → ∀ b, ¬(c.Reads queue b ∧ c.Writes queue b) := by
  intro h
  have hcopy := h LinearCommand.smallQueue (.copyBuffer LinearCommand.smallBuffer 4 4 8) rfl
    ⟨by decide, by decide⟩ 4
  exact hcopy ⟨⟨0, by decide, rfl⟩, 0, by decide, rfl⟩

end SelfCopy

end Shamrock.Runtime
