import Shamrock.Dsp.Transfer
import Mathlib.Data.List.Pairwise

/-!
# The two workers agree

Both workers start from the same contents, and a buffer that is not on the host has its own memory
on either side. What an event does to the contents is compared afterwards.
-/
namespace Shamrock.Dsp

open Shamrock.Runtime Strided Relocation

/-- The memory of a buffer: its address on the CPU, and on the DSP. -/
structure Store where
  cpu : Nat
  dsp : Nat
  size : Nat
  deriving DecidableEq, Repr

namespace Store

def Apart (s s' : Store) : Prop :=
  (s.cpu + s.size ≤ s'.cpu ∨ s'.cpu + s'.size ≤ s.cpu) ∧
    (s.dsp + s.size ≤ s'.dsp ∨ s'.dsp + s'.size ≤ s.dsp)

instance : Std.Symm Apart := ⟨fun _ _ h => ⟨h.1.symm, h.2.symm⟩⟩

end Store

/-- The addresses of the CPU, and those that hold the same bytes for the DSP. -/
def At (stores : List Store) (a : Nat) : Space → Nat → Prop
  | .host, b => a = b ∧ ∀ s ∈ stores, a < s.cpu ∨ s.cpu + s.size ≤ a
  | .device, b => ∃ s ∈ stores, ∃ i < s.size, a = s.cpu + i ∧ b = s.dsp + i

/-- Memory of the application. -/
def HostRange (stores : List Store) (addr n : Nat) : Prop :=
  Block (At stores) n addr (.host, addr)

namespace BufferData

/-- The two `data()` of a buffer are where its bytes are. Larger buffers cannot be created. -/
structure Placed (stores : List Store) (b : BufferData) : Prop where
  size : b.object.size.toNat ≤ 1073741824
  cpu : b.cpuData.toNat + b.object.size.toNat ≤ 2 ^ 64
  host : b.usesHostPtr = true → b.hostPtr = b.cpuData ∧
    HostRange stores b.cpuData.toNat b.object.size.toNat
  device : b.usesHostPtr = false → b.dspData.toNat + b.object.size.toNat ≤ 2 ^ 64 ∧
    Block (At stores) b.object.size.toNat b.cpuData.toNat (.device, b.dspData.toNat)

def space (b : BufferData) : Space := if b.usesHostPtr then .host else .device

end BufferData

namespace BufferEvent

/-- The constructor has accepted the event. -/
def Constructed (queue : QueueInfo) : BufferEvent → Prop
  | .readWriteBuffer _ buffer offset cb ptr =>
    (LinearCommand.readWriteBuffer buffer.object offset cb ptr).construct queue = pure ()
  | .copyBuffer source destination same srcOffset dstOffset cb =>
    (LinearCommand.copyBuffer source.object destination.object same srcOffset dstOffset
      cb).construct queue = pure ()
  | .fillBuffer buffer pattern patternSize offset size =>
    (LinearCommand.fillBuffer buffer.object pattern patternSize offset size).construct queue =
      pure ()
  | .readWriteBufferRect write buffer args ptr r =>
    let c := RectCommand.readWriteBufferRect write buffer.object args ptr
    c.construct queue = pure () ∧ c.rect queue = pure r
  | .copyBufferRect source destination same args r =>
    let c := RectCommand.copyBufferRect source.object destination.object same args
    c.construct queue = pure () ∧ c.rect queue = pure r

/-- None of the numbers that its tests compare has wrapped around. -/
def NoWrap : BufferEvent → Prop
  | .readWriteBuffer _ _ offset cb _ => offset.toNat + cb.toNat < 2 ^ 64
  | .copyBuffer _ _ _ srcOffset dstOffset cb =>
    srcOffset.toNat + cb.toNat < 2 ^ 64 ∧ dstOffset.toNat + cb.toNat < 2 ^ 64
  | .fillBuffer _ _ _ offset size => offset.toNat + size.toNat < 2 ^ 64
  | .readWriteBufferRect write buffer args ptr _ =>
    (RectCommand.readWriteBufferRect write buffer.object args ptr).NoWrap
  | .copyBufferRect source destination same args _ =>
    (RectCommand.copyBufferRect source.object destination.object same args).NoWrap

/-- Buffers and host memory are where they should be. -/
def InMemory (stores : List Store) : BufferEvent → Prop
  | .readWriteBuffer _ buffer _ cb ptr =>
    buffer.Placed stores ∧ HostRange stores ptr.toNat cb.toNat
  | .copyBuffer source destination .. | .copyBufferRect source destination .. =>
    source.Placed stores ∧ destination.Placed stores
  | .fillBuffer buffer .. => buffer.Placed stores
  | .readWriteBufferRect _ buffer _ ptr r =>
    buffer.Placed stores ∧ ∀ y < r.region.y.toNat, ∀ z < r.region.z.toNat,
      HostRange stores (ptr + r.dst.row (UInt64.ofNat y) (UInt64.ofNat z)).toNat r.region.x.toNat

/-- An event as a worker gets it. -/
structure Ready (stores : List Store) (queue : QueueInfo) (e : BufferEvent) : Prop where
  constructed : e.Constructed queue
  noWrap : e.NoWrap
  memory : e.InMemory stores

/-- From the same contents both workers make the same contents. -/
def WorkersAgree (stores : List Store) (e : BufferEvent) : Prop :=
  ∀ m d, Same (At stores) m d →
    ∃ d', dspWorker d e = some d' ∧ Same (At stores) (cpuWorker m e) d'

/-- Not a transfer from the middle of a host buffer, nor a fill that changes anything. -/
def HandledAlike : BufferEvent → Prop
  | .readWriteBuffer _ buffer offset cb _ => buffer.usesHostPtr = true → offset = 0 ∨ cb = 0
  | .fillBuffer buffer pattern patternSize offset size =>
    size = 0 ∨ (size = patternSize ∧ pattern = buffer.cpuData + offset)
  | _ => True

end BufferEvent

variable {stores : List Store} {queue : QueueInfo} {b source destination : BufferData}
  {m : Memory} {d : DspMemory} {n o : UInt64}

/-! ## Addresses -/

section Addresses

/-- Two stores are the same one or apart. -/
theorem eq_or_apart (h : stores.Pairwise Store.Apart) {t t' : Store} (ht : t ∈ stores)
    (ht' : t' ∈ stores) : t = t' ∨ t.Apart t' := by
  by_cases heq : t = t'
  · exact .inl heq
  · exact .inr (h.forall ht ht' heq)

theorem oneToOne_at (h : stores.Pairwise Store.Apart) : OneToOne (At stores) where
  right {a s b s' b'} h₁ h₂ := by
    cases s <;> cases s'
    · exact ⟨rfl, h₁.1.symm.trans h₂.1⟩
    · obtain ⟨t, ht, i, hi, rfl, -⟩ := h₂
      have hout := h₁.2 t ht
      omega
    · obtain ⟨t, ht, i, hi, rfl, -⟩ := h₁
      have hout := h₂.2 t ht
      omega
    · obtain ⟨t, ht, i, hi, rfl, rfl⟩ := h₁
      obtain ⟨t', ht', i', hi', heq, rfl⟩ := h₂
      rcases eq_or_apart h ht ht' with rfl | ⟨hcpu, -⟩
      · exact ⟨rfl, by omega⟩
      · omega
  left {a a' s b} h₁ h₂ := by
    cases s
    · exact h₁.1.trans h₂.1.symm
    · obtain ⟨t, ht, i, hi, rfl, rfl⟩ := h₁
      obtain ⟨t', ht', i', hi', rfl, heq⟩ := h₂
      rcases eq_or_apart h ht ht' with rfl | ⟨-, hdsp⟩
      · omega
      · omega

theorem toNat_add_room {a k : UInt64} {size i : Nat} (ha : a.toNat + size ≤ 2 ^ 64)
    (hk : k.toNat + i ≤ size) (hi : 0 < i) : (a + k).toNat = a.toNat + k.toNat :=
  toNat_add_of_lt (by omega)

/-- The bytes of a buffer are those that the DSP finds from `start` on. -/
theorem BufferData.Placed.block (h : b.Placed stores) {i : Nat}
    (ho : o.toNat + i ≤ b.object.size.toNat) :
    Block (At stores) i (b.cpuData + o).toNat (b.space, (b.start o).toNat) := by
  intro j hj
  have hi : 0 < i := by omega
  have hcpu := toNat_add_room h.cpu ho hi
  unfold BufferData.space BufferData.start
  cases huse : b.usesHostPtr with
  | true =>
    obtain ⟨hptr, hrange⟩ := h.host huse
    have hbyte := hrange (o.toNat + j) (by omega)
    rw [if_pos rfl, if_pos rfl, hptr, hcpu, Nat.add_assoc]
    exact hbyte
  | false =>
    obtain ⟨hdsp, hblock⟩ := h.device huse
    have hbyte := hblock (o.toNat + j) (by omega)
    rw [if_neg (by simp), if_neg (by simp), hcpu, toNat_add_room hdsp ho hi, Nat.add_assoc,
      Nat.add_assoc]
    exact hbyte

theorem start_block (h : b.Placed stores) (huse : b.usesHostPtr = true) {i : Nat}
    (hi : i ≤ b.object.size.toNat) :
    Block (At stores) i b.cpuData.toNat (.host, b.hostPtr.toNat) := by
  obtain ⟨hptr, hrange⟩ := h.host huse
  intro j hj
  rw [hptr]
  exact hrange j (by omega)

/-- What a pointer reaches after `k` steps. -/
theorem iterate_add (p a : UInt64) (k : Nat) : (· + p)^[k] a = a + UInt64.ofNat k * p := by
  induction k generalizing a with
  | zero => simp
  | succ k ih =>
    rw [Function.iterate_succ_apply, ih, UInt64.ofNat_add, show UInt64.ofNat 1 = 1 from rfl]
    grind

theorem iterate_pointer_host (p a : UInt64) (k : Nat) :
    (Pointer.add p)^[k] (.host a) = .host (a + UInt64.ofNat k * p) := by
  rw [← iterate_add]
  induction k generalizing a with
  | zero => rfl
  | succ k ih => exact ih (a + p)

theorem iterate_pointer_mapped (p a : UInt64) (size : UInt32) (offset : UInt64) (k : Nat) :
    (Pointer.add p)^[k] (.mapped a size offset) =
      .mapped a size (offset + UInt64.ofNat k * p) := by
  rw [← iterate_add]
  induction k generalizing offset with
  | zero => rfl
  | succ k ih => exact ih (offset + p)

/-- Rows that stay in what is mapped. -/
theorem place_pointer {start p : UInt64} {size : UInt32} {k : Nat}
    (hsize : (UInt64.ofNat k * p).toNat + n.toNat ≤ size.toNat)
    (hstart : start.toNat + (UInt64.ofNat k * p).toNat < 2 ^ 64) :
    ((Pointer.add p)^[k] (b.pointer start size)).place n =
      some (b.space, (start + UInt64.ofNat k * p).toNat) := by
  unfold BufferData.pointer BufferData.space
  cases b.usesHostPtr with
  | true => simp only [if_true, iterate_pointer_host, Pointer.place]
  | false =>
    simp only [Bool.false_eq_true, if_false, Pointer.map, iterate_pointer_mapped, Pointer.place,
      UInt64.zero_add]
    rw [if_pos hsize, toNat_add_of_lt hstart]

theorem place_start {start : UInt64} {size : UInt32} (hsize : n.toNat ≤ size.toNat) :
    (b.pointer start size).place n = some (b.space, start.toNat) := by
  unfold BufferData.pointer BufferData.space
  cases b.usesHostPtr with
  | true => rfl
  | false =>
    simp only [Bool.false_eq_true, if_false, Pointer.map, Pointer.place, UInt64.toNat_zero,
      Nat.zero_add, Nat.add_zero]
    rw [if_pos hsize]

theorem copyTo_eq {dst src : Pointer} {p q : Space × Nat} (hdst : dst.place n = some p)
    (hsrc : src.place n = some q) : dst.copyTo src n d = some (copy d p q n.toNat) := by
  unfold Pointer.copyTo
  rw [hdst, hsrc]

theorem toUInt32_toNat_of_le (h : n.toNat ≤ 1073741824) : n.toUInt32.toNat = n.toNat := by
  rw [UInt64.toNat_toUInt32]
  omega

end Addresses

/-! ## Linear transfers -/

section Linear

variable {offset cb ptr srcOffset dstOffset : UInt64} {write same : Bool}

/-- A range that its constructor accepts. -/
theorem inside_of_construct {c : LinearCommand} {r : Runtime.Range}
    (h : c.construct queue = pure ()) (hr : r ∈ c.ranges)
    (hw : r.offset.toNat + r.cb.toNat < 2 ^ 64) : r.Inside := by
  have hcheck := ((c.construct_eq_pure queue).mp h).2 r hr
  exact r.inside_iff.mpr ⟨hcheck, by unfold Range.Wraps; omega⟩

theorem block_zero {a : Nat} {p : Space × Nat} : Block (At stores) 0 a p :=
  fun _ hi => absurd hi (Nat.not_lt_zero _)

theorem read_write_agree (hone : OneToOne (At stores)) (hb : b.Placed stores)
    (hptr : HostRange stores ptr.toNat cb.toNat)
    (hin : offset.toNat + cb.toNat ≤ b.object.size.toNat)
    (halike : b.usesHostPtr = true → offset = 0 ∨ cb = 0) :
    (BufferEvent.readWriteBuffer write b offset cb ptr).WorkersAgree stores := by
  intro m d hsame
  cases huse : b.usesHostPtr with
  | true =>
    have hdata : Block (At stores) cb.toNat (b.cpuData + offset).toNat
        (.host, b.hostPtr.toNat) := by
      rcases halike huse with rfl | rfl
      · rw [UInt64.add_zero]
        rw [UInt64.toNat_zero, Nat.zero_add] at hin
        exact start_block hb huse hin
      · exact block_zero
    cases write with
    | true => exact ⟨_, by simp only [dspWorker, huse, if_true], same_copy hone hdata hptr hsame⟩
    | false =>
      refine ⟨_, ?_, same_copy hone hptr hdata hsame⟩
      simp only [dspWorker, huse, if_true, Bool.false_eq_true, if_false]
  | false =>
    have hblock := hb.block hin
    have hcb : cb.toUInt32.toNat = cb.toNat :=
      toUInt32_toNat_of_le (by have hsize := hb.size; omega)
    simp only [BufferData.space, BufferData.start, huse, Bool.false_eq_true, if_false] at hblock
    cases write with
    | true =>
      refine ⟨driverWrite (b.dspData + offset) ptr cb.toUInt32 d, ?_, ?_⟩
      · simp only [dspWorker, huse, Bool.false_eq_true, if_false, if_true]
      · unfold driverWrite
        rw [hcb]
        exact same_copy hone hblock hptr hsame
    | false =>
      refine ⟨driverRead (b.dspData + offset) ptr cb.toUInt32 d, ?_, ?_⟩
      · simp only [dspWorker, huse, Bool.false_eq_true, if_false]
      · unfold driverRead
        rw [hcb]
        exact same_copy hone hptr hblock hsame

theorem copy_agree (hone : OneToOne (At stores)) (hs : source.Placed stores)
    (hd : destination.Placed stores)
    (hsrc : srcOffset.toNat + cb.toNat ≤ source.object.size.toNat)
    (hdst : dstOffset.toNat + cb.toNat ≤ destination.object.size.toNat) :
    (BufferEvent.copyBuffer source destination same srcOffset dstOffset cb).WorkersAgree
      stores := by
  intro m d hsame
  have hcb : cb.toUInt32.toNat = cb.toNat :=
    toUInt32_toNat_of_le (by have hsize := hs.size; omega)
  have hplace := Nat.le_of_eq hcb.symm
  exact ⟨_, copyTo_eq (place_start hplace) (place_start hplace),
    same_copy hone (hd.block hdst) (hs.block hsrc) hsame⟩

end Linear

/-! ## Rectangular transfers -/

section Rectangles

variable {r : Rect} {args : RectArgs} {write same : Bool} {ptr : UInt64} {s : Side}
  {region : Vec3} {size : UInt64}

/-- The constructor's tests, for a side in a buffer of the usual size. -/
structure Roomy (s : Side) (region : Vec3) (size : UInt64) : Prop where
  inside : s.Inside region size
  width : 0 < region.x.toNat
  size : size.toNat ≤ 1073741824

/-- A row of a side, from the start of the buffer on. -/
theorem Roomy.row (h : Roomy s region size) {y z : Nat} (hy : y < region.y.toNat)
    (hz : z < region.z.toNat) :
    (s.row (UInt64.ofNat y) (UInt64.ofNat z)).toNat + region.x.toNat ≤ size.toNat := by
  have hy' := RectCommand.toNat_ofNat_of_lt_toNat hy
  have hz' := RectCommand.toNat_ofNat_of_lt_toNat hz
  have hylt : UInt64.ofNat y < region.y := UInt64.lt_iff_toNat_lt.mpr (by rw [hy']; exact hy)
  have hzlt : UInt64.ofNat z < region.z := UInt64.lt_iff_toNat_lt.mpr (by rw [hz']; exact hz)
  have hwidth := h.width
  have hlast : (region.x - 1).toNat = region.x.toNat - 1 :=
    UInt64.toNat_sub_of_le _ _ (UInt64.le_iff_toNat_le.mpr hwidth)
  obtain ⟨hfirst, -⟩ := toNat_row_add h.inside (x := 0)
    (UInt64.lt_iff_toNat_lt.mpr hwidth) hylt hzlt
  obtain ⟨hend, hlt⟩ := toNat_row_add h.inside (x := region.x - 1)
    (UInt64.lt_iff_toNat_lt.mpr (by omega)) hylt hzlt
  rw [UInt64.add_zero] at hfirst
  unfold position at hfirst hend
  rw [UInt64.toNat_zero] at hfirst
  omega

/-- The cursors of the DSP worker reach the row that `imageData` computes. -/
theorem cursor_eq_row (s : Side) (a : UInt64) (y z : Nat) :
    (· + s.rowPitch)^[y] ((· + s.slicePitch)^[z] (a + Side.offset s)) =
      a + s.row (UInt64.ofNat y) (UInt64.ofNat z) := by
  rw [iterate_add, iterate_add]
  unfold Side.offset Side.row imageData
  grind

theorem read_write_rect_agree (hone : OneToOne (At stores)) (hb : b.Placed stores)
    (hroom : Roomy r.src r.region b.object.size)
    (hhost : ∀ y < r.region.y.toNat, ∀ z < r.region.z.toNat,
      HostRange stores (ptr + r.dst.row (UInt64.ofNat y) (UInt64.ofNat z)).toNat
        r.region.x.toNat) :
    (BufferEvent.readWriteBufferRect write b args ptr r).WorkersAgree stores := by
  intro m d hsame
  change ∃ d', dspReadWriteRect write b ptr r d = some d' ∧ _
  have hbuf : ∀ y < r.region.y.toNat, ∀ z < r.region.z.toNat,
      Block (At stores) r.region.x.toNat
        (b.cpuData + r.src.row (UInt64.ofNat y) (UInt64.ofNat z)).toNat
        (b.space, (b.start (r.src.row (UInt64.ofNat y) (UInt64.ofNat z))).toNat) :=
    fun y hy z hz => hb.block (hroom.row hy hz)
  have hx : ∀ y < r.region.y.toNat, ∀ z < r.region.z.toNat,
      r.region.x.toUInt32.toNat = r.region.x.toNat := by
    intro y hy z hz
    have hrow := hroom.row hy hz
    have hsize := hroom.size
    exact toUInt32_toNat_of_le (by omega)
  unfold BufferData.space at hbuf
  cases write with
  | true =>
    simp only [dspReadWriteRect, if_true]
    refine sweep_same (R := Same (At stores)) (fun z hz m d hsame => ?_) hsame
    refine sweep_same (R := Same (At stores)) (fun y hy m d hsame => ?_) hsame
    simp only [cursor_eq_row, BufferData.start, RectCommand.pass, RectCommand.write,
      RectCommand.target, RectCommand.srcOffset, RectCommand.dstOffset, UInt64.add_zero, if_true]
    have hbuf := hbuf y hy z hz
    have hptr := hhost y hy z hz
    cases huse : b.usesHostPtr with
    | true =>
      simp only [BufferData.start, huse, if_true] at hbuf ⊢
      exact ⟨_, rfl, same_copy hone hbuf hptr hsame⟩
    | false =>
      simp only [BufferData.start, huse, Bool.false_eq_true, if_false] at hbuf ⊢
      refine ⟨_, rfl, ?_⟩
      unfold driverWrite
      rw [hx y hy z hz]
      exact same_copy hone hbuf hptr hsame
  | false =>
    simp only [dspReadWriteRect, Bool.false_eq_true, if_false]
    refine sweep_same (R := Same (At stores)) (fun z hz m d hsame => ?_) hsame
    refine sweep_same (R := Same (At stores)) (fun y hy m d hsame => ?_) hsame
    simp only [cursor_eq_row, BufferData.start, RectCommand.pass, RectCommand.write,
      RectCommand.target, RectCommand.srcOffset, RectCommand.dstOffset, UInt64.add_zero,
      Bool.false_eq_true, if_false]
    have hbuf := hbuf y hy z hz
    have hptr := hhost y hy z hz
    cases huse : b.usesHostPtr with
    | true =>
      simp only [BufferData.start, huse, if_true] at hbuf ⊢
      exact ⟨_, rfl, same_copy hone hptr hbuf hsame⟩
    | false =>
      simp only [BufferData.start, huse, Bool.false_eq_true, if_false] at hbuf ⊢
      refine ⟨_, rfl, ?_⟩
      unfold driverRead
      rw [hx y hy z hz]
      exact same_copy hone hptr hbuf hsame

/-- Positions grow by the pitch from row to row. -/
theorem Roomy.row_add (h : Roomy s region size) {y z : Nat} (hy : y < region.y.toNat)
    (hz : z < region.z.toNat) :
    (s.row 0 (UInt64.ofNat z)).toNat + y * s.rowPitch.toNat =
      (s.row (UInt64.ofNat y) (UInt64.ofNat z)).toNat := by
  have hy' := RectCommand.toNat_ofNat_of_lt_toNat hy
  have hz' := RectCommand.toNat_ofNat_of_lt_toNat hz
  have hx : 0 < region.x := UInt64.lt_iff_toNat_lt.mpr h.width
  have hzlt : UInt64.ofNat z < region.z := UInt64.lt_iff_toNat_lt.mpr (by rw [hz']; exact hz)
  have hfirst := (toNat_row_add h.inside (x := 0) (y := 0) hx
    (UInt64.lt_iff_toNat_lt.mpr (by rw [UInt64.toNat_zero]; omega)) hzlt).1
  have hrow := (toNat_row_add h.inside (x := 0) hx
    (UInt64.lt_iff_toNat_lt.mpr (by rw [hy']; exact hy)) hzlt).1
  rw [UInt64.add_zero] at hfirst hrow
  rw [hfirst, hrow, hy']
  unfold position
  rw [UInt64.toNat_zero, Nat.add_zero s.origin.y.toNat, Nat.add_mul s.origin.y.toNat y]
  omega

/-- The part of a slice that is mapped has room for its rows. -/
theorem Roomy.mapped (h : Roomy s region size) {y z : Nat} (hy : y < region.y.toNat)
    (hz : z < region.z.toNat) :
    (UInt64.ofNat y * s.rowPitch).toNat = y * s.rowPitch.toNat ∧
      y * s.rowPitch.toNat + region.x.toNat ≤
        (region.y * s.rowPitch - s.origin.x).toUInt32.toNat := by
  obtain ⟨hx, harea, htotal⟩ := h.inside
  have hsize := h.size
  have hslice : s.slicePitch.toNat ≤ (s.origin.z.toNat + region.z.toNat) * s.slicePitch.toNat :=
    Nat.le_mul_of_pos_left _ (by omega)
  have hrows : region.y.toNat * s.rowPitch.toNat ≤
      (s.origin.y.toNat + region.y.toNat) * s.rowPitch.toNat :=
    Nat.mul_le_mul_right _ (Nat.le_add_left _ _)
  have hnext : (y + 1) * s.rowPitch.toNat ≤ region.y.toNat * s.rowPitch.toNat :=
    Nat.mul_le_mul_right _ hy
  rw [Nat.add_mul, Nat.one_mul] at hnext
  have hprod : (region.y * s.rowPitch).toNat = region.y.toNat * s.rowPitch.toNat :=
    toNat_mul_of_lt (by omega)
  have hsub : (region.y * s.rowPitch - s.origin.x).toNat =
      region.y.toNat * s.rowPitch.toNat - s.origin.x.toNat := by
    rw [UInt64.toNat_sub_of_le _ _ (UInt64.le_iff_toNat_le.mpr (by omega)), hprod]
  have hy' := RectCommand.toNat_ofNat_of_lt_toNat hy
  constructor
  · rw [toNat_mul_of_lt (by rw [hy']; omega), hy']
  · rw [toUInt32_toNat_of_le (by omega), hsub]
    omega

/-- The start of a block in a buffer does not wrap around. -/
theorem BufferData.Placed.start_add (h : b.Placed stores) (ho : o.toNat < b.object.size.toNat) :
    (b.start o).toNat = (b.start 0).toNat + o.toNat ∧
      (b.start 0).toNat + b.object.size.toNat ≤ 2 ^ 64 := by
  unfold BufferData.start
  rw [UInt64.add_zero]
  cases huse : b.usesHostPtr with
  | true =>
    have hcpu := h.cpu
    rw [if_pos rfl, (h.host huse).1]
    exact ⟨toNat_add_of_lt (by omega), hcpu⟩
  | false =>
    have hdsp := (h.device huse).1
    rw [if_neg (by simp)]
    exact ⟨toNat_add_of_lt (by omega), hdsp⟩

/-- The row of a mapped slice is the one that the CPU worker computes. -/
theorem place_row (hb : b.Placed stores) (hroom : Roomy s region b.object.size) {y z : Nat}
    (hy : y < region.y.toNat) (hz : z < region.z.toNat) :
    ((Pointer.add s.rowPitch)^[y] (b.pointer ((· + s.slicePitch)^[z] (b.start (Side.offset s)))
      (region.y * s.rowPitch - s.origin.x).toUInt32)).place region.x =
      some (b.space, (b.start (s.row (UInt64.ofNat y) (UInt64.ofNat z))).toNat) := by
  obtain ⟨hpitch, hmapped⟩ := hroom.mapped hy hz
  have hslice : (· + s.slicePitch)^[z] (b.start (Side.offset s)) =
      b.start (s.row 0 (UInt64.ofNat z)) := cursor_eq_row s _ 0 z
  have hrow : b.start (s.row 0 (UInt64.ofNat z)) + UInt64.ofNat y * s.rowPitch =
      b.start (s.row (UInt64.ofNat y) (UInt64.ofNat z)) := by
    unfold BufferData.start Side.row imageData
    grind
  have hin := hroom.row hy hz
  have hadd := hroom.row_add hy hz
  have hwidth := hroom.width
  obtain ⟨hstart, hend⟩ := hb.start_add (o := s.row 0 (UInt64.ofNat z)) (by omega)
  rw [hslice, place_pointer (by rw [hpitch]; exact hmapped) (by rw [hpitch]; omega), hrow]

theorem copy_rect_agree (hone : OneToOne (At stores)) (hs : source.Placed stores)
    (hd : destination.Placed stores) (hsrc : Roomy r.src r.region source.object.size)
    (hdst : Roomy r.dst r.region destination.object.size) :
    (BufferEvent.copyBufferRect source destination same args r).WorkersAgree stores := by
  intro m d hsame
  change ∃ d', dspCopyRect source destination r d = some d' ∧ _
  unfold dspCopyRect
  refine sweep_same (R := Same (At stores)) (fun z hz m d hsame => ?_) hsame
  refine sweep_same (R := Same (At stores)) (fun y hy m d hsame => ?_) hsame
  have hfrom := place_row hs hsrc hy hz
  have hto := place_row hd hdst hy hz
  refine ⟨_, copyTo_eq hto hfrom, ?_⟩
  simp only [RectCommand.pass, RectCommand.write, RectCommand.target, RectCommand.srcOffset,
    RectCommand.dstOffset, UInt64.add_zero, Bool.false_eq_true, if_false]
  exact same_copy hone (hd.block (hdst.row hy hz)) (hs.block (hsrc.row hy hz)) hsame

end Rectangles

end Shamrock.Dsp
