import Shamrock.Dsp.Agreement

/-!
# Events that both workers handle alike

The DSP worker does not add the offset of a transfer to a host pointer, and it does not fill. Any
other event leaves the same contents.
-/
namespace Shamrock.Dsp

open Shamrock.Runtime Strided Relocation

variable {stores : List Store} {queue : QueueInfo} {b : BufferData} {m : Memory} {d : DspMemory}
  {offset cb ptr pattern patternSize size : UInt64} {write : Bool}

/-- Memory that holds a single one. -/
def marked (a : Nat) : Memory := fun c => if c = a then 1 else 0

theorem marked_self (a : Nat) : marked a a = 1 := if_pos rfl

theorem marked_ne {a c : Nat} (h : c ≠ a) : marked a c = 0 := if_neg h

/-! ## Transfers from the middle of a host buffer -/

section Offsets

/-- A read without its offset finds another byte. -/
theorem read_offset_lost (hone : OneToOne (At stores)) (hb : b.Placed stores)
    (hptr : HostRange stores ptr.toNat cb.toNat)
    (hin : offset.toNat + cb.toNat ≤ b.object.size.toNat) (huse : b.usesHostPtr = true)
    (hoffset : 0 < offset.toNat) (hcb : 0 < cb.toNat) :
    ¬(BufferEvent.readWriteBuffer false b offset cb ptr).WorkersAgree stores := by
  intro hagree
  obtain ⟨hhost, hrange⟩ := hb.host huse
  have hdata := toNat_add_room hb.cpu hin hcb
  obtain ⟨d, hsame⟩ := exists_same hone (marked (b.cpuData + offset).toNat)
  obtain ⟨d', hd', hsame'⟩ := hagree _ d hsame
  have hcell := hsame' _ _ _ (hptr 0 hcb)
  have hbyte := hsame _ _ _ (hrange 0 (by omega))
  simp only [dspWorker, huse, if_true, Bool.false_eq_true, if_false, Option.some.injEq,
    hhost] at hd'
  simp only [cpuWorker, Bool.false_eq_true, if_false, ← hd'] at hcell
  rw [memcpy_inside _ _ _ hcb, copy_inside _ _ _ hcb, ← hbyte, Nat.add_zero, marked_self,
    marked_ne (by omega)] at hcell
  exact absurd hcell (by decide)

/-- A write without its offset changes other bytes. -/
theorem write_offset_lost (hone : OneToOne (At stores)) (hb : b.Placed stores)
    (hin : offset.toNat + cb.toNat ≤ b.object.size.toNat) (huse : b.usesHostPtr = true)
    (hptr : HostRange stores ptr.toNat cb.toNat)
    (hoffset : 0 < offset.toNat) (hcb : 0 < cb.toNat) :
    ¬(BufferEvent.readWriteBuffer true b offset cb ptr).WorkersAgree stores := by
  intro hagree
  obtain ⟨hhost, hrange⟩ := hb.host huse
  have hdata := toNat_add_room hb.cpu hin hcb
  by_cases heq : ptr = b.cpuData
  · -- the last byte that should be written
    obtain ⟨d, hsame⟩ := exists_same hone (marked (ptr.toNat + (cb.toNat - 1)))
    obtain ⟨d', hd', hsame'⟩ := hagree _ d hsame
    have hlast := hrange (offset.toNat + (cb.toNat - 1)) (by omega)
    have hcell := hsame' _ _ _ hlast
    have hbyte := hsame _ _ _ hlast
    simp only [dspWorker, huse, if_true, Option.some.injEq, hhost] at hd'
    simp only [cpuWorker, if_true, ← hd', ← Nat.add_assoc, ← hdata] at hcell
    rw [memcpy_inside _ _ _ (by omega), copy_outside _ _ _ (by dsimp only; omega), marked_self]
      at hcell
    rw [heq, marked_ne (by omega), ← Nat.add_assoc, ← hdata] at hbyte
    rw [← hbyte] at hcell
    exact absurd hcell (by decide)
  · -- the first byte of the buffer, which should be left alone
    have hne : ptr.toNat ≠ b.cpuData.toNat := fun h => heq (UInt64.toNat_inj.mp h)
    obtain ⟨d, hsame⟩ := exists_same hone (marked ptr.toNat)
    obtain ⟨d', hd', hsame'⟩ := hagree _ d hsame
    have hcell := hsame' _ _ _ (hrange 0 (by omega))
    have hbyte := hsame _ _ _ (hptr 0 hcb)
    simp only [dspWorker, huse, if_true, Option.some.injEq, hhost] at hd'
    simp only [cpuWorker, if_true, ← hd'] at hcell
    rw [copy_inside _ _ _ hcb, ← hbyte, memcpy_outside _ _ _ (fun x _ => by omega), Nat.add_zero,
      Nat.add_zero, marked_self, marked_ne (by omega)] at hcell
    exact absurd hcell (by decide)

end Offsets

/-! ## Fills -/

section Fills

/-- The blocks of a fill. -/
def fillRows (dst pattern patternSize size : UInt64) : List (Nat × Nat) :=
  (List.range (fillPasses size patternSize)).map fun i =>
    ((dst + UInt64.ofNat i * patternSize).toNat, pattern.toNat)

theorem cpuFill_eq_copyRows (dst pattern patternSize size : UInt64) (m : Memory) :
    cpuFill dst pattern patternSize size m =
      copyRows patternSize.toNat m (fillRows dst pattern patternSize size) := by
  unfold cpuFill copyRows fillRows
  rw [List.foldl_map]

theorem memcpy_same (m : Memory) (a n : Nat) : memcpy m a a n = m := by
  funext c
  unfold memcpy
  split
  · rw [Nat.add_sub_cancel' (by omega)]
  · rfl

/-- What the constructor has tested about a fill. -/
structure FillFits (dst patternSize size : UInt64) : Prop where
  positive : 0 < patternSize.toNat
  divides : size.toNat % patternSize.toNat = 0
  room : dst.toNat + size.toNat ≤ 2 ^ 64

variable {dst : UInt64} {i : Nat}

theorem FillFits.passes (h : FillFits dst patternSize size) :
    fillPasses size patternSize * patternSize.toNat = size.toNat := by
  obtain ⟨hpos, hdiv, -⟩ := h
  obtain ⟨k, hk⟩ := Nat.dvd_of_mod_eq_zero hdiv
  have hpasses : fillPasses size patternSize = k := by
    unfold fillPasses
    rw [hk, Nat.add_sub_assoc hpos, Nat.mul_add_div hpos, Nat.div_eq_of_lt (by omega), Nat.add_zero]
  rw [hpasses, hk, Nat.mul_comm]

/-- The block of a pass. -/
theorem FillFits.row (h : FillFits dst patternSize size) (hi : i < fillPasses size patternSize) :
    (dst + UInt64.ofNat i * patternSize).toNat = dst.toNat + i * patternSize.toNat := by
  have hpasses := h.passes
  have hroom := h.room
  have hpos := h.positive
  have hnext : (i + 1) * patternSize.toNat ≤ fillPasses size patternSize * patternSize.toNat :=
    Nat.mul_le_mul_right _ hi
  have hile : i * 1 ≤ i * patternSize.toNat := Nat.mul_le_mul_left _ hpos
  rw [Nat.add_mul, Nat.one_mul] at hnext
  have hofNat : (UInt64.ofNat i).toNat = i := UInt64.toNat_ofNat_of_lt' (by
    change i < 2 ^ 64
    omega)
  rw [toNat_add_of_lt, toNat_mul_of_lt, hofNat]
  · rw [hofNat]
    omega
  · rw [toNat_mul_of_lt, hofNat]
    · omega
    · rw [hofNat]
      omega

/-- The first block is overwritten by the first pass only. -/
theorem fill_first (h : FillFits dst patternSize size) (hsize : size ≠ 0) (m : Memory) :
    cpuFill dst pattern patternSize size m dst.toNat = m pattern.toNat := by
  have hpasses := h.passes
  have hpos := h.positive
  have hne : size.toNat ≠ 0 := fun h => hsize (UInt64.toNat_inj.mp h)
  obtain ⟨k, hk⟩ : ∃ k, fillPasses size patternSize = k + 1 :=
    Nat.exists_eq_add_one.mpr (Nat.pos_of_ne_zero fun h => hne (by rw [← hpasses, h, Nat.zero_mul]))
  have hfirst := h.row (i := 0) (by omega)
  rw [Nat.zero_mul, Nat.add_zero] at hfirst
  rw [cpuFill_eq_copyRows, fillRows, hk, List.range_succ_eq_map, List.map_cons, List.map_map]
  change copyRows _ (memcpy m _ _ _) _ _ = _
  rw [copyRows_outside, hfirst]
  · exact memcpy_inside m _ _ hpos
  · intro q hq x hx
    obtain ⟨i, hi, rfl⟩ := List.mem_map.mp hq
    have hrow := h.row (i := i + 1) (by have hlt := List.mem_range.mp hi; omega)
    have hle : 1 * patternSize.toNat ≤ (i + 1) * patternSize.toNat :=
      Nat.mul_le_mul_right _ (by omega)
    dsimp only [Function.comp_apply, Nat.succ_eq_add_one]
    omega

/-- A fill with its own first block copies it to the second. -/
theorem fill_second (h : FillFits dst patternSize size) (hsize : size ≠ 0)
    (hmore : size ≠ patternSize) (m : Memory) :
    cpuFill dst dst patternSize size m (dst.toNat + patternSize.toNat) = m dst.toNat := by
  have hpasses := h.passes
  have hpos := h.positive
  have hne : size.toNat ≠ 0 := fun h => hsize (UInt64.toNat_inj.mp h)
  have hne' : size.toNat ≠ patternSize.toNat := fun h => hmore (UInt64.toNat_inj.mp h)
  obtain ⟨k, hk⟩ : ∃ k, fillPasses size patternSize = k + 2 := by
    match hp : fillPasses size patternSize with
    | 0 => exact absurd (by rw [← hpasses, hp, Nat.zero_mul]) hne
    | 1 => exact absurd (by rw [← hpasses, hp, Nat.one_mul]) hne'
    | k + 2 => exact ⟨k, rfl⟩
  have hfirst := h.row (i := 0) (by omega)
  have hsecond := h.row (i := 1) (by omega)
  rw [Nat.zero_mul, Nat.add_zero] at hfirst
  rw [Nat.one_mul] at hsecond
  rw [cpuFill_eq_copyRows, fillRows, hk, List.range_succ_eq_map, List.map_cons, List.map_map,
    List.range_succ_eq_map, List.map_cons, List.map_map]
  change copyRows _ (memcpy (memcpy m _ _ _) _ _ _) _ _ = _
  rw [copyRows_outside, hfirst, memcpy_same]
  · change memcpy m (dst + UInt64.ofNat 1 * patternSize).toNat _ _ _ = _
    rw [hsecond]
    exact memcpy_inside m _ _ hpos
  · intro q hq x hx
    obtain ⟨i, hi, rfl⟩ := List.mem_map.mp hq
    have hrow := h.row (i := i + 1 + 1) (by have hlt := List.mem_range.mp hi; omega)
    have hle : 2 * patternSize.toNat ≤ (i + 1 + 1) * patternSize.toNat :=
      Nat.mul_le_mul_right _ (by omega)
    dsimp only [Function.comp_apply, Nat.succ_eq_add_one]
    omega

/-- The DSP worker leaves everything as it is. -/
theorem fill_kept (hone : OneToOne (At stores)) (hb : b.Placed stores)
    (hin : offset.toNat + size.toNat ≤ b.object.size.toNat)
    (hagree : (BufferEvent.fillBuffer b pattern patternSize offset size).WorkersAgree stores)
    (m : Memory) {j : Nat} (hj : j < size.toNat) :
    cpuFill (b.cpuData + offset) pattern patternSize size m ((b.cpuData + offset).toNat + j) =
      m ((b.cpuData + offset).toNat + j) := by
  obtain ⟨d, hsame⟩ := exists_same hone m
  obtain ⟨d', hd', hsame'⟩ := hagree m d hsame
  cases hd'
  have hcell := hb.block hin j hj
  exact (hsame' _ _ _ hcell).trans (hsame _ _ _ hcell).symm

theorem fill_agree_iff (hone : OneToOne (At stores)) (hb : b.Placed stores)
    (hin : offset.toNat + size.toNat ≤ b.object.size.toNat)
    (hfits : FillFits (b.cpuData + offset) patternSize size) :
    (BufferEvent.fillBuffer b pattern patternSize offset size).WorkersAgree stores ↔
      (BufferEvent.fillBuffer b pattern patternSize offset size).HandledAlike := by
  constructor
  · intro hagree
    by_cases hsize : size = 0
    · exact .inl hsize
    have hlt : 0 < size.toNat := Nat.pos_of_ne_zero fun h => hsize (UInt64.toNat_inj.mp h)
    have hpattern : pattern = b.cpuData + offset := by
      by_contra hne
      have hbyte := fill_kept hone hb hin hagree (marked pattern.toNat) hlt
      rw [Nat.add_zero, fill_first hfits hsize, marked_self, marked_ne] at hbyte
      · exact absurd hbyte (by decide)
      · exact fun h => hne (UInt64.toNat_inj.mp h).symm
    refine .inr ⟨?_, hpattern⟩
    by_contra hmore
    subst hpattern
    have hpos := hfits.positive
    have hmod := hfits.divides
    have hroom : patternSize.toNat < size.toNat := by
      have hne : size.toNat ≠ patternSize.toNat := fun h => hmore (UInt64.toNat_inj.mp h)
      have hle := Nat.le_of_dvd hlt (Nat.dvd_of_mod_eq_zero hmod)
      omega
    have hbyte := fill_kept hone hb hin hagree (marked (b.cpuData + offset).toNat) hroom
    rw [fill_second hfits hsize hmore, marked_self, marked_ne (by omega)] at hbyte
    exact absurd hbyte (by decide)
  · intro halike m d hsame
    refine ⟨d, rfl, ?_⟩
    have hkept : cpuFill (b.cpuData + offset) pattern patternSize size m = m := by
      rcases halike with rfl | ⟨rfl, rfl⟩
      · have hnone : fillPasses 0 patternSize = 0 := by
          have hpasses := hfits.passes
          rcases Nat.mul_eq_zero.mp hpasses with h | h
          · exact h
          · exact absurd h (Nat.ne_of_gt hfits.positive)
        rw [cpuFill_eq_copyRows, fillRows, hnone]
        rfl
      · have hpass : fillPasses size size = 1 := by
          have hpasses := hfits.passes
          exact Nat.eq_of_mul_eq_mul_right hfits.positive (by rw [hpasses, Nat.one_mul])
        have hrow := hfits.row (i := 0) (by omega)
        rw [Nat.zero_mul, Nat.add_zero] at hrow
        rw [cpuFill_eq_copyRows, fillRows, hpass]
        change memcpy m _ _ _ = m
        dsimp only
        rw [hrow, memcpy_same]
    change Same _ (cpuFill (b.cpuData + offset) pattern patternSize size m) d
    rw [hkept]
    exact hsame

end Fills

/-! ## Every event -/

section Events

theorem fillFits_of_construct (hb : b.Placed stores)
    (hin : offset.toNat + size.toNat ≤ b.object.size.toNat)
    (h : fillBufferEvent queue (some b.object) pattern patternSize offset size = pure ()) :
    FillFits (b.cpuData + offset) patternSize size := by
  simp only [fillBufferEvent, bind_eq_pure, reject_eq_pure, Bool.or_eq_false_iff,
    decide_eq_false_iff_not, Decidable.not_not] at h
  obtain ⟨-, -, -, -, -, ⟨-, hcount⟩, -, hmod⟩ := h
  refine ⟨?_, ?_, ?_⟩
  · refine Nat.pos_of_ne_zero fun h => ?_
    obtain rfl : patternSize = 0 := UInt64.toNat_inj.mp h
    revert hcount
    decide
  · rw [← UInt64.toNat_mod, hmod]
    rfl
  · have hcpu := hb.cpu
    have hle : (b.cpuData + offset).toNat ≤ b.cpuData.toNat + offset.toNat := by
      rw [UInt64.toNat_add]
      exact Nat.mod_le _ _
    omega

/-- The sides of a rectangular event that lie in buffers. -/
theorem roomy_of_construct {c : RectCommand} {r : Rect} (hc : c.construct queue = pure ())
    (hr : c.rect queue = pure r) (hw : c.NoWrap) (hb : c.bytesPerElement = 1) :
    (c.source.size.toNat ≤ 1073741824 → Roomy r.src r.region c.source.size) ∧
      ∀ d ∈ c.destination, d.size.toNat ≤ 1073741824 → Roomy r.dst r.region d.size := by
  obtain ⟨r', region, hr', ha⟩ := RectCommand.accepted_of_construct hc
  cases hr.symm.trans hr'
  obtain ⟨hx, hy, -⟩ := ha.computed.nonzero
  have hregion : r.region = region := by
    rw [ha.computed.region, Vec3.scale, hb, UInt64.mul_one]
  have hxpos : 0 < r.region.x := UInt64.pos_iff_ne_zero.mpr (hregion ▸ hx)
  have hypos : 0 < r.region.y := UInt64.pos_iff_ne_zero.mpr (hregion ▸ hy)
  have hwidth : 0 < r.region.x.toNat := UInt64.lt_iff_toNat_lt.mp hxpos
  exact ⟨fun hsize => ⟨RectCommand.inside_source ha hw hxpos hypos, hwidth, hsize⟩,
    fun d hd hsize => ⟨RectCommand.inside_destination ha hw hd hxpos hypos, hwidth, hsize⟩⟩

/-- Both workers leave the same contents, except where the offset of a host buffer or a fill is
lost. -/
theorem workers_agree_iff (hstores : stores.Pairwise Store.Apart) {e : BufferEvent}
    (h : e.Ready stores queue) : e.WorkersAgree stores ↔ e.HandledAlike := by
  have hone := oneToOne_at hstores
  obtain ⟨hc, hw, hm⟩ := h
  cases e with
  | readWriteBuffer write buffer offset cb ptr =>
    obtain ⟨hb, hptr⟩ := hm
    have hin : offset.toNat + cb.toNat ≤ buffer.object.size.toNat :=
      inside_of_construct hc List.mem_cons_self hw
    refine ⟨fun hagree huse => ?_, fun halike => read_write_agree hone hb hptr hin halike⟩
    by_contra hnot
    rw [not_or] at hnot
    have hoffset : 0 < offset.toNat :=
      Nat.pos_of_ne_zero fun h => hnot.1 (UInt64.toNat_inj.mp h)
    have hcb : 0 < cb.toNat := Nat.pos_of_ne_zero fun h => hnot.2 (UInt64.toNat_inj.mp h)
    cases write with
    | true => exact write_offset_lost hone hb hin huse hptr hoffset hcb hagree
    | false => exact read_offset_lost hone hb hptr hin huse hoffset hcb hagree
  | copyBuffer source destination same srcOffset dstOffset cb =>
    obtain ⟨hs, hd⟩ := hm
    refine ⟨fun _ => trivial, fun _ => copy_agree hone hs hd ?_ ?_⟩
    · exact inside_of_construct hc List.mem_cons_self hw.1
    · exact inside_of_construct hc (List.mem_cons_of_mem _ List.mem_cons_self) hw.2
  | fillBuffer buffer pattern patternSize offset size =>
    have hin : offset.toNat + size.toNat ≤ buffer.object.size.toNat :=
      inside_of_construct hc List.mem_cons_self hw
    exact fill_agree_iff hone hm hin (fillFits_of_construct hm hin hc)
  | readWriteBufferRect write buffer args ptr r =>
    obtain ⟨hb, hhost⟩ := hm
    obtain ⟨hsrc, -⟩ := roomy_of_construct hc.1 hc.2 hw rfl
    exact ⟨fun _ => trivial, fun _ => read_write_rect_agree hone hb (hsrc hb.size) hhost⟩
  | copyBufferRect source destination same args r =>
    obtain ⟨hs, hd⟩ := hm
    obtain ⟨hsrc, hdst⟩ := roomy_of_construct hc.1 hc.2 hw rfl
    exact ⟨fun _ => trivial,
      fun _ => copy_rect_agree hone hs hd (hsrc hs.size) (hdst _ rfl hd.size)⟩

/-- Sixteen bytes in a memory of their own. -/
def ownBuffer : BufferData := ⟨LinearCommand.smallBuffer, 0, 65536, 2147483648⟩

def ownStore : Store := ⟨65536, 2147483648, 16⟩

theorem ownBuffer_placed : ownBuffer.Placed [ownStore] where
  size := by decide
  cpu := by decide
  host h := absurd h (by decide)
  device _ := by
    refine ⟨by decide, fun i hi => ⟨ownStore, List.mem_cons_self, i, ?_, rfl, rfl⟩⟩
    exact hi

/-- Eight bytes from the middle of it. -/
theorem own_read_agrees :
    (BufferEvent.readWriteBuffer false ownBuffer 4 8 4096).WorkersAgree [ownStore] := by
  have hready : (BufferEvent.readWriteBuffer false ownBuffer 4 8 4096).Ready [ownStore]
      LinearCommand.smallQueue := by
    refine ⟨rfl, by unfold BufferEvent.NoWrap; decide, ownBuffer_placed, fun i hi => ⟨rfl, ?_⟩⟩
    intro s hs
    obtain rfl := List.mem_singleton.mp hs
    change i < 8 at hi
    change 4096 + i < 65536 ∨ _
    omega
  refine (workers_agree_iff (List.pairwise_singleton _ _) hready).mpr ?_
  intro huse
  exact absurd huse (by decide)

/-- The same buffer in the memory of the application. -/
def hostBuffer : BufferData := ⟨{ LinearCommand.smallBuffer with flags := 9 }, 8192, 8192, 8192⟩

theorem hostBuffer_placed : hostBuffer.Placed [] where
  size := by decide
  cpu := by decide
  host _ := ⟨rfl, fun _ _ => ⟨rfl, nofun⟩⟩
  device h := absurd h (by decide)

/-- The second half of it is asked for, and the DSP worker reads the first. -/
theorem host_read_offset_lost : ¬∀ (stores : List Store) (queue : QueueInfo) (e : BufferEvent),
    stores.Pairwise Store.Apart → e.Ready stores queue → e.WorkersAgree stores := by
  intro h
  have hptr : HostRange [] (4096 : UInt64).toNat (8 : UInt64).toNat := fun _ _ => ⟨rfl, nofun⟩
  have hready : (BufferEvent.readWriteBuffer false hostBuffer 8 8 4096).Ready []
      LinearCommand.smallQueue :=
    ⟨rfl, by unfold BufferEvent.NoWrap; decide, hostBuffer_placed, hptr⟩
  exact read_offset_lost (oneToOne_at .nil) hostBuffer_placed hptr (by decide) (by decide)
    (by decide) (by decide) (h [] _ _ .nil hready)

end Events

end Shamrock.Dsp
