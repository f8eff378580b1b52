import Shamrock.Dsp.DmaWrite

/-!
# The transfers of a DMA write

The queue holds the last transfers, at most three when a staging buffer is filled again: the
transfer that used the buffer before is the fourth last, and has been waited for.
-/
namespace Shamrock.Dsp

open Transition DmaWrite

variable {w : DmaWrite} {device : UInt32 → UInt8} {s s' : DmaState} {i : Nat}

/-! ## Sizes and offsets in 32 bits -/

section Sizes

theorem bufferSize_toNat : hostCmemBufferSize.toNat = 0x400000 := rfl

theorem one_toNat : (1 : UInt32).toNat = 1 := rfl

theorem index_toNat (hmax : i < 2 ^ 32) : i.toUInt32.toNat = i := Nat.mod_eq_of_lt hmax

/-- The size of chunk `i`. -/
def DmaWrite.chunkSize (w : DmaWrite) (i : Nat) : Nat :=
  Chunks.size w.size.toNat hostCmemBufferSize.toNat i

theorem bufferSize_pos : 0 < hostCmemBufferSize.toNat := by decide

theorem totBuffers_toNat (hmax : w.size.toNat ≤ 2 ^ 30) :
    w.totBuffers.toNat = Chunks.count w.size.toNat hostCmemBufferSize.toNat := by
  have hsum : (w.size + hostCmemBufferSize - 1).toNat = w.size.toNat + 0x400000 - 1 := by
    rw [UInt32.toNat_sub, UInt32.toNat_add, bufferSize_toNat, one_toNat]
    omega
  rw [totBuffers, ceilDivide, UInt32.toNat_div, hsum, Chunks.count, bufferSize_toNat]

theorem lt_totBuffers_iff (hmax : w.size.toNat ≤ 2 ^ 30) :
    i < w.totBuffers.toNat ↔ i * 0x400000 < w.size.toNat := by
  rw [totBuffers_toNat hmax]
  exact Chunks.lt_count_iff bufferSize_pos

theorem totBuffers_pos (hpos : 1 ≤ w.size.toNat) (hmax : w.size.toNat ≤ 2 ^ 30) :
    1 ≤ w.totBuffers.toNat :=
  (lt_totBuffers_iff hmax).mpr (by omega)

theorem isLast_iff (hpos : 1 ≤ w.size.toNat) (hmax : w.size.toNat ≤ 2 ^ 30)
    (hi : i < w.totBuffers.toNat) :
    i.toUInt32 = w.totBuffers - 1 ↔ i + 1 = w.totBuffers.toNat := by
  have htot := totBuffers_pos hpos hmax
  have hle : (1 : UInt32) ≤ w.totBuffers := UInt32.le_iff_toNat_le.mpr htot
  have hbound := w.totBuffers.toNat_lt
  rw [← UInt32.toNat_inj, UInt32.toNat_sub_of_le _ _ hle, index_toNat (by omega), one_toNat]
  omega

theorem lastBufferSize_toNat (hpos : 1 ≤ w.size.toNat) (hmax : w.size.toNat ≤ 2 ^ 30)
    (hlast : i + 1 = w.totBuffers.toNat) : w.lastBufferSize.toNat = w.chunkSize i := by
  have hstart := (lt_totBuffers_iff (i := i) hmax).mp (by omega)
  have hle : (1 : UInt32) ≤ w.totBuffers :=
    UInt32.le_iff_toNat_le.mpr (totBuffers_pos hpos hmax)
  have hmul : ((w.totBuffers - 1) * hostCmemBufferSize).toNat = i * 0x400000 := by
    rw [UInt32.toNat_mul, UInt32.toNat_sub_of_le _ _ hle, bufferSize_toNat, one_toNat, ← hlast,
      Nat.add_sub_cancel]
    omega
  rw [lastBufferSize, UInt32.toNat_sub_of_le _ _ (UInt32.le_iff_toNat_le.mpr (by omega)), hmul,
    chunkSize, Chunks.size, if_pos (by rw [hlast, totBuffers_toNat hmax]), bufferSize_toNat]

theorem chunkSize_of_not_last (hmax : w.size.toNat ≤ 2 ^ 30)
    (hlast : i + 1 ≠ w.totBuffers.toNat) : w.chunkSize i = hostCmemBufferSize.toNat := by
  rw [totBuffers_toNat hmax] at hlast
  rw [chunkSize, Chunks.size, if_neg hlast]

theorem toUInt32_toNat (n : Nat) : n.toUInt32.toNat = n % 2 ^ 32 := rfl

theorem offset_toUInt32 (i : Nat) :
    (offset i).toUInt32 = (i * hostCmemBufferSize.toNat).toUInt32 := by
  rw [offset, UInt32.toUInt32_toInt32]
  apply UInt32.toNat_inj.mp
  rw [UInt32.toNat_mul, toUInt32_toNat, toUInt32_toNat, Nat.mod_mul_mod]

theorem toInt_toInt32 (x : UInt32) (hx : x.toNat < 2 ^ 31) : x.toInt32.toInt = x.toNat := by
  have hsigned : x.toInt32.toInt = x.toBitVec.toInt := rfl
  have hnat : x.toBitVec.toNat = x.toNat := UInt32.toNat_toBitVec x
  rw [hsigned, BitVec.toInt_eq_toNat_of_lt (by omega), hnat]

theorem offset_toInt (hmax : w.size.toNat ≤ 2 ^ 30) (hi : i < w.totBuffers.toNat) :
    (offset i).toInt = (i * hostCmemBufferSize.toNat : Nat) := by
  have hstart := (lt_totBuffers_iff hmax).mp hi
  have hnat : (i.toUInt32 * hostCmemBufferSize).toNat = i * hostCmemBufferSize.toNat := by
    rw [UInt32.toNat_mul, toUInt32_toNat, Nat.mod_mul_mod, bufferSize_toNat]
    omega
  rw [offset, toInt_toInt32, hnat]
  rw [hnat, bufferSize_toNat]
  omega

end Sizes

/-! ## What each step of the host leaves -/

/-- How many transfers have been initiated, how many numbers have left the queue, how many
transfers have been waited for, how many buffers have been got and given back, and whether the size
of the last chunk has been set. -/
structure DmaCounts where
  started : Nat
  left : Nat
  settled : Nat
  got : Nat
  freed : Nat
  lastCopied : Bool

def DmaPc.counts (w : DmaWrite) : DmaPc → DmaCounts
  | .bufmgrAlloc i => ⟨0, 0, 0, i, 0, false⟩
  | .memcpy i => ⟨i, i - 3, i - 3, w.circBuffers, 0, i = w.totBuffers.toNat⟩
  | .initiate i => ⟨i, i - 3, i - 3, w.circBuffers, 0, i + 1 = w.totBuffers.toNat⟩
  | .check i => ⟨i + 1, i - 3, i - 3, w.circBuffers, 0, i + 1 = w.totBuffers.toNat⟩
  | .checkLast i => ⟨w.totBuffers.toNat, w.totBuffers.toNat - 3, w.totBuffers.toNat - 3 + i,
      w.circBuffers, 0, true⟩
  | .bufmgrFreeDesc i => ⟨w.totBuffers.toNat, w.totBuffers.toNat - 3, w.totBuffers.toNat,
      w.circBuffers, i, true⟩
  | .returned => ⟨w.totBuffers.toNat, w.totBuffers.toNat - 3, w.totBuffers.toNat,
      w.circBuffers, w.circBuffers, true⟩
  | .exited | .fault => ⟨0, 0, 0, 0, 0, false⟩

/-- The queue has four numbers when the host waits for the first of them. -/
def DmaPc.InBounds (w : DmaWrite) : DmaPc → Prop
  | .bufmgrAlloc i | .bufmgrFreeDesc i => i ≤ w.circBuffers
  | .memcpy i => i ≤ w.totBuffers.toNat
  | .initiate i => i < w.totBuffers.toNat
  | .check i => 3 ≤ i ∧ i < w.totBuffers.toNat
  | .checkLast _ | .returned | .exited => True
  | .fault => False

def DmaState.userAddrs (s : DmaState) : List Nat := s.frames.map HostFrame.userAddr

/-- What the counts say about the state. -/
structure DmaBooks (w : DmaWrite) (c : DmaCounts) (s : DmaState) : Prop where
  got : s.frames.length = c.got
  nodup : s.userAddrs.Nodup
  held : s.held = s.userAddrs.drop c.freed
  lengths : ∀ f ∈ s.frames, f.length = hostCmemBufferSize
  sizes : ∀ m f, s.frames[m]? = some f → f.frameSize =
    if c.lastCopied ∧ m = (w.totBuffers.toNat - 1) % simulDmas then w.lastBufferSize
    else hostCmemBufferSize
  started : s.transfers.length = c.started
  buffers : ∀ n t, s.transfers[n]? = some t → s.userAddrs[n % simulDmas]? = some t.userAddr
  queue : s.dmaIds = (s.transfers.map DmaTransfer.transId).drop c.left
  settled : ∀ n t, s.transfers[n]? = some t → n < c.settled → t.complete = true

/-- The byte of the host at position `k` of chunk `n`. -/
def DmaWrite.byte (w : DmaWrite) (n k : Nat) : UInt8 :=
  w.buf (n * hostCmemBufferSize.toNat + k : Nat)

/-- Transfer `n` reads chunk `n`, also while other buffers are filled. -/
structure DmaSent (w : DmaWrite) (staging : Nat → Nat → UInt8) (device : UInt32 → UInt8) (n : Nat)
    (t : DmaTransfer) : Prop where
  lt : n < w.totBuffers.toNat
  addr : t.addr = w.addr + (n * hostCmemBufferSize.toNat).toUInt32
  size : t.frameSize.toNat = w.chunkSize n
  moved : ∀ k ∈ t.moved, k < w.chunkSize n ∧ device (t.addr + k.toUInt32) = w.byte n k
  complete : t.complete = true → ∀ k < w.chunkSize n, k ∈ t.moved
  source : t.complete = false → ∀ k < w.chunkSize n, staging t.userAddr k = w.byte n k

structure DmaInv (w : DmaWrite) (device : UInt32 → UInt8) (s : DmaState) : Prop where
  inBounds : s.pc.InBounds w
  books : s.pc ≠ .exited → DmaBooks w (s.pc.counts w) s
  sent : ∀ n t, s.transfers[n]? = some t → DmaSent w s.staging s.device n t
  outside : ∀ x, ¬ w.Covers x → s.device x = device x
  filled : ∀ i f, s.pc = .initiate i → s.frames[i % simulDmas]? = some f →
    ∀ k < w.chunkSize i, s.staging f.userAddr k = w.byte i k

section Steps

variable {n m : Nat} {t : DmaTransfer} {f : HostFrame} {c : DmaCounts}

/-- A step that copies nothing and initiates nothing. -/
theorem DmaInv.keep {pc : DmaPc} {frames : List HostFrame} {dmaIds : List UInt32} {held : List Nat}
    (hinv : DmaInv w device s) (hin : pc.InBounds w) (hpc : ∀ m, pc ≠ .initiate m)
    (hbooks : pc ≠ .exited → DmaBooks w (pc.counts w)
      { s with pc := pc, frames := frames, dmaIds := dmaIds, held := held }) :
    DmaInv w device { s with pc := pc, frames := frames, dmaIds := dmaIds, held := held } where
  inBounds := hin
  books := hbooks
  sent := hinv.sent
  outside := hinv.outside
  filled m _ hm := absurd hm (hpc m)

theorem userAddrs_get (hf : s.frames[m]? = some f) : s.userAddrs[m]? = some f.userAddr := by
  rw [DmaState.userAddrs, List.getElem?_map, hf]
  rfl

theorem map_set_same {α β : Type} {l : List α} {g : α → β} {x y : α} (hx : l[n]? = some x)
    (hg : g y = g x) : (l.set n y).map g = l.map g := by
  apply List.ext_getElem?
  intro k
  rw [List.getElem?_map, List.getElem?_map, List.getElem?_set]
  split_ifs with hk hlt
  · obtain rfl := hk
    rw [hx, Option.map_some, Option.map_some, hg]
  · obtain rfl := hk
    rw [List.getElem?_eq_none (by omega)]
  · rfl

/-- Before the last chunk is copied all frames have the full size. -/
theorem DmaBooks.fullSize (hb : DmaBooks w c s) (hc : c.lastCopied = false)
    (hf : s.frames[m]? = some f) : f.frameSize = hostCmemBufferSize := by
  have hsize := hb.sizes m f hf
  rw [if_neg fun hboth => Bool.false_ne_true (hc.symm.trans hboth.1)] at hsize
  exact hsize

theorem alloc_inv {userAddr : Nat} (hinv : DmaInv w device s) (hpc : s.pc = .bufmgrAlloc i)
    (hi : i < w.circBuffers) (hfree : userAddr ∉ s.held) :
    DmaInv w device (s.bufmgrAlloc i userAddr) := by
  have hb : DmaBooks w ⟨0, 0, 0, i, 0, false⟩ s := by
    have hb := hinv.books (by rw [hpc]; nofun)
    rw [hpc] at hb
    exact hb
  let f : HostFrame := ⟨userAddr, hostCmemBufferSize, hostCmemBufferSize⟩
  have haddrs : (s.frames ++ [f]).map HostFrame.userAddr = s.userAddrs ++ [userAddr] :=
    List.map_append
  refine hinv.keep hi nofun fun _ => ?_
  unfold DmaPc.counts
  have hheld : s.held = s.userAddrs := hb.held
  refine ⟨?_, ?_, ?_, ?_, ?_, hb.started, ?_, hb.queue, hb.settled⟩
  · have hgot : s.frames.length = i := hb.got
    rw [List.length_append, hgot, List.length_singleton]
  · rw [DmaState.userAddrs, haddrs]
    rw [hheld] at hfree
    exact List.nodup_append.mpr ⟨hb.nodup, List.nodup_singleton userAddr, by
      rintro a ha b hb rfl
      obtain rfl := List.mem_singleton.mp hb
      exact hfree ha⟩
  · dsimp only
    rw [DmaState.userAddrs, haddrs, List.drop_zero, ← hheld]
  · intro f hf
    rcases List.mem_append.mp hf with hf | hf
    · exact hb.lengths f hf
    · rw [List.mem_singleton.mp hf]
  · intro m f hf
    rw [if_neg fun hboth => Bool.false_ne_true hboth.1]
    rcases List.mem_append.mp (List.mem_of_getElem? hf) with hf | hf
    · obtain ⟨m, hm⟩ := List.mem_iff_getElem?.mp hf
      exact hb.fullSize rfl hm
    · rw [List.mem_singleton.mp hf]
  · intro n t ht
    have hnone : s.transfers = [] := List.eq_nil_of_length_eq_zero hb.started
    rw [hnone] at ht
    cases ht

/-- No transfer in flight reads the buffer that is filled next: it is one of the last three. -/
theorem DmaBooks.idle {b : Bool} (hb : DmaBooks w ⟨i, i - 3, i - 3, w.circBuffers, 0, b⟩ s)
    (hf : s.frames[i % simulDmas]? = some f) (ht : s.transfers[n]? = some t)
    (hflight : t.complete = false) : t.userAddr ≠ f.userAddr := by
  intro hsame
  have hn : n < i := by
    have hlen : s.transfers.length = i := hb.started
    rw [← hlen]
    exact (List.getElem?_eq_some_iff.mp ht).1
  have hlate : i - 3 ≤ n := by
    by_contra hearly
    rw [hb.settled n t ht (by dsimp only; omega)] at hflight
    cases hflight
  have haddr := hb.buffers n t ht
  rw [hsame, ← userAddrs_get hf] at haddr
  have hlt : n % simulDmas < s.userAddrs.length := by
    by_contra hge
    rw [List.getElem?_eq_none (by omega), userAddrs_get hf] at haddr
    cases haddr
  have hmod := (List.getElem?_inj hlt hb.nodup).mp haddr
  unfold simulDmas at hmod
  omega

/-- There is a buffer for every chunk. -/
theorem DmaBooks.frame {a l z : Nat} {b : Bool} (hi : i < w.totBuffers.toNat)
    (hb : DmaBooks w ⟨a, l, z, w.circBuffers, 0, b⟩ s) :
    ∃ f, s.frames[i % simulDmas]? = some f := by
  have hlt : i % simulDmas < s.frames.length := by
    rw [hb.got]
    unfold circBuffers simulDmas
    dsimp only
    omega
  exact ⟨_, List.getElem?_eq_getElem hlt⟩

/-- Only the frame of the last chunk changes its size. -/
theorem copied_sizes {a l z : Nat} (hb : DmaBooks w ⟨a, l, z, w.circBuffers, 0, false⟩ s) (m : Nat)
    (g : HostFrame)
    (hg : (if i + 1 = w.totBuffers.toNat then
      s.frames.set (i % simulDmas) { f with frameSize := w.lastBufferSize } else s.frames)[m]? =
        some g) :
    g.frameSize = if decide (i + 1 = w.totBuffers.toNat) ∧
      m = (w.totBuffers.toNat - 1) % simulDmas then w.lastBufferSize else hostCmemBufferSize := by
  by_cases hlast : i + 1 = w.totBuffers.toNat
  · rw [if_pos hlast, List.getElem?_set] at hg
    have hi : w.totBuffers.toNat - 1 = i := by omega
    rw [hi]
    by_cases hm : i % simulDmas = m
    · rw [if_pos hm] at hg
      rw [if_pos ⟨decide_eq_true hlast, hm.symm⟩]
      split_ifs at hg
      obtain rfl := Option.some.inj hg
      rfl
    · rw [if_neg hm] at hg
      rw [if_neg fun hboth => hm hboth.2.symm]
      exact hb.fullSize rfl hg
  · rw [if_neg hlast] at hg
    rw [if_neg fun hboth => hlast (of_decide_eq_true hboth.1)]
    exact hb.fullSize rfl hg

/-- A chunk that is left to copy. -/
theorem memcpy_books (hinv : DmaInv w device s) (hpc : s.pc = .memcpy i)
    (hi : i < w.totBuffers.toNat) : DmaBooks w ⟨i, i - 3, i - 3, w.circBuffers, 0, false⟩ s := by
  have hb := hinv.books (by rw [hpc]; nofun)
  rw [hpc, DmaPc.counts, decide_eq_false (Nat.ne_of_lt hi)] at hb
  exact hb

theorem memcpy_inv (hpos : 1 ≤ w.size.toNat) (hmax : w.size.toNat ≤ 2 ^ 30)
    (hinv : DmaInv w device s) (hpc : s.pc = .memcpy i) (hi : i < w.totBuffers.toNat) :
    DmaInv w device (s.memcpy w i) := by
  have hb := memcpy_books hinv hpc hi
  obtain ⟨f, hf⟩ := hb.frame hi
  have hsize : (if i.toUInt32 = w.totBuffers - 1 then w.lastBufferSize else f.length).toNat =
      w.chunkSize i := by
    rw [hb.lengths f (List.mem_of_getElem? hf)]
    split_ifs with hlast
    · exact lastBufferSize_toNat hpos hmax ((isLast_iff hpos hmax hi).mp hlast)
    · exact (chunkSize_of_not_last hmax (mt (isLast_iff hpos hmax hi).mpr hlast)).symm
  have hpc' : (s.memcpy w i).pc = .initiate i := by
    simp only [DmaState.memcpy, hf]
  have htransfers : (s.memcpy w i).transfers = s.transfers := by
    simp only [DmaState.memcpy, hf]
  have hdevice : (s.memcpy w i).device = s.device := by
    simp only [DmaState.memcpy, hf]
  have hframes : (s.memcpy w i).frames = if i + 1 = w.totBuffers.toNat then
      s.frames.set (i % simulDmas) { f with frameSize := w.lastBufferSize } else s.frames := by
    simp only [DmaState.memcpy, hf, isLast_iff hpos hmax hi]
  have hstaging : ∀ a k, (s.memcpy w i).staging a k =
      if a = f.userAddr ∧ k < w.chunkSize i then w.byte i k else s.staging a k := by
    intro a k
    simp only [DmaState.memcpy, hf, hsize, offset_toInt hmax hi, DmaWrite.byte]
    rfl
  have haddrs : (s.memcpy w i).userAddrs = s.userAddrs := by
    rw [DmaState.userAddrs, hframes]
    split_ifs
    · exact map_set_same hf rfl
    · rfl
  refine ⟨?_, fun _ => ?_, ?_, ?_, ?_⟩
  · rw [hpc']
    exact hi
  · rw [hpc']
    have hheld : (s.memcpy w i).held = s.held := by simp only [DmaState.memcpy, hf]
    have hqueue : (s.memcpy w i).dmaIds = s.dmaIds := by simp only [DmaState.memcpy, hf]
    refine ⟨?_, haddrs ▸ hb.nodup, ?_, ?_, ?_, htransfers ▸ hb.started, ?_, ?_, ?_⟩
    · rw [hframes]
      split_ifs
      · rw [List.length_set]
        exact hb.got
      · exact hb.got
    · rw [hheld, haddrs]
      exact hb.held
    · rw [hframes]
      split_ifs
      · intro g hg
        rcases List.mem_or_eq_of_mem_set hg with hg | rfl
        · exact hb.lengths g hg
        · exact hb.lengths f (List.mem_of_getElem? hf)
      · exact hb.lengths
    · rw [hframes]
      exact copied_sizes hb
    · rw [htransfers, haddrs]
      exact hb.buffers
    · rw [hqueue, htransfers]
      exact hb.queue
    · rw [htransfers]
      exact hb.settled
  · intro n t ht
    rw [htransfers] at ht
    rw [hdevice]
    have hsent := hinv.sent n t ht
    refine { hsent with source := fun hflight k hk => ?_ }
    rw [hstaging, if_neg fun hboth => hb.idle hf ht hflight hboth.1]
    exact hsent.source hflight k hk
  · rw [hdevice]
    exact hinv.outside
  · intro m g hm hg k hk
    rw [hpc'] at hm
    cases hm
    have hsame : g.userAddr = f.userAddr := by
      have hget := userAddrs_get hg
      rw [haddrs, userAddrs_get hf] at hget
      exact (Option.some.inj hget).symm
    rw [hstaging, if_pos ⟨hsame, hk⟩]

theorem get_concat {α : Type} {l : List α} {x y : α} (h : (l ++ [x])[n]? = some y) :
    l[n]? = some y ∨ n = l.length ∧ y = x := by
  rcases Nat.lt_trichotomy n l.length with hlt | rfl | hgt
  · rw [List.getElem?_append_left hlt] at h
    exact Or.inl h
  · rw [List.getElem?_concat_length] at h
    exact Or.inr ⟨rfl, (Option.some.inj h).symm⟩
  · rw [List.getElem?_eq_none (by rw [List.length_append, List.length_singleton]; omega)] at h
    cases h

/-- The books at the head of the loop, or in the wait for the oldest transfer. -/
theorem initiated_books {transId : UInt32}
    (hb : DmaBooks w ⟨i, i - 3, i - 3, w.circBuffers, 0, i + 1 = w.totBuffers.toNat⟩ s)
    (hf : s.frames[i % simulDmas]? = some f)
    (ht : t.userAddr = f.userAddr ∧ t.transId = transId)
    (hs' : s'.frames = s.frames ∧ s'.held = s.held ∧ s'.transfers = s.transfers ++ [t] ∧
      s'.dmaIds = s.dmaIds ++ [transId]) :
    DmaBooks w ⟨i + 1, i - 3, i - 3, w.circBuffers, 0, i + 1 = w.totBuffers.toNat⟩ s' := by
  obtain ⟨hframes, hheld, htransfers, hids⟩ := hs'
  have hlen : s.transfers.length = i := hb.started
  have haddrs : s'.userAddrs = s.userAddrs := by
    rw [DmaState.userAddrs, hframes, DmaState.userAddrs]
  refine ⟨?_, ?_, ?_, ?_, ?_, ?_, ?_, ?_, ?_⟩
  · rw [hframes]
    exact hb.got
  · rw [haddrs]
    exact hb.nodup
  · rw [hheld, haddrs]
    exact hb.held
  · rw [hframes]
    exact hb.lengths
  · rw [hframes]
    exact hb.sizes
  · rw [htransfers, List.length_append, hb.started, List.length_singleton]
  · intro n t' ht'
    rw [haddrs]
    rw [htransfers] at ht'
    rcases get_concat ht' with hold | ⟨rfl, rfl⟩
    · exact hb.buffers n t' hold
    · rw [hlen, userAddrs_get hf, ht.1]
  · rw [hids, htransfers, List.map_append, List.drop_append_of_le_length]
    · rw [hb.queue, List.map_singleton, ht.2]
    · rw [List.length_map, hb.started]
      exact Nat.sub_le i 3
  · intro n t' ht' hn
    rw [htransfers] at ht'
    rcases get_concat ht' with hold | ⟨rfl, rfl⟩
    · exact hb.settled n t' hold hn
    · dsimp only at hn
      omega

theorem initiate_inv (hpos : 1 ≤ w.size.toNat) (hmax : w.size.toNat ≤ 2 ^ 30)
    (hinv : DmaInv w device s) (hpc : s.pc = .initiate i) (transId : UInt32) :
    DmaInv w device (s.initiate w i transId) := by
  have hi : i < w.totBuffers.toNat := by
    have hin := hinv.inBounds
    rw [hpc] at hin
    exact hin
  have hb : DmaBooks w ⟨i, i - 3, i - 3, w.circBuffers, 0, i + 1 = w.totBuffers.toNat⟩ s := by
    have hb := hinv.books (by rw [hpc]; nofun)
    rw [hpc] at hb
    exact hb
  obtain ⟨f, hf⟩ := hb.frame hi
  have hqueue : s.dmaIds.length = i - (i - 3) := by
    rw [hb.queue, List.length_drop, List.length_map, hb.started]
  let t : DmaTransfer := ⟨transId, w.addr + (offset i).toUInt32, f.userAddr, f.frameSize, [], false⟩
  have hstate : s.initiate w i transId = { s with
      transfers := s.transfers ++ [t]
      dmaIds := s.dmaIds ++ [transId]
      pc := if simulDmas ≤ s.dmaIds.length + 1 then .check i else .memcpy (i + 1) } := by
    simp only [DmaState.initiate, hf]
    rfl
  have hsize : f.frameSize.toNat = w.chunkSize i := by
    rw [hb.sizes _ f hf]
    by_cases hlast : i + 1 = w.totBuffers.toNat
    · rw [if_pos ⟨decide_eq_true hlast, by rw [← hlast, Nat.add_sub_cancel]⟩]
      exact lastBufferSize_toNat hpos hmax hlast
    · rw [if_neg fun hboth => hlast (of_decide_eq_true hboth.1)]
      exact (chunkSize_of_not_last hmax hlast).symm
  have hnew : DmaSent w s.staging s.device i t := {
    lt := hi
    addr := by rw [← offset_toUInt32]
    size := hsize
    moved := nofun
    complete := nofun
    source := fun _ => hinv.filled i f hpc hf }
  rw [hstate]
  refine ⟨?_, fun _ => ?_, ?_, hinv.outside, ?_⟩
  · dsimp only
    split_ifs with hfour
    · unfold simulDmas at hfour
      exact ⟨by omega, hi⟩
    · exact hi
  · dsimp only
    split_ifs with hfour
    · exact initiated_books hb hf ⟨rfl, rfl⟩ ⟨rfl, rfl, rfl, rfl⟩
    · unfold simulDmas at hfour
      rw [DmaPc.counts, show i + 1 - 3 = i - 3 by omega]
      exact initiated_books hb hf ⟨rfl, rfl⟩ ⟨rfl, rfl, rfl, rfl⟩
  · intro n t' ht'
    rcases get_concat ht' with hold | ⟨rfl, rfl⟩
    · exact hinv.sent n t' hold
    · have hlen : s.transfers.length = i := hb.started
      rw [hlen]
      exact hnew
  · intro m g hm
    dsimp only at hm
    split_ifs at hm

/-- A number that the driver reports as done stands for a transfer that is. -/
theorem DmaBooks.waited {id : UInt32} (hb : DmaBooks w c s) (hid : s.dmaIds[m]? = some id)
    (hcheck : ¬ s.pciedrvDmaCheck id = true) (ht : s.transfers[c.left + m]? = some t) :
    t.complete = true := by
  rw [hb.queue, List.getElem?_drop, List.getElem?_map, ht, Option.map_some] at hid
  obtain rfl := Option.some.inj hid
  by_contra hflight
  apply hcheck
  unfold DmaState.pciedrvDmaCheck
  rw [List.any_eq_true]
  exact ⟨t, List.mem_of_getElem? ht, by simp [hflight]⟩

theorem check_inv (hinv : DmaInv w device s) (hpc : s.pc = .check i) :
    DmaInv w device (s.check i) := by
  obtain ⟨hthree, hi⟩ : 3 ≤ i ∧ i < w.totBuffers.toNat := by
    have hin := hinv.inBounds
    rw [hpc] at hin
    exact hin
  have hb : DmaBooks w ⟨i + 1, i - 3, i - 3, w.circBuffers, 0, i + 1 = w.totBuffers.toNat⟩ s := by
    have hb := hinv.books (by rw [hpc]; nofun)
    rw [hpc] at hb
    exact hb
  have hqueue := hb.queue
  cases hids : s.dmaIds with
  | nil =>
    have hlen : s.dmaIds.length = i + 1 - (i - 3) := by
      rw [hb.queue, List.length_drop, List.length_map, hb.started]
    rw [hids, List.length_nil] at hlen
    omega
  | cons id ids =>
    by_cases hcheck : s.pciedrvDmaCheck id = true
    · simp only [DmaState.check, hids, if_pos hcheck]
      exact hinv
    · simp only [DmaState.check, hids, if_neg hcheck]
      refine hinv.keep hi nofun fun _ => ?_
      unfold DmaPc.counts
      refine ⟨hb.got, hb.nodup, hb.held, hb.lengths, hb.sizes, hb.started, hb.buffers, ?_, ?_⟩
      · have htail := congrArg List.tail hqueue
        rw [hids, List.tail_cons, List.tail_drop] at htail
        dsimp only at htail ⊢
        rw [show i + 1 - 3 = i - 3 + 1 by omega]
        exact htail
      · intro n t ht hn
        dsimp only [DmaPc.counts] at hn
        by_cases hfirst : n = i - 3
        · obtain rfl := hfirst
          exact hb.waited (m := 0) (by rw [hids]; rfl) hcheck ht
        · exact hb.settled n t ht (by dsimp only at hn ⊢; omega)

theorem checkLast_inv (hinv : DmaInv w device s) (hpc : s.pc = .checkLast i) :
    DmaInv w device (s.checkLast i) := by
  have hb : DmaBooks w ⟨w.totBuffers.toNat, w.totBuffers.toNat - 3, w.totBuffers.toNat - 3 + i,
      w.circBuffers, 0, true⟩ s := by
    have hb := hinv.books (by rw [hpc]; nofun)
    rw [hpc] at hb
    exact hb
  cases hid : s.dmaIds[i]? with
  | none =>
    have hend : w.totBuffers.toNat ≤ w.totBuffers.toNat - 3 + i := by
      have hlen := List.getElem?_eq_none_iff.mp hid
      rw [hb.queue, List.length_drop, List.length_map, hb.started] at hlen
      dsimp only at hlen
      omega
    simp only [DmaState.checkLast, hid]
    refine hinv.keep (Nat.zero_le _) nofun fun _ => ?_
    exact ⟨hb.got, hb.nodup, hb.held, hb.lengths, hb.sizes, hb.started, hb.buffers, hb.queue,
      fun n t ht hn => hb.settled n t ht (Nat.lt_of_lt_of_le hn hend)⟩
  | some id =>
    by_cases hcheck : s.pciedrvDmaCheck id = true
    · simp only [DmaState.checkLast, hid, if_pos hcheck]
      exact hinv
    · simp only [DmaState.checkLast, hid, if_neg hcheck]
      refine hinv.keep trivial nofun fun _ => ?_
      refine ⟨hb.got, hb.nodup, hb.held, hb.lengths, hb.sizes, hb.started, hb.buffers, hb.queue,
        fun n t ht hn => ?_⟩
      by_cases hnext : n = w.totBuffers.toNat - 3 + i
      · obtain rfl := hnext
        exact hb.waited hid hcheck ht
      · exact hb.settled n t ht (by dsimp only [DmaPc.counts] at hn ⊢; omega)

theorem free_inv (hinv : DmaInv w device s) (hpc : s.pc = .bufmgrFreeDesc i)
    (hi : i < w.circBuffers) : DmaInv w device (s.bufmgrFreeDesc i) := by
  have hb : DmaBooks w ⟨w.totBuffers.toNat, w.totBuffers.toNat - 3, w.totBuffers.toNat,
      w.circBuffers, i, true⟩ s := by
    have hb := hinv.books (by rw [hpc]; nofun)
    rw [hpc] at hb
    exact hb
  have hlt : i < s.frames.length := by
    rw [hb.got]
    exact hi
  have hf := List.getElem?_eq_getElem hlt
  simp only [DmaState.bufmgrFreeDesc, hf]
  refine hinv.keep hi nofun fun _ => ?_
  unfold DmaPc.counts
  refine ⟨hb.got, hb.nodup, ?_, hb.lengths, hb.sizes, hb.started, hb.buffers, hb.queue, hb.settled⟩
  obtain ⟨hlt', hget⟩ := List.getElem?_eq_some_iff.mp (userAddrs_get hf)
  have hheld : s.held = s.frames[i].userAddr :: s.userAddrs.drop (i + 1) := by
    rw [hb.held, ← hget]
    exact List.drop_eq_getElem_cons hlt'
  dsimp only
  rw [hheld, List.erase_cons_head]
  rfl

/-- Leaving a loop changes nothing but the place of the host. -/
theorem DmaBooks.goto {c' : DmaCounts} (hb : DmaBooks w c s) (pc : DmaPc) (hc : c = c') :
    DmaBooks w c' { s with pc := pc } := by
  obtain rfl := hc
  exact ⟨hb.got, hb.nodup, hb.held, hb.lengths, hb.sizes, hb.started, hb.buffers, hb.queue,
    hb.settled⟩

theorem leave_alloc_inv (hpos : 1 ≤ w.totBuffers.toNat) (hinv : DmaInv w device s)
    (hpc : s.pc = .bufmgrAlloc i) (hi : ¬ i < w.circBuffers) :
    DmaInv w device { s with pc := .memcpy 0 } := by
  have hle : i ≤ w.circBuffers := by
    have hin := hinv.inBounds
    rw [hpc] at hin
    exact hin
  have hb := hinv.books (by rw [hpc]; nofun)
  refine hinv.keep (Nat.zero_le _) nofun fun _ => hb.goto (.memcpy 0) ?_
  rw [hpc, DmaPc.counts, DmaPc.counts, decide_eq_false (by omega),
    Nat.le_antisymm hle (Nat.not_lt.mp hi)]

theorem leave_initiate_inv (hinv : DmaInv w device s) (hpc : s.pc = .memcpy i)
    (hi : ¬ i < w.totBuffers.toNat) : DmaInv w device { s with pc := .checkLast 0 } := by
  have hle : i ≤ w.totBuffers.toNat := by
    have hin := hinv.inBounds
    rw [hpc] at hin
    exact hin
  have hend : i = w.totBuffers.toNat := Nat.le_antisymm hle (Nat.not_lt.mp hi)
  have hb := hinv.books (by rw [hpc]; nofun)
  refine hinv.keep trivial nofun fun _ => hb.goto (.checkLast 0) ?_
  rw [hpc, DmaPc.counts, DmaPc.counts, decide_eq_true hend, hend, Nat.add_zero]

theorem leave_free_inv (hinv : DmaInv w device s) (hpc : s.pc = .bufmgrFreeDesc i)
    (hi : ¬ i < w.circBuffers) : DmaInv w device { s with pc := .returned } := by
  have hle : i ≤ w.circBuffers := by
    have hin := hinv.inBounds
    rw [hpc] at hin
    exact hin
  have hb := hinv.books (by rw [hpc]; nofun)
  refine hinv.keep trivial nofun fun _ => hb.goto .returned ?_
  rw [hpc, DmaPc.counts, DmaPc.counts, Nat.le_antisymm hle (Nat.not_lt.mp hi)]

/-- A transfer changes only its own record. -/
theorem DmaBooks.progress {t' : DmaTransfer} {mem : UInt32 → UInt8} (hb : DmaBooks w c s)
    (ht : s.transfers[n]? = some t) (hid : t'.transId = t.transId)
    (haddr : t'.userAddr = t.userAddr) (hdone : t.complete = true → t'.complete = true) :
    DmaBooks w c { s with device := mem, transfers := s.transfers.set n t' } := by
  refine ⟨hb.got, hb.nodup, hb.held, hb.lengths, hb.sizes, ?_, ?_, ?_, ?_⟩
  · rw [List.length_set]
    exact hb.started
  · intro m u hu
    dsimp only at hu
    rw [List.getElem?_set] at hu
    split_ifs at hu with hm hlt
    · obtain rfl := hm
      obtain rfl := Option.some.inj hu
      rw [haddr]
      exact hb.buffers n t ht
    · exact hb.buffers m u hu
  · dsimp only
    rw [map_set_same ht hid]
    exact hb.queue
  · intro m u hu hm'
    dsimp only at hu
    rw [List.getElem?_set] at hu
    split_ifs at hu with hm hlt
    · obtain rfl := hm
      obtain rfl := Option.some.inj hu
      exact hdone (hb.settled n t ht hm')
    · exact hb.settled m u hu hm'

/-- The addresses of a chunk are those of its bytes. -/
theorem chunk_addr {k : Nat} (hmax : w.size.toNat ≤ 2 ^ 30) (hn : n < w.totBuffers.toNat)
    (hk : k < w.chunkSize n) :
    (w.addr + (n * hostCmemBufferSize.toNat).toUInt32 + k.toUInt32 - w.addr).toNat =
      n * hostCmemBufferSize.toNat + k ∧ n * hostCmemBufferSize.toNat + k < w.size.toNat := by
  have hend : n * hostCmemBufferSize.toNat + w.chunkSize n ≤ w.size.toNat :=
    Chunks.end_le bufferSize_pos (by rw [← totBuffers_toNat hmax]; exact hn)
  have hdiff : w.addr + (n * hostCmemBufferSize.toNat).toUInt32 + k.toUInt32 - w.addr =
      (n * hostCmemBufferSize.toNat).toUInt32 + k.toUInt32 := by
    rw [UInt32.add_assoc, UInt32.add_comm, UInt32.add_sub_cancel]
  refine ⟨?_, by omega⟩
  rw [hdiff, UInt32.toNat_add, toUInt32_toNat, toUInt32_toNat]
  omega

theorem move_inv {k : Nat} (hmax : w.size.toNat ≤ 2 ^ 30) (hinv : DmaInv w device s)
    (hmove : s.move n k = some s') : DmaInv w device s' := by
  obtain ⟨t, ht, hmove⟩ := Option.bind_eq_some_iff.mp hmove
  split_ifs at hmove with hflight
  obtain ⟨hflight, hk⟩ := hflight
  obtain rfl := Option.some.inj hmove
  have hsent := hinv.sent n t ht
  rw [hsent.size] at hk
  have hbyte : s.staging t.userAddr k = w.byte n k := hsent.source hflight k hk
  refine ⟨hinv.inBounds, fun hpc => ?_, ?_, ?_, hinv.filled⟩
  · exact (hinv.books hpc).progress ht rfl rfl id
  · intro m u hu
    have hupdate : ∀ {m : Nat} {u : DmaTransfer} {j : Nat}, DmaSent w s.staging s.device m u →
        j ∈ u.moved → j < w.chunkSize m ∧ Function.update s.device (t.addr + k.toUInt32)
          (s.staging t.userAddr k) (u.addr + j.toUInt32) = w.byte m j := by
      intro m u j hu hj
      obtain ⟨hjlt, hval⟩ := hu.moved j hj
      refine ⟨hjlt, ?_⟩
      by_cases hsame : u.addr + j.toUInt32 = t.addr + k.toUInt32
      · rw [hsame, Function.update_self, hbyte]
        have hpos := (chunk_addr hmax hu.lt hjlt).1
        rw [← hu.addr, hsame, hsent.addr, (chunk_addr hmax hsent.lt hk).1] at hpos
        rw [byte, byte, hpos]
      · rw [Function.update_of_ne hsame]
        exact hval
    dsimp only at hu
    rw [List.getElem?_set] at hu
    split_ifs at hu with hm hlt
    · obtain rfl := hm
      obtain rfl := Option.some.inj hu
      refine ⟨hsent.lt, hsent.addr, hsent.size, ?_, ?_, hsent.source⟩
      · intro j hj
        rcases List.mem_cons.mp hj with rfl | hj
        · exact ⟨hk, (Function.update_self _ _ _).trans hbyte⟩
        · exact hupdate (u := t) hsent hj
      · intro hdone
        rw [hflight] at hdone
        cases hdone
    · have hother := hinv.sent m u hu
      exact ⟨hother.lt, hother.addr, hother.size, fun j hj => hupdate hother hj, hother.complete,
        hother.source⟩
  · intro x hx
    rw [← hinv.outside x hx]
    apply Function.update_of_ne
    rintro rfl
    apply hx
    unfold DmaWrite.Covers
    obtain ⟨hpos, hlt⟩ := chunk_addr hmax hsent.lt hk
    rw [hsent.addr, hpos]
    exact hlt

theorem finish_inv (hinv : DmaInv w device s) (hfinish : s.finish n = some s') :
    DmaInv w device s' := by
  obtain ⟨t, ht, hfinish⟩ := Option.bind_eq_some_iff.mp hfinish
  split_ifs at hfinish with hmoved
  obtain rfl := Option.some.inj hfinish
  have hsent := hinv.sent n t ht
  rw [hsent.size] at hmoved
  refine ⟨hinv.inBounds, fun hpc => ?_, ?_, hinv.outside, hinv.filled⟩
  · exact (hinv.books hpc).progress ht rfl rfl fun _ => rfl
  · intro m u hu
    dsimp only at hu
    rw [List.getElem?_set] at hu
    split_ifs at hu with hm hlt
    · obtain rfl := hm
      obtain rfl := Option.some.inj hu
      exact ⟨hsent.lt, hsent.addr, hsent.size, hsent.moved, fun _ => hmoved, nofun⟩
    · exact hinv.sent m u hu

end Steps

/-! ## Every state of a call -/

section Reached

variable {a : DmaAction}

theorem initial_inv (hpc : s.pc = .bufmgrAlloc 0) (hframes : s.frames = [])
    (hids : s.dmaIds = []) (hheld : s.held = []) (hdevice : s.device = device)
    (htransfers : s.transfers = []) : DmaInv w device s := by
  have haddrs : s.userAddrs = [] := by rw [DmaState.userAddrs, hframes, List.map_nil]
  refine ⟨?_, fun _ => ?_, ?_, fun x _ => by rw [hdevice], ?_⟩
  · rw [hpc]
    exact Nat.zero_le _
  · rw [hpc]
    refine ⟨?_, ?_, ?_, ?_, ?_, ?_, ?_, ?_, ?_⟩
    · rw [hframes]
      rfl
    · rw [haddrs]
      exact List.nodup_nil
    · rw [hheld, haddrs]
      rfl
    · rw [hframes]
      nofun
    · rw [hframes]
      nofun
    · rw [htransfers]
      rfl
    · rw [htransfers]
      nofun
    · rw [hids, htransfers]
      rfl
    · rw [htransfers]
      nofun
  · rw [htransfers]
    nofun
  · intro m f hm
    rw [hpc] at hm
    cases hm

theorem dmaStep_inv (hpos : 1 ≤ w.size.toNat) (hmax : w.size.toNat ≤ 2 ^ 30)
    (hinv : DmaInv w device s) (hstep : dmaStep w s a = some s') : DmaInv w device s' := by
  cases a with
  | bufmgrAlloc userAddr =>
    cases hpc : s.pc <;> simp only [dmaStep, hpc, reduceCtorEq] at hstep
    split_ifs at hstep with hfree
    obtain rfl := Option.some.inj hstep
    exact alloc_inv hinv hpc hfree.1 hfree.2
  | initiate transId =>
    cases hpc : s.pc <;> simp only [dmaStep, hpc, reduceCtorEq] at hstep
    obtain rfl := Option.some.inj hstep
    exact initiate_inv hpos hmax hinv hpc transId
  | run =>
    cases hpc : s.pc <;> simp only [dmaStep, hpc, reduceCtorEq] at hstep
    case bufmgrAlloc i =>
      split_ifs at hstep with hi
      obtain rfl := Option.some.inj hstep
      exact leave_alloc_inv (totBuffers_pos hpos hmax) hinv hpc hi
    case memcpy i =>
      obtain rfl := Option.some.inj hstep
      split_ifs with hi
      · exact memcpy_inv hpos hmax hinv hpc hi
      · exact leave_initiate_inv hinv hpc hi
    case check i =>
      obtain rfl := Option.some.inj hstep
      exact check_inv hinv hpc
    case checkLast i =>
      obtain rfl := Option.some.inj hstep
      exact checkLast_inv hinv hpc
    case bufmgrFreeDesc i =>
      obtain rfl := Option.some.inj hstep
      split_ifs with hi
      · exact free_inv hinv hpc hi
      · exact leave_free_inv hinv hpc hi
  | fail =>
    have hexit : DmaInv w device { s with pc := .exited } :=
      hinv.keep trivial nofun fun hne => absurd rfl hne
    cases hpc : s.pc <;> simp only [dmaStep, hpc, reduceCtorEq] at hstep
    case initiate i =>
      obtain rfl := Option.some.inj hstep
      exact hexit
    all_goals
      split_ifs at hstep
      obtain rfl := Option.some.inj hstep
      exact hexit
  | move n k => exact move_inv hmax hinv hstep
  | finish n => exact finish_inv hinv hstep

theorem reachable_inv (hpos : 1 ≤ w.size.toNat) (hmax : w.size.toNat ≤ 2 ^ 30)
    (hreach : Reachable (dmaSystem w device) s) : DmaInv w device s := by
  apply hreach.invariant
  · rintro s ⟨hpc, hframes, hids, hheld, hdevice, htransfers⟩
    exact initial_inv hpc hframes hids hheld hdevice htransfers
  · intro s a s' _ hinv hstep
    exact dmaStep_inv hpos hmax hinv hstep

/-- A transfer covers the addresses of its chunk. -/
theorem DmaSent.covers_iff {staging : Nat → Nat → UInt8} {mem : UInt32 → UInt8} {n : Nat}
    {t : DmaTransfer} (hmax : w.size.toNat ≤ 2 ^ 30) (hsent : DmaSent w staging mem n t)
    (x : UInt32) : t.Covers x ↔
      Chunks.Holds w.size.toNat hostCmemBufferSize.toNat n (x - w.addr).toNat := by
  have hstart := (lt_totBuffers_iff hmax).mp hsent.lt
  have hend : n * hostCmemBufferSize.toNat + w.chunkSize n ≤ w.size.toNat :=
    Chunks.end_le bufferSize_pos (by rw [← totBuffers_toNat hmax]; exact hsent.lt)
  have hfrom : x - t.addr = (x - w.addr) - (n * hostCmemBufferSize.toNat).toUInt32 := by
    rw [hsent.addr]
    apply UInt32.toNat_inj.mp
    simp only [UInt32.toNat_sub, UInt32.toNat_add]
    have haddr := w.addr.toNat_lt
    have hx := x.toNat_lt
    have hoffset := (n * hostCmemBufferSize.toNat).toUInt32.toNat_lt
    omega
  have hx := (x - w.addr).toNat_lt
  unfold DmaTransfer.Covers Chunks.Holds
  rw [hsent.size, hfrom, UInt32.toNat_sub, toUInt32_toNat]
  rw [bufferSize_toNat] at *
  change _ ↔ _ ∧ _ < _ + w.chunkSize n
  omega

/-- Counting the elements of a list by their indices. -/
theorem countP_range {α : Type} {p : α → Bool} {q : Nat → Bool} (l : List α)
    (h : ∀ n x, l[n]? = some x → p x = q n) : l.countP p = (List.range l.length).countP q := by
  induction l using List.reverseRecOn with
  | nil => rfl
  | append_singleton l x ih =>
    have hx := h l.length x List.getElem?_concat_length
    have hl : ∀ n y, l[n]? = some y → p y = q n := by
      intro n y hy
      apply h n y
      rw [List.getElem?_append_left (List.getElem?_eq_some_iff.mp hy).1]
      exact hy
    rw [List.countP_append, List.length_append, List.length_singleton, List.range_succ,
      List.countP_append, ih hl, List.countP_singleton, List.countP_singleton, hx]

/-- The transfers of a call that has returned write each address of the range once. -/
theorem once_of_returned (hmax : w.size.toNat ≤ 2 ^ 30) (hinv : DmaInv w device s)
    (hlen : s.transfers.length = w.totBuffers.toNat) (x : UInt32) :
    s.transfers.countP (fun t => t.Covers x) = if w.Covers x then 1 else 0 := by
  have hchunks : s.transfers.countP (fun t => t.Covers x) =
      (List.range s.transfers.length).countP fun n =>
        Chunks.Holds w.size.toNat hostCmemBufferSize.toNat n (x - w.addr).toNat := by
    apply countP_range
    intro n t ht
    exact decide_eq_decide.mpr ((hinv.sent n t ht).covers_iff hmax x)
  have hend : w.size.toNat ≤ w.totBuffers.toNat * hostCmemBufferSize.toNat := by
    have hlast := mt (lt_totBuffers_iff (i := w.totBuffers.toNat) hmax).mpr (Nat.lt_irrefl _)
    rw [bufferSize_toNat]
    omega
  rw [hchunks, hlen, totBuffers_toNat hmax, Chunks.countP_holds bufferSize_pos (Nat.le_refl _),
    ← totBuffers_toNat hmax]
  unfold DmaWrite.Covers
  congr 1
  apply propext
  omega

/-- What complete transfers have written. -/
theorem written_of_complete (hmax : w.size.toNat ≤ 2 ^ 30) (hinv : DmaInv w device s)
    (hlen : s.transfers.length = w.totBuffers.toNat)
    (hdone : ∀ t ∈ s.transfers, t.complete = true) (x : UInt32) :
    s.device x = if w.Covers x then w.buf (x - w.addr).toNat else device x := by
  by_cases hx : w.Covers x
  · rw [if_pos hx]
    unfold DmaWrite.Covers at hx
    have hn : (x - w.addr).toNat / 0x400000 < w.totBuffers.toNat :=
      (lt_totBuffers_iff hmax).mpr (by omega)
    rw [← hlen] at hn
    obtain ⟨t, ht⟩ : ∃ t, s.transfers[(x - w.addr).toNat / 0x400000]? = some t :=
      ⟨_, List.getElem?_eq_getElem hn⟩
    have hsent := hinv.sent _ t ht
    have hcovers := (hsent.covers_iff hmax x).mpr
      ((Chunks.holds_iff bufferSize_pos (by rw [← totBuffers_toNat hmax]; exact hsent.lt)).mpr
        ⟨rfl, hx⟩)
    unfold DmaTransfer.Covers at hcovers
    rw [hsent.size] at hcovers
    have hmoved := hsent.complete (hdone t (List.mem_of_getElem? ht)) _ hcovers
    obtain ⟨-, hval⟩ := hsent.moved _ hmoved
    have hback : (x - t.addr).toNat.toUInt32 = x - t.addr := UInt32.ofNat_toNat
    have hpos := (chunk_addr hmax hsent.lt hcovers).1
    rw [← hsent.addr, hback, UInt32.add_comm, UInt32.sub_add_cancel] at hpos
    rw [hback, UInt32.add_comm, UInt32.sub_add_cancel, byte, ← hpos] at hval
    exact hval
  · rw [if_neg hx]
    exact hinv.outside x hx

/-- In every state of a call for 1 to 2^30 bytes, with any interleaving of the transfers, the
pipeline is safe. -/
theorem dma_write_safe (hpos : 1 ≤ w.size.toNat) (hmax : w.size.toNat ≤ 2 ^ 30)
    (hreach : Reachable (dmaSystem w device) s) : DmaWriteSafe w device s := by
  have hinv := reachable_inv hpos hmax hreach
  have hreturned : s.pc = .returned → s.transfers.length = w.totBuffers.toNat ∧
      ∀ t ∈ s.transfers, t.complete = true := by
    intro hpc
    have hb := hinv.books (by rw [hpc]; nofun)
    rw [hpc] at hb
    refine ⟨hb.started, fun t ht => ?_⟩
    obtain ⟨n, hn⟩ := List.mem_iff_getElem?.mp ht
    exact hb.settled n t hn (hinv.sent n t hn).lt
  refine ⟨?_, ?_, ?_, ?_, ?_, ?_, fun hpc => (hreturned hpc).2, ?_⟩
  · intro hpc
    have hin := hinv.inBounds
    rw [hpc] at hin
    exact hin
  · intro i hpc
    have hcirc : i < w.totBuffers.toNat → i % simulDmas < w.circBuffers := by
      unfold circBuffers simulDmas
      omega
    rcases hpc with ⟨hpc, hi⟩ | hpc
    · exact ⟨hcirc hi, (memcpy_books hinv hpc hi).got⟩
    · have hin := hinv.inBounds
      have hb := hinv.books (by rw [hpc]; nofun)
      rw [hpc] at hin hb
      exact ⟨hcirc hin, hb.got⟩
  · intro i f hpc hi hf t ht
    obtain ⟨n, hn⟩ := List.mem_iff_getElem?.mp ht
    exact (memcpy_books hinv hpc hi).idle hf hn
  · intro t ht hflight k hk
    obtain ⟨n, hn⟩ := List.mem_iff_getElem?.mp ht
    have hsent := hinv.sent n t hn
    rw [hsent.size] at hk
    rw [hsent.source hflight k hk, hsent.addr, (chunk_addr hmax hsent.lt hk).1, byte]
  · intro hpc
    exact once_of_returned hmax hinv (hreturned hpc).1
  · intro hpc
    exact written_of_complete hmax hinv (hreturned hpc).1 (hreturned hpc).2
  · intro hpc
    have hb := hinv.books (by rw [hpc]; nofun)
    rw [hpc] at hb
    rw [hb.held, List.drop_eq_nil_of_le]
    rw [DmaState.userAddrs, List.length_map]
    exact Nat.le_of_eq hb.got

/-- Five chunks, of which the last has one byte. -/
def fiveChunks : DmaWrite := ⟨0x80000000, fun k => UInt8.ofNat (k % 251).toNat, 0x1000001⟩

/-- Four transfers are in flight and move their bytes out of order, while the host waits for the
first one; and two bytes are written through one staging buffer. -/
theorem four_transfers_written :
    (∃ s, Reachable (dmaSystem fiveChunks fun _ => 0) s ∧ s.pc = .check 3 ∧
      s.transfers.map (fun t => (t.userAddr, t.moved, t.complete)) =
        [(7, [5], false), (8, [], false), (9, [3, 0], false), (10, [], false)] ∧
      ∀ t ∈ s.transfers, t.complete = false → ∀ k < t.frameSize.toNat,
        s.staging t.userAddr k = fiveChunks.buf (t.addr + k.toUInt32 - fiveChunks.addr).toNat) ∧
    ∃ s, Reachable (dmaSystem ⟨0x80000000, fun k => if k = 0 then 65 else 66, 2⟩ fun _ => 0) s ∧
      s.pc = .returned ∧ s.held = [] ∧ s.device 0x80000001 = 66 := by
  constructor
  · let s₀ : DmaState := ⟨.bufmgrAlloc 0, [], [], [], fun _ _ => 0, fun _ => 0, []⟩
    let actions : List DmaAction := [.bufmgrAlloc 7, .bufmgrAlloc 8, .bufmgrAlloc 9,
      .bufmgrAlloc 10, .run, .run, .initiate 1, .run, .initiate 2, .move 0 5, .run, .initiate 3,
      .move 2 0, .run, .initiate 4, .move 2 3, .run]
    have hruns : (exec (dmaStep fiveChunks) s₀ actions).map (fun s => (s.pc,
        s.transfers.map fun t => (t.userAddr, t.moved, t.complete))) =
        some (.check 3,
          [(7, [5], false), (8, [], false), (9, [3, 0], false), (10, [], false)]) := by
      decide +kernel
    obtain ⟨s, hs, heq⟩ := Option.map_eq_some_iff.mp hruns
    obtain ⟨hpc, htransfers⟩ := Prod.mk.inj heq
    have hinit : Run (dmaSystem fiveChunks fun _ => 0) [] s₀ :=
      .initial ⟨rfl, rfl, rfl, rfl, rfl, rfl⟩
    have hreach : Reachable (dmaSystem fiveChunks fun _ => 0) s := (run_exec hinit hs).reachable
    exact ⟨s, hreach, hpc, htransfers, (dma_write_safe (by decide) (by decide) hreach).source⟩
  · let w : DmaWrite := ⟨0x80000000, fun k => if k = 0 then 65 else 66, 2⟩
    let s₀ : DmaState := ⟨.bufmgrAlloc 0, [], [], [], fun _ _ => 0, fun _ => 0, []⟩
    let actions : List DmaAction := [.bufmgrAlloc 7, .run, .run, .initiate 1, .run, .run, .move 0 1,
      .run, .move 0 0, .finish 0, .run, .run, .run, .run]
    have hpc : (exec (dmaStep w) s₀ actions).map DmaState.pc = some .returned := by decide +kernel
    obtain ⟨s, hs, hreturned⟩ := Option.map_eq_some_iff.mp hpc
    have hinit : Run (dmaSystem w fun _ => 0) [] s₀ := .initial ⟨rfl, rfl, rfl, rfl, rfl, rfl⟩
    have hreach : Reachable (dmaSystem w fun _ => 0) s := (run_exec hinit hs).reachable
    have hsafe := dma_write_safe (by decide) (by decide) hreach
    refine ⟨s, hreach, hreturned, hsafe.freed hreturned, ?_⟩
    rw [hsafe.written hreturned]
    decide

end Reached

end Shamrock.Dsp
