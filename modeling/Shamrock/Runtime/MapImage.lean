import Shamrock.Runtime.Image
import Shamrock.Runtime.Rect

/-!
# Mapping an image

`MapImageEvent` keeps the first coordinate of the origin in bytes, and the device takes it for
pixels.
-/
namespace Shamrock.Runtime

/-- An image that a constructor has made, as the commands ask it. -/
inductive IsImage : MemObject → Prop
  | image2D {a : ImageArgs} {image : Image2D} {format : ImageFormat} (context : Nat)
      (allocates : Bool) : image2D a = some (0, image) → image.format = some format →
      IsImage
        { type := .image2D, context := context, size := image.size, offset := 0, flags := a.flags,
          width := image.width, height := image.height, depth := 0, rowPitch := image.rowPitch,
          slicePitch := image.slicePitch, pixelSize := format.pixelSize,
          format := (format.imageChannelOrder.toNat, format.imageChannelDataType.toNat),
          allocates := allocates }
  | image3D {a : ImageArgs} {image : Image3D} {format : ImageFormat} {slicePitch : UInt64}
      (context : Nat) (allocates : Bool) : image3D a = some (0, image) →
      image.format = some format → image.slicePitch3D = some slicePitch →
      IsImage
        { type := .image3D, context := context, size := image.depth * slicePitch, offset := 0,
          flags := a.flags, width := image.width, height := image.height, depth := image.depth,
          rowPitch := image.rowPitch, slicePitch := slicePitch, pixelSize := format.pixelSize,
          format := (format.imageChannelOrder.toNat, format.imageChannelDataType.toNat),
          allocates := allocates }

/-- `p_origin`, after "Multiply the elements (for images)". -/
def mapImageOrigin (image : MemObject) (origin : Option Vec3) : Vec3 :=
  let o := originOrZero origin
  { o with x := o.x * image.pixelSize }

/-- What the device makes of the event. -/
structure MappedImage where
  ptr : UInt64
  rowPitch : UInt64
  slicePitch : UInt64
  deriving DecidableEq, Repr

namespace MappedImage

/-- `imageData`, with a base and pixels of more than one byte. -/
def imageData (base x y z rowPitch slicePitch : UInt64) (bytesPerPixel : UInt32) : UInt64 :=
  base + (z * slicePitch + y * rowPitch + x * bytesPerPixel.toUInt64)

end MappedImage

/-- `CPUDevice::initEventDeviceData` for `MapImage`, with the data of the buffer. -/
def initMapImage (data : UInt64) (image : MemObject) (origin : Vec3) : MappedImage where
  ptr := MappedImage.imageData data origin.x origin.y origin.z image.rowPitch image.slicePitch
    image.pixelSize.toUInt32
  rowPitch := image.rowPitch
  slicePitch := image.slicePitch

/-- No sum and no product of the constructor wraps around. -/
structure NoWrap (image : MemObject) (origin region : Vec3) : Prop where
  row : (origin.x.toNat + region.x.toNat) * image.pixelSize.toNat < 2 ^ 64
  rows : origin.y.toNat + region.y.toNat < 2 ^ 64
  slice : (origin.y.toNat + region.y.toNat) * image.rowPitch.toNat < 2 ^ 64
  slices : origin.z.toNat + region.z.toNat < 2 ^ 64
  size : (origin.z.toNat + region.z.toNat) * image.slicePitch.toNat < 2 ^ 64

/-- The pointer is the address of the first pixel, and the region lies in the image. -/
def MapImageExact (queue : QueueInfo) (image : MemObject) (mapFlags : UInt64)
    (origin : Option Vec3) (region : Vec3) (data : UInt64) : Prop :=
  mapImageEvent queue (some image) mapFlags origin (some region) = pure () →
    NoWrap image (originOrZero origin) region →
    let mapped := initMapImage data image (mapImageOrigin image origin)
    let o := originOrZero origin
    let offset := (mapped.ptr - data).toNat
    offset = o.z.toNat * image.slicePitch.toNat + o.y.toNat * image.rowPitch.toNat +
        o.x.toNat * image.pixelSize.toNat ∧
      ∀ i j k, i < region.x.toNat * image.pixelSize.toNat → j < region.y.toNat →
        k < region.z.toNat →
        offset + k * mapped.slicePitch.toNat + j * mapped.rowPitch.toNat + i < image.size.toNat

section MapImage

variable {queue : QueueInfo} {image : MemObject} {mapFlags data : UInt64} {origin : Option Vec3}
  {region o : Vec3} {format : ImageFormat}

theorem channels_mem (format : ImageFormat) : format.channels ∈ [(0 : UInt32), 1, 2, 4] := by
  unfold ImageFormat.channels
  split_ifs
  all_goals decide

theorem elementSize_mem (format : ImageFormat) :
    format.elementSize ∈ [(0 : UInt64), 1, 2, 4] := by
  unfold ImageFormat.elementSize
  split_ifs
  all_goals decide

theorem pixelSize_mem (format : ImageFormat) :
    format.pixelSize ∈ [(0 : UInt64), 1, 2, 4, 8, 16] := by
  have hproduct : ∀ c ∈ [(0 : UInt32), 1, 2, 4], ∀ e ∈ [(0 : UInt64), 1, 2, 4],
      c.toUInt64 * e ∈ [(0 : UInt64), 1, 2, 4, 8, 16] := by
    simp only [List.forall_mem_cons, List.not_mem_nil, false_implies, implies_true, and_true]
    decide
  unfold ImageFormat.pixelSize
  split_ifs
  · decide
  · decide
  · exact hproduct _ (channels_mem format) _ (elementSize_mem format)

theorem IsImage.pixelSize (h : IsImage image) :
    image.pixelSize ∈ [(0 : UInt64), 1, 2, 4, 8, 16] := by
  cases h with
  | image2D => exact pixelSize_mem _
  | image3D => exact pixelSize_mem _

/-- What is left of the tests if nothing wraps around. -/
theorem mapImageEvent_inside
    (h : mapImageEvent queue (some image) mapFlags origin (some region) = pure ())
    (hw : NoWrap image (originOrZero origin) region) :
    (0 < region.y.toNat ∧ 0 < region.z.toNat) ∧
    ((originOrZero origin).x.toNat + region.x.toNat) * image.pixelSize.toNat ≤
      image.rowPitch.toNat ∧
    ((originOrZero origin).y.toNat + region.y.toNat) * image.rowPitch.toNat ≤
      image.slicePitch.toNat ∧
    ((originOrZero origin).z.toNat + region.z.toNat) * image.slicePitch.toNat ≤
      image.size.toNat := by
  unfold mapImageEvent at h
  simp only [bind_eq_pure, reject_eq_pure, bufferEvent_eq_pure, checkRegion_eq_pure] at h
  obtain ⟨_, ⟨-, rfl⟩, _, -, _, ⟨⟨hregion, -, hy, hz⟩, _, -, hbounds⟩⟩ := h
  cases hregion
  simp only [outOfBounds, Bool.or_eq_false_iff, decide_eq_false_iff_not, UInt64.not_lt,
    UInt64.le_iff_toNat_le] at hbounds
  obtain ⟨⟨hrow, hslice⟩, hsize⟩ := hbounds
  have hx := hw.row
  rw [Nat.add_mul] at hx
  rw [UInt64.toNat_add, UInt64.toNat_mul, UInt64.toNat_mul, Nat.mod_eq_of_lt (by omega),
    Nat.mod_eq_of_lt (by omega), Nat.mod_eq_of_lt (by omega), ← Nat.add_mul] at hrow
  rw [UInt64.toNat_mul, toNat_add_of_lt hw.rows, Nat.mod_eq_of_lt hw.slice] at hslice
  rw [UInt64.toNat_mul, toNat_add_of_lt hw.slices, Nat.mod_eq_of_lt hw.size] at hsize
  have hpos : ∀ x : UInt64, x ≠ 0 → 0 < x.toNat := fun x hx =>
    Nat.pos_of_ne_zero fun h => hx (UInt64.toNat_inj.mp h)
  exact ⟨⟨hpos _ hy, hpos _ hz⟩, hrow, hslice, hsize⟩

/-- How far the pointer is behind the data: the first coordinate counts the bytes of a pixel
twice. -/
theorem mapped_offset (h : IsImage image) :
    ((initMapImage data image (mapImageOrigin image origin)).ptr - data).toNat =
      ((originOrZero origin).z.toNat * image.slicePitch.toNat +
        (originOrZero origin).y.toNat * image.rowPitch.toNat +
        (originOrZero origin).x.toNat * image.pixelSize.toNat * image.pixelSize.toNat) %
          2 ^ 64 := by
  have hpixel : image.pixelSize.toUInt32.toUInt64 = image.pixelSize := by
    have hall : ∀ p ∈ [(0 : UInt64), 1, 2, 4, 8, 16], p.toUInt32.toUInt64 = p := by
      simp only [List.forall_mem_cons, List.not_mem_nil, false_implies, implies_true, and_true]
      decide
    exact hall _ h.pixelSize
  unfold initMapImage MappedImage.imageData mapImageOrigin
  dsimp only
  rw [hpixel, UInt64.add_comm data, UInt64.add_sub_cancel]
  simp only [UInt64.toNat_add, UInt64.toNat_mul, Nat.mod_mul_mod, Nat.add_mod_mod, Nat.mod_add_mod]

/-- An odd multiple of what is not zero is not zero, either. -/
theorem eq_zero_of_mul_mod {base x c : Nat} (hc : Nat.Coprime (2 ^ 64) c)
    (hlt : base + x < 2 ^ 64) (h : (base + x * (c + 1)) % 2 ^ 64 = base + x) : x = 0 := by
  have hdiv := Nat.mod_add_div (base + x * (c + 1)) (2 ^ 64)
  rw [h, Nat.mul_succ] at hdiv
  have hdvd : 2 ^ 64 ∣ x * c := by
    refine ⟨(base + (x * c + x)) / 2 ^ 64, ?_⟩
    omega
  exact Nat.eq_zero_of_dvd_of_lt (hc.dvd_of_dvd_mul_right hdvd) (by omega)

/-- Bytes that count twice make a difference unless there are none or a pixel has one. -/
theorem mul_pixel_mod (h : IsImage image) {base x : Nat}
    (hlt : base + x * image.pixelSize.toNat < 2 ^ 64) :
    (base + x * image.pixelSize.toNat * image.pixelSize.toNat) % 2 ^ 64 =
      base + x * image.pixelSize.toNat ↔ x = 0 ∨ image.pixelSize.toNat ≤ 1 := by
  have hsizes : image.pixelSize.toNat ≤ 1 ∨ ∃ c, image.pixelSize.toNat = c + 1 ∧ 0 < c ∧
      Nat.Coprime (2 ^ 64) c := by
    have hall : ∀ p ∈ [(0 : UInt64), 1, 2, 4, 8, 16], p.toNat ≤ 1 ∨ ∃ c, p.toNat = c + 1 ∧ 0 < c ∧
        Nat.Coprime (2 ^ 64) c := by
      simp only [List.forall_mem_cons]
      exact ⟨.inl (by decide), .inl (by decide), .inr ⟨1, by decide⟩, .inr ⟨3, by decide⟩,
        .inr ⟨7, by decide⟩, .inr ⟨15, by decide⟩, List.forall_mem_nil _⟩
    exact hall _ h.pixelSize
  constructor
  · intro heq
    obtain hle | ⟨c, hp, -, hc⟩ := hsizes
    · exact .inr hle
    · have hzero := eq_zero_of_mul_mod hc hlt (by rw [← hp]; exact heq)
      rcases Nat.mul_eq_zero.mp hzero with hx | hp'
      · exact .inl hx
      · rw [hp'] at hp
        cases hp
  · rintro (rfl | hle)
    · simpa using hlt
    · have hone : x * image.pixelSize.toNat * image.pixelSize.toNat =
          x * image.pixelSize.toNat := by
        rcases Nat.le_one_iff_eq_zero_or_eq_one.mp hle with hp | hp
        · simp [hp]
        · simp [hp]
      rw [hone, Nat.mod_eq_of_lt hlt]

/-- The region from its first byte on, in the bounds of the tests. -/
theorem region_inside {x y z rx ry rz p row slice size i j k : Nat} (hrow : (x + rx) * p ≤ row)
    (hslice : (y + ry) * row ≤ slice) (hsize : (z + rz) * slice ≤ size) (hi : i < rx * p)
    (hj : j < ry) (hk : k < rz) :
    z * slice + y * row + x * p + k * slice + j * row + i < size := by
  have hj : (y + j + 1) * row ≤ (y + ry) * row := Nat.mul_le_mul_right _ (by omega)
  have hk : (z + k + 1) * slice ≤ (z + rz) * slice := Nat.mul_le_mul_right _ (by omega)
  rw [Nat.add_mul] at hrow
  rw [Nat.succ_mul, Nat.add_mul] at hj hk
  omega

theorem corner_le {x y z rx ry rz p row slice size : Nat} (hrow : (x + rx) * p ≤ row)
    (hslice : (y + ry) * row ≤ slice) (hsize : (z + rz) * slice ≤ size) (hy : 0 < ry)
    (hz : 0 < rz) : z * slice + y * row + x * p ≤ size := by
  have hy : (y + 1) * row ≤ (y + ry) * row := Nat.mul_le_mul_right _ (by omega)
  have hz : (z + 1) * slice ≤ (z + rz) * slice := Nat.mul_le_mul_right _ (by omega)
  rw [Nat.add_mul] at hrow
  rw [Nat.succ_mul] at hy hz
  omega

/-- The pointer is the address of the first pixel of the region exactly if this is the first one of
its row or a pixel has at most one byte. -/
theorem map_image_exact_iff (h : IsImage image) :
    MapImageExact queue image mapFlags origin region data ↔
      (mapImageEvent queue (some image) mapFlags origin (some region) = pure () →
        NoWrap image (originOrZero origin) region →
        (originOrZero origin).x.toNat = 0 ∨ image.pixelSize.toNat ≤ 1) := by
  unfold MapImageExact
  refine imp_congr_right fun haccepted => imp_congr_right fun hw => ?_
  obtain ⟨⟨hy, hz⟩, hrow, hslice, hsize⟩ := mapImageEvent_inside haccepted hw
  have hlt := image.size.toNat_lt
  have hbase : (originOrZero origin).z.toNat * image.slicePitch.toNat +
      (originOrZero origin).y.toNat * image.rowPitch.toNat +
      (originOrZero origin).x.toNat * image.pixelSize.toNat < 2 ^ 64 := by
    have hstart := corner_le hrow hslice hsize hy hz
    omega
  dsimp only
  rw [mapped_offset h, mul_pixel_mod h hbase]
  refine ⟨And.left, fun hx => ⟨hx, fun i j k hi hj hk => ?_⟩⟩
  rw [(mul_pixel_mod h hbase).mpr hx]
  exact region_inside hrow hslice hsize hi hj hk

end MapImage

/-- Four by four pixels of four bytes. -/
def pixels16 : ImageArgs := ⟨4, 4, 1, 0, 0, some ⟨clRGBA, clUnormInt8⟩, 0, 1⟩

def image16 : MemObject where
  type := .image2D
  context := 0
  size := 64
  offset := 0
  flags := 1
  width := 4
  height := 4
  depth := 0
  rowPitch := 16
  slicePitch := 64
  pixelSize := 4
  format := (0x10B5, 0x10D2)
  allocates := true

theorem image16_isImage : IsImage image16 := by
  have himage : image2D pixels16 = some (0, ⟨4, 4, 16, some ⟨clRGBA, clUnormInt8⟩⟩) := rfl
  exact .image2D 0 true himage rfl

/-- The pixel in the second column is taken for the one in the fifth. -/
theorem mapped_pixel_wrong : ¬∀ (queue : QueueInfo) (image : MemObject) (mapFlags : UInt64)
    (origin : Option Vec3) (region : Vec3) (data : UInt64), IsImage image →
    MapImageExact queue image mapFlags origin region data := by
  intro h
  have haccepted : mapImageEvent LinearCommand.smallQueue (some image16) clMapRead
      (some ⟨1, 0, 0⟩) (some ⟨1, 1, 1⟩) = pure () := rfl
  have hw : NoWrap image16 ⟨1, 0, 0⟩ ⟨1, 1, 1⟩ := by constructor <;> decide
  have hptr := (h LinearCommand.smallQueue image16 clMapRead (some ⟨1, 0, 0⟩) ⟨1, 1, 1⟩ 4096
    image16_isImage haccepted hw).1
  revert hptr
  decide

theorem image16_map_exact : mapImageEvent LinearCommand.smallQueue (some image16) clMapRead
      (some ⟨0, 1, 0⟩) (some ⟨2, 1, 1⟩) = pure () ∧ MapImageExact LinearCommand.smallQueue
      image16 clMapRead (some ⟨0, 1, 0⟩) ⟨2, 1, 1⟩ 4096 :=
  ⟨rfl, (map_image_exact_iff image16_isImage).mpr fun _ _ => .inl rfl⟩

end Shamrock.Runtime
