import Mathlib.Tactic.SplitIfs
import Shamrock.Runtime.Linear

/-!
# The geometry of images

The constructors of `Image2D` and `Image3D`: pitches and sizes are products of what the user gives,
modulo 2^64, and a constructor that finds an error leaves the members as they are at that point.
-/
namespace Shamrock.Runtime

def clR : UInt32 := 0x10B0
def clA : UInt32 := 0x10B1
def clRG : UInt32 := 0x10B2
def clRA : UInt32 := 0x10B3
def clRGB : UInt32 := 0x10B4
def clRGBA : UInt32 := 0x10B5
def clBGRA : UInt32 := 0x10B6
def clARGB : UInt32 := 0x10B7
def clIntensity : UInt32 := 0x10B8
def clLuminance : UInt32 := 0x10B9
def clRx : UInt32 := 0x10BA
def clRGx : UInt32 := 0x10BB
def clRGBx : UInt32 := 0x10BC

def clSnormInt8 : UInt32 := 0x10D0
def clSnormInt16 : UInt32 := 0x10D1
def clUnormInt8 : UInt32 := 0x10D2
def clUnormInt16 : UInt32 := 0x10D3
def clUnormShort565 : UInt32 := 0x10D4
def clUnormShort555 : UInt32 := 0x10D5
def clUnormInt101010 : UInt32 := 0x10D6
def clSignedInt8 : UInt32 := 0x10D7
def clSignedInt16 : UInt32 := 0x10D8
def clSignedInt32 : UInt32 := 0x10D9
def clUnsignedInt8 : UInt32 := 0x10DA
def clUnsignedInt16 : UInt32 := 0x10DB
def clUnsignedInt32 : UInt32 := 0x10DC
def clHalfFloat : UInt32 := 0x10DD
def clFloat : UInt32 := 0x10DE

/-- `cl_image_format` -/
structure ImageFormat where
  imageChannelOrder : UInt32
  imageChannelDataType : UInt32
  deriving DecidableEq, Repr

namespace ImageFormat

def elementSize (format : ImageFormat) : UInt64 :=
  if format.imageChannelDataType ∈ [clSnormInt8, clUnormInt8, clSignedInt8, clUnsignedInt8] then 1
  else if format.imageChannelDataType ∈
    [clSnormInt16, clUnormInt16, clSignedInt16, clUnsignedInt16] then 2
  else if format.imageChannelDataType ∈ [clSignedInt32, clUnsignedInt32] then 4
  else if format.imageChannelDataType = clFloat then 4
  else if format.imageChannelDataType = clHalfFloat then 2
  else if format.imageChannelDataType ∈ [clUnormShort565, clUnormShort555] then 2
  else if format.imageChannelDataType = clUnormInt101010 then 4
  else 0

def channels (format : ImageFormat) : UInt32 :=
  if format.imageChannelOrder ∈ [clR, clRx, clA, clIntensity, clLuminance] then 1
  else if format.imageChannelOrder ∈ [clRG, clRGx, clRA] then 2
  else if format.imageChannelOrder ∈ [clRGBA, clARGB, clBGRA] then 4
  else if format.imageChannelOrder ∈ [clRGBx, clRGB] then 1
  else 0

def pixelSize (format : ImageFormat) : UInt64 :=
  if format.imageChannelDataType ∈ [clUnormShort565, clUnormShort555] then 2
  else if format.imageChannelDataType = clUnormInt101010 then 4
  else format.channels.toUInt64 * format.elementSize

/-- The checks of the format descriptor. An order or a type that none of them names passes. -/
def rejected (format : ImageFormat) : Bool :=
  let order := format.imageChannelOrder
  let type := format.imageChannelDataType
  (type ∈ [clUnormInt101010, clUnormShort555, clUnormShort565] &&
    (order ≠ clRGB || order ≠ clRGBx)) ||
  (order ∈ [clLuminance, clIntensity] &&
    type ∉ [clUnormInt8, clUnormInt16, clSnormInt8, clSnormInt16, clHalfFloat, clFloat]) ||
  (order ∈ [clRGB, clRGBx] && type ∉ [clUnormShort555, clUnormShort565, clUnormInt101010]) ||
  (order ∈ [clARGB, clBGRA] && type ∉ [clUnormInt8, clSnormInt8, clSignedInt8, clUnsignedInt8])

end ImageFormat

/-- The arguments of the constructors; one of them has no depth and no slice pitch. -/
structure ImageArgs where
  width : UInt64
  height : UInt64
  depth : UInt64
  rowPitch : UInt64
  slicePitch : UInt64
  format : Option ImageFormat
  hostPtr : UInt64
  flags : UInt64
  deriving DecidableEq, Repr

/-- The format is not there before it has been copied. -/
structure Image2D where
  width : UInt64
  height : UInt64
  rowPitch : UInt64
  format : Option ImageFormat
  deriving DecidableEq, Repr

def Image2D.size (image : Image2D) : UInt64 := image.height * image.rowPitch

def Image2D.slicePitch (image : Image2D) : UInt64 := image.size

/-- `*errcode_ret` after a check. -/
def errcode (c : Check Unit) : Int :=
  match c.run with
  | some (.error code) => code
  | _ => 0

/-- `Image2D::Image2D`, with the code that it leaves; no answer stands for a division by zero. -/
def image2D (a : ImageArgs) : Option (Int × Image2D) :=
  let image : Image2D := ⟨a.width, a.height, a.rowPitch, none⟩
  if a.width = 0 ∨ a.height = 0 then some (clInvalidImageSize, image)
  else
    match a.format with
    | none => some (clInvalidImageFormatDescriptor, image)
    | some format =>
      let image := { image with format := some format }
      if format.rejected then some (clInvalidImageFormatDescriptor, image)
      else
        let image := { image with rowPitch := a.width * format.pixelSize }
        if a.rowPitch ≠ 0 then
          if a.hostPtr = 0 then some (clInvalidImageSize, image)
          else if a.rowPitch < image.rowPitch then some (clInvalidImageSize, image)
          else if format.pixelSize = 0 then none
          else if a.rowPitch % format.pixelSize ≠ 0 then some (clInvalidImageSize, image)
          else some (errcode (memObject a.flags a.hostPtr), { image with rowPitch := a.rowPitch })
        else some (errcode (memObject a.flags a.hostPtr), image)

/-- The slice pitch is not there before it has been computed. -/
structure Image3D extends Image2D where
  depth : UInt64
  slicePitch3D : Option UInt64
  deriving DecidableEq, Repr

/-- `Image3D::Image3D` goes on after an error of `Image2D::Image2D`. -/
def image3D (a : ImageArgs) : Option (Int × Image3D) :=
  match image2D a with
  | none => none
  | some (code, image) =>
    if a.depth ≤ 1 then some (clInvalidImageSize, ⟨image, a.depth, none⟩)
    else
      let least := a.height * image.rowPitch
      let image3D : Image3D := ⟨image, a.depth, some least⟩
      if a.slicePitch ≠ 0 then
        if a.hostPtr = 0 then some (clInvalidImageSize, image3D)
        else if a.slicePitch < least then some (clInvalidImageSize, image3D)
        else if image.rowPitch = 0 then none
        else if a.slicePitch % image.rowPitch ≠ 0 then some (clInvalidImageSize, image3D)
        else some (code, { image3D with slicePitch3D := some a.slicePitch })
      else some (code, image3D)

/-- Pitches and a size over the natural numbers, with room for every pixel. -/
structure Geometry (width height depth pixelSize rowPitch slicePitch bytes total : Nat) : Prop where
  pixel : 0 < pixelSize
  row : width * pixelSize ≤ rowPitch
  multiple : pixelSize ∣ rowPitch
  slice : height * rowPitch ≤ slicePitch
  size : bytes = total
  inside : ∀ x y z, x < width → y < height → z < depth →
    z * slicePitch + y * rowPitch + x * pixelSize + pixelSize ≤ bytes

/-- The constructor divides by no zero, and if it reports success the geometry is right. -/
def Image2DExact (a : ImageArgs) : Prop :=
  ∃ code image, image2D a = some (code, image) ∧ (code = 0 → ∃ format,
    image.format = some format ∧ Geometry image.width.toNat image.height.toNat 1
      format.pixelSize.toNat image.rowPitch.toNat image.slicePitch.toNat image.size.toNat
      (image.height.toNat * image.rowPitch.toNat))

def Image3DExact (a : ImageArgs) : Prop :=
  ∃ code image, image3D a = some (code, image) ∧ (code = 0 → ∃ format slicePitch,
    image.format = some format ∧ image.slicePitch3D = some slicePitch ∧
    Geometry image.width.toNat image.height.toNat image.depth.toNat
      format.pixelSize.toNat image.rowPitch.toNat slicePitch.toNat
      (image.depth * slicePitch).toNat (image.depth.toNat * slicePitch.toNat))

namespace ImageArgs

/-- The format, if the size and the format pass. -/
def described (a : ImageArgs) : Option ImageFormat :=
  if a.width = 0 ∨ a.height = 0 then none else a.format.filter fun format => !format.rejected

/-- The row pitch of an image without errors. -/
def pitch (a : ImageArgs) (format : ImageFormat) : UInt64 :=
  if a.rowPitch = 0 then a.width * format.pixelSize else a.rowPitch

def slice (a : ImageArgs) (format : ImageFormat) : UInt64 :=
  if a.slicePitch = 0 then a.height * a.pitch format else a.slicePitch

/-- The other tests of `MemObject::MemObject` and `Image2D::Image2D`. -/
def Accepted2D (a : ImageArgs) (format : ImageFormat) : Prop :=
  memObject a.flags a.hostPtr = pure () ∧
    (a.rowPitch ≠ 0 → a.hostPtr ≠ 0 ∧ a.width * format.pixelSize ≤ a.rowPitch ∧
      a.rowPitch % format.pixelSize = 0)

def Accepted3D (a : ImageArgs) (format : ImageFormat) : Prop :=
  a.Accepted2D format ∧ 1 < a.depth ∧
    (a.slicePitch ≠ 0 → a.hostPtr ≠ 0 ∧ a.height * a.pitch format ≤ a.slicePitch ∧
      a.slicePitch % a.pitch format = 0)

/-- A row pitch is given for a format with pixels of no bytes. -/
def EmptyPixels (a : ImageArgs) : Prop :=
  a.rowPitch ≠ 0 ∧ a.hostPtr ≠ 0 ∧ ∃ format ∈ a.described, format.pixelSize = 0

/-- A slice pitch is given, and the row pitch is zero. -/
def EmptyRows (a : ImageArgs) : Prop :=
  1 < a.depth ∧ a.slicePitch ≠ 0 ∧ a.hostPtr ≠ 0 ∧
    match a.described with
    | none => a.rowPitch = 0
    | some format => a.width * format.pixelSize = 0 ∧
        (a.rowPitch = 0 ∨ a.rowPitch % format.pixelSize ≠ 0)

/-- The rows and the slices have fewer than 2^64 bytes, and a pixel has some. -/
def Small2D (a : ImageArgs) (format : ImageFormat) : Prop :=
  0 < format.pixelSize.toNat ∧ a.width.toNat * format.pixelSize.toNat < 2 ^ 64 ∧
    a.height.toNat * (a.pitch format).toNat < 2 ^ 64

def Small3D (a : ImageArgs) (format : ImageFormat) : Prop :=
  a.Small2D format ∧ a.depth.toNat * (a.slice format).toNat < 2 ^ 64

end ImageArgs

section Constructors

variable {a : ImageArgs} {format : ImageFormat} {image : Image2D} {code : Int}

theorem errcode_bind {test : Bool} {code : Int} {c : Unit → Check Unit} (hcode : code ≠ 0) :
    errcode (reject test code >>= c) = 0 ↔ test = false ∧ errcode (c ()) = 0 := by
  cases test with
  | false => exact ⟨fun h => ⟨rfl, h⟩, fun h => h.2⟩
  | true => exact ⟨fun h => absurd h hcode, fun h => by cases h.1⟩

theorem errcode_reject {test : Bool} {code : Int} (hcode : code ≠ 0) :
    errcode (reject test code) = 0 ↔ test = false := by
  cases test with
  | false => exact iff_of_true rfl rfl
  | true => exact ⟨fun h => absurd h hcode, fun h => by cases h⟩

/-- The constructor of `MemObject` leaves the code of success exactly if it finds no error. -/
theorem errcode_memObject {flags hostPtr : UInt64} :
    errcode (memObject flags hostPtr) = 0 ↔ memObject flags hostPtr = pure () := by
  have hvalue : clInvalidValue ≠ 0 := by decide
  have hptr : clInvalidHostPtr ≠ 0 := by decide
  unfold memObject
  simp only [errcode_bind hvalue, errcode_bind hptr, errcode_reject hptr, bind_eq_pure,
    reject_eq_pure, exists_const]

theorem described_eq_some : format ∈ a.described ↔
    ¬(a.width = 0 ∨ a.height = 0) ∧ a.format = some format ∧ format.rejected = false := by
  unfold ImageArgs.described
  by_cases hempty : a.width = 0 ∨ a.height = 0
  · simp [hempty]
  · simp [hempty, Option.filter_eq_some_iff]

/-- An image that is not described fails and keeps the row pitch that is given. -/
theorem image2D_undescribed (h : a.described = none) :
    ∃ code format, code ≠ 0 ∧ image2D a = some (code, ⟨a.width, a.height, a.rowPitch, format⟩) := by
  unfold ImageArgs.described at h
  unfold image2D
  by_cases hempty : a.width = 0 ∨ a.height = 0
  · rw [if_pos hempty]
    exact ⟨_, _, by decide, rfl⟩
  · rw [if_neg hempty] at h ⊢
    cases hf : a.format with
    | none => exact ⟨_, _, by decide, rfl⟩
    | some format =>
      rw [hf] at h
      have hrejected : format.rejected = true := by simpa using h
      dsimp only
      rw [if_pos hrejected]
      exact ⟨_, _, by decide, rfl⟩

theorem image2D_described (h : format ∈ a.described) : image2D a =
    if a.rowPitch ≠ 0 then
      if a.hostPtr = 0 ∨ a.rowPitch < a.width * format.pixelSize then
        some (clInvalidImageSize, ⟨a.width, a.height, a.width * format.pixelSize, some format⟩)
      else if format.pixelSize = 0 then none
      else if a.rowPitch % format.pixelSize ≠ 0 then
        some (clInvalidImageSize, ⟨a.width, a.height, a.width * format.pixelSize, some format⟩)
      else some (errcode (memObject a.flags a.hostPtr),
        ⟨a.width, a.height, a.rowPitch, some format⟩)
    else some (errcode (memObject a.flags a.hostPtr),
      ⟨a.width, a.height, a.width * format.pixelSize, some format⟩) := by
  obtain ⟨hempty, hf, hrejected⟩ := described_eq_some.mp h
  unfold image2D
  rw [if_neg hempty, hf]
  dsimp only
  rw [if_neg (Bool.eq_false_iff.mp hrejected)]
  by_cases hhost : a.hostPtr = 0
  · simp only [hhost, if_true, true_or]
  · simp only [hhost, if_false, false_or]

theorem image2D_eq_none : image2D a = none ↔ a.EmptyPixels := by
  unfold ImageArgs.EmptyPixels
  cases hd : a.described with
  | none =>
    obtain ⟨code, format, -, heq⟩ := image2D_undescribed hd
    rw [heq]
    simp
  | some format =>
    rw [image2D_described hd]
    by_cases hpitch : a.rowPitch = 0
    · simp [hpitch]
    by_cases hpixel : format.pixelSize = 0
    · have hleast : ¬a.rowPitch < a.width * format.pixelSize := by
        rw [hpixel, UInt64.mul_zero]
        exact UInt64.not_lt_zero
      by_cases hhost : a.hostPtr = 0
      · simp [hpitch, hhost]
      · rw [if_pos hpitch, if_neg (not_or.mpr ⟨hhost, hleast⟩), if_pos hpixel]
        simp [hpitch, hhost, hpixel]
    · simp only [hpixel, if_false]
      constructor
      · intro h
        split_ifs at h
      · rintro ⟨-, -, format', hformat, hzero⟩
        cases hformat
        exact absurd hzero hpixel

theorem image2D_success : image2D a = some (0, image) ↔
    ∃ format ∈ a.described, a.Accepted2D format ∧ (a.rowPitch ≠ 0 → format.pixelSize ≠ 0) ∧
      image = ⟨a.width, a.height, a.pitch format, some format⟩ := by
  have hsize : clInvalidImageSize ≠ 0 := by decide
  cases hd : a.described with
  | none =>
    obtain ⟨code, format, hcode, heq⟩ := image2D_undescribed hd
    rw [heq]
    simp [hcode]
  | some format =>
    rw [image2D_described hd]
    unfold ImageArgs.Accepted2D ImageArgs.pitch
    rw [← errcode_memObject]
    simp only [Option.mem_def, Option.some.injEq, exists_eq_left']
    by_cases hpitch : a.rowPitch = 0
    · simp [hpitch, eq_comm]
    · rw [if_pos hpitch, if_neg hpitch]
      split_ifs with hleast hpixel hmultiple
      · rw [← UInt64.not_le] at hleast
        simp [hsize, hpitch]
        tauto
      · simp [hpitch, hpixel]
      · simp [hsize, hpitch, hmultiple]
      · have hle : a.width * format.pixelSize ≤ a.rowPitch :=
          UInt64.not_lt.mp fun h => hleast (.inr h)
        have hhost : a.hostPtr ≠ 0 := fun h => hleast (.inl h)
        have hdvd : a.rowPitch % format.pixelSize = 0 := not_not.mp hmultiple
        simp [hpitch, hpixel, hle, hhost, hdvd, eq_comm]

/-- The row pitch that is left is zero only if none is given, or if the product wraps around. -/
theorem image2D_rowPitch (h : image2D a = some (code, image)) (hhost : a.hostPtr ≠ 0) :
    image.rowPitch = 0 ↔ match a.described with
      | none => a.rowPitch = 0
      | some format => a.width * format.pixelSize = 0 ∧
          (a.rowPitch = 0 ∨ a.rowPitch % format.pixelSize ≠ 0) := by
  cases hd : a.described with
  | none =>
    obtain ⟨code, format, -, heq⟩ := image2D_undescribed hd
    rw [heq] at h
    cases h
    exact Iff.rfl
  | some format =>
    rw [image2D_described hd] at h
    by_cases hpitch : a.rowPitch = 0
    · rw [if_neg (not_not.mpr hpitch)] at h
      cases h
      simp [hpitch]
    · rw [if_pos hpitch] at h
      split_ifs at h with hleast hpixel hmultiple
      · cases h
        obtain hnull | hlt := hleast
        · exact absurd hnull hhost
        · have hne : a.width * format.pixelSize ≠ 0 := fun hzero => by
            rw [hzero] at hlt
            exact UInt64.not_lt_zero hlt
          simp [hne]
      · cases h
        simp [hmultiple]
      · cases h
        simp [hpitch, not_not.mp hmultiple]

/-- The slice pitch is divided by the row pitch that is left. -/
theorem image3D_eq_none : image3D a = none ↔ a.EmptyPixels ∨ a.EmptyRows := by
  rw [← image2D_eq_none]
  unfold image3D ImageArgs.EmptyRows
  cases h : image2D a with
  | none => simp
  | some p =>
    obtain ⟨code, image⟩ := p
    dsimp only
    by_cases hhost : a.hostPtr = 0
    · simp only [hhost, if_true]
      split_ifs
      all_goals simp
    · rw [← image2D_rowPitch h hhost]
      by_cases hrow : image.rowPitch = 0
      · simp only [hrow, UInt64.mul_zero, UInt64.not_lt_zero, if_true, if_false, hhost]
        split_ifs with hdepth hslice
        · simp [UInt64.not_lt.mpr hdepth]
        · simp [UInt64.not_le.mp hdepth, hslice, hhost]
        · simp [not_not.mp hslice]
      · simp only [hrow, if_false, hhost]
        split_ifs
        all_goals simp

theorem image3D_success {image : Image3D} : image3D a = some (0, image) ↔
    ∃ format ∈ a.described, a.Accepted3D format ∧ (a.rowPitch ≠ 0 → format.pixelSize ≠ 0) ∧
      (a.slicePitch ≠ 0 → a.pitch format ≠ 0) ∧
      image =
        ⟨⟨a.width, a.height, a.pitch format, some format⟩, a.depth, some (a.slice format)⟩ := by
  have hsize : clInvalidImageSize ≠ 0 := by decide
  constructor
  · intro h
    unfold image3D at h
    cases h2D : image2D a with
    | none =>
      rw [h2D] at h
      cases h
    | some p =>
      obtain ⟨code, image2D⟩ := p
      rw [h2D] at h
      dsimp only at h
      -- only the two branches without an error of their own are left
      split_ifs at h with hdepth hslice hhost hleast hrow hmultiple
      · exact absurd (congrArg Prod.fst (Option.some.inj h)) hsize
      · exact absurd (congrArg Prod.fst (Option.some.inj h)) hsize
      · exact absurd (congrArg Prod.fst (Option.some.inj h)) hsize
      · exact absurd (congrArg Prod.fst (Option.some.inj h)) hsize
      · cases h
        obtain ⟨format, hformat, haccepted, hpixel, rfl⟩ := image2D_success.mp h2D
        have hdvd := not_not.mp hmultiple
        refine ⟨format, hformat, ⟨haccepted, UInt64.not_le.mp hdepth, fun _ =>
          ⟨hhost, UInt64.not_lt.mp hleast, hdvd⟩⟩, hpixel, fun _ => hrow, ?_⟩
        rw [ImageArgs.slice, if_neg hslice]
      · cases h
        obtain ⟨format, hformat, haccepted, hpixel, rfl⟩ := image2D_success.mp h2D
        refine ⟨format, hformat, ⟨haccepted, UInt64.not_le.mp hdepth, fun hne =>
          absurd hne hslice⟩, hpixel, fun hne => absurd hne hslice, ?_⟩
        rw [ImageArgs.slice, if_pos (not_not.mp hslice)]
  · rintro ⟨format, hformat, ⟨haccepted, hdepth, htests⟩, hpixel, hrow, rfl⟩
    have h2D := image2D_success.mpr ⟨format, hformat, haccepted, hpixel, rfl⟩
    unfold image3D ImageArgs.slice
    rw [h2D]
    dsimp only
    rw [if_neg (UInt64.not_le.mpr hdepth)]
    by_cases hslice : a.slicePitch = 0
    · rw [if_neg (not_not.mpr hslice), if_pos hslice]
    · obtain ⟨hhost, hleast, hdvd⟩ := htests hslice
      rw [if_pos hslice, if_neg hhost, if_neg (UInt64.not_lt.mpr hleast), if_neg (hrow hslice),
        if_neg (not_not.mpr hdvd), if_neg hslice]

/-- Pitches that have room for their rows and slices have room for every pixel. -/
theorem geometry_of {width height depth pixelSize rowPitch slicePitch bytes total : Nat}
    (hpixel : 0 < pixelSize) (hrow : width * pixelSize ≤ rowPitch)
    (hmultiple : pixelSize ∣ rowPitch) (hslice : height * rowPitch ≤ slicePitch)
    (hsize : bytes = total) (hroom : depth * slicePitch ≤ bytes) :
    Geometry width height depth pixelSize rowPitch slicePitch bytes total where
  pixel := hpixel
  row := hrow
  multiple := hmultiple
  slice := hslice
  size := hsize
  inside x y z hx hy hz := by
    have hx : (x + 1) * pixelSize ≤ width * pixelSize := Nat.mul_le_mul_right _ hx
    have hy : (y + 1) * rowPitch ≤ height * rowPitch := Nat.mul_le_mul_right _ hy
    have hz : (z + 1) * slicePitch ≤ depth * slicePitch := Nat.mul_le_mul_right _ hz
    rw [Nat.succ_mul] at hx hy hz
    omega

theorem mod_eq_zero_iff {x y : UInt64} : x % y = 0 ↔ y.toNat ∣ x.toNat := by
  rw [← UInt64.toNat_inj, UInt64.toNat_mod, Nat.dvd_iff_mod_eq_zero]
  exact Iff.rfl

/-- The row pitch has room for the pixels exactly if their number of bytes does not wrap around. -/
theorem row_iff (h : a.Accepted2D format) :
    a.width.toNat * format.pixelSize.toNat ≤ (a.pitch format).toNat ↔
      a.width.toNat * format.pixelSize.toNat < 2 ^ 64 := by
  have hlt := (a.pitch format).toNat_lt
  refine ⟨fun hle => by omega, fun hsmall => ?_⟩
  unfold ImageArgs.pitch
  split_ifs with hpitch
  · rw [UInt64.toNat_mul, Nat.mod_eq_of_lt hsmall]
  · have hle := UInt64.le_iff_toNat_le.mp (h.2 hpitch).2.1
    rwa [UInt64.toNat_mul, Nat.mod_eq_of_lt hsmall] at hle

theorem slice_iff (h : a.Accepted3D format) :
    a.height.toNat * (a.pitch format).toNat ≤ (a.slice format).toNat ↔
      a.height.toNat * (a.pitch format).toNat < 2 ^ 64 := by
  have hlt := (a.slice format).toNat_lt
  refine ⟨fun hle => by omega, fun hsmall => ?_⟩
  unfold ImageArgs.slice
  split_ifs with hslice
  · rw [UInt64.toNat_mul, Nat.mod_eq_of_lt hsmall]
  · have hle := UInt64.le_iff_toNat_le.mp (h.2.2 hslice).2.1
    rwa [UInt64.toNat_mul, Nat.mod_eq_of_lt hsmall] at hle

/-- A product is what the machine computes exactly if it does not wrap around. -/
theorem mul_exact_iff {x y : UInt64} :
    (x * y).toNat = x.toNat * y.toNat ↔ x.toNat * y.toNat < 2 ^ 64 := by
  rw [UInt64.toNat_mul]
  exact Nat.mod_eq_iff_lt (by decide)

theorem pitch_multiple (h : a.Accepted2D format)
    (hsmall : a.width.toNat * format.pixelSize.toNat < 2 ^ 64) :
    format.pixelSize.toNat ∣ (a.pitch format).toNat := by
  unfold ImageArgs.pitch
  split_ifs with hpitch
  · rw [mul_exact_iff.mpr hsmall]
    exact Nat.dvd_mul_left _ _
  · exact mod_eq_zero_iff.mp (h.2 hpitch).2.2

theorem image2D_exact_iff : Image2DExact a ↔
    ¬a.EmptyPixels ∧ ∀ format ∈ a.described, a.Accepted2D format → a.Small2D format := by
  constructor
  · rintro ⟨code, image, heq, hgeometry⟩
    have hpixels : ¬a.EmptyPixels := by
      rw [← image2D_eq_none, heq]
      exact Option.some_ne_none _
    refine ⟨hpixels, fun format hformat haccepted => ?_⟩
    have hpixel : a.rowPitch ≠ 0 → format.pixelSize ≠ 0 := fun hpitch hzero =>
      hpixels ⟨hpitch, (haccepted.2 hpitch).1, format, hformat, hzero⟩
    have hsuccess := image2D_success.mpr ⟨format, hformat, haccepted, hpixel, rfl⟩
    rw [heq] at hsuccess
    cases hsuccess
    obtain ⟨_, hsome, hg⟩ := hgeometry rfl
    cases hsome
    have hrow := (row_iff haccepted).mp hg.row
    exact ⟨hg.pixel, hrow, mul_exact_iff.mp hg.size⟩
  · rintro ⟨hpixels, hsmall⟩
    cases h : image2D a with
    | none => exact absurd (image2D_eq_none.mp h) hpixels
    | some p =>
      obtain ⟨code, image⟩ := p
      refine ⟨code, image, h, fun hcode => ?_⟩
      cases hcode
      obtain ⟨format, hformat, haccepted, -, rfl⟩ := image2D_success.mp h
      obtain ⟨hpixel, hrow, hsize⟩ := hsmall format hformat haccepted
      have hsize := mul_exact_iff.mpr hsize
      exact ⟨format, rfl, geometry_of hpixel ((row_iff haccepted).mpr hrow)
        (pitch_multiple haccepted hrow) hsize.ge hsize (Nat.one_mul _).le⟩

theorem image3D_exact_iff : Image3DExact a ↔ ¬a.EmptyPixels ∧ ¬a.EmptyRows ∧
    ∀ format ∈ a.described, a.Accepted3D format → a.Small3D format := by
  constructor
  · rintro ⟨code, image, heq, hgeometry⟩
    have hdivides : ¬(a.EmptyPixels ∨ a.EmptyRows) := by
      rw [← image3D_eq_none, heq]
      exact Option.some_ne_none _
    obtain ⟨hpixels, hrows⟩ := not_or.mp hdivides
    refine ⟨hpixels, hrows, fun format hformat haccepted => ?_⟩
    have hpixel : a.rowPitch ≠ 0 → format.pixelSize ≠ 0 := fun hpitch hzero =>
      hpixels ⟨hpitch, (haccepted.1.2 hpitch).1, format, hformat, hzero⟩
    have hpitch : a.slicePitch ≠ 0 → a.pitch format ≠ 0 := by
      intro hslice hzero
      have hhost := (haccepted.2.2 hslice).1
      refine hrows ⟨haccepted.2.1, hslice, hhost, ?_⟩
      have h2D := image2D_success.mpr ⟨format, hformat, haccepted.1, hpixel, rfl⟩
      exact (image2D_rowPitch h2D hhost).mp hzero
    have hsuccess := image3D_success.mpr ⟨format, hformat, haccepted, hpixel, hpitch, rfl⟩
    rw [heq] at hsuccess
    cases hsuccess
    obtain ⟨_, _, hsome, hsome', hg⟩ := hgeometry rfl
    cases hsome
    cases hsome'
    exact ⟨⟨hg.pixel, (row_iff haccepted.1).mp hg.row, (slice_iff haccepted).mp hg.slice⟩,
      mul_exact_iff.mp hg.size⟩
  · rintro ⟨hpixels, hrows, hsmall⟩
    cases h : image3D a with
    | none => exact absurd (image3D_eq_none.mp h) (not_or.mpr ⟨hpixels, hrows⟩)
    | some p =>
      obtain ⟨code, image⟩ := p
      refine ⟨code, image, h, fun hcode => ?_⟩
      cases hcode
      obtain ⟨format, hformat, haccepted, -, -, rfl⟩ := image3D_success.mp h
      obtain ⟨⟨hpixel, hrow, hslice⟩, hsize⟩ := hsmall format hformat haccepted
      have hsize := mul_exact_iff.mpr hsize
      exact ⟨format, _, rfl, rfl, geometry_of hpixel ((row_iff haccepted.1).mpr hrow)
        (pitch_multiple haccepted.1 hrow) ((slice_iff haccepted).mpr hslice) hsize hsize.ge⟩

end Constructors

/-- Each constructor meets its geometry exactly if no pitch is divided by zero and, for what is
accepted, pixels have bytes and no product wraps around. -/
theorem images_exact_iff (a : ImageArgs) :
    (Image2DExact a ↔
      ¬a.EmptyPixels ∧ ∀ format ∈ a.described, a.Accepted2D format → a.Small2D format) ∧
    (Image3DExact a ↔ ¬a.EmptyPixels ∧ ¬a.EmptyRows ∧
      ∀ format ∈ a.described, a.Accepted3D format → a.Small3D format) :=
  ⟨image2D_exact_iff, image3D_exact_iff⟩

/-- An image of 2^62 pixels of four bytes in a row. -/
theorem wrapped_image_accepted : ¬∀ a, Image2DExact a ∧ Image3DExact a := by
  intro h
  obtain ⟨code, image, heq, hgeometry⟩ :=
    (h ⟨0x4000000000000000, 1, 2, 0, 0, some ⟨clRGBA, clUnormInt8⟩, 0, 1⟩).1
  cases heq
  obtain ⟨format, hformat, hg⟩ := hgeometry rfl
  cases hformat
  exact absurd hg.row (by decide)

end Shamrock.Runtime
