import Mathlib.Tactic.IntervalCases
import Shamrock.Lib.Bytes
import Shamrock.Runtime.MapImage

/-!
# Pixels of integer images

`writeImage` and `readImage` for images with an integer channel type. The four components of a
vector are a function of their index, and an uninitialised vector is any such function.
-/
namespace Shamrock.Runtime

open Bytes

def clkAddressClampToEdge : UInt32 := 0x30
def clkAddressClamp : UInt32 := 0x40

/-- The integer types of one sign. -/
structure IntTypes where
  int8 : UInt32
  int16 : UInt32
  int32 : UInt32

def signedTypes : IntTypes := ⟨clSignedInt8, clSignedInt16, clSignedInt32⟩

def unsignedTypes : IntTypes := ⟨clUnsignedInt8, clUnsignedInt16, clUnsignedInt32⟩

def IntTypes.list (types : IntTypes) : List UInt32 := [types.int8, types.int16, types.int32]

namespace Sampler

/-- `clamp` -/
def clamp (a b c : Int) : Int := if a < b then b else if c < a then c else a

/-- A `size_t` as an `int`. -/
def toInt (n : UInt64) : Int := Int.bmod n.toNat (2 ^ 32)

structure Coordinates where
  x : Int
  y : Int
  z : Int
  deriving DecidableEq, Repr

/-- Whether the border is met, with the coordinates as they are left. -/
def handleAddressMode (image : MemObject) (c : Coordinates) (sampler : UInt32) :
    Bool × Coordinates :=
  let is3D := image.type = .image3D
  let w := toInt image.width
  let h := toInt image.height
  let d := if is3D then toInt image.depth else 1
  let c : Coordinates :=
    if sampler &&& 0xf0 = clkAddressClampToEdge then
      ⟨clamp c.x 0 (w - 1), clamp c.y 0 (h - 1), if is3D then clamp c.z 0 (d - 1) else c.z⟩
    else if sampler &&& 0xf0 = clkAddressClamp then
      ⟨clamp c.x 0 w, clamp c.y 0 h, if is3D then clamp c.z 0 d else c.z⟩
    else c
  (c.x = w || c.y = h || c.z = d, c)

/-- `convert_to_format`: the loop runs over `components`. -/
def convertToFormat (types : IntTypes) (components : UInt32) (memory : UInt64 → UInt8)
    (dest : UInt64) (data : Nat → UInt32) (type channels : UInt32) : UInt64 → UInt8 :=
  let values := fun i => (data i).toNat
  let memory := if type = types.int32 then storeAll memory dest 4 values channels.toNat else memory
  if type = types.int8 then storeAll memory dest 1 values components.toNat
  else if type = types.int16 then storeAll memory dest 2 values components.toNat
  else memory

def convertToFormatInt (memory : UInt64 → UInt8) (dest : UInt64) (data : Nat → UInt32)
    (type channels : UInt32) : UInt64 → UInt8 :=
  convertToFormat signedTypes channels memory dest data type channels

/-- `for (unsigned int i=0; i<3; ++i)` -/
def convertToFormatUInt (memory : UInt64 → UInt8) (dest : UInt64) (data : Nat → UInt32)
    (type channels : UInt32) : UInt64 → UInt8 :=
  convertToFormat unsignedTypes 3 memory dest data type channels

/-- A value of `n` bytes as an `int`. -/
def extendSign (n v : Nat) : UInt32 :=
  UInt32.ofNat (if 2 * v < 256 ^ n then v else v + (2 ^ 32 - 256 ^ n))

def extendZero (_ v : Nat) : UInt32 := UInt32.ofNat v

/-- `convert_from_format` -/
def convertFromFormat (types : IntTypes) (extend : Nat → Nat → UInt32) (data : Nat → UInt32)
    (memory : UInt64 → UInt8) (source : UInt64) (type channels : UInt32) : Nat → UInt32 :=
  let loaded := fun n i =>
    if i < channels.toNat then extend n (load memory (source + UInt64.ofNat (n * i)) n) else data i
  if type = types.int32 then loaded 4
  else if type = types.int8 then loaded 1
  else if type = types.int16 then loaded 2
  else data

def convertFromFormatInt (data : Nat → UInt32) (memory : UInt64 → UInt8) (source : UInt64)
    (type channels : UInt32) : Nat → UInt32 :=
  convertFromFormat signedTypes extendSign data memory source type channels

def convertFromFormatUInt (data : Nat → UInt32) (memory : UInt64 → UInt8) (source : UInt64)
    (type channels : UInt32) : Nat → UInt32 :=
  convertFromFormat unsignedTypes extendZero data memory source type channels

/-- `slow_shuffle4` -/
def shuffle4 (a b : Nat → UInt32) (x y z w : Nat) : Nat → UInt32 := fun i =>
  let p := if i = 0 then x else if i = 1 then y else if i = 2 then z else w
  if p < 4 then a p else b (p - 4)

def special (tMax : UInt32) : Nat → UInt32 := fun i => if i = 1 then tMax else 0

/-- `swizzle` for reading. An order without a case leaves the target as it is. -/
def swizzleRead (target source : Nat → UInt32) (order tMax : UInt32) : Nat → UInt32 :=
  if order ∈ [clR, clRx] then shuffle4 source (special tMax) 0 4 4 5
  else if order = clA then shuffle4 source (special tMax) 4 4 4 0
  else if order = clIntensity then shuffle4 source source 0 0 0 0
  else if order = clLuminance then shuffle4 source (special tMax) 0 0 0 5
  else if order ∈ [clRG, clRGx] then shuffle4 source (special tMax) 0 1 4 5
  else if order = clRA then shuffle4 source (special tMax) 0 4 4 1
  else if order ∈ [clRGB, clRGBx, clRGBA] then source
  else if order = clARGB then shuffle4 source source 1 2 3 0
  else if order = clBGRA then shuffle4 source source 2 1 0 3
  else target

/-- `swizzle` for writing. -/
def swizzleWrite (source : Nat → UInt32) (order : UInt32) : Nat → UInt32 :=
  if order = clA then shuffle4 source source 3 3 3 3
  else if order = clRA then shuffle4 source source 0 3 3 3
  else if order = clARGB then shuffle4 source source 3 0 1 2
  else if order = clBGRA then shuffle4 source source 2 1 0 3
  else source

end Sampler

/-- The format of an image. -/
def MemObject.imageFormat (image : MemObject) : ImageFormat :=
  ⟨UInt32.ofNat image.format.1, UInt32.ofNat image.format.2⟩

namespace Sampler

/-- `getImageData`, with the data of the buffer. -/
def getImageData (data : UInt64) (image : MemObject) (c : Coordinates) : UInt64 :=
  MappedImage.imageData data (UInt64.ofInt c.x) (UInt64.ofInt c.y) (UInt64.ofInt c.z)
    image.rowPitch image.slicePitch image.pixelSize.toUInt32

/-- `writeImage` for `int32_t` and for `uint32_t`. -/
def writeImage (signed : Bool) (data : UInt64) (image : MemObject) (memory : UInt64 → UInt8)
    (c : Coordinates) (color : Nat → UInt32) : UInt64 → UInt8 :=
  let format := image.imageFormat
  let converted := swizzleWrite color format.imageChannelOrder
  let target := getImageData data image c
  if signed then
    convertToFormatInt memory target converted format.imageChannelDataType format.channels
  else convertToFormatUInt memory target converted format.imageChannelDataType format.channels

/-- `type_max_value` -/
def typeMaxValue (signed : Bool) : UInt32 := if signed then 0x7fffffff else 0xffffffff

/-- The border colour. -/
def border (order : UInt32) : Nat → UInt32 := fun i =>
  if i = 3 ∧ order ∈ [clR, clRG, clRGB, clLuminance] then 1 else 0

/-- `readImage` for `int32_t` and for `uint32_t`. -/
def readImage (signed : Bool) (data : UInt64) (image : MemObject) (memory : UInt64 → UInt8)
    (result converted : Nat → UInt32) (c : Coordinates) (sampler : UInt32) : Nat → UInt32 :=
  let format := image.imageFormat
  let handled := handleAddressMode image c sampler
  if handled.1 then border format.imageChannelOrder
  else
    let source := getImageData data image handled.2
    let converted :=
      if signed then
        convertFromFormatInt converted memory source format.imageChannelDataType format.channels
      else convertFromFormatUInt converted memory source format.imageChannelDataType format.channels
    swizzleRead result converted format.imageChannelOrder (typeMaxValue signed)

/-- A coordinate of the image that an `int` can name. -/
structure InRange (image : MemObject) (c : Coordinates) : Prop where
  nonneg : 0 ≤ c.x ∧ 0 ≤ c.y ∧ 0 ≤ c.z
  int : c.x < 2 ^ 31 ∧ c.y < 2 ^ 31 ∧ c.z < 2 ^ 31
  x : c.x < image.width.toNat
  y : c.y < image.height.toNat
  z : if image.type = .image3D then c.z < image.depth.toNat else c.z = 0

/-- The components fit values of `n` bytes. -/
def FitsType (signed : Bool) (n : Nat) (color : Nat → UInt32) : Prop :=
  ∀ i < 4, if signed then
      -(256 ^ n : Int) ≤ 2 * (color i).toBitVec.toInt ∧ 2 * (color i).toBitVec.toInt < 256 ^ n
    else (color i).toNat < 256 ^ n

/-- The components that an order stores. -/
def stored (order : UInt32) : List Nat :=
  if order ∈ [clR, clRx] then [0]
  else if order = clA then [3]
  else if order ∈ [clRG, clRGx] then [0, 1]
  else if order = clRA then [0, 3]
  else if order ∈ [clRGBA, clARGB, clBGRA] then [0, 1, 2, 3]
  else []

/-- What may stand for a component that is not stored. -/
def fill (order tMax : UInt32) (i : Nat) : List UInt32 :=
  if order ∈ [clR, clRx, clRG, clRGx] then if i = 3 then [tMax] else [0]
  else if order ∈ [clA, clRA] then [0]
  else [0, tMax]

def Returned (signed : Bool) (order : UInt32) (color result : Nat → UInt32) : Prop :=
  ∀ i < 4, (i ∈ stored order → result i = color i) ∧
    (i ∉ stored order → result i ∈ fill order (typeMaxValue signed) i)

/-- A colour that is written can be read again, and no byte outside its pixel changes. -/
def PixelExact (signed : Bool) (image : MemObject) : Prop :=
  ∀ (data : UInt64) (memory : UInt64 → UInt8) (c : Coordinates)
    (color converted result : Nat → UInt32) (sampler : UInt32), InRange image c →
    FitsType signed image.imageFormat.elementSize.toNat color →
    let memory' := writeImage signed data image memory c color
    Returned signed image.imageFormat.imageChannelOrder color
        (readImage signed data image memory' result converted c sampler) ∧
      ∀ a, image.pixelSize.toNat ≤ distance (getImageData data image c) a → memory' a = memory a

/-- The orders of the images with integer types. -/
def intOrders : List UInt32 := [clR, clRx, clA, clRG, clRGx, clRA, clRGBA, clARGB, clBGRA]

def intTypes (signed : Bool) : IntTypes := if signed then signedTypes else unsignedTypes

/-- The sides of the image are values of an `int`. -/
structure SmallSides (image : MemObject) : Prop where
  width : image.width.toNat < 2 ^ 31
  height : image.height.toNat < 2 ^ 31
  depth : image.type = .image3D → image.depth.toNat < 2 ^ 31

section Pixels

variable {image : MemObject} {signed : Bool} {data dest : UInt64} {memory : UInt64 → UInt8}
  {c : Coordinates} {color converted result values : Nat → UInt32} {sampler order type : UInt32}
  {format : ImageFormat} {n i : Nat}

theorem toInt_eq {n : UInt64} : toInt n =
    if n.toNat % 2 ^ 32 < 2 ^ 31 then (n.toNat % 2 ^ 32 : Int) else n.toNat % 2 ^ 32 - 2 ^ 32 := by
  unfold toInt
  rw [Int.bmod_def]
  split_ifs
  all_goals omega

theorem toInt_of_lt {n : UInt64} (h : n.toNat < 2 ^ 31) : toInt n = n.toNat := by
  rw [toInt_eq]
  split_ifs
  all_goals omega

theorem clamp_of_mem {a b c : Int} (hb : b ≤ a) (hc : a ≤ c) : clamp a b c = a := by
  unfold clamp
  rw [if_neg (by omega), if_neg (by omega)]

/-- Coordinates of a small image are kept, and they are no border. -/
theorem handleAddressMode_small (hs : SmallSides image) (hc : InRange image c) :
    handleAddressMode image c sampler = (false, c) := by
  have hw := toInt_of_lt hs.width
  have hh := toInt_of_lt hs.height
  obtain ⟨hx0, hy0, hz0⟩ := hc.nonneg
  have hx := hc.x
  have hy := hc.y
  have hz := hc.z
  have hd : image.type = .image3D → toInt image.depth = image.depth.toNat := fun h =>
    toInt_of_lt (hs.depth h)
  unfold handleAddressMode
  dsimp only
  rw [hw, hh, clamp_of_mem hx0 (by omega), clamp_of_mem hy0 (by omega), clamp_of_mem hx0 (by omega),
    clamp_of_mem hy0 (by omega)]
  by_cases h3D : image.type = .image3D
  · simp only [h3D, if_true] at hz ⊢
    rw [hd h3D, clamp_of_mem hz0 (by omega), clamp_of_mem hz0 (by omega), ite_self, ite_self]
    simp
    omega
  · simp only [h3D, if_false] at hz ⊢
    rw [ite_self, ite_self]
    simp
    omega

theorem mem_types : type ∈ (intTypes signed).list ↔ type = (intTypes signed).int8 ∨
    type = (intTypes signed).int16 ∨ type = (intTypes signed).int32 := by
  simp [IntTypes.list]

/-- What `writeImage` stores: the loop for unsigned values has three passes. -/
theorem writeImage_eq (h : image.imageFormat.imageChannelDataType ∈ (intTypes signed).list) :
    writeImage signed data image memory c color =
      storeAll memory (getImageData data image c) image.imageFormat.elementSize.toNat
        (fun i => (swizzleWrite color image.imageFormat.imageChannelOrder i).toNat)
        (if signed ∨ image.imageFormat.imageChannelDataType = clUnsignedInt32
          then image.imageFormat.channels.toNat else 3) := by
  unfold writeImage
  generalize image.imageFormat = format at h ⊢
  obtain ⟨order, type⟩ := format
  dsimp only at h ⊢
  cases signed with
  | true =>
    rcases mem_types.mp h with rfl | rfl | rfl
    · rfl
    · rfl
    · rfl
  | false =>
    rcases mem_types.mp h with rfl | rfl | rfl
    · rfl
    · rfl
    · rfl

/-- A value of `n` bytes for a component. -/
def extend (signed : Bool) : Nat → Nat → UInt32 := if signed then extendSign else extendZero

theorem readImage_eq (h : image.imageFormat.imageChannelDataType ∈ (intTypes signed).list) :
    readImage signed data image memory result converted c sampler =
      if (handleAddressMode image c sampler).1 then border image.imageFormat.imageChannelOrder
      else swizzleRead result
        (fun i => if i < image.imageFormat.channels.toNat then
          extend signed image.imageFormat.elementSize.toNat
            (load memory (getImageData data image (handleAddressMode image c sampler).2 +
              UInt64.ofNat (image.imageFormat.elementSize.toNat * i))
              image.imageFormat.elementSize.toNat)
          else converted i)
        image.imageFormat.imageChannelOrder (typeMaxValue signed) := by
  unfold readImage
  generalize image.imageFormat = format at h ⊢
  obtain ⟨order, type⟩ := format
  dsimp only at h ⊢
  cases signed with
  | true =>
    rcases mem_types.mp h with rfl | rfl | rfl
    · rfl
    · rfl
    · rfl
  | false =>
    rcases mem_types.mp h with rfl | rfl | rfl
    · rfl
    · rfl
    · rfl

theorem toNat_elementSize (h : format.imageChannelDataType ∈ (intTypes signed).list) :
    format.elementSize.toNat ∈ [1, 2, 4] := by
  obtain ⟨order, type⟩ := format
  change (ImageFormat.elementSize ⟨0, type⟩).toNat ∈ [1, 2, 4]
  cases signed with
  | true =>
    rcases mem_types.mp h with rfl | rfl | rfl
    · decide
    · decide
    · decide
  | false =>
    rcases mem_types.mp h with rfl | rfl | rfl
    · decide
    · decide
    · decide

/-- A value that fits is what its lowest bytes say. -/
theorem extend_mod (hn : n ∈ [1, 2, 4]) (hfits : FitsType signed n color) (hi : i < 4) :
    extend signed n ((color i).toNat % 256 ^ n) = color i := by
  have hfits := hfits i hi
  have hlt := (color i).toNat_lt
  have hself : UInt32.ofNat (color i).toNat = color i := UInt32.ofNat_toNat
  have hnat : (color i).toBitVec.toNat = (color i).toNat := rfl
  cases signed with
  | true =>
    rw [if_pos rfl, BitVec.toInt_eq_toNat_cond, hnat] at hfits
    change UInt32.ofNat _ = _
    conv_rhs => rw [← hself]
    congr 1
    simp only [List.mem_cons, List.not_mem_nil, or_false] at hn
    rcases hn with rfl | rfl | rfl
    all_goals
      split_ifs at hfits ⊢
      all_goals omega
  | false =>
    rw [if_neg Bool.false_ne_true] at hfits
    change UInt32.ofNat _ = _
    rw [Nat.mod_eq_of_lt hfits, hself]

/-- Every component that is written is one of the colour. -/
theorem swizzleWrite_component (color : Nat → UInt32) (order : UInt32) (hi : i < 4) :
    ∃ j < 4, swizzleWrite color order i = color j := by
  have hshuffle : ∀ x y z w, x < 4 → y < 4 → z < 4 → w < 4 →
      ∃ j < 4, shuffle4 color color x y z w i = color j := by
    intro x y z w hx hy hz hw
    unfold shuffle4
    split_ifs
    · exact ⟨_, hx, by simp [hx]⟩
    · exact ⟨_, hy, by simp [hy]⟩
    · exact ⟨_, hz, by simp [hz]⟩
    · exact ⟨_, hw, by simp [hw]⟩
  unfold swizzleWrite
  split_ifs
  · exact hshuffle 3 3 3 3 (by decide) (by decide) (by decide) (by decide)
  · exact hshuffle 0 3 3 3 (by decide) (by decide) (by decide) (by decide)
  · exact hshuffle 3 0 1 2 (by decide) (by decide) (by decide) (by decide)
  · exact hshuffle 2 1 0 3 (by decide) (by decide) (by decide) (by decide)
  · exact ⟨i, hi, rfl⟩

/-- Reading undoes what writing does to the components. -/
theorem swizzleRead_swizzleWrite (h : format.imageChannelOrder ∈ intOrders)
    (hc : ∀ i < format.channels.toNat,
      converted i = swizzleWrite color format.imageChannelOrder i) :
    Returned signed format.imageChannelOrder color
      (swizzleRead result converted format.imageChannelOrder (typeMaxValue signed)) := by
  obtain ⟨order, type⟩ := format
  dsimp only at h hc ⊢
  have h0 := hc 0
  have h1 := hc 1
  have h2 := hc 2
  have h3 := hc 3
  clear hc
  simp only [intOrders, List.mem_cons, List.not_mem_nil, or_false] at h
  intro i hi
  rcases h with rfl | rfl | rfl | rfl | rfl | rfl | rfl | rfl | rfl
  all_goals
    simp [ImageFormat.channels, swizzleWrite, shuffle4, clR, clRx, clA, clRG, clRGx, clRA, clRGBA,
      clARGB, clBGRA, clIntensity, clLuminance] at h0 h1 h2 h3
    interval_cases i
    all_goals
      simp [swizzleRead, shuffle4, special, stored, fill, h0, h1, h2, h3, clR, clRx, clA, clRG,
        clRGx, clRA, clRGBA, clARGB, clBGRA, clIntensity, clLuminance, clRGB, clRGBx]

/-- An image keeps the format that its constructor has accepted, and its sides are not empty. -/
theorem isImage_facts (h : IsImage image) : image.pixelSize = image.imageFormat.pixelSize ∧
    image.imageFormat.rejected = false ∧ 0 < image.width.toNat ∧ 0 < image.height.toNat ∧
    (image.type = .image3D → 1 < image.depth.toNat) := by
  have hpos : ∀ x : UInt64, x ≠ 0 → 0 < x.toNat := fun x hx =>
    Nat.pos_of_ne_zero fun h => hx (UInt64.toNat_inj.mp h)
  cases h with
  | image2D _ _ h hf =>
    obtain ⟨format, hformat, -, -, rfl⟩ := image2D_success.mp h
    cases hf
    obtain ⟨hempty, -, hrejected⟩ := described_eq_some.mp hformat
    obtain ⟨hw, hh⟩ := not_or.mp hempty
    simp only [MemObject.imageFormat, UInt32.ofNat_toNat]
    exact ⟨trivial, hrejected, hpos _ hw, hpos _ hh, fun h => by cases h⟩
  | image3D _ _ h hf _ =>
    obtain ⟨format, hformat, haccepted, -, -, rfl⟩ := image3D_success.mp h
    cases hf
    obtain ⟨hempty, -, hrejected⟩ := described_eq_some.mp hformat
    obtain ⟨hw, hh⟩ := not_or.mp hempty
    simp only [MemObject.imageFormat, UInt32.ofNat_toNat]
    exact ⟨trivial, hrejected, hpos _ hw, hpos _ hh, fun _ =>
      UInt64.lt_iff_toNat_lt.mp haccepted.2.1⟩

/-- A pixel has its channels and nothing else. -/
theorem toNat_pixelSize (h : format.imageChannelDataType ∈ (intTypes signed).list) :
    format.pixelSize.toNat = format.elementSize.toNat * format.channels.toNat := by
  have hplain : format.pixelSize = format.channels.toUInt64 * format.elementSize := by
    obtain ⟨order, type⟩ := format
    cases signed with
    | true =>
      rcases mem_types.mp h with rfl | rfl | rfl
      · rfl
      · rfl
      · rfl
    | false =>
      rcases mem_types.mp h with rfl | rfl | rfl
      · rfl
      · rfl
      · rfl
  have hproduct : ∀ c ∈ [(0 : UInt32), 1, 2, 4], ∀ e ∈ [(0 : UInt64), 1, 2, 4],
      (c.toUInt64 * e).toNat = e.toNat * c.toNat := by
    simp only [List.forall_mem_cons, List.not_mem_nil, false_implies, implies_true, and_true]
    decide
  rw [hplain]
  exact hproduct _ (channels_mem _) _ (elementSize_mem _)

theorem channels_le (format : ImageFormat) : format.channels.toNat ≤ 4 := by
  have hall : ∀ c ∈ [(0 : UInt32), 1, 2, 4], c.toNat ≤ 4 := by
    simp only [List.forall_mem_cons, List.not_mem_nil, false_implies, implies_true, and_true]
    decide
  exact hall _ (channels_mem _)

theorem pixelExact_of (h : IsImage image)
    (ht : image.imageFormat.imageChannelDataType ∈ (intTypes signed).list)
    (horder : image.imageFormat.imageChannelOrder ∈ intOrders)
    (hcount : signed = true ∨ image.imageFormat.imageChannelDataType = clUnsignedInt32)
    (hs : SmallSides image) : PixelExact signed image := by
  obtain ⟨hsize, -⟩ := isImage_facts h
  have hn := toNat_elementSize ht
  have hpixel := toNat_pixelSize ht
  have hle := channels_le image.imageFormat
  have hbytes : image.imageFormat.elementSize.toNat * image.imageFormat.channels.toNat <
      2 ^ 64 := by
    rw [← hpixel]
    exact image.imageFormat.pixelSize.toNat_lt
  intro data memory c color converted result sampler hc hfits
  dsimp only
  rw [readImage_eq ht, writeImage_eq ht, handleAddressMode_small hs hc, if_pos hcount]
  rw [if_neg Bool.false_ne_true]
  constructor
  · refine swizzleRead_swizzleWrite horder fun i hi => ?_
    obtain ⟨j, hj, hcomponent⟩ :=
      swizzleWrite_component color image.imageFormat.imageChannelOrder (i := i) (by omega)
    rw [if_pos hi, load_storeAll hbytes hi, hcomponent]
    exact extend_mod hn hfits hj
  · intro a ha
    rw [hsize] at ha
    exact storeAll_outside hbytes (hpixel ▸ ha)

/-- In every direction there is a coordinate that is not taken for the border. -/
theorem exists_not_border {s : UInt64} (h : 0 < s.toNat) :
    ∃ v : Int, 0 ≤ v ∧ v < 2 ^ 31 ∧ v < s.toNat ∧ v ≠ toInt s := by
  have heq : toInt s = _ := toInt_eq
  by_cases hzero : toInt s = 0
  · refine ⟨1, by decide, by decide, ?_, ?_⟩
    · rw [hzero] at heq
      split_ifs at heq
      all_goals omega
    · rw [hzero]
      decide
  · exact ⟨0, le_refl _, by decide, by omega, fun h => hzero h.symm⟩

theorem handleAddressMode_none : handleAddressMode image c 0 =
    (c.x = toInt image.width || c.y = toInt image.height ||
      c.z = if image.type = .image3D then toInt image.depth else 1, c) := by
  have hedge : ¬((0 : UInt32) &&& 0xf0 = clkAddressClampToEdge) := by decide
  have hclamp : ¬((0 : UInt32) &&& 0xf0 = clkAddressClamp) := by decide
  unfold handleAddressMode
  simp only [hedge, hclamp, if_false]

theorem exists_inner (h : IsImage image) :
    ∃ c, InRange image c ∧ handleAddressMode image c 0 = (false, c) := by
  obtain ⟨-, -, hw, hh, hd⟩ := isImage_facts h
  obtain ⟨x, hx0, hxi, hx, hxw⟩ := exists_not_border hw
  obtain ⟨y, hy0, hyi, hy, hyh⟩ := exists_not_border hh
  have hzero : (0 : Int) < 2 ^ 31 := by decide
  by_cases h3D : image.type = .image3D
  · obtain ⟨z, hz0, hzi, hz, hzd⟩ := exists_not_border (Nat.lt_trans Nat.one_pos (hd h3D))
    refine ⟨⟨x, y, z⟩, ⟨⟨hx0, hy0, hz0⟩, ⟨hxi, hyi, hzi⟩, hx, hy, ?_⟩, ?_⟩
    · rw [if_pos h3D]
      exact hz
    · rw [handleAddressMode_none, if_pos h3D]
      simp [hxw, hyh, hzd]
  · refine ⟨⟨x, y, 0⟩, ⟨⟨hx0, hy0, Int.le_refl _⟩, ⟨hxi, hyi, hzero⟩, hx, hy, ?_⟩, ?_⟩
    · rw [if_neg h3D]
    · rw [handleAddressMode_none, if_neg h3D]
      simp [hxw, hyh]

/-- A side that is no `int` is taken for one of its coordinates, or for a negative number. -/
theorem toInt_of_le {s : UInt64} (h : 2 ^ 31 ≤ s.toNat) :
    (0 ≤ toInt s ∧ toInt s < 2 ^ 31 ∧ toInt s < s.toNat) ∨ toInt s < 0 := by
  rw [toInt_eq]
  split_ifs
  all_goals omega

theorem clamp_zero {b : Int} (h : b < 0) : clamp 0 0 b = b := by
  unfold clamp
  rw [if_neg (by omega), if_pos h]

theorem handleAddressMode_clamp : (handleAddressMode image c clkAddressClamp).1 =
    (clamp c.x 0 (toInt image.width) = toInt image.width ||
      clamp c.y 0 (toInt image.height) = toInt image.height ||
      if image.type = .image3D then clamp c.z 0 (toInt image.depth) = toInt image.depth
      else c.z = 1) := by
  have hedge : ¬(clkAddressClamp &&& 0xf0 = clkAddressClampToEdge) := by decide
  have hclamp : clkAddressClamp &&& 0xf0 = clkAddressClamp := by decide
  unfold handleAddressMode
  dsimp only
  rw [if_neg hedge, if_pos hclamp]
  by_cases h3D : image.type = .image3D
  · simp only [h3D, if_true]
  · simp only [h3D, if_false]

/-- Some sampler takes the coordinate for the border of a side. -/
def OnBorder (v : Int) (s : UInt64) : Prop := v = toInt s ∨ clamp v 0 (toInt s) = toInt s

theorem exists_onBorder {s : UInt64} (h : 2 ^ 31 ≤ s.toNat) :
    ∃ v : Int, 0 ≤ v ∧ v < 2 ^ 31 ∧ v < s.toNat ∧ OnBorder v s := by
  obtain ⟨h0, hint, hlt⟩ | hneg := toInt_of_le h
  · exact ⟨toInt s, h0, hint, hlt, .inl rfl⟩
  · exact ⟨0, Int.le_refl _, by decide, by omega, .inr (clamp_zero hneg)⟩

theorem exists_sampler (h : OnBorder c.x image.width ∨ OnBorder c.y image.height ∨
    image.type = .image3D ∧ OnBorder c.z image.depth) :
    ∃ sampler, (handleAddressMode image c sampler).1 = true := by
  obtain (h | h) | (h | h) | ⟨h3D, h | h⟩ := h
  · exact ⟨0, by rw [handleAddressMode_none]; simp [h]⟩
  · exact ⟨clkAddressClamp, by rw [handleAddressMode_clamp]; simp [h]⟩
  · exact ⟨0, by rw [handleAddressMode_none]; simp [h]⟩
  · exact ⟨clkAddressClamp, by rw [handleAddressMode_clamp]; simp [h]⟩
  · exact ⟨0, by rw [handleAddressMode_none]; simp [h3D, h]⟩
  · exact ⟨clkAddressClamp, by rw [handleAddressMode_clamp]; simp [h3D, h]⟩

/-- In an image with a side that is no `int` some coordinate is taken for the border. -/
theorem exists_border (h : IsImage image) (hs : ¬SmallSides image) :
    ∃ c sampler, InRange image c ∧ (handleAddressMode image c sampler).1 = true := by
  obtain ⟨-, -, hw, hh, hd⟩ := isImage_facts h
  have hzero : (0 : Int) < 2 ^ 31 := by decide
  have hw : (0 : Int) < image.width.toNat := by omega
  have hh : (0 : Int) < image.height.toNat := by omega
  have hslice : if image.type = .image3D then (0 : Int) < image.depth.toNat else (0 : Int) = 0 := by
    split_ifs with h3D
    · have hdepth := hd h3D
      omega
    · rfl
  by_cases hwidth : image.width.toNat < 2 ^ 31
  · by_cases hheight : image.height.toNat < 2 ^ 31
    · have h3D : image.type = .image3D := by
        by_contra h2D
        exact hs ⟨hwidth, hheight, fun h3D => absurd h3D h2D⟩
      have hdepth : 2 ^ 31 ≤ image.depth.toNat := by
        by_contra hsmall
        exact hs ⟨hwidth, hheight, fun _ => by omega⟩
      obtain ⟨v, h0, hint, hlt, hborder⟩ := exists_onBorder hdepth
      obtain ⟨sampler, hsampler⟩ :=
        exists_sampler (c := ⟨0, 0, v⟩) (.inr (.inr ⟨h3D, hborder⟩))
      refine ⟨⟨0, 0, v⟩, sampler, ⟨⟨Int.le_refl _, Int.le_refl _, h0⟩, ⟨hzero, hzero, hint⟩, hw, hh,
        ?_⟩, hsampler⟩
      rw [if_pos h3D]
      exact hlt
    · obtain ⟨v, h0, hint, hlt, hborder⟩ := exists_onBorder (Nat.le_of_not_lt hheight)
      obtain ⟨sampler, hsampler⟩ := exists_sampler (c := ⟨0, v, 0⟩) (.inr (.inl hborder))
      exact ⟨⟨0, v, 0⟩, sampler, ⟨⟨Int.le_refl _, h0, Int.le_refl _⟩, ⟨hzero, hint, hzero⟩, hw, hlt,
        hslice⟩, hsampler⟩
  · obtain ⟨v, h0, hint, hlt, hborder⟩ := exists_onBorder (Nat.le_of_not_lt hwidth)
    obtain ⟨sampler, hsampler⟩ := exists_sampler (c := ⟨v, 0, 0⟩) (.inl hborder)
    exact ⟨⟨v, 0, 0⟩, sampler, ⟨⟨h0, Int.le_refl _, Int.le_refl _⟩, ⟨hint, hzero, hzero⟩, hlt, hh,
      hslice⟩, hsampler⟩

theorem fitsType_small {v : UInt32} (hn : n ∈ [1, 2, 4]) (hv : v = 0 ∨ v = 1) :
    FitsType signed n fun _ => v := by
  intro i _
  simp only [List.mem_cons, List.not_mem_nil, or_false] at hn
  dsimp only
  cases signed with
  | true => rcases hn with rfl | rfl | rfl <;> rcases hv with rfl | rfl <;> decide
  | false => rcases hn with rfl | rfl | rfl <;> rcases hv with rfl | rfl <;> decide

/-- The orders with a type of their own have no integer types. -/
theorem order_not_special (hrejected : format.rejected = false)
    (ht : format.imageChannelDataType ∈ (intTypes signed).list) :
    format.imageChannelOrder ∉ [clLuminance, clIntensity, clRGB, clRGBx] := by
  obtain ⟨order, type⟩ := format
  intro hmem
  simp only [List.mem_cons, List.not_mem_nil, or_false] at hmem
  cases signed with
  | true =>
    rcases mem_types.mp ht with rfl | rfl | rfl
    all_goals
      rcases hmem with rfl | rfl | rfl | rfl
      all_goals exact absurd hrejected (by decide)
  | false =>
    rcases mem_types.mp ht with rfl | rfl | rfl
    all_goals
      rcases hmem with rfl | rfl | rfl | rfl
      all_goals exact absurd hrejected (by decide)

theorem swizzleRead_unknown {tMax : UInt32} (horder : order ∉ intOrders)
    (hspecial : order ∉ [clLuminance, clIntensity, clRGB, clRGBx]) :
    swizzleRead result converted order tMax = result ∧ stored order = [] ∧
      ∀ i, fill order tMax i = [0, tMax] := by
  simp only [intOrders, List.mem_cons, List.not_mem_nil, or_false, not_or] at horder hspecial
  simp [swizzleRead, stored, fill, horder, hspecial]

/-- An unknown order leaves the result as it was. -/
theorem order_of_pixelExact (h : IsImage image)
    (ht : image.imageFormat.imageChannelDataType ∈ (intTypes signed).list)
    (hexact : PixelExact signed image) : image.imageFormat.imageChannelOrder ∈ intOrders := by
  by_contra horder
  obtain ⟨-, hrejected, -⟩ := isImage_facts h
  obtain ⟨c, hc, hinner⟩ := exists_inner h
  have hread := (hexact 0 (fun _ => 0) c (fun _ => 0) (fun _ => 0) (fun _ => 1) 0 hc
    (fitsType_small (toNat_elementSize ht) (.inl rfl))).1
  rw [readImage_eq ht, hinner, if_neg Bool.false_ne_true] at hread
  obtain ⟨hresult, hstored, hfill⟩ :=
    swizzleRead_unknown horder (order_not_special hrejected ht)
  rw [hresult] at hread
  have hzero := (hread 0 (by decide)).2 (by rw [hstored]; exact List.not_mem_nil)
  rw [hfill] at hzero
  cases signed with
  | true => exact absurd hzero (by decide)
  | false => exact absurd hzero (by decide)

/-- The border is not what has been written. -/
theorem smallSides_of_pixelExact (h : IsImage image)
    (ht : image.imageFormat.imageChannelDataType ∈ (intTypes signed).list)
    (hexact : PixelExact signed image) : SmallSides image := by
  by_contra hs
  have horder := order_of_pixelExact h ht hexact
  obtain ⟨c, sampler, hc, hborder⟩ := exists_border h hs
  have hread := (hexact 0 (fun _ => 0) c (fun _ => 1) (fun _ => 0) (fun _ => 0) sampler hc
    (fitsType_small (toNat_elementSize ht) (.inr rfl))).1
  rw [readImage_eq ht, if_pos hborder] at hread
  have hblack : ∀ order ∈ intOrders, ∃ i < 4, i ∈ stored order ∧ border order i = 0 := by
    simp only [intOrders, List.forall_mem_cons]
    exact ⟨⟨0, by decide⟩, ⟨0, by decide⟩, ⟨3, by decide⟩, ⟨0, by decide⟩, ⟨0, by decide⟩,
      ⟨0, by decide⟩, ⟨0, by decide⟩, ⟨0, by decide⟩, ⟨0, by decide⟩, List.forall_mem_nil _⟩
  obtain ⟨i, hi, hmem, hzero⟩ := hblack _ horder
  have hone := (hread i hi).1 hmem
  rw [hzero] at hone
  exact absurd hone (by dsimp only; decide)

/-- With fewer than three channels the loop of unsigned values goes beyond the pixel. -/
theorem three_le_channels (h : IsImage image)
    (ht : image.imageFormat.imageChannelDataType ∈ (intTypes false).list)
    (hsmall : image.imageFormat.imageChannelDataType ≠ clUnsignedInt32)
    (hexact : PixelExact false image) : 3 ≤ image.imageFormat.channels.toNat := by
  by_contra hfew
  obtain ⟨hsize, -⟩ := isImage_facts h
  obtain ⟨c, hc, -⟩ := exists_inner h
  have hn := toNat_elementSize ht
  have hpixel := toNat_pixelSize ht
  have hframe := (hexact 0 (fun _ => 1) c (fun _ => 0) (fun _ => 0) (fun _ => 0) 0 hc
    (fitsType_small hn (.inl rfl))).2
    (getImageData 0 image c + UInt64.ofNat image.pixelSize.toNat)
    (distance_add image.pixelSize.toNat_lt).ge
  rw [writeImage_eq ht, if_neg (not_or.mpr ⟨Bool.false_ne_true, hsmall⟩)] at hframe
  generalize image.imageFormat.elementSize.toNat = n at hn hpixel hframe
  generalize image.imageFormat.channels.toNat = count at hfew hpixel
  have hbound : 0 < n ∧ n ≤ 4 := by
    simp only [List.mem_cons, List.not_mem_nil, or_false] at hn
    omega
  have hmul : n * count < n * 3 := Nat.mul_lt_mul_of_pos_left (by omega) hbound.1
  rw [storeAll_apply (by omega), distance_add image.pixelSize.toNat_lt, hsize, hpixel,
    if_pos hmul, Nat.mul_div_cancel_left _ hbound.1] at hframe
  obtain ⟨_, -, hcomponent⟩ := swizzleWrite_component (fun _ => 0)
    image.imageFormat.imageChannelOrder (i := count) (by omega)
  rw [hcomponent] at hframe
  exact absurd (byte_zero.symm.trans hframe) (by decide)

/-- With four channels it leaves out the last one. -/
theorem channels_lt_four (h : IsImage image)
    (ht : image.imageFormat.imageChannelDataType ∈ (intTypes false).list)
    (hsmall : image.imageFormat.imageChannelDataType ≠ clUnsignedInt32)
    (hexact : PixelExact false image) : image.imageFormat.channels.toNat < 4 := by
  by_contra hfour
  have horder := order_of_pixelExact h ht hexact
  obtain ⟨c, hc, hinner⟩ := exists_inner h
  have hn := toNat_elementSize ht
  have hread := (hexact 0 (fun _ => 0) c (fun _ => 1) (fun _ => 0) (fun _ => 0) 0 hc
    (fitsType_small hn (.inr rfl))).1
  rw [readImage_eq ht, writeImage_eq ht, hinner, if_neg Bool.false_ne_true,
    if_neg (not_or.mpr ⟨Bool.false_ne_true, hsmall⟩)] at hread
  dsimp only at hread
  generalize hconverted : (fun i => if i < image.imageFormat.channels.toNat then _ else _) =
    converted at hread
  have hbound : image.imageFormat.elementSize.toNat ≤ 4 := by
    simp only [List.mem_cons, List.not_mem_nil, or_false] at hn
    omega
  have hlast : converted 3 = 0 := by
    rw [← hconverted]
    dsimp only
    rw [if_pos (by omega)]
    rw [load_storeAll_behind (by omega), load_zero]
    rfl
  have hfourth : ∀ order ∈ intOrders, 4 ≤ (ImageFormat.channels ⟨order, 0⟩).toNat →
      ∃ i < 4, i ∈ stored order ∧
        swizzleRead (fun _ => 0) converted order (typeMaxValue false) i = converted 3 := by
    simp only [intOrders, List.forall_mem_cons]
    exact ⟨fun h => absurd h (by decide), fun h => absurd h (by decide),
      fun h => absurd h (by decide), fun h => absurd h (by decide), fun h => absurd h (by decide),
      fun h => absurd h (by decide), fun _ => ⟨3, by decide, by decide, rfl⟩,
      fun _ => ⟨2, by decide, by decide, rfl⟩, fun _ => ⟨3, by decide, by decide, rfl⟩,
      List.forall_mem_nil _⟩
  obtain ⟨i, hi, hmem, heq⟩ := hfourth _ horder (Nat.le_of_not_lt hfour)
  have hone := (hread i hi).1 hmem
  rw [heq, hlast] at hone
  exact absurd hone (by dsimp only; decide)

theorem channels_ne_three (format : ImageFormat) : format.channels.toNat ≠ 3 := by
  have hall : ∀ c ∈ [(0 : UInt32), 1, 2, 4], c.toNat ≠ 3 := by
    simp only [List.forall_mem_cons, List.not_mem_nil, false_implies, implies_true, and_true]
    decide
  exact hall _ (channels_mem _)

/-- Pixels of an integer image are written and read exactly if the order is a known one, the type is
signed or has 32 bits, and the sides of the image are values of an `int`. -/
theorem pixelExact_iff (h : IsImage image)
    (ht : image.imageFormat.imageChannelDataType ∈ (intTypes signed).list) :
    PixelExact signed image ↔ image.imageFormat.imageChannelOrder ∈ intOrders ∧
      (signed = true ∨ image.imageFormat.imageChannelDataType = clUnsignedInt32) ∧
      SmallSides image := by
  constructor
  · intro hexact
    refine ⟨order_of_pixelExact h ht hexact, ?_, smallSides_of_pixelExact h ht hexact⟩
    cases signed with
    | true => exact .inl rfl
    | false =>
      by_contra hsmall
      have hsmall := (not_or.mp hsmall).2
      have hthree := three_le_channels h ht hsmall hexact
      have hfour := channels_lt_four h ht hsmall hexact
      exact channels_ne_three image.imageFormat (by omega)
  · rintro ⟨horder, hcount, hs⟩
    exact pixelExact_of h ht horder hcount hs

end Pixels

/-- An image of two pixels in a row. -/
def rowOfTwo (format : ImageFormat) : MemObject where
  type := .image2D
  context := 0
  size := 2 * format.pixelSize
  offset := 0
  flags := 1
  width := 2
  height := 1
  depth := 0
  rowPitch := 2 * format.pixelSize
  slicePitch := 2 * format.pixelSize
  pixelSize := format.pixelSize
  format := (format.imageChannelOrder.toNat, format.imageChannelDataType.toNat)
  allocates := true

theorem rowOfTwo_isImage {format : ImageFormat} (h : format.rejected = false) :
    IsImage (rowOfTwo format) := by
  have himage : image2D ⟨2, 1, 1, 0, 0, some format, 0, 1⟩ =
      some (0, ⟨2, 1, 2 * format.pixelSize, some format⟩) := by
    have hmem : memObject 1 0 = pure () := rfl
    have hsides : ¬((2 : UInt64) = 0 ∨ (1 : UInt64) = 0) := by decide
    exact image2D_success.mpr ⟨format, described_eq_some.mpr ⟨hsides, rfl, h⟩,
      ⟨hmem, fun hne => absurd rfl hne⟩, fun hne => absurd rfl hne, rfl⟩
  have hone : (1 : UInt64) * (2 * format.pixelSize) = 2 * format.pixelSize := UInt64.one_mul _
  have hmade := IsImage.image2D 0 true himage rfl
  unfold Image2D.slicePitch Image2D.size at hmade
  dsimp only at hmade
  rw [hone] at hmade
  exact hmade

/-- A pixel with one channel of one byte, and the next one. -/
theorem next_pixel_overwritten : ¬∀ (signed : Bool) (image : MemObject), IsImage image →
    image.imageFormat.imageChannelDataType ∈ (intTypes signed).list → PixelExact signed image := by
  intro h
  have himage : IsImage (rowOfTwo ⟨clR, clUnsignedInt8⟩) := rowOfTwo_isImage (by decide)
  have ht : (rowOfTwo ⟨clR, clUnsignedInt8⟩).imageFormat.imageChannelDataType ∈
      (intTypes false).list := by decide
  have hchannels := three_le_channels himage ht (by decide) (h false _ himage ht)
  exact absurd hchannels (by decide)

theorem signed_pixels_exact : PixelExact true (rowOfTwo ⟨clBGRA, clSignedInt8⟩) := by
  refine (pixelExact_iff (rowOfTwo_isImage (by decide)) (by decide)).mpr
    ⟨by decide, .inl rfl, by decide, by decide, fun h => by cases h⟩

end Sampler

end Shamrock.Runtime
