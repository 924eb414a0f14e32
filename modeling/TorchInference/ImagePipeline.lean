import Mathlib.Data.Fin.VecNotation
import Mathlib.Data.List.Forall2
import TorchInference.ExceptSteps
import TorchInference.FlatRows
import TorchInference.SinglePrecision

/-!
# Tensors of images

The bytes of an image lie pixel by pixel, and the models want a plane for each
channel.  Loops over the pixels fill the planes, and each plane is normalised
in place, eight values at a time between an unaligned head and tail.  The
division of a plane is the same for every split, so that the two ways of the
detector make the same tensor, and what the classifier makes of the planes for
a model that wants pixels are the pixels of the image.
-/

namespace TorchInference

open ExceptSteps FlatRows

/-- The arithmetic of the pixels: what a byte is cast to, what a literal with
some decimals stands for, and the operations. -/
structure PixelArithmetic (F : Type*) where
  ofByte : UInt8 → F
  literal : (digits decimals : Nat) → F
  add : F → F → F
  sub : F → F → F
  mul : F → F → F
  div : F → F → F
  clamp : F → F → F → F

/-- What is decoded: dimensions, and bytes that may not fit to them. -/
structure RawImage where
  width : Nat
  height : Nat
  bytes : List UInt8

/-- An image with three bytes for each pixel. -/
structure HwcImage extends RawImage where
  sized : bytes.length = height * width * 3

/-- A channel of a pixel, as the loops name it. -/
structure PixelCell where
  h : Nat
  w : Nat
  c : Nat

/-- The loops over rows, columns and channels. -/
def pixelCells (height width : Nat) : List PixelCell :=
  (List.range height).flatMap fun h =>
    (List.range width).flatMap fun w =>
      (List.range 3).map fun c => ⟨h, w, c⟩

theorem mem_pixelCells {height width : Nat} {cell : PixelCell} :
    cell ∈ pixelCells height width ↔
      cell.h < height ∧ cell.w < width ∧ cell.c < 3 := by
  simp only [pixelCells, List.mem_flatMap, List.mem_range, List.mem_map]
  constructor
  · rintro ⟨h, inHeight, w, inWidth, c, inChannels, rfl⟩
    exact ⟨inHeight, inWidth, inChannels⟩
  · rintro ⟨inHeight, inWidth, inChannels⟩
    exact ⟨cell.h, inHeight, cell.w, inWidth, cell.c, inChannels, rfl⟩

namespace PixelCell

/-- The place of the cell among the planes. -/
def planar (height width : Nat) (cell : PixelCell) : Nat :=
  cell.c * height * width + cell.h * width + cell.w

/-- The place of the cell among the pixels. -/
def interleaved (width : Nat) (cell : PixelCell) : Nat :=
  cell.h * width * 3 + cell.w * 3 + cell.c

/-- The number of the pixel. -/
def pixel (width : Nat) (cell : PixelCell) : Nat :=
  cell.h * width + cell.w

theorem planar_eq (height width : Nat) (cell : PixelCell) :
    cell.planar height width = cell.c * (height * width) + cell.pixel width := by
  rw [planar, pixel, Nat.mul_assoc, Nat.add_assoc]

theorem interleaved_eq (width : Nat) (cell : PixelCell) :
    cell.interleaved width = cell.pixel width * 3 + cell.c := by
  rw [interleaved, pixel, Nat.add_mul]

end PixelCell

section Loops

variable {F : Type*} {height width : Nat} {value : PixelCell → Option F}
  {entry : Nat → Nat → F} {data : List F}

theorem exists_pixelCell {index c : Nat} (inImage : index < height * width)
    (inChannels : c < 3) :
    ∃ cell ∈ pixelCells height width, cell.pixel width = index ∧ cell.c = c := by
  obtain ⟨h, inHeight, w, inWidth, rfl⟩ := exists_place inImage
  exact ⟨⟨h, w, c⟩, mem_pixelCells.mpr ⟨inHeight, inWidth, inChannels⟩, rfl, rfl⟩

theorem pixel_lt {cell : PixelCell} (mem : cell ∈ pixelCells height width) :
    cell.pixel width < height * width := by
  obtain ⟨inHeight, inWidth, -⟩ := mem_pixelCells.mp mem
  exact place_lt inHeight inWidth

/-- The loops fill the planes. -/
theorem scatter_planar
    (values : ∀ cell ∈ pixelCells height width,
      value cell = some (entry cell.c (cell.pixel width)))
    (sized : data.length = 3 * (height * width)) :
    scatter (PixelCell.planar height width) value (pixelCells height width) data =
      some (table 3 (height * width) entry) := by
  apply scatter_eq_some (length_table.trans sized.symm)
  · intro cell mem
    refine ⟨_, values cell mem, ?_⟩
    rw [cell.planar_eq, getElem?_table (mem_pixelCells.mp mem).2.2 (pixel_lt mem)]
  · intro place inside
    rw [sized] at inside
    obtain ⟨c, inChannels, index, inImage, rfl⟩ := exists_place inside
    obtain ⟨cell, mem, rfl, rfl⟩ := exists_pixelCell inImage inChannels
    exact Or.inl ⟨cell, mem, cell.planar_eq height width⟩

/-- The loops fill the pixels. -/
theorem scatter_interleaved
    (values : ∀ cell ∈ pixelCells height width,
      value cell = some (entry (cell.pixel width) cell.c))
    (sized : data.length = 3 * (height * width)) :
    scatter (PixelCell.interleaved width) value (pixelCells height width) data =
      some (table (height * width) 3 entry) := by
  have size : data.length = height * width * 3 := by rw [sized, Nat.mul_comm]
  apply scatter_eq_some (length_table.trans size.symm)
  · intro cell mem
    refine ⟨_, values cell mem, ?_⟩
    rw [cell.interleaved_eq,
      getElem?_table (pixel_lt mem) (mem_pixelCells.mp mem).2.2]
  · intro place inside
    rw [size] at inside
    obtain ⟨index, inImage, c, inChannels, rfl⟩ := exists_place inside
    obtain ⟨cell, mem, rfl, rfl⟩ := exists_pixelCell inImage inChannels
    exact Or.inl ⟨cell, mem, cell.interleaved_eq width⟩

end Loops

/-! ## Normalising a channel -/

/-- `pod_align_to_mut`: a slice in an aligned middle and what is left of it. -/
structure AlignedSlice {F : Type*} (channel : List F) where
  head : List F
  middle : List (Vector F 8)
  tail : List F
  covers : head ++ middle.flatMap Vector.toList ++ tail = channel

section Arithmetic

variable {F : Type*} (arithmetic : PixelArithmetic F)

/-- `normalize_channel_simd`, for a slice that is split in some way. -/
def normalizeChannelSimd {channel : List F} (parts : AlignedSlice channel)
    (mean std : F) : List F :=
  let scalar := fun v => arithmetic.div (arithmetic.sub v mean) std
  let lanes := fun v : Vector F 8 =>
    Vector.zipWith arithmetic.div
      (Vector.zipWith arithmetic.sub v (Vector.replicate 8 mean))
      (Vector.replicate 8 std)
  parts.head.map scalar ++ (parts.middle.map lanes).flatMap Vector.toList ++
    parts.tail.map scalar

theorem normalizeChannelSimd_eq {channel : List F} (parts : AlignedSlice channel)
    (mean std : F) :
    normalizeChannelSimd arithmetic parts mean std =
      channel.map fun v => arithmetic.div (arithmetic.sub v mean) std := by
  obtain ⟨head, middle, tail, rfl⟩ := parts
  have lane : ∀ v : Vector F 8,
      (Vector.zipWith arithmetic.div
        (Vector.zipWith arithmetic.sub v (Vector.replicate 8 mean))
        (Vector.replicate 8 std)).toList =
      v.toList.map fun x => arithmetic.div (arithmetic.sub x mean) std := by
    intro v
    apply List.ext_getElem
    · rw [Vector.length_toList, List.length_map, Vector.length_toList]
    · intro place _ _
      simp only [Vector.getElem_toList, Vector.getElem_zipWith,
        Vector.getElem_replicate, List.getElem_map]
  simp only [normalizeChannelSimd, List.map_append, List.map_flatMap,
    List.flatMap_map, lane]

/-- A statistic of a channel. -/
def channelOf (stats : Fin 3 → F) (c : Nat) : F :=
  stats (Fin.ofNat 3 c)

variable (align : Nat → (channel : List F) → AlignedSlice channel)

/-- The loop that normalises the planes. -/
def normalizeChannels (npix : Nat) (mean std : Fin 3 → F) (data : List F) :
    List F :=
  (List.range 3).foldl (fun data c =>
    setRow npix data c (normalizeChannelSimd arithmetic
      (align c (row npix data c)) (channelOf mean c) (channelOf std c))) data

/-- One plane is normalised, and the others stay. -/
theorem setRow_normalize {npix c : Nat} {entry : Nat → Nat → F}
    (inChannels : c < 3) (parts : AlignedSlice (row npix (table 3 npix entry) c))
    (mean std : F) :
    setRow npix (table 3 npix entry) c
        (normalizeChannelSimd arithmetic parts mean std) =
      table 3 npix fun other i =>
        if other = c then arithmetic.div (arithmetic.sub (entry other i) mean) std
        else entry other i := by
  have fresh : normalizeChannelSimd arithmetic parts mean std =
      row npix (table 3 npix fun other i =>
        arithmetic.div (arithmetic.sub (entry other i) mean) std) c := by
    rw [normalizeChannelSimd_eq, row_table inChannels, row_table inChannels,
      List.map_map]
    rfl
  rw [fresh, setRow_table inChannels]

theorem normalizeChannels_table (npix : Nat) (mean std : Fin 3 → F)
    (entry : Nat → Nat → F) :
    normalizeChannels arithmetic align npix mean std (table 3 npix entry) =
      table 3 npix fun c i => arithmetic.div
        (arithmetic.sub (entry c i) (channelOf mean c)) (channelOf std c) := by
  have channels : List.range 3 = [0, 1, 2] := rfl
  rw [normalizeChannels, channels, List.foldl_cons, List.foldl_cons,
    List.foldl_cons, List.foldl_nil, setRow_normalize arithmetic (by omega),
    setRow_normalize arithmetic (by omega), setRow_normalize arithmetic (by omega)]
  apply table_congr
  intro c inChannels i _
  obtain rfl | rfl | rfl : c = 0 ∨ c = 1 ∨ c = 2 := by omega
  all_goals rfl

/-! ## Planes of an image -/

/-- A channel of a pixel between 0 and 1. -/
def scaledByte (bytes : List UInt8) (c i : Nat) : F :=
  arithmetic.div (arithmetic.ofByte (bytes.getD (i * 3 + c) 0))
    (arithmetic.literal 255 0)

/-- The loop of `hwc_u8_to_nchw_f32` that fills the planes. -/
def scatterHwc (src : List UInt8) (height width : Nat) : Option (List F) :=
  scatter (PixelCell.planar height width)
    (fun cell => src[cell.interleaved width]?.map fun px =>
      arithmetic.div (arithmetic.ofByte px) (arithmetic.literal 255 0))
    (pixelCells height width)
    (List.replicate (1 * 3 * height * width) (arithmetic.literal 0 0))

/-- The planes of an image, normalised; there are none when a byte of the image
is missing. -/
def hwcU8ToNchwF32 (src : List UInt8) (height width : Nat)
    (mean std : Fin 3 → F) : Option (List F) :=
  (scatterHwc arithmetic src height width).map
    (normalizeChannels arithmetic align (height * width) mean std)

theorem getElem?_byte {src : List UInt8} {height width : Nat}
    (covers : height * width * 3 ≤ src.length) {cell : PixelCell}
    (mem : cell ∈ pixelCells height width) :
    src[cell.interleaved width]? = some (src.getD (cell.pixel width * 3 + cell.c) 0) := by
  have inside := place_lt (pixel_lt mem) (mem_pixelCells.mp mem).2.2
  rw [cell.interleaved_eq, List.getD_eq_getElem?_getD,
    List.getElem?_eq_getElem (Nat.lt_of_lt_of_le inside covers), Option.getD_some]

theorem scatterHwc_eq {src : List UInt8} {height width : Nat}
    (covers : height * width * 3 ≤ src.length) :
    scatterHwc arithmetic src height width =
      some (table 3 (height * width) (scaledByte arithmetic src)) := by
  apply scatter_planar
  · intro cell mem
    rw [getElem?_byte covers mem]
    rfl
  · rw [List.length_replicate, Nat.one_mul, Nat.mul_assoc]

theorem hwcU8ToNchwF32_eq {src : List UInt8} {height width : Nat}
    (covers : height * width * 3 ≤ src.length) (mean std : Fin 3 → F) :
    hwcU8ToNchwF32 arithmetic align src height width mean std =
      some (table 3 (height * width) fun c i => arithmetic.div
        (arithmetic.sub (scaledByte arithmetic src c i) (channelOf mean c))
        (channelOf std c)) := by
  rw [hwcU8ToNchwF32, scatterHwc_eq arithmetic covers, Option.map_some,
    normalizeChannels_table]

/-- The first byte that is missing stops the loops. -/
theorem hwcU8ToNchwF32_eq_none {src : List UInt8} {height width : Nat}
    (short : src.length < height * width * 3) (mean std : Fin 3 → F) :
    hwcU8ToNchwF32 arithmetic align src height width mean std = none := by
  obtain ⟨index, inImage, c, inChannels, missing⟩ := exists_place short
  obtain ⟨cell, mem, rfl, rfl⟩ := exists_pixelCell inImage inChannels
  have stopped : scatterHwc arithmetic src height width = none := by
    refine scatter_eq_none mem ?_ _
    rw [cell.interleaved_eq, missing, List.getElem?_eq_none (Nat.le_refl _),
      Option.map_none]
  rw [hwcU8ToNchwF32, stopped, Option.map_none]

/-- How the slices are aligned makes no difference. -/
theorem hwcU8ToNchwF32_realign
    (other : Nat → (channel : List F) → AlignedSlice channel) (src : List UInt8)
    (height width : Nat) (mean std : Fin 3 → F) :
    hwcU8ToNchwF32 arithmetic other src height width mean std =
      hwcU8ToNchwF32 arithmetic align src height width mean std := by
  rcases Nat.lt_or_ge src.length (height * width * 3) with short | covers
  · rw [hwcU8ToNchwF32_eq_none _ _ short, hwcU8ToNchwF32_eq_none _ _ short]
  · rw [hwcU8ToNchwF32_eq _ _ covers, hwcU8ToNchwF32_eq _ _ covers]

/-! ## Planes for the detector -/

/-- `to_chw_f32_norm` of the detector. -/
def toChwF32Norm (img : HwcImage) : Option (List F) :=
  scatter (PixelCell.planar img.height img.width)
    (fun cell => img.bytes[cell.interleaved img.width]?.map fun px =>
      arithmetic.div (arithmetic.ofByte px) (arithmetic.literal 255 0))
    (pixelCells img.height img.width)
    (List.replicate (3 * img.height * img.width) (arithmetic.literal 0 0))

/-- `to_chw_f32_simd_yolo`: the chunks of three bytes are spread over the
planes, and each plane is divided by 255. -/
def toChwF32SimdYolo (hwc : List UInt8) (height width : Nat) :
    Option (List F) :=
  let npix := height * width
  (scatter (fun chunk : Nat × Nat => chunk.2 * npix + chunk.1)
    (fun chunk => hwc[chunk.1 * 3 + chunk.2]?.map arithmetic.ofByte)
    ((List.range (hwc.length / 3)).flatMap fun i =>
      (List.range 3).map fun c => (i, c))
    (List.replicate (3 * npix) (arithmetic.literal 0 0))).map
      (normalizeChannels arithmetic align npix
        (fun _ => arithmetic.literal 0 0) fun _ => arithmetic.literal 255 0)

theorem toChwF32Norm_eq (img : HwcImage) :
    toChwF32Norm arithmetic img =
      some (table 3 (img.height * img.width) (scaledByte arithmetic img.bytes)) := by
  have filled := scatterHwc_eq arithmetic (Nat.le_of_eq img.sized.symm)
  rwa [scatterHwc, Nat.one_mul] at filled

theorem scatter_chunks (img : HwcImage) :
    scatter (fun chunk : Nat × Nat =>
        chunk.2 * (img.height * img.width) + chunk.1)
      (fun chunk => img.bytes[chunk.1 * 3 + chunk.2]?.map arithmetic.ofByte)
      ((List.range (img.bytes.length / 3)).flatMap fun i =>
        (List.range 3).map fun c => (i, c))
      (List.replicate (3 * (img.height * img.width)) (arithmetic.literal 0 0)) =
    some (table 3 (img.height * img.width) fun c i =>
      arithmetic.ofByte (img.bytes.getD (i * 3 + c) 0)) := by
  have chunks : img.bytes.length / 3 = img.height * img.width := by
    rw [img.sized, Nat.mul_div_cancel _ (by omega)]
  apply scatter_eq_some (by rw [length_table, List.length_replicate])
  · intro chunk mem
    simp only [List.mem_flatMap, List.mem_range, List.mem_map, chunks] at mem
    obtain ⟨i, inImage, c, inChannels, rfl⟩ := mem
    have inside : i * 3 + c < img.bytes.length := by
      rw [img.sized]
      exact place_lt inImage inChannels
    refine ⟨arithmetic.ofByte (img.bytes.getD (i * 3 + c) 0), ?_,
      getElem?_table inChannels inImage⟩
    rw [List.getD_eq_getElem?_getD, List.getElem?_eq_getElem inside,
      Option.map_some, Option.getD_some]
  · intro place inside
    rw [List.length_replicate] at inside
    obtain ⟨c, inChannels, i, inImage, rfl⟩ := exists_place inside
    refine Or.inl ⟨(i, c), ?_, rfl⟩
    simp only [List.mem_flatMap, List.mem_range, List.mem_map, chunks]
    exact ⟨i, inImage, c, inChannels, rfl⟩

/-- The two ways of the detector make the same planes, however the slices are
aligned, where a difference to zero is exact. -/
theorem toChwF32SimdYolo_eq
    (subZero : ∀ x, arithmetic.sub x (arithmetic.literal 0 0) = x)
    (img : HwcImage) :
    toChwF32SimdYolo arithmetic align img.bytes img.height img.width =
      toChwF32Norm arithmetic img := by
  rw [toChwF32Norm_eq, toChwF32SimdYolo, scatter_chunks, Option.map_some,
    normalizeChannels_table]
  congr 1
  apply table_congr
  intro c _ i _
  rw [channelOf, subZero]
  rfl

end Arithmetic

/-- The arithmetic of `f32`. -/
def singlePixels : PixelArithmetic Float32 where
  ofByte byte := byte.toFloat32
  literal digits decimals := Float32.ofScientific digits true decimals
  add x y := x + y
  sub x y := x - y
  mul x y := x * y
  div x y := x / y
  clamp x low high := if x < low then low else if high < x then high else x

/-- The two ways of the detector agree on every bit of the planes, for every
image and every alignment. -/
theorem toChwF32SimdYolo_agrees
    (align : Nat → (channel : List Float32) → AlignedSlice channel) (img : HwcImage) :
    toChwF32SimdYolo singlePixels align img.bytes img.height img.width =
      toChwF32Norm singlePixels img :=
  toChwF32SimdYolo_eq singlePixels align
    (fun x => SinglePrecision.sub_zero x rfl) img

/-! ## The pipeline -/

structure PreprocessConfig (F : Type*) where
  width : Nat
  height : Nat
  mean : Fin 3 → F
  std : Fin 3 → F

/-- The statistics of ImageNet. -/
def PreprocessConfig.imagenet {F : Type*} (arithmetic : PixelArithmetic F)
    (width height : Nat) : PreprocessConfig F where
  width
  height
  mean := ![arithmetic.literal 485 3, arithmetic.literal 456 3,
    arithmetic.literal 406 3]
  std := ![arithmetic.literal 229 3, arithmetic.literal 224 3,
    arithmetic.literal 225 3]

/-- How a call fails: with an error, or with a panic. -/
inductive CallFailure where
  | error (message : String)
  | panic

/-- The decoders and the resizer, and whether the feature `simd-image` is on.
`zuneDecode` has no image when it does not know the dimensions. -/
structure ImageLibraries where
  simdImage : Bool
  zuneDecode : List UInt8 → Except String (Option RawImage)
  loadFromMemory : List UInt8 → Except String HwcImage
  fromVecU8 : RawImage → Except String Unit
  resize : RawImage → (width height : Nat) →
    Except String { bytes : List UInt8 // bytes.length = height * width * 3 }

namespace ImageLibraries

variable (libraries : ImageLibraries)

def decodeJpegZune (data : List UInt8) : Except String RawImage :=
  ((libraries.zuneDecode data).mapError ("zune-jpeg decode error: " ++ ·)).bind
    fun image => image.elim (.error "zune-jpeg: no dimensions after decode") .ok

def decodeGeneric (data : List UInt8) : Except String RawImage :=
  (libraries.loadFromMemory data).map HwcImage.toRawImage

def decodeToHwcRgb (data : List UInt8) : Except String RawImage :=
  let isJpeg := 3 ≤ data.length && data[0]? == some 0xFF &&
    data[1]? == some 0xD8 && data[2]? == some 0xFF
  if libraries.simdImage && isJpeg then libraries.decodeJpegZune data
  else libraries.decodeGeneric data

def resizeHwc (src : RawImage) (dstW dstH : Nat) : Except String HwcImage :=
  if src.width = 0 ∨ src.height = 0 then .error "resize: zero src dimension"
  else if dstW = 0 ∨ dstH = 0 then .error "resize: zero dst dimension"
  else
    ((libraries.fromVecU8 src).mapError ("fast_image_resize src: " ++ ·)).bind
      fun _ =>
        ((libraries.resize src dstW dstH).mapError
          ("fast_image_resize resize: " ++ ·)).map fun bytes =>
            ⟨⟨dstW, dstH, bytes.val⟩, bytes.property⟩

theorem resizeHwc_eq_ok {src : RawImage} {image : HwcImage} {dstW dstH : Nat}
    (resized : libraries.resizeHwc src dstW dstH = .ok image) :
    image.width = dstW ∧ image.height = dstH := by
  rw [resizeHwc] at resized
  split_ifs at resized
  obtain ⟨_, -, resized⟩ := bind_eq_ok resized
  obtain ⟨bytes, -, rfl⟩ := map_eq_ok resized
  exact ⟨rfl, rfl⟩

end ImageLibraries

namespace OrtYoloDetector

variable (libraries : ImageLibraries)
  (align : Nat → (channel : List Float32) → AlignedSlice channel)
  (resizeExact : HwcImage → (width height : Nat) → HwcImage)

/-- `preprocess_simd_chw_impl`. -/
def preprocessSimdChwImpl (img : HwcImage) (size : Nat) :
    Except String (Option (List Float32)) :=
  (libraries.resizeHwc img.toRawImage size size).map fun hwcResized =>
    toChwF32SimdYolo singlePixels align hwcResized.bytes size size

/-- The input of the detector; when the fast way fails it is made by the plain
one. -/
def inputData (img : HwcImage) (size : Nat) : Option (List Float32) :=
  let plain := toChwF32Norm singlePixels (resizeExact img size size)
  if libraries.simdImage then
    match preprocessSimdChwImpl libraries align img size with
    | .ok planes => planes
    | .error _ => plain
  else plain

/-- The image whose planes the detector is given. -/
def resized (img : HwcImage) (size : Nat) : HwcImage :=
  match libraries.simdImage, libraries.resizeHwc img.toRawImage size size with
  | true, .ok hwcResized => hwcResized
  | _, _ => resizeExact img size size

/-- Whichever way the input is made, it is the planes of the resized image,
every byte divided by 255. -/
theorem inputData_eq_table (img : HwcImage) (size : Nat) :
    inputData libraries align resizeExact img size =
      let image := resized libraries resizeExact img size
      some (table 3 (image.height * image.width)
        (scaledByte singlePixels image.bytes)) := by
  rw [inputData, resized]
  cases simd : libraries.simdImage with
  | false => exact toChwF32Norm_eq singlePixels _
  | true =>
      cases done : libraries.resizeHwc img.toRawImage size size with
      | error message =>
          rw [preprocessSimdChwImpl, done]
          exact toChwF32Norm_eq singlePixels _
      | ok hwcResized =>
          obtain ⟨sameWidth, sameHeight⟩ := libraries.resizeHwc_eq_ok done
          have agrees := toChwF32SimdYolo_agrees align hwcResized
          rw [sameWidth, sameHeight] at agrees
          rw [preprocessSimdChwImpl, done]
          exact agrees.trans (toChwF32Norm_eq singlePixels hwcResized)

end OrtYoloDetector

/-- A tensor with its dimensions: images, channels, height and width. -/
structure Array4 (F : Type*) where
  n : Nat
  c : Nat
  h : Nat
  w : Nat
  data : List F

/-- The pipeline for one model. -/
structure ImagePipeline (F : Type*) where
  arithmetic : PixelArithmetic F
  libraries : ImageLibraries
  align : Nat → (channel : List F) → AlignedSlice channel
  cfg : PreprocessConfig F

namespace ImagePipeline

variable {F : Type*} (pipeline : ImagePipeline F)

/-- The image in the size of the model. -/
def loadImage (data : List UInt8) : Except String RawImage :=
  (pipeline.libraries.decodeToHwcRgb data).bind fun image =>
    if image.width ≠ pipeline.cfg.width ∨ image.height ≠ pipeline.cfg.height then
      (pipeline.libraries.resizeHwc image pipeline.cfg.width
        pipeline.cfg.height).map HwcImage.toRawImage
    else .ok image

def preprocessBytes (data : List UInt8) : Except CallFailure (Array4 F) :=
  if data.isEmpty then .error (.error "empty image data")
  else
    ((pipeline.loadImage data).mapError .error).bind fun image =>
      (hwcU8ToNchwF32 pipeline.arithmetic pipeline.align image.bytes image.height
        image.width pipeline.cfg.mean pipeline.cfg.std).elim (.error .panic)
          fun planes => .ok ⟨1, 3, image.height, image.width, planes⟩

/-- The planes of the only image of a tensor, which have to be of the size of
the batch to be assigned to one of its images. -/
def assigned (tensor : Array4 F) : Except CallFailure (List F) :=
  if tensor.c = 3 ∧ tensor.h = pipeline.cfg.height ∧
      tensor.w = pipeline.cfg.width then
    .ok (row (tensor.c * tensor.h * tensor.w) tensor.data 0)
  else .error .panic

def isPanic : Except CallFailure (Array4 F) → Bool
  | .error .panic => true
  | _ => false

/-- The images are preprocessed in parallel, and a panic of one is a panic of
the call; then the first error is the error of the batch. -/
def preprocessBatch (images : List (List UInt8)) :
    Except CallFailure (Array4 F) :=
  if images.isEmpty then .error (.error "empty batch")
  else
    let h := pipeline.cfg.height
    let w := pipeline.cfg.width
    let results := images.map pipeline.preprocessBytes
    if results.any isPanic then .error .panic
    else
      (assemble (3 * h * w) 0 (results.map fun res => res.bind pipeline.assigned)
        (List.replicate (images.length * (3 * h * w))
          (pipeline.arithmetic.literal 0 0))).map fun data =>
            ⟨images.length, 3, h, w, data⟩

/-! ### One image -/

theorem loadImage_eq_ok {data : List UInt8} {image : RawImage}
    (loaded : pipeline.loadImage data = .ok image) :
    image.width = pipeline.cfg.width ∧ image.height = pipeline.cfg.height := by
  obtain ⟨decoded, -, sized⟩ := bind_eq_ok loaded
  split_ifs at sized with other
  · obtain ⟨resized, isResized, rfl⟩ := map_eq_ok sized
    exact pipeline.libraries.resizeHwc_eq_ok isResized
  · obtain rfl := Except.ok.inj sized
    rw [not_or, not_not, not_not] at other
    exact other

/-- The planes that an image is preprocessed to. -/
def PreprocessesTo (image : List UInt8) (planes : List F) : Prop :=
  planes.length = 3 * pipeline.cfg.height * pipeline.cfg.width ∧
    pipeline.preprocessBytes image =
      .ok ⟨1, 3, pipeline.cfg.height, pipeline.cfg.width, planes⟩

/-- A loaded image without enough bytes panics, and the others have planes. -/
theorem preprocessBytes_of_loaded {data : List UInt8} {image : RawImage}
    (nonempty : ¬data.isEmpty = true) (loaded : pipeline.loadImage data = .ok image) :
    if image.height * image.width * 3 ≤ image.bytes.length then
      ∃ planes, pipeline.PreprocessesTo data planes
    else pipeline.preprocessBytes data = .error .panic := by
  have unfolded : pipeline.preprocessBytes data =
      (hwcU8ToNchwF32 pipeline.arithmetic pipeline.align image.bytes image.height
        image.width pipeline.cfg.mean pipeline.cfg.std).elim (.error .panic)
          fun planes => .ok ⟨1, 3, image.height, image.width, planes⟩ := by
    rw [preprocessBytes, if_neg nonempty, loaded]
    rfl
  obtain ⟨sameWidth, sameHeight⟩ := pipeline.loadImage_eq_ok loaded
  split_ifs with covers
  · rw [hwcU8ToNchwF32_eq _ _ covers, Option.elim_some, sameWidth, sameHeight]
      at unfolded
    exact ⟨_, by rw [length_table, Nat.mul_assoc], unfolded⟩
  · rw [unfolded, hwcU8ToNchwF32_eq_none _ _ (Nat.lt_of_not_le covers),
      Option.elim_none]

/-- What may come of an image. -/
theorem preprocessBytes_cases (data : List UInt8) :
    (∃ message, pipeline.preprocessBytes data = .error (.error message)) ∨
      pipeline.preprocessBytes data = .error .panic ∨
        ∃ planes, pipeline.PreprocessesTo data planes := by
  by_cases empty : data.isEmpty = true
  · exact Or.inl ⟨_, if_pos empty⟩
  cases loaded : pipeline.loadImage data with
  | error message =>
      refine Or.inl ⟨message, ?_⟩
      rw [preprocessBytes, if_neg empty, loaded]
      rfl
  | ok image =>
      have outcome := pipeline.preprocessBytes_of_loaded empty loaded
      split_ifs at outcome
      · exact Or.inr (Or.inr outcome)
      · exact Or.inr (Or.inl outcome)

/-- The image can be read and has the size of the model, but not enough bytes for
it. -/
def LacksBytes (data : List UInt8) : Prop :=
  data ≠ [] ∧ ∃ image, pipeline.libraries.decodeToHwcRgb data = .ok image ∧
    image.width = pipeline.cfg.width ∧ image.height = pipeline.cfg.height ∧
      image.bytes.length < image.height * image.width * 3

theorem preprocessBytes_eq_panic_iff {data : List UInt8} :
    pipeline.preprocessBytes data = .error .panic ↔ pipeline.LacksBytes data := by
  constructor
  · intro panics
    by_cases empty : data.isEmpty = true
    · rw [preprocessBytes, if_pos empty] at panics
      cases panics
    refine ⟨fun isNil => empty (by rw [isNil]; rfl), ?_⟩
    cases loaded : pipeline.loadImage data with
    | error message =>
        rw [preprocessBytes, if_neg empty, loaded] at panics
        cases panics
    | ok image =>
        have outcome := pipeline.preprocessBytes_of_loaded empty loaded
        split_ifs at outcome with covers
        · obtain ⟨planes, -, succeeded⟩ := outcome
          rw [panics] at succeeded
          cases succeeded
        obtain ⟨decoded, isDecoded, sized⟩ := bind_eq_ok loaded
        split_ifs at sized with other
        · obtain ⟨resized, -, rfl⟩ := map_eq_ok sized
          exact absurd (Nat.le_of_eq resized.sized.symm) covers
        · obtain rfl := Except.ok.inj sized
          rw [not_or, not_not, not_not] at other
          exact ⟨decoded, isDecoded, other.1, other.2, Nat.lt_of_not_le covers⟩
  · rintro ⟨nonempty, image, isDecoded, sameWidth, sameHeight, short⟩
    have loaded : pipeline.loadImage data = .ok image := by
      rw [loadImage, isDecoded]
      exact if_neg (not_or.mpr ⟨not_not.mpr sameWidth, not_not.mpr sameHeight⟩)
    have outcome := pipeline.preprocessBytes_of_loaded
      (fun empty => nonempty (List.isEmpty_iff.mp empty)) loaded
    rwa [if_neg (Nat.not_le_of_lt short)] at outcome

theorem preprocessesTo_iff {image : List UInt8} {planes : List F} :
    pipeline.PreprocessesTo image planes ↔
      (pipeline.preprocessBytes image).bind pipeline.assigned = .ok planes := by
  have whole {others : List F} (preprocessed : pipeline.PreprocessesTo image others) :
      (pipeline.preprocessBytes image).bind pipeline.assigned = .ok others := by
    have all : row (3 * pipeline.cfg.height * pipeline.cfg.width) others 0 =
        others := by
      rw [row, Nat.zero_mul, List.drop_zero,
        List.take_of_length_le (Nat.le_of_eq preprocessed.1)]
    rw [preprocessed.2]
    exact (if_pos ⟨rfl, rfl, rfl⟩).trans (congrArg Except.ok all)
  constructor
  · exact whole
  · intro succeeds
    obtain ⟨message, failed⟩ | panics | ⟨others, preprocessed⟩ :=
      pipeline.preprocessBytes_cases image
    · rw [failed] at succeeds
      cases succeeds
    · rw [panics] at succeeds
      cases succeeds
    · rw [whole preprocessed] at succeeds
      rwa [← Except.ok.inj succeeds]

/-- How the slices are aligned makes no difference to the planes. -/
theorem preprocessesTo_realign
    (align : Nat → (channel : List F) → AlignedSlice channel) {image : List UInt8}
    {planes : List F} (preprocessed : pipeline.PreprocessesTo image planes) :
    { pipeline with align := align }.PreprocessesTo image planes := by
  refine ⟨preprocessed.1, Eq.trans ?_ preprocessed.2⟩
  simp only [preprocessBytes,
    hwcU8ToNchwF32_realign pipeline.arithmetic pipeline.align align]
  rfl

theorem isPanic_eq_true_iff {result : Except CallFailure (Array4 F)} :
    isPanic result = true ↔ result = .error .panic := by
  rcases result with (message | _) | tensor
  · exact iff_of_false Bool.false_ne_true (by rintro ⟨⟩)
  · exact iff_of_true rfl rfl
  · exact iff_of_false Bool.false_ne_true (by rintro ⟨⟩)

/-! ### Batches -/

section Batches

variable {images : List (List UInt8)}

/-- A batch panics if one of its images does. -/
theorem preprocessBatch_eq_panic
    (panics : ∃ image ∈ images, pipeline.preprocessBytes image = .error .panic) :
    pipeline.preprocessBatch images = .error .panic := by
  obtain ⟨image, mem, panics⟩ := panics
  have some : (images.map pipeline.preprocessBytes).any isPanic = true := by
    rw [List.any_map, List.any_eq_true]
    exact ⟨image, mem, isPanic_eq_true_iff.mpr panics⟩
  have nonempty : ¬images.isEmpty = true := by
    rw [List.isEmpty_iff]
    exact List.ne_nil_of_mem mem
  rw [preprocessBatch, if_neg nonempty]
  exact if_pos some

/-- The batch, as it is assembled where no image panics. -/
theorem preprocessBatch_eq (nonempty : images ≠ [])
    (calm : ∀ image ∈ images, pipeline.preprocessBytes image ≠ .error .panic) :
    pipeline.preprocessBatch images =
      (assemble (3 * pipeline.cfg.height * pipeline.cfg.width) 0
        (images.map fun image =>
          (pipeline.preprocessBytes image).bind pipeline.assigned)
        (List.replicate
          (images.length * (3 * pipeline.cfg.height * pipeline.cfg.width))
          (pipeline.arithmetic.literal 0 0))).map fun data =>
            ⟨images.length, 3, pipeline.cfg.height, pipeline.cfg.width, data⟩ := by
  have none : ¬(images.map pipeline.preprocessBytes).any isPanic = true := by
    rw [List.any_map, List.any_eq_true]
    rintro ⟨image, mem, panics⟩
    exact calm image mem (isPanic_eq_true_iff.mp panics)
  rw [preprocessBatch, if_neg fun empty => nonempty (List.isEmpty_iff.mp empty)]
  refine (if_neg none).trans ?_
  rw [List.map_map]
  rfl

/-- The images of a list have planes. -/
theorem forall₂_preprocessesTo_iff {blocks : List (List F)} :
    List.Forall₂ pipeline.PreprocessesTo images blocks ↔
      (images.map fun image =>
        (pipeline.preprocessBytes image).bind pipeline.assigned) =
          blocks.map Except.ok := by
  rw [← List.forall₂_eq_eq_eq, List.forall₂_map_left_iff,
    List.forall₂_map_right_iff]
  constructor
  · exact fun each => each.imp fun _ _ => pipeline.preprocessesTo_iff.mp
  · exact fun each => each.imp fun _ _ => pipeline.preprocessesTo_iff.mpr

theorem ne_panic_of_preprocessesTo {image : List UInt8} {planes : List F}
    (preprocessed : pipeline.PreprocessesTo image planes) :
    pipeline.preprocessBytes image ≠ .error .panic := by
  rw [preprocessed.2]
  rintro ⟨⟩

/-- A batch is the planes of its images one after another. -/
theorem preprocessBatch_eq_ok_iff {batch : Array4 F} :
    pipeline.preprocessBatch images = .ok batch ↔
      images ≠ [] ∧ ∃ blocks : List (List F),
        List.Forall₂ pipeline.PreprocessesTo images blocks ∧
          batch = ⟨images.length, 3, pipeline.cfg.height, pipeline.cfg.width,
            blocks.flatten⟩ := by
  have assembled {blocks : List (List F)} (nonempty : images ≠ [])
      (each : List.Forall₂ pipeline.PreprocessesTo images blocks) :
      pipeline.preprocessBatch images =
        .ok ⟨images.length, 3, pipeline.cfg.height, pipeline.cfg.width,
          blocks.flatten⟩ := by
    have calm : ∀ image ∈ images,
        pipeline.preprocessBytes image ≠ .error .panic :=
      ((List.forall₂_and_left images blocks).mp (each.imp fun _ _ preprocessed =>
        ⟨pipeline.ne_panic_of_preprocessesTo preprocessed, preprocessed⟩)).1
    have sized : ∀ block ∈ blocks,
        block.length = 3 * pipeline.cfg.height * pipeline.cfg.width :=
      ((List.forall₂_and_left blocks images).mp each.flip).1
    rw [pipeline.preprocessBatch_eq nonempty calm,
      pipeline.forall₂_preprocessesTo_iff.mp each,
      assemble_ok sized (by rw [List.length_replicate, Nat.zero_add,
        each.length_eq]), Nat.zero_mul, List.take_zero, List.nil_append]
    rfl
  constructor
  · intro succeeds
    have nonempty : images ≠ [] := by
      rintro rfl
      cases succeeds
    have calm : ∀ image ∈ images,
        pipeline.preprocessBytes image ≠ .error .panic := by
      intro image mem panics
      rw [pipeline.preprocessBatch_eq_panic ⟨image, mem, panics⟩] at succeeds
      cases succeeds
    rw [pipeline.preprocessBatch_eq nonempty calm] at succeeds
    obtain ⟨data, isAssembled, -⟩ := map_eq_ok succeeds
    obtain ⟨blocks, results⟩ := assemble_eq_ok isAssembled
    have each := pipeline.forall₂_preprocessesTo_iff.mpr results
    refine ⟨nonempty, blocks, each, ?_⟩
    rw [← pipeline.preprocessBatch_eq nonempty calm, assembled nonempty each]
      at succeeds
    exact (Except.ok.inj succeeds).symm
  · rintro ⟨nonempty, blocks, each, rfl⟩
    exact assembled nonempty each

/-- Where no image panics, the first image that fails fails the batch, and with
its own error. -/
theorem preprocessBatch_of_first_error {before after : List (List UInt8)}
    {image : List UInt8} {blocks : List (List F)} {message : String}
    (first : List.Forall₂ pipeline.PreprocessesTo before blocks)
    (failed : pipeline.preprocessBytes image = .error (.error message))
    (calm : ∀ other ∈ after, pipeline.preprocessBytes other ≠ .error .panic) :
    pipeline.preprocessBatch (before ++ image :: after) =
      .error (.error message) := by
  have allCalm : ∀ other ∈ before ++ image :: after,
      pipeline.preprocessBytes other ≠ .error .panic := by
    have earlier : ∀ other ∈ before,
        pipeline.preprocessBytes other ≠ .error .panic :=
      ((List.forall₂_and_left before blocks).mp (first.imp fun _ _ preprocessed =>
        ⟨pipeline.ne_panic_of_preprocessesTo preprocessed, preprocessed⟩)).1
    intro other mem
    rcases List.mem_append.mp mem with isEarlier | mem
    · exact earlier other isEarlier
    rcases List.mem_cons.mp mem with rfl | isLater
    · rw [failed]
      rintro ⟨⟩
    · exact calm other isLater
  rw [pipeline.preprocessBatch_eq (by simp) allCalm, List.map_append,
    pipeline.forall₂_preprocessesTo_iff.mp first, List.map_cons, failed]
  change (assemble _ 0 (_ ++ Except.error _ :: _) _).map _ = _
  rw [assemble_error]
  rfl

/-- Either the images of a list have planes, or the first of them that has none
comes after images that have. -/
theorem planes_or_first_error
    (calm : ∀ image ∈ images, pipeline.preprocessBytes image ≠ .error .panic) :
    (∃ blocks, List.Forall₂ pipeline.PreprocessesTo images blocks) ∨
      ∃ before image after blocks message,
        images = before ++ image :: after ∧
          List.Forall₂ pipeline.PreprocessesTo before blocks ∧
            pipeline.preprocessBytes image = .error (.error message) := by
  induction images with
  | nil => exact Or.inl ⟨[], .nil⟩
  | cons first images ih =>
      obtain ⟨message, failed⟩ | panics | ⟨planes, preprocessed⟩ :=
        pipeline.preprocessBytes_cases first
      · exact Or.inr ⟨[], first, images, [], message, rfl, .nil, failed⟩
      · exact absurd panics (calm first List.mem_cons_self)
      · obtain ⟨blocks, each⟩ | ⟨before, image, after, blocks, message, rfl, each,
            failed⟩ := ih fun image mem => calm image (List.mem_cons_of_mem first mem)
        · exact Or.inl ⟨planes :: blocks, .cons preprocessed each⟩
        · exact Or.inr ⟨first :: before, image, after, planes :: blocks, message,
            rfl, .cons preprocessed each, failed⟩

/-- What comes of a batch: a panic if an image has the size of the model but not
enough bytes, else the error of the first image that cannot be read or resized,
and otherwise the planes of the images one after another. -/
theorem preprocessBatch_outcome (images : List (List UInt8)) :
    (images = [] →
      pipeline.preprocessBatch images = .error (.error "empty batch")) ∧
    ((∃ image ∈ images, pipeline.LacksBytes image) →
      pipeline.preprocessBatch images = .error .panic) ∧
    (images ≠ [] → (∀ image ∈ images, ¬pipeline.LacksBytes image) →
      (∃ before image after blocks message, images = before ++ image :: after ∧
        List.Forall₂ pipeline.PreprocessesTo before blocks ∧
          pipeline.preprocessBytes image = .error (.error message) ∧
            pipeline.preprocessBatch images = .error (.error message)) ∨
      ∃ blocks, List.Forall₂ pipeline.PreprocessesTo images blocks ∧
        pipeline.preprocessBatch images =
          .ok ⟨images.length, 3, pipeline.cfg.height, pipeline.cfg.width,
            blocks.flatten⟩) := by
  simp only [← pipeline.preprocessBytes_eq_panic_iff]
  refine ⟨?_, pipeline.preprocessBatch_eq_panic, ?_⟩
  · rintro rfl
    rfl
  · intro nonempty calm
    obtain ⟨blocks, each⟩ | ⟨before, image, after, blocks, message, rfl, each,
      failed⟩ := pipeline.planes_or_first_error calm
    · exact Or.inr ⟨blocks, each,
        pipeline.preprocessBatch_eq_ok_iff.mpr ⟨nonempty, blocks, each, rfl⟩⟩
    · refine Or.inl ⟨before, image, after, blocks, message, rfl, each, failed, ?_⟩
      exact pipeline.preprocessBatch_of_first_error each failed fun other mem =>
        calm other (List.mem_append_right before (List.mem_cons_of_mem image mem))

end Batches

end ImagePipeline

end TorchInference
