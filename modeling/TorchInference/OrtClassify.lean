import Mathlib.Algebra.Order.Field.Rat
import Mathlib.Data.Fin.VecNotation
import Mathlib.Data.List.Forall2
import Mathlib.Data.List.Perm.Basic
import Mathlib.Data.Fintype.Fin
import Mathlib.Tactic.FinCases
import Mathlib.Tactic.NormNum
import TorchInference.ClassifyStream
import TorchInference.ImagePipeline

/-!
# Classification with ONNX Runtime

The classifier takes the planes of a batch image by image.  For a model that
wants pixels it turns the planes back, which makes the bytes of the image.  It
ranks the classes by their scores, and what it makes of a batch is what it makes
of its images one by one, so that the two endpoints repeat each other.
-/

namespace TorchInference

open ExceptSteps FlatRows

/-! ## Pixels of planes -/

section Pixels

variable {F : Type*} (arithmetic : PixelArithmetic F)

/-- `IMAGENET_MEAN`. -/
def imagenetMean : Fin 3 → F :=
  ![arithmetic.literal 485 3, arithmetic.literal 456 3, arithmetic.literal 406 3]

/-- `IMAGENET_STD`. -/
def imagenetStd : Fin 3 → F :=
  ![arithmetic.literal 229 3, arithmetic.literal 224 3, arithmetic.literal 225 3]

/-- `nchw_imagenet_to_nhwc_255`: the pixels of normalised planes; there are none
when a value is missing. -/
def nchwImagenetToNhwc255 (nchw : List F) (h w : Nat) : Option (List F) :=
  scatter (PixelCell.interleaved w)
    (fun cell => nchw[cell.planar h w]?.map fun nchwVal =>
      arithmetic.clamp
        (arithmetic.mul (arithmetic.add
          (arithmetic.mul nchwVal (channelOf (imagenetStd arithmetic) cell.c))
          (channelOf (imagenetMean arithmetic) cell.c)) (arithmetic.literal 255 0))
        (arithmetic.literal 0 0) (arithmetic.literal 255 0))
    (pixelCells h w) (List.replicate (3 * h * w) (arithmetic.literal 0 0))

theorem nchwImagenetToNhwc255_table (h w : Nat) (entry : Nat → Nat → F) :
    nchwImagenetToNhwc255 arithmetic (table 3 (h * w) entry) h w =
      some (table (h * w) 3 fun i c =>
        arithmetic.clamp
          (arithmetic.mul (arithmetic.add
            (arithmetic.mul (entry c i) (channelOf (imagenetStd arithmetic) c))
            (channelOf (imagenetMean arithmetic) c)) (arithmetic.literal 255 0))
          (arithmetic.literal 0 0) (arithmetic.literal 255 0)) := by
  apply scatter_interleaved
  · intro cell mem
    rw [cell.planar_eq, getElem?_table (mem_pixelCells.mp mem).2.2 (pixel_lt mem),
      Option.map_some]
  · rw [List.length_replicate, Nat.mul_assoc]

end Pixels

/-- Arithmetic without rounding. -/
def exactPixels : PixelArithmetic ℚ where
  ofByte byte := byte.toNat
  literal digits decimals := digits / 10 ^ decimals
  add x y := x + y
  sub x y := x - y
  mul x y := x * y
  div x y := x / y
  clamp x low high := if x < low then low else if high < x then high else x

theorem exactPixels_roundTrip {mean std : ℚ} (spread : std ≠ 0) (byte : UInt8) :
    exactPixels.clamp (exactPixels.mul (exactPixels.add (exactPixels.mul
        (exactPixels.div (exactPixels.sub (exactPixels.div
          (exactPixels.ofByte byte) (exactPixels.literal 255 0)) mean) std) std)
        mean) (exactPixels.literal 255 0))
      (exactPixels.literal 0 0) (exactPixels.literal 255 0) =
    exactPixels.ofByte byte := by
  have small : (byte.toNat : ℚ) ≤ 255 := by
    exact_mod_cast Nat.le_of_lt_succ byte.toNat_lt
  have positive : (0 : ℚ) ≤ byte.toNat := Nat.cast_nonneg byte.toNat
  have most : exactPixels.literal 255 0 = 255 := by norm_num [exactPixels]
  have least : exactPixels.literal 0 0 = 0 := by norm_num [exactPixels]
  have back : ((byte.toNat : ℚ) / 255 - mean) / std * std + mean =
      (byte.toNat : ℚ) / 255 := by
    rw [div_mul_cancel₀ _ spread, sub_add_cancel]
  rw [most, least]
  change (if (((byte.toNat : ℚ) / 255 - mean) / std * std + mean) * 255 < 0 then 0
    else if 255 < (((byte.toNat : ℚ) / 255 - mean) / std * std + mean) * 255 then
      255 else (((byte.toNat : ℚ) / 255 - mean) / std * std + mean) * 255) =
        byte.toNat
  rw [back, div_mul_cancel₀ _ (by norm_num), if_neg (not_lt_of_ge positive),
    if_neg (not_lt_of_ge small)]

theorem channelOf_imagenetStd_ne_zero (c : Nat) :
    channelOf (imagenetStd exactPixels) c ≠ 0 := by
  have each : ∀ channel : Fin 3, imagenetStd exactPixels channel ≠ 0 := by
    intro channel
    fin_cases channel <;> norm_num [imagenetStd, exactPixels]
  exact each (Fin.ofNat 3 c)

/-- Without rounding, the pixels that the classifier makes of the planes of an
image are the bytes of the image, whatever its size and however the slices are
aligned. -/
theorem nchwImagenetToNhwc255_hwcU8ToNchwF32
    (align : Nat → (channel : List ℚ) → AlignedSlice channel) (image : HwcImage) :
    let cfg := PreprocessConfig.imagenet exactPixels image.width image.height
    (hwcU8ToNchwF32 exactPixels align image.bytes image.height image.width cfg.mean
        cfg.std).bind
      (nchwImagenetToNhwc255 exactPixels · image.height image.width) =
    some (image.bytes.map exactPixels.ofByte) := by
  intro cfg
  rw [hwcU8ToNchwF32_eq exactPixels align (Nat.le_of_eq image.sized.symm),
    Option.bind_some, nchwImagenetToNhwc255_table]
  congr 1
  refine (eq_table ?_ ?_).symm
  · rw [List.length_map, image.sized]
  · intro i inImage c inChannels
    have inside : i * 3 + c < image.bytes.length := by
      rw [image.sized]
      exact place_lt inImage inChannels
    have byte : image.bytes.getD (i * 3 + c) 0 = image.bytes[i * 3 + c] := by
      rw [List.getD_eq_getElem?_getD, List.getElem?_eq_getElem inside,
        Option.getD_some]
    rw [List.getElem?_map, List.getElem?_eq_getElem inside, Option.map_some,
      scaledByte, byte]
    exact congrArg some
      (exactPixels_roundTrip (channelOf_imagenetStd_ne_zero c) _).symm

/-! ## Ranking the classes -/

/-- The comparison is a linear preorder of the items. -/
def TotalOn {Item : Type*} (compare : Item → Item → Ordering)
    (items : List Item) : Prop :=
  (∀ a ∈ items, ∀ b ∈ items, compare b a = (compare a b).swap) ∧
    ∀ a ∈ items, ∀ b ∈ items, ∀ c ∈ items, (compare a b).isLE = true →
      (compare b c).isLE = true → (compare a c).isLE = true

/-- `sort_unstable_by`: it reorders the items, and puts them in order if the
comparison is one; otherwise it may also panic. -/
structure UnstableSort (Item : Type) where
  sortUnstableBy : (Item → Item → Ordering) → List Item → Option (List Item)
  perm : ∀ {compare items sorted},
    sortUnstableBy compare items = some sorted → sorted.Perm items
  sorts : ∀ {compare items}, TotalOn compare items →
    ∃ sorted, sortUnstableBy compare items = some sorted ∧
      sorted.Pairwise fun a b => (compare a b).isLE = true

/-- `max` of two numbers, of which one may be `NaN`. -/
def maxNum (x y : Float32) : Float32 :=
  if x.isNaN then y else if y.isNaN then x else if x < y then y else x

/-- `output_is_prob` and the rest of what the backend has read from the files,
with the session and the sort of the standard library.  `run` makes the input
tensor, runs the session and extracts the first output. -/
structure OrtClassificationBackend where
  labels : List String
  inputName : String
  nhwc : Bool
  outputIsProb : Bool
  run : String → (shape : List Nat) → List Float32 →
    Except CallFailure (List Float32)
  byScore : UnstableSort (Nat × Float32)

namespace OrtClassificationBackend

def softmax (logits : List Float32) : List Float32 :=
  let max := logits.foldl maxNum (Float32.ofBits 0xFF800000)
  let exp := logits.map fun x => (x - max).exp
  let sum := exp.foldl (fun sum x => sum + x) 0
  exp.map fun x => x / sum

/-- The scores with their classes. -/
def indexed (probs : List Float32) : List (Nat × Float32) :=
  probs.zipIdx.map fun entry => (entry.2, entry.1)

/-- Descending scores; what cannot be compared is equal. -/
def compareScores (a b : Nat × Float32) : Ordering :=
  (SinglePrecision.partialCmp b.2 a.2).getD .eq

variable (backend : OrtClassificationBackend)

/-- There are none when the sort panics. -/
def topK (probs : List Float32) (k : Nat) : Option (List (Nat × Float32)) :=
  (backend.byScore.sortUnstableBy compareScores (indexed probs)).map (·.take k)

def labelOf (classId : Nat) : String :=
  backend.labels[classId]?.getD ("class_" ++ toString classId)

/-- The input of the session for an image. -/
def inputOf (c h w : Nat) (imgNchw : List Float32) :
    Except CallFailure (List Nat × List Float32) :=
  if backend.nhwc then
    (nchwImagenetToNhwc255 singlePixels imgNchw h w).elim (.error .panic)
      fun nhwc => .ok ([1, h, w, c], nhwc)
  else .ok ([1, c, h, w], imgNchw)

/-- The scores of the classes for an image. -/
def scores (c h w : Nat) (imgNchw : List Float32) :
    Except CallFailure (List Float32) :=
  (backend.inputOf c h w imgNchw).bind fun input =>
    (backend.run backend.inputName input.1 input.2).map fun raw =>
      if backend.outputIsProb then raw else softmax raw

/-- One round of the loop of `classify_nchw`. -/
def classifyImage (c h w topK : Nat) (imgNchw : List Float32) :
    Except CallFailure (List Prediction) :=
  (backend.scores c h w imgNchw).bind fun probs =>
    (backend.topK probs topK).elim (.error .panic) fun top =>
      .ok (top.map fun entry => ⟨backend.labelOf entry.1, entry.2, entry.1⟩)

def classifyNchw (batch : Array4 Float32) (topK : Nat) :
    Except CallFailure (List (List Prediction)) :=
  (List.range batch.n).mapM fun i =>
    backend.classifyImage batch.c batch.h batch.w topK
      (row (batch.c * batch.h * batch.w) batch.data i)

/-! ### The ranking -/

theorem compareScores_eq_rank {a b : Nat × Float32} (aNumber : a.2.isNaN = false)
    (bNumber : b.2.isNaN = false) :
    compareScores a b = compare (SinglePrecision.rank b.2.toModel.unpack)
      (SinglePrecision.rank a.2.toModel.unpack) := by
  rw [compareScores, SinglePrecision.partialCmp_eq_rank bNumber aNumber,
    Option.getD_some]

theorem mem_indexed {probs : List Float32} {classId : Nat} {score : Float32} :
    (classId, score) ∈ indexed probs ↔ probs[classId]? = some score := by
  rw [indexed, List.mem_map]
  constructor
  · rintro ⟨⟨other, place⟩, mem, same⟩
    obtain ⟨rfl, rfl⟩ := Prod.mk.inj same
    exact List.mem_zipIdx_iff_getElem?.mp mem
  · exact fun isScore =>
      ⟨(score, classId), List.mem_zipIdx_iff_getElem?.mpr isScore, rfl⟩

/-- Scores that are numbers are in order. -/
theorem totalOn_indexed {probs : List Float32}
    (numbers : ∀ score ∈ probs, score.isNaN = false) :
    TotalOn compareScores (indexed probs) := by
  have number : ∀ entry ∈ indexed probs, entry.2.isNaN = false :=
    fun entry mem => numbers entry.2 (List.mem_of_getElem? (mem_indexed.mp mem))
  constructor
  · intro a aMem b bMem
    rw [compareScores_eq_rank (number b bMem) (number a aMem),
      compareScores_eq_rank (number a aMem) (number b bMem)]
    exact (Std.OrientedCmp.eq_swap).trans rfl
  · intro a aMem b bMem c cMem
    rw [compareScores_eq_rank (number a aMem) (number b bMem),
      compareScores_eq_rank (number b bMem) (number c cMem),
      compareScores_eq_rank (number a aMem) (number c cMem)]
    exact fun first second => Std.TransCmp.isLE_trans second first

/-- The predictions are the best classes by their scores, in order. -/
structure Ranks (probs : List Float32) (topK : Nat)
    (predictions : List Prediction) : Prop where
  count : predictions.length = min topK probs.length
  scored : ∀ prediction ∈ predictions,
    probs[prediction.classId]? = some prediction.confidence
  labelled : ∀ prediction ∈ predictions,
    prediction.label = backend.labelOf prediction.classId
  distinct : (predictions.map Prediction.classId).Nodup
  descending : predictions.Pairwise fun first second =>
    second.confidence ≤ first.confidence
  best : ∀ classId score, probs[classId]? = some score →
    classId ∉ predictions.map Prediction.classId →
      ∀ prediction ∈ predictions, score ≤ prediction.confidence

theorem le_of_compareScores {a b : Nat × Float32} (aNumber : a.2.isNaN = false)
    (bNumber : b.2.isNaN = false) (ordered : (compareScores a b).isLE = true) :
    b.2 ≤ a.2 := by
  rw [compareScores_eq_rank aNumber bNumber] at ordered
  exact (SinglePrecision.le_iff_rank bNumber aNumber).mpr
    (compare_le_iff_le.mp (Ordering.isLE_iff_ne_gt.mp ordered))

/-- The classes of numbers are ranked, without a panic. -/
theorem topK_ranks {probs : List Float32} (k : Nat)
    (numbers : ∀ score ∈ probs, score.isNaN = false) :
    ∃ top, backend.topK probs k = some top ∧
      backend.Ranks probs k
        (top.map fun entry => ⟨backend.labelOf entry.1, entry.2, entry.1⟩) := by
  obtain ⟨sorted, isSorted, ordered⟩ :=
    backend.byScore.sorts (totalOn_indexed numbers)
  have perm := backend.byScore.perm isSorted
  have isScore : ∀ entry ∈ sorted, probs[entry.1]? = some entry.2 :=
    fun entry mem => mem_indexed.mp (perm.mem_iff.mp mem)
  have number : ∀ entry ∈ sorted, entry.2.isNaN = false :=
    fun entry mem => numbers entry.2 (List.mem_of_getElem? (isScore entry mem))
  have descends : sorted.Pairwise fun first second => second.2 ≤ first.2 :=
    ordered.imp_of_mem fun firstMem secondMem isOrdered =>
      le_of_compareScores (number _ firstMem) (number _ secondMem) isOrdered
  have classes : ((sorted.take k).map Prod.fst).Nodup := by
    have all : (sorted.map Prod.fst).Nodup := by
      rw [(perm.map Prod.fst).nodup_iff, indexed, List.map_map]
      exact (List.zipIdx_map_snd 0 probs).symm ▸ List.nodup_range'
    exact all.sublist ((List.take_sublist k sorted).map Prod.fst)
  have predicted (top : List (Nat × Float32)) :
      (top.map fun entry => (⟨backend.labelOf entry.1, entry.2, entry.1⟩ :
        Prediction)).map Prediction.classId = top.map Prod.fst := by
    rw [List.map_map]
    rfl
  refine ⟨sorted.take k, by rw [topK, isSorted, Option.map_some], ?_⟩
  constructor
  · rw [List.length_map, List.length_take, perm.length_eq, indexed, List.length_map,
      List.length_zipIdx]
  · intro prediction mem
    obtain ⟨entry, entryMem, rfl⟩ := List.mem_map.mp mem
    exact isScore entry (List.mem_of_mem_take entryMem)
  · intro prediction mem
    obtain ⟨entry, -, rfl⟩ := List.mem_map.mp mem
    rfl
  · rw [predicted]
    exact classes
  · rw [List.pairwise_map]
    exact descends.sublist (List.take_sublist k sorted)
  · intro classId score classScore dropped prediction mem
    rw [predicted] at dropped
    obtain ⟨entry, entryMem, rfl⟩ := List.mem_map.mp mem
    have classMem : (classId, score) ∈ sorted.take k ++ sorted.drop k := by
      rw [List.take_append_drop]
      exact perm.mem_iff.mpr (mem_indexed.mpr classScore)
    have later : (classId, score) ∈ sorted.drop k :=
      (List.mem_append.mp classMem).resolve_left fun chosen =>
        dropped (List.mem_map.mpr ⟨_, chosen, rfl⟩)
    have apart : (sorted.take k ++ sorted.drop k).Pairwise
        fun first second => second.2 ≤ first.2 := by
      rwa [List.take_append_drop]
    exact (List.pairwise_append.mp apart).2.2 entry entryMem (classId, score) later

/-! ### Batches -/

/-- The images of a batch are classified one after another. -/
theorem classifyNchw_flatten {c h w topK : Nat} {blocks : List (List Float32)}
    (sized : ∀ block ∈ blocks, block.length = c * h * w) :
    backend.classifyNchw ⟨blocks.length, c, h, w, blocks.flatten⟩ topK =
      blocks.mapM (backend.classifyImage c h w topK) := by
  have rows : (List.range blocks.length).map (row (c * h * w) blocks.flatten) =
      blocks := by
    apply List.ext_getElem
    · rw [List.length_map, List.length_range]
    · intro index _ inBlocks
      rw [List.getElem_map, List.getElem_range, row_flatten sized inBlocks]
  conv_rhs => rw [← rows, List.mapM_map]
  rfl

theorem classifyImage_ranks {c h w topK : Nat} {imgNchw probs : List Float32}
    (scored : backend.scores c h w imgNchw = .ok probs)
    (numbers : ∀ score ∈ probs, score.isNaN = false) :
    ∃ predictions, backend.classifyImage c h w topK imgNchw = .ok predictions ∧
      backend.Ranks probs topK predictions := by
  obtain ⟨top, isTop, ranks⟩ := backend.topK_ranks topK numbers
  refine ⟨_, ?_, ranks⟩
  rw [classifyImage, scored]
  change (backend.topK probs topK).elim _ _ = _
  rw [isTop, Option.elim_some]

/-- A batch whose images have scores that are numbers is classified, and the
predictions for every image are the best of its own classes, in order. -/
theorem classifyNchw_ranks {batch : Array4 Float32} (topK : Nat)
    {probs : Nat → List Float32}
    (scored : ∀ i < batch.n, backend.scores batch.c batch.h batch.w
      (row (batch.c * batch.h * batch.w) batch.data i) = .ok (probs i))
    (numbers : ∀ i < batch.n, ∀ score ∈ probs i, score.isNaN = false) :
    ∃ results, backend.classifyNchw batch topK = .ok results ∧
      List.Forall₂ (fun i predictions => backend.Ranks (probs i) topK predictions)
        (List.range batch.n) results := by
  have each : ∀ i ∈ List.range batch.n, ∃ predictions,
      backend.classifyImage batch.c batch.h batch.w topK
          (row (batch.c * batch.h * batch.w) batch.data i) = .ok predictions ∧
        backend.Ranks (probs i) topK predictions := by
    intro i mem
    rw [List.mem_range] at mem
    exact backend.classifyImage_ranks (scored i mem) (numbers i mem)
  exact mapM_of_forall each

end OrtClassificationBackend

/-- A sort that is stable and never panics. -/
def UnstableSort.stable (Item : Type) : UnstableSort Item where
  sortUnstableBy compare items :=
    some ((items.attach.mergeSort fun a b => (compare a.1 b.1).isLE).map
      Subtype.val)
  perm := by
    intro compare items sorted isSorted
    obtain rfl := Option.some.inj isSorted
    refine ((List.mergeSort_perm _ _).map Subtype.val).trans ?_
    rw [List.attach_map_subtype_val]
  sorts := by
    intro compare items total
    refine ⟨_, rfl, ?_⟩
    rw [List.pairwise_map]
    apply List.pairwise_mergeSort
    · exact fun a b c => total.2 a.1 a.2 b.1 b.2 c.1 c.2
    · intro a b
      rw [total.1 a.1 a.2 b.1 b.2, Bool.or_eq_true]
      cases compare a.1 b.1 with
      | lt => exact Or.inl rfl
      | eq => exact Or.inl rfl
      | gt => exact Or.inr rfl

/-- A model that is certain of its first class. -/
def certainBackend : OrtClassificationBackend where
  labels := ["cat"]
  inputName := "data"
  nhwc := false
  outputIsProb := true
  run _ _ _ := .ok [Float32.ofNat 1, Float32.ofNat 0]
  byScore := .stable _

/-- The classes of an image of one pixel. -/
theorem certainBackend_classifyNchw :
    ∃ results,
      certainBackend.classifyNchw ⟨1, 3, 1, 1, List.replicate 3 0⟩ 5 = .ok results ∧
        List.Forall₂ (fun _ predictions => certainBackend.Ranks
          [Float32.ofNat 1, Float32.ofNat 0] 5 predictions) (List.range 1)
          results := by
  refine certainBackend.classifyNchw_ranks 5 ?_ ?_
  · exact fun i _ => rfl
  · intro i _
    rw [List.forall_mem_cons, List.forall_mem_singleton]
    exact ⟨rfl, rfl⟩

/-! ## The two endpoints -/

/-- What a request for classification uses: the pixel pipeline, for every call
with the alignments of its own buffers, and the backend. -/
structure ImageClassifier where
  libraries : ImageLibraries
  align : List (List UInt8) → Nat → (channel : List Float32) → AlignedSlice channel
  backend : OrtClassificationBackend
  /-- What `JoinError` prints for a task that panicked. -/
  joinError : String

namespace ImageClassifier

variable (classifier : ImageClassifier)

def pipelineFor (images : List (List UInt8)) (request : BatchClassifyRequest) :
    ImagePipeline Float32 where
  arithmetic := singlePixels
  libraries := classifier.libraries
  align := classifier.align images
  cfg := .imagenet singlePixels request.modelWidth request.modelHeight

/-- The blocking task: the images are preprocessed and classified. -/
def task (images : List (List UInt8)) (request : BatchClassifyRequest) :
    Except CallFailure (List (List Prediction)) :=
  ((classifier.pipelineFor images request).preprocessBatch images).bind
    fun batch => classifier.backend.classifyNchw batch request.topK

def classify (images : List (List UInt8)) (request : BatchClassifyRequest) :
    Except String (Except String (List (List Prediction))) :=
  match classifier.task images request with
  | .error .panic => .error classifier.joinError
  | .error (.error e) => .ok (.error e)
  | .ok results => .ok (.ok results)

/-- The endpoints with this classifier. -/
def serving (server : ClassifyServer) : ClassifyServer :=
  { server with classify := classifier.classify }

theorem classify_eq_ok_iff {images : List (List UInt8)}
    {request : BatchClassifyRequest} {results : List (List Prediction)} :
    classifier.classify images request = .ok (.ok results) ↔
      classifier.task images request = .ok results := by
  rw [classify]
  rcases classifier.task images request with (message | _) | others
  · exact iff_of_false (by rintro ⟨⟩) (by rintro ⟨⟩)
  · exact iff_of_false (by rintro ⟨⟩) (by rintro ⟨⟩)
  · constructor
    · exact fun same => congrArg Except.ok (Except.ok.inj (Except.ok.inj same))
    · exact fun same => congrArg (Except.ok ∘ Except.ok) (Except.ok.inj same)

/-- The task for one image, whose planes may have been made for a batch. -/
theorem task_singleton {images : List (List UInt8)} {image : List UInt8}
    {request other : BatchClassifyRequest} {planes : List Float32}
    (sameTopK : other.topK = request.topK)
    (sameWidth : other.modelWidth = request.modelWidth)
    (sameHeight : other.modelHeight = request.modelHeight)
    (preprocessed :
      (classifier.pipelineFor images request).PreprocessesTo image planes) :
    classifier.task [image] other =
      [planes].mapM (classifier.backend.classifyImage 3 request.modelHeight
        request.modelWidth request.topK) := by
  have alone : (classifier.pipelineFor [image] other).PreprocessesTo image planes := by
    have realigned := ImagePipeline.preprocessesTo_realign _
      (classifier.align [image]) preprocessed
    rw [pipelineFor] at realigned ⊢
    rw [sameWidth, sameHeight]
    exact realigned
  have batch := (ImagePipeline.preprocessBatch_eq_ok_iff _).mpr
    ⟨List.cons_ne_nil image [], [planes], .cons alone .nil, rfl⟩
  rw [task, batch, ← sameTopK, ← sameWidth, ← sameHeight,
    ← classifier.backend.classifyNchw_flatten]
  · rfl
  · rw [List.forall_mem_singleton]
    exact alone.1

/-- What is found for a batch is found for its images one by one, so that the
stream repeats the answers of the other endpoint. -/
theorem serving_classifiesOneByOne (server : ClassifyServer) :
    (classifier.serving server).ClassifiesOneByOne := by
  intro images request other results sameTopK sameWidth sameHeight classified
  have finished := classifier.classify_eq_ok_iff.mp classified
  obtain ⟨batch, isBatch, isClassified⟩ := bind_eq_ok finished
  obtain ⟨-, blocks, each, rfl⟩ := (ImagePipeline.preprocessBatch_eq_ok_iff _).mp
    isBatch
  have sized : ∀ block ∈ blocks,
      block.length = 3 * request.modelHeight * request.modelWidth :=
    ((List.forall₂_and_left blocks images).mp each.flip).1
  rw [each.length_eq] at isClassified
  have visited := mapM_eq_ok
    ((classifier.backend.classifyNchw_flatten sized).symm.trans isClassified)
  refine forall₂_comp each visited ?_
  intro image planes predictions preprocessed found
  refine classifier.classify_eq_ok_iff.mpr ?_
  rw [classifier.task_singleton sameTopK sameWidth sameHeight preprocessed,
    List.mapM_cons, found]
  rfl

end ImageClassifier

end TorchInference
