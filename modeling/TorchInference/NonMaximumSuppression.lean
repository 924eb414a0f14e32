import Mathlib.Algebra.Order.Field.Rat
import Mathlib.Data.List.Nodup
import Mathlib.Tactic.Linarith
import Mathlib.Tactic.Positivity
import TorchInference.GreedySelection

/-!
# Non-maximum suppression

Of the boxes of one class that overlap only the one with the highest
confidence is kept.  One detector removes what overlaps from its list, the
other clears flags in a mask.  The numbers are exact rationals here.
-/

namespace TorchInference

open GreedySelection

/-! ## Removing from a list -/

/-- `BoundingBox`, over exact rationals. -/
structure ExactBox where
  x1 : ℚ
  y1 : ℚ
  x2 : ℚ
  y2 : ℚ
  deriving DecidableEq

namespace ExactBox

def width (box : ExactBox) : ℚ :=
  box.x2 - box.x1

def height (box : ExactBox) : ℚ :=
  box.y2 - box.y1

def area (box : ExactBox) : ℚ :=
  box.width * box.height

def iou (box other : ExactBox) : ℚ :=
  let x1 := max box.x1 other.x1
  let y1 := max box.y1 other.y1
  let x2 := min box.x2 other.x2
  let y2 := min box.y2 other.y2
  if x2 < x1 ∨ y2 < y1 then 0
  else
    let intersection := (x2 - x1) * (y2 - y1)
    let union := box.area + other.area - intersection
    intersection / union

/-- A box with an inside. -/
def Proper (box : ExactBox) : Prop :=
  box.x1 < box.x2 ∧ box.y1 < box.y2

end ExactBox

/-- `Detection`, over exact rationals. -/
structure ExactDetection where
  classId : Nat
  className : String
  confidence : ℚ
  bbox : ExactBox
  deriving DecidableEq

namespace YoloDetector

def sortByConfidence (detections : List ExactDetection) :
    List ExactDetection :=
  detections.mergeSort fun a b => decide (b.confidence ≤ a.confidence)

/-- Whether a detection is retained beside the one that is kept. -/
def retains (iouThreshold : ℚ) (current det : ExactDetection) : Bool :=
  if det.classId ≠ current.classId then true
  else decide (det.bbox.iou current.bbox < iouThreshold)

def retain (iouThreshold : ℚ) (current : ExactDetection)
    (detections : List ExactDetection) : List ExactDetection :=
  detections.filter (retains iouThreshold current)

theorem retain_length_le (iouThreshold : ℚ) (current : ExactDetection)
    (detections : List ExactDetection) :
    (retain iouThreshold current detections).length ≤ detections.length :=
  List.length_filter_le ..

/-- The loop that removes the head of the list until nothing is left. -/
def keepHeads (iouThreshold : ℚ) :
    List ExactDetection → List ExactDetection
  | [] => []
  | current :: detections =>
      current ::
        keepHeads iouThreshold (retain iouThreshold current detections)
termination_by detections => detections.length
decreasing_by
  exact Nat.lt_succ_of_le (retain_length_le iouThreshold current detections)

def nonMaximumSuppression (iouThreshold : ℚ)
    (detections : List ExactDetection) : List ExactDetection :=
  if detections.isEmpty then detections
  else keepHeads iouThreshold (sortByConfidence detections)

end YoloDetector

/-! ## Clearing flags in a mask -/

structure BoxCandidate where
  x1 : ℚ
  y1 : ℚ
  x2 : ℚ
  y2 : ℚ
  score : ℚ
  classId : Nat
  deriving DecidableEq

namespace OrtYoloDetector

def iou (a b : BoxCandidate) : ℚ :=
  let ix1 := max a.x1 b.x1
  let iy1 := max a.y1 b.y1
  let ix2 := min a.x2 b.x2
  let iy2 := min a.y2 b.y2
  let interW := max (ix2 - ix1) 0
  let interH := max (iy2 - iy1) 0
  let inter := interW * interH
  if inter = 0 then 0
  else
    let areaA := (a.x2 - a.x1) * (a.y2 - a.y1)
    let areaB := (b.x2 - b.x1) * (b.y2 - b.y1)
    inter / (areaA + areaB - inter)

/-- What an unstable sort by descending score may make of the boxes. -/
def SortedUnstably (boxes sorted : List BoxCandidate) : Prop :=
  sorted.Perm boxes ∧ sorted.Pairwise fun a b => b.score ≤ a.score

/-- The inner loop at the two indices, which are in range. -/
def compare (iouThreshold : ℚ) (boxes : List BoxCandidate) (i : Nat)
    (kept : List Bool) (j : Nat) : List Bool :=
  match kept[j]?, boxes[i]?, boxes[j]? with
  | some true, some box, some other =>
      if box.classId ≠ other.classId then kept
      else if iou box other > iouThreshold then kept.set j false
      else kept
  | _, _, _ => kept

/-- One round of the outer loop. -/
def clearOverlapping (iouThreshold : ℚ) (boxes : List BoxCandidate)
    (kept : List Bool) (i : Nat) : List Bool :=
  match kept[i]? with
  | some true =>
      (List.range' (i + 1) (boxes.length - (i + 1))).foldl
        (compare iouThreshold boxes i) kept
  | _ => kept

def keptFlags (iouThreshold : ℚ) (boxes : List BoxCandidate) : List Bool :=
  (List.range boxes.length).foldl (clearOverlapping iouThreshold boxes)
    (List.replicate boxes.length true)

def keptBoxes (iouThreshold : ℚ) (boxes : List BoxCandidate) :
    List BoxCandidate :=
  let kept := keptFlags iouThreshold boxes
  (boxes.zipIdx.filter fun entry => kept[entry.2]? == some true).map Prod.fst

end OrtYoloDetector

/-! ## The overlap of two boxes -/

/-- The candidate with the place, the score and the class of a detection. -/
def ExactDetection.toCandidate (det : ExactDetection) : BoxCandidate where
  x1 := det.bbox.x1
  y1 := det.bbox.y1
  x2 := det.bbox.x2
  y2 := det.bbox.y2
  score := det.confidence
  classId := det.classId

namespace ExactBox

theorem iou_comm (box other : ExactBox) : box.iou other = other.iou box := by
  simp only [iou, max_comm other.x1, max_comm other.y1, min_comm other.x2,
    min_comm other.y2, add_comm other.area]

theorem Proper.area_pos {box : ExactBox} (proper : box.Proper) :
    0 < box.area :=
  mul_pos (sub_pos.mpr proper.1) (sub_pos.mpr proper.2)

/-- Boxes with an inside are never divided by nothing. -/
theorem Proper.union_pos {box other : ExactBox} (proper : box.Proper)
    (otherProper : other.Proper)
    (meets : max box.y1 other.y1 ≤ min box.y2 other.y2) :
    0 < box.area + other.area -
      (min box.x2 other.x2 - max box.x1 other.x1) *
        (min box.y2 other.y2 - max box.y1 other.y1) := by
  have narrower : min box.x2 other.x2 - max box.x1 other.x1 ≤ box.width :=
    sub_le_sub (min_le_left _ _) (le_max_left _ _)
  have lower : min box.y2 other.y2 - max box.y1 other.y1 ≤ box.height :=
    sub_le_sub (min_le_left _ _) (le_max_left _ _)
  have inside := mul_le_mul narrower lower (sub_nonneg.mpr meets)
    (sub_pos.mpr proper.1).le
  have positive := otherProper.area_pos
  rw [show box.area = box.width * box.height from rfl]
  linarith

end ExactBox

namespace OrtYoloDetector

/-- Boxes that only touch have no common area, which the one function finds by
a division and the other without. -/
theorem iou_toCandidate (det other : ExactDetection) :
    iou det.toCandidate other.toCandidate = det.bbox.iou other.bbox := by
  dsimp only [iou, ExactBox.iou, ExactDetection.toCandidate, ExactBox.area,
    ExactBox.width, ExactBox.height]
  split_ifs with empty apart apart
  · rfl
  · -- The boxes touch, so that the division is one of nothing.
    rw [not_or, not_lt, not_lt] at apart
    rw [max_eq_left (sub_nonneg.mpr apart.1),
      max_eq_left (sub_nonneg.mpr apart.2)] at empty
    rw [empty, zero_div]
  · exfalso
    apply empty
    rcases apart with apart | apart
    · rw [max_eq_right (sub_nonpos.mpr apart.le), zero_mul]
    · rw [max_eq_right (sub_nonpos.mpr apart.le), mul_zero]
  · rw [not_or, not_lt, not_lt] at apart
    rw [max_eq_left (sub_nonneg.mpr apart.1),
      max_eq_left (sub_nonneg.mpr apart.2)]

end OrtYoloDetector

/-! ## Both loops select greedily -/

namespace YoloDetector

theorem keepHeads_eq_select (iouThreshold : ℚ)
    (detections : List ExactDetection) :
    keepHeads iouThreshold detections =
      select (fun current det => !retains iouThreshold current det)
        detections := by
  induction detections using keepHeads.induct iouThreshold with
  | case1 => rw [keepHeads, select_nil]
  | case2 current detections ih =>
      rw [keepHeads, select_cons, ih]
      simp only [retain, Bool.not_not]

end YoloDetector

namespace OrtYoloDetector

/-- Whether the box at one index clears the flag at another. -/
def clears (iouThreshold : ℚ) (box other : BoxCandidate) : Bool :=
  decide (box.classId = other.classId ∧ iouThreshold < iou box other)

variable {iouThreshold : ℚ} {boxes : List BoxCandidate} {i : Nat}

theorem compare_getElem? (kept : List Bool) (inRange : i < boxes.length)
    {j : Nat} (other : j < boxes.length) (k : Nat) :
    (compare iouThreshold boxes i kept j)[k]? = some true ↔
      kept[k]? = some true ∧
        (k = j → clears iouThreshold boxes[i] boxes[j] = false) := by
  unfold compare
  rw [List.getElem?_eq_getElem inRange, List.getElem?_eq_getElem other]
  split
  · rename_i box other keptJ firstBox otherBox
    cases firstBox
    cases otherBox
    simp only [clears, decide_eq_false_iff_not, not_and]
    split_ifs with classes overlaps
    · simp [classes]
    · rw [List.getElem?_set]
      split_ifs with same
      · simp [← same, not_not.mp classes, overlaps]
      · simp [← same, not_not.mp classes, overlaps]
      · simp [Ne.symm same]
    · simp [overlaps]
  · rename_i others
    have cleared : kept[j]? ≠ some true := fun keptJ =>
      others boxes[i] boxes[j] keptJ rfl rfl
    refine ⟨fun keptK => ⟨keptK, ?_⟩, And.left⟩
    rintro rfl
    exact absurd keptK cleared

theorem foldl_compare_getElem? (kept : List Bool) (inRange : i < boxes.length)
    (others : List Nat) (othersInRange : ∀ j ∈ others, j < boxes.length)
    (k : Nat) (atK : k < boxes.length) :
    (others.foldl (compare iouThreshold boxes i) kept)[k]? = some true ↔
      kept[k]? = some true ∧
        (k ∈ others → clears iouThreshold boxes[i] boxes[k] = false) := by
  induction others generalizing kept with
  | nil => simp
  | cons j others ih =>
      have atJ : j < boxes.length := othersInRange j List.mem_cons_self
      have rest := ih (compare iouThreshold boxes i kept j)
        fun other mem => othersInRange other (List.mem_cons_of_mem j mem)
      rw [List.foldl_cons, rest, compare_getElem? kept inRange atJ, and_assoc]
      refine and_congr_right fun _ => ?_
      rw [List.mem_cons, or_imp]
      refine and_congr_left fun _ => ?_
      constructor
      · rintro free rfl
        exact free rfl
      · rintro free rfl
        exact free rfl

/-- A round clears the flags of the later boxes that its box overlaps, when its
own flag is still set. -/
theorem clearOverlapping_getElem? (kept : List Bool)
    (inRange : i < boxes.length) (k : Nat) (atK : k < boxes.length) :
    (clearOverlapping iouThreshold boxes kept i)[k]? = some true ↔
      kept[k]? = some true ∧ (kept[i]? = some true → i < k →
        clears iouThreshold boxes[i] boxes[k] = false) := by
  unfold clearOverlapping
  split
  · rename_i keptI
    rw [foldl_compare_getElem? kept inRange _ _ k atK]
    · have later : k ∈ List.range' (i + 1) (boxes.length - (i + 1)) ↔ i < k := by
        rw [List.mem_range'_1]
        omega
      simp [later, keptI]
    · intro j mem
      rw [List.mem_range'_1] at mem
      omega
  · rename_i cleared
    exact ⟨fun keptK => ⟨keptK, fun keptI => absurd keptI cleared⟩, And.left⟩

/-- After some rounds a flag is set exactly when no box of these rounds that is
kept clears it. -/
theorem rounds_getElem? (rounds : Nat) (enough : rounds ≤ boxes.length)
    (k : Nat) (atK : k < boxes.length) :
    ((List.range rounds).foldl (clearOverlapping iouThreshold boxes)
        (List.replicate boxes.length true))[k]? = some true ↔
      ∀ i (before : i < k), i < rounds →
        ((List.range rounds).foldl (clearOverlapping iouThreshold boxes)
          (List.replicate boxes.length true))[i]? = some true →
        clears iouThreshold boxes[i] boxes[k] = false := by
  induction rounds generalizing k with
  | zero => simp [atK]
  | succ rounds ih =>
      have inRange : rounds < boxes.length := enough
      have earlier := ih (by omega)
      rw [List.range_succ, List.foldl_append, List.foldl_cons, List.foldl_nil]
      generalize (List.range rounds).foldl (clearOverlapping iouThreshold boxes)
        (List.replicate boxes.length true) = kept at earlier ⊢
      -- The last round clears no flag up to its own.
      have settled : ∀ i, i ≤ rounds →
          ((clearOverlapping iouThreshold boxes kept rounds)[i]? = some true ↔
            kept[i]? = some true) := by
        intro i atMost
        rw [clearOverlapping_getElem? kept inRange i (by omega)]
        exact ⟨And.left, fun keptI => ⟨keptI, fun _ after => by omega⟩⟩
      rw [clearOverlapping_getElem? kept inRange k atK, earlier k atK]
      constructor
      · rintro ⟨free, last⟩ i before among keptI
        rw [settled i (by omega)] at keptI
        rcases Nat.lt_succ_iff_lt_or_eq.mp among with among | rfl
        · exact free i before among keptI
        · exact last keptI before
      · intro free
        refine ⟨fun i before among keptI => ?_, fun keptI before => ?_⟩
        · exact free i before (by omega) ((settled i (by omega)).mpr keptI)
        · exact free rounds before (by omega) ((settled rounds le_rfl).mpr keptI)

theorem keptBoxes_eq_select (iouThreshold : ℚ) (boxes : List BoxCandidate) :
    keptBoxes iouThreshold boxes = select (clears iouThreshold) boxes := by
  refine filter_mask_eq_select (clears iouThreshold)
    (fun index => (keptFlags iouThreshold boxes)[index]? == some true) boxes ?_
  intro later inRange
  simp only [beq_iff_eq]
  rw [keptFlags, rounds_getElem? boxes.length le_rfl later inRange]
  exact ⟨fun free earlier before keptBefore =>
      free earlier before (by omega) keptBefore,
    fun free earlier before _ keptBefore => free earlier before keptBefore⟩

end OrtYoloDetector

/-! ## The two suppressions agree -/

namespace YoloDetector

theorem sortByConfidence_perm (detections : List ExactDetection) :
    (sortByConfidence detections).Perm detections :=
  List.mergeSort_perm ..

theorem sortByConfidence_pairwise (detections : List ExactDetection) :
    (sortByConfidence detections).Pairwise
      fun a b => b.confidence ≤ a.confidence := by
  have sorted : (sortByConfidence detections).Pairwise
      fun a b => decide (b.confidence ≤ a.confidence) = true := by
    apply List.pairwise_mergeSort
    · intro a b c first second
      rw [decide_eq_true_eq] at *
      exact second.trans first
    · intro a b
      rw [Bool.or_eq_true, decide_eq_true_eq, decide_eq_true_eq]
      exact le_total _ _
  exact sorted.imp of_decide_eq_true

theorem sortByConfidence_eq_self {detections : List ExactDetection}
    (sorted : detections.Pairwise fun a b => b.confidence ≤ a.confidence) :
    sortByConfidence detections = detections :=
  List.mergeSort_of_pairwise (sorted.imp decide_eq_true)

/-- Whether a threshold is attained does not depend on the order. -/
theorem missed_sortByConfidence {iouThreshold : ℚ}
    {detections : List ExactDetection}
    (missed : detections.Pairwise
      fun a b => a.bbox.iou b.bbox ≠ iouThreshold) :
    (sortByConfidence detections).Pairwise
      fun a b => a.bbox.iou b.bbox ≠ iouThreshold := by
  refine ((sortByConfidence_perm detections).pairwise_iff ?_).mpr missed
  intro a b attained
  rwa [ExactBox.iou_comm]

/-- Whether the kept detection removes another one from the list. -/
def removes (iouThreshold : ℚ) (current det : ExactDetection) : Bool :=
  !retains iouThreshold current det

theorem removes_eq (iouThreshold : ℚ) (current det : ExactDetection) :
    removes iouThreshold current det =
      decide (current.classId = det.classId ∧
        iouThreshold ≤ current.bbox.iou det.bbox) := by
  rw [removes, retains, ExactBox.iou_comm]
  by_cases same : det.classId = current.classId
  · simp [same, ← not_le]
  · simp [same, Ne.symm same]

theorem nonMaximumSuppression_eq_select (iouThreshold : ℚ)
    (detections : List ExactDetection) :
    nonMaximumSuppression iouThreshold detections =
      select (removes iouThreshold) (sortByConfidence detections) := by
  unfold nonMaximumSuppression
  split_ifs with empty
  · rw [List.isEmpty_iff.mp empty, sortByConfidence, List.mergeSort_nil,
      select_nil]
  · exact keepHeads_eq_select iouThreshold _

theorem nonMaximumSuppression_sublist (iouThreshold : ℚ)
    (detections : List ExactDetection) :
    (nonMaximumSuppression iouThreshold detections).Sublist
      (sortByConfidence detections) := by
  rw [nonMaximumSuppression_eq_select]
  exact select_sublist ..

theorem nonMaximumSuppression_idempotent (iouThreshold : ℚ)
    (detections : List ExactDetection) :
    nonMaximumSuppression iouThreshold
        (nonMaximumSuppression iouThreshold detections) =
      nonMaximumSuppression iouThreshold detections := by
  have sorted := (sortByConfidence_pairwise detections).sublist
    (nonMaximumSuppression_sublist iouThreshold detections)
  rw [nonMaximumSuppression_eq_select iouThreshold
      (nonMaximumSuppression iouThreshold detections),
    sortByConfidence_eq_self sorted, nonMaximumSuppression_eq_select,
    select_select]

end YoloDetector

namespace OrtYoloDetector

/-- Boxes with different scores can be sorted in one way only. -/
theorem SortedUnstably.unique {first second : List BoxCandidate}
    (sorted : SortedUnstably first second)
    (already : first.Pairwise fun a b => b.score ≤ a.score)
    (distinct : (first.map BoxCandidate.score).Nodup) : second = first := by
  refine List.Perm.eq_of_pairwise ?_ sorted.2 already sorted.1
  intro a b memA memB atMost atLeast
  exact List.inj_on_of_nodup_map distinct (sorted.1.mem_iff.mp memA) memB
    (le_antisymm atLeast atMost)

theorem sorted_eq_map {detections : List ExactDetection}
    {sorted : List BoxCandidate}
    (distinct : (detections.map ExactDetection.confidence).Nodup)
    (sort : SortedUnstably (detections.map ExactDetection.toCandidate) sorted) :
    sorted = (YoloDetector.sortByConfidence detections).map
      ExactDetection.toCandidate := by
  have perm := YoloDetector.sortByConfidence_perm detections
  have again : SortedUnstably ((YoloDetector.sortByConfidence detections).map
      ExactDetection.toCandidate) sorted :=
    ⟨sort.1.trans (perm.map _).symm, sort.2⟩
  apply again.unique
  · exact List.pairwise_map.mpr (YoloDetector.sortByConfidence_pairwise _)
  · rw [List.map_map]
    exact ((perm.map _).nodup_iff).mpr distinct

/-- The flags are cleared where the list loses its detections, unless the
threshold is attained exactly. -/
theorem clears_toCandidate {iouThreshold : ℚ} {det other : ExactDetection}
    (missed : det.bbox.iou other.bbox ≠ iouThreshold) :
    clears iouThreshold det.toCandidate other.toCandidate =
      YoloDetector.removes iouThreshold det other := by
  rw [clears, YoloDetector.removes_eq, iou_toCandidate, decide_eq_decide,
    missed.symm.le_iff_lt]
  rfl

theorem keptBoxes_eq_map {iouThreshold : ℚ} {detections : List ExactDetection}
    {sorted : List BoxCandidate}
    (distinct : (detections.map ExactDetection.confidence).Nodup)
    (missed : detections.Pairwise
      fun a b => a.bbox.iou b.bbox ≠ iouThreshold)
    (sort : SortedUnstably (detections.map ExactDetection.toCandidate) sorted) :
    keptBoxes iouThreshold sorted =
      (YoloDetector.nonMaximumSuppression iouThreshold detections).map
        ExactDetection.toCandidate := by
  rw [sorted_eq_map distinct sort, keptBoxes_eq_select, select_map,
    YoloDetector.nonMaximumSuppression_eq_select]
  congr 1
  exact select_congr_conflicts _
    ((YoloDetector.missed_sortByConfidence missed).imp clears_toCandidate)

end OrtYoloDetector

namespace YoloDetector

/-- A detection that is not kept overlaps a kept one of its class that has a
higher confidence. -/
theorem exists_better_of_not_kept {iouThreshold : ℚ}
    {detections : List ExactDetection} {det : ExactDetection}
    (distinct : (detections.map ExactDetection.confidence).Nodup)
    (missed : detections.Pairwise
      fun a b => a.bbox.iou b.bbox ≠ iouThreshold)
    (mem : det ∈ detections)
    (dropped : det ∉ nonMaximumSuppression iouThreshold detections) :
    ∃ better ∈ nonMaximumSuppression iouThreshold detections,
      better.classId = det.classId ∧ det.confidence < better.confidence ∧
        iouThreshold < better.bbox.iou det.bbox := by
  have perm := sortByConfidence_perm detections
  rw [nonMaximumSuppression_eq_select] at dropped ⊢
  obtain ⟨better, keeps, removed, order⟩ :=
    conflicts_of_not_mem_select _ (perm.mem_iff.mpr mem) dropped
  rw [removes_eq, decide_eq_true_eq] at removed
  have among : better ∈ detections :=
    perm.mem_iff.mp ((select_sublist _ _).subset keeps)
  have atLeast : det.confidence ≤ better.confidence :=
    List.rel_of_pairwise_cons ((sortByConfidence_pairwise detections).sublist
      order) (by simp)
  have overlap : better.bbox.iou det.bbox ≠ iouThreshold :=
    List.rel_of_pairwise_cons
      ((missed_sortByConfidence missed).sublist order) (by simp)
  refine ⟨better, keeps, removed.1, lt_of_le_of_ne atLeast ?_,
    lt_of_le_of_ne removed.2 overlap.symm⟩
  intro equal
  have same := List.inj_on_of_nodup_map distinct mem among equal
  exact dropped (same ▸ keeps)

/-- Both suppressions keep the same boxes in the same order.  No two of these
overlap too much, each box that is not kept overlaps one with a higher
confidence that is, and suppressing again changes nothing. -/
theorem nonMaximumSuppression_agrees (iouThreshold : ℚ)
    (detections : List ExactDetection) (sorted : List BoxCandidate)
    (distinct : (detections.map ExactDetection.confidence).Nodup)
    (missed : detections.Pairwise
      fun a b => a.bbox.iou b.bbox ≠ iouThreshold)
    (sort : OrtYoloDetector.SortedUnstably
      (detections.map ExactDetection.toCandidate) sorted) :
    let kept := nonMaximumSuppression iouThreshold detections
    let keptBoxes := OrtYoloDetector.keptBoxes iouThreshold
    keptBoxes sorted = kept.map ExactDetection.toCandidate ∧
      kept ⊆ detections ∧
      kept.Pairwise (fun a b => a.classId = b.classId →
        a.bbox.iou b.bbox ≤ iouThreshold) ∧
      (∀ det ∈ detections, det ∉ kept → ∃ better ∈ kept,
        better.classId = det.classId ∧ det.confidence < better.confidence ∧
          iouThreshold < better.bbox.iou det.bbox) ∧
      nonMaximumSuppression iouThreshold kept = kept ∧
      ∀ again, OrtYoloDetector.SortedUnstably (keptBoxes sorted) again →
        keptBoxes again = keptBoxes sorted := by
  intro kept keptBoxes
  have perm := sortByConfidence_perm detections
  have agree : keptBoxes sorted = kept.map ExactDetection.toCandidate :=
    OrtYoloDetector.keptBoxes_eq_map distinct missed sort
  have sublist : kept.Sublist (sortByConfidence detections) :=
    nonMaximumSuppression_sublist iouThreshold detections
  refine ⟨agree, ?_, ?_, ?_, ?_, ?_⟩
  · exact fun det mem => perm.mem_iff.mp (sublist.subset mem)
  · rw [show kept = select (removes iouThreshold) _ from
      nonMaximumSuppression_eq_select iouThreshold detections]
    refine (select_pairwise (removes iouThreshold) _).imp fun {a b} free same => ?_
    rw [removes_eq, decide_eq_false_iff_not, not_and] at free
    exact (not_le.mp (free same)).le
  · exact fun det mem dropped =>
      exists_better_of_not_kept distinct missed mem dropped
  · exact nonMaximumSuppression_idempotent iouThreshold detections
  · intro again sortAgain
    rw [agree] at sortAgain ⊢
    have distinctKept : (kept.map ExactDetection.confidence).Nodup :=
      (sublist.map _).nodup ((perm.map _).nodup_iff.mpr distinct)
    have unchanged := OrtYoloDetector.keptBoxes_eq_map distinctKept
      ((missed_sortByConfidence missed).sublist sublist) sortAgain
    rw [show keptBoxes again = _ from unchanged,
      nonMaximumSuppression_idempotent]

/-- Two overlapping boxes of one class, and one of another. -/
def overlapping : List ExactDetection :=
  [⟨0, "cat", 1 / 2, ⟨0, 0, 2, 2⟩⟩, ⟨0, "cat", 3 / 4, ⟨0, 0, 2, 3⟩⟩,
    ⟨1, "dog", 1 / 4, ⟨0, 0, 2, 2⟩⟩]

def overlappingSorted : List BoxCandidate :=
  [⟨0, 0, 2, 3, 3 / 4, 0⟩, ⟨0, 0, 2, 2, 1 / 2, 0⟩, ⟨0, 0, 2, 2, 1 / 4, 1⟩]

example : OrtYoloDetector.keptFlags (1 / 2) overlappingSorted =
    [true, false, true] := by
  decide +kernel

theorem overlapping_agrees :
    OrtYoloDetector.keptBoxes (1 / 2) overlappingSorted =
        (nonMaximumSuppression (1 / 2) overlapping).map
          ExactDetection.toCandidate ∧
      nonMaximumSuppression (1 / 2)
          (nonMaximumSuppression (1 / 2) overlapping) =
        nonMaximumSuppression (1 / 2) overlapping := by
  have agrees := nonMaximumSuppression_agrees (1 / 2) overlapping
    overlappingSorted (by decide +kernel) (by decide +kernel)
    (by unfold OrtYoloDetector.SortedUnstably; decide +kernel)
  exact ⟨agrees.1, agrees.2.2.2.2.1⟩

end YoloDetector

end TorchInference
