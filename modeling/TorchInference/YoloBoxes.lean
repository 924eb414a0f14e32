import TorchInference.NonMaximumSuppression

/-!
# The boxes of a detector

The detector reads a box and the scores of the classes at each anchor, scales
the boxes to the image, suppresses those that overlap and clips the rest.  Of a
clipped box the left and the upper edge are bounded below only, and the right
and the lower one above only.  The numbers are exact rationals here.
-/

namespace TorchInference

open GreedySelection

/-- A candidate in the square of the model. -/
structure RawCandidate where
  cx : ℚ
  cy : ℚ
  bw : ℚ
  bh : ℚ
  score : ℚ
  classId : Nat
  deriving DecidableEq

namespace OrtYoloDetector

def modelInputSize : ℚ := 640

def numClasses : Nat := 80

def numAnchors : Nat := 8400

/-- One round of the loop that looks for the best class at an anchor. -/
def better (raw : Nat → ℚ) (a : Nat) (best : Nat × Option ℚ) (c : Nat) :
    Nat × Option ℚ :=
  let s := raw ((4 + c) * numAnchors + a)
  if best.2.all (· < s) then (c, some s) else best

/-- The class with the best score at an anchor, and the score; before the first
class the score is infinitely low. -/
def bestClass (raw : Nat → ℚ) (a : Nat) : Nat × Option ℚ :=
  (List.range numClasses).foldl (better raw a) (0, none)

/-- `best_score.clamp(0.0, 1.0)`. -/
def confidence (raw : Nat → ℚ) (a : Nat) : ℚ :=
  match (bestClass raw a).2 with
  | none => 0
  | some bestScore => max 0 (min bestScore 1)

/-- The candidate at an anchor of the output, which is row-major. -/
def candidate (raw : Nat → ℚ) (confThreshold : ℚ) (a : Nat) :
    Option RawCandidate :=
  if confidence raw a < confThreshold then none
  else some {
    cx := raw a
    cy := raw (numAnchors + a)
    bw := raw (2 * numAnchors + a)
    bh := raw (3 * numAnchors + a)
    score := confidence raw a
    classId := (bestClass raw a).1 }

def candidates (raw : Nat → ℚ) (confThreshold : ℚ) : List RawCandidate :=
  (List.range numAnchors).filterMap (candidate raw confThreshold)

/-- The corners of a candidate in an image of this size. -/
def toCorners (origW origH : Nat) (found : RawCandidate) : BoxCandidate :=
  let scaleX := (origW : ℚ) / modelInputSize
  let scaleY := (origH : ℚ) / modelInputSize
  let halfW := found.bw / 2
  let halfH := found.bh / 2
  { x1 := (found.cx - halfW) * scaleX
    y1 := (found.cy - halfH) * scaleY
    x2 := (found.cx + halfW) * scaleX
    y2 := (found.cy + halfH) * scaleY
    score := found.score
    classId := found.classId }

def boxes (raw : Nat → ℚ) (confThreshold : ℚ) (origW origH : Nat) :
    List BoxCandidate :=
  (candidates raw confThreshold).map (toCorners origW origH)

/-- The detection of a box that is kept. -/
def toDetection (classNames : List String) (origW origH : Nat)
    (b : BoxCandidate) : ExactDetection where
  classId := b.classId
  className := classNames[b.classId]?.getD s!"class_{b.classId}"
  confidence := b.score
  bbox := {
    x1 := max b.x1 0
    y1 := max b.y1 0
    x2 := min b.x2 origW
    y2 := min b.y2 origH }

/-- What is made of the boxes when they have been sorted. -/
def detections (classNames : List String) (iouThreshold : ℚ)
    (origW origH : Nat) (sorted : List BoxCandidate) : List ExactDetection :=
  (keptBoxes iouThreshold sorted).map (toDetection classNames origW origH)

end OrtYoloDetector

/-! ## Boxes and the image -/

/-- The box is one in the image. -/
def ExactBox.Inside (origW origH : Nat) (box : ExactBox) : Prop :=
  (0 ≤ box.x1 ∧ box.x1 ≤ box.x2 ∧ box.x2 ≤ origW) ∧
    0 ≤ box.y1 ∧ box.y1 ≤ box.y2 ∧ box.y2 ≤ origH

/-- The box and the image have a point in common. -/
def BoxCandidate.Meets (origW origH : Nat) (box : BoxCandidate) : Prop :=
  (0 ≤ box.x2 ∧ box.x1 ≤ origW) ∧ 0 ≤ box.y2 ∧ box.y1 ≤ origH

instance (origW origH : Nat) (box : ExactBox) :
    Decidable (box.Inside origW origH) :=
  inferInstanceAs (Decidable (_ ∧ _))

instance (origW origH : Nat) (box : BoxCandidate) :
    Decidable (box.Meets origW origH) :=
  inferInstanceAs (Decidable (_ ∧ _))

/-- Clipped at one end each, an interval is one within the range exactly if it
meets it. -/
theorem clipped_iff {low high size : ℚ} (ordered : low ≤ high)
    (nonneg : 0 ≤ size) :
    (0 ≤ max low 0 ∧ max low 0 ≤ min high size ∧ min high size ≤ size) ↔
      0 ≤ high ∧ low ≤ size := by
  rw [and_iff_right (le_max_right low 0),
    and_iff_left (min_le_right high size), le_min_iff, max_le_iff, max_le_iff]
  exact ⟨fun both => ⟨both.1.2, both.2.1⟩,
    fun meets => ⟨⟨ordered, meets.1⟩, meets.2, nonneg⟩⟩

namespace OrtYoloDetector

variable {raw : Nat → ℚ} {origW origH : Nat}

theorem inside_toDetection_iff (classNames : List String) {box : BoxCandidate}
    (wide : box.x1 ≤ box.x2) (high : box.y1 ≤ box.y2) :
    (toDetection classNames origW origH box).bbox.Inside origW origH ↔
      box.Meets origW origH :=
  and_congr (clipped_iff wide (Nat.cast_nonneg origW))
    (clipped_iff high (Nat.cast_nonneg origH))

/-- The corners of a box that has a size are in order. -/
theorem ordered_of_mem_boxes
    (sized : ∀ a < numAnchors, 0 ≤ raw (2 * numAnchors + a) ∧
      0 ≤ raw (3 * numAnchors + a)) {confThreshold : ℚ} {box : BoxCandidate}
    (mem : box ∈ boxes raw confThreshold origW origH) :
    box.x1 ≤ box.x2 ∧ box.y1 ≤ box.y2 := by
  obtain ⟨found, among, rfl⟩ := List.mem_map.mp mem
  obtain ⟨a, inRange, isFound⟩ := List.mem_filterMap.mp among
  obtain ⟨wide, high⟩ := sized a (List.mem_range.mp inRange)
  unfold candidate at isFound
  split_ifs at isFound
  obtain rfl := Option.some.inj isFound
  have scales : ∀ size : Nat, 0 ≤ (size : ℚ) / modelInputSize := fun size =>
    div_nonneg (Nat.cast_nonneg size) (by norm_num [modelInputSize])
  simp only [toCorners]
  constructor
  · exact mul_le_mul_of_nonneg_right (by linarith) (scales origW)
  · exact mul_le_mul_of_nonneg_right (by linarith) (scales origH)

/-- Whatever order the boxes are sorted in, the detections are boxes in the
image exactly if every box that no better one of its class suppresses meets the
image. -/
theorem detections_inside_iff (raw : Nat → ℚ) (classNames : List String)
    (origW origH : Nat) (confThreshold iouThreshold : ℚ)
    (sized : ∀ a < numAnchors, 0 ≤ raw (2 * numAnchors + a) ∧
      0 ≤ raw (3 * numAnchors + a)) {sorted : List BoxCandidate}
    (sort : SortedUnstably (boxes raw confThreshold origW origH) sorted) :
    (∀ detection ∈ detections classNames iouThreshold origW origH sorted,
      detection.bbox.Inside origW origH) ↔
    ∀ box ∈ select (clears iouThreshold) sorted, box.Meets origW origH := by
  rw [detections, keptBoxes_eq_select, List.forall_mem_map]
  refine forall₂_congr fun box kept => ?_
  have among := sort.1.subset ((select_sublist _ sorted).subset kept)
  obtain ⟨wide, high⟩ := ordered_of_mem_boxes sized among
  exact inside_toDetection_iff classNames wide high

/-! ## One box -/

/-- The output with one square of ten by ten at the first anchor, around a
point of the middle line, and nothing at the others. -/
def oneBox (cx : ℚ) (index : Nat) : ℚ :=
  if index % numAnchors = 0 then
    match index / numAnchors with
    | 0 => cx
    | 1 => 320
    | 2 => 10
    | 3 => 10
    | 4 => 9 / 10
    | _ => 0
  else 0

/-- The best score is one of the scores. -/
theorem mem_scores {a : Nat} {score : ℚ} (classes : List Nat)
    (best : Nat × Option ℚ)
    (last : (classes.foldl (better raw a) best).2 = some score) :
    best.2 = some score ∨
      ∃ c ∈ classes, score = raw ((4 + c) * numAnchors + a) := by
  induction classes generalizing best with
  | nil => exact .inl last
  | cons c classes ih =>
      rcases ih (better raw a best c) last with here | ⟨later, mem, same⟩
      · unfold better at here
        dsimp only at here
        split_ifs at here
        · exact .inr ⟨c, List.mem_cons_self, (Option.some.inj here).symm⟩
        · exact .inl here
      · exact .inr ⟨later, List.mem_cons_of_mem c mem, same⟩

/-- Where no class has a score there is no confidence. -/
theorem confidence_eq_zero {a : Nat}
    (zero : ∀ c, raw ((4 + c) * numAnchors + a) = 0) : confidence raw a = 0 := by
  unfold confidence
  cases best : (bestClass raw a).2 with
  | none => rfl
  | some score =>
      rcases mem_scores _ _ best with nothing | ⟨c, -, same⟩
      · cases nothing
      · rw [same, zero c]
        norm_num

/-- What is picked only at the first number of a range. -/
theorem filterMap_range_succ {Item : Type*} {pick : Nat → Option Item}
    {item : Item} (first : pick 0 = some item) (count : Nat)
    (others : ∀ a < count, pick (a + 1) = none) :
    (List.range (count + 1)).filterMap pick = [item] := by
  rw [List.range_succ_eq_map, List.filterMap_cons_some first,
    List.filterMap_map, List.filterMap_eq_nil_iff.mpr]
  exact fun a mem => others a (List.mem_range.mp mem)

theorem candidates_oneBox {cx : ℚ} {found : RawCandidate}
    (first : candidate (oneBox cx) (1 / 2) 0 = some found) :
    candidates (oneBox cx) (1 / 2) = [found] := by
  refine filterMap_range_succ first 8399 fun a inRange => ?_
  have zero : confidence (oneBox cx) (a + 1) = 0 := by
    refine confidence_eq_zero fun c => if_neg ?_
    rw [Nat.add_comm, Nat.add_mul_mod_self_right]
    simp only [numAnchors]
    omega
  rw [candidate, zero, if_pos (by norm_num)]

/-- The box at the first anchor has a size. -/
theorem oneBox_sized (cx : ℚ) : ∀ a < numAnchors,
    0 ≤ oneBox cx (2 * numAnchors + a) ∧ 0 ≤ oneBox cx (3 * numAnchors + a) := by
  have nonneg : ∀ index, index / numAnchors ≠ 0 → 0 ≤ oneBox cx index := by
    intro index later
    unfold oneBox
    split
    · split
      · exact absurd ‹index / numAnchors = 0› later
      all_goals norm_num
    · exact le_refl 0
  intro a inRange
  simp only [numAnchors] at *
  exact ⟨nonneg _ (by omega), nonneg _ (by omega)⟩

/-- The box of the first anchor is the only one. -/
theorem sortedUnstably_oneBox {cx : ℚ} {found : RawCandidate}
    (first : candidate (oneBox cx) (1 / 2) 0 = some found) :
    SortedUnstably (boxes (oneBox cx) (1 / 2) origW origH)
      [toCorners origW origH found] := by
  rw [boxes, candidates_oneBox first]
  exact ⟨List.Perm.refl _, List.pairwise_singleton _ _⟩

theorem middleBox_inside :
    SortedUnstably (boxes (oneBox 320) (1 / 2) 640 640)
        [⟨315, 315, 325, 325, 9 / 10, 0⟩] ∧
      ∀ detection ∈ detections ["person"] (1 / 2) 640 640
        [⟨315, 315, 325, 325, 9 / 10, 0⟩], detection.bbox.Inside 640 640 := by
  have first : candidate (oneBox 320) (1 / 2) 0 =
      some ⟨320, 320, 10, 10, 9 / 10, 0⟩ := by
    decide +kernel
  have corners : toCorners 640 640 ⟨320, 320, 10, 10, 9 / 10, 0⟩ =
      ⟨315, 315, 325, 325, 9 / 10, 0⟩ := by
    decide +kernel
  have sort : SortedUnstably (boxes (oneBox 320) (1 / 2) 640 640)
      [⟨315, 315, 325, 325, 9 / 10, 0⟩] :=
    corners ▸ sortedUnstably_oneBox first
  refine ⟨sort, (detections_inside_iff (oneBox 320) ["person"] 640 640 (1 / 2)
    (1 / 2) (oneBox_sized 320) sort).mpr ?_⟩
  decide +kernel

/-- A box left of the image, whose clipped right edge is left of its left
one. -/
theorem leftBox_not_inside :
    SortedUnstably (boxes (oneBox (-10)) (1 / 2) 640 640)
        [⟨-15, 315, -5, 325, 9 / 10, 0⟩] ∧
      detections ["person"] (1 / 2) 640 640 [⟨-15, 315, -5, 325, 9 / 10, 0⟩] =
        [⟨0, "person", 9 / 10, ⟨0, 315, -5, 325⟩⟩] ∧
      ¬(⟨0, 315, -5, 325⟩ : ExactBox).Inside 640 640 := by
  have first : candidate (oneBox (-10)) (1 / 2) 0 =
      some ⟨-10, 320, 10, 10, 9 / 10, 0⟩ := by
    decide +kernel
  have corners : toCorners 640 640 ⟨-10, 320, 10, 10, 9 / 10, 0⟩ =
      ⟨-15, 315, -5, 325, 9 / 10, 0⟩ := by
    decide +kernel
  exact ⟨corners ▸ sortedUnstably_oneBox first, by decide +kernel,
    by decide +kernel⟩

end OrtYoloDetector

end TorchInference
