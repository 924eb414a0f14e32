import Mathlib.Algebra.Order.Floor.Ring
import Mathlib.Algebra.Order.Round
import Mathlib.Algebra.BigOperators.Group.List.Basic
import Mathlib.Algebra.Order.BigOperators.Group.List
import Mathlib.Analysis.SpecialFunctions.Log.Basic
import Mathlib.Order.Monotone.Basic
import TorchInference.VisionResponses

/-!
# The ranking of classifications

The confidences of an image are taken back to logits, scaled by a temperature
and normalised again, then rounded to four decimals; predictions that do not
reach the least confidence are dropped.  In exact arithmetic each stage
preserves the order of the confidences, whatever increasing functions stand for
the logarithm and the exponential, and what is dropped stands at the end.
-/

namespace TorchInference

namespace ClassifyPostprocess

/-! ## Post-processing in a given arithmetic -/

structure ScoredPrediction (α : Type*) where
  label : String
  confidence : α
  classId : Nat

structure ScoreConfig (α : Type*) where
  enabled : Bool
  temperature : α
  minConfidence : α

structure ScoreResult (α : Type*) where
  predictions : List (List (ScoredPrediction α))
  steps : List String
  warnings : List String

/-- The functions of an arithmetic: `tiny` is added before the logarithm is
taken, and `scales` tells a temperature apart from one. -/
structure ScoreArithmetic (α : Type*) where
  zero : α
  tiny : α
  ln : α → α
  exp : α → α
  largest : List α → α
  round4 : α → α
  scales : α → Bool
  display : α → String

/-- A prediction without its confidence. -/
def ScoredPrediction.answer {α : Type*} (p : ScoredPrediction α) :
    String × Nat :=
  (p.label, p.classId)

def ScoredPrediction.withConfidence {α : Type*} (p : ScoredPrediction α)
    (confidence : α) : ScoredPrediction α :=
  { p with confidence }

section Stages

variable {α : Type*} [Add α] [Sub α] [Div α] [LT α] [LE α] [DecidableLT α]
  [DecidableLE α]

def weightsIn (arithmetic : ScoreArithmetic α) (temperature : α)
    (predictions : List (ScoredPrediction α)) : List α :=
  let logits := predictions.map fun p =>
    arithmetic.ln (p.confidence + arithmetic.tiny) / temperature
  logits.map fun l => arithmetic.exp (l - arithmetic.largest logits)

def applyTemperatureIn (arithmetic : ScoreArithmetic α) (temperature : α)
    (predictions : List (ScoredPrediction α)) : List (ScoredPrediction α) :=
  let exps := weightsIn arithmetic temperature predictions
  let sum := exps.foldl (· + ·) arithmetic.zero
  predictions.zipWith (fun p e => p.withConfidence
    (if arithmetic.zero < sum then e / sum else arithmetic.zero)) exps

/-- Temperature scaling and rounding. -/
def rescoreIn (arithmetic : ScoreArithmetic α) (config : ScoreConfig α)
    (batch : List (ScoredPrediction α)) : List (ScoredPrediction α) :=
  (if arithmetic.scales config.temperature then
      applyTemperatureIn arithmetic config.temperature batch
    else batch).map fun p => p.withConfidence (arithmetic.round4 p.confidence)

/-- The drop below the least confidence. -/
def confident (config : ScoreConfig α) (batch : List (ScoredPrediction α)) :
    List (ScoredPrediction α) :=
  batch.filter fun p => decide (config.minConfidence ≤ p.confidence)

/-- `process` in a given arithmetic. -/
def processIn (arithmetic : ScoreArithmetic α)
    (predictions : List (List (ScoredPrediction α)))
    (config : ScoreConfig α) : ScoreResult α :=
  if !config.enabled then ⟨predictions, [], []⟩
  else
    let rounded := predictions.map (rescoreIn arithmetic config)
    let filtered := rounded.map (confident config)
    let dropped := (List.zipWith (fun before after =>
      before.length - after.length) rounded filtered).sum
    { predictions := filtered
      steps :=
        (if arithmetic.scales config.temperature then
          ["temperature_scaled:" ++ arithmetic.display config.temperature]
          else []) ++
          ["rounded",
            "filtered:min=" ++ arithmetic.display config.minConfidence]
      warnings :=
        if 0 < dropped then ["predictions_filtered:" ++ toString dropped]
        else [] }

end Stages

/-! ## The arithmetic of the machine -/

section Machine

def machineArithmetic (format : FloatFormat) : ScoreArithmetic Float32 where
  zero := 0.0
  tiny := 1e-10
  ln := Float32.log
  exp := Float32.exp
  largest := fun logits => logits.foldl f32Max f32NegInfinity
  round4 := roundTo4
  scales := fun temperature => decide (f32Epsilon < (temperature - 1.0).abs)
  display := format.display

def ofPrediction (p : Prediction) : ScoredPrediction Float32 :=
  ⟨p.label, p.confidence, p.classId⟩

def ofConfig (config : ClassifyPostprocessConfig) : ScoreConfig Float32 :=
  ⟨config.enabled, config.temperature, config.minConfidence⟩

def ScoredPrediction.toPrediction (p : ScoredPrediction Float32) : Prediction :=
  ⟨p.label, p.confidence, p.classId⟩

def ScoreResult.toResult (result : ScoreResult Float32) :
    ClassifyPostprocessResult :=
  ⟨result.predictions.map (List.map ScoredPrediction.toPrediction),
    result.steps, result.warnings⟩

theorem map_toPrediction_ofPrediction (batch : List Prediction) :
    (batch.map ofPrediction).map ScoredPrediction.toPrediction = batch := by
  rw [List.map_map]
  exact List.map_id batch

theorem applyTemperatureIn_ofPrediction (format : FloatFormat)
    (temperature : Float32) (batch : List Prediction) :
    applyTemperatureIn (machineArithmetic format) temperature
        (batch.map ofPrediction) =
      (applyTemperature batch temperature).map ofPrediction := by
  simp only [applyTemperatureIn, applyTemperature, weightsIn, List.map_map,
    List.zipWith_map_left, List.map_zipWith]
  rfl

/-- What `classifyProcess` makes of a batch before it drops predictions. -/
def rescore (config : ClassifyPostprocessConfig) (batch : List Prediction) :
    List Prediction :=
  (if decide (f32Epsilon < (config.temperature - 1.0).abs) then
      applyTemperature batch config.temperature
    else batch).map fun p => { p with confidence := roundTo4 p.confidence }

theorem rescoreIn_ofPrediction (format : FloatFormat)
    (config : ClassifyPostprocessConfig) (batch : List Prediction) :
    rescoreIn (machineArithmetic format) (ofConfig config)
        (batch.map ofPrediction) =
      (rescore config batch).map ofPrediction := by
  rw [rescoreIn, rescore, List.map_map]
  change (if decide (f32Epsilon < (config.temperature - 1.0).abs) = true then _
    else _ : List _).map _ = _
  split
  · rw [ofConfig, applyTemperatureIn_ofPrediction, List.map_map]
    rfl
  · rw [List.map_map]
    rfl

theorem confident_ofPrediction (config : ClassifyPostprocessConfig)
    (batch : List Prediction) :
    confident (ofConfig config) (batch.map ofPrediction) =
      (batch.filter fun p =>
        decide (config.minConfidence ≤ p.confidence)).map ofPrediction :=
  List.filter_map

/-- At the machine's arithmetic this is the post-processing of the server. -/
theorem classifyProcess_eq (format : FloatFormat)
    (predictions : List (List Prediction)) (config : ClassifyPostprocessConfig) :
    classifyProcess format predictions config =
      (processIn (machineArithmetic format)
        (predictions.map (List.map ofPrediction)) (ofConfig config)).toResult := by
  have rounded : (predictions.map (List.map ofPrediction)).map
      (rescoreIn (machineArithmetic format) (ofConfig config)) =
        (predictions.map (rescore config)).map (List.map ofPrediction) := by
    rw [List.map_map, List.map_map]
    exact List.map_congr_left fun batch _ =>
      rescoreIn_ofPrediction format config batch
  have filtered (batches : List (List Prediction)) :
      (batches.map (List.map ofPrediction)).map (confident (ofConfig config)) =
        (batches.map fun batch => batch.filter fun p =>
          decide (config.minConfidence ≤ p.confidence)).map
          (List.map ofPrediction) := by
    rw [List.map_map, List.map_map]
    exact List.map_congr_left fun batch _ => confident_ofPrediction config batch
  have back (batches : List (List Prediction)) :
      (batches.map (List.map ofPrediction)).map
        (List.map ScoredPrediction.toPrediction) = batches := by
    rw [List.map_map]
    exact (List.map_congr_left fun batch _ =>
      map_toPrediction_ofPrediction batch).trans (List.map_id batches)
  have lengths (batch : List Prediction) :
      (batch.map ofPrediction).length = batch.length :=
    List.length_map ofPrediction
  rw [classifyProcess, processIn]
  change _ = ScoreResult.toResult (if (!config.enabled) = true then _ else _)
  split
  · rw [ScoreResult.toResult, back]
  · simp only [rounded, filtered, ScoreResult.toResult, back,
      List.zipWith_map, lengths]
    rfl

end Machine

/-! ## Exact arithmetic -/

section Exact

variable {K : Type*} [Field K] [LinearOrder K] [FloorRing K]

/-- `f32::round`, which takes halves away from zero. -/
def roundHalfAway (x : K) : Int :=
  if 0 ≤ x then ⌊x + 1 / (2 : Nat)⌋ else ⌈x - 1 / (2 : Nat)⌉

def exactRound4 (confidence : K) : K :=
  roundHalfAway (confidence * 10000) / 10000

/-- Exact numbers; where there is no logit, none is compared with the
largest one. -/
def exactArithmetic (ln exp : K → K) (display : K → String) :
    ScoreArithmetic K where
  zero := 0
  tiny := 1 / (10 ^ 10 : Nat)
  ln := ln
  exp := exp
  largest := fun logits => logits.max?.getD 0
  round4 := exactRound4
  scales := fun temperature => decide (1 / (2 ^ 23 : Nat) < |temperature - 1|)
  display := display

/-- The confidences do not increase. -/
def Descends (batch : List (ScoredPrediction K)) : Prop :=
  batch.Pairwise fun p q => q.confidence ≤ p.confidence

/-- What is kept of a batch: a beginning of it, rescored, and just what reaches
the least confidence. -/
structure KeepsRanking (arithmetic : ScoreArithmetic K) (config : ScoreConfig K)
    (batch kept : List (ScoredPrediction K)) : Prop where
  answers : kept.map ScoredPrediction.answer <+:
    batch.map ScoredPrediction.answer
  descends : Descends kept
  rounded : ∀ p ∈ kept, ∃ n : Int, p.confidence = n / 10000
  confident : ∀ p ∈ kept, config.minConfidence ≤ p.confidence
  dropped : ∃ rest, rescoreIn arithmetic config batch = kept ++ rest ∧
    ∀ p ∈ rest, p.confidence < config.minConfidence

/-- The warnings tell how many predictions are missing, if any is. -/
def WarnsOfDropped (before after : List (List (ScoredPrediction K)))
    (warnings : List String) : Prop :=
  let missing := (before.map List.length).sum - (after.map List.length).sum
  warnings =
    if 0 < missing then ["predictions_filtered:" ++ toString missing] else []

variable [IsStrictOrderedRing K]

theorem roundHalfAway_mono : Monotone (roundHalfAway : K → Int) := by
  intro x y le
  rw [roundHalfAway, roundHalfAway]
  split
  · rename_i nonneg
    rw [if_pos (nonneg.trans le)]
    exact Int.floor_mono (by gcongr)
  · rename_i negative
    split
    · rename_i nonneg
      have below : ⌈x - 1 / (2 : Nat)⌉ ≤ 0 := by
        rw [Int.ceil_le]
        push_cast
        linarith
      have above : 0 ≤ ⌊y + 1 / (2 : Nat)⌋ := by
        rw [Int.le_floor]
        push_cast
        linarith
      exact below.trans above
    · exact Int.ceil_mono (by gcongr)

theorem exactRound4_mono : Monotone (exactRound4 : K → K) := by
  intro x y le
  rw [exactRound4, exactRound4]
  have scaled : x * 10000 ≤ y * 10000 := by gcongr
  have rounds := roundHalfAway_mono scaled
  gcongr

/-! ## The stages keep the order -/

/-- What is assumed of the functions: the logarithm increases on positive
numbers, and the exponential increases and is positive. -/
structure Increasing (ln exp : K → K) : Prop where
  ln_strictMonoOn : StrictMonoOn ln (Set.Ioi 0)
  exp_strictMono : StrictMono exp
  exp_pos : ∀ x, 0 < exp x

variable {ln exp : K → K} {config : ScoreConfig K}
  {batch : List (ScoredPrediction K)}

/-- The exponential of a scaled logit below the largest one. -/
def weight (ln exp : K → K) (temperature largest x : K) : K :=
  exp (ln (x + 1 / (10 ^ 10 : Nat)) / temperature - largest)

theorem weight_mono (increasing : Increasing ln exp) {temperature : K}
    (warm : 0 < temperature) (largest : K) :
    MonotoneOn (weight ln exp temperature largest) (Set.Ici 0) := by
  intro x nonneg y nonneg' le
  have tiny : (0 : K) < 1 / (10 ^ 10 : Nat) := by positivity
  have lnLe : ln (x + 1 / (10 ^ 10 : Nat)) ≤ ln (y + 1 / (10 ^ 10 : Nat)) :=
    increasing.ln_strictMonoOn.monotoneOn
      (add_pos_of_nonneg_of_pos nonneg tiny)
      (add_pos_of_nonneg_of_pos nonneg' tiny) (by gcongr)
  apply increasing.exp_strictMono.monotone
  gcongr

/-- The temperature changes confidences by an increasing function. -/
theorem exists_applyTemperature (increasing : Increasing ln exp)
    (display : K → String) {temperature : K} (warm : 0 < temperature)
    (batch : List (ScoredPrediction K)) :
    ∃ change : K → K, MonotoneOn change (Set.Ici 0) ∧
      applyTemperatureIn (exactArithmetic ln exp display) temperature batch =
        batch.map fun p => p.withConfidence (change p.confidence) := by
  let arithmetic := exactArithmetic ln exp display
  let largest := arithmetic.largest (batch.map fun p =>
    ln (p.confidence + 1 / (10 ^ 10 : Nat)) / temperature)
  let sum := (weightsIn arithmetic temperature batch).foldl (· + ·) 0
  refine ⟨fun x => if 0 < sum then weight ln exp temperature largest x / sum
    else 0, ?_, ?_⟩
  · intro x nonneg y nonneg' le
    have weights := weight_mono increasing warm largest nonneg nonneg' le
    dsimp only
    split
    · gcongr
    · exact le_rfl
  · have weights : weightsIn arithmetic temperature batch =
        batch.map fun p => weight ln exp temperature largest p.confidence := by
      rw [weightsIn, List.map_map]
      rfl
    have zipped (change : ScoredPrediction K → K → ScoredPrediction K) :
        batch.zipWith change (weightsIn arithmetic temperature batch) =
          batch.map fun p => change p
            (weight ln exp temperature largest p.confidence) := by
      rw [weights, List.zipWith_map_right, List.zipWith_self]
    exact zipped _

/-- So do both stages together, and the new confidences are rounded. -/
theorem exists_rescore (increasing : Increasing ln exp)
    (display : K → String) (warm : 0 < config.temperature)
    (batch : List (ScoredPrediction K)) :
    ∃ change : K → K, MonotoneOn change (Set.Ici 0) ∧
      (∀ x, ∃ n : Int, change x = n / 10000) ∧
      rescoreIn (exactArithmetic ln exp display) config batch =
        batch.map fun p => p.withConfidence (change p.confidence) := by
  rw [rescoreIn]
  split
  · obtain ⟨change, increases, isMap⟩ :=
      exists_applyTemperature increasing display warm batch
    refine ⟨fun x => exactRound4 (change x), ?_, fun x => ⟨_, rfl⟩, ?_⟩
    · exact exactRound4_mono.comp_monotoneOn increases
    · rw [isMap, List.map_map]
      rfl
  · exact ⟨exactRound4, exactRound4_mono.monotoneOn _, fun x => ⟨_, rfl⟩, rfl⟩

omit [Field K] [FloorRing K] [IsStrictOrderedRing K] in
/-- Where the confidences do not increase, the confident predictions stand
before the others. -/
theorem exists_dropped (config : ScoreConfig K)
    {scored : List (ScoredPrediction K)} (descends : Descends scored) :
    ∃ rest, scored = confident config scored ++ rest ∧
      ∀ p ∈ rest, p.confidence < config.minConfidence := by
  induction scored with
  | nil => exact ⟨[], rfl, by simp⟩
  | cons p scored ih =>
      obtain ⟨below, descends⟩ := List.pairwise_cons.mp descends
      by_cases reaches : config.minConfidence ≤ p.confidence
      · obtain ⟨rest, isSplit, drops⟩ := ih descends
        refine ⟨rest, ?_, drops⟩
        rw [confident, List.filter_cons_of_pos (by simpa using reaches),
          List.cons_append]
        exact congrArg (List.cons p) isSplit
      · have drops : ∀ q ∈ p :: scored, q.confidence < config.minConfidence := by
          refine List.forall_mem_cons.mpr ⟨not_le.mp reaches, fun q mem => ?_⟩
          exact (below q mem).trans_lt (not_le.mp reaches)
        refine ⟨p :: scored, ?_, drops⟩
        have none : confident config (p :: scored) = [] :=
          List.filter_eq_nil_iff.mpr fun q mem => by
            simpa using drops q mem
        rw [none, List.nil_append]

theorem keepsRanking (increasing : Increasing ln exp)
    (display : K → String) (warm : 0 < config.temperature) (descends : Descends batch)
    (nonneg : ∀ p ∈ batch, 0 ≤ p.confidence) :
    KeepsRanking (exactArithmetic ln exp display) config batch
      (confident config
        (rescoreIn (exactArithmetic ln exp display) config batch)) := by
  obtain ⟨change, increases, rounds, isMap⟩ :=
    exists_rescore increasing display warm batch
  have sorted : Descends
      (rescoreIn (exactArithmetic ln exp display) config batch) := by
    rw [isMap, Descends, List.pairwise_map]
    refine List.Pairwise.imp_of_mem (fun {p q} isP isQ le => ?_) descends
    exact increases (nonneg q isQ) (nonneg p isP) le
  have answers : batch.map ScoredPrediction.answer =
      (rescoreIn (exactArithmetic ln exp display) config batch).map
        ScoredPrediction.answer := by
    rw [isMap, List.map_map]
    rfl
  obtain ⟨rest, isSplit, drops⟩ := exists_dropped config sorted
  refine ⟨?_, sorted.filter _, fun p mem => ?_, fun p mem => ?_,
    rest, isSplit, drops⟩
  · rw [answers]
    exact (List.prefix_iff_exists_append_eq.mpr ⟨rest, isSplit.symm⟩).map _
  · have isScored := List.mem_of_mem_filter mem
    rw [isMap] at isScored
    obtain ⟨q, -, rfl⟩ := List.mem_map.mp isScored
    exact rounds q.confidence
  · exact of_decide_eq_true (List.mem_filter.mp mem).2

/-- The dropped predictions of all batches are counted. -/
theorem sum_dropped {Item : Type*} (change keep : List Item → List Item)
    (changes : ∀ batch, (change batch).length = batch.length)
    (keeps : ∀ batch, (keep batch).length ≤ batch.length)
    (batches : List (List Item)) :
    (List.zipWith (fun before after => before.length - after.length)
        (batches.map change) ((batches.map change).map keep)).sum =
      (batches.map List.length).sum -
        (((batches.map change).map keep).map List.length).sum ∧
      (((batches.map change).map keep).map List.length).sum ≤
        (batches.map List.length).sum := by
  induction batches with
  | nil => exact ⟨rfl, le_rfl⟩
  | cons batch batches ih =>
      have kept := keeps (change batch)
      have changed := changes batch
      simp only [List.map_cons, List.zipWith_cons_cons, List.sum_cons] at ih ⊢
      omega

/-- The post-processing keeps the ranking of every batch and counts what it
drops. -/
theorem process_keepsRanking (increasing : Increasing ln exp)
    (enabled : config.enabled = true) (warm : 0 < config.temperature)
    {predictions : List (List (ScoredPrediction K))}
    (descend : ∀ batch ∈ predictions, Descends batch)
    (nonneg : ∀ batch ∈ predictions, ∀ p ∈ batch, 0 ≤ p.confidence)
    (display : K → String) :
    let result :=
      processIn (exactArithmetic ln exp display) predictions config
    List.Forall₂ (KeepsRanking (exactArithmetic ln exp display) config)
        predictions result.predictions ∧
      WarnsOfDropped predictions result.predictions result.warnings := by
  have changes (batch : List (ScoredPrediction K)) :
      (rescoreIn (exactArithmetic ln exp display) config batch).length =
        batch.length := by
    obtain ⟨change, -, -, isMap⟩ :=
      exists_rescore increasing display warm batch
    rw [isMap, List.length_map]
  have count := (sum_dropped
    (rescoreIn (exactArithmetic ln exp display) config) (confident config)
    changes (fun batch => List.length_filter_le ..) predictions).1
  simp only [processIn, enabled, Bool.not_true, Bool.false_eq_true, if_false]
  constructor
  · rw [List.map_map, List.forall₂_map_right_iff, List.forall₂_same]
    exact fun batch mem =>
      keepsRanking increasing display warm (descend batch mem) (nonneg batch mem)
  · rw [WarnsOfDropped, count]

/-- The real logarithm and exponential. -/
theorem real_increasing : Increasing Real.log Real.exp :=
  ⟨Real.strictMonoOn_log, Real.exp_strictMono, Real.exp_pos⟩

/-- Two images; the third prediction of the first is not confident. -/
def twoImages (K : Type*) [Field K] : List (List (ScoredPrediction K)) :=
  [[⟨"cat", 1, 0⟩, ⟨"dog", 1 / (4 : Nat), 1⟩, ⟨"fish", 0, 2⟩], []]

theorem twoImages_keepRanking :
    let result := processIn
      (exactArithmetic Real.log Real.exp fun _ => "") (twoImages ℝ)
      ⟨true, 2, 1 / 100⟩
    List.Forall₂ (KeepsRanking (exactArithmetic Real.log Real.exp fun _ => "")
        ⟨true, 2, 1 / 100⟩) (twoImages ℝ) result.predictions ∧
      WarnsOfDropped (twoImages ℝ) result.predictions result.warnings :=
  process_keepsRanking real_increasing rfl two_pos
    (by norm_num [twoImages, Descends])
    (by norm_num [twoImages])
    fun _ => ""

end Exact

end ClassifyPostprocess

end TorchInference
