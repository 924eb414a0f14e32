import Mathlib.Data.List.Forall2
import TorchInference.VisionResponses

/-!
# Classification, image by image

`/classify/stream` takes the requests of `/classify/batch` and sends one event
for each image.  It brings the parameters into range instead of checking them,
and it sends what the backend finds without post-processing.
-/

namespace TorchInference

/-- An event of the stream, without its times. -/
inductive ClassifyEvent where
  | error (idx total : Nat) (message : String)
  | predictions (idx total : Nat) (predictions : List Prediction)
  | done (total : Nat)

/-- The request with its parameters in range. -/
def BatchClassifyRequest.clamped (request : BatchClassifyRequest) :
    BatchClassifyRequest :=
  { request with
    topK := min (max request.topK 1) 1000
    modelWidth := min (max request.modelWidth 1) 4096
    modelHeight := min (max request.modelHeight 1) 4096 }

/-- The parameters are in range. -/
def BatchClassifyRequest.InRange (request : BatchClassifyRequest) : Prop :=
  (1 ≤ request.topK ∧ request.topK ≤ 1000) ∧
    (1 ≤ request.modelWidth ∧ request.modelWidth ≤ 4096) ∧
      (1 ≤ request.modelHeight ∧ request.modelHeight ≤ 4096)

instance (request : BatchClassifyRequest) : Decidable request.InRange :=
  inferInstanceAs (Decidable (_ ∧ _))

namespace ClassifyServer

variable (server : ClassifyServer)

/-- The checks of `/classify/stream`. -/
def streamCheck (request : BatchClassifyRequest) : Except ApiError Unit :=
  if request.images.isEmpty then
    .error (.badRequest "images must not be empty")
  else if 128 < request.images.length then
    .error (.badRequest "batch too large (max 128)")
  else server.checkSizes request.images

/-- The checks of `/classify/batch` before it decodes an image. -/
def batchCheck (request : BatchClassifyRequest) : Except ApiError Unit := do
  request.check
  server.checkSizes request.images

/-- How long an item may take, and which items take longer. -/
structure ItemTimes where
  timeoutSecs : Nat
  late : Nat → Bool

def streamItem (times : ItemTimes) (request : BatchClassifyRequest)
    (b64 : String) (idx : Nat) : ClassifyEvent :=
  let total := request.images.length
  match server.decodeBase64 b64 with
  | .error e => .error idx total e
  | .ok raw =>
      if times.late idx then
        .error idx total s!"classify timeout after {times.timeoutSecs}s"
      else
        match server.classify [raw] request.clamped with
        | .error joinErr => .error idx total ("task join: " ++ joinErr)
        | .ok (.error e) => .error idx total e
        | .ok (.ok v) => .predictions idx total (v.getLast?.getD [])

/-- The events of `/classify/stream`, for a client that reads all of them. -/
def streamClassify (times : ItemTimes) (request : BatchClassifyRequest) :
    Except ApiError (List ClassifyEvent) :=
  (server.streamCheck request).map fun _ =>
    (request.images.zipIdx.map fun (b64, idx) =>
      server.streamItem times request b64 idx) ++
      [.done request.images.length]

/-- The events that repeat the answer of `/classify/batch`. -/
def repeating (request : BatchClassifyRequest)
    (results : List (List Prediction)) : List ClassifyEvent :=
  (results.zipIdx.map fun (predictions, idx) =>
    .predictions idx request.images.length predictions) ++
    [.done request.images.length]

/-- The backend preprocesses and classifies each image by itself. -/
def ClassifiesOneByOne : Prop :=
  ∀ (images : List (List UInt8)) (request other : BatchClassifyRequest)
    (results : List (List Prediction)),
    other.topK = request.topK → other.modelWidth = request.modelWidth →
      other.modelHeight = request.modelHeight →
        server.classify images request = .ok (.ok results) →
          List.Forall₂ (fun image predictions =>
            server.classify [image] other = .ok (.ok [predictions])) images
            results

/-- The two endpoints agree on a request. -/
structure Agree (format : FloatFormat) (request : BatchClassifyRequest) :
    Prop where
  refuses : (server.streamCheck request).isOk =
    (server.batchCheck request).isOk
  repeats : ∀ answer times,
    server.batchClassify format request = .ok answer →
      (∀ idx < request.images.length, times.late idx = false) →
        server.streamClassify times request =
          .ok (repeating request answer.data.results)

/-- What the backend finds is answered as it is. -/
def KeepsPredictions (format : FloatFormat) (request : BatchClassifyRequest) :
    Prop :=
  ∀ rawImages results, server.decodeImages request.images = .ok rawImages →
    server.classify rawImages request = .ok (.ok results) →
      request.skipPostprocess = true ∨
        (classifyProcess format results server.postprocess).predictions =
          results

end ClassifyServer

/-! ## Parameters -/

theorem BatchClassifyRequest.clamped_of_inRange
    {request : BatchClassifyRequest} (inRange : request.InRange) :
    request.clamped = request := by
  have unchanged : ∀ value high : Nat, 1 ≤ value ∧ value ≤ high →
      min (max value 1) high = value := by omega
  obtain ⟨topK, width, height⟩ := inRange
  simp only [clamped, unchanged _ _ topK, unchanged _ _ width,
    unchanged _ _ height]

theorem BatchClassifyRequest.inRange_clamped
    (request : BatchClassifyRequest) : request.clamped.InRange := by
  simp only [InRange, clamped]
  omega

/-- The request is accepted if it has images, not too many, and its parameters
are in range. -/
theorem BatchClassifyRequest.isOk_check {request : BatchClassifyRequest} :
    request.check.isOk = true ↔
      request.images.isEmpty = false ∧ request.images.length ≤ 128 ∧
        request.InRange := by
  unfold check InRange
  split_ifs <;> simp_all [Except.isOk, Except.toBool] <;> omega

namespace ClassifyServer

variable {server : ClassifyServer} {format : FloatFormat} {times : ItemTimes}
  {request : BatchClassifyRequest}

theorem isOk_streamCheck :
    (server.streamCheck request).isOk = true ↔
      request.images.isEmpty = false ∧ request.images.length ≤ 128 ∧
        (server.checkSizes request.images).isOk = true := by
  unfold streamCheck
  by_cases empty : request.images.isEmpty = true
  · rw [if_pos empty, empty]
    exact iff_of_false (by decide) fun both => Bool.noConfusion both.1
  · rw [if_neg empty]
    rw [Bool.not_eq_true] at empty
    by_cases many : 128 < request.images.length
    · rw [if_pos many]
      exact iff_of_false (by simp [Except.isOk, Except.toBool])
        fun both => Nat.not_le_of_lt many both.2.1
    · rw [if_neg many]
      exact ⟨fun sized => ⟨empty, Nat.le_of_not_lt many, sized⟩,
        fun both => both.2.2⟩

theorem isOk_batchCheck :
    (server.batchCheck request).isOk = true ↔
      request.check.isOk = true ∧
        (server.checkSizes request.images).isOk = true := by
  unfold batchCheck
  cases request.check <;>
    simp [bind, Except.bind, Except.isOk, Except.toBool]

theorem isOk_streamCheck_of_batchCheck
    (checked : (server.batchCheck request).isOk = true) :
    (server.streamCheck request).isOk = true ∧ request.InRange := by
  obtain ⟨accepted, sized⟩ := isOk_batchCheck.mp checked
  obtain ⟨nonempty, few, inRange⟩ :=
    BatchClassifyRequest.isOk_check.mp accepted
  exact ⟨isOk_streamCheck.mpr ⟨nonempty, few, sized⟩, inRange⟩

/-- The endpoints refuse alike if a request that the stream accepts has its
parameters in range. -/
theorem refuses_iff :
    (server.streamCheck request).isOk = (server.batchCheck request).isOk ↔
      ((server.streamCheck request).isOk = true → request.InRange) := by
  rw [Bool.eq_iff_iff, isOk_batchCheck, isOk_streamCheck,
    BatchClassifyRequest.isOk_check]
  tauto

/-! ## Predictions -/

/-- What an answer has gone through. -/
theorem batchClassify_eq_ok {answer : Envelope BatchClassifyResponse}
    (answered : server.batchClassify format request = .ok answer) :
    (server.batchCheck request).isOk = true ∧
      ∃ rawImages results, server.decodeImages request.images = .ok rawImages ∧
        server.classify rawImages request = .ok (.ok results) ∧
          answer = server.envelope format request results := by
  unfold batchClassify at answered
  obtain ⟨_, checked, answered⟩ := ExceptSteps.bind_eq_ok answered
  obtain ⟨_, sized, answered⟩ := ExceptSteps.bind_eq_ok answered
  obtain ⟨rawImages, decoded, answered⟩ := ExceptSteps.bind_eq_ok answered
  obtain ⟨outcome, joined, answered⟩ := ExceptSteps.bind_eq_ok answered
  obtain ⟨results, classified, answered⟩ := ExceptSteps.bind_eq_ok answered
  have finished : server.classify rawImages request = .ok outcome :=
    ExceptSteps.mapError_eq_ok joined
  obtain rfl : outcome = .ok results := ExceptSteps.mapError_eq_ok classified
  refine ⟨?_, rawImages, results, decoded, finished, ?_⟩
  · rw [isOk_batchCheck, checked, sized]
    exact ⟨rfl, rfl⟩
  · cases answered
    rfl

theorem batchClassify_of_steps {rawImages : List (List UInt8)}
    {results : List (List Prediction)}
    (checked : (server.batchCheck request).isOk = true)
    (decoded : server.decodeImages request.images = .ok rawImages)
    (classified : server.classify rawImages request = .ok (.ok results)) :
    server.batchClassify format request =
      .ok (server.envelope format request results) := by
  obtain ⟨accepted, sized⟩ := isOk_batchCheck.mp checked
  cases check : request.check with
  | error e => simp [check, Except.isOk, Except.toBool] at accepted
  | ok _ =>
      cases sizes : server.checkSizes request.images with
      | error e => simp [sizes, Except.isOk, Except.toBool] at sized
      | ok _ =>
          simp only [batchClassify, check, sizes, decoded, classified, bind,
            Except.bind, Except.mapError]
          rfl

theorem results_envelope (results : List (List Prediction)) :
    (server.envelope format request results).data.results =
      if request.skipPostprocess then results
      else (classifyProcess format results server.postprocess).predictions := by
  unfold envelope
  split <;> rfl

/-- The decoded images, one by one. -/
theorem forall₂_of_decodeImages {images : List String}
    {rawImages : List (List UInt8)}
    (decoded : server.decodeImages images = .ok rawImages) :
    List.Forall₂ (fun b64 raw => server.decodeBase64 b64 = .ok raw) images
      rawImages := by
  have each := ExceptSteps.mapM_eq_ok decoded
  have paired : List.Forall₂ (fun (pair : String × Nat) raw =>
      server.decodeBase64 pair.1 = .ok raw) images.zipIdx rawImages :=
    each.imp fun _ _ succeeds => ExceptSteps.mapError_eq_ok succeeds
  have unpaired : List.Forall₂ (fun b64 raw =>
      server.decodeBase64 b64 = .ok raw) (images.zipIdx.map Prod.fst)
      rawImages :=
    List.forall₂_map_left_iff.mpr paired
  rwa [List.zipIdx_map_fst] at unpaired

/-- Every image that is classified by itself makes its event. -/
theorem map_streamItem {images : List String}
    {rawImages : List (List UInt8)} {results : List (List Prediction)}
    {first : Nat}
    (decoded : List.Forall₂ (fun b64 raw =>
      server.decodeBase64 b64 = .ok raw) images rawImages)
    (classified : List.Forall₂ (fun raw predictions =>
      server.classify [raw] request.clamped = .ok (.ok [predictions]))
      rawImages results)
    (onTime : ∀ idx, first ≤ idx → idx < first + images.length →
      times.late idx = false) :
    (images.zipIdx first).map (fun (b64, idx) =>
        server.streamItem times request b64 idx) =
      (results.zipIdx first).map fun (predictions, idx) =>
        .predictions idx request.images.length predictions := by
  induction decoded generalizing results first with
  | nil =>
      cases classified
      rfl
  | @cons b64 raw images rawImages decodes _ ih =>
      cases classified with
      | cons classifies rest =>
          have here : times.late first = false :=
            onTime first (Nat.le_refl _) (by simp)
          have afterwards : ∀ idx, first + 1 ≤ idx →
              idx < first + 1 + images.length → times.late idx = false := by
            intro idx above below
            refine onTime idx (by omega) ?_
            rw [List.length_cons]
            omega
          rw [List.zipIdx_cons, List.zipIdx_cons, List.map_cons, List.map_cons,
            ih rest afterwards]
          simp [streamItem, decodes, here, classifies]

/-- The stream repeats what the backend finds for the request in range. -/
theorem streamClassify_of_steps {rawImages : List (List UInt8)}
    {results : List (List Prediction)}
    (oneByOne : server.ClassifiesOneByOne)
    (checked : (server.streamCheck request).isOk = true)
    (decoded : server.decodeImages request.images = .ok rawImages)
    (classified : server.classify rawImages request.clamped =
      .ok (.ok results))
    (onTime : ∀ idx < request.images.length, times.late idx = false) :
    server.streamClassify times request = .ok (repeating request results) := by
  have each : List.Forall₂ (fun raw predictions =>
      server.classify [raw] request.clamped = .ok (.ok [predictions]))
      rawImages results :=
    oneByOne rawImages request.clamped request.clamped results rfl rfl rfl
      classified
  have items : (request.images.zipIdx 0).map (fun (b64, idx) =>
        server.streamItem times request b64 idx) =
      (results.zipIdx 0).map fun (predictions, idx) =>
        .predictions idx request.images.length predictions :=
    map_streamItem (forall₂_of_decodeImages decoded) each
      fun idx _ below => onTime idx (by omega)
  unfold streamClassify repeating
  rw [← items]
  cases check : server.streamCheck request with
  | error e => simp [check, Except.isOk, Except.toBool] at checked
  | ok _ => rfl

theorem predictions_of_repeating {first second : List (List Prediction)}
    (same : repeating request first = repeating request second) :
    first = second := by
  have items : ∀ results : List (List Prediction),
      (repeating request results).filterMap (fun event => match event with
        | .predictions _ _ predictions => some predictions
        | _ => none) = results := by
    intro results
    simp [repeating, List.filterMap_map]
  rw [← items first, same, items second]

/-- The two endpoints agree on a request exactly if the stream refuses what is
out of range, and the answer to an accepted request holds what the backend
finds. -/
theorem agree_iff_inRange_and_keeps (server : ClassifyServer)
    (format : FloatFormat) (request : BatchClassifyRequest)
    (oneByOne : server.ClassifiesOneByOne) :
    server.Agree format request ↔
      ((server.streamCheck request).isOk = true → request.InRange) ∧
        ((server.batchCheck request).isOk = true →
          server.KeepsPredictions format request) := by
  have onTime : ∀ idx < request.images.length,
      (ItemTimes.mk 0 fun _ => false).late idx = false := fun _ _ => rfl
  constructor
  · intro agree
    refine ⟨refuses_iff.mp agree.refuses, ?_⟩
    intro checked rawImages results decoded classified
    have repeated := agree.repeats _ _
      (batchClassify_of_steps checked decoded classified) onTime
    have streamed := isOk_streamCheck_of_batchCheck checked
    rw [← BatchClassifyRequest.clamped_of_inRange streamed.2] at classified
    rw [streamClassify_of_steps oneByOne streamed.1 decoded classified onTime]
      at repeated
    have same := predictions_of_repeating (Except.ok.inj repeated)
    rw [results_envelope] at same
    cases skips : request.skipPostprocess with
    | true => exact Or.inl rfl
    | false =>
        rw [skips] at same
        exact Or.inr same.symm
  · rintro ⟨inRange, keeps⟩
    refine ⟨refuses_iff.mpr inRange, ?_⟩
    intro answer times answered onTime
    obtain ⟨checked, rawImages, results, decoded, classified, rfl⟩ :=
      batchClassify_eq_ok answered
    have streamed := isOk_streamCheck_of_batchCheck checked
    have inRangeClassified := classified
    rw [← BatchClassifyRequest.clamped_of_inRange streamed.2]
      at inRangeClassified
    rw [streamClassify_of_steps oneByOne streamed.1 decoded inRangeClassified
      onTime, results_envelope]
    rcases keeps checked rawImages results decoded classified with
      skips | unchanged
    · rw [if_pos skips]
    · rw [unchanged, ite_self]

/-- The stream refuses a request exactly when `/classify/batch` refuses it with
its parameters brought into range.  What is answered to that request is
repeated, unless post-processing changes what the backend finds. -/
theorem streamClassify_repeats_clamped (server : ClassifyServer)
    (format : FloatFormat) (request : BatchClassifyRequest)
    (oneByOne : server.ClassifiesOneByOne) :
    (server.streamCheck request).isOk =
        (server.batchCheck request.clamped).isOk ∧
      (server.KeepsPredictions format request.clamped →
        ∀ answer times,
          server.batchClassify format request.clamped = .ok answer →
            (∀ idx < request.images.length, times.late idx = false) →
              server.streamClassify times request =
                .ok (repeating request answer.data.results)) := by
  have refuses : (server.streamCheck request).isOk =
      (server.batchCheck request.clamped).isOk := by
    rw [Bool.eq_iff_iff, isOk_batchCheck, isOk_streamCheck,
      BatchClassifyRequest.isOk_check]
    have inRange := request.inRange_clamped
    exact ⟨fun ⟨nonempty, few, sized⟩ => ⟨⟨nonempty, few, inRange⟩, sized⟩,
      fun ⟨⟨nonempty, few, _⟩, sized⟩ => ⟨nonempty, few, sized⟩⟩
  refine ⟨refuses, ?_⟩
  intro keeps answer times answered onTime
  obtain ⟨checked, rawImages, results, decoded, classified, rfl⟩ :=
    batchClassify_eq_ok answered
  rw [streamClassify_of_steps oneByOne (refuses.trans checked) decoded
    classified onTime, results_envelope]
  rcases keeps rawImages results decoded classified with skips | unchanged
  · rw [if_pos skips]
  · rw [unchanged, ite_self]

/-! ## A request that is refused by one endpoint only -/

/-- A backend that finds one thing in every image. -/
def catServer : ClassifyServer where
  imageLimitMb := 10
  postprocess := ⟨false, 1, 0⟩
  decodeBase64 := fun _ => .ok []
  classify := fun images request => .ok (.ok
    (images.map fun _ => [Prediction.mk "cat" 1 281].take request.topK))
  info := ⟨1, "1.0.0", "request-1"⟩

theorem catServer_classifiesOneByOne : catServer.ClassifiesOneByOne := by
  intro images request other results sameTopK _ _ classified
  obtain rfl : images.map (fun _ =>
      [Prediction.mk "cat" 1 281].take request.topK) = results :=
    Except.ok.inj (Except.ok.inj classified)
  rw [List.forall₂_map_right_iff, List.forall₂_same]
  intro image _
  simp [catServer, sameTopK]

/-- No number of predictions is asked for. -/
def noPredictions : BatchClassifyRequest :=
  ⟨["aGVsbG8="], 0, 224, 224, true⟩

/-- Plain text for every number. -/
def plainFormat : FloatFormat :=
  ⟨fun _ => "0", fun _ => .null, fun _ => .null⟩

theorem not_agree_noPredictions :
    ¬ catServer.Agree plainFormat noPredictions := by
  intro agree
  have inRange := refuses_iff.mp agree.refuses (by decide +kernel)
  revert inRange
  decide

/-- The stream answers the request as if one prediction had been asked for. -/
theorem streamClassify_noPredictions :
    ∃ answer,
      catServer.batchClassify plainFormat noPredictions.clamped = .ok answer ∧
        catServer.streamClassify ⟨30, fun _ => false⟩ noPredictions =
          .ok (repeating noPredictions answer.data.results) :=
  ⟨_, rfl, (streamClassify_repeats_clamped catServer plainFormat noPredictions
    catServer_classifiesOneByOne).2 (fun _ _ _ _ => Or.inl rfl) _ _ rfl
      fun _ _ => rfl⟩

end ClassifyServer

end TorchInference
