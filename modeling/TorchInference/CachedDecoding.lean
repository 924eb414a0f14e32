import TorchInference.ExceptSteps
import TorchInference.SmolVlmEngine

/-!
# Decoding with a cache

A decoder with a cache answers as if it were run on all embeddings at once, if
what it returns depends only on the embeddings fed so far and the cache it is
given is the one it returned for them.  The loop keeps the cache, its length
and the pending embeddings in step.
-/

namespace TorchInference

open SmolVlm

/-! ## The decoder -/

/-- The tensor of a layer that has cached so many positions. -/
def cacheTensor (pastLen : Nat) (data : List Float32) : OrtTensor Float32 :=
  ⟨[1, numKvHeads, pastLen, headDim], data⟩

/-- What the decoder is run on when so many positions are cached. -/
def cachedInputs (pastLen seqLen : Nat) (new : List Float32)
    (pastK pastV : LayerCache) : DecoderInputs where
  inputsEmbeds := ⟨[1, seqLen, hiddenSize], new⟩
  attentionMask := ⟨[1, pastLen + seqLen],
    List.replicate (pastLen + seqLen) 1⟩
  positionIds := ⟨[1, seqLen], List.range' pastLen seqLen⟩
  pastKeyValues := (List.finRange numLayers).map fun layer =>
    (cacheTensor pastLen (pastK layer), cacheTensor pastLen (pastV layer))

/-- A decoder whose answers depend only on the embeddings of all positions fed
so far: `outcome` gives the logits of the last position, `keys` and `values`
what is cached of the positions. -/
structure CachedDecoder (run : DecoderInputs → Except String DecoderOutputs)
    (keys values : List Float32 → LayerCache)
    (outcome : List Float32 → Except String (List Float32)) : Prop where
  length_keys : ∀ {embeds : List Float32} {n : Nat},
    embeds.length = n * hiddenSize →
      ∀ layer, (keys embeds layer).length = numKvHeads * n * headDim
  length_values : ∀ {embeds : List Float32} {n : Nat},
    embeds.length = n * hiddenSize →
      ∀ layer, (values embeds layer).length = numKvHeads * n * headDim
  fails : ∀ {past new : List Float32} {pastLen seqLen : Nat} {e : String},
    past.length = pastLen * hiddenSize → new.length = seqLen * hiddenSize →
      0 < seqLen → outcome (past ++ new) = .error e →
        run (cachedInputs pastLen seqLen new (keys past) (values past)) =
          .error e
  answers : ∀ {past new : List Float32} {pastLen seqLen : Nat}
      {row : List Float32},
    past.length = pastLen * hiddenSize → new.length = seqLen * hiddenSize →
      0 < seqLen → outcome (past ++ new) = .ok row →
        ∃ logits : OrtTensor Float32,
          run (cachedInputs pastLen seqLen new (keys past) (values past)) =
            .ok ⟨logits, keys (past ++ new), values (past ++ new)⟩ ∧
          logits.dims.length = 3 ∧ logits.lastRow = some row

namespace SmolVlmEngine

theorem kvTensor_eq_ok {pastLen : Nat} {data : List Float32}
    (sized : data.length = numKvHeads * pastLen * headDim) :
    kvTensor pastLen data = .ok (cacheTensor pastLen data) := by
  rw [kvTensor, if_neg (not_not_intro sized)]
  by_cases none : pastLen = 0
  · rw [if_pos none]
    have empty : data = [] := by
      rw [← List.length_eq_zero_iff, sized, none]
      rfl
    rw [empty, cacheTensor]
  · rw [if_neg none, OrtTensor.fromArray_eq_ok]
    · rfl
    · simp [numKvHeads, headDim, none]
    · simpa [Nat.mul_assoc] using sized

/-- The tensors of the past can be built from a cache of the right length. -/
theorem mapM_pastTensors {pastLen : Nat} {pastK pastV : LayerCache}
    (sizedK : ∀ layer, (pastK layer).length = numKvHeads * pastLen * headDim)
    (sizedV : ∀ layer, (pastV layer).length = numKvHeads * pastLen * headDim)
    (layers : List (Fin numLayers)) :
    layers.mapM (pastTensors pastLen pastK pastV) =
      .ok (layers.map fun layer =>
        (cacheTensor pastLen (pastK layer),
          cacheTensor pastLen (pastV layer))) := by
  have built (layer : Fin numLayers) :
      pastTensors pastLen pastK pastV layer =
        .ok (cacheTensor pastLen (pastK layer),
          cacheTensor pastLen (pastV layer)) := by
    rw [pastTensors, kvTensor_eq_ok (sizedK layer),
      kvTensor_eq_ok (sizedV layer)]
    rfl
  induction layers with
  | nil => rfl
  | cons layer layers ih =>
      rw [List.mapM_cons, built, ih]
      rfl

variable {engine : SmolVlmEngine} {keys values : List Float32 → LayerCache}
  {outcome : List Float32 → Except String (List Float32)}

/-- Embeddings of another length than the positions are refused. -/
theorem decodeStep_of_mismatch {embeds : List Float32} {seqLen pastLen : Nat}
    {pastK pastV : LayerCache} (fresh : 0 < seqLen)
    (mismatch : embeds.length ≠ seqLen * hiddenSize) :
    engine.decodeStep embeds seqLen pastLen pastK pastV =
      .fail (.inputTensor "data length does not match the shape") := by
  have positive : seqLen ≠ 0 := Nat.ne_of_gt fresh
  have noZero : ¬ [1, seqLen, hiddenSize].any (· == 0) = true := by
    simp [hiddenSize, positive]
  have refused : OrtTensor.fromArray [1, seqLen, hiddenSize] embeds =
      .error "data length does not match the shape" := by
    rw [OrtTensor.fromArray, if_neg noZero, if_pos]
    simpa using mismatch
  rw [decodeStep, inputTensor, refused]
  rfl

/-- **A pass of the decoder** on the cache of the positions before it answers
for the whole sequence and returns its cache. -/
theorem decodeStep_eq
    (decoder : CachedDecoder engine.decoderSession keys values outcome)
    {past new : List Float32} {pastLen seqLen : Nat}
    (sizedPast : past.length = pastLen * hiddenSize)
    (sizedNew : new.length = seqLen * hiddenSize) (fresh : 0 < seqLen) :
    engine.decodeStep new seqLen pastLen (keys past) (values past) =
      ⟨[.decoded (List.range' pastLen seqLen) (pastLen + seqLen) new],
        ((outcome (past ++ new)).mapError EngineError.session).map fun row =>
          (row, keys (past ++ new), values (past ++ new))⟩ := by
  have positive : seqLen ≠ 0 := Nat.ne_of_gt fresh
  have embedsTensor : inputTensor [1, seqLen, hiddenSize] new =
      pure ⟨[1, seqLen, hiddenSize], new⟩ :=
    inputTensor_ok (by simp [hiddenSize, positive]) (by simpa using sizedNew)
  have attnTensor : inputTensor [1, pastLen + seqLen]
      (List.replicate (pastLen + seqLen) 1) =
        pure ⟨[1, pastLen + seqLen], List.replicate (pastLen + seqLen) 1⟩ :=
    inputTensor_ok (by simp [positive]) (by simp)
  have posTensor : inputTensor [1, seqLen] (List.range' pastLen seqLen) =
      pure ⟨[1, seqLen], List.range' pastLen seqLen⟩ :=
    inputTensor_ok (by simp [positive]) (by simp)
  rw [decodeStep, embedsTensor, Traced.succeed_bind, attnTensor,
    Traced.succeed_bind, posTensor, Traced.succeed_bind,
    mapM_pastTensors (decoder.length_keys sizedPast)
      (decoder.length_values sizedPast), Traced.lift_ok_bind,
    Traced.emit_bind, List.length_replicate]
  cases asked : outcome (past ++ new) with
  | error e =>
      have run := decoder.fails sizedPast sizedNew fresh asked
      rw [cachedInputs] at run
      rw [run]
      rfl
  | ok row =>
      obtain ⟨logits, run, shape, last⟩ :=
        decoder.answers sizedPast sizedNew fresh asked
      rw [cachedInputs] at run
      rw [run]
      simp only [Except.mapError, Traced.lift_ok_bind]
      rw [if_neg (not_not_intro shape), last]
      rfl

/-! ## Running the prefix again -/

/-- The loop that runs the same decoder at each step on all embeddings, without
a cache, and takes the most likely token. -/
def rerunLoop (engine : SmolVlmEngine) (env : GenerationEnv) :
    Nat → Nat → List Float32 → Nat → List Nat → Generation PUnit
  | 0, _, _, _, _ => pure ⟨⟩
  | n + 1, i, embeds, length, history =>
      if engine.maxCtxSize ≤ length.toUInt32 then pure ⟨⟩
      else do
        let (logits, _, _) ← engine.decodeStep embeds length 0 .empty .empty
        let next := Sampling.argmax
          (Sampling.applyRepetitionPenalty logits history 1.3)
        if next.toUInt32 = engine.eosTokenId then pure ⟨⟩
        else if env.connected i then do
          Traced.emit (.streamed next (engine.tokenizer.piece next))
          let later ← engine.embedTokens [next]
          rerunLoop engine env n (i + 1) (embeds ++ later) (length + 1)
            (history ++ [next])
        else pure ⟨⟩

def rerun (engine : SmolVlmEngine) (env : GenerationEnv) (ids : List Nat)
    (image : Option (List UInt8)) (maxTokens : UInt32) : Generation PUnit :=
  if engine.maxCtxSize < ids.length.toUInt32 then
    .fail (.refusedGeneration ids.length engine.maxCtxSize)
  else do
    let embeds ← engine.promptEmbeds ids image
    engine.rerunLoop env maxTokens.toNat 0 embeds ids.length []

/-- What is fed in each run when everything before is fed again, behind
`length` positions with their embeddings. -/
def refed : Nat → List Float32 → List (List Nat × List Float32) →
    List (List Nat × List Float32)
  | _, _, [] => []
  | length, past, (positionIds, new) :: later =>
      (List.range (length + positionIds.length), past ++ new) ::
        refed (length + positionIds.length) (past ++ new) later

/-! ## What embedding shows -/

theorem embedTokens_events (ids : List Nat) :
    ∀ event ∈ (engine.embedTokens ids).events, event = .embedded ids := by
  refine Traced.forall_events_bind (Traced.forall_events_lift _)
    fun input built => ?_
  obtain ⟨-, -, rfl⟩ :=
    OrtTensor.fromArray_of_ok (ExceptSteps.mapError_eq_ok built)
  refine Traced.forall_events_bind (Traced.forall_events_emit rfl) fun _ _ => ?_
  refine Traced.forall_events_bind (Traced.forall_events_lift _)
    fun embeds _ => ?_
  split_ifs
  · exact Traced.forall_events_fail _
  · exact Traced.forall_events_pure _

theorem visionEncode_events (prepped : PreppedImage) :
    (engine.visionEncode prepped).events = [] := by
  refine List.eq_nil_iff_forall_not_mem.mpr ?_
  refine Traced.forall_events_bind (Traced.forall_events_lift _)
    fun pixels _ => ?_
  refine Traced.forall_events_bind (Traced.forall_events_lift _)
    fun mask _ => ?_
  refine Traced.forall_events_bind (Traced.forall_events_lift _)
    fun features _ => ?_
  split_ifs
  · exact Traced.forall_events_fail _
  · exact Traced.forall_events_fail _
  · exact Traced.forall_events_pure _

theorem promptEmbeds_events (ids : List Nat) (image : Option (List UInt8)) :
    ∀ event ∈ (engine.promptEmbeds ids image).events,
      event = .embedded ids := by
  refine Traced.forall_events_bind (embedTokens_events ids) fun embeds _ => ?_
  cases image with
  | none => exact Traced.forall_events_pure _
  | some bytes =>
      refine Traced.forall_events_bind (Traced.forall_events_lift _)
        fun prepped _ => ?_
      refine Traced.forall_events_bind ?_ fun features _ => ?_
      · rw [visionEncode_events]
        exact List.forall_mem_nil _
      · cases spliceImageEmbeds embeds ids features engine.imageTokenId with
        | none => exact Traced.forall_events_fail _
        | some spliced => exact Traced.forall_events_pure _

theorem fedOf_embedded {ids : List Nat} {events : List EngineEvent}
    (embedded : ∀ event ∈ events, event = .embedded ids) :
    fedOf events = [] := by
  refine List.filterMap_eq_nil_iff.mpr fun event mem => ?_
  rw [embedded event mem]
  rfl

/-- A failure that no tensor of the past has caused. -/
def NoPast (failure : EngineError) : Prop :=
  ∀ layer isKey cause, failure ≠ .pastTensor layer isKey cause

theorem noPast_of_mapError {Value : Type} {cause : String → EngineError}
    (other : ∀ message, NoPast (cause message))
    (result : Except String Value) :
    ∀ failure, (Traced.lift (result.mapError cause) :
      Generation Value).result = .error failure → NoPast failure := by
  intro failure fails
  cases result with
  | ok value => cases fails
  | error message =>
      cases fails
      exact other message

theorem noPast_of_ite {Value : Type} {condition : Prop} [Decidable condition]
    {failure : EngineError} (other : NoPast failure)
    {rest : Generation Value}
    (later : ∀ failure, rest.result = .error failure → NoPast failure) :
    ∀ failure', (if condition then Traced.fail failure else rest).result =
      .error failure' → NoPast failure' := by
  intro failure' fails
  split_ifs at fails with holds
  · cases fails
    exact other
  · exact later failure' fails

theorem inputTensor_noPast {Item : Type} (dims : List Nat)
    (data : List Item) :
    ∀ failure, (inputTensor dims data).result = .error failure →
      NoPast failure :=
  noPast_of_mapError (fun _ _ _ _ same => by cases same) _

theorem embedTokens_noPast (ids : List Nat) :
    ∀ failure, (engine.embedTokens ids).result = .error failure →
      NoPast failure := by
  refine Traced.forall_failures_bind (inputTensor_noPast _ _)
    fun input _ => ?_
  refine Traced.forall_failures_bind (fun _ fails => by cases fails)
    fun _ _ => ?_
  refine Traced.forall_failures_bind
    (noPast_of_mapError (fun _ _ _ _ same => by cases same) _)
    fun embeds _ => ?_
  exact noPast_of_ite (fun _ _ _ same => by cases same)
    fun _ fails => by cases fails

theorem visionEncode_noPast (prepped : PreppedImage) :
    ∀ failure, (engine.visionEncode prepped).result = .error failure →
      NoPast failure := by
  refine Traced.forall_failures_bind (inputTensor_noPast _ _)
    fun pixels _ => ?_
  refine Traced.forall_failures_bind (inputTensor_noPast _ _)
    fun mask _ => ?_
  refine Traced.forall_failures_bind
    (noPast_of_mapError (fun _ _ _ _ same => by cases same) _)
    fun features _ => ?_
  exact noPast_of_ite (fun _ _ _ same => by cases same)
    (noPast_of_ite (fun _ _ _ same => by cases same)
      fun _ fails => by cases fails)

theorem promptEmbeds_noPast (ids : List Nat) (image : Option (List UInt8)) :
    ∀ failure, (engine.promptEmbeds ids image).result = .error failure →
      NoPast failure := by
  refine Traced.forall_failures_bind (embedTokens_noPast ids)
    fun embeds _ => ?_
  cases image with
  | none => exact fun _ fails => by cases fails
  | some bytes =>
      refine Traced.forall_failures_bind
        (noPast_of_mapError (fun _ _ _ _ same => by cases same) _)
        fun prepped _ => ?_
      refine Traced.forall_failures_bind (visionEncode_noPast prepped)
        fun features _ => ?_
      cases spliceImageEmbeds embeds ids features engine.imageTokenId with
      | none =>
          intro failure fails
          cases fails
          exact fun _ _ _ same => by cases same
      | some spliced => exact fun _ fails => by cases fails

/-- Embeddings are there only for a prompt that is not empty. -/
theorem nonempty_of_promptEmbeds {ids : List Nat}
    {image : Option (List UInt8)} {embeds : List Float32}
    (embedded : (engine.promptEmbeds ids image).result = .ok embeds) :
    0 < ids.length := by
  obtain ⟨plain, tokens, -⟩ := Traced.bind_result_eq_ok embedded
  obtain ⟨input, built, -⟩ := Traced.bind_result_eq_ok tokens
  obtain ⟨positive, -, -⟩ :=
    OrtTensor.fromArray_of_ok (ExceptSteps.mapError_eq_ok built)
  exact Nat.pos_of_ne_zero (positive ids.length (by simp))

/-! ## The loop and its cache -/

/-- The cache of the loop is that of the embeddings fed so far, and something is
to be fed. -/
structure Tracks (keys values : List Float32 → LayerCache)
    (state : DecodeState) (past : List Float32) : Prop where
  sized : past.length = state.pastLen * hiddenSize
  pastK : state.pastK = keys past
  pastV : state.pastV = values past
  fresh : 0 < state.curSeqLen

/-- Nothing is cached of no embeddings. -/
theorem cache_nil {run : DecoderInputs → Except String DecoderOutputs}
    (decoder : CachedDecoder run keys values outcome) :
    keys [] = .empty ∧ values [] = .empty := by
  have none : ([] : List Float32).length = 0 * hiddenSize := by
    rw [Nat.zero_mul, List.length_nil]
  have noLength : numKvHeads * 0 * headDim = 0 := by
    rw [Nat.mul_zero, Nat.zero_mul]
  constructor
  · ext1 layer
    exact List.eq_nil_of_length_eq_zero
      ((decoder.length_keys none layer).trans noLength)
  · ext1 layer
    exact List.eq_nil_of_length_eq_zero
      ((decoder.length_values none layer).trans noLength)

/-- Two generations stream the same and end in the same way.  The first goes on
behind the positions before, without a gap; the second feeds again what the
first has fed. -/
structure Agrees (pastLen : Nat) (past : List Float32)
    (cached again : Generation PUnit) : Prop where
  sent : sentOf cached.events = sentOf again.events
  result : cached.result = again.result
  fed : fedOf again.events = refed pastLen past (fedOf cached.events)
  inOrder : ∃ n, List.range pastLen ++
    ((fedOf cached.events).map Prod.fst).flatten = List.range n
  sized : ∀ pass ∈ fedOf cached.events,
    pass.2.length = pass.1.length * hiddenSize
  noPast : ∀ failure, cached.result = .error failure → NoPast failure

variable {env : GenerationEnv} {temperature : Float32} {pastLen : Nat}
  {past : List Float32} {cached again : Generation PUnit}

theorem Agrees.stop : Agrees pastLen past (pure ⟨⟩) (pure ⟨⟩) where
  sent := rfl
  result := rfl
  fed := rfl
  inOrder := ⟨pastLen, List.append_nil _⟩
  sized := List.forall_mem_nil _
  noPast := fun _ fails => by cases fails

theorem Agrees.fail {failure : EngineError} (noPast : NoPast failure) :
    Agrees pastLen past (Traced.fail failure) (Traced.fail failure) where
  sent := rfl
  result := rfl
  fed := rfl
  inOrder := ⟨pastLen, List.append_nil _⟩
  sized := List.forall_mem_nil _
  noPast := by
    intro other fails
    cases fails
    exact noPast

/-- The next run of the decoder: one feeds new positions, the other feeds all of
them. -/
theorem Agrees.run {seqLen total total' : Nat} {new : List Float32}
    (sized : new.length = seqLen * hiddenSize)
    (agrees : Agrees (pastLen + seqLen) (past ++ new) cached again) :
    Agrees pastLen past
      ⟨.decoded (List.range' pastLen seqLen) total new :: cached.events,
        cached.result⟩
      ⟨.decoded (List.range (pastLen + seqLen)) total' (past ++ new) ::
        again.events, again.result⟩ where
  sent := agrees.sent
  result := agrees.result
  fed := by
    have length : (List.range' pastLen seqLen).length = seqLen :=
      List.length_range'
    show _ :: fedOf again.events = refed _ _ (_ :: fedOf cached.events)
    rw [refed, length, agrees.fed]
  inOrder := by
    obtain ⟨n, ordered⟩ := agrees.inOrder
    refine ⟨n, ?_⟩
    rw [← ordered, List.range_eq_range', List.range_eq_range',
      ← List.range'_append_1, Nat.zero_add, List.append_assoc]
    rfl
  sized := by
    refine List.forall_mem_cons.mpr ⟨?_, agrees.sized⟩
    dsimp only
    rw [List.length_range']
    exact sized
  noPast := agrees.noPast

theorem Agrees.send {token : Nat} {piece : String}
    (agrees : Agrees pastLen past cached again) :
    Agrees pastLen past ⟨.streamed token piece :: cached.events, cached.result⟩
      ⟨.streamed token piece :: again.events, again.result⟩ where
  sent := congrArg ((token, piece) :: ·) agrees.sent
  result := agrees.result
  fed := agrees.fed
  inOrder := agrees.inOrder
  sized := agrees.sized
  noPast := agrees.noPast

/-- Both embed the same ids before they go on. -/
theorem Agrees.embed {ids : List Nat} {events : List EngineEvent}
    (embedded : ∀ event ∈ events, event = .embedded ids)
    (agrees : Agrees pastLen past cached again) :
    Agrees pastLen past ⟨events ++ cached.events, cached.result⟩
      ⟨events ++ again.events, again.result⟩ := by
  have none := fedOf_embedded embedded
  have same := agrees.fed
  constructor
  · rw [sentOf_append, sentOf_append, agrees.sent]
  · exact agrees.result
  · rw [fedOf_append, fedOf_append, none, List.nil_append, List.nil_append,
      same]
  · rw [fedOf_append, none, List.nil_append]
    exact agrees.inOrder
  · rw [fedOf_append, none, List.nil_append]
    exact agrees.sized
  · exact agrees.noPast

/-- Both embed the token before they go on, one with its state and the other with
the embedding alone. -/
theorem Agrees.feed {next : Nat} {state : DecodeState}
    {cachedRest : DecodeState → Generation PUnit}
    {againRest : List Float32 → Generation PUnit}
    (goOn : ∀ new, Agrees pastLen past
      (cachedRest { state with
        history := state.history ++ [next]
        curEmbeds := new
        curSeqLen := 1 }) (againRest new)) :
    Agrees pastLen past (engine.feed next state >>= cachedRest)
      (engine.embedTokens [next] >>= againRest) := by
  have shown := @embedTokens_events engine [next]
  rw [SmolVlmEngine.feed]
  cases embedded : (engine.embedTokens [next]).result with
  | error e =>
      rw [Traced.bind_of_error embedded, Traced.bind_of_error embedded,
        Traced.bind_of_error rfl]
      have ended := embedTokens_noPast [next] e embedded
      have fails : Agrees pastLen past _ _ := .embed shown (.fail ended)
      rw [Traced.fail, List.append_nil] at fails
      exact fails
  | ok new =>
      rw [Traced.bind_of_ok embedded, Traced.bind_of_ok embedded,
        Traced.bind_of_ok rfl, Traced.pure_events, List.append_nil]
      exact .embed shown (goOn new)

/-- A pass under greedy decoding takes the most likely token. -/
theorem advance_eq {i : Nat} {state : DecodeState}
    {events : List EngineEvent} {row : List Float32}
    {newPastK newPastV : LayerCache} (greedy : temperature ≤ 0.0)
    (pass : engine.decodeStep state.curEmbeds state.curSeqLen state.pastLen
      state.pastK state.pastV = ⟨events, .ok (row, newPastK, newPastV)⟩) :
    engine.advance env temperature i state =
      ⟨events, .ok (Sampling.argmax
          (Sampling.applyRepetitionPenalty row state.history 1.3),
        { state with
          pastK := newPastK
          pastV := newPastV
          pastLen := state.pastLen + state.curSeqLen })⟩ := by
  rw [advance, pass, Traced.bind_of_ok rfl]
  simp only [Sampling.nextToken, Sampling.sample_greedy greedy]
  simp

/-- The loop and the one that runs the prefix again agree. -/
theorem generateLoop_agrees
    (decoder : CachedDecoder engine.decoderSession keys values outcome)
    (greedy : temperature ≤ 0.0) (n i : Nat) {state : DecodeState}
    {past : List Float32} (tracks : Tracks keys values state past) :
    Agrees state.pastLen past
      (engine.generateLoop env temperature n i state)
      (engine.rerunLoop env n i (past ++ state.curEmbeds)
        (state.pastLen + state.curSeqLen) state.history) := by
  induction n generalizing i state past with
  | zero => exact .stop
  | succ n ih =>
      obtain ⟨noKeys, noValues⟩ := cache_nil decoder
      have total : 0 < state.pastLen + state.curSeqLen :=
        Nat.add_pos_right _ tracks.fresh
      have sizes : (past ++ state.curEmbeds).length =
          (state.pastLen + state.curSeqLen) * hiddenSize ↔
            state.curEmbeds.length = state.curSeqLen * hiddenSize := by
        rw [List.length_append, tracks.sized, Nat.add_mul]
        exact Nat.add_left_cancel_iff
      rw [generateLoop, rerunLoop]
      by_cases full : engine.maxCtxSize ≤
          (state.pastLen + state.curSeqLen).toUInt32
      · rw [if_pos full, if_pos full]
        exact .stop
      rw [if_neg full, if_neg full]
      by_cases sized : state.curEmbeds.length = state.curSeqLen * hiddenSize
      · have alone := decodeStep_eq decoder tracks.sized sized tracks.fresh
        rw [← tracks.pastK, ← tracks.pastV] at alone
        have again := @decodeStep_eq engine keys values outcome decoder []
          (past ++ state.curEmbeds) 0 (state.pastLen + state.curSeqLen)
          (by rw [Nat.zero_mul, List.length_nil]) (sizes.mpr sized) total
        rw [noKeys, noValues, List.nil_append, Nat.zero_add,
          ← List.range_eq_range'] at again
        cases asked : outcome (past ++ state.curEmbeds) with
        | error e =>
            rw [asked] at alone again
            rw [advance, alone, again]
            have ended : NoPast (.session e) := fun _ _ _ same => by cases same
            exact Agrees.run sized (.fail ended)
        | ok row =>
            rw [asked] at alone again
            rw [advance_eq greedy alone, again, Traced.bind_of_ok rfl,
              Traced.bind_of_ok rfl]
            refine Agrees.run sized ?_
            dsimp only
            generalize Sampling.argmax (Sampling.applyRepetitionPenalty row
              state.history 1.3) = next
            split_ifs with ends connected
            · exact .stop
            · rw [Traced.emit_bind, Traced.emit_bind]
              refine Agrees.send (Agrees.feed fun new => ?_)
              have later : Tracks keys values
                  { pastK := keys (past ++ state.curEmbeds)
                    pastV := values (past ++ state.curEmbeds)
                    pastLen := state.pastLen + state.curSeqLen
                    curEmbeds := new
                    curSeqLen := 1
                    history := state.history ++ [next] }
                  (past ++ state.curEmbeds) :=
                ⟨sizes.mpr sized, rfl, rfl, Nat.one_pos⟩
              exact ih (i + 1) later
            · exact .stop
      · rw [advance, decodeStep_of_mismatch tracks.fresh sized,
          decodeStep_of_mismatch total (fun whole => sized (sizes.mp whole))]
        exact .fail fun _ _ _ same => by cases same

/-- **Decoding with the cache is running the prefix again.**  Under greedy
decoding the tokens that are streamed are those of the loop that runs the
decoder on all embeddings in each step, and it ends in the same way.  The passes
feed the positions in order, each once; what the other loop feeds is all that
was fed so far.  No tensor of the past is refused. -/
theorem generate_eq_rerun
    (decoder : CachedDecoder engine.decoderSession keys values outcome)
    (greedy : temperature ≤ 0.0) (env : GenerationEnv) (ids : List Nat)
    (image : Option (List UInt8)) (maxTokens : UInt32) :
    let cached := engine.generate env temperature ids image maxTokens
    let again := engine.rerun env ids image maxTokens
    sentOf cached.events = sentOf again.events ∧
      cached.result = again.result ∧
      (∃ n, ((fedOf cached.events).map Prod.fst).flatten = List.range n) ∧
      (∀ pass ∈ fedOf cached.events,
        pass.2.length = pass.1.length * hiddenSize) ∧
      fedOf again.events = refed 0 [] (fedOf cached.events) ∧
      ∀ layer isKey cause,
        cached.result ≠ .error (.pastTensor layer isKey cause) := by
  suffices agrees : Agrees 0 []
      (engine.generate env temperature ids image maxTokens)
      (engine.rerun env ids image maxTokens) from
    ⟨agrees.sent, agrees.result, agrees.inOrder, agrees.sized, agrees.fed,
      fun layer isKey cause fails =>
        agrees.noPast _ fails layer isKey cause rfl⟩
  rw [generate, rerun]
  split_ifs
  · exact .fail fun _ _ _ same => by cases same
  have shown := @promptEmbeds_events engine ids image
  cases embedded : (engine.promptEmbeds ids image).result with
  | error e =>
      rw [Traced.bind_of_error embedded, Traced.bind_of_error embedded]
      have ended := promptEmbeds_noPast ids image e embedded
      have fails := @Agrees.embed 0 [] _ _ ids _ shown (.fail ended)
      rw [Traced.fail, List.append_nil] at fails
      exact fails
  | ok embeds =>
      rw [Traced.bind_of_ok embedded, Traced.bind_of_ok embedded]
      refine Agrees.embed shown ?_
      obtain ⟨noKeys, noValues⟩ := cache_nil decoder
      have tracks : Tracks keys values (.initial embeds ids.length) [] :=
        ⟨(Nat.zero_mul _).symm, noKeys.symm, noValues.symm,
          nonempty_of_promptEmbeds embedded⟩
      have agrees := @generateLoop_agrees engine keys values outcome env
        temperature decoder greedy maxTokens.toNat 0 _ _ tracks
      have all : (DecodeState.initial embeds ids.length).pastLen +
          (DecodeState.initial embeds ids.length).curSeqLen = ids.length :=
        Nat.zero_add ids.length
      rw [all] at agrees
      exact agrees

/-! ## A decoder that counts -/

/-- An engine whose decoder looks only at how many positions it has been fed;
`score` gives the logits. -/
def counting (tokenizer : HrmTokenizer) (score : Nat → List Float32)
    (maxCtxSize : UInt32) : SmolVlmEngine where
  preprocess _ := .error "no decoder for images"
  visionSession _ _ := .error "no vision encoder"
  embedSession ids := .ok ⟨[1, ids.length, hiddenSize],
    List.replicate (ids.length * hiddenSize) 0.0⟩
  decoderSession inputs :=
    let total := inputs.attentionMask.data.length
    let cache : LayerCache := fun _ =>
      List.replicate (numKvHeads * total * headDim) 0.0
    .ok ⟨⟨[1, 1, (score total).length], score total⟩, cache, cache⟩
  tokenizer := tokenizer
  imageTokenId := 2
  eosTokenId := 0
  maxCtxSize := maxCtxSize

def countingCache (embeds : List Float32) : LayerCache :=
  fun _ => List.replicate
    (numKvHeads * (embeds.length / hiddenSize) * headDim) 0.0

theorem length_div_of_sized {embeds : List Float32} {n : Nat}
    (sized : embeds.length = n * hiddenSize) :
    embeds.length / hiddenSize = n := by
  rw [sized]
  exact Nat.mul_div_cancel n (by decide)

theorem counting_cached (tokenizer : HrmTokenizer) (score : Nat → List Float32)
    (maxCtxSize : UInt32) :
    CachedDecoder (counting tokenizer score maxCtxSize).decoderSession
      countingCache countingCache
      (fun embeds => .ok (score (embeds.length / hiddenSize))) where
  length_keys sized layer := by
    rw [countingCache, List.length_replicate, length_div_of_sized sized]
  length_values sized layer := by
    rw [countingCache, List.length_replicate, length_div_of_sized sized]
  fails _ _ _ failed := by cases failed
  answers {past new pastLen seqLen row} sizedPast sizedNew fresh answered := by
    have total : (past ++ new).length / hiddenSize = pastLen + seqLen := by
      apply length_div_of_sized
      rw [List.length_append, sizedPast, sizedNew, Nat.add_mul]
    have length : (List.replicate (pastLen + seqLen) 1).length =
        pastLen + seqLen := List.length_replicate
    obtain rfl := Except.ok.inj answered
    refine ⟨⟨[1, 1, (score (pastLen + seqLen)).length],
      score (pastLen + seqLen)⟩, ?_, rfl, ?_⟩
    · simp only [counting, cachedInputs, length]
      unfold countingCache
      rw [total]
    · rw [total]
      exact OrtTensor.lastRow_single _

theorem counting_eq_rerun :
    sentOf ((counting ⟨fun _ _ => .ok [1], fun _ _ => .ok "a"⟩
      (fun _ => [0.0, 1.0]) 3).generate ⟨fun _ => 0.0, fun _ => true⟩ 0.0 [1]
        none 5).events =
      sentOf ((counting ⟨fun _ _ => .ok [1], fun _ _ => .ok "a"⟩
        (fun _ => [0.0, 1.0]) 3).rerun ⟨fun _ => 0.0, fun _ => true⟩ [1]
          none 5).events :=
  (generate_eq_rerun (counting_cached _ _ 3) (by decide +kernel) _ [1] none
    5).1

end SmolVlmEngine

end TorchInference
