import TorchInference.LlmEngines

/-!
# The SmolVLM engine

It embeds the prompt once and then feeds its decoder one token at a time; what
the decoder knows of the earlier positions is in a cache that goes from one
step to the next.
-/

namespace TorchInference

namespace SmolVlm

def numLayers : Nat := 30

def numKvHeads : Nat := 3

def headDim : Nat := 64

def hiddenSize : Nat := 576

def imageSeqLen : Nat := 64

/-- The side of a preprocessed image. -/
def canvas : Nat := 512

/-- One vector for each layer. -/
abbrev LayerCache :=
  Fin numLayers → List Float32

def LayerCache.empty : LayerCache :=
  fun _ => []

structure PreppedImage where
  pixelValues : List Float32
  pixelAttentionMask : List Bool

structure DecoderInputs where
  inputsEmbeds : OrtTensor Float32
  attentionMask : OrtTensor Nat
  positionIds : OrtTensor Nat
  /-- Keys and values, layer by layer. -/
  pastKeyValues : List (OrtTensor Float32 × OrtTensor Float32)

structure DecoderOutputs where
  logits : OrtTensor Float32
  presentKey : LayerCache
  presentValue : LayerCache

end SmolVlm

open SmolVlm

/-- An engine with its weights.  Its sessions may fail, also where an output
cannot be extracted, and so may the decoding of an image. -/
structure SmolVlmEngine where
  preprocess : List UInt8 → Except String PreppedImage
  visionSession : OrtTensor Float32 → OrtTensor Bool →
    Except String (OrtTensor Float32)
  embedSession : List Nat → Except String (OrtTensor Float32)
  decoderSession : DecoderInputs → Except String DecoderOutputs
  tokenizer : HrmTokenizer
  imageTokenId : UInt32
  eosTokenId : UInt32
  maxCtxSize : UInt32

namespace SmolVlmEngine

/-! ## Sessions -/

/-- A tensor that one of the sessions is run on. -/
def inputTensor {Item : Type} (dims : List Nat) (data : List Item) :
    Generation (OrtTensor Item) :=
  .lift ((OrtTensor.fromArray dims data).mapError EngineError.inputTensor)

theorem inputTensor_ok {Item : Type} {dims : List Nat} {data : List Item}
    (positive : ∀ dim ∈ dims, dim ≠ 0) (sized : data.length = dims.prod) :
    inputTensor dims data = pure ⟨dims, data⟩ := by
  rw [inputTensor, OrtTensor.fromArray_eq_ok positive sized]
  rfl

def visionEncode (engine : SmolVlmEngine) (prepped : PreppedImage) :
    Generation (List Float32) := do
  let pixels ← inputTensor [1, 1, 3, canvas, canvas] prepped.pixelValues
  let mask ← inputTensor [1, 1, canvas, canvas] prepped.pixelAttentionMask
  let features ← .lift ((engine.visionSession pixels mask).mapError
    EngineError.session)
  if features.dims.length ≠ 3 ∨ features.dims[1]? ≠ some imageSeqLen ∨
      features.dims[2]? ≠ some hiddenSize then
    .fail (.imageShape features.dims)
  else if features.data.length < imageSeqLen * hiddenSize then .fail .panicked
  else pure (features.data.take (imageSeqLen * hiddenSize))

def embedTokens (engine : SmolVlmEngine) (ids : List Nat) :
    Generation (List Float32) := do
  let input ← inputTensor [1, ids.length] ids
  Traced.emit (.embedded input.data)
  let embeds ← .lift ((engine.embedSession input.data).mapError
    EngineError.session)
  if embeds.dims.length ≠ 3 ∨ embeds.dims[2]? ≠ some hiddenSize then
    .fail (.embedsShape embeds.dims)
  else pure embeds.data

/-- One position of `splice_image_embeds`: the embeddings and how many rows of
the image are used so far. -/
def spliceOne (imageFeatures : List Float32) (imageTokenId : UInt32)
    (acc : List Float32 × Nat) (entry : Nat × Nat) :
    Option (List Float32 × Nat) :=
  if entry.1.toUInt32 = imageTokenId ∧
      (acc.2 + 1) * hiddenSize ≤ imageFeatures.length then
    if (entry.2 + 1) * hiddenSize ≤ acc.1.length then
      some (acc.1.take (entry.2 * hiddenSize) ++
        (imageFeatures.drop (acc.2 * hiddenSize)).take hiddenSize ++
        acc.1.drop ((entry.2 + 1) * hiddenSize), acc.2 + 1)
    else none
  else some acc

/-- `splice_image_embeds`; the code panics where a row is missing. -/
def spliceImageEmbeds (embeds : List Float32) (ids : List Nat)
    (imageFeatures : List Float32) (imageTokenId : UInt32) :
    Option (List Float32) :=
  (ids.zipIdx.foldlM (spliceOne imageFeatures imageTokenId) (embeds, 0)).map
    Prod.fst

/-- The embeddings of a prompt, with those of its image. -/
def promptEmbeds (engine : SmolVlmEngine) (ids : List Nat)
    (image : Option (List UInt8)) : Generation (List Float32) := do
  let embeds ← engine.embedTokens ids
  match image with
  | none => pure embeds
  | some bytes => do
      let prepped ← .lift ((engine.preprocess bytes).mapError EngineError.image)
      let imageFeatures ← engine.visionEncode prepped
      match spliceImageEmbeds embeds ids imageFeatures engine.imageTokenId with
      | none => .fail .panicked
      | some embeds => pure embeds

/-! ## The decoder -/

/-- `kv_tensor`: without past positions the tensor is allocated empty. -/
def kvTensor (pastLen : Nat) (data : List Float32) :
    Except KvError (OrtTensor Float32) :=
  if data.length ≠ numKvHeads * pastLen * headDim then
    .error (.length data.length (numKvHeads * pastLen * headDim) pastLen)
  else if pastLen = 0 then .ok ⟨[1, numKvHeads, pastLen, headDim], []⟩
  else
    (OrtTensor.fromArray [1, numKvHeads, pastLen, headDim] data).mapError
      KvError.build

/-- The past of one layer. -/
def pastTensors (pastLen : Nat) (pastK pastV : LayerCache)
    (layer : Fin numLayers) :
    Except EngineError (OrtTensor Float32 × OrtTensor Float32) := do
  let key ← (kvTensor pastLen (pastK layer)).mapError
    (EngineError.pastTensor layer true)
  let value ← (kvTensor pastLen (pastV layer)).mapError
    (EngineError.pastTensor layer false)
  pure (key, value)

/-- `decode_step`: the logits of the last position and the new cache. -/
def decodeStep (engine : SmolVlmEngine) (embeds : List Float32)
    (seqLen pastLen : Nat) (pastK pastV : LayerCache) :
    Generation (List Float32 × LayerCache × LayerCache) := do
  let totalLen := pastLen + seqLen
  let embedsTensor ← inputTensor [1, seqLen, hiddenSize] embeds
  let attnTensor ← inputTensor [1, totalLen] (List.replicate totalLen 1)
  let posTensor ← inputTensor [1, seqLen] (List.range' pastLen seqLen)
  let past ← .lift ((List.finRange numLayers).mapM
    (pastTensors pastLen pastK pastV))
  Traced.emit (.decoded posTensor.data attnTensor.data.length
    embedsTensor.data)
  let outputs ← .lift ((engine.decoderSession
    ⟨embedsTensor, attnTensor, posTensor, past⟩).mapError EngineError.session)
  if outputs.logits.dims.length ≠ 3 then
    .fail (.logitsShape outputs.logits.dims)
  else
    match outputs.logits.lastRow with
    | none => .fail .panicked
    | some row => pure (row, outputs.presentKey, outputs.presentValue)

/-! ## Generation -/

/-- The variables of the loop of `generate`. -/
structure DecodeState where
  pastK : LayerCache
  pastV : LayerCache
  pastLen : Nat
  curEmbeds : List Float32
  curSeqLen : Nat
  history : List Nat

/-- Before the loop, the whole prompt is to be fed. -/
def DecodeState.initial (embeds : List Float32) (seqLen : Nat) : DecodeState where
  pastK := .empty
  pastV := .empty
  pastLen := 0
  curEmbeds := embeds
  curSeqLen := seqLen
  history := []

variable (engine : SmolVlmEngine) (env : GenerationEnv) (temperature : Float32)

/-- The decoder pass of step `i`: the token that is sampled, and the variables
after it. -/
def advance (i : Nat) (state : DecodeState) :
    Generation (Nat × DecodeState) := do
  let (logits, newPastK, newPastV) ← engine.decodeStep state.curEmbeds
    state.curSeqLen state.pastLen state.pastK state.pastV
  match Sampling.nextToken (env.draw i) logits state.history temperature with
  | none => .fail .panicked
  | some next =>
      pure (next, { state with
        pastK := newPastK
        pastV := newPastV
        pastLen := state.pastLen + state.curSeqLen })

/-- The token goes into the history and is to be fed next. -/
def feed (next : Nat) (state : DecodeState) : Generation DecodeState := do
  let embeds ← engine.embedTokens [next]
  pure { state with
    history := state.history ++ [next]
    curEmbeds := embeds
    curSeqLen := 1 }

/-- The loop of `generate`. -/
def generateLoop : Nat → Nat → DecodeState → Generation PUnit
  | 0, _, _ => pure ⟨⟩
  | n + 1, i, state =>
      if engine.maxCtxSize ≤ (state.pastLen + state.curSeqLen).toUInt32 then
        pure ⟨⟩
      else do
        let (next, state) ← engine.advance env temperature i state
        if next.toUInt32 = engine.eosTokenId then pure ⟨⟩
        else if env.connected i then do
          Traced.emit (.streamed next (engine.tokenizer.piece next))
          let state ← engine.feed next state
          generateLoop n (i + 1) state
        else pure ⟨⟩

def generate (ids : List Nat) (image : Option (List UInt8))
    (maxTokens : UInt32) : Generation PUnit :=
  if engine.maxCtxSize < ids.length.toUInt32 then
    .fail (.refusedGeneration ids.length engine.maxCtxSize)
  else do
    let embeds ← engine.promptEmbeds ids image
    engine.generateLoop env temperature maxTokens.toNat 0
      (.initial embeds ids.length)

end SmolVlmEngine

end TorchInference
