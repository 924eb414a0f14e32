import TorchInference.LlmEngines

/-!
# The HRM engine

It runs its session on the whole sequence for every token.
-/

namespace TorchInference

structure HrmRuntimeConfig where
  eosTokenId : UInt32
  ctxSize : UInt32
  vocabSize : UInt32

/-- An engine with its weights; its session may fail, also where the output
cannot be extracted. -/
structure HrmEngine where
  session : List Nat → Except String (OrtTensor Float32)
  tokenizer : HrmTokenizer
  runtime : HrmRuntimeConfig

namespace HrmEngine

variable (engine : HrmEngine) (env : GenerationEnv) (temperature : Float32)

/-- `prefill`: the logits behind a sequence. -/
def prefill (inputIds : List Nat) : Generation (List Float32) :=
  if inputIds = [] then .fail .emptyInput
  else if engine.runtime.ctxSize < inputIds.length.toUInt32 then
    .fail (.refusedPrefill inputIds.length engine.runtime.ctxSize
      (inputIds.length * engine.runtime.vocabSize.toNat * 2 / (1024 * 1024)))
  else do
    let input ← .lift
      ((OrtTensor.fromArray [1, inputIds.length] inputIds).mapError
        EngineError.inputTensor)
    Traced.emit (.ran input.data)
    let logits ← .lift ((engine.session input.data).mapError
      EngineError.session)
    if logits.dims.length ≠ 3 then .fail (.logitsShape logits.dims)
    else
      match logits.lastRow with
      | none => .fail .panicked
      | some row => pure row

/-- The token that is sampled behind a sequence in step `i`. -/
def sampled (i : Nat) (ids : List Nat) : Generation Nat := do
  let logits ← engine.prefill ids
  match Sampling.nextToken (env.draw i) logits ids temperature with
  | none => .fail .panicked
  | some next => pure next

/-- The loop of `complete`. -/
def completeLoop : Nat → Nat → List Nat → Generation PUnit
  | 0, _, _ => pure ⟨⟩
  | n + 1, i, ids => do
      let next ← engine.sampled env temperature i ids
      if next.toUInt32 = engine.runtime.eosTokenId then pure ⟨⟩
      else if engine.runtime.ctxSize ≤ ids.length.toUInt32 then pure ⟨⟩
      else if env.connected i then do
        Traced.emit (.streamed next (engine.tokenizer.piece next))
        completeLoop n (i + 1) (ids ++ [next])
      else pure ⟨⟩

def complete (prompt : String) (maxTokens : UInt32) : Generation PUnit := do
  let ids ← .lift ((engine.tokenizer.encode prompt true).mapError
    EngineError.encode)
  engine.completeLoop env temperature maxTokens.toNat 0 ids

end HrmEngine

end TorchInference
