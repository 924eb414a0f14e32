import Mathlib.Data.List.Basic

/-!
# Token sampling

Both engines choose the next token from the logits of the last position.  The
logits of tokens that are already there are penalised first.
-/

namespace TorchInference

namespace Sampling

/-- The first token with the largest logit. -/
def argmax (logits : List Float32) : Nat :=
  (logits.zipIdx.foldl
    (fun acc entry => if acc.2 < entry.1 then (entry.2, entry.1) else acc)
    (0, Float32.ofBits 0xFF800000)).1

def clampTemperature (temperature : Float32) : Float32 :=
  if temperature < 0.01 then 0.01
  else if 2.0 < temperature then 2.0
  else temperature

/-- The number of tokens in the smallest beginning whose probabilities come to
`topP`. -/
def keepLength (topP : Float32) (cum : Float32) : List Float32 → Nat
  | [] => 0
  | p :: probs =>
      if topP ≤ cum + p then 1 else keepLength topP (cum + p) probs + 1

/-- The weighted choice of one of the tokens. -/
def choose (r : Float32) (acc : Float32) : List (Nat × Float32) → Option Nat
  | [] => none
  | (token, p) :: rest =>
      if r ≤ acc + p then some token else choose r (acc + p) rest

/-- `draw` is the number drawn from the generator; there is no token where the
code panics, on no logits at all. -/
def sample (draw : Float32) (logits : List Float32) (temperature : Float32)
    (topK : Nat) (topP : Float32) : Option Nat :=
  if temperature ≤ 0.0 then some (argmax logits)
  else
    let t := clampTemperature temperature
    let indexed := (logits.zipIdx.map fun entry => (entry.2, entry.1 / t))
    let sorted := (indexed.mergeSort fun a b => !decide (a.2 < b.2)).take
      (max topK 1)
    match sorted with
    | [] => none
    | (_, largest) :: _ =>
        let weights := sorted.map fun entry => (entry.2 - largest).exp
        let sum := weights.foldl (· + ·) 0.0
        let probs := weights.map (· / sum)
        let kept := probs.take (keepLength topP 0.0 probs)
        let renorm := kept.foldl (· + ·) 0.0
        match choose draw 0.0
            ((sorted.map Prod.fst).zip (kept.map (· / renorm))) with
        | some token => some token
        | none => (sorted.map Prod.fst).getLast?

/-- Greedy decoding draws nothing. -/
theorem sample_greedy {temperature : Float32} (greedy : temperature ≤ 0.0)
    (draw : Float32) (logits : List Float32) (topK : Nat) (topP : Float32) :
    sample draw logits temperature topK topP = some (argmax logits) :=
  if_pos greedy

/-- `apply_repetition_penalty`: a token that occurs twice is penalised
twice. -/
def applyRepetitionPenalty (logits : List Float32) (history : List Nat)
    (penalty : Float32) : List Float32 :=
  if penalty ≤ 1.0 then logits
  else
    history.foldl
      (fun logits id => logits.modify id fun logit =>
        if 0.0 < logit then logit / penalty else logit * penalty)
      logits

/-- What both engines do with the logits of a step. -/
def nextToken (draw : Float32) (logits : List Float32) (history : List Nat)
    (temperature : Float32) : Option Nat :=
  sample draw (applyRepetitionPenalty logits history 1.3) temperature 40 0.95

example : argmax [0.1, 0.9, 0.05, 0.2] = 1 := by decide +kernel

example : applyRepetitionPenalty [1.0, 2.0, 3.0] [1] 2.0 = [1.0, 1.0, 3.0] := by
  decide +kernel

end Sampling

end TorchInference
