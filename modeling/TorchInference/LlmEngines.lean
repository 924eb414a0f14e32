import Mathlib.Algebra.BigOperators.Group.List.Basic
import TorchInference.TokenSampling
import TorchInference.TracedSteps

/-!
# The language engines

What the two engines share: tensors, the tokenizer, the channel they stream
into, and what can be seen of a generation.  The `u32` casts of lengths and
tokens are written out.  Only engines with their weights are here; a stub
streams canned words.
-/

namespace TorchInference

structure OrtTensor (Item : Type) where
  dims : List Nat
  data : List Item
  deriving DecidableEq

namespace OrtTensor

/-- `Tensor::from_array` refuses a dimension that is zero and data of another
length than the dimensions give. -/
def fromArray {Item : Type} (dims : List Nat) (data : List Item) :
    Except String (OrtTensor Item) :=
  if dims.any (· == 0) then .error "all dimensions must be >= 1"
  else if data.length ≠ dims.prod then
    .error "data length does not match the shape"
  else .ok ⟨dims, data⟩

theorem fromArray_eq_ok {Item : Type} {dims : List Nat} {data : List Item}
    (positive : ∀ dim ∈ dims, dim ≠ 0) (sized : data.length = dims.prod) :
    fromArray dims data = .ok ⟨dims, data⟩ := by
  have noZero : ¬ dims.any (· == 0) = true := by
    rw [List.any_eq_true]
    rintro ⟨dim, mem, zero⟩
    exact positive dim mem (beq_iff_eq.mp zero)
  rw [fromArray, if_neg noZero, if_neg (not_not_intro sized)]

theorem fromArray_of_ok {Item : Type} {dims : List Nat} {data : List Item}
    {tensor : OrtTensor Item} (built : fromArray dims data = .ok tensor) :
    (∀ dim ∈ dims, dim ≠ 0) ∧ data.length = dims.prod ∧
      tensor = ⟨dims, data⟩ := by
  unfold fromArray at built
  split_ifs at built with zero sized
  refine ⟨fun dim mem isZero => zero ?_, not_not.mp sized,
    (Except.ok.inj built).symm⟩
  rw [List.any_eq_true]
  exact ⟨dim, mem, beq_iff_eq.mpr isZero⟩

/-- The logits of the last position of `[1, seq, vocab]`; the code panics where
they are not there. -/
def lastRow (logits : OrtTensor Float32) : Option (List Float32) :=
  match logits.dims with
  | [_, positions, vocab] =>
      if positions = 0 ∨ logits.data.length < positions * vocab then none
      else some ((logits.data.drop ((positions - 1) * vocab)).take vocab)
  | _ => none

theorem lastRow_single (row : List Float32) :
    lastRow ⟨[1, 1, row.length], row⟩ = some row := by
  simp [lastRow]

end OrtTensor

/-- The library's tokenizer; its flags add and skip special tokens. -/
structure HrmTokenizer where
  encodeWith : String → Bool → Except String (List Nat)
  decodeWith : List UInt32 → Bool → Except String String

namespace HrmTokenizer

def encode (tokenizer : HrmTokenizer) (text : String)
    (addSpecialTokens : Bool) : Except String (List Nat) :=
  tokenizer.encodeWith text addSpecialTokens

def decode (tokenizer : HrmTokenizer) (ids : List UInt32) :
    Except String String :=
  tokenizer.decodeWith ids true

def decodeSingle (tokenizer : HrmTokenizer) (id : UInt32) :
    Except String String :=
  tokenizer.decode [id]

/-- `decode_single(token as u32).unwrap_or_default()`. -/
def piece (tokenizer : HrmTokenizer) (token : Nat) : String :=
  match tokenizer.decodeSingle token.toUInt32 with
  | .ok piece => piece
  | .error _ => ""

end HrmTokenizer

/-- What a generation meets: the number that each sampling draws, and whether
the receiver is still there at each send. -/
structure GenerationEnv where
  draw : Nat → Float32
  connected : Nat → Bool

inductive EngineEvent where
  /-- The session of the first engine runs on the whole sequence. -/
  | ran (inputIds : List Nat)
  | embedded (ids : List Nat)
  /-- The decoder of the second engine runs on new positions; `total` is the
  length of its attention mask. -/
  | decoded (positionIds : List Nat) (total : Nat) (embeds : List Float32)
  | streamed (token : Nat) (piece : String)

namespace EngineEvent

/-- On how many positions a session runs. -/
def positions : EngineEvent → Nat
  | .ran inputIds => inputIds.length
  | .embedded ids => ids.length
  | .decoded _ total _ => total
  | .streamed _ _ => 0

def sent? : EngineEvent → Option (Nat × String)
  | .streamed token piece => some (token, piece)
  | _ => none

def fed? : EngineEvent → Option (List Nat × List Float32)
  | .decoded positionIds _ embeds => some (positionIds, embeds)
  | _ => none

end EngineEvent

/-- What has been streamed, with the tokens it comes from. -/
def sentOf (events : List EngineEvent) : List (Nat × String) :=
  events.filterMap EngineEvent.sent?

/-- What the decoder has been fed. -/
def fedOf (events : List EngineEvent) : List (List Nat × List Float32) :=
  events.filterMap EngineEvent.fed?

@[simp]
theorem sentOf_append (before after : List EngineEvent) :
    sentOf (before ++ after) = sentOf before ++ sentOf after :=
  List.filterMap_append

@[simp]
theorem fedOf_append (before after : List EngineEvent) :
    fedOf (before ++ after) = fedOf before ++ fedOf after :=
  List.filterMap_append

inductive KvError where
  | length (dataLength expected pastLen : Nat)
  | build (message : String)

inductive EngineError where
  | encode (message : String)
  | emptyInput
  | refusedPrefill (length : Nat) (ctxSize : UInt32) (approxMb : Nat)
  | refusedGeneration (length : Nat) (ctxSize : UInt32)
  | image (message : String)
  | imageShape (dims : List Nat)
  | embedsShape (dims : List Nat)
  | inputTensor (message : String)
  | pastTensor (layer : Nat) (isKey : Bool) (cause : KvError)
  | session (message : String)
  | logitsShape (dims : List Nat)
  | panicked

/-- The cast of a length that a `u32` bounds keeps it. -/
theorem toNat_toUInt32_of_le {n : Nat} {bound : UInt32}
    (within : n ≤ bound.toNat) : n.toUInt32.toNat = n :=
  UInt32.toNat_ofNat_of_lt' (Nat.lt_of_le_of_lt within bound.toNat_lt)

/-- A generation with what can be seen of it. -/
abbrev Generation :=
  Traced EngineEvent EngineError

end TorchInference
