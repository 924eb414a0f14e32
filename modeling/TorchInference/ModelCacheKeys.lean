import TorchInference.DelimitedText
import TorchInference.LossyUtf8

/-!
# The keys of the model cache

The key of a request is the hash of its three fields with a NUL between each
two.  The input and the parameters are any bytes, so a NUL may also stand
within a field, and then the fields of another request come to the same bytes.
-/

namespace TorchInference

/-- What a result is remembered for. -/
structure CacheRequest where
  modelId : String
  input : List UInt8
  params : List UInt8
  deriving DecidableEq

namespace ModelCache

def fnvOffset : UInt64 := 14695981039346656037

def fnvPrime : UInt64 := 1099511628211

def mixByte (h : UInt64) (b : UInt8) : UInt64 :=
  (h ^^^ b.toUInt64) * fnvPrime

def fnv1a (data : List UInt8) : UInt64 :=
  data.foldl mixByte fnvOffset

def cacheKey (modelId : String) (input params : List UInt8) : UInt64 :=
  let h := fnv1a modelId.toUTF8.toList
  let h := (h ^^^ 0) * fnvPrime
  let h := input.foldl mixByte h
  let h := (h ^^^ 0) * fnvPrime
  params.foldl mixByte h

end ModelCache

namespace CacheRequest

open ModelCache

def key (request : CacheRequest) : UInt64 :=
  cacheKey request.modelId request.input request.params

/-- The bytes that are folded into the key. -/
def keyBytes (request : CacheRequest) : List UInt8 :=
  LossyUtf8.encode request.modelId.toList ++
    0 :: (request.input ++ 0 :: request.params)

/-- No field contains the separator. -/
def NulFree (request : CacheRequest) : Prop :=
  '\x00' ∉ request.modelId.toList ∧ 0 ∉ request.input ∧ 0 ∉ request.params

instance (request : CacheRequest) : Decidable request.NulFree :=
  inferInstanceAs (Decidable (_ ∧ _ ∧ _))

/-- The key is the hash of the bytes, one after another. -/
theorem key_eq (request : CacheRequest) :
    request.key = fnv1a request.keyBytes := by
  simp only [key, cacheKey, fnv1a, keyBytes, LossyUtf8.toList_toUTF8,
    List.foldl_append, List.foldl_cons]
  rfl

variable {request other : CacheRequest}

theorem eq_of_keyBytes_eq (free : request.NulFree)
    (same : other.keyBytes = request.keyBytes) : other = request := by
  obtain ⟨freeModel, freeInput, freeParams⟩ := free
  obtain ⟨sameModel, sameInput, sameParams⟩ := DelimitedText.pieces_inj
    (LossyUtf8.zero_not_mem_encode freeModel) freeInput freeParams same
  have sameId : other.modelId = request.modelId :=
    String.toList_injective (LossyUtf8.encode_injective sameModel)
  cases other
  cases request
  simp_all

/-- A field that contains the separator is cut there, and the next separator
goes into the field behind it. -/
theorem exists_keyBytes_eq (notFree : ¬request.NulFree) :
    ∃ other, other ≠ request ∧ other.keyBytes = request.keyBytes := by
  by_cases inModel : '\x00' ∈ request.modelId.toList
  · obtain ⟨before, after, split⟩ := List.append_of_mem inModel
    have bytes : LossyUtf8.encode request.modelId.toList =
        LossyUtf8.encode before ++ 0 :: LossyUtf8.encode after := by
      rw [split, LossyUtf8.encode, List.flatMap_append, List.flatMap_cons]
      rfl
    refine ⟨⟨String.ofList before, LossyUtf8.encode after,
      request.input ++ 0 :: request.params⟩, ?_, ?_⟩
    · intro same
      have shorter := congrArg (List.length ∘ String.toList ∘ modelId) same
      simp [split] at shorter
    · simp [keyBytes, bytes]
  by_cases inInput : 0 ∈ request.input
  · obtain ⟨before, after, split⟩ := List.append_of_mem inInput
    refine ⟨⟨request.modelId, before, after ++ 0 :: request.params⟩, ?_, ?_⟩
    · intro same
      have shorter := congrArg (List.length ∘ CacheRequest.input) same
      simp [split] at shorter
    · simp [keyBytes, split]
  · have inParams : 0 ∈ request.params := by
      by_contra outside
      exact notFree ⟨inModel, inInput, outside⟩
    obtain ⟨before, after, split⟩ := List.append_of_mem inParams
    refine ⟨⟨request.modelId, request.input ++ 0 :: before, after⟩, ?_, ?_⟩
    · intro same
      have longer := congrArg (List.length ∘ CacheRequest.input) same
      simp at longer
    · simp [keyBytes, split]

/-- A key is the hash of bytes that no other request comes to exactly if no
field of the request contains the separator. -/
theorem keyBytes_apart_iff_nulFree (request : CacheRequest) :
    request.key = fnv1a request.keyBytes ∧
      ((∀ other, other ≠ request → other.keyBytes ≠ request.keyBytes) ↔
        request.NulFree) := by
  refine ⟨request.key_eq, ?_, ?_⟩
  · intro apart
    by_contra notFree
    obtain ⟨other, different, same⟩ := exists_keyBytes_eq notFree
    exact apart other different same
  · exact fun free other different same =>
      different (eq_of_keyBytes_eq free same)

/-- A zero byte at the end of the input, or at the beginning of the
parameters. -/
theorem shiftedZero_sameKey :
    (⟨"m", [0], []⟩ : CacheRequest) ≠ ⟨"m", [], [0]⟩ ∧
      (⟨"m", [0], []⟩ : CacheRequest).keyBytes =
        (⟨"m", [], [0]⟩ : CacheRequest).keyBytes ∧
      cacheKey "m" [0] [] = cacheKey "m" [] [0] :=
  ⟨by decide, rfl, (key_eq ⟨"m", [0], []⟩).trans (key_eq ⟨"m", [], [0]⟩).symm⟩

end CacheRequest

end TorchInference
