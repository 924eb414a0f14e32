import Mathlib.Algebra.GroupWithZero.Nat
import Mathlib.Data.List.Basic

/-!
# JSON values

The values of `serde_json`: a number is a non-negative integer, a negative
integer or a binary64 float, and an object lists its entries.
-/

namespace TorchInference

inductive JsonNumber where
  | posInt (value : UInt64)
  | negInt (value : Int64)
  /-- The bits of a finite binary64 number. -/
  | float (bits : UInt64)
  deriving DecidableEq

inductive JsonValue where
  | null
  | bool (value : Bool)
  | number (value : JsonNumber)
  | string (value : String)
  | array (values : List JsonValue)
  | object (entries : List (String × JsonValue))

namespace JsonValue

/-- The value of an object under a key. -/
def field (key : String) : JsonValue → Option JsonValue
  | .object entries => entries.lookup key
  | _ => none

/-- The value of an array at an index. -/
def item (index : Nat) : JsonValue → Option JsonValue
  | .array values => values[index]?
  | _ => none

def asStr : JsonValue → Option String
  | .string value => some value
  | _ => none

/-- What holds of a value when it holds of its members holds of every value. -/
theorem memberInduction {motive : JsonValue → Prop}
    (null : motive .null) (bool : ∀ value, motive (.bool value))
    (number : ∀ value, motive (.number value))
    (string : ∀ value, motive (.string value))
    (array : ∀ values, (∀ value ∈ values, motive value) →
      motive (.array values))
    (object : ∀ entries, (∀ entry ∈ entries, motive entry.2) →
      motive (.object entries)) (value : JsonValue) : motive value := by
  refine @JsonValue.rec motive (fun values => ∀ value ∈ values, motive value)
    (fun entries => ∀ entry ∈ entries, motive entry.2)
    (fun entry => motive entry.2) null bool number string array object
    ?_ ?_ ?_ ?_ ?_ value
  · exact fun _ mem => absurd mem List.not_mem_nil
  · exact fun _ _ first rest => List.forall_mem_cons.mpr ⟨first, rest⟩
  · exact fun _ mem => absurd mem List.not_mem_nil
  · exact fun _ _ first rest => List.forall_mem_cons.mpr ⟨first, rest⟩
  · exact fun _ _ holds => holds

end JsonValue

end TorchInference
