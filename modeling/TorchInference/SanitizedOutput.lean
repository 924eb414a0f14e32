import TorchInference.DecimalRounding
import TorchInference.JsonValue

/-!
# Sanitizing the output of an inference

Members of objects that are not meant for a client are dropped, and numbers are
rounded to decimals as doubles.  This leaves the answer as it is, up to the
rounding, as long as the numbers are not integers, which become doubles, and
their digits leave room for the rounding.  How exact the powers of ten are is
left to a parameter.
-/

namespace TorchInference

open Binary64

/-- The settings of the sanitizer that its output depends on. -/
structure SanitizerOutputConfig where
  roundProbabilities : Bool
  probabilityDecimals : UInt32
  removeNullValues : Bool

namespace JsonNumber

/-- `Number::as_f64`. -/
def asF64 : JsonNumber → Double
  | posInt value => rounded false value.toNat
  | negInt value => rounded (decide (value < 0)) value.toInt.natAbs
  | float bits => .ofBits bits

/-- `Number::from_f64`. -/
def fromF64 : Double → Option JsonNumber
  | .finite negative pattern => some (float (Double.bitsOf negative pattern))
  | _ => none

/-- The number rounded with a factor, if that is finite. -/
def roundWith (factor : Double) (n : JsonNumber) : Option JsonNumber :=
  fromF64 (((n.asF64.mul factor).round).div factor)

end JsonNumber

def JsonValue.isNull : JsonValue → Bool
  | .null => true
  | _ => false

namespace OutputSanitizer

section Model

-- `tenPow` is `10f64.powi`
variable (tenPow : Int32 → Double) (config : SanitizerOutputConfig)

def factor : Double :=
  tenPow (Int32.ofNat config.probabilityDecimals.toNat)

def sanitizeNumber (n : JsonNumber) : JsonNumber :=
  if config.roundProbabilities then
    (n.roundWith (factor tenPow config)).getD n
  else n

/-- Whether the loop over the members of an object goes on without this one. -/
def removes (key : String) (value : JsonValue) : Bool :=
  "_".toList.isPrefixOf key.toList || key == "internal_state" ||
    config.removeNullValues && value.isNull

mutual

/-- `sanitize_output`.  The keys of an object are distinct, so no member
replaces another in the new one. -/
def sanitizeOutput : JsonValue → JsonValue
  | .object entries => .object (sanitizeEntries entries)
  | .array values => .array (sanitizeValues values)
  | .number n => .number (sanitizeNumber tenPow config n)
  | output => output

def sanitizeValues : List JsonValue → List JsonValue
  | [] => []
  | value :: values => sanitizeOutput value :: sanitizeValues values

def sanitizeEntries :
    List (String × JsonValue) → List (String × JsonValue)
  | [] => []
  | (key, value) :: entries =>
      if removes config key value then sanitizeEntries entries
      else (key, sanitizeOutput value) :: sanitizeEntries entries

end

end Model

/-! ## What should be kept -/

/-- The number that bits stand for. -/
def realValue (bits : UInt64) : ℚ :=
  match Double.ofBits bits with
  | .finite negative pattern =>
      if negative then -magnitude pattern else magnitude pattern
  | _ => 0

/-- Integers are left, and other numbers are at most half a unit of the last
decimal away, up to one rounding of a double. -/
def NumberKept (decimals : Nat) : JsonNumber → JsonNumber → Prop
  | .float bits, .float out =>
      |realValue out - realValue bits| ≤
        1 / 2 / 10 ^ decimals +
          max |realValue out| |realValue bits| / 2 ^ 52
  | n, out => out = n

section Answers

variable (config : SanitizerOutputConfig)

/-- Members that are meant to be dropped. -/
def IsRemoved (key : String) (value : JsonValue) : Prop :=
  key.toList.head? = some '_' ∨ key = "internal_state" ∨
    config.removeNullValues = true ∧ value = .null

mutual

/-- The second value has the shape of the first without the members that are
to be dropped, and the same leaves up to the rounding of numbers. -/
def KeepsAnswer : JsonValue → JsonValue → Prop
  | .object entries, .object outs => KeepsMembers entries outs
  | .array values, .array outs => KeepsAll values outs
  | .number n, .number out =>
      NumberKept config.probabilityDecimals.toNat n out
  | value, out => out = value

def KeepsAll : List JsonValue → List JsonValue → Prop
  | [], outs => outs = []
  | value :: values, outs =>
      ∃ out rest, outs = out :: rest ∧ KeepsAnswer value out ∧
        KeepsAll values rest

def KeepsMembers :
    List (String × JsonValue) → List (String × JsonValue) → Prop
  | [], outs => outs = []
  | (key, value) :: entries, outs =>
      IsRemoved config key value ∧ KeepsMembers entries outs ∨
        ¬ IsRemoved config key value ∧
          ∃ out rest, outs = (key, out) :: rest ∧ KeepsAnswer value out ∧
            KeepsMembers entries rest

end

mutual

/-- Something holds of all numbers that are not dropped. -/
def AllNumbers (holds : JsonNumber → Prop) : JsonValue → Prop
  | .object entries => AllNumbersBelow holds entries
  | .array values => AllNumbersIn holds values
  | .number n => holds n
  | _ => True

def AllNumbersIn (holds : JsonNumber → Prop) : List JsonValue → Prop
  | [] => True
  | value :: values => AllNumbers holds value ∧ AllNumbersIn holds values

def AllNumbersBelow (holds : JsonNumber → Prop) :
    List (String × JsonValue) → Prop
  | [] => True
  | (key, value) :: entries =>
      (IsRemoved config key value ∨ AllNumbers holds value) ∧
        AllNumbersBelow holds entries

end

end Answers

/-- The answer is kept, and sanitizing it again changes nothing. -/
structure AnswerKept (tenPow : Int32 → Double) (config : SanitizerOutputConfig)
    (output : JsonValue) : Prop where
  kept : KeepsAnswer config output (sanitizeOutput tenPow config output)
  settled : sanitizeOutput tenPow config
      (sanitizeOutput tenPow config output) =
    sanitizeOutput tenPow config output

/-! ## From values to numbers -/

section Members

variable {tenPow : Int32 → Double} {config : SanitizerOutputConfig}

theorem isNull_iff {value : JsonValue} :
    value.isNull = true ↔ value = .null := by
  cases value <;> simp [JsonValue.isNull]

theorem removes_iff {key : String} {value : JsonValue} :
    removes config key value = true ↔ IsRemoved config key value := by
  have first : "_".toList.isPrefixOf key.toList = true ↔
      key.toList.head? = some '_' := by
    cases key.toList with
    | nil => simp
    | cons c rest =>
        simp
        exact eq_comm
  rw [removes, IsRemoved, Bool.or_eq_true, Bool.or_eq_true, Bool.and_eq_true,
    first, beq_iff_eq, isNull_iff, or_assoc]

instance (key : String) (value : JsonValue) :
    Decidable (IsRemoved config key value) :=
  decidable_of_iff _ removes_iff

@[simp]
theorem isNull_sanitizeOutput (value : JsonValue) :
    (sanitizeOutput tenPow config value).isNull = value.isNull := by
  cases value <;> rfl

theorem removes_sanitizeOutput (key : String) (value : JsonValue) :
    removes config key (sanitizeOutput tenPow config value) =
      removes config key value := by
  rw [removes, removes, isNull_sanitizeOutput]

theorem sanitizeEntries_cons (key : String) (value : JsonValue)
    (entries : List (String × JsonValue)) :
    sanitizeEntries tenPow config ((key, value) :: entries) =
      if IsRemoved config key value then sanitizeEntries tenPow config entries
      else (key, sanitizeOutput tenPow config value) ::
        sanitizeEntries tenPow config entries := by
  rw [sanitizeEntries]
  simp only [removes_iff]

/-- The shape is always kept; the answer is kept if its numbers are. -/
theorem keepsAnswer_iff (output : JsonValue) :
    KeepsAnswer config output (sanitizeOutput tenPow config output) ↔
      AllNumbers config (fun n => NumberKept config.probabilityDecimals.toNat n
        (sanitizeNumber tenPow config n)) output := by
  induction output using JsonValue.memberInduction with
  | null | bool value | string text => exact iff_of_true rfl trivial
  | number n => exact Iff.rfl
  | array values ih =>
      simp only [KeepsAnswer, sanitizeOutput, AllNumbers]
      induction values with
      | nil => exact iff_of_true rfl trivial
      | cons value values each =>
          obtain ⟨first, rest⟩ := List.forall_mem_cons.mp ih
          simp only [KeepsAll, sanitizeValues, AllNumbersIn, ← each rest, ← first]
          constructor
          · rintro ⟨out, others, isCons, kept, keeps⟩
            cases isCons
            exact ⟨kept, keeps⟩
          · rintro ⟨kept, keeps⟩
            exact ⟨_, _, rfl, kept, keeps⟩
  | object entries ih =>
      simp only [KeepsAnswer, sanitizeOutput, AllNumbers]
      induction entries with
      | nil => exact iff_of_true rfl trivial
      | cons entry entries each =>
          obtain ⟨first, rest⟩ := List.forall_mem_cons.mp ih
          rw [KeepsMembers, sanitizeEntries_cons, AllNumbersBelow, ← each rest,
            ← first]
          by_cases removed : IsRemoved config entry.1 entry.2
          · rw [if_pos removed]
            simp only [removed, true_and, not_true_eq_false, false_and, or_false,
              true_or]
          · rw [if_neg removed]
            simp only [removed, false_and, false_or, not_false_eq_true, true_and]
            constructor
            · rintro ⟨out, others, isCons, kept, keeps⟩
              cases isCons
              exact ⟨kept, keeps⟩
            · rintro ⟨kept, keeps⟩
              exact ⟨_, _, rfl, kept, keeps⟩

/-- Sanitizing again changes nothing if it does not change the numbers. -/
theorem settled_iff (output : JsonValue) :
    sanitizeOutput tenPow config (sanitizeOutput tenPow config output) =
        sanitizeOutput tenPow config output ↔
      AllNumbers config (fun n =>
        sanitizeNumber tenPow config (sanitizeNumber tenPow config n) =
          sanitizeNumber tenPow config n) output := by
  induction output using JsonValue.memberInduction with
  | null | bool value | string text => exact iff_of_true rfl trivial
  | number n => simp only [sanitizeOutput, AllNumbers, JsonValue.number.injEq]
  | array values ih =>
      simp only [sanitizeOutput, AllNumbers, JsonValue.array.injEq]
      induction values with
      | nil => exact iff_of_true rfl trivial
      | cons value values each =>
          obtain ⟨first, rest⟩ := List.forall_mem_cons.mp ih
          simp only [sanitizeValues, AllNumbersIn, List.cons.injEq, ← each rest,
            ← first]
  | object entries ih =>
      simp only [sanitizeOutput, AllNumbers, JsonValue.object.injEq]
      induction entries with
      | nil => exact iff_of_true rfl trivial
      | cons entry entries each =>
          obtain ⟨first, rest⟩ := List.forall_mem_cons.mp ih
          rw [sanitizeEntries_cons, AllNumbersBelow, ← each rest, ← first]
          by_cases removed : IsRemoved config entry.1 entry.2
          · rw [if_pos removed]
            simp only [removed, true_or, true_and]
          · have stays : ¬ IsRemoved config entry.1
                (sanitizeOutput tenPow config entry.2) := by
              rwa [← removes_iff, removes_sanitizeOutput, removes_iff]
            rw [if_neg removed, sanitizeEntries_cons, if_neg stays]
            simp only [removed, false_or, List.cons.injEq, Prod.mk.injEq,
              true_and]

section Numbers

variable {first second : JsonNumber → Prop}

theorem allNumbersIn_iff {values : List JsonValue} :
    AllNumbersIn config first values ↔
      ∀ value ∈ values, AllNumbers config first value := by
  induction values with
  | nil => simp [AllNumbersIn]
  | cons value values ih => simp [AllNumbersIn, ih]

theorem allNumbersBelow_iff {entries : List (String × JsonValue)} :
    AllNumbersBelow config first entries ↔
      ∀ entry ∈ entries, IsRemoved config entry.1 entry.2 ∨
        AllNumbers config first entry.2 := by
  induction entries with
  | nil => simp [AllNumbersBelow]
  | cons entry entries ih => simp [AllNumbersBelow, ih]

theorem AllNumbers.imp (implies : ∀ n, first n → second n)
    {output : JsonValue} :
    AllNumbers config first output → AllNumbers config second output := by
  induction output using JsonValue.memberInduction with
  | null | bool value | string text => exact id
  | number n => exact implies n
  | array values ih =>
      simp only [AllNumbers, allNumbersIn_iff]
      exact fun all value mem => ih value mem (all value mem)
  | object entries ih =>
      simp only [AllNumbers, allNumbersBelow_iff]
      exact fun all entry mem => (all entry mem).imp_right (ih entry mem)

theorem allNumbers_and (output : JsonValue) :
    AllNumbers config (fun n => first n ∧ second n) output ↔
      AllNumbers config first output ∧ AllNumbers config second output := by
  induction output using JsonValue.memberInduction with
  | null | bool value | string text => simp only [AllNumbers, and_self]
  | number n => exact Iff.rfl
  | array values ih =>
      simp only [AllNumbers, allNumbersIn_iff, ← forall₂_and]
      exact forall₂_congr ih
  | object entries ih =>
      simp only [AllNumbers, allNumbersBelow_iff, ← forall₂_and, ← or_and_left]
      exact forall₂_congr fun entry mem => or_congr_right (ih entry mem)

end Numbers

/-- The answer is kept exactly when each number is, and stays. -/
theorem answerKept_iff (output : JsonValue) :
    AnswerKept tenPow config output ↔
      AllNumbers config (fun n =>
        NumberKept config.probabilityDecimals.toNat n
            (sanitizeNumber tenPow config n) ∧
          sanitizeNumber tenPow config (sanitizeNumber tenPow config n) =
            sanitizeNumber tenPow config n) output := by
  rw [allNumbers_and, ← keepsAnswer_iff, ← settled_iff]
  exact ⟨fun kept => ⟨kept.kept, kept.settled⟩, fun kept => ⟨kept.1, kept.2⟩⟩

end Members

end OutputSanitizer

end TorchInference
