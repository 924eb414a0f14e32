import Mathlib.Algebra.Order.Archimedean.Basic
import Mathlib.Algebra.Order.Field.Basic
import Mathlib.Algebra.Order.Field.Rat
import Mathlib.Data.Rat.Floor

/-!
# Post-processing of audio

Samples that do not reach the threshold are cut off at both ends, up to a
padding; the mean of the rest is taken out and the rest is scaled to the target
peak.  The samples are exact rationals here, and their numerals in messages are
printed by a parameter.
-/

namespace TorchInference

structure AudioPostprocessConfig where
  enabled : Bool
  targetPeak : ℚ
  silenceThreshold : ℚ
  padMs : UInt32

def AudioPostprocessConfig.default : AudioPostprocessConfig :=
  ⟨true, 95 / 100, 1 / 100, 50⟩

structure AudioPostprocessResult where
  samples : List ℚ
  steps : List String
  warnings : List String

/-- How numbers are printed, also with a given number of decimals. -/
structure NumberFormat where
  display : ℚ → String
  fixed : Nat → ℚ → String

namespace AudioPostprocess

section Positions

variable {Sample : Type*}

/-- `Iterator::rposition`. -/
def rposition (found : Sample → Bool) (samples : List Sample) : Option Nat :=
  (samples.reverse.findIdx? found).map fun back => samples.length - 1 - back

/-- `samples[start..stop]`, which panics out of range. -/
def slice (samples : List Sample) (start stop : Nat) : Option (List Sample) :=
  if start ≤ stop ∧ stop ≤ samples.length then
    some ((samples.take stop).drop start)
  else none

end Positions

/-- The padding in samples; `as usize` rounds down. -/
def padSamples (config : AudioPostprocessConfig) (sampleRate : UInt32) : Nat :=
  ⌊(config.padMs.toNat / 1000 * sampleRate.toNat : ℚ)⌋₊

def mean (samples : List ℚ) : ℚ :=
  samples.sum / samples.length

def removesOffset (samples : List ℚ) : Bool :=
  decide (1 / 1000 < |mean samples|)

/-- The first stage on the trimmed samples. -/
def removeOffset (samples : List ℚ) : List ℚ :=
  if removesOffset samples then samples.map fun s => s - mean samples
  else samples

def peak (samples : List ℚ) : ℚ :=
  (samples.map fun s => |s|).foldl max 0

/-- The second stage. -/
def normalize (targetPeak : ℚ) (samples : List ℚ) : List ℚ :=
  if 0 < peak samples then samples.map fun s => s * (targetPeak / peak samples)
  else samples

/-- What is left to do with the trimmed samples. -/
def finish (format : NumberFormat) (config : AudioPostprocessConfig)
    (hadClipping : Bool) (trimmed : List ℚ) : AudioPostprocessResult where
  samples := normalize config.targetPeak (removeOffset trimmed)
  steps := ["dc_offset",
    s!"normalize:{format.display config.targetPeak}",
    s!"trim:pad={config.padMs}ms"]
  warnings :=
    (if removesOffset trimmed then
      [s!"dc_offset_removed:{format.fixed 4 (mean trimmed)}"] else []) ++
    (if hadClipping then ["clipping_detected"] else []) ++
    (if 0 < peak (removeOffset trimmed) then [] else ["zero_peak_after_dc"])

/-- `process`; `none` stands for a panic.  The bounds of the slice do not
overflow, see `padSamples_lt`. -/
def process (format : NumberFormat) (samples : List ℚ) (sampleRate : UInt32)
    (config : AudioPostprocessConfig) : Option AudioPostprocessResult :=
  if !config.enabled || samples.isEmpty then some ⟨samples, [], []⟩
  else
    let hadClipping := samples.any fun s => decide (1 < |s|)
    let loud := fun s : ℚ => decide (config.silenceThreshold ≤ |s|)
    let pad := padSamples config sampleRate
    match samples.findIdx? loud, rposition loud samples with
    | some start, some last =>
        (slice samples (start - pad)
          (min (last + 1 + pad) samples.length)).map
          (finish format config hadClipping)
    | _, _ => some ⟨samples, [], ["all_silence"]⟩

/-- A slice of fewer than `2 ^ 61` samples of four bytes is bounded within
64 bits. -/
theorem padSamples_lt (config : AudioPostprocessConfig) (sampleRate : UInt32) :
    padSamples config sampleRate < 2 ^ 55 := by
  have pad : config.padMs.toNat ≤ 2 ^ 32 - 1 :=
    Nat.le_pred_of_lt config.padMs.toNat_lt
  have rate : sampleRate.toNat ≤ 2 ^ 32 - 1 :=
    Nat.le_pred_of_lt sampleRate.toNat_lt
  rw [padSamples, Nat.floor_lt (by positivity), div_mul_eq_mul_div,
    div_lt_iff₀ (by norm_num)]
  have product := Nat.mul_le_mul pad rate
  norm_num at product ⊢
  exact_mod_cast lt_of_le_of_lt product (by norm_num)

/-! ## What is kept -/

section Kept

variable {Sample : Type*} {found : Sample → Bool} {samples : List Sample}
  {start last : Nat}

/-- The slice holds everything that is loud, and at most `pad` quiet samples at
either end. -/
def KeepsLoud (loud : Sample → Prop) (pad : Nat) (samples kept : List Sample) :
    Prop :=
  ∃ before lead core tail after,
    samples = before ++ kept ++ after ∧ kept = lead ++ core ++ tail ∧
      lead.length ≤ pad ∧ tail.length ≤ pad ∧
      (∃ first ∈ core.head?, loud first) ∧ (∃ final ∈ core.getLast?, loud final) ∧
      ∀ quiet ∈ before ++ lead ++ tail ++ after, ¬ loud quiet

theorem split_of_findIdx? (position : samples.findIdx? found = some start) :
    ∃ front first rest, samples = front ++ first :: rest ∧
      front.length = start ∧ found first = true ∧
      ∀ quiet ∈ front, found quiet = false := by
  induction samples generalizing start with
  | nil => cases position
  | cons sample samples ih =>
      rw [List.findIdx?_cons] at position
      cases isFound : found sample with
      | true =>
          rw [if_pos isFound] at position
          cases position
          exact ⟨[], sample, samples, rfl, rfl, isFound, by simp⟩
      | false =>
          rw [isFound, if_neg Bool.false_ne_true] at position
          obtain ⟨back, isBack, rfl⟩ := Option.map_eq_some_iff.mp position
          obtain ⟨front, first, rest, rfl, rfl, isFirst, quiet⟩ := ih isBack
          exact ⟨sample :: front, first, rest, rfl, rfl, isFirst,
            List.forall_mem_cons.mpr ⟨isFound, quiet⟩⟩

theorem split_of_rposition (position : rposition found samples = some last) :
    ∃ ahead final back, samples = ahead ++ final :: back ∧
      ahead.length = last ∧ found final = true ∧
      ∀ quiet ∈ back, found quiet = false := by
  obtain ⟨start, isStart, rfl⟩ := Option.map_eq_some_iff.mp position
  obtain ⟨front, final, rest, reversed, rfl, isFinal, quiet⟩ :=
    split_of_findIdx? isStart
  have samplesEq := congrArg List.reverse reversed
  rw [List.reverse_reverse, List.reverse_append, List.reverse_cons,
    List.append_assoc, List.singleton_append] at samplesEq
  refine ⟨rest.reverse, final, front.reverse, samplesEq, ?_, isFinal, ?_⟩
  · rw [samplesEq]
    simp only [List.length_append, List.length_reverse, List.length_cons]
    omega
  · exact fun sample isQuiet => quiet sample (List.mem_reverse.mp isQuiet)

/-- A span from something that is found to something that is found, with nothing
to find around it. -/
structure IsSpan (found : Sample → Bool) (front core back : List Sample) :
    Prop where
  first : ∃ sample ∈ core.head?, found sample = true
  final : ∃ sample ∈ core.getLast?, found sample = true
  front_quiet : ∀ quiet ∈ front, found quiet = false
  back_quiet : ∀ quiet ∈ back, found quiet = false

theorem isSpan_of_ends {front inner back : List Sample} {one other : Sample}
    {rest : List Sample} (isOne : found one = true)
    (isOther : found other = true) (restEq : one :: rest = inner ++ other :: back)
    (quietFront : ∀ quiet ∈ front, found quiet = false)
    (quietBack : ∀ quiet ∈ back, found quiet = false) :
    IsSpan found front (inner ++ [other]) back := by
  refine ⟨⟨one, ?_, isOne⟩, ⟨other, by simp, isOther⟩, quietFront, quietBack⟩
  cases inner with
  | nil => exact congrArg List.head? restEq.symm
  | cons sample inner => exact congrArg List.head? restEq.symm

/-- The first and the last sample that are found bound a span. -/
theorem exists_span (first : samples.findIdx? found = some start)
    (final : rposition found samples = some last) :
    ∃ front core back, samples = front ++ core ++ back ∧
      front.length = start ∧ start + core.length = last + 1 ∧
      IsSpan found front core back := by
  obtain ⟨front, one, rest, rfl, rfl, isOne, quietFront⟩ :=
    split_of_findIdx? first
  obtain ⟨ahead, other, back, agrees, rfl, isOther, quietBack⟩ :=
    split_of_rposition final
  have reaches : ∃ inner, ahead = front ++ inner ∧
      one :: rest = inner ++ other :: back := by
    rcases List.append_eq_append_iff.mp agrees with
      ⟨inner, aheadEq, restEq⟩ | ⟨overlap, frontEq, otherEq⟩
    · exact ⟨inner, aheadEq, restEq⟩
    · cases overlap with
      | nil =>
          rw [List.append_nil] at frontEq
          exact ⟨[], by rw [frontEq, List.append_nil], otherEq.symm⟩
      | cons sample overlap =>
          -- the last sample that is found would stand before the first
          obtain ⟨rfl, -⟩ := List.cons_eq_cons.mp otherEq
          have quiet := quietFront other (by simp [frontEq])
          rw [isOther] at quiet
          cases quiet
  obtain ⟨inner, rfl, restEq⟩ := reaches
  refine ⟨front, inner ++ [other], back, ?_, rfl, ?_,
    isSpan_of_ends isOne isOther restEq quietFront quietBack⟩
  · simp [restEq]
  · simp [Nat.add_assoc]

theorem slice_span (front core back : List Sample) (pad : Nat) :
    slice (front ++ core ++ back) (front.length - pad)
        (min (front.length + core.length + pad)
          (front ++ core ++ back).length) =
      some (front.drop (front.length - pad) ++ core ++ back.take pad) := by
  have stop : min (front.length + core.length + pad)
      (front ++ core ++ back).length =
        (front ++ core).length + min pad back.length := by
    simp only [List.length_append]
    omega
  rw [stop, slice, if_pos (by simp only [List.length_append]; omega),
    List.take_length_add_append, List.append_assoc, List.append_assoc,
    List.drop_append_of_le_length (Nat.sub_le ..), ← List.take_eq_take_min]

/-- The trimming does not leave the samples and keeps what is loud. -/
theorem exists_slice (first : samples.findIdx? found = some start)
    (final : rposition found samples = some last) (pad : Nat) :
    ∃ kept, slice samples (start - pad)
        (min (last + 1 + pad) samples.length) = some kept ∧
      KeepsLoud (fun sample => found sample = true) pad samples kept := by
  obtain ⟨front, core, back, rfl, rfl, stop, isSpan⟩ := exists_span first final
  rw [← stop]
  refine ⟨_, slice_span front core back pad, front.take (front.length - pad),
    front.drop (front.length - pad), core, back.take pad, back.drop pad, ?_, rfl,
    ?_, List.length_take_le .., isSpan.first, isSpan.final, ?_⟩
  · simp only [← List.append_assoc, List.take_append_drop]
    rw [List.append_assoc _ (back.take pad), List.take_append_drop]
  · rw [List.length_drop]
    omega
  · intro quiet isQuiet
    rw [List.take_append_drop, List.append_assoc, List.take_append_drop,
      List.mem_append] at isQuiet
    rw [Bool.not_eq_true]
    exact isQuiet.elim (isSpan.front_quiet quiet) (isSpan.back_quiet quiet)

theorem exists_positions (found : Sample → Bool)
    (isFound : ∃ sample ∈ samples, found sample = true) :
    (∃ start, samples.findIdx? found = some start) ∧
      ∃ last, rposition found samples = some last := by
  obtain ⟨sample, mem, holds⟩ := isFound
  constructor
  · exact Option.isSome_iff_exists.mp
      (by rw [List.findIdx?_isSome]; exact List.any_eq_true.mpr ⟨_, mem, holds⟩)
  · obtain ⟨back, isBack⟩ := Option.isSome_iff_exists.mp
      (show (samples.reverse.findIdx? found).isSome = true by
        rw [List.findIdx?_isSome, List.any_reverse]
        exact List.any_eq_true.mpr ⟨_, mem, holds⟩)
    exact ⟨_, Option.map_eq_some_iff.mpr ⟨back, isBack, rfl⟩⟩

end Kept

/-! ## What is made of it -/

section Levels

variable {samples : List ℚ} {targetPeak : ℚ}

/-- The largest absolute value. -/
def HasPeak (samples : List ℚ) (targetPeak : ℚ) : Prop :=
  (∃ s ∈ samples, |s| = targetPeak) ∧ ∀ s ∈ samples, |s| ≤ targetPeak

theorem peak_spec (samples : List ℚ) :
    peak samples ∈ 0 :: samples.map (fun s => |s|) ∧
      ∀ level ∈ 0 :: samples.map (fun s => |s|), level ≤ peak samples :=
  List.max?_eq_some_iff.mp rfl

theorem abs_le_peak {s : ℚ} (mem : s ∈ samples) : |s| ≤ peak samples :=
  (peak_spec samples).2 _
    (List.mem_cons_of_mem 0 (List.mem_map.mpr ⟨s, mem, rfl⟩))

theorem hasPeak_peak (positive : 0 < peak samples) :
    HasPeak samples (peak samples) := by
  refine ⟨?_, fun s => abs_le_peak⟩
  rcases List.mem_cons.mp (peak_spec samples).1 with isZero | isLevel
  · exact absurd isZero positive.ne'
  · exact List.mem_map.mp isLevel

theorem HasPeak.scale {level c : ℚ} (hasPeak : HasPeak samples level)
    (positive : 0 < c) :
    HasPeak (samples.map fun s => s * c) (level * c) := by
  obtain ⟨⟨s, mem, rfl⟩, atMost⟩ := hasPeak
  refine ⟨⟨s * c, List.mem_map.mpr ⟨s, mem, rfl⟩, ?_⟩, ?_⟩
  · rw [abs_mul, abs_of_pos positive]
  · intro scaled isScaled
    obtain ⟨t, isSample, rfl⟩ := List.mem_map.mp isScaled
    rw [abs_mul, abs_of_pos positive]
    exact mul_le_mul_of_nonneg_right (atMost t isSample) positive.le

theorem exists_removeOffset (samples : List ℚ) :
    ∃ m, removeOffset samples = samples.map fun s => s - m := by
  rw [removeOffset]
  split
  · exact ⟨mean samples, rfl⟩
  · exact ⟨0, by simp⟩

theorem exists_normalize (target : 0 < targetPeak) (samples : List ℚ) :
    ∃ c, 0 < c ∧
      normalize targetPeak samples = samples.map (fun s => s * c) ∧
      ((∀ s ∈ normalize targetPeak samples, s = 0) ∨
        HasPeak (normalize targetPeak samples) targetPeak) := by
  rw [normalize]
  split
  · rename_i positive
    refine ⟨targetPeak / peak samples, div_pos target positive, rfl, Or.inr ?_⟩
    have scaled := (hasPeak_peak positive).scale (div_pos target positive)
    rwa [mul_div_cancel₀ targetPeak positive.ne'] at scaled
  · rename_i notPositive
    refine ⟨1, one_pos, by simp, Or.inl fun s mem => ?_⟩
    exact abs_nonpos_iff.mp ((abs_le_peak mem).trans (not_lt.mp notPositive))

end Levels

/-- What is expected of the result: silence is returned as it is, and anything
else trimmed, shifted and scaled. -/
structure Cleans (config : AudioPostprocessConfig) (sampleRate : UInt32)
    (samples : List ℚ) (result : AudioPostprocessResult) : Prop where
  silent : (∀ s ∈ samples, |s| < config.silenceThreshold) →
    result.samples = samples ∧ result.warnings = ["all_silence"]
  loud : (∃ s ∈ samples, config.silenceThreshold ≤ |s|) →
    ∃ kept, KeepsLoud (fun s => config.silenceThreshold ≤ |s|)
        (padSamples config sampleRate) samples kept ∧
      (∃ c m, 0 < c ∧ result.samples = kept.map fun s => c * (s - m)) ∧
      ((∀ s ∈ result.samples, s = 0) ∨
        HasPeak result.samples config.targetPeak)

section Result

variable {config : AudioPostprocessConfig} {samples : List ℚ}

theorem exists_finish (target : 0 < config.targetPeak) (format : NumberFormat)
    (hadClipping : Bool) (trimmed : List ℚ) :
    (∃ c m, 0 < c ∧ (finish format config hadClipping trimmed).samples =
        trimmed.map fun s => c * (s - m)) ∧
      ((∀ s ∈ (finish format config hadClipping trimmed).samples, s = 0) ∨
        HasPeak (finish format config hadClipping trimmed).samples
          config.targetPeak) := by
  obtain ⟨m, offset⟩ := exists_removeOffset trimmed
  obtain ⟨c, positive, scales, hasPeak⟩ :=
    exists_normalize target (removeOffset trimmed)
  refine ⟨⟨c, m, positive, ?_⟩, hasPeak⟩
  rw [finish, scales, offset, List.map_map]
  exact List.map_congr_left fun s _ => mul_comm (s - m) c

/-- Enabled post-processing returns without a panic, with what is expected. -/
theorem process_cleans (enabled : config.enabled = true)
    (target : 0 < config.targetPeak) (nonempty : samples ≠ [])
    (format : NumberFormat) (sampleRate : UInt32) :
    ∃ result, process format samples sampleRate config = some result ∧
      Cleans config sampleRate samples result := by
  have notEmpty : samples.isEmpty = false := List.isEmpty_eq_false_iff.mpr nonempty
  by_cases someLoud : ∃ s ∈ samples, config.silenceThreshold ≤ |s|
  · obtain ⟨⟨start, isStart⟩, last, isLast⟩ := exists_positions
      (fun s => decide (config.silenceThreshold ≤ |s|))
      (by simpa only [decide_eq_true_eq] using someLoud)
    obtain ⟨kept, isKept, keepsLoud⟩ :=
      exists_slice isStart isLast (padSamples config sampleRate)
    refine ⟨finish format config (samples.any fun s => decide (1 < |s|)) kept,
      ?_, ?_, fun _ => ⟨kept, ?_, exists_finish target format _ kept⟩⟩
    · simp only [process, enabled, notEmpty, isStart, isLast, isKept]
      rfl
    · intro silent
      obtain ⟨s, mem, loud⟩ := someLoud
      exact absurd loud (not_le.mpr (silent s mem))
    · simpa only [decide_eq_true_eq] using keepsLoud
  · have quiet : samples.findIdx?
        (fun s => decide (config.silenceThreshold ≤ |s|)) = none := by
      rw [List.findIdx?_eq_none_iff]
      exact fun s mem => decide_eq_false fun loud => someLoud ⟨s, mem, loud⟩
    refine ⟨⟨samples, [], ["all_silence"]⟩, ?_, fun _ => ⟨rfl, rfl⟩,
      fun loud => absurd loud someLoud⟩
    simp only [process, enabled, notEmpty, quiet]
    rfl

end Result

/-- Numbers printed as rationals. -/
def plainFormat : NumberFormat := ⟨toString, fun _ => toString⟩

theorem oneLoudSample_cleans :
    ∃ result, process plainFormat [0, 1 / 2, 0] 16000 .default = some result ∧
      Cleans .default 16000 [0, 1 / 2, 0] result :=
  process_cleans rfl (by norm_num [AudioPostprocessConfig.default])
    (by simp) plainFormat 16000

end AudioPostprocess

end TorchInference
