import Mathlib.Algebra.Order.Floor.Ring
import Mathlib.Data.Rat.Floor
import Mathlib.Tactic.Linarith
import TorchInference.TranscriptionWindow

/-!
# Saving and loading WAV files

A file is saved with 16-bit samples and loaded with its samples as 32-bit
integers, which are divided by the largest 32-bit integer.  The samples are
exact rationals here.  The reader and the writer of WAV files and the decoder
of the other formats are libraries.
-/

namespace TorchInference

/-- `AudioData`, over exact rationals. -/
structure ExactAudio where
  samples : List ℚ
  sampleRate : UInt32
  channels : UInt16

inductive AudioFormat where
  | wav
  | mp3
  | flac
  | ogg
  deriving DecidableEq

inductive SampleFormat where
  | float
  | int
  deriving DecidableEq

structure WavSpec where
  channels : UInt16
  sampleRate : UInt32
  bitsPerSample : UInt16
  sampleFormat : SampleFormat
  deriving DecidableEq

/-- The library for WAV files: what its writer makes of 16-bit samples, and
what its reader sees in the bytes of a file.  The duration is that of one
channel. -/
structure WavLibrary where
  write : WavSpec → List Int → Except String (List UInt8)
  spec : List UInt8 → Except String WavSpec
  duration : List UInt8 → UInt32
  floatSamples : List UInt8 → Except String (List ℚ)
  intSamples : List UInt8 → Except String (List Int)

/-- The decoder of the other formats: its probe of a file, and its samples. -/
structure OtherFormats where
  probe : AudioFormat → List UInt8 → Except String Unit
  decode : List UInt8 → Except String ExactAudio

structure AudioProcessor where
  wav : WavLibrary
  other : OtherFormats
  maxDurationSecs : UInt32

/-- The range of a sample. -/
def clampUnit (sample : ℚ) : ℚ :=
  max (-1) (min 1 sample)

/-- A cast to an integer, which rounds towards zero. -/
def truncate (value : ℚ) : Int :=
  if 0 ≤ value then ⌊value⌋ else ⌈value⌉

/-- A cast `as i16`, which saturates. -/
def toI16 (value : ℚ) : Int :=
  max (-32768) (min 32767 (truncate value))

namespace AudioProcessor

/-- `save_wav` writes each sample as this integer. -/
def sampleI16 (sample : ℚ) : Int :=
  toI16 (clampUnit sample * 32767)

def saveSpec (audio : ExactAudio) : WavSpec where
  channels := audio.channels
  sampleRate := audio.sampleRate
  bitsPerSample := 16
  sampleFormat := .int

variable (processor : AudioProcessor)

def saveWav (audio : ExactAudio) : Except AudioError (List UInt8) :=
  (processor.wav.write (saveSpec audio)
    (audio.samples.map sampleI16)).mapError .invalid

def validateWav (data : List UInt8) : Except AudioError AudioFormat := do
  let spec ← (processor.wav.spec data).mapError fun _ =>
    AudioError.invalid "Failed to parse WAV file"
  let frames := (processor.wav.duration data).toNat
  if spec.sampleRate.toNat * processor.maxDurationSecs.toNat < frames then
    throw (.tooLong frames spec.sampleRate.toNat
      processor.maxDurationSecs.toNat)
  return .wav

def probeMetadata (format : AudioFormat) (data : List UInt8) :
    Except AudioError AudioFormat :=
  ((processor.other.probe format data).map fun _ => format).mapError
    .invalid

/-- The format, from the first bytes of a file. -/
def validateAudio (data : List UInt8) : Except AudioError AudioFormat :=
  if data.length < 4 then .error (.invalid "Audio data too short")
  else if data.take 4 = [82, 73, 70, 70] then processor.validateWav data
  else if data.take 3 = [73, 68, 51] ∨
      (data.getD 0 0 = 255 ∧ data.getD 1 0 &&& 224 = 224) then
    processor.probeMetadata .mp3 data
  else if data.take 4 = [102, 76, 97, 67] then
    processor.probeMetadata .flac data
  else if data.take 4 = [79, 103, 103, 83] then
    processor.probeMetadata .ogg data
  else .error (.invalid "Unknown audio format")

/-- An integer sample on the scale of 32 bits, whatever its size. -/
def sampleOfInt (sample : Int) : ℚ :=
  (sample : ℚ) / 2147483647

def readSamples (format : SampleFormat) (data : List UInt8) :
    Except String (List ℚ) :=
  match format with
  | .float => processor.wav.floatSamples data
  | .int => (processor.wav.intSamples data).map (List.map sampleOfInt)

def loadWav (data : List UInt8) : Except AudioError ExactAudio := do
  let spec ← (processor.wav.spec data).mapError fun _ =>
    AudioError.invalid "Failed to parse WAV file"
  let samples ← (processor.readSamples spec.sampleFormat data).mapError
    fun _ => AudioError.invalid "Failed to read samples"
  return ⟨samples, spec.sampleRate, spec.channels⟩

def loadWithSymphonia (data : List UInt8) : Except AudioError ExactAudio :=
  (processor.other.decode data).mapError .invalid

def loadAudio (data : List UInt8) : Except AudioError ExactAudio := do
  match ← processor.validateAudio data with
  | .wav => processor.loadWav data
  | .mp3 | .flac | .ogg => processor.loadWithSymphonia data

/-! ## What a round trip needs and gives -/

/-- The library stores 16-bit samples exactly and hands the same integers
back. -/
structure StoresExactly (library : WavLibrary) (spec : WavSpec)
    (samples : List Int) (data : List UInt8) : Prop where
  writes : library.write spec samples = .ok data
  magic : data.take 4 = [82, 73, 70, 70]
  opens : library.spec data = .ok spec
  frames : (library.duration data).toNat * spec.channels.toNat =
    samples.length
  reads : library.intSamples data = .ok samples

/-- Audio that may be saved and loaded again under a cap on the duration. -/
structure Loadable (maxDurationSecs : UInt32) (audio : ExactAudio) : Prop where
  channels_pos : 0 < audio.channels.toNat
  sampleRate_pos : 0 < audio.sampleRate.toNat
  divisible : audio.channels.toNat ∣ audio.samples.length
  duration_le : (audio.samples.length : ℚ) / audio.channels.toNat /
    audio.sampleRate.toNat ≤ maxDurationSecs.toNat

/-- A decoded sample is as close to the original one as 16 bits allow. -/
def Close (decoded original : ℚ) : Prop :=
  |decoded - clampUnit original| ≤ 2 / 32767

/-- What is saved is loaded with the same rate, channels and number of samples,
each of them close to the original one. -/
def RoundTrips (processor : AudioProcessor) (audio : ExactAudio) : Prop :=
  ∃ data decoded, processor.saveWav audio = .ok data ∧
    processor.loadAudio data = .ok decoded ∧
    decoded.sampleRate = audio.sampleRate ∧
    decoded.channels = audio.channels ∧
    decoded.samples.length = audio.samples.length ∧
    List.Forall₂ Close decoded.samples audio.samples

/-! ## One sample -/

theorem truncate_neg (value : ℚ) : truncate (-value) = -truncate value := by
  rcases lt_trichotomy value 0 with negative | rfl | positive
  · rw [truncate, truncate, if_pos (neg_nonneg.mpr negative.le),
      if_neg (not_le.mpr negative), Int.floor_neg]
  · simp [truncate]
  · rw [truncate, truncate, if_neg (not_le.mpr (neg_lt_zero.mpr positive)),
      if_pos positive.le, Int.ceil_neg]

theorem clampUnit_neg (sample : ℚ) : clampUnit (-sample) = -clampUnit sample := by
  unfold clampUnit
  rcases le_total sample (-1) with low | low
  · rw [min_eq_left (by linarith : (1 : ℚ) ≤ -sample),
      min_eq_right (by linarith : sample ≤ 1), max_eq_left low]
    norm_num
  · rcases le_total sample 1 with high | high
    · rw [min_eq_right (by linarith : -sample ≤ 1), min_eq_right high,
        max_eq_right low, max_eq_right (by linarith : (-1 : ℚ) ≤ -sample)]
    · rw [min_eq_right (by linarith : -sample ≤ 1), min_eq_left high,
        max_eq_left (by linarith : -sample ≤ (-1 : ℚ))]
      norm_num

theorem clampUnit_bounds (sample : ℚ) :
    -1 ≤ clampUnit sample ∧ clampUnit sample ≤ 1 :=
  ⟨le_max_left _ _, max_le (by norm_num) (min_le_left _ _)⟩

/-- Within the range of a sample the cast does not saturate. -/
theorem sampleI16_eq (sample : ℚ) :
    sampleI16 sample = truncate (clampUnit sample * 32767) := by
  obtain ⟨low, high⟩ := clampUnit_bounds sample
  have lowest : -32767 ≤ truncate (clampUnit sample * 32767) := by
    unfold truncate
    split_ifs with sign
    · exact le_trans (by norm_num) (Int.floor_nonneg.mpr sign)
    · have below : (-32767 : ℚ) ≤ clampUnit sample * 32767 := by linarith
      exact_mod_cast below.trans (Int.le_ceil _)
  have highest : truncate (clampUnit sample * 32767) ≤ 32767 := by
    unfold truncate
    split_ifs with sign
    · have above : clampUnit sample * 32767 ≤ (32767 : ℚ) := by linarith
      exact_mod_cast (Int.floor_le _).trans above
    · exact le_trans (Int.ceil_nonpos.mpr (not_le.mp sign).le) (by norm_num)
  rw [sampleI16, toI16, min_eq_right highest, max_eq_right (by omega)]

theorem sampleI16_neg (sample : ℚ) : sampleI16 (-sample) = -sampleI16 sample := by
  rw [sampleI16_eq, sampleI16_eq, clampUnit_neg, neg_mul, truncate_neg]

/-- What a saved sample is loaded as. -/
def loaded (sample : ℚ) : ℚ :=
  sampleOfInt (sampleI16 sample)

theorem close_neg_iff (sample : ℚ) :
    Close (loaded (-sample)) (-sample) ↔ Close (loaded sample) sample := by
  unfold Close loaded sampleOfInt
  rw [sampleI16_neg, clampUnit_neg, Int.cast_neg, neg_div, neg_sub_neg,
    abs_sub_comm]

/-- The largest sample that is loaded close to itself. -/
def loudest : ℚ :=
  2 / 32767 + 2 / 2147483647

/-- The scale of the loader is that of 32-bit samples, so a sample is close to
its 16-bit integer on that scale only when both are next to zero. -/
theorem close_iff_of_nonneg {sample : ℚ} (nonneg : 0 ≤ sample) :
    Close (loaded sample) sample ↔ sample ≤ loudest := by
  have clamped : clampUnit sample = min 1 sample :=
    max_eq_right (le_min (by norm_num) (by linarith))
  have clampedNonneg : 0 ≤ min 1 sample := le_min (by norm_num) nonneg
  have integer : sampleI16 sample = ⌊min 1 sample * 32767⌋ := by
    rw [sampleI16_eq, clamped, truncate, if_pos (by linarith)]
  have below : (⌊min 1 sample * 32767⌋ : ℚ) ≤ min 1 sample * 32767 :=
    Int.floor_le _
  have above : min 1 sample * 32767 < (⌊min 1 sample * 32767⌋ : ℚ) + 1 :=
    Int.lt_floor_add_one _
  have floorNonneg : 0 ≤ ⌊min 1 sample * 32767⌋ :=
    Int.floor_nonneg.mpr (by linarith)
  have threshold : min 1 sample ≤ loudest ↔ sample ≤ loudest := by
    rw [min_le_iff]
    constructor
    · rintro (one | small)
      · exact absurd one (by norm_num [loudest])
      · exact small
    · exact Or.inr
  rw [← threshold, Close, loaded, sampleOfInt, clamped, integer]
  generalize min 1 sample = level at *
  generalize ⌊level * 32767⌋ = steps at *
  have stepsNonneg : (0 : ℚ) ≤ steps := by exact_mod_cast floorNonneg
  rw [abs_le, loudest]
  rcases lt_or_ge steps 3 with few | many
  · have fewCast : (steps : ℚ) ≤ 2 := by exact_mod_cast Int.lt_add_one_iff.mp few
    constructor
    · intro close
      linarith [close.1]
    · intro small
      refine ⟨?_, by linarith⟩
      rcases lt_or_ge steps 2 with fewer | exactly
      · have one : (steps : ℚ) ≤ 1 := by
          exact_mod_cast Int.lt_add_one_iff.mp fewer
        linarith
      · have two : (2 : ℚ) ≤ steps := by exact_mod_cast exactly
        linarith
  · have manyCast : (3 : ℚ) ≤ steps := by exact_mod_cast many
    constructor
    · intro close
      linarith [close.1]
    · intro small
      linarith

theorem close_iff (sample : ℚ) :
    Close (loaded sample) sample ↔ |sample| ≤ loudest := by
  rcases le_total 0 sample with nonneg | nonpos
  · rw [abs_of_nonneg nonneg]
    exact close_iff_of_nonneg nonneg
  · rw [abs_of_nonpos nonpos, ← close_neg_iff]
    exact close_iff_of_nonneg (neg_nonneg.mpr nonpos)

/-! ## Whole files -/

variable {processor : AudioProcessor} {audio : ExactAudio}
  {data : List UInt8}

/-- The frames of a file are within the cap when its duration is. -/
theorem Loadable.frames_le {maxDurationSecs : UInt32} {frames : Nat}
    (loadable : Loadable maxDurationSecs audio)
    (counted : frames * audio.channels.toNat = audio.samples.length) :
    frames ≤ audio.sampleRate.toNat * maxDurationSecs.toNat := by
  have channels : (0 : ℚ) < audio.channels.toNat :=
    Nat.cast_pos.mpr loadable.channels_pos
  have rate : (0 : ℚ) < audio.sampleRate.toNat :=
    Nat.cast_pos.mpr loadable.sampleRate_pos
  have duration := loadable.duration_le
  rw [← counted, Nat.cast_mul, mul_div_assoc, div_self channels.ne', mul_one,
    div_le_iff₀ rate] at duration
  rw [Nat.mul_comm]
  exact_mod_cast duration

/-- A file the library has stored is loaded with one sample for each saved
one. -/
theorem loadAudio_of_stored (processor : AudioProcessor)
    (loadable : Loadable processor.maxDurationSecs audio)
    (stored : StoresExactly processor.wav (saveSpec audio)
      (audio.samples.map sampleI16) data) :
    processor.saveWav audio = .ok data ∧
      processor.loadAudio data = .ok
        ⟨audio.samples.map loaded, audio.sampleRate, audio.channels⟩ := by
  have counted := stored.frames
  rw [List.length_map] at counted
  have withinCap := loadable.frames_le counted
  constructor
  · rw [saveWav, stored.writes]
    rfl
  · have long : 4 ≤ data.length := by
      have taken := congrArg List.length stored.magic
      rw [List.length_take] at taken
      exact taken.symm.trans_le (min_le_right _ _)
    have validated : processor.validateAudio data = .ok .wav := by
      rw [validateAudio, if_neg (Nat.not_lt.mpr long),
        if_pos stored.magic, validateWav, stored.opens]
      exact if_neg (Nat.not_lt.mpr withinCap)
    have read : processor.readSamples .int data =
        .ok (audio.samples.map loaded) := by
      rw [readSamples, stored.reads]
      exact congrArg Except.ok List.map_map
    rw [loadAudio, validated]
    change processor.loadWav data = _
    rw [loadWav, stored.opens]
    change ((processor.readSamples .int data).mapError _ >>= _) = _
    rw [read]
    rfl

theorem forall₂_close_map (samples : List ℚ) :
    List.Forall₂ Close (samples.map loaded) samples ↔
      ∀ sample ∈ samples, |sample| ≤ loudest := by
  rw [List.forall₂_map_left_iff, List.forall₂_same]
  exact forall₂_congr fun sample _ => close_iff sample

/-- Saved audio is loaded as it was exactly when no sample is louder than what
16 bits and 32 bits agree on. -/
theorem roundTrips_iff
    (loadable : Loadable processor.maxDurationSecs audio)
    (stored : StoresExactly processor.wav (saveSpec audio)
      (audio.samples.map sampleI16) data) :
    RoundTrips processor audio ↔
      ∀ sample ∈ audio.samples, |sample| ≤ loudest := by
  obtain ⟨saves, loads⟩ := loadAudio_of_stored processor loadable stored
  rw [← forall₂_close_map]
  constructor
  · rintro ⟨file, decoded, saved, loaded, -, -, -, close⟩
    obtain rfl : data = file := Except.ok.inj (saves.symm.trans saved)
    rw [← Except.ok.inj (loads.symm.trans loaded)] at close
    exact close
  · intro close
    exact ⟨data, _, saves, loads, rfl, rfl, List.length_map _, close⟩

/-! ## A library that stores samples -/

/-- Files with a header of 44 bytes and 16-bit samples, the lowest byte
first. -/
def plainLibrary : WavLibrary where
  write spec samples := .ok
    ([82, 73, 70, 70] ++ leBytes (UInt32.ofNat (36 + 2 * samples.length)) ++
      [87, 65, 86, 69, 102, 109, 116, 32, 16, 0, 0, 0, 1, 0] ++
      (leBytes spec.channels.toUInt32).take 2 ++ leBytes spec.sampleRate ++
      leBytes (spec.sampleRate * spec.channels.toUInt32 * 2) ++
      (leBytes (spec.channels.toUInt32 * 2)).take 2 ++ [16, 0] ++
      [100, 97, 116, 97] ++ leBytes (UInt32.ofNat (2 * samples.length)) ++
      samples.flatMap fun sample =>
        (leBytes (UInt32.ofNat (sample % 65536).toNat)).take 2)
  spec data := .ok
    { channels := UInt16.ofNat (littleEndian ((data.drop 22).take 2))
      sampleRate := UInt32.ofNat (littleEndian ((data.drop 24).take 4))
      bitsPerSample := 16
      sampleFormat := .int }
  duration data := UInt32.ofNat ((data.length - 44) /
    littleEndian ((data.drop 32).take 2))
  floatSamples _ := .error "not a file of floats"
  intSamples data := .ok ((data.drop 44).toChunks 2 |>.map fun bytes =>
    signed (littleEndian bytes))
where
  littleEndian (bytes : List UInt8) : Nat :=
    bytes.foldr (fun byte rest => byte.toNat + 256 * rest) 0
  signed (value : Nat) : Int :=
    if value < 32768 then value else (value : Int) - 65536

def exampleProcessor : AudioProcessor where
  wav := plainLibrary
  other := ⟨fun _ _ => .error "unknown", fun _ => .error "unknown"⟩
  maxDurationSecs := 1800

/-- Two frames of two channels. -/
def quietAudio : ExactAudio :=
  ⟨[0, 1 / 32767, -(1 / 32767), 2 / 32767], 16000, 2⟩

def loudAudio : ExactAudio :=
  ⟨[0, 1, -1, 1 / 2], 16000, 2⟩

def storedFile (audio : ExactAudio) : List UInt8 :=
  match exampleProcessor.saveWav audio with
  | .ok data => data
  | .error _ => []

theorem quietAudio_stored :
    StoresExactly plainLibrary (saveSpec quietAudio)
      (quietAudio.samples.map sampleI16) (storedFile quietAudio) := by
  constructor <;> decide +kernel

theorem quietAudio_loadable : Loadable 1800 quietAudio := by
  constructor <;> decide +kernel

theorem quietAudio_roundTrips : RoundTrips exampleProcessor quietAudio :=
  (roundTrips_iff quietAudio_loadable quietAudio_stored).mpr
    (by decide +kernel)

/-- A full-scale sample comes back as 32767 / 2147483647. -/
theorem loudAudio_not_close :
    Loadable 1800 loudAudio ∧
      StoresExactly plainLibrary (saveSpec loudAudio)
        (loudAudio.samples.map sampleI16) (storedFile loudAudio) ∧
      (exampleProcessor.loadAudio (storedFile loudAudio)).toOption.map
        (·.samples) = some [0, 32767 / 2147483647, -(32767 / 2147483647),
          16383 / 2147483647] ∧
      ¬ RoundTrips exampleProcessor loudAudio := by
  have loadable : Loadable 1800 loudAudio := by
    constructor <;> decide +kernel
  have stored : StoresExactly plainLibrary (saveSpec loudAudio)
      (loudAudio.samples.map sampleI16) (storedFile loudAudio) := by
    constructor <;> decide +kernel
  obtain ⟨saves, loads⟩ := loadAudio_of_stored exampleProcessor
    loadable stored
  refine ⟨loadable, stored, by decide +kernel, ?_⟩
  rintro ⟨file, decoded, saved, loaded, -, -, -, close⟩
  obtain rfl : storedFile loudAudio = file :=
    Except.ok.inj (saves.symm.trans saved)
  rw [← Except.ok.inj (loads.symm.trans loaded), forall₂_close_map] at close
  exact absurd (close 1 (by decide)) (by norm_num [loudest])

end AudioProcessor

end TorchInference
