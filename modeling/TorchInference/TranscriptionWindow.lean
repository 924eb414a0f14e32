import TorchInference.AudioSession
import TorchInference.ExceptSteps

/-!
# The window of a transcription

Audio comes from a WAV file, whose duration is capped by the configuration, or
from the samples a WebSocket session has gathered, which are capped in number.
It is resampled to 16 kHz and mixed down to one channel.  The spectrogram has
3000 frames, which read the first 30 seconds.  The WAV reader and the resampler
are libraries.
-/

namespace TorchInference

open TransitionRuns

/-! ## Audio -/

/-- `AudioData` with its channels; the samples are interleaved. -/
structure PcmAudio where
  samples : List Float32
  sampleRate : UInt32
  channels : UInt16

inductive AudioError where
  /-- A file is longer than the cap. -/
  | tooLong (frames sampleRate maxDurationSecs : Nat)
  | invalid (message : String)

inductive WavSamples where
  | float (samples : Except String (List Float32))
  | int (samples : Except String (List Int32))

/-- The samples as numbers between -1 and 1. -/
def WavSamples.toFloats : WavSamples → Except String (List Float32)
  | .float samples => samples
  | .int samples => samples.map fun values =>
      values.map fun sample =>
        Float32.ofInt sample.toInt / Float32.ofNat 2147483647

/-- A WAV file as its reader sees it.  The reader gives as many samples as the
header claims, or an error. -/
structure WavFile where
  sampleRate : UInt32
  channels : UInt16
  duration : UInt32
  samples : WavSamples
  counted : ∀ floats, samples.toFloats = .ok floats →
    floats.length = duration.toNat * channels.toNat

/-- `validate_wav` and `load_wav`. -/
def WavFile.load (file : WavFile) (maxDurationSecs : UInt32) :
    Except AudioError PcmAudio :=
  if file.sampleRate.toNat * maxDurationSecs.toNat < file.duration.toNat then
    .error (.tooLong file.duration.toNat file.sampleRate.toNat
      maxDurationSecs.toNat)
  else
    match file.samples.toFloats with
    | .error _ => .error (.invalid "Failed to read samples")
    | .ok samples => .ok ⟨samples, file.sampleRate, file.channels⟩

/-! ## Resampling -/

/-- A resampler with chunks of a fixed size.  It is called with the next
frames of every channel, or with nothing to flush what it holds back, and
returns as many frames for every channel each time. -/
structure Resampler where
  chunkIn : Nat
  chunkOut : Nat
  positive : 0 < chunkIn
  process : Nat → Nat → Option (List (List Float32)) →
    Except String (List (List Float32))
  fixed : ∀ call channels frames out,
    process call channels frames = .ok out →
      out.length = channels ∧ ∀ channel ∈ out, channel.length = chunkOut
  flushes : ∀ call channels, (process call channels none).isOk = true

/-- The resampler for a rate and a number of channels, unless there is none. -/
abbrev Resamplers := UInt32 → UInt16 → Except String Resampler

/-- The samples of one channel. -/
def PcmAudio.channel (audio : PcmAudio) (c : Nat) : List Float32 :=
  (List.range (audio.samples.length / audio.channels.toNat)).map fun f =>
    audio.samples.getD (f * audio.channels.toNat + c) 0

namespace Resampler

variable (resampler : Resampler)

/-- The frames of every channel from a position on. -/
def slices (audio : PcmAudio) (position count : Nat) : List (List Float32) :=
  (List.range audio.channels.toNat).map fun c =>
    ((audio.channel c).drop position).take count

def fullChunks (audio : PcmAudio) (chunks : Nat) :
    Except String (List (List (List Float32))) :=
  (List.range chunks).mapM fun call =>
    resampler.process call audio.channels.toNat
      (some (slices audio (call * resampler.chunkIn) resampler.chunkIn))

/-- The rest of the frames or, if there are none, what is held back. -/
def lastChunk (audio : PcmAudio) (chunks : Nat) :
    Except String (List (List (List Float32))) :=
  let position := chunks * resampler.chunkIn
  if position < audio.samples.length / audio.channels.toNat then
    (resampler.process chunks audio.channels.toNat
      (some (slices audio position resampler.chunkIn))).map ([·])
  else
    match resampler.process chunks audio.channels.toNat none with
    | .ok out => .ok [out]
    | .error _ => .ok []

/-- The output of one channel. -/
def gather (outputs : List (List (List Float32))) (c : Nat) :
    List Float32 :=
  outputs.flatMap fun out => out.getD c []

def interleave (outputs : List (List (List Float32))) (channels : Nat) :
    List Float32 :=
  (List.range (gather outputs 0).length).flatMap fun f =>
    (List.range channels).map fun c => (gather outputs c).getD f 0

end Resampler

def targetSampleRate : UInt32 :=
  16000

/-- `resample` to 16 kHz. -/
def PcmAudio.resample (audio : PcmAudio) (resamplers : Resamplers) :
    Except AudioError PcmAudio := do
  if audio.sampleRate = targetSampleRate then return audio
  if audio.channels = 0 then
    throw (.invalid "channels must be >= 1")
  if audio.samples.length % audio.channels.toNat ≠ 0 then
    throw (.invalid ("interleaved sample count " ++
      toString audio.samples.length ++ " is not divisible by channels " ++
      toString audio.channels.toNat))
  let resampler ← (resamplers audio.sampleRate audio.channels).mapError
    fun _ => AudioError.invalid "Failed to create FFT resampler"
  let chunks :=
    audio.samples.length / audio.channels.toNat / resampler.chunkIn
  let full ← (resampler.fullChunks audio chunks).mapError fun _ =>
    AudioError.invalid "Resampler error during full-chunk processing"
  let last ← (resampler.lastChunk audio chunks).mapError fun _ =>
    AudioError.invalid "Resampler error during partial-chunk flush"
  return ⟨Resampler.interleave (full ++ last) audio.channels.toNat,
    targetSampleRate, audio.channels⟩

/-- The mean of each frame, whose last one may be incomplete. -/
def downmix (channels : Nat) (samples : List Float32) : List Float32 :=
  (List.range ((samples.length + channels - 1) / channels)).map fun f =>
    let frame := (samples.drop (f * channels)).take channels
    frame.foldl (· + ·) 0 / Float32.ofNat frame.length

/-- The samples a transcription works with. -/
def PcmAudio.mono (audio : PcmAudio) (resamplers : Resamplers) :
    Except AudioError (List Float32) :=
  (audio.resample resamplers).map fun src =>
    if 1 < src.channels then downmix src.channels.toNat src.samples
    else src.samples

/-! ## The spectrogram -/

def nFft : Nat := 400
def hopLength : Nat := 160
def melFrames : Nat := 3000
def maxAudioSamples : Nat := 480000

/-- The samples, padded or clipped to 30 seconds. -/
def padded (samples : List Float32) : List Float32 :=
  samples.take maxAudioSamples ++
    List.replicate (maxAudioSamples - samples.length) 0

/-- The place that a value of a frame is read from. -/
def readsAt (t k : Nat) : Option Nat :=
  if t * hopLength + k < min (t * hopLength + nFft) maxAudioSamples then
    some (t * hopLength + k)
  else none

/-- What a frame of `log_mel_spectrogram` is computed from, before the window
function. -/
def spectrogramFrame (samples : List Float32) (t : Nat) : List Float32 :=
  (List.range nFft).map fun k =>
    match readsAt t k with
    | some place => (padded samples).getD place 0
    | none => 0

/-- A sample is in the window: it is not clipped, and a frame reads it. -/
def InWindow (samples : List Float32) (index : Nat) : Prop :=
  (padded samples)[index]? = samples[index]? ∧
    ∃ t < melFrames, ∃ k < nFft, readsAt t k = some index

/-- Every sample of the audio is transcribed, or none is. -/
def TranscribedInFull (resamplers : Resamplers) (audio : PcmAudio) : Prop :=
  ∀ samples, audio.mono resamplers = .ok samples →
    ∀ index < samples.length, InWindow samples index

/-- The padded samples are the samples as far as the window goes. -/
theorem getElem?_padded {samples : List Float32} {index : Nat}
    (inside : index < samples.length) :
    (padded samples)[index]? = samples[index]? ↔ index < maxAudioSamples := by
  unfold padded
  by_cases fits : index < maxAudioSamples
  · rw [List.getElem?_append_left (by
      rw [List.length_take]
      omega)]
    simp [fits]
  · have beyond : (samples.take maxAudioSamples ++
        List.replicate (maxAudioSamples - samples.length) (0 : Float32)).length
          ≤ index := by
      rw [List.length_append, List.length_take, List.length_replicate]
      omega
    rw [List.getElem?_eq_none beyond]
    simp [fits, inside]

/-- The frames cover the padded samples. -/
theorem exists_readsAt {index : Nat} (inside : index < maxAudioSamples) :
    ∃ t < melFrames, ∃ k < nFft, readsAt t k = some index := by
  refine ⟨index / hopLength, ?_, index % hopLength, ?_, ?_⟩
  · simp only [melFrames, hopLength, maxAudioSamples] at *
    omega
  · have below := Nat.mod_lt index (by decide : 0 < hopLength)
    simp only [nFft, hopLength] at *
    omega
  · have place : index / hopLength * hopLength + index % hopLength = index := by
      rw [Nat.mul_comm]
      exact Nat.div_add_mod index hopLength
    have below := Nat.mod_lt index (by decide : 0 < hopLength)
    unfold readsAt
    rw [place, if_pos]
    rw [Nat.lt_min]
    refine ⟨?_, inside⟩
    simp only [nFft, hopLength] at *
    omega

theorem inWindow_iff {samples : List Float32} {index : Nat}
    (inside : index < samples.length) :
    InWindow samples index ↔ index < maxAudioSamples := by
  unfold InWindow
  rw [getElem?_padded inside]
  exact ⟨And.left, fun fits => ⟨fits, exists_readsAt fits⟩⟩

/-- All samples are in the window exactly if there are at most 480 000. -/
theorem forall_inWindow_iff (samples : List Float32) :
    (∀ index < samples.length, InWindow samples index) ↔
      samples.length ≤ maxAudioSamples := by
  constructor
  · intro all
    by_contra tooMany
    have beyond : maxAudioSamples < samples.length := by omega
    exact Nat.lt_irrefl _ ((inWindow_iff beyond).mp (all _ beyond))
  · intro few index inside
    exact (inWindow_iff inside).mpr (Nat.lt_of_lt_of_le inside few)

/-! ## How many samples there are -/

/-- The samples of one channel after resampling, counted before it. -/
def PcmAudio.monoLength (audio : PcmAudio) (resamplers : Resamplers) : Nat :=
  if audio.sampleRate = targetSampleRate then
    if 1 < audio.channels then
      (audio.samples.length + audio.channels.toNat - 1) /
        audio.channels.toNat
    else audio.samples.length
  else
    match resamplers audio.sampleRate audio.channels with
    | .ok resampler => resampler.chunkOut *
        (audio.samples.length / audio.channels.toNat / resampler.chunkIn + 1)
    | .error _ => 0

@[simp]
theorem length_downmix (channels : Nat) (samples : List Float32) :
    (downmix channels samples).length =
      (samples.length + channels - 1) / channels := by
  simp [downmix]

namespace Resampler

/-- Outputs that hold a chunk for every channel. -/
def Whole (chunkOut channels : Nat) (outputs : List (List (List Float32))) :
    Prop :=
  ∀ out ∈ outputs, out.length = channels ∧
    ∀ channel ∈ out, channel.length = chunkOut

variable {resampler : Resampler} {audio : PcmAudio} {chunks : Nat}
  {outputs : List (List (List Float32))}

theorem length_gather {chunkOut channels c : Nat}
    (whole : Whole chunkOut channels outputs) (inside : c < channels) :
    (gather outputs c).length = chunkOut * outputs.length := by
  induction outputs with
  | nil => simp [gather]
  | cons out outputs ih =>
      have here := whole out List.mem_cons_self
      have later : Whole chunkOut channels outputs :=
        fun other member => whole other (List.mem_cons_of_mem _ member)
      have bound : c < out.length := by omega
      have chunk : (out.getD c []).length = chunkOut := by
        rw [List.getD_eq_getElem?_getD, List.getElem?_eq_getElem bound]
        exact here.2 _ (List.getElem_mem bound)
      have rest := ih later
      unfold gather at rest ⊢
      rw [List.flatMap_cons, List.length_append, chunk, rest,
        List.length_cons, Nat.mul_add, Nat.mul_one, Nat.add_comm]

theorem length_interleave (channels : Nat) :
    (interleave outputs channels).length =
      (gather outputs 0).length * channels := by
  simp [interleave, List.length_flatMap]

theorem whole_of_fullChunks
    (processed : resampler.fullChunks audio chunks = .ok outputs) :
    outputs.length = chunks ∧
      Whole resampler.chunkOut audio.channels.toNat outputs := by
  have each := ExceptSteps.mapM_eq_ok processed
  constructor
  · simpa using each.length_eq.symm
  · intro out member
    obtain ⟨index, inside, rfl⟩ := List.getElem_of_mem member
    have call := each.get (i := index) (by rw [each.length_eq]; exact inside)
      inside
    exact resampler.fixed _ _ _ _ call

theorem whole_of_lastChunk
    (processed : resampler.lastChunk audio chunks = .ok outputs) :
    outputs.length = 1 ∧
      Whole resampler.chunkOut audio.channels.toNat outputs := by
  unfold lastChunk at processed
  simp only at processed
  split at processed
  case isTrue =>
    obtain ⟨out, call, rfl⟩ := ExceptSteps.map_eq_ok processed
    refine ⟨rfl, fun other member => ?_⟩
    obtain rfl := List.mem_singleton.mp member
    exact resampler.fixed _ _ _ _ call
  case isFalse =>
    have flushed := resampler.flushes chunks audio.channels.toNat
    cases call : resampler.process chunks audio.channels.toNat none with
    | error message => simp [call, Except.isOk, Except.toBool] at flushed
    | ok out =>
        simp only [call] at processed
        cases processed
        refine ⟨rfl, fun other member => ?_⟩
        obtain rfl := List.mem_singleton.mp member
        exact resampler.fixed _ _ _ _ call

end Resampler

namespace PcmAudio

variable {audio : PcmAudio} {resamplers : Resamplers}

theorem resample_of_target (same : audio.sampleRate = targetSampleRate) :
    audio.resample resamplers = .ok audio := by
  simp [resample, same]
  rfl

/-- What resampling to another rate gives. -/
theorem resample_eq_ok {result : PcmAudio}
    (other : audio.sampleRate ≠ targetSampleRate)
    (resampled : audio.resample resamplers = .ok result) :
    audio.channels ≠ 0 ∧ result.channels = audio.channels ∧
      result.samples.length =
        audio.monoLength resamplers * audio.channels.toNat := by
  unfold resample at resampled
  rw [if_neg other] at resampled
  by_cases silent : audio.channels = 0
  · rw [if_pos silent] at resampled
    cases resampled
  rw [if_neg silent] at resampled
  by_cases uneven : audio.samples.length % audio.channels.toNat ≠ 0
  · rw [if_pos uneven] at resampled
    cases resampled
  rw [if_neg uneven] at resampled
  obtain ⟨resampler, found, resampled⟩ := ExceptSteps.bind_eq_ok resampled
  have isResampler := ExceptSteps.mapError_eq_ok found
  obtain ⟨full, processed, resampled⟩ := ExceptSteps.bind_eq_ok resampled
  obtain ⟨last, flushed, resampled⟩ := ExceptSteps.bind_eq_ok resampled
  obtain ⟨fullLength, wholeFull⟩ := Resampler.whole_of_fullChunks
    (ExceptSteps.mapError_eq_ok processed)
  obtain ⟨lastLength, wholeLast⟩ := Resampler.whole_of_lastChunk
    (ExceptSteps.mapError_eq_ok flushed)
  have whole : Resampler.Whole resampler.chunkOut audio.channels.toNat
      (full ++ last) := by
    intro out member
    rcases List.mem_append.mp member with early | late
    · exact wholeFull out early
    · exact wholeLast out late
  have positive : 0 < audio.channels.toNat := by
    rw [Nat.pos_iff_ne_zero]
    intro zero
    exact silent (UInt16.toNat_inj.mp zero)
  cases resampled
  refine ⟨silent, rfl, ?_⟩
  rw [Resampler.length_interleave, Resampler.length_gather whole positive,
    List.length_append, fullLength, lastLength, monoLength, if_neg other]
  simp only [isResampler]

theorem length_mono {samples : List Float32}
    (mixed : audio.mono resamplers = .ok samples) :
    samples.length = audio.monoLength resamplers := by
  unfold mono at mixed
  obtain ⟨src, resampled, rfl⟩ := ExceptSteps.map_eq_ok mixed
  by_cases same : audio.sampleRate = targetSampleRate
  · rw [resample_of_target same] at resampled
    cases resampled
    rw [monoLength, if_pos same]
    split <;> simp
  · obtain ⟨present, channels, length⟩ := resample_eq_ok same resampled
    rw [channels]
    split
    case isTrue several =>
      have positive : 1 < audio.channels.toNat :=
        UInt16.lt_iff_toNat_lt.mp several
      rw [length_downmix, length, Nat.add_sub_assoc (by omega), Nat.add_comm,
        Nat.add_mul_div_right _ _ (by omega), Nat.div_eq_of_lt (by omega),
        Nat.zero_add]
    case isFalse single =>
      have isOne : audio.channels.toNat = 1 := by
        have few : ¬ 1 < audio.channels.toNat := fun several =>
          single (UInt16.lt_iff_toNat_lt.mpr several)
        have some : audio.channels.toNat ≠ 0 := fun zero =>
          present (UInt16.toNat_inj.mp zero)
        omega
      rw [length, isOne, Nat.mul_one]

end PcmAudio

/-! ## What is transcribed in full -/

theorem transcribedInFull_of_mono {resamplers : Resamplers}
    {audio : PcmAudio} {samples : List Float32}
    (mixed : audio.mono resamplers = .ok samples) :
    TranscribedInFull resamplers audio ↔ samples.length ≤ maxAudioSamples := by
  rw [← forall_inWindow_iff]
  constructor
  · exact fun full => full samples mixed
  · intro all others otherwise
    rw [mixed] at otherwise
    cases otherwise
    exact all

/-- Audio is transcribed in full exactly if it is refused by the resampler or
comes to at most 30 seconds at 16 kHz. -/
theorem transcribedInFull_iff_monoLength (resamplers : Resamplers)
    (audio : PcmAudio) :
    TranscribedInFull resamplers audio ↔
      ((audio.mono resamplers).isOk = true →
        audio.monoLength resamplers ≤ maxAudioSamples) := by
  cases mixed : audio.mono resamplers with
  | error error =>
      constructor
      · intro _ isOk
        cases isOk
      · intro _ samples otherwise
        rw [mixed] at otherwise
        cases otherwise
  | ok samples =>
      rw [transcribedInFull_of_mono mixed, PcmAudio.length_mono mixed]
      exact ⟨fun few _ => few, fun few => few rfl⟩

/-- What the entry points accept, before it is resampled. -/
inductive AcceptedAudio (maxDurationSecs : UInt32) : PcmAudio → Prop
  | wav (file : WavFile) (audio : PcmAudio)
      (loaded : file.load maxDurationSecs = .ok audio) :
      AcceptedAudio maxDurationSecs audio
  | webSocket (server : AudioServer) (actions : List AudioAction)
      (session : AudioSession) (buf : List Float32) (sampleRate : UInt32)
      (reaches : run (AudioSession.step server) .start actions = some session)
      (gathers : session.state = .accumulatingStt buf sampleRate)
      (nonempty : buf.isEmpty = false) :
      AcceptedAudio maxDurationSecs ⟨buf, sampleRate, 1⟩

/-- Thirty seconds of silence and one sample more. -/
def longSilence : WavFile where
  sampleRate := 16000
  channels := 1
  duration := 480001
  samples := .float (.ok (List.replicate 480001 0))
  counted := by
    intro floats isFloats
    cases isFloats
    exact List.length_replicate

/-- No other rate is supported. -/
def noResamplers : Resamplers :=
  fun _ _ => .error "unsupported rate"

/-- The last sample of an accepted file is cut off. -/
theorem longSilence_not_transcribedInFull :
    ∃ audio, AcceptedAudio 1800 audio ∧
      ¬ TranscribedInFull noResamplers audio := by
  refine ⟨⟨List.replicate 480001 0, 16000, 1⟩, .wav longSilence _ rfl, ?_⟩
  have mixed : PcmAudio.mono ⟨List.replicate 480001 0, 16000, 1⟩
      noResamplers = .ok (List.replicate 480001 0) := rfl
  rw [transcribedInFull_of_mono mixed, List.length_replicate]
  decide

end TorchInference
