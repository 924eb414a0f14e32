import TorchInference.HttpFetch
import TorchInference.TtsManager
import TorchInference.WavRoundTrip

/-!
# The speech file of the agent

The agent's speech tool posts a text to `/tts/stream` and saves the body of the
answer as a `.wav` file.  The body is raw 16-bit audio without a header, and the
loader knows a file by its first bytes, so it takes the file only if the audio
happens to begin as a compressed file does.  Samples are exact rationals.
-/

namespace TorchInference

open ExceptSteps

/-- The audio of one sentence. -/
structure SpeechChunk where
  samples : List ℚ
  sampleRate : UInt32

/-- The bytes of a 16-bit integer, the lower one first. -/
def i16Le (value : Int) : List UInt8 :=
  let bits := (value % 65536).toNat
  [UInt8.ofNat bits, UInt8.ofNat (bits / 256)]

/-- `to_pcm16_le` scales a sample as `save_wav` does. -/
def SpeechChunk.toPcm16Le (chunk : SpeechChunk) : List UInt8 :=
  chunk.samples.flatMap fun sample => i16Le (AudioProcessor.sampleI16 sample)

/-- What the endpoint waits for: a result in the channel, which comes in time or
does not. -/
inductive ChunkEvent where
  | result (chunk : Except String SpeechChunk)
  | timedOut

/-- An answer, whose body ends or breaks off. -/
structure SpeechReply where
  status : HttpStatus
  body : Except String (List UInt8)

structure SpeechServer where
  manager : TtsManager
  chunkTimeoutSecs : Nat
  /-- The JSON text of an error. -/
  errorBody : ApiError → List UInt8

namespace SpeechServer

/-- The body of `/tts/stream`, chunk by chunk until the channel is closed.  The
first chunk has four times the time of the others. -/
def streamBody (server : SpeechServer) :
    Bool → List ChunkEvent → Except String (List UInt8)
  | _, [] => .ok []
  | _, .result (.ok chunk) :: rest => do
      let later ← server.streamBody false rest
      return chunk.toPcm16Le ++ later
  | _, .result (.error e) :: _ => .error e
  | isFirst, .timedOut :: _ =>
      let label := if isFirst then "first " else ""
      let timeout :=
        if isFirst then server.chunkTimeoutSecs * 4
        else server.chunkTimeoutSecs
      .error ("TTS " ++ label ++ "chunk timeout after " ++
        toString timeout ++ "s")

def streamSynthesize (server : SpeechServer) (text : String)
    (events : List ChunkEvent) :
    Except ApiError (Except String (List UInt8)) :=
  if text.isEmpty then .error (.badRequest "Text cannot be empty")
  else if 50000 < text.utf8ByteSize then
    .error (.badRequest "Text too long (max 50000 characters)")
  else if server.manager.getDefaultEngine = none then
    .error (.internalError "No TTS engine available")
  else .ok (server.streamBody true events)

def errorStatus : ApiError → HttpStatus
  | .badRequest _ => ⟨400, "400 Bad Request"⟩
  | .notFound _ => ⟨404, "404 Not Found"⟩
  | .internalError _ => ⟨500, "500 Internal Server Error"⟩
  | .payloadTooLarge _ => ⟨413, "413 Payload Too Large"⟩

/-- What `/tts/stream` answers to a request that names no engine. -/
def post (server : SpeechServer) (events : List ChunkEvent)
    (request : JsonValue) : SpeechReply :=
  match (request.field "text").bind JsonValue.asStr with
  | none => ⟨⟨400, "400 Bad Request"⟩, .ok []⟩
  | some text =>
      match server.streamSynthesize text events with
      | .error e => ⟨errorStatus e, .ok (server.errorBody e)⟩
      | .ok body => ⟨⟨200, "200 OK"⟩, body⟩

end SpeechServer

/-- What a run of the tool meets: the time before its deadline, the answer to a
request, the file it names, and how long it takes. -/
structure SpeechRun where
  remainingNs : Nat
  send : JsonValue → Except HttpFetchTool.SendError SpeechReply
  readText : List UInt8 → String
  path : String
  write : List UInt8 → Except String Unit
  elapsedMs : Nat

/-- The file that has been written, and what the tool returns. -/
structure SavedSpeech where
  file : List UInt8
  output : JsonValue

/-- `TtsTool::invoke`. -/
def ttsTool (speech : SpeechRun) (args : JsonValue) :
    Except ToolError SavedSpeech := do
  let text ← ((args.field "text").bind JsonValue.asStr).elim
    (.error (.badArg "tts requires `text` (string)")) .ok
  let voice := ((args.field "voice").bind JsonValue.asStr).getD "af_heart"
  let body := .object [("text", .string text), ("voice", .string voice)]
  if speech.remainingNs = 0 then .error (.timeout 0)
  else
    let reply ← (speech.send body).mapError fun
      | .timeout => .timeout (speech.remainingNs / 1000000)
      | .failed e => .upstream ("tts: " ++ e)
    if reply.status.isSuccess then
      let bytes ← reply.body.mapError fun e => .upstream ("tts body: " ++ e)
      let _ ← (speech.write bytes).mapError fun e =>
        .upstream ("tts write: " ++ e)
      return {
        file := bytes
        output := .object [
          ("audio_url", .string ("file://" ++ speech.path)),
          ("duration_ms", jsonUsize speech.elapsedMs),
          ("bytes", jsonUsize bytes.length)] }
    else
      .error (.upstream ("tts returned " ++ reply.status.text ++ ": " ++
        (reply.body.toOption.map speech.readText).getD ""))

/-! ## What the file should be -/

/-- The chunks that have come in time. -/
def chunksOf (events : List ChunkEvent) : List SpeechChunk :=
  events.filterMap fun
    | .result (.ok chunk) => some chunk
    | _ => none

/-- A decoded sample is within one step of 16 bits. -/
def WithinStep (decoded original : ℚ) : Prop :=
  |decoded - clampUnit original| ≤ 1 / 32767

/-- The audio repeats the chunks one after another. -/
structure Repeats (decoded : ExactAudio) (chunks : List SpeechChunk) :
    Prop where
  sampleRate : ∀ chunk ∈ chunks, decoded.sampleRate = chunk.sampleRate
  samples : List.Forall₂ WithinStep decoded.samples
    (chunks.flatMap SpeechChunk.samples)

/-- The format that a file other than a WAV file begins as. -/
def otherFormat? (data : List UInt8) : Option AudioFormat :=
  if data.take 3 = [73, 68, 51] ∨
      (data.getD 0 0 = 255 ∧ data.getD 1 0 &&& 224 = 224) then some .mp3
  else if data.take 4 = [102, 76, 97, 67] then some .flac
  else if data.take 4 = [79, 103, 103, 83] then some .ogg
  else none

/-- A reader of WAV files finds the samples behind a header of 44 bytes, each
in as many bytes as its bits need. -/
structure WavLibrary.Sized (library : WavLibrary) : Prop where
  ints : ∀ {data spec samples}, library.spec data = .ok spec →
    spec.sampleFormat = .int → library.intSamples data = .ok samples →
      samples.length * ((spec.bitsPerSample.toNat + 7) / 8) + 44 ≤
          data.length ∧
        ∀ sample ∈ samples, |sample| ≤ 2 ^ (spec.bitsPerSample.toNat - 1)
  floats : ∀ {data spec samples}, library.spec data = .ok spec →
    spec.sampleFormat = .float → library.floatSamples data = .ok samples →
      samples.length * 4 + 44 ≤ data.length

namespace AudioProcessor

/-- The file is loaded as the speech it was made of. -/
def Playable (processor : AudioProcessor) (file : List UInt8)
    (chunks : List SpeechChunk) : Prop :=
  ∃ decoded, processor.loadAudio file = .ok decoded ∧ Repeats decoded chunks

/-- The raw audio happens to begin as a compressed file, and the decoder reads
the speech out of it. -/
def ReadsAsOther (processor : AudioProcessor) (file : List UInt8)
    (chunks : List SpeechChunk) : Prop :=
  4 ≤ file.length ∧ ∃ format, otherFormat? file = some format ∧
    (processor.other.probe format file).isOk = true ∧
    ∃ decoded, processor.other.decode file = .ok decoded ∧
      Repeats decoded chunks

end AudioProcessor

/-! ## What is written -/

theorem SpeechServer.streamBody_eq_ok {server : SpeechServer}
    {isFirst : Bool} {events : List ChunkEvent} {bytes : List UInt8}
    (streamed : server.streamBody isFirst events = .ok bytes) :
    bytes = (chunksOf events).flatMap SpeechChunk.toPcm16Le := by
  induction events generalizing isFirst bytes with
  | nil =>
      cases streamed
      rfl
  | cons event events ih =>
      cases event with
      | timedOut => cases streamed
      | result chunk =>
          cases chunk with
          | error e => cases streamed
          | ok chunk =>
              obtain ⟨later, rest, whole⟩ := bind_eq_ok streamed
              cases whole
              rw [ih rest]
              rfl

/-- A body that is answered with success is that of the chunks. -/
theorem SpeechServer.post_body {server : SpeechServer}
    {events : List ChunkEvent} {request : JsonValue} {bytes : List UInt8}
    (success : (server.post events request).status.isSuccess = true)
    (body : (server.post events request).body = .ok bytes) :
    bytes = (chunksOf events).flatMap SpeechChunk.toPcm16Le := by
  unfold post at success body
  split at success
  · cases success
  · next text named =>
      simp only [named] at body
      split at success
      · next e _ => cases e <;> cases success
      · next streamed answered =>
          rw [answered] at body
          simp only [streamSynthesize] at answered
          split_ifs at answered
          cases answered
          exact streamBody_eq_ok body

/-- The tool writes the bytes of the chunks and nothing else. -/
theorem ttsTool_eq_ok {speech : SpeechRun} {server : SpeechServer}
    {events : List ChunkEvent} {args : JsonValue} {saved : SavedSpeech}
    (replies : ∀ body, speech.send body = .ok (server.post events body))
    (succeeds : ttsTool speech args = .ok saved) :
    saved.file = (chunksOf events).flatMap SpeechChunk.toPcm16Le := by
  obtain ⟨text, -, succeeds⟩ := bind_eq_ok succeeds
  split at succeeds
  · cases succeeds
  · obtain ⟨reply, replied, succeeds⟩ := bind_eq_ok succeeds
    have posted := mapError_eq_ok replied
    rw [replies, Except.ok.injEq] at posted
    subst posted
    split at succeeds
    · next success =>
        obtain ⟨bytes, read, succeeds⟩ := bind_eq_ok succeeds
        obtain ⟨_, -, succeeds⟩ := bind_eq_ok succeeds
        cases succeeds
        exact SpeechServer.post_body success (mapError_eq_ok read)
    · cases succeeds

/-! ## How it is loaded -/

theorem i16Le_riff {value : Int} (low : -32768 ≤ value) (high : value ≤ 32767)
    (begins : i16Le value = [82, 73]) : value = 18770 := by
  simp only [i16Le, List.cons.injEq, and_true] at begins
  have first := congrArg UInt8.toNat begins.1
  have second := congrArg UInt8.toNat begins.2
  simp only [UInt8.toNat_ofNat'] at first second
  change _ = 82 at first
  change _ = 73 at second
  omega

namespace AudioProcessor

theorem sampleI16_bounds (sample : ℚ) :
    -32768 ≤ sampleI16 sample ∧ sampleI16 sample ≤ 32767 :=
  ⟨le_max_left _ _, max_le (by decide) (min_le_left _ _)⟩

/-- Cutting off never makes a sample louder. -/
theorem sampleI16_le_of_nonneg {sample : ℚ} (positive : 0 < sampleI16 sample) :
    (sampleI16 sample : ℚ) ≤ clampUnit sample * 32767 := by
  rw [sampleI16_eq] at positive ⊢
  unfold truncate at positive ⊢
  split_ifs at positive ⊢ with nonneg
  · exact Int.floor_le _
  · exact absurd positive
      (not_lt.mpr (Int.ceil_nonpos.mpr (not_le.mp nonneg).le))

variable {processor : AudioProcessor} {data : List UInt8}
  {decoded : ExactAudio} {format : AudioFormat}

theorem validateAudio_of_other (long : 4 ≤ data.length)
    (begins : otherFormat? data = some format) :
    processor.validateAudio data = processor.probeMetadata format data := by
  have notRiff : data.take 4 ≠ [82, 73, 70, 70] := by
    intro riff
    match data, long with
    | a :: b :: c :: d :: rest, _ =>
        simp only [List.take_succ_cons, List.take_zero, List.cons.injEq,
          and_true] at riff
        obtain ⟨rfl, rfl, rfl, rfl⟩ := riff
        simp [otherFormat?] at begins
  unfold validateAudio
  rw [if_neg (Nat.not_lt.mpr long), if_neg notRiff]
  unfold otherFormat? at begins
  split_ifs at begins ⊢ <;> simp_all

/-- A file is loaded as a WAV file, or as what it begins as. -/
theorem loadAudio_eq_ok (loads : processor.loadAudio data = .ok decoded) :
    (data.take 4 = [82, 73, 70, 70] ∧ processor.loadWav data = .ok decoded) ∨
      (4 ≤ data.length ∧ ∃ format, otherFormat? data = some format ∧
        (processor.other.probe format data).isOk = true ∧
        processor.other.decode data = .ok decoded) := by
  obtain ⟨known, validated, loads⟩ := bind_eq_ok loads
  by_cases short : data.length < 4
  · rw [validateAudio, if_pos short] at validated
    cases validated
  · by_cases riff : data.take 4 = [82, 73, 70, 70]
    · rw [validateAudio, if_neg short, if_pos riff] at validated
      obtain ⟨spec, -, validated⟩ := bind_eq_ok validated
      dsimp only at validated
      split at validated
      · cases validated
      · cases validated
        exact .inl ⟨riff, loads⟩
    · right
      refine ⟨Nat.not_lt.mp short, ?_⟩
      cases begins : otherFormat? data with
      | none =>
          rw [validateAudio, if_neg short, if_neg riff] at validated
          unfold otherFormat? at begins
          split_ifs at begins with mp3 flac ogg
          rw [if_neg mp3, if_neg flac, if_neg ogg] at validated
          cases validated
      | some format =>
          rw [validateAudio_of_other (Nat.not_lt.mp short) begins] at validated
          obtain ⟨_, probed, rfl⟩ := map_eq_ok (mapError_eq_ok validated)
          refine ⟨_, rfl, by rw [probed]; rfl, ?_⟩
          cases format with
          | wav =>
              unfold otherFormat? at begins
              split_ifs at begins <;> cases begins
          | mp3 | flac | ogg => exact mapError_eq_ok loads

theorem loadAudio_of_other (long : 4 ≤ data.length)
    (begins : otherFormat? data = some format)
    (probed : (processor.other.probe format data).isOk = true)
    (decodes : processor.other.decode data = .ok decoded) :
    processor.loadAudio data = .ok decoded := by
  rw [loadAudio, validateAudio_of_other long begins, probeMetadata]
  cases probe : processor.other.probe format data with
  | error e => rw [probe] at probed; cases probed
  | ok _ =>
      have loads : processor.loadWithSymphonia data = .ok decoded := by
        rw [loadWithSymphonia, decodes]
        rfl
      cases format with
      | wav =>
          unfold otherFormat? at begins
          split_ifs at begins <;> cases begins
      | mp3 | flac | ogg => exact loads

/-- A WAV file of two bytes for each of its samples has samples of a single
byte, which are next to zero when they are loaded. -/
theorem loadWav_quiet (sized : processor.wav.Sized)
    (loads : processor.loadWav data = .ok decoded)
    (half : data.length = 2 * decoded.samples.length) :
    ∀ sample ∈ decoded.samples, |sample| ≤ 128 / 2147483647 := by
  obtain ⟨spec, opened, loads⟩ := bind_eq_ok loads
  obtain ⟨samples, read, loads⟩ := bind_eq_ok loads
  cases loads
  have opens := mapError_eq_ok opened
  have reads := mapError_eq_ok read
  dsimp only at half ⊢
  unfold readSamples at reads
  cases isFormat : spec.sampleFormat with
  | float =>
      rw [isFormat] at reads
      have fits := sized.floats opens isFormat reads
      omega
  | int =>
      rw [isFormat] at reads
      obtain ⟨ints, readInts, rfl⟩ := map_eq_ok reads
      obtain ⟨fits, bounded⟩ := sized.ints opens isFormat readInts
      rw [List.length_map] at half
      have narrow : spec.bitsPerSample.toNat ≤ 8 := by
        by_contra wide
        have bytes : 2 ≤ (spec.bitsPerSample.toNat + 7) / 8 := by omega
        have atLeast := Nat.mul_le_mul_left ints.length bytes
        omega
      intro sample member
      obtain ⟨value, isValue, rfl⟩ := List.mem_map.mp member
      have small : |value| ≤ 128 := (bounded value isValue).trans (by
        have exponent : spec.bitsPerSample.toNat - 1 ≤ 7 := by omega
        exact pow_le_pow_right₀ (by norm_num) exponent)
      have cast : |(value : ℚ)| ≤ 128 := by exact_mod_cast small
      rw [sampleOfInt, abs_div, abs_of_pos (by norm_num : (0 : ℚ) < 2147483647)]
      exact div_le_div_of_nonneg_right cast (by norm_num)

/-- Raw audio that begins as a WAV file has a loud first sample. -/
theorem not_repeats_of_riff (sized : processor.wav.Sized)
    {chunks : List SpeechChunk}
    (riff : (chunks.flatMap SpeechChunk.toPcm16Le).take 4 = [82, 73, 70, 70])
    (loads : processor.loadWav (chunks.flatMap SpeechChunk.toPcm16Le) =
      .ok decoded) : ¬ Repeats decoded chunks := by
  rintro ⟨-, close⟩
  have bytes : chunks.flatMap SpeechChunk.toPcm16Le =
      (chunks.flatMap SpeechChunk.samples).flatMap fun sample =>
        i16Le (sampleI16 sample) :=
    List.flatMap_assoc.symm
  rw [bytes] at riff loads
  have half : ((chunks.flatMap SpeechChunk.samples).flatMap fun sample =>
      i16Le (sampleI16 sample)).length = 2 * decoded.samples.length := by
    rw [List.length_flatMap, close.length_eq]
    simp [i16Le, Nat.mul_comm]
  have quiet := loadWav_quiet sized loads half
  generalize decoded.samples = heardSamples at close quiet
  generalize chunks.flatMap SpeechChunk.samples = spoken at close riff
  cases close with
  | nil => simp at riff
  | @cons heard sample _ samples near _ =>
      rw [List.flatMap_cons] at riff
      have first : i16Le (sampleI16 sample) = [82, 73] := by
        have begins := congrArg (List.take 2) riff
        simpa [i16Le, List.take_append] using begins
      obtain ⟨low, high⟩ := sampleI16_bounds sample
      have loud := i16Le_riff low high first
      have positive : 0 < sampleI16 sample := by omega
      have above := sampleI16_le_of_nonneg positive
      rw [loud] at above
      have small := (abs_le.mp (quiet heard List.mem_cons_self)).2
      have step := (abs_le.mp near).1
      norm_num at above
      linarith

/-- The file of the agent is loaded as the speech exactly when the raw audio
happens to be a compressed file of it. -/
theorem playable_iff_readsAsOther (sized : processor.wav.Sized)
    {speech : SpeechRun} {server : SpeechServer} {events : List ChunkEvent}
    {args : JsonValue} {saved : SavedSpeech}
    (replies : ∀ body, speech.send body = .ok (server.post events body))
    (succeeds : ttsTool speech args = .ok saved) :
    processor.Playable saved.file (chunksOf events) ↔
      processor.ReadsAsOther saved.file (chunksOf events) := by
  constructor
  · rintro ⟨decoded, loads, repeated⟩
    rcases loadAudio_eq_ok loads with ⟨riff, wav⟩ | other
    · rw [ttsTool_eq_ok replies succeeds] at riff wav
      exact absurd repeated (not_repeats_of_riff sized riff wav)
    · obtain ⟨long, format, begins, probed, decodes⟩ := other
      exact ⟨long, format, begins, probed, decoded, decodes, repeated⟩
  · rintro ⟨long, format, begins, probed, decoded, decodes, repeated⟩
    exact ⟨decoded, loadAudio_of_other long begins probed decodes, repeated⟩

/-! ## Two sentences -/

/-- A reader of WAV files that is given none. -/
def refusingLibrary : WavLibrary where
  write _ _ := .error "not used"
  spec _ := .error "no RIFF tag found"
  duration _ := 0
  floatSamples _ := .error "no RIFF tag found"
  intSamples _ := .error "no RIFF tag found"

def listener : AudioProcessor where
  wav := refusingLibrary
  other := ⟨fun _ _ => .error "unsupported format",
    fun _ => .error "unsupported format"⟩
  maxDurationSecs := 1800

def speaker : SpeechServer where
  manager := ⟨["kokoro-onnx"], "kokoro-onnx"⟩
  chunkTimeoutSecs := 30
  errorBody _ := []

def twoSentences : List ChunkEvent :=
  [.result (.ok ⟨[0, 1 / 2], 24000⟩), .result (.ok ⟨[-1], 24000⟩)]

def speakingRun : SpeechRun where
  remainingNs := 2000000000
  send body := .ok (speaker.post twoSentences body)
  readText _ := ""
  path := "/tmp/agent_tts_01.wav"
  write _ := .ok ()
  elapsedMs := 120

def greeting : JsonValue :=
  .object [("text", .string "Hello. Goodbye.")]

theorem twoSentences_not_playable :
    ∃ saved, ttsTool speakingRun greeting = .ok saved ∧
      ¬ listener.Playable saved.file (chunksOf twoSentences) := by
  obtain ⟨saved, succeeds⟩ :
      ∃ saved, ttsTool speakingRun greeting = .ok saved := ⟨_, rfl⟩
  have sized : listener.wav.Sized :=
    ⟨fun opened => (nomatch opened), fun opened => (nomatch opened)⟩
  refine ⟨saved, succeeds, fun playable => ?_⟩
  obtain ⟨-, format, begins, -⟩ :=
    (playable_iff_readsAsOther sized (fun _ => rfl) succeeds).mp playable
  rw [ttsTool_eq_ok (fun _ => rfl) succeeds] at begins
  have unknown : otherFormat? ((chunksOf twoSentences).flatMap
      SpeechChunk.toPcm16Le) = none := by decide +kernel
  rw [unknown] at begins
  cases begins

/-- The bytes begin with a silent sample, and the loader refuses them. -/
theorem twoSentences_unknown_format :
    ∃ saved, ttsTool speakingRun greeting = .ok saved ∧
      saved.file = [0, 0, 255, 63, 1, 128] ∧
      exampleProcessor.loadAudio saved.file =
        .error (.invalid "Unknown audio format") ∧
      ¬ exampleProcessor.Playable saved.file (chunksOf twoSentences) := by
  obtain ⟨saved, succeeds⟩ :
      ∃ saved, ttsTool speakingRun greeting = .ok saved := ⟨_, rfl⟩
  have file : saved.file = [0, 0, 255, 63, 1, 128] := by
    rw [ttsTool_eq_ok (fun _ => rfl) succeeds]
    decide +kernel
  have refused : exampleProcessor.loadAudio [0, 0, 255, 63, 1, 128] =
      .error (.invalid "Unknown audio format") := by rfl
  refine ⟨saved, succeeds, file, by rw [file, refused], ?_⟩
  rintro ⟨decoded, loads, -⟩
  rw [file, refused] at loads
  cases loads

end AudioProcessor

end TorchInference
