import TorchInference.GenerationStops
import TorchInference.Utf8Units

/-!
# The pieces that are streamed

Every token is decoded on its own.  Under a vocabulary of bytes the pieces add
up to the decoded text exactly when no token ends inside a unit of the byte
string.
-/

namespace TorchInference

/-- The vocabulary gives bytes to each token, none to a special one; a decoding
is lossy where the bytes are no UTF-8. -/
def HrmTokenizer.ByteLevel (tokenizer : HrmTokenizer)
    (bytes : UInt32 → List UInt8) : Prop :=
  ∀ ids, tokenizer.decode ids =
    .ok (String.ofList (LossyUtf8.decode (ids.flatMap bytes)))

/-- Every token ends where a unit of the byte string ends. -/
def EndsAtUnits (bytes : UInt32 → List UInt8) (ids : List UInt32) : Prop :=
  ∀ before after, ids = before ++ after →
    LossyUtf8.Boundary (ids.flatMap bytes) (before.flatMap bytes).length

/-- The ids of the tokens that are streamed. -/
def idsOf (events : List EngineEvent) : List UInt32 :=
  (sentOf events).map fun sent => sent.1.toUInt32

def piecesOf (events : List EngineEvent) : List String :=
  (sentOf events).map Prod.snd

/-- What is streamed with a token is its piece. -/
def EngineEvent.SendsPiece (tokenizer : HrmTokenizer) (event : EngineEvent) :
    Prop :=
  ∀ sent, event.sent? = some sent → sent.2 = tokenizer.piece sent.1

theorem EngineEvent.QuietWithin.sendsPiece {bound : Nat} {event : EngineEvent}
    (quiet : event.QuietWithin bound) (tokenizer : HrmTokenizer) :
    event.SendsPiece tokenizer := by
  intro sent sends
  rw [quiet.2] at sends
  cases sends

theorem streamed_sendsPiece (tokenizer : HrmTokenizer) (token : Nat) :
    (EngineEvent.streamed token (tokenizer.piece token)).SendsPiece
      tokenizer := by
  intro sent sends
  cases sends
  rfl

theorem HrmEngine.completeLoop_sendsPiece (engine : HrmEngine)
    (env : GenerationEnv) (temperature : Float32) (n i : Nat)
    (ids : List Nat) :
    ∀ event ∈ (engine.completeLoop env temperature n i ids).events,
      event.SendsPiece engine.tokenizer := by
  induction n generalizing i ids with
  | zero => exact Traced.forall_events_pure _
  | succ n ih =>
      refine Traced.forall_events_bind (fun event mem =>
        (HrmEngine.sampled_quiet (Nat.le_refl _) event mem).sendsPiece _) ?_
      intro next _
      split_ifs with ends full connected
      · exact Traced.forall_events_pure _
      · exact Traced.forall_events_pure _
      · exact Traced.forall_events_bind
          (Traced.forall_events_emit (streamed_sendsPiece _ next))
          fun _ _ => ih (i + 1) (ids ++ [next])
      · exact Traced.forall_events_pure _

theorem HrmEngine.complete_sendsPiece (engine : HrmEngine)
    (env : GenerationEnv) (temperature : Float32) (prompt : String)
    (maxTokens : UInt32) :
    ∀ event ∈ (engine.complete env temperature prompt maxTokens).events,
      event.SendsPiece engine.tokenizer :=
  Traced.forall_events_bind (Traced.forall_events_lift _)
    fun ids _ => completeLoop_sendsPiece engine env temperature _ 0 ids

theorem SmolVlmEngine.generateLoop_sendsPiece (engine : SmolVlmEngine)
    (env : GenerationEnv) (temperature : Float32) (n i : Nat)
    (state : DecodeState) :
    ∀ event ∈ (engine.generateLoop env temperature n i state).events,
      event.SendsPiece engine.tokenizer := by
  induction n generalizing i state with
  | zero => exact Traced.forall_events_pure _
  | succ n ih =>
      rw [generateLoop]
      by_cases full : engine.maxCtxSize ≤
          (state.pastLen + state.curSeqLen).toUInt32
      · rw [if_pos full]
        exact Traced.forall_events_pure _
      rw [if_neg full]
      refine Traced.forall_events_bind (fun event mem =>
        (advance_quiet (Nat.le_refl _) event mem).sendsPiece _) ?_
      rintro ⟨next, after⟩ _
      dsimp only
      split_ifs with ends connected
      · exact Traced.forall_events_pure _
      · refine Traced.forall_events_bind
          (Traced.forall_events_emit (streamed_sendsPiece _ next))
          fun _ _ => ?_
        exact Traced.forall_events_bind (fun event mem =>
          (feed_quiet (Nat.le_refl 1) event mem).sendsPiece _)
          fun later _ => ih (i + 1) later
      · exact Traced.forall_events_pure _

theorem SmolVlmEngine.generate_sendsPiece (engine : SmolVlmEngine)
    (env : GenerationEnv) (temperature : Float32) (ids : List Nat)
    (image : Option (List UInt8)) (maxTokens : UInt32) :
    ∀ event ∈ (engine.generate env temperature ids image maxTokens).events,
      event.SendsPiece engine.tokenizer := by
  rw [generate]
  split_ifs
  · exact Traced.forall_events_fail _
  · exact Traced.forall_events_bind (fun event mem =>
      (quiet_of_embedded (Nat.le_refl _) (promptEmbeds_events ids image) event
        mem).sendsPiece _)
      fun embeds _ => generateLoop_sendsPiece engine env temperature _ 0 _

theorem piecesOf_eq {tokenizer : HrmTokenizer} {bytes : UInt32 → List UInt8}
    (vocabulary : tokenizer.ByteLevel bytes) {events : List EngineEvent}
    (pieces : ∀ event ∈ events, event.SendsPiece tokenizer) :
    piecesOf events = (idsOf events).map fun id =>
      String.ofList (LossyUtf8.decode (bytes id)) := by
  rw [piecesOf, idsOf, List.map_map]
  apply List.map_congr_left
  intro sent mem
  obtain ⟨event, here, sends⟩ := List.mem_filterMap.mp mem
  rw [pieces event here sent sends, HrmTokenizer.piece,
    HrmTokenizer.decodeSingle, vocabulary, List.flatMap_singleton]
  rfl

/-- Pieces that are decoded one by one add up to the decoded text exactly when
every token ends at a unit. -/
theorem join_pieces_iff {tokenizer : HrmTokenizer}
    {bytes : UInt32 → List UInt8} (vocabulary : tokenizer.ByteLevel bytes)
    {events : List EngineEvent}
    (pieces : ∀ event ∈ events, event.SendsPiece tokenizer) :
    tokenizer.decode (idsOf events) = .ok (String.join (piecesOf events)) ↔
      EndsAtUnits bytes (idsOf events) := by
  rw [vocabulary, piecesOf_eq vocabulary pieces]
  generalize idsOf events = ids
  have texts : (String.join (ids.map fun id =>
      String.ofList (LossyUtf8.decode (bytes id)))).toList =
        ((ids.map bytes).map LossyUtf8.decode).flatten := by
    rw [String.toList_join, List.flatMap_def, List.map_map, List.map_map]
    apply congrArg List.flatten
    apply List.map_congr_left
    intro id _
    exact String.toList_ofList
  have whole : ids.flatMap bytes = (ids.map bytes).flatten :=
    List.flatMap_def
  rw [Except.ok.injEq, ← String.toList_inj, texts, String.toList_ofList, whole,
    eq_comm, LossyUtf8.decode_flatten_iff]
  constructor
  · intro boundaries before after cut
    have here := boundaries (before.map bytes) (after.map bytes)
      (by rw [cut, List.map_append])
    rw [whole, List.flatMap_def]
    exact here
  · intro ends front back cut
    obtain ⟨before, after, rfl, rfl, rfl⟩ := List.map_eq_append_iff.mp cut
    have here := ends before after rfl
    rw [whole, List.flatMap_def] at here
    exact here

/-- **The streamed pieces and the decoded text.**  Under a vocabulary of bytes,
in every run of either engine, the pieces that are sent add up to the decoding
of their ids exactly when every one of the ids ends at a unit of the bytes. -/
theorem streamed_pieces_iff {hrm : HrmEngine} {vlm : SmolVlmEngine}
    {hrmBytes vlmBytes : UInt32 → List UInt8}
    (hrmVocabulary : hrm.tokenizer.ByteLevel hrmBytes)
    (vlmVocabulary : vlm.tokenizer.ByteLevel vlmBytes)
    (hrmEnv vlmEnv : GenerationEnv) (hrmTemperature vlmTemperature : Float32)
    (prompt : String) (promptIds : List Nat) (image : Option (List UInt8))
    (hrmMax vlmMax : UInt32) {hrmIds vlmIds : List UInt32}
    (hrmGenerated :
      idsOf (hrm.complete hrmEnv hrmTemperature prompt hrmMax).events = hrmIds)
    (vlmGenerated : idsOf (vlm.generate vlmEnv vlmTemperature promptIds image
      vlmMax).events = vlmIds) :
    (hrm.tokenizer.decode hrmIds = .ok (String.join (piecesOf
        (hrm.complete hrmEnv hrmTemperature prompt hrmMax).events)) ↔
      EndsAtUnits hrmBytes hrmIds) ∧
    (vlm.tokenizer.decode vlmIds = .ok (String.join (piecesOf
        (vlm.generate vlmEnv vlmTemperature promptIds image vlmMax).events)) ↔
      EndsAtUnits vlmBytes vlmIds) := by
  subst hrmGenerated vlmGenerated
  exact ⟨join_pieces_iff hrmVocabulary
      (hrm.complete_sendsPiece hrmEnv hrmTemperature prompt hrmMax),
    join_pieces_iff vlmVocabulary
      (vlm.generate_sendsPiece vlmEnv vlmTemperature promptIds image vlmMax)⟩

/-- A tokenizer of bytes. -/
def byteTokenizer (bytes : UInt32 → List UInt8) : HrmTokenizer where
  encodeWith _ _ := .ok [0]
  decodeWith ids _ :=
    .ok (String.ofList (LossyUtf8.decode (ids.flatMap bytes)))

theorem byteTokenizer_byteLevel (bytes : UInt32 → List UInt8) :
    (byteTokenizer bytes).ByteLevel bytes :=
  fun _ => rfl

theorem secondToken_pieces_iff :
    (byteTokenizer fun _ => [0x61]).decode [1, 1] =
        .ok (String.join (piecesOf ((secondToken
          (byteTokenizer fun _ => [0x61]) 3).complete
            ⟨fun _ => 0.0, fun _ => true⟩ 0.0 "a" 5).events)) ↔
      EndsAtUnits (fun _ => [0x61]) [1, 1] :=
  (@streamed_pieces_iff (secondToken (byteTokenizer fun _ => [0x61]) 3)
    (.counting (byteTokenizer fun _ => [0x61]) (fun _ => [1.0]) 3) _ _
    (byteTokenizer_byteLevel _) (byteTokenizer_byteLevel _) _
    ⟨fun _ => 0.0, fun _ => true⟩ _ 0.0 _ [1] none _ 1 _ _
    (by decide +kernel) rfl).1

/-- An engine whose first two tokens are the two bytes of one character. -/
def splitCharacter : HrmEngine where
  session ids := .ok ⟨[1, 1, 3],
    if ids.length = 1 then [0.0, 1.0, 0.0]
    else if ids.length = 2 then [0.0, 0.0, 1.0]
    else [1.0, 0.0, 0.0]⟩
  tokenizer := byteTokenizer fun id =>
    if id = 1 then [0xC3] else if id = 2 then [0xA9] else []
  runtime := ⟨0, 1024, 3⟩

theorem splitCharacter_pieces :
    splitCharacter.tokenizer.ByteLevel (fun id =>
      if id = 1 then [0xC3] else if id = 2 then [0xA9] else []) ∧
    idsOf (splitCharacter.complete ⟨fun _ => 0.0, fun _ => true⟩ 0.0 "a"
      5).events = [1, 2] ∧
    splitCharacter.tokenizer.decode [1, 2] = .ok "é" ∧
    String.join (piecesOf (splitCharacter.complete
      ⟨fun _ => 0.0, fun _ => true⟩ 0.0 "a" 5).events) ≠ "é" :=
  ⟨fun _ => rfl, by decide +kernel, by decide +kernel, by decide +kernel⟩

end TorchInference
