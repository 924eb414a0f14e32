import TorchInference.ChatStream

/-!
# A chat survives the wire

However the bytes of a chat are cut into chunks, the client sees the lines of
the text, and the fragments it yields add up to the tokens.
-/

namespace TorchInference

namespace ChatStream

variable {parse : List Char → Option JsonValue}

/-! ## Chunks -/

/-- What follows is handled unless the marker has come. -/
def andThen (before later : List JsonValue × Bool) : List JsonValue × Bool :=
  if before.2 then (before.1, true) else (before.1 ++ later.1, later.2)

theorem andThen_cons (delta : JsonValue) (before later : List JsonValue × Bool) :
    andThen (delta :: before.1, before.2) later =
      (delta :: (andThen before later).1, (andThen before later).2) := by
  unfold andThen
  split_ifs <;> rfl

/-- Lines are handled one after the other, up to the marker. -/
theorem streamLines_append (lines later : List (List Char)) :
    streamLines parse (lines ++ later) =
      andThen (streamLines parse lines) (streamLines parse later) := by
  induction lines with
  | nil => rfl
  | cons line lines ih =>
      rw [List.cons_append, streamLines, streamLines]
      by_cases isData : "data:".toList.isPrefixOf line = true
      · rw [if_pos isData, if_pos isData]
        dsimp only
        by_cases isDone : trim (line.drop 5) = "[DONE]".toList
        · rw [if_pos isDone, if_pos isDone]
          rfl
        rw [if_neg isDone, if_neg isDone, ih]
        cases (parse (trim (line.drop 5))).bind deltaContent with
        | none => rfl
        | some delta =>
            dsimp only
            by_cases truthy : isTruthy delta = true
            · rw [if_pos truthy, if_pos truthy, andThen_cons]
            · rw [if_neg truthy, if_neg truthy]
      · rw [if_neg isData, if_neg isData]
        exact ih

/-- The client handles the lines of all that has been decoded, whatever the
chunks are. -/
theorem readChunks_eq {decoder : LossyUtf8.TextDecoder} {buf : List Char}
    (noLine : DelimitedText.cutAt '\n' buf = ([], buf))
    (chunks : List (List UInt8)) :
    readChunks parse decoder buf chunks =
      streamLines parse (DelimitedText.cutAt '\n'
        (buf ++ (decoder.texts chunks).flatten)).1 := by
  induction chunks generalizing decoder buf with
  | nil =>
      rw [LossyUtf8.TextDecoder.texts, List.flatten_nil, List.append_nil,
        noLine]
      rfl
  | cons chunk chunks ih =>
      have later := @ih (decoder.decode chunk).2 _
        (DelimitedText.cutAt_rest (buf ++ (decoder.decode chunk).1))
      rw [LossyUtf8.TextDecoder.texts, List.flatten_cons, ← List.append_assoc,
        DelimitedText.cutAt_append, streamLines_append, ← later]
      rfl

/-- **The chunks of the encoding of a text** are handled like its lines. -/
theorem streamChatCompletion_eq {chunks : List (List UInt8)}
    {text : List Char} (whole : chunks.flatten = LossyUtf8.encode text)
    (noMark : text.head? ≠ some '\uFEFF') :
    streamChatCompletion parse (some chunks) =
      streamLines parse (DelimitedText.cutAt '\n' text).1 := by
  rw [streamChatCompletion, readChunks_eq rfl, List.nil_append,
    LossyUtf8.TextDecoder.flatten_texts (by exact whole)
      LossyUtf8.firstChar_nil (.inr noMark)]

end ChatStream

/-! ## The text of an event -/

theorem mem_enclose {σ : Type*} {opening separator closing symbol : σ}
    {texts : List (List σ)}
    (mem : symbol ∈ UniqueReading.enclose opening separator closing texts) :
    symbol = opening ∨ symbol = separator ∨ symbol = closing ∨
      ∃ text ∈ texts, symbol ∈ text := by
  rw [UniqueReading.enclose, List.mem_cons, List.mem_append,
    List.mem_singleton] at mem
  rcases mem with rfl | inside | rfl
  · exact .inl rfl
  · cases texts with
    | nil => cases inside
    | cons text texts =>
        rw [UniqueReading.separated, List.mem_append, List.mem_flatMap]
          at inside
        rcases inside with here | ⟨other, mem, here⟩
        · exact .inr (.inr (.inr ⟨text, List.mem_cons_self, here⟩))
        · rcases List.mem_cons.mp here with rfl | here
          · exact .inr (.inl rfl)
          · exact .inr (.inr (.inr
              ⟨other, List.mem_cons_of_mem text mem, here⟩))
  · exact .inr (.inr (.inl rfl))

namespace CanonicalJson

theorem newline_not_mem_escapeChar (c : Char) : '\n' ∉ escapeChar c := by
  have digit : ∀ n < 16, '\n' ≠ Nat.digitChar n := by decide
  unfold escapeChar
  split_ifs with quote backslash backspace tab newline
  any_goals decide
  · have high := digit (c.toNat / 16) (by omega)
    have low := digit (c.toNat % 16) (Nat.mod_lt _ (by decide))
    simp [high, low]
  · rw [List.mem_singleton]
    exact fun same => newline same.symm

theorem newline_not_mem_stringText (value : String) :
    '\n' ∉ stringText value := by
  rw [stringText, List.mem_cons, List.mem_append, List.mem_flatMap]
  rintro (quote | ⟨c, -, mem⟩ | quote)
  · cases quote
  · exact newline_not_mem_escapeChar c mem
  · cases List.mem_singleton.mp quote

/-- A JSON text has no line break. -/
theorem newline_not_mem_text (floats : FloatText) {value : JsonValue}
    (wellFormed : value.WellFormed) :
    '\n' ∉ writeCanonicalJson floats value := by
  induction wellFormed with
  | null => simp [writeCanonicalJson]
  | bool value => cases value <;> simp [writeCanonicalJson]
  | number value wellFormed =>
      intro mem
      have isNumber := numberText_chars floats wellFormed _ mem
      cases isNumber
  | string value => exact newline_not_mem_stringText value
  | array values _ ih =>
      rw [writeCanonicalJson_array]
      intro mem
      rcases mem_enclose mem with same | same | same | ⟨text, here, mem⟩
      · cases same
      · cases same
      · cases same
      · obtain ⟨value, member, rfl⟩ := List.mem_map.mp here
        exact ih value member mem
  | object entries _ _ ih =>
      rw [writeCanonicalJson_object]
      intro mem
      rcases mem_enclose mem with same | same | same | ⟨text, here, mem⟩
      · cases same
      · cases same
      · cases same
      · obtain ⟨entry, sorted, rfl⟩ := List.mem_map.mp here
        have member := (sortByKey_perm entries).mem_iff.mp sorted
        rw [writeMember, memberText, List.mem_append, List.mem_cons] at mem
        rcases mem with inKey | same | inValue
        · exact newline_not_mem_stringText entry.1 inKey
        · cases same
        · exact ih entry member inValue

end CanonicalJson

/-! ## Reading the text back -/

/-- A value that is read back as another one: everything but the numbers is
kept. -/
inductive JsonValue.ReadAs : JsonValue → JsonValue → Prop
  | null : ReadAs .null .null
  | bool (value : Bool) : ReadAs (.bool value) (.bool value)
  | number (value read : JsonNumber) : ReadAs (.number value) (.number read)
  | string (value : String) : ReadAs (.string value) (.string value)
  | array {values reads : List JsonValue}
      (items : List.Forall₂ ReadAs values reads) :
      ReadAs (.array values) (.array reads)
  | object {entries reads : List (String × JsonValue)}
      (members : ∀ key,
        Option.Rel ReadAs (entries.lookup key) (reads.lookup key)) :
      ReadAs (.object entries) (.object reads)

namespace JsonValue

theorem ReadAs.field {value read found : JsonValue}
    (same : ReadAs value read) (key : String)
    (here : value.field key = some found) :
    ∃ other, read.field key = some other ∧ ReadAs found other := by
  cases same with
  | @object entries reads members =>
      have related := members key
      have looked : entries.lookup key = some found := here
      rw [looked] at related
      cases readKey : reads.lookup key with
      | none =>
          rw [readKey] at related
          cases related
      | some other =>
          rw [readKey] at related
          cases related with
          | some related => exact ⟨other, readKey, related⟩
  | null | bool | number | string | array => cases here

theorem ReadAs.first {read found : JsonValue} {values : List JsonValue}
    (same : ReadAs (.array (found :: values)) read) :
    ∃ other, ChatStream.first read = some other ∧ ReadAs found other := by
  cases same with
  | array items =>
      cases items with
      | cons first rest => exact ⟨_, rfl, first⟩

theorem ReadAs.refl (value : JsonValue) : ReadAs value value := by
  induction value using memberInduction with
  | null => exact .null
  | bool value => exact .bool value
  | number value => exact .number value value
  | string value => exact .string value
  | array values ih => exact .array (List.forall₂_same.mpr ih)
  | object entries ih =>
      refine .object fun key => ?_
      cases looked : entries.lookup key with
      | none => exact .none
      | some value =>
          obtain ⟨before, after, rfl, -⟩ := List.lookup_eq_some_iff.mp looked
          exact .some (ih (key, value) (by simp))

end JsonValue

/-- The content of a chunk is read back. -/
theorem deltaContent_of_readAs {id model content : String} {created : UInt64}
    {data read : JsonValue}
    (chunk : sseChunk id created content model = .json data)
    (same : data.ReadAs read) :
    ChatStream.deltaContent read = some (.string content) := by
  cases chunk
  obtain ⟨choices, hasChoices, sameChoices⟩ := same.field "choices" rfl
  obtain ⟨choice, hasChoice, sameChoice⟩ := sameChoices.first
  obtain ⟨delta, hasDelta, sameDelta⟩ := sameChoice.field "delta" rfl
  obtain ⟨text, hasContent, sameContent⟩ := sameDelta.field "content" rfl
  cases sameContent
  rw [ChatStream.deltaContent, hasChoices, Option.bind_some, hasChoice,
    Option.bind_some, hasDelta, Option.bind_some]
  exact hasContent

/-! ## The lines of a chat -/

namespace ChatStream

variable {parse : List Char → Option JsonValue} (floats : FloatText)

/-- `trim` takes the blank before the data of an event. -/
theorem trim_data (inside : List Char) :
    trim (' ' :: '\x7b' :: (inside ++ ['\x7d'])) =
      '\x7b' :: (inside ++ ['\x7d']) := by
  have opening : isSpace '\x7b' = false := by decide
  have closing : isSpace '\x7d' = false := by decide
  have turned : ('\x7b' :: (inside ++ ['\x7d'])).reverse =
      '\x7d' :: ('\x7b' :: inside).reverse := by
    rw [← List.cons_append, List.reverse_append]
    rfl
  rw [trim, List.dropWhile_cons_of_pos (by decide),
    List.dropWhile_cons_of_neg (by rw [opening]; decide), turned,
    List.dropWhile_cons_of_neg (by rw [closing]; decide), ← turned,
    List.reverse_reverse]

/-- The text of an event, with its empty line. -/
def eventText (event : SseEvent) : List Char :=
  "data: ".toList ++ event.dataText floats ++ ['\n', '\n']

theorem cutAt_eventText {event : SseEvent}
    (oneLine : '\n' ∉ event.dataText floats) (text : List Char) :
    (DelimitedText.cutAt '\n' (eventText floats event ++ text)).1 =
      ("data: ".toList ++ event.dataText floats) :: [] ::
        (DelimitedText.cutAt '\n' text).1 := by
  have free : '\n' ∉ "data: ".toList ++ event.dataText floats := by
    rw [List.mem_append]
    rintro (inLabel | inData)
    · exact absurd inLabel (by decide)
    · exact oneLine inData
  have lines : eventText floats event ++ text =
      ("data: ".toList ++ event.dataText floats) ++ '\n' :: '\n' :: text :=
    List.append_assoc ("data: ".toList ++ event.dataText floats) ['\n', '\n']
      text
  rw [lines, DelimitedText.cutAt_piece free, DelimitedText.cutAt_separator]

theorem wellFormed_sseChunk {id content model : String} {created : UInt64}
    {data : JsonValue}
    (chunk : sseChunk id created content model = .json data) :
    data.WellFormed := by
  cases chunk
  have delta : (JsonValue.object [("content", .string content)]).WellFormed :=
    .object _ (by simp) (List.forall_mem_singleton.mpr (.string _))
  have choice : (JsonValue.object [("index", .number (.posInt 0)),
      ("delta", .object [("content", .string content)]),
      ("finish_reason", .null)]).WellFormed := by
    refine .object _ (by simp) ?_
    rw [List.forall_mem_cons, List.forall_mem_cons, List.forall_mem_singleton]
    exact ⟨.number _ trivial, delta, .null⟩
  refine .object _ (by simp) ?_
  rw [List.forall_mem_cons, List.forall_mem_cons, List.forall_mem_cons,
    List.forall_mem_cons, List.forall_mem_singleton]
  exact ⟨.string _, .string _, .number _ trivial, .string _,
    .array _ (List.forall_mem_singleton.mpr choice)⟩

/-- A line with data between braces is parsed. -/
theorem streamLines_data (inside : List Char) (lines : List (List Char)) :
    streamLines parse (("data: ".toList ++ '\x7b' :: (inside ++ ['\x7d'])) ::
        lines) =
      match (parse ('\x7b' :: (inside ++ ['\x7d']))).bind deltaContent with
      | none => streamLines parse lines
      | some delta =>
          if isTruthy delta then
            (delta :: (streamLines parse lines).1, (streamLines parse lines).2)
          else streamLines parse lines := by
  have isData : "data:".toList.isPrefixOf
      ("data: ".toList ++ '\x7b' :: (inside ++ ['\x7d'])) = true := rfl
  have dropped : ("data: ".toList ++ '\x7b' :: (inside ++ ['\x7d'])).drop 5 =
      ' ' :: '\x7b' :: (inside ++ ['\x7d']) := rfl
  have noMarker : '\x7b' :: (inside ++ ['\x7d']) ≠ "[DONE]".toList := by
    intro marker
    cases (List.cons.inj marker).1
  rw [streamLines, if_pos isData]
  dsimp only
  rw [dropped, trim_data]
  exact if_neg noMarker

/-- The line of a chunk and the empty line behind it give its content, if there
is one. -/
theorem streamLines_chunk {id content model : String} {created : UInt64}
    {data read : JsonValue}
    (chunk : sseChunk id created content model = .json data)
    (parses : parse (CanonicalJson.writeCanonicalJson floats data) = some read)
    (same : data.ReadAs read) (lines : List (List Char)) :
    streamLines parse (("data: ".toList ++
        CanonicalJson.writeCanonicalJson floats data) :: [] :: lines) =
      if content = "" then streamLines parse lines
      else (.string content :: (streamLines parse lines).1,
        (streamLines parse lines).2) := by
  obtain ⟨inside, braces⟩ : ∃ inside,
      CanonicalJson.writeCanonicalJson floats data =
        '\x7b' :: (inside ++ ['\x7d']) := by
    cases chunk
    exact ⟨_, CanonicalJson.writeCanonicalJson_object floats _⟩
  have skips : streamLines parse ([] :: lines) = streamLines parse lines := rfl
  rw [braces] at parses
  rw [braces, streamLines_data, parses, Option.bind_some,
    deltaContent_of_readAs chunk same, skips]
  by_cases empty : content = ""
  · subst empty
    rfl
  · dsimp only
    rw [if_pos (by simp [isTruthy, empty]), if_neg empty]

/-- The texts of the tokens and of the marker. -/
def chatText (id model : String) (created : UInt64) (tokens : List String) :
    List Char :=
  tokens.flatMap (fun token =>
    eventText floats (sseChunk id created token model)) ++
      eventText floats sseDone

theorem chatText_cons (id model : String) (created : UInt64) (token : String)
    (tokens : List String) :
    chatText floats id model created (token :: tokens) =
      eventText floats (sseChunk id created token model) ++
        chatText floats id model created tokens := by
  rw [chatText, List.flatMap_cons, List.append_assoc]
  rfl

theorem encode_append (text other : List Char) :
    LossyUtf8.encode (text ++ other) =
      LossyUtf8.encode text ++ LossyUtf8.encode other :=
  List.flatMap_append

theorem encode_chatText (id model : String) (created : UInt64)
    (tokens : List String) :
    LossyUtf8.encode (chatText floats id model created tokens) =
      (tokens.map fun token =>
        (sseChunk id created token model).wire floats).flatten ++
          sseDone.wire floats := by
  induction tokens with
  | nil => rfl
  | cons token tokens ih =>
      rw [chatText_cons, encode_append, ih, List.map_cons, List.flatten_cons,
        List.append_assoc]
      rfl

/-- `JSON.parse` reads back what `serde_json` has written of these tokens, up to
the numbers. -/
def ReadsBack (parse : List Char → Option JsonValue) (id model : String)
    (created : UInt64) (tokens : List String) : Prop :=
  ∀ token ∈ tokens, ∀ data, sseChunk id created token model = .json data →
    ∃ read, parse (CanonicalJson.writeCanonicalJson floats data) = some read ∧
      data.ReadAs read

/-- The lines of a chat give the tokens that are not empty, and the marker. -/
theorem streamLines_chatText {id model : String} {created : UInt64}
    {tokens : List String} (reads : ReadsBack floats parse id model created
      tokens) :
    streamLines parse (DelimitedText.cutAt '\n'
        (chatText floats id model created tokens)).1 =
      ((tokens.filter (· != "")).map JsonValue.string, true) := by
  induction tokens with
  | nil => rfl
  | cons token tokens ih =>
      obtain ⟨data, chunk⟩ : ∃ data,
          sseChunk id created token model = .json data := ⟨_, rfl⟩
      obtain ⟨read, parses, same⟩ :=
        reads token List.mem_cons_self data chunk
      have oneLine : '\n' ∉ (SseEvent.json data).dataText floats :=
        CanonicalJson.newline_not_mem_text floats (wellFormed_sseChunk chunk)
      rw [chatText_cons, chunk, cutAt_eventText floats oneLine]
      show streamLines parse (("data: ".toList ++
        CanonicalJson.writeCanonicalJson floats data) :: [] :: _) = _
      rw [streamLines_chunk floats chunk parses same,
        ih fun other mem => reads other (List.mem_cons_of_mem token mem)]
      by_cases empty : token = ""
      · rw [if_pos empty, List.filter_cons_of_neg (by simp [empty])]
      · rw [if_neg empty, List.filter_cons_of_pos (by simp [empty])]
        rfl

theorem join_nonempty (tokens : List String) :
    String.join (tokens.filter (· != "")) = String.join tokens := by
  induction tokens with
  | nil => rfl
  | cons token tokens ih =>
      rw [String.join_cons, ← ih]
      by_cases empty : token = ""
      · rw [List.filter_cons_of_neg (by simp [empty]), empty,
          String.empty_append]
      · rw [List.filter_cons_of_pos (by simp [empty]), String.join_cons]

/-- **A chat survives the wire.**  However the bytes of the events are cut into
chunks, the client returns at the marker, and the fragments it has yielded are
strings that add up to the tokens. -/
theorem tokens_survive {floats : FloatText}
    {parse : List Char → Option JsonValue} {id model : String}
    {created : UInt64} {tokens : List String}
    (reads : ReadsBack floats parse id model created tokens)
    {chunks : List (List UInt8)}
    (cut : chunks.flatten = (tokens.map fun token =>
      (sseChunk id created token model).wire floats).flatten ++
        sseDone.wire floats) :
    ∃ fragments : List String,
      streamChatCompletion parse (some chunks) =
        (fragments.map JsonValue.string, true) ∧
      String.join fragments = String.join tokens := by
  refine ⟨tokens.filter (· != ""), ?_, join_nonempty tokens⟩
  rw [← encode_chatText] at cut
  rw [streamChatCompletion_eq cut, streamLines_chatText floats reads]
  cases tokens with
  | nil => exact fun mark => by cases mark
  | cons token tokens => exact fun mark => by cases mark

/-- A formatter of floats that writes their bits. -/
def bitsText : FloatText where
  text bits := Nat.toDigits 10 bits.toNat ++ ['.', '0']
  injective _ _ same := UInt64.toNat_inj.mp
    (CanonicalJson.decimal_injective (List.append_cancel_right same))
  numberChars bits _ c mem := by
    rcases List.mem_append.mp mem with digits | fraction
    · exact CanonicalJson.decimal_numberChars c digits
    · rcases List.mem_pair.mp fraction with rfl | rfl
      · decide
      · decide
  fractional _ _ := .inl (List.mem_append_right _ List.mem_cons_self)

/-- The data of a chunk. -/
def chunkData (id model : String) (created : UInt64) (token : String) :
    JsonValue :=
  match sseChunk id created token model with
  | .json data => data
  | .text _ => .null

theorem marker_token_survives :
    ∃ fragments : List String,
      streamChatCompletion
        (fun text =>
          if text = CanonicalJson.writeCanonicalJson bitsText
            (chunkData "chatcmpl-1" "hrm-text-1b" 0 "[DONE]\né") then
            some (chunkData "chatcmpl-1" "hrm-text-1b" 0 "[DONE]\né")
          else none)
        (some ((((sseChunk "chatcmpl-1" 0 "[DONE]\né" "hrm-text-1b").wire
          bitsText ++ sseDone.wire bitsText)).map fun byte => [byte])) =
        (fragments.map JsonValue.string, true) ∧
      String.join fragments = String.join ["[DONE]\né"] := by
  refine @tokens_survive bitsText _ "chatcmpl-1" "hrm-text-1b" 0 ["[DONE]\né"]
    ?_ _ ?_
  · intro token mem data chunk
    cases List.mem_singleton.mp mem
    cases chunk
    exact ⟨_, if_pos rfl, .refl _⟩
  · have one (bytes : List UInt8) :
        (bytes.map fun byte => [byte]).flatten = bytes := by
      rw [← List.flatMap_def, List.flatMap_singleton']
    exact (one _).trans (congrArg (· ++ _) (List.append_nil _).symm)

end ChatStream

end TorchInference
