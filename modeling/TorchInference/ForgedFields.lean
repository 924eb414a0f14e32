import TorchInference.FieldReadings
import TorchInference.LogMessages

/-!
# Fields that headers forge

The correlation id and the user agent of a request are written into its log lines
without quotation marks.  The lines of all requests with two such texts are read
back as they were logged just when the texts alone name none of the fields that
the viewer shows and leave no value open.
-/

namespace TorchInference

namespace LogLines

/-! ## What is expected -/

/-- The fields that the viewer shows are those that were logged. -/
structure LoggedAs (fields : List (List Char × List Char))
    (method path : List Char) (status durationMs : Option (List Char))
    (event : List Char) : Prop where
  method : fields.lookup "method".toList = some method
  path : fields.lookup "path".toList = some path
  status : fields.lookup "status".toList = status
  durationMs : fields.lookup "duration_ms".toList = durationMs
  event : fields.lookup "event".toList = some event

/-- Both lines of a request are read back as they were logged; the first one has
no status and no duration. -/
structure ReadsBack (request : IncomingRequest) : Prop where
  received : LoggedAs (parseLogFields (receivedMessage request)).fields
    request.method.text request.path.text none none "request_received".toList
  completed : ∀ response,
    LoggedAs (parseLogFields (completedMessage request response)).fields
      request.method.text request.path.text
      (some (Nat.toDigits 10 response.status.toNat))
      (some (Nat.toDigits 10 response.durationMs.toNat))
      "request_completed".toList

def idField (correlationId : List Char) : List Char × LoggedValue :=
  ("correlation_id".toList, .display correlationId)

def agentField (userAgent : List Char) : List Char × LoggedValue :=
  ("user_agent".toList, .display userAgent)

/-- The fields that only the request itself may give, in both of its lines. -/
def requestKeys : List (List Char) :=
  ["method".toList, "path".toList, "status".toList, "duration_ms".toList]

/-- The id leaves no value open and gives no status and no duration.  The user
agent names neither these nor a method or a path; it may leave a value open only
where the event has been given before and does not stand in the value. -/
def Unforged (correlationId userAgent : List Char) : Prop :=
  ∃ own others unclosed,
    Reads (fieldText (idField correlationId)) own none ∧
    Reads (fieldText (agentField userAgent)) others unclosed ∧
    (∀ key ∈ ["status".toList, "duration_ms".toList],
      lastValue key own = none) ∧
    (∀ key ∈ requestKeys,
      lastValue key others = none ∧ ∀ opened ∈ unclosed, opened.1 ≠ key) ∧
    ∀ opened ∈ unclosed, opened.1 ≠ "event".toList ∧
      lastValue "event".toList (own ++ others) =
        some "request_received".toList

/-! ## Lines as readings -/

/-- A field whose value is read back on its own. -/
inductive Plain : List Char × LoggedValue → List Char × List Char → Prop
  | display {key : List Char} (value : SolidText) (nonempty : key ≠ [])
      (word : ∀ c ∈ key, isWord c = true) :
      Plain (key, .display value.text) (key, value.text)
  | literal {key value : List Char} (noQuote : '"' ∉ value)
      (nonempty : key ≠ []) (word : ∀ c ∈ key, isWord c = true) :
      Plain (key, .literal value) (key, value)

theorem Plain.reads {field : List Char × LoggedValue}
    {entry : List Char × List Char} (plain : Plain field entry) :
    Reads (fieldText field) [entry] none := by
  cases plain with
  | @display key value nonempty word =>
      have noOpen : ¬ Opens value.text := by
        rintro ⟨quoted, whole, -⟩
        exact value.unquoted (by rw [whole]; rfl)
      have solid : ∀ c ∈ value.text, isSolid c = true := by
        intro c mem
        rw [isSolid, value.solid c mem]
        rfl
      have isValue : valueAt value.text = (value.text, []) := by
        rw [valueAt_bare value.unquoted, List.takeWhile_eq_self_iff.mpr solid,
          List.dropWhile_eq_nil_iff.mpr solid]
      exact Reads.field_eq (nextKey_of_word nonempty word value.text) noOpen isValue
        (Reads.rest rfl)
  | @literal key value noQuote nonempty word =>
      have noOpen : ¬ Opens ('"' :: (value ++ ['"'])) := by
        rintro ⟨quoted, whole, absent⟩
        rw [← (List.cons.inj whole).2] at absent
        simp at absent
      exact Reads.field_eq (nextKey_of_word nonempty word _) noOpen
        (valueAt_quoted noQuote []) (Reads.rest rfl)

theorem fieldsText_cons (field : List Char × LoggedValue)
    {fields : List (List Char × LoggedValue)} (nonempty : fields ≠ []) :
    fieldsText (field :: fields) = fieldText field ++ ' ' :: fieldsText fields := by
  obtain ⟨other, fields, rfl⟩ := List.exists_cons_of_ne_nil nonempty
  simp [fieldsText]

theorem reads_fieldsText {fields : List (List Char × LoggedValue)}
    {entries : List (List Char × List Char)} (nonempty : fields ≠ [])
    (plain : List.Forall₂ Plain fields entries) :
    Reads (fieldsText fields) entries none := by
  induction plain with
  | nil => exact absurd rfl nonempty
  | @cons field entry fields entries first later ih =>
      cases later with
      | nil =>
          rw [fieldsText, List.map_singleton, List.intercalate_singleton]
          exact first.reads
      | @cons other next fields entries second later =>
          rw [fieldsText_cons _ (List.cons_ne_nil _ _)]
          exact first.reads.append (ih (List.cons_ne_nil _ _))

theorem fieldsText_append {fields others : List (List Char × LoggedValue)}
    (nonempty : fields ≠ []) (others_nonempty : others ≠ []) :
    fieldsText (fields ++ others) =
      fieldsText fields ++ ' ' :: fieldsText others := by
  induction fields with
  | nil => exact absurd rfl nonempty
  | cons field fields ih =>
      cases fields with
      | nil =>
          rw [List.singleton_append, fieldsText_cons field others_nonempty]
          simp [fieldsText]
      | cons second fields =>
          rw [List.cons_append, fieldsText_cons field (by simp),
            ih (List.cons_ne_nil _ _), fieldsText_cons field (by simp)]
          simp

/-! ## The two lines -/

theorem isSpace_of_isDigit {c : Char} (digit : c.isDigit = true) :
    ChatStream.isSpace c = false := by
  simp only [Char.isDigit, Bool.and_eq_true, decide_eq_true_eq] at digit
  have atLeast : 48 ≤ c.toNat := digit.1
  have atMost : c.toNat ≤ 57 := digit.2
  simp only [ChatStream.isSpace, Bool.or_eq_false_iff, Bool.and_eq_false_iff,
    decide_eq_false_iff_not, beq_eq_false_iff_ne, ne_eq]
  omega

theorem quote_notMem_decimal (number : Nat) : '"' ∉ Nat.toDigits 10 number :=
  fun mem => absurd (Nat.isDigit_of_mem_toDigits (by decide) (by decide) mem)
    (by decide)

/-- A number as a solid text. -/
def solidDecimal (number : Nat) : SolidText where
  text := Nat.toDigits 10 number
  solid := fun _ mem => isSpace_of_isDigit
    (Nat.isDigit_of_mem_toDigits (by decide) (by decide) mem)
  unquoted := by
    intro isFirst
    have mem := List.mem_of_mem_head? isFirst
    exact absurd (Nat.isDigit_of_mem_toDigits (by decide) (by decide) mem)
      (by decide)

/-- A text that is checked to be solid. -/
def solidOf (text : List Char) (solid : text.all isSolid = true)
    (unquoted : text.head? ≠ some '"') : SolidText where
  text := text
  solid := by
    intro c mem
    have isSolidChar := List.all_eq_true.mp solid c mem
    rwa [isSolid, Bool.not_eq_true'] at isSolidChar
  unquoted := unquoted

def solidClass (status : UInt16) : SolidText :=
  solidOf (statusClass status).toList
    (by
      rw [statusClass]
      split_ifs <;> decide)
    (by
      rw [statusClass]
      split_ifs <;> decide)

def solidAddr (request : IncomingRequest) : SolidText :=
  request.peerAddr.getD (solidOf "unknown".toList (by decide) (by decide))

theorem solidAddr_text (request : IncomingRequest) :
    (solidAddr request).text = request.remoteAddr := by
  rw [solidAddr, IncomingRequest.remoteAddr]
  cases request.peerAddr <;> rfl

/-- The fields between the id and the user agent. -/
def requestFields (request : IncomingRequest) : List (List Char × LoggedValue) :=
  [("method".toList, .display request.method.text),
    ("path".toList, .display request.path.text),
    ("remote_addr".toList, .display request.remoteAddr),
    ("query".toList, .display request.query.text)]

/-- The fields behind the user agent. -/
def closingFields (request : IncomingRequest) : List (List Char × LoggedValue) :=
  [("content_len".toList, decimal request.contentLen.toNat),
    ("event".toList, .literal "request_received".toList)]

/-- What `requestFields` are read as. -/
def requestEntries (request : IncomingRequest) : List (List Char × List Char) :=
  [("method".toList, request.method.text), ("path".toList, request.path.text),
    ("remote_addr".toList, request.remoteAddr),
    ("query".toList, request.query.text)]

def closingEntries (request : IncomingRequest) : List (List Char × List Char) :=
  [("content_len".toList, Nat.toDigits 10 request.contentLen.toNat),
    ("event".toList, "request_received".toList)]

/-- What the fields behind the id are read as when the response is there. -/
def outcomeEntries (request : IncomingRequest) (response : LoggedResponse) :
    List (List Char × List Char) :=
  [("method".toList, request.method.text), ("path".toList, request.path.text),
    ("status".toList, Nat.toDigits 10 response.status.toNat),
    ("status_class".toList, (statusClass response.status).toList),
    ("duration_ms".toList, Nat.toDigits 10 response.durationMs.toNat),
    ("response_bytes".toList, Nat.toDigits 10 response.responseBytes.toNat),
    ("event".toList, "request_completed".toList)]

theorem plain_display {key : List Char} (value : SolidText)
    (word : key ≠ [] ∧ key.all isWord = true) :
    Plain (key, .display value.text) (key, value.text) :=
  Plain.display value word.1 (List.all_eq_true.mp word.2)

theorem plain_literal {key value : List Char} (noQuote : '"' ∉ value)
    (word : key ≠ [] ∧ key.all isWord = true) :
    Plain (key, .literal value) (key, value) :=
  Plain.literal noQuote word.1 (List.all_eq_true.mp word.2)

theorem reads_requestFields (request : IncomingRequest) :
    Reads (fieldsText (requestFields request))
      (requestEntries request) none := by
  refine reads_fieldsText (List.cons_ne_nil _ _) ?_
  refine .cons (plain_display request.method (by decide))
    (.cons (plain_display request.path (by decide)) (.cons ?_
      (.cons (plain_display request.query (by decide)) .nil)))
  rw [← solidAddr_text]
  exact plain_display (solidAddr request) (by decide)

theorem reads_closingFields (request : IncomingRequest) :
    Reads (fieldsText (closingFields request))
      (closingEntries request) none := by
  refine reads_fieldsText (List.cons_ne_nil _ _) ?_
  exact .cons (plain_display (solidDecimal request.contentLen.toNat) (by decide))
    (.cons (plain_literal (by decide) (by decide)) .nil)

theorem reads_outcomeFields (request : IncomingRequest)
    (response : LoggedResponse) :
    Reads (fieldsText ((completedFields request response).drop 1))
      (outcomeEntries request response) none := by
  refine reads_fieldsText (List.cons_ne_nil _ _) ?_
  exact .cons (plain_display request.method (by decide))
    (.cons (plain_display request.path (by decide))
      (.cons (plain_display (solidDecimal response.status.toNat) (by decide))
        (.cons (plain_display (solidClass response.status) (by decide))
          (.cons (plain_display (solidDecimal response.durationMs.toNat) (by decide))
            (.cons (plain_display (solidDecimal response.responseBytes.toNat)
              (by decide))
              (.cons (plain_literal (by decide) (by decide)) .nil))))))

/-- The fields of a message are the last ones that its text assigns. -/
theorem lookup_logMessage {line : Nat} {fields : List (List Char × LoggedValue)}
    {entries : List (List Char × List Char)}
    (solid : ∀ c ∈ (fieldsText fields).head?, ChatStream.isSpace c = false)
    (reads : Reads (fieldsText fields) entries none) {key : List Char}
    (plain : key ≠ "__proto__".toList) :
    (parseLogFields (logMessage line fields)).fields.lookup key =
      lastValue key entries := by
  have enough := Nat.lt_succ_of_le reads.length_le
  simp only [parseLogFields, splitMessage_logMessage line solid]
  rw [reads.fieldsFrom_eq enough, lookup_foldl_assign plain, List.lookup_nil,
    Option.or_none]

theorem receivedFields_text (request : IncomingRequest) :
    fieldsText (receivedFields request) =
      fieldText (idField request.correlationId) ++ ' ' ::
        (fieldsText (requestFields request) ++ ' ' ::
          (fieldText (agentField request.userAgent) ++ ' ' ::
            fieldsText (closingFields request))) := by
  have whole : receivedFields request = idField request.correlationId ::
      (requestFields request ++
        agentField request.userAgent :: closingFields request) := rfl
  have someRequest : requestFields request ≠ [] := List.cons_ne_nil _ _
  have someClosing : closingFields request ≠ [] := List.cons_ne_nil _ _
  rw [whole, fieldsText_cons _ (by simp), fieldsText_append someRequest (by simp),
    fieldsText_cons _ someClosing]

theorem completedFields_text (request : IncomingRequest)
    (response : LoggedResponse) :
    fieldsText (completedFields request response) =
      fieldText (idField request.correlationId) ++ ' ' ::
        fieldsText ((completedFields request response).drop 1) :=
  fieldsText_cons _ (List.cons_ne_nil _ _)

theorem received_solid (request : IncomingRequest) :
    ∀ c ∈ (fieldsText (receivedFields request)).head?,
      ChatStream.isSpace c = false := by
  rw [receivedFields_text]
  rintro c ⟨⟩
  decide

theorem completed_solid (request : IncomingRequest) (response : LoggedResponse) :
    ∀ c ∈ (fieldsText (completedFields request response)).head?,
      ChatStream.isSpace c = false := by
  rw [completedFields_text]
  rintro c ⟨⟩
  decide

/-- What the user agent leaves to be read behind it: the fields there, or the
rest of its open value. -/
inductive Closing (request : IncomingRequest) :
    Option (List Char × List Char) → List (List Char × List Char) → Prop
  | closed : Closing request none (closingEntries request)
  | opened (key quoted between : List Char) :
      Closing request (some (key, quoted)) [(key, quoted ++ ' ' :: between)]

theorem reads_received (request : IncomingRequest)
    {own others : List (List Char × List Char)}
    {unclosed : Option (List Char × List Char)}
    (closed : Reads (fieldText (idField request.correlationId)) own none)
    (agent : Reads (fieldText (agentField request.userAgent)) others unclosed) :
    ∃ closing, Closing request unclosed closing ∧
      Reads (fieldsText (receivedFields request))
        (own ++ (requestEntries request ++ (others ++ closing))) none := by
  rw [receivedFields_text]
  cases unclosed with
  | none =>
      exact ⟨_, Closing.closed, closed.append ((reads_requestFields request).append
        (agent.append (reads_closingFields request)))⟩
  | some opened =>
      obtain ⟨key, quoted⟩ := opened
      have number : '"' ∉ "content_len=".toList ++
          (Nat.toDigits 10 request.contentLen.toNat ++ " event=".toList) := by
        simp only [List.mem_append, not_or]
        exact ⟨by decide, quote_notMem_decimal _, by decide⟩
      have rest : Reads "request_received\"".toList [] none :=
        Reads.rest (by decide)
      have whole : fieldsText (closingFields request) =
          ("content_len=".toList ++ (Nat.toDigits 10 request.contentLen.toNat ++
            " event=".toList)) ++ '"' :: "request_received\"".toList := by
        simp [closingFields, fieldsText, fieldText, decimal, LoggedValue.text]
      have goesOn := agent.append_open number rest
      rw [← whole] at goesOn
      exact ⟨_, Closing.opened key quoted _, closed.append
        ((reads_requestFields request).append goesOn)⟩

theorem reads_completed {request : IncomingRequest}
    {own : List (List Char × List Char)}
    (closed : Reads (fieldText (idField request.correlationId)) own none)
    (response : LoggedResponse) :
    Reads (fieldsText (completedFields request response))
      (own ++ outcomeEntries request response) none := by
  rw [completedFields_text]
  exact closed.append (reads_outcomeFields request response)

/-- The viewer shows what is named last. -/
theorem lookup_received {request : IncomingRequest}
    {own others closing : List (List Char × List Char)}
    (reads : Reads (fieldsText (receivedFields request))
      (own ++ (requestEntries request ++ (others ++ closing))) none)
    {key : List Char} (plain : key ≠ "__proto__".toList) :
    (parseLogFields (receivedMessage request)).fields.lookup key =
      (((lastValue key closing).or (lastValue key others)).or
        (lastValue key (requestEntries request))).or (lastValue key own) := by
  rw [receivedMessage, lookup_logMessage (received_solid request) reads plain,
    lastValue_append, lastValue_append, lastValue_append]

theorem lookup_completed {request : IncomingRequest} {response : LoggedResponse}
    {entries : List (List Char × List Char)}
    (reads : Reads (fieldsText (completedFields request response)) entries none)
    {key : List Char} (plain : key ≠ "__proto__".toList) :
    (parseLogFields (completedMessage request response)).fields.lookup key =
      lastValue key entries :=
  lookup_logMessage (completed_solid request response) reads plain

theorem plain_of_mem_requestKeys {key : List Char} (mem : key ∈ requestKeys) :
    key ≠ "__proto__".toList := by
  rintro rfl
  exact absurd mem (by decide)

theorem lastValue_closingEntries (request : IncomingRequest) {key : List Char}
    (mem : key ∈ requestKeys) : lastValue key (closingEntries request) = none := by
  simp only [requestKeys, List.mem_cons, List.not_mem_nil, or_false] at mem
  rcases mem with rfl | rfl | rfl | rfl <;> rfl

/-- A key that is not left open is not named behind the user agent. -/
theorem Closing.lastValue_eq_none {request : IncomingRequest}
    {unclosed : Option (List Char × List Char)}
    {closing : List (List Char × List Char)} {key : List Char}
    (isClosing : Closing request unclosed closing) (mem : key ∈ requestKeys)
    (noOpen : ∀ opened ∈ unclosed, opened.1 ≠ key) :
    lastValue key closing = none := by
  cases isClosing with
  | closed => exact lastValue_closingEntries request mem
  | opened name quoted between =>
      rw [lastValue_eq_none_iff, List.forall_mem_singleton]
      exact noOpen (name, quoted) rfl

/-- A key that is left open has a value with a space in it. -/
theorem Closing.noOpen {request : IncomingRequest}
    {unclosed : Option (List Char × List Char)}
    {closing : List (List Char × List Char)} {key : List Char}
    (isClosing : Closing request unclosed closing)
    (noSpace : ∀ value, lastValue key closing = some value → ' ' ∉ value) :
    ∀ opened ∈ unclosed, opened.1 ≠ key := by
  rintro opened isOpened rfl
  cases isClosing with
  | closed => cases isOpened
  | opened name quoted between =>
      obtain rfl := Option.some.inj isOpened
      refine noSpace (quoted ++ ' ' :: between) ?_ (by simp)
      rw [lastValue, List.reverse_singleton, List.lookup_cons_self]

/-- The lines of a request with harmless texts are read back. -/
theorem Unforged.readsBack {request : IncomingRequest}
    (unforged : Unforged request.correlationId request.userAgent) :
    ReadsBack request := by
  obtain ⟨own, others, unclosed, closed, agent, absent, unnamed, event⟩ := unforged
  obtain ⟨closing, isClosing, received⟩ := reads_received request closed agent
  -- A field that the user agent does not name comes from the request.
  have unchanged {key : List Char} (mem : key ∈ requestKeys) :
      (parseLogFields (receivedMessage request)).fields.lookup key =
        (lastValue key (requestEntries request)).or (lastValue key own) := by
    obtain ⟨noOther, noOpen⟩ := unnamed key mem
    rw [lookup_received received (plain_of_mem_requestKeys mem),
      isClosing.lastValue_eq_none mem noOpen, noOther]
    rfl
  have absentStatus := absent "status".toList (by decide)
  have absentDuration := absent "duration_ms".toList (by decide)
  refine ⟨⟨?_, ?_, ?_, ?_, ?_⟩, fun response => ?_⟩
  · exact unchanged (by decide)
  · exact unchanged (by decide)
  · rw [unchanged (by decide), absentStatus]
    rfl
  · rw [unchanged (by decide), absentDuration]
    rfl
  · rw [lookup_received received (by decide)]
    cases isClosing with
    | closed => rfl
    | opened name quoted between =>
        obtain ⟨noEvent, before⟩ := event (name, quoted) rfl
        have noClosing : lastValue "event".toList
            [(name, quoted ++ ' ' :: between)] = none := by
          rw [lastValue_eq_none_iff, List.forall_mem_singleton]
          exact noEvent
        rw [lastValue_append] at before
        rw [noClosing, Option.none_or, ← before]
        cases lastValue "event".toList others <;> rfl
  · have outcome {key : List Char} (plain : key ≠ "__proto__".toList) :
        (parseLogFields (completedMessage request response)).fields.lookup key =
          (lastValue key (outcomeEntries request response)).or
            (lastValue key own) := by
      rw [lookup_completed (reads_completed closed response) plain,
        lastValue_append]
    exact ⟨outcome (by decide), outcome (by decide), outcome (by decide),
      outcome (by decide), outcome (by decide)⟩

/-! ## Requests that tell forged fields apart -/

/-- A request with given texts in its headers. -/
def requestWith (correlationId userAgent : List Char) (method path : SolidText) :
    IncomingRequest :=
  ⟨method, path, solidOf [] (by decide) (by decide), none, some correlationId,
    some userAgent, none, []⟩

def getRequest (correlationId userAgent : List Char) : IncomingRequest :=
  requestWith correlationId userAgent (solidOf "GET".toList (by decide) (by decide))
    (solidOf "/a".toList (by decide) (by decide))

def postRequest (correlationId userAgent : List Char) : IncomingRequest :=
  requestWith correlationId userAgent (solidOf "POST".toList (by decide) (by decide))
    (solidOf "/b".toList (by decide) (by decide))

/-- What stands between the id and the text of the event. -/
def outcomeText (request : IncomingRequest) (response : LoggedResponse) :
    List Char :=
  "method=".toList ++ (request.method.text ++ (" path=".toList ++
    (request.path.text ++ (" status=".toList ++
      (Nat.toDigits 10 response.status.toNat ++ (" status_class=".toList ++
        ((statusClass response.status).toList ++ (" duration_ms=".toList ++
          (Nat.toDigits 10 response.durationMs.toNat ++
            (" response_bytes=".toList ++
              (Nat.toDigits 10 response.responseBytes.toNat ++
                " event=".toList)))))))))))

theorem quote_notMem_outcomeText {request : IncomingRequest}
    (noQuote : '"' ∉ request.method.text ++ request.path.text)
    (response : LoggedResponse) : '"' ∉ outcomeText request response := by
  have noClass : '"' ∉ (statusClass response.status).toList := by
    rw [statusClass]
    split_ifs <;> decide
  rw [List.mem_append, not_or] at noQuote
  unfold outcomeText
  simp only [List.mem_append, not_or]
  refine ⟨?_, noQuote.1, ?_, noQuote.2, ?_, quote_notMem_decimal _, ?_, noClass,
    ?_, quote_notMem_decimal _, ?_, quote_notMem_decimal _, ?_⟩ <;> decide

/-- A value that the id leaves open goes on to the event. -/
theorem reads_completed_open {request : IncomingRequest}
    {key quoted : List Char} {own : List (List Char × List Char)}
    (opened : Reads (fieldText (idField request.correlationId)) own
      (some (key, quoted)))
    (noQuote : '"' ∉ request.method.text ++ request.path.text)
    (response : LoggedResponse) :
    Reads (fieldsText (completedFields request response))
      (own ++ [(key, quoted ++ ' ' :: outcomeText request response)]) none := by
  have rest : Reads "request_completed\"".toList [] none := Reads.rest (by decide)
  have whole : fieldsText ((completedFields request response).drop 1) =
      outcomeText request response ++ '"' :: "request_completed\"".toList := by
    unfold outcomeText
    simp [completedFields, fieldsText, fieldText, decimal, LoggedValue.text]
  rw [completedFields_text, whole]
  exact opened.append_open (quote_notMem_outcomeText noQuote response) rest

/-- Where the id leaves a value open, a method that is read back is its own. -/
theorem lastValue_method_of_open (request : IncomingRequest)
    {key quoted : List Char} {own : List (List Char × List Char)}
    (opened : Reads (fieldText (idField request.correlationId)) own
      (some (key, quoted)))
    (noQuote : '"' ∉ request.method.text ++ request.path.text)
    (reads : ReadsBack request) :
    lastValue "method".toList own = some request.method.text := by
  have found := (reads.completed ⟨200, none, 0⟩).method
  rw [lookup_completed (reads_completed_open opened noQuote _) (by decide),
    lastValue_append] at found
  by_cases same : key = "method".toList
  · rw [same, lastValue, List.reverse_singleton, List.lookup_cons_self] at found
    have space := request.method.solid ' ' (by
      rw [← Option.some.inj found]
      simp)
    exact absurd space (by decide)
  · have absent : lastValue "method".toList
        [(key, quoted ++ ' ' :: outcomeText request ⟨200, none, 0⟩)] = none := by
      rw [lastValue_eq_none_iff, List.forall_mem_singleton]
      exact same
    rwa [absent, Option.none_or] at found

/-- A field that differs between two requests is not named by the user agent. -/
theorem unnamed_of_apart {first second : IncomingRequest}
    {own others closing otherClosing : List (List Char × List Char)}
    {unclosed : Option (List Char × List Char)} {key value other : List Char}
    (mem : key ∈ requestKeys) (isClosing : Closing first unclosed closing)
    (isOther : Closing second unclosed otherClosing)
    (reads : Reads (fieldsText (receivedFields first))
      (own ++ (requestEntries first ++ (others ++ closing))) none)
    (otherReads : Reads (fieldsText (receivedFields second))
      (own ++ (requestEntries second ++ (others ++ otherClosing))) none)
    (found : (parseLogFields (receivedMessage first)).fields.lookup key = some value)
    (otherFound : (parseLogFields (receivedMessage second)).fields.lookup key =
      some other)
    (noSpace : ' ' ∉ value) (apart : value ≠ other) :
    lastValue key others = none ∧ ∀ opened ∈ unclosed, opened.1 ≠ key := by
  rw [lookup_received reads (plain_of_mem_requestKeys mem)] at found
  rw [lookup_received otherReads (plain_of_mem_requestKeys mem)] at otherFound
  have noOpen : ∀ opened ∈ unclosed, opened.1 ≠ key := by
    refine isClosing.noOpen fun named isNamed => ?_
    rw [isNamed] at found
    rwa [Option.some.inj found]
  refine ⟨?_, noOpen⟩
  rw [isClosing.lastValue_eq_none mem noOpen, Option.none_or] at found
  rw [isOther.lastValue_eq_none mem noOpen, Option.none_or] at otherFound
  cases given : lastValue key others with
  | none => rfl
  | some named =>
      rw [given] at found otherFound
      exact absurd ((Option.some.inj found).symm.trans (Option.some.inj otherFound))
        apart

theorem getRequest_text {correlationId userAgent : List Char} :
    (getRequest correlationId userAgent).method.text = "GET".toList ∧
      (getRequest correlationId userAgent).path.text = "/a".toList :=
  ⟨rfl, rfl⟩

theorem postRequest_text {correlationId userAgent : List Char} :
    (postRequest correlationId userAgent).method.text = "POST".toList ∧
      (postRequest correlationId userAgent).path.text = "/b".toList :=
  ⟨rfl, rfl⟩

/-- A field that is not logged is named by neither text. -/
theorem unnamed_of_missing {request : IncomingRequest}
    {own others closing : List (List Char × List Char)}
    {unclosed : Option (List Char × List Char)} {key : List Char}
    (plain : key ≠ "__proto__".toList) (isClosing : Closing request unclosed closing)
    (reads : Reads (fieldsText (receivedFields request))
      (own ++ (requestEntries request ++ (others ++ closing))) none)
    (missing : (parseLogFields (receivedMessage request)).fields.lookup key = none) :
    lastValue key own = none ∧ lastValue key others = none ∧
      ∀ opened ∈ unclosed, opened.1 ≠ key := by
  rw [lookup_received reads plain] at missing
  simp only [Option.or_eq_none_iff] at missing
  obtain ⟨⟨⟨noClosing, noOther⟩, -⟩, noOwn⟩ := missing
  refine ⟨noOwn, noOther, isClosing.noOpen fun value isValue => ?_⟩
  rw [noClosing] at isValue
  cases isValue

/-- Behind a value that is left open no event is read. -/
theorem event_of_open {request : IncomingRequest}
    {own others closing : List (List Char × List Char)}
    {unclosed : Option (List Char × List Char)}
    (isClosing : Closing request unclosed closing)
    (reads : Reads (fieldsText (receivedFields request))
      (own ++ (requestEntries request ++ (others ++ closing))) none)
    (event : (parseLogFields (receivedMessage request)).fields.lookup
      "event".toList = some "request_received".toList) :
    ∀ opened ∈ unclosed, opened.1 ≠ "event".toList ∧
      lastValue "event".toList (own ++ others) =
        some "request_received".toList := by
  rw [lookup_received reads (by decide)] at event
  intro opened isOpened
  have noOpen : ∀ opened ∈ unclosed, opened.1 ≠ "event".toList := by
    refine isClosing.noOpen fun value isValue => ?_
    rw [isValue] at event
    rw [show value = "request_received".toList from Option.some.inj event]
    decide
  refine ⟨noOpen opened isOpened, ?_⟩
  cases isClosing with
  | closed => cases isOpened
  | opened name quoted between =>
      have noClosing : lastValue "event".toList
          [(name, quoted ++ ' ' :: between)] = none := by
        rw [lastValue_eq_none_iff, List.forall_mem_singleton]
        exact noOpen (name, quoted) rfl
      rw [noClosing, Option.none_or] at event
      rw [lastValue_append, ← event]
      cases lastValue "event".toList others <;> rfl

/-- Two requests that are read back show that their headers forge nothing. -/
theorem unforged_of_readsBack {correlationId userAgent : List Char}
    (first : ReadsBack (getRequest correlationId userAgent))
    (second : ReadsBack (postRequest correlationId userAgent)) :
    Unforged correlationId userAgent := by
  obtain ⟨getMethod, getPath⟩ := @getRequest_text correlationId userAgent
  obtain ⟨postMethod, postPath⟩ := @postRequest_text correlationId userAgent
  obtain ⟨own, ending, ownReads⟩ := exists_reads (fieldText (idField correlationId))
  obtain ⟨others, unclosed, agent⟩ := exists_reads (fieldText (agentField userAgent))
  cases ending with
  | some opened =>
      obtain ⟨key, quoted⟩ := opened
      have get := lastValue_method_of_open (getRequest correlationId userAgent)
        ownReads (by rw [getMethod, getPath]; decide) first
      have post := lastValue_method_of_open (postRequest correlationId userAgent)
        ownReads (by rw [postMethod, postPath]; decide) second
      rw [get, getMethod, postMethod] at post
      exact absurd (Option.some.inj post) (by decide)
  | none =>
      obtain ⟨closing, isClosing, getReads⟩ :=
        reads_received (getRequest correlationId userAgent) ownReads agent
      obtain ⟨otherClosing, isOther, postReads⟩ :=
        reads_received (postRequest correlationId userAgent) ownReads agent
      have status := unnamed_of_missing (by decide) isClosing getReads
        first.received.status
      have duration := unnamed_of_missing (by decide) isClosing getReads
        first.received.durationMs
      have method := unnamed_of_apart (by decide) isClosing isOther getReads
        postReads first.received.method second.received.method
        (by rw [getMethod]; decide) (by rw [getMethod, postMethod]; decide)
      have path := unnamed_of_apart (by decide) isClosing isOther getReads
        postReads first.received.path second.received.path
        (by rw [getPath]; decide) (by rw [getPath, postPath]; decide)
      refine ⟨own, others, unclosed, ownReads, agent, ?_, ?_,
        event_of_open isClosing getReads first.received.event⟩
      · exact List.forall_mem_cons.mpr ⟨status.1,
          List.forall_mem_singleton.mpr duration.1⟩
      · exact List.forall_mem_cons.mpr ⟨method, List.forall_mem_cons.mpr ⟨path,
          List.forall_mem_cons.mpr ⟨status.2,
            List.forall_mem_singleton.mpr duration.2⟩⟩⟩

/-- The lines of all requests with an id and a user agent are read back as they
were logged just when these two texts forge nothing. -/
theorem readsBack_iff (correlationId userAgent : List Char) :
    (∀ request : IncomingRequest, request.correlationId = correlationId →
      request.userAgent = userAgent → ReadsBack request) ↔
      Unforged correlationId userAgent := by
  constructor
  · intro all
    exact unforged_of_readsBack (all _ rfl rfl) (all _ rfl rfl)
  · rintro unforged request rfl rfl
    exact unforged.readsBack

/-- A program name with a method behind it stands in the line of another method. -/
theorem forgedMethod_shown :
    (parseLogFields (receivedMessage
        (getRequest "id".toList "curl method=DELETE".toList))).fields.lookup
      "method".toList = some "DELETE".toList ∧
    ¬ ReadsBack (getRequest "id".toList "curl method=DELETE".toList) := by
  have id : Reads (fieldText (idField "id".toList))
      [("correlation_id".toList, "id".toList)] none :=
    (plain_display (solidOf "id".toList (by decide) (by decide)) (by decide)).reads
  have curl : Reads (fieldText (agentField "curl".toList))
      [("user_agent".toList, "curl".toList)] none :=
    (plain_display (solidOf "curl".toList (by decide) (by decide)) (by decide)).reads
  have forged : Reads (fieldText ("method".toList, .display "DELETE".toList))
      [("method".toList, "DELETE".toList)] none :=
    (plain_display (solidOf "DELETE".toList (by decide) (by decide)) (by decide)).reads
  obtain ⟨closing, isClosing, reads⟩ := reads_received
    (getRequest "id".toList "curl method=DELETE".toList) id (curl.append forged)
  have shown : (parseLogFields (receivedMessage
        (getRequest "id".toList "curl method=DELETE".toList))).fields.lookup
      "method".toList = some "DELETE".toList := by
    rw [lookup_received reads (by decide)]
    cases isClosing
    decide
  refine ⟨shown, fun back => ?_⟩
  have logged := back.received.method
  rw [shown] at logged
  exact absurd (Option.some.inj logged) (by decide)

end LogLines

end TorchInference
