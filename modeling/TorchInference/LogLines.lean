import TorchInference.ChatStream
import TorchInference.ClassPatterns

/-!
# Log lines of requests

The request logger writes the fields of a request behind its target and the place
in the source.  The log viewer takes the place off and reads the fields back with
a pattern; of several fields with one key the last one stays.
-/

namespace TorchInference

namespace LogLines

open ClassPatterns

/-! ## Requests -/

/-- A text without white space that does not begin with a quotation mark, as the
methods, paths, queries and addresses of HTTP. -/
structure SolidText where
  text : List Char
  solid : ∀ c ∈ text, ChatStream.isSpace c = false
  unquoted : text.head? ≠ some '"'

/-- What the logger reads of a request; a header that is no text counts as
missing.  A request without an id gets a fresh one. -/
structure IncomingRequest where
  method : SolidText
  path : SolidText
  query : SolidText
  peerAddr : Option SolidText
  correlationHeader : Option (List Char)
  userAgentHeader : Option (List Char)
  contentLengthHeader : Option (List Char)
  freshId : List Char

/-- `parse::<u64>`. -/
def parseU64 (text : List Char) : Option UInt64 :=
  let digits := match text with
    | '+' :: digits => digits
    | digits => digits
  if digits.isEmpty || !digits.all Char.isDigit then none
  else
    let value := Nat.ofDigitChars 10 digits 0
    if value < 2 ^ 64 then some (UInt64.ofNat value) else none

def IncomingRequest.correlationId (request : IncomingRequest) : List Char :=
  request.correlationHeader.getD request.freshId

def IncomingRequest.remoteAddr (request : IncomingRequest) : List Char :=
  (request.peerAddr.map SolidText.text).getD "unknown".toList

def IncomingRequest.userAgent (request : IncomingRequest) : List Char :=
  request.userAgentHeader.getD "unknown".toList

def IncomingRequest.contentLen (request : IncomingRequest) : UInt64 :=
  (request.contentLengthHeader.bind parseU64).getD 0

/-! ## The writer -/

/-- A value as it is printed: as it is, or in quotation marks. -/
inductive LoggedValue where
  | display (text : List Char)
  | literal (text : List Char)

def LoggedValue.text : LoggedValue → List Char
  | .display text => text
  | .literal text => '"' :: (text ++ ['"'])

def fieldText (field : List Char × LoggedValue) : List Char :=
  field.1 ++ '=' :: field.2.text

def fieldsText (fields : List (List Char × LoggedValue)) : List Char :=
  [' '].intercalate (fields.map fieldText)

/-- The text of a number. -/
def decimal (number : Nat) : LoggedValue :=
  .display (Nat.toDigits 10 number)

def receivedFields (request : IncomingRequest) :
    List (List Char × LoggedValue) :=
  [("correlation_id".toList, .display request.correlationId),
    ("method".toList, .display request.method.text),
    ("path".toList, .display request.path.text),
    ("remote_addr".toList, .display request.remoteAddr),
    ("query".toList, .display request.query.text),
    ("user_agent".toList, .display request.userAgent),
    ("content_len".toList, decimal request.contentLen.toNat),
    ("event".toList, .literal "request_received".toList)]

def statusClass (status : UInt16) : String :=
  if 200 ≤ status ∧ status ≤ 299 then "2xx"
  else if 300 ≤ status ∧ status ≤ 399 then "3xx"
  else if 400 ≤ status ∧ status ≤ 499 then "4xx"
  else if 500 ≤ status ∧ status ≤ 599 then "5xx"
  else "other"

/-- A response: its status, its `content-length`, and how long it took. -/
structure LoggedResponse where
  status : UInt16
  contentLengthHeader : Option (List Char)
  durationMs : UInt64

def LoggedResponse.responseBytes (response : LoggedResponse) : UInt64 :=
  (response.contentLengthHeader.bind parseU64).getD 0

def completedFields (request : IncomingRequest) (response : LoggedResponse) :
    List (List Char × LoggedValue) :=
  [("correlation_id".toList, .display request.correlationId),
    ("method".toList, .display request.method.text),
    ("path".toList, .display request.path.text),
    ("status".toList, decimal response.status.toNat),
    ("status_class".toList, .display (statusClass response.status).toList),
    ("duration_ms".toList, decimal response.durationMs.toNat),
    ("response_bytes".toList, decimal response.responseBytes.toNat),
    ("event".toList, .literal "request_completed".toList)]

def target : List Char :=
  "torch_inference_server::middleware::request_logger".toList

/-- The message of an event on a line of the source. -/
def logMessage (line : Nat) (fields : List (List Char × LoggedValue)) :
    List Char :=
  target ++ ':' :: ' ' :: ("src/middleware/request_logger".toList ++
    (".rs:".toList ++ (Nat.toDigits 10 line ++
      ':' :: ' ' :: fieldsText fields)))

def receivedMessage (request : IncomingRequest) : List Char :=
  logMessage 115 (receivedFields request)

def completedMessage (request : IncomingRequest) (response : LoggedResponse) :
    List Char :=
  logMessage 142 (completedFields request response)

/-! ## The reader -/

/-- `\w`. -/
def isWord (c : Char) : Bool :=
  c.isAlphanum || c == '_'

def isTargetChar (c : Char) : Bool :=
  isWord c || c == ':'

def isSolid (c : Char) : Bool :=
  !ChatStream.isSpace c

/-- `\S+\.rs:\d+:\s+`. -/
def locationSegment : Segment Char :=
  ⟨false, [.one isSolid, .many isSolid] ++ literal ".rs:".toList ++
    [.one Char.isDigit, .many Char.isDigit] ++ literal [':'] ++
    [.one ChatStream.isSpace, .many ChatStream.isSpace]⟩

/-- `^([\w:]+):\s+(?:\S+\.rs:\d+:\s+)?(.*)$`, where a dot is any character, with
the optional part or without it. -/
def prefixPattern (location : List (Segment Char)) : List (Segment Char) :=
  [⟨true, [.one isTargetChar, .many isTargetChar]⟩,
    ⟨false, literal [':'] ++ [.one ChatStream.isSpace, .many ChatStream.isSpace]⟩] ++
    location ++ [⟨true, [.many fun _ => true]⟩]

/-- The target and the rest of a message.  Where the target ends does not depend
on the optional part, so the pattern with it may be tried first. -/
def splitMessage (message : List Char) : List Char × List Char :=
  match (captures (prefixPattern [locationSegment]) message).or
      (captures (prefixPattern []) message) with
  | some [target, rest] => (target, rest)
  | _ => ([], message)

/-- `\w+=` at the start of a text. -/
def keyAt (text : List Char) : Option (List Char × List Char) :=
  match text.span isWord with
  | (c :: key, '=' :: after) => some (c :: key, after)
  | _ => none

/-- `"([^"]*)"|(\S*)` at the start of a text. -/
def valueAt (text : List Char) : List Char × List Char :=
  match text with
  | '"' :: quoted =>
      match quoted.span (· != '"') with
      | (value, _ :: after) => (value, after)
      | (_, []) => text.span isSolid
  | _ => text.span isSolid

/-- The first place where a key stands, and what follows it. -/
def nextKey : List Char → Option (List Char × List Char)
  | [] => none
  | c :: text => (keyAt (c :: text)).or (nextKey text)

/-- `exec` of `/(\w+)=(?:"([^"]*)"|(\S*))/g` on what has not been read. -/
def nextField (text : List Char) :
    Option ((List Char × List Char) × List Char) :=
  (nextKey text).map fun found =>
    ((found.1, (valueAt found.2).1), (valueAt found.2).2)

/-- Assignment to a member of a plain object, which holds no text under
`__proto__`. -/
def assign (entry : List Char × List Char) :
    List (List Char × List Char) → List (List Char × List Char)
  | [] => if entry.1 = "__proto__".toList then [] else [entry]
  | other :: fields =>
      if other.1 = entry.1 then entry :: fields else other :: assign entry fields

/-- The loop over the matches; each has at least a character. -/
def fieldsFrom : Nat → List Char → List (List Char × List Char) →
    List (List Char × List Char)
  | 0, _, fields => fields
  | fuel + 1, text, fields =>
      match nextField text with
      | none => fields
      | some (entry, rest) => fieldsFrom fuel rest (assign entry fields)

structure ParsedLogFields where
  target : List Char
  fields : List (List Char × List Char)
  text : List Char

def parseLogFields (message : List Char) : ParsedLogFields :=
  let split := splitMessage message
  let fields := fieldsFrom (split.2.length + 1) split.2 []
  ⟨split.1, fields, if fields.isEmpty then ChatStream.trim split.2 else []⟩

end LogLines

end TorchInference
