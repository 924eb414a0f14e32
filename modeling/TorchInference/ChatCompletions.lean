import TorchInference.BoundedChannel
import TorchInference.CountingSemaphore
import TorchInference.JsonValue
import TorchInference.MemoryGate
import TorchInference.TransitionRuns

/-!
# The handler of `POST /v1/chat/completions`

After its checks the handler spawns a task that waits for a permit of the
engine lease, runs the engine, and sends what it generates into a bounded
channel.  The streaming branch turns the channel into server-sent events; the
other branch collects the channel and then joins the task.

A request meets the runs that hold permits or wait for one before it; the
semaphore serves them first.  The client stays connected.
-/

namespace TorchInference

/-! ## Requests and their checks -/

inductive ContentPart where
  | text (text : String)
  | imageUrl (url : String)

inductive MessageContent where
  | text (text : String)
  | parts (parts : List ContentPart)

structure ChatMessage where
  role : String
  content : MessageContent

structure ChatRequest where
  model : Option String
  messages : List ChatMessage
  stream : Bool
  maxTokens : UInt32
  temperature : Float32

/-- The arguments of `chat`. -/
structure ChatCall where
  messages : List (String × String)
  image : Option (List UInt8)
  maxTokens : UInt32
  temperature : Float32

/-- How a run of the engine ends; a panic is reported by the text of its
`JoinError`. -/
inductive ChatOutcome where
  | ok
  | error (message : String)
  | panicked (joinError : String)
  deriving DecidableEq

/-- The tokens a run of the engine sends, and how it ends. -/
structure ChatBehaviour where
  tokens : List String
  outcome : ChatOutcome
  deriving DecidableEq

structure LlmEngine where
  chat : ChatCall → ChatBehaviour
  supportsVision : Bool
  modelId : String

structure LimitsConfig where
  maxImageBytes : Nat
  maxPromptChars : Nat
  maxMessages : Nat
  maxGeneratedTokens : UInt32
  chatStreamBuffer : Nat
  chatNonstreamBuffer : Nat

structure AppState where
  engine : LlmEngine
  /-- `describe` of the vision bridge. -/
  vision : Option (List UInt8 → String)
  gate : MemoryGate
  limits : LimitsConfig

inductive SseEvent where
  | json (data : JsonValue)
  | text (data : String)

inductive ChatBody where
  | json (value : JsonValue)
  | events (events : List SseEvent)

structure ChatResponse where
  status : Nat
  headers : List (String × String)
  body : ChatBody

def errorBody (message : String) : ChatBody :=
  .json (.object [("error", .string message)])

section Checks

variable (base64Decode : String → Except String (List UInt8))

/-- What follows the first comma is the image. -/
def decodeDataUri (url : String) : Except String (List UInt8) :=
  match url.toList.dropWhile (· != ',') with
  | [] => .error "invalid data URI: no comma"
  | _ :: base64Part =>
      match base64Decode (String.ofList base64Part) with
      | .ok bytes => .ok bytes
      | .error e => .error s!"base64 decode: {e}"

/-- The text of the parts, and the first image. -/
def extractParts (maxImageBytes : Nat) :
    List ContentPart → String → Option (List UInt8) →
      Except String (String × Option (List UInt8))
  | [], textBuf, image => .ok (textBuf, image)
  | .text text :: parts, textBuf, image =>
      extractParts maxImageBytes parts (textBuf ++ text) image
  | .imageUrl _ :: parts, textBuf, some bytes =>
      extractParts maxImageBytes parts textBuf (some bytes)
  | .imageUrl url :: parts, textBuf, none =>
      match decodeDataUri base64Decode url with
      | .error e => .error s!"invalid image: {e}"
      | .ok bytes =>
          if maxImageBytes < bytes.length then
            .error
              s!"image exceeds {maxImageBytes} bytes ({bytes.length} actual)"
          else
            extractParts maxImageBytes parts textBuf (some bytes)

/-- `extract_content`, from the pairs and the image found so far. -/
def extractContent (maxImageBytes : Nat) :
    List ChatMessage → List (String × String) → Option (List UInt8) →
      Except String (List (String × String) × Option (List UInt8))
  | [], pairs, image => .ok (pairs, image)
  | ⟨role, .text text⟩ :: messages, pairs, image =>
      extractContent maxImageBytes messages (pairs ++ [(role, text)]) image
  | ⟨role, .parts parts⟩ :: messages, pairs, image =>
      match extractParts base64Decode maxImageBytes parts "" image with
      | .error e => .error e
      | .ok (textBuf, found) =>
          extractContent maxImageBytes messages (pairs ++ [(role, textBuf)])
            found

/-- Put a description before the last message of the user, if there is one. -/
def describeToLastUser (description : String) :
    List (String × String) → Option (List (String × String))
  | [] => none
  | (role, content) :: pairs =>
      match describeToLastUser description pairs with
      | some described => some ((role, content) :: described)
      | none =>
          if role = "user" then
            some ((role, s!"{description}\n{content}") :: pairs)
          else none

/-- An engine without vision gets a description in place of the image. -/
def AppState.routeImage (state : AppState) (pairs : List (String × String))
    (image : Option (List UInt8)) :
    List (String × String) × Option (List UInt8) :=
  if state.engine.supportsVision then (pairs, image)
  else
    match image with
    | none => (pairs, none)
    | some bytes =>
        let description :=
          match state.vision with
          | some describe => describe bytes
          | none => "[Image attached but vision bridge disabled.]"
        match describeToLastUser description pairs with
        | some described => (described, none)
        | none => (pairs ++ [("user", description)], none)

/-- The length of the prompt in bytes. -/
def totalChars (pairs : List (String × String)) : Nat :=
  (pairs.map fun pair => pair.1.utf8ByteSize + pair.2.utf8ByteSize).sum

/-- `chat_completions` up to its two branches: the call of the engine, unless
the request is refused. -/
def AppState.checkRequest (state : AppState) (request : ChatRequest)
    (rss : UInt64) : Except ChatResponse ChatCall × MemoryGate :=
  let limits := state.limits
  if limits.maxMessages < request.messages.length then
    (.error ⟨400, [], errorBody
      s!"messages exceeds max ({request.messages.length} > {limits.maxMessages})"⟩,
      state.gate)
  else
    match state.gate.tryAdmit rss with
    | (.error refusal, gate) =>
        (.error ⟨503, [("Retry-After", "1")], errorBody refusal.toText⟩, gate)
    | (.ok _, gate) =>
        match extractContent base64Decode limits.maxImageBytes
            request.messages [] none with
        | .error e =>
            let status :=
              if "image exceeds".toList.isPrefixOf e.toList then 413 else 400
            (.error ⟨status, [], errorBody e⟩, gate)
        | .ok (extracted, found) =>
            let (pairs, image) := state.routeImage extracted found
            let actual := totalChars pairs
            if limits.maxPromptChars < actual then
              (.error ⟨400, [], errorBody
                s!"prompt exceeds {limits.maxPromptChars} chars ({actual} actual)"⟩,
                gate)
            else
              let maxTokens := min request.maxTokens limits.maxGeneratedTokens
              (.ok ⟨pairs, image, maxTokens, request.temperature⟩, gate)

end Checks

/-! ## Events and answers -/

def sseChunk (id : String) (created : UInt64) (content model : String) :
    SseEvent :=
  .json (.object
    [("id", .string id),
      ("object", .string "chat.completion.chunk"),
      ("created", .number (.posInt created)),
      ("model", .string model),
      ("choices", .array [.object
        [("index", .number (.posInt 0)),
          ("delta", .object [("content", .string content)]),
          ("finish_reason", .null)]])])

def sseDone : SseEvent :=
  .text "[DONE]"

/-- What a request is handled with once its checks have passed. -/
structure ChatJob where
  id : String
  created : UInt64
  modelName : String
  behaviour : ChatBehaviour

namespace ChatJob

def chunk (job : ChatJob) (token : String) : SseEvent :=
  sseChunk job.id job.created token job.modelName

def streamResponse (events : List SseEvent) : ChatResponse :=
  ⟨200,
    [("Content-Type", "text/event-stream; charset=utf-8"),
      ("Cache-Control", "no-cache"), ("X-Accel-Buffering", "no")],
    .events events⟩

def completion (job : ChatJob) (content : String) : ChatResponse :=
  ⟨200, [], .json (.object
    [("id", .string job.id),
      ("object", .string "chat.completion"),
      ("created", .number (.posInt job.created)),
      ("model", .string job.modelName),
      ("choices", .array [.object
        [("index", .number (.posInt 0)),
          ("message", .object
            [("role", .string "assistant"), ("content", .string content)]),
          ("finish_reason", .string "stop")]]),
      ("usage", .object
        [("prompt_tokens", .number (.posInt 0)),
          ("completion_tokens", .number (.posInt 0)),
          ("total_tokens", .number (.posInt 0))])])⟩

/-- The answer of the branch that does not stream, once it has joined the
task. -/
def answer (job : ChatJob) (content : String) : ChatResponse :=
  match job.behaviour.outcome with
  | .ok => job.completion content
  | .error e => ⟨500, [], errorBody s!"inference failed: {e}"⟩
  | .panicked e => ⟨500, [], errorBody s!"inference failed: join inner: {e}"⟩

end ChatJob

/-! ## The two branches -/

/-- The spawned task.  The engine owns the sender, so the channel ends when the
engine returns or unwinds, and before the permit is given back. -/
inductive ChatTask where
  | waiting
  | running (pending : List String)
  | returned
  | finished
  deriving DecidableEq

/-- The reading end of the channel, in the streaming branch and in the other. -/
inductive ChatReader where
  | streaming (events : List SseEvent)
  | collecting (content : String)
  | joining (content : String)
  | replied (response : ChatResponse)

structure ChatSession where
  lease : CountingSemaphore
  otherRuns : Nat
  queuedAhead : Nat
  task : ChatTask
  channel : BoundedChannel String
  reader : ChatReader

/-- Who moves: a run ahead of this one, the task, the engine or the reader. -/
inductive ChatAction where
  | othersAcquire
  | othersRelease
  | acquire
  | send
  | finishChat
  | release
  | read
  deriving DecidableEq

namespace ChatSession

variable (job : ChatJob)

/-- The reader takes the next token, or goes on at the end of the channel. -/
def read (session : ChatSession) : Option ChatSession :=
  match session.reader with
  | .streaming events =>
      match session.channel.recv with
      | .message token channel => some { session with
          channel := channel
          reader := .streaming (events ++ [job.chunk token]) }
      | .ended => some { session with
          reader := .replied (ChatJob.streamResponse (events ++ [sseDone])) }
      | .waiting => none
  | .collecting content =>
      match session.channel.recv with
      | .message token channel => some { session with
          channel := channel
          reader := .collecting (content ++ token) }
      | .ended => some { session with reader := .joining content }
      | .waiting => none
  | .joining content =>
      match session.task with
      | .finished => some { session with
          reader := .replied (job.answer content) }
      | _ => none
  | .replied _ => none

def step (session : ChatSession) : ChatAction → Option ChatSession
  | .othersAcquire =>
      match session.queuedAhead, session.lease.tryAcquire with
      | queuedAhead + 1, some lease => some { session with
          lease := lease
          queuedAhead := queuedAhead
          otherRuns := session.otherRuns + 1 }
      | _, _ => none
  | .othersRelease =>
      match session.otherRuns with
      | 0 => none
      | otherRuns + 1 => some { session with
          lease := session.lease.release
          otherRuns := otherRuns }
  | .acquire =>
      match session.task, session.queuedAhead, session.lease.tryAcquire with
      | .waiting, 0, some lease => some { session with
          lease := lease
          task := .running job.behaviour.tokens }
      | _, _, _ => none
  | .send =>
      match session.task with
      | .running (token :: pending) =>
          match session.channel.send token with
          | some channel => some { session with
              channel := channel
              task := .running pending }
          | none => none
      | _ => none
  | .finishChat =>
      match session.task with
      | .running [] => some { session with
          channel := session.channel.dropSender
          task := .returned }
      | _ => none
  | .release =>
      match session.task with
      | .returned => some { session with
          lease := session.lease.release
          task := .finished }
      | _ => none
  | .read => session.read job

end ChatSession

/-- `mpsc::channel` panics for any other size. -/
def acceptsBuffer (size : Nat) : Bool :=
  0 < size && size ≤ CountingSemaphore.maxPermits

/-- What the handling of a request meets: its id, the clock, the memory, and
the engine lease with the runs ahead of it.  A lease has at least one permit. -/
structure ChatArrival where
  id : String
  created : UInt64
  rss : UInt64
  available : Nat
  otherRuns : Nat
  queuedAhead : Nat
  leased : 0 < available + otherRuns

/-- How `chat_completions` begins. -/
inductive ChatStart where
  | refused (response : ChatResponse)
  | panicked
  | started (job : ChatJob) (session : ChatSession)

def AppState.chatCompletions
    (base64Decode : String → Except String (List UInt8)) (state : AppState)
    (request : ChatRequest) (arrival : ChatArrival) : ChatStart :=
  match (state.checkRequest base64Decode request arrival.rss).1 with
  | .error response => .refused response
  | .ok call =>
      let modelName := request.model.getD state.engine.modelId
      let (size, reader) : Nat × ChatReader :=
        if request.stream then
          (state.limits.chatStreamBuffer, .streaming [])
        else (state.limits.chatNonstreamBuffer, .collecting "")
      if acceptsBuffer size then
        .started
          ⟨arrival.id, arrival.created, modelName, state.engine.chat call⟩
          ⟨⟨arrival.available⟩, arrival.otherRuns, arrival.queuedAhead,
            .waiting, .withCapacity size, reader⟩
      else .panicked

/-- Some run of the handler ends with this reply; a handler that panics makes
none. -/
def AppState.Replies (base64Decode : String → Except String (List UInt8))
    (state : AppState) (request : ChatRequest) (arrival : ChatArrival)
    (reply : Option ChatResponse) : Prop :=
  match state.chatCompletions base64Decode request arrival with
  | .refused response => reply = some response
  | .panicked => reply = none
  | .started job session =>
      ∃ actions last response,
        TransitionRuns.run (ChatSession.step job) session actions = some last ∧
          last.reader = .replied response ∧ reply = some response

end TorchInference
