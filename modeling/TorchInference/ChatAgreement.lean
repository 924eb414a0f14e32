import TorchInference.ChatSessionReply

/-!
# What the two branches of a chat answer

The streaming branch ends every stream with `[DONE]`; the other one answers 200
exactly when the engine has ended with `Ok`.  So the branches agree about a
request in no other case, unless its stream cannot be opened.
-/

namespace TorchInference

open BoundedChannel

/-! ## The replies of the handler -/

section Replies

variable {base64Decode : String → Except String (List UInt8)}
  {state : AppState} {request : ChatRequest} {call : ChatCall}
  {arrival : ChatArrival}

/-- The size of the channel of a branch. -/
def LimitsConfig.channelBuffer (limits : LimitsConfig) (stream : Bool) : Nat :=
  if stream then limits.chatStreamBuffer else limits.chatNonstreamBuffer

/-- The session of a branch as its channel is opened. -/
def ChatArrival.session (arrival : ChatArrival) (size : Nat) (stream : Bool) :
    ChatSession :=
  ⟨⟨arrival.available⟩, arrival.otherRuns, arrival.queuedAhead, .waiting,
    .withCapacity size, if stream then .streaming [] else .collecting ""⟩

theorem ChatArrival.session_inv (arrival : ChatArrival) (job : ChatJob)
    {size : Nat} (accepted : acceptsBuffer size = true) (stream : Bool) :
    (arrival.session size stream).Inv job stream := by
  have positive : 0 < size := by
    simp only [acceptsBuffer, Bool.and_eq_true, decide_eq_true_eq] at accepted
    exact accepted.1
  refine ⟨⟨[], Transit.start job.behaviour.tokens size, ?_⟩, rfl, ?_, positive,
    fun _ => arrival.leased⟩
  · cases stream
    · exact ⟨rfl, rfl⟩
    · exact ⟨rfl, rfl⟩
  · intro content isJoining
    cases stream <;> cases isJoining

/-- What a request that passes the checks is handled with. -/
def AppState.job (state : AppState) (request : ChatRequest) (call : ChatCall)
    (arrival : ChatArrival) : ChatJob :=
  ⟨arrival.id, arrival.created, request.model.getD state.engine.modelId,
    state.engine.chat call⟩

theorem chatCompletions_eq
    (passes : (state.checkRequest base64Decode request arrival.rss).1 =
      .ok call) (stream : Bool) :
    state.chatCompletions base64Decode { request with stream := stream }
        arrival =
      if acceptsBuffer (state.limits.channelBuffer stream) then
        .started (state.job request call arrival)
          (arrival.session (state.limits.channelBuffer stream) stream)
      else .panicked := by
  have same : (state.checkRequest base64Decode
      { request with stream := stream } arrival.rss).1 = .ok call := passes
  unfold AppState.chatCompletions
  rw [same]
  cases stream <;> rfl

/-- A branch makes one reply, whatever the order of its steps. -/
theorem replies_iff
    (passes : (state.checkRequest base64Decode request arrival.rss).1 =
      .ok call) (stream : Bool) (reply : Option ChatResponse) :
    state.Replies base64Decode { request with stream := stream } arrival
        reply ↔
      reply = if acceptsBuffer (state.limits.channelBuffer stream) then
        some ((state.job request call arrival).reply stream) else none := by
  unfold AppState.Replies
  rw [chatCompletions_eq passes stream]
  split_ifs with accepted
  · have inv := arrival.session_inv (state.job request call arrival) accepted
      stream
    constructor
    · rintro ⟨actions, last, response, reaches, replied, rfl⟩
      rw [ChatSession.reply_of_run inv reaches replied]
    · rintro rfl
      obtain ⟨actions, last, reaches, response, replied⟩ :=
        ChatSession.exists_reply inv
      refine ⟨actions, last, response, reaches, replied, ?_⟩
      rw [ChatSession.reply_of_run inv reaches replied]
  · exact Iff.rfl

end Replies

/-! ## Agreement -/

/-- The contents of a streamed event. -/
def SseEvent.deltaContent : SseEvent → Option String
  | .json data =>
      ((((data.field "choices").bind (JsonValue.item 0)).bind
        (JsonValue.field "delta")).bind (JsonValue.field "content")).bind
          JsonValue.asStr
  | .text _ => none

namespace ChatResponse

/-- The contents of all streamed events together. -/
def deltaContents (response : ChatResponse) : String :=
  match response.body with
  | .events events => String.join (events.filterMap SseEvent.deltaContent)
  | .json _ => ""

def EndsWithDone (response : ChatResponse) : Prop :=
  ∃ events, response.body = .events (events ++ [sseDone])

/-- The content of an answer that is not streamed. -/
def messageContent (response : ChatResponse) : Option String :=
  match response.body with
  | .events _ => none
  | .json value =>
      ((((value.field "choices").bind (JsonValue.item 0)).bind
        (JsonValue.field "message")).bind (JsonValue.field "content")).bind
          JsonValue.asStr

end ChatResponse

theorem deltaContent_sseChunk (id : String) (created : UInt64)
    (content model : String) :
    (sseChunk id created content model).deltaContent = some content :=
  rfl

theorem messageContent_completion (job : ChatJob) (content : String) :
    (job.completion content).messageContent = some content :=
  rfl

namespace ChatJob

variable (job : ChatJob)

/-- The streamed contents add up to the tokens. -/
theorem deltaContents_reply :
    (job.reply true).deltaContents = String.join job.behaviour.tokens := by
  have contents : SseEvent.deltaContent ∘ job.chunk = some := by
    funext token
    exact deltaContent_sseChunk job.id job.created token job.modelName
  have nothing : [sseDone].filterMap SseEvent.deltaContent = [] := rfl
  simp only [reply, if_true, streamResponse, ChatResponse.deltaContents,
    List.filterMap_append, List.filterMap_map, contents, List.filterMap_some,
    nothing, List.append_nil]

/-- Every stream ends with `[DONE]`. -/
theorem endsWithDone_reply : (job.reply true).EndsWithDone :=
  ⟨job.behaviour.tokens.map job.chunk, rfl⟩

/-- The other branch answers 200 exactly when the engine ended with `Ok`. -/
theorem status_reply :
    (job.reply false).status = 200 ↔ job.behaviour.outcome = .ok := by
  simp only [reply, Bool.false_eq_true, if_false, answer]
  cases job.behaviour.outcome with
  | ok => simp [completion]
  | error message => simp
  | panicked joinError => simp

theorem messageContent_reply (succeeds : job.behaviour.outcome = .ok) :
    (job.reply false).messageContent =
      some (String.join job.behaviour.tokens) := by
  simp only [reply, Bool.false_eq_true, if_false, answer, succeeds]
  exact messageContent_completion job (String.join job.behaviour.tokens)

end ChatJob

/-- A streamed reply that ends with `[DONE]` has the contents of an answer
with status 200, which the request gets when it does not ask for a stream. -/
def AppState.BranchesAgree
    (base64Decode : String → Except String (List UInt8)) (state : AppState)
    (request : ChatRequest) (call : ChatCall) : Prop :=
  ∀ first second : ChatArrival,
    (state.checkRequest base64Decode request first.rss).1 = .ok call →
    (state.checkRequest base64Decode request second.rss).1 = .ok call →
    ∀ streamed, state.Replies base64Decode { request with stream := true }
        first (some streamed) →
      streamed.EndsWithDone →
      (∃ reply, state.Replies base64Decode { request with stream := false }
        second reply) ∧
      ∀ reply, state.Replies base64Decode { request with stream := false }
          second reply →
        ∃ response, reply = some response ∧ response.status = 200 ∧
          response.messageContent = some streamed.deltaContents

/-- The branches agree about a request that passes the checks exactly when the
engine ends with `Ok` and the answer can be collected, or nothing can be
streamed. -/
theorem branchesAgree_iff
    (base64Decode : String → Except String (List UInt8)) (state : AppState)
    (request : ChatRequest) (call : ChatCall) (arrival : ChatArrival)
    (passes : (state.checkRequest base64Decode request arrival.rss).1 =
      .ok call) :
    state.BranchesAgree base64Decode request call ↔
      acceptsBuffer state.limits.chatStreamBuffer = false ∨
        (state.engine.chat call).outcome = .ok ∧
          acceptsBuffer state.limits.chatNonstreamBuffer = true := by
  constructor
  · intro agree
    cases canStream : acceptsBuffer state.limits.chatStreamBuffer with
    | false => exact Or.inl rfl
    | true =>
        right
        have streamed := (replies_iff passes true _).mpr
          (if_pos (show acceptsBuffer (state.limits.channelBuffer true) = true
            from canStream)).symm
        obtain ⟨⟨reply, replied⟩, answers⟩ := agree arrival arrival passes
          passes _ streamed (ChatJob.endsWithDone_reply _)
        obtain ⟨response, isResponse, status, _⟩ := answers reply replied
        rw [replies_iff passes false, isResponse] at replied
        split_ifs at replied with canCollect
        rw [Option.some.inj replied] at status
        exact ⟨(ChatJob.status_reply _).mp status, canCollect⟩
  · intro condition first second passesFirst passesSecond streamed replied _
    rw [replies_iff passesFirst true] at replied
    rcases condition with cannotStream | ⟨succeeds, canCollect⟩
    · rw [if_neg (by simpa [LimitsConfig.channelBuffer] using cannotStream)]
        at replied
      cases replied
    · split_ifs at replied with canStream
      rw [Option.some.inj replied]
      simp only [replies_iff passesSecond false]
      rw [if_pos (show acceptsBuffer (state.limits.channelBuffer false) = true
        from canCollect)]
      refine ⟨⟨_, rfl⟩, ?_⟩
      rintro _ rfl
      refine ⟨_, rfl, (ChatJob.status_reply _).mpr succeeds, ?_⟩
      rw [ChatJob.messageContent_reply _ succeeds,
        ChatJob.deltaContents_reply]
      rfl

/-- A service with the default limits whose engine ends as given after one
token. -/
def oneTokenService (outcome : ChatOutcome) : AppState where
  engine := ⟨fun _ => ⟨["Hello"], outcome⟩, false, "hrm-text-1b"⟩
  vision := none
  gate := ⟨4294967296, 3221225472, false⟩
  limits := ⟨2097152, 16384, 32, 512, 16, 64⟩

def helloRequest : ChatRequest :=
  ⟨none, [⟨"user", .text "Hi"⟩], true, 512, 0.7⟩

def helloCall : ChatCall :=
  ⟨[("user", "Hi")], none, 512, 0.7⟩

def firstArrival : ChatArrival :=
  ⟨"chatcmpl-1", 1700000000, 1073741824, 1, 0, 0, Nat.one_pos⟩

/-- An engine that ends with `Ok`. -/
theorem completeHello_branchesAgree :
    (oneTokenService .ok).BranchesAgree (fun _ => .error "InvalidPadding")
      helloRequest helloCall :=
  (branchesAgree_iff (fun _ => .error "InvalidPadding") (oneTokenService .ok)
    helloRequest helloCall firstArrival rfl).mpr
    (Or.inr ⟨rfl, by decide⟩)

/-- An engine that fails after one token: the stream ends with `[DONE]`, the
other branch answers 500. -/
theorem cutHello_streams_done :
    ¬ ∀ (base64Decode : String → Except String (List UInt8))
      (state : AppState) (request : ChatRequest) (call : ChatCall)
      (arrival : ChatArrival),
      (state.checkRequest base64Decode request arrival.rss).1 = .ok call →
        state.BranchesAgree base64Decode request call := by
  intro always
  let service := oneTokenService (.error "decode failed")
  have passes : (service.checkRequest (fun _ => .error "InvalidPadding")
      helloRequest firstArrival.rss).1 = .ok helloCall := rfl
  have streamed := (replies_iff passes true _).mpr rfl
  have answered := (replies_iff passes false _).mpr rfl
  obtain ⟨_, answers⟩ := always _ service helloRequest helloCall firstArrival
    passes firstArrival firstArrival passes passes _ streamed
    (ChatJob.endsWithDone_reply _)
  obtain ⟨response, isResponse, status, _⟩ := answers _ answered
  rw [← Option.some.inj isResponse] at status
  exact absurd status (by decide)

end TorchInference
