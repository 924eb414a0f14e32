import TorchInference.HttpFetch

/-!
# How much of a response is read

The loop over the body stops at the limit in force, for any cut of the body
into chunks.  That limit is the one configured for the tool only where a call
does not give its own, which may be larger.
-/

namespace TorchInference

namespace HttpFetchTool

/-- The cap of a call: its own, or else the configured one. -/
def limitInForce (tool : HttpFetchTool) (args : JsonValue) : Nat :=
  ((args.field "max_bytes").bind asU64).getD tool.maxBytes

/-- The bytes that arrive before the body ends or breaks off. -/
def bodyBytes : List (Except String (List UInt8)) → List UInt8
  | [] => []
  | .error _ :: _ => []
  | .ok bytes :: chunks => bytes ++ bodyBytes chunks

/-- No chunk is an error. -/
def Unbroken (chunks : List (Except String (List UInt8))) : Prop :=
  ∀ chunk ∈ chunks, chunk.isOk = true

/-- What is made of the bytes that were read. -/
def fetched (status : UInt16) (buf : List UInt8) : JsonValue :=
  .object
    [("status", .number (.posInt status.toUInt64)),
      ("body", .string (String.ofList (LossyUtf8.decode buf)))]

section Call

variable (tool : HttpFetchTool)
  (parseUrl : String → Except String (Option String)) (args : JsonValue)
  (remainingNs : Nat) (network : Network)

/-- The request passes the checks and is answered. -/
def Answered (response : FetchResponse) : Prop :=
  ∃ host, tool.preflight parseUrl args remainingNs =
      .ok (host, tool.limitInForce args) ∧
    network.response (tool.reach network 3 [host]) = .ok response

/-- The response keeps to the limit in what it announces, and does not break
off before the limit is reached. -/
def Completes (limit : Nat) (response : FetchResponse) : Prop :=
  (∀ len ∈ response.contentLength, len ≤ limit) ∧
    (Unbroken response.chunks ∨ limit ≤ (bodyBytes response.chunks).length)

/-- The bytes that a call reads. -/
def Reads (response : FetchResponse) (buf : List UInt8) : Prop :=
  tool.Answered parseUrl args remainingNs network response ∧
    (∀ len ∈ response.contentLength, len ≤ tool.limitInForce args) ∧
    readBody (tool.limitInForce args) response.chunks [] = .ok buf

/-- A result is the decoded beginning of the response, no longer than the
configured cap, and chunks that come after the limit in force change nothing. -/
def KeepsCap : Prop :=
  (∀ value, (tool.invoke parseUrl args remainingNs network).2 = .ok value →
    ∃ response buf,
      tool.Reads parseUrl args remainingNs network response buf ∧
      value = fetched response.status buf ∧
      ∃ n ≤ tool.maxBytes, buf = (bodyBytes response.chunks).take n) ∧
  ∀ (response : FetchResponse) (chunks later : List _),
    tool.limitInForce args ≤ (bodyBytes chunks).length →
    result (tool.limitInForce args)
        { response with chunks := chunks ++ later } =
      result (tool.limitInForce args) { response with chunks := chunks }

end Call

/-! ## The loop over the chunks -/

/-- The loop reads the beginning of the body up to the limit, however the body
is cut into chunks. -/
theorem readBody_eq_ok {limit : Nat}
    {chunks : List (Except String (List UInt8))} {buf : List UInt8}
    (within : buf.length ≤ limit)
    (complete : Unbroken chunks ∨
      limit ≤ (buf ++ bodyBytes chunks).length) :
    readBody limit chunks buf =
      .ok ((buf ++ bodyBytes chunks).take limit) := by
  induction chunks generalizing buf with
  | nil => simp [readBody, bodyBytes, List.take_of_length_le within]
  | cons chunk chunks ih =>
      cases chunk with
      | error e =>
          have full : limit ≤ buf.length := by
            rcases complete with unbroken | long
            · exact absurd (unbroken _ List.mem_cons_self) Bool.false_ne_true
            · simpa [bodyBytes] using long
          rw [readBody, if_neg (Nat.not_lt.mpr full),
            List.take_append_of_le_length full,
            List.take_of_length_le within]
      | ok bytes =>
          rw [readBody, bodyBytes]
          by_cases room : buf.length < limit
          · rw [if_pos room]
            have taken :
                (buf ++ bytes.take (limit - buf.length)).length ≤ limit := by
              rw [List.length_append, List.length_take]
              omega
            by_cases fits : bytes.length ≤ limit - buf.length
            · rw [List.take_of_length_le fits] at taken ⊢
              rw [ih taken, List.append_assoc]
              rw [bodyBytes, ← List.append_assoc] at complete
              exact complete.imp_left fun unbroken chunk later =>
                unbroken chunk (List.mem_cons_of_mem _ later)
            · -- The limit is reached inside this chunk.
              have full : limit ≤
                  (buf ++ bytes.take (limit - buf.length)).length := by
                rw [List.length_append, List.length_take]
                omega
              have longer : limit ≤
                  (buf ++ bytes.take (limit - buf.length) ++
                    bodyBytes chunks).length := by
                rw [List.length_append]
                omega
              rw [ih taken (Or.inr longer),
                List.take_append_of_le_length full,
                List.take_of_length_le taken, ← List.append_assoc,
                List.take_append_of_le_length (by
                  rw [List.length_append]; omega),
                List.take_append, List.take_of_length_le within]
          · rw [if_neg room, List.take_append_of_le_length (by omega),
              List.take_of_length_le within]

theorem readBody_eq_error {limit : Nat}
    {chunks : List (Except String (List UInt8))} {buf : List UInt8}
    (broken : ¬ Unbroken chunks)
    (short : (buf ++ bodyBytes chunks).length < limit) :
    ∃ e, readBody limit chunks buf = .error e := by
  induction chunks generalizing buf with
  | nil =>
      exact absurd (fun chunk member => absurd member List.not_mem_nil) broken
  | cons chunk chunks ih =>
      have room : buf.length < limit := by
        rw [List.length_append] at short
        omega
      cases chunk with
      | error e => exact ⟨_, if_pos room⟩
      | ok bytes =>
          rw [bodyBytes, ← List.append_assoc] at short
          have fits : bytes.length ≤ limit - buf.length := by
            simp only [List.length_append] at short
            omega
          rw [readBody, if_pos room, List.take_of_length_le fits]
          refine ih (fun unbroken => broken fun chunk member => ?_) short
          rcases List.mem_cons.mp member with rfl | later
          · rfl
          · exact unbroken chunk later

theorem bodyBytes_append_of_le {limit : Nat}
    {chunks : List (Except String (List UInt8))}
    (long : limit ≤ (bodyBytes chunks).length)
    (later : List (Except String (List UInt8))) :
    (bodyBytes (chunks ++ later)).take limit =
        (bodyBytes chunks).take limit ∧
      limit ≤ (bodyBytes (chunks ++ later)).length := by
  have begins : bodyBytes chunks <+: bodyBytes (chunks ++ later) := by
    clear long
    induction chunks with
    | nil => exact List.nil_prefix
    | cons chunk chunks ih =>
        cases chunk with
        | error e => exact List.prefix_rfl
        | ok bytes => exact (List.prefix_append_right_inj bytes).mpr ih
  obtain ⟨rest, isAll⟩ := begins
  rw [← isAll]
  exact ⟨List.take_append_of_le_length long,
    Nat.le_trans long (by rw [List.length_append]; omega)⟩

/-- What comes after the limit is not looked at. -/
theorem result_append {limit : Nat} (response : FetchResponse)
    {chunks : List (Except String (List UInt8))}
    (long : limit ≤ (bodyBytes chunks).length)
    (later : List (Except String (List UInt8))) :
    result limit { response with chunks := chunks ++ later } =
      result limit { response with chunks := chunks } := by
  obtain ⟨same, longer⟩ := bodyBytes_append_of_le long later
  unfold result
  rw [readBody_eq_ok (Nat.zero_le _) (Or.inr longer),
    readBody_eq_ok (Nat.zero_le _) (Or.inr long)]
  simp only [List.nil_append, same]

/-! ## Calls -/

theorem preflight_limit {tool : HttpFetchTool}
    {parseUrl : String → Except String (Option String)} {args : JsonValue}
    {remainingNs : Nat} {host : String} {maxBytes : Nat}
    (passes : tool.preflight parseUrl args remainingNs =
      .ok (host, maxBytes)) :
    maxBytes = tool.limitInForce args := by
  unfold preflight at passes
  by_cases enabled : tool.enabled = true
  case neg => simp [enabled] at passes
  rw [if_pos enabled] at passes
  cases url : (args.field "url").bind JsonValue.asStr with
  | none => simp [url] at passes
  | some text =>
      simp only [url] at passes
      cases parsed : parseUrl text with
      | error e => simp [parsed] at passes
      | ok found =>
          cases found with
          | none => simp [parsed] at passes
          | some named =>
              simp only [parsed] at passes
              split_ifs at passes with allowed refused late
              obtain ⟨-, isLimit⟩ := Prod.mk.inj (Except.ok.inj passes)
              exact isLimit.symm

theorem result_eq_ok_iff (limit : Nat) (response : FetchResponse)
    (value : JsonValue) :
    result limit response = .ok value ↔
      (∀ len ∈ response.contentLength, len ≤ limit) ∧
        ∃ buf, readBody limit response.chunks [] = .ok buf ∧
          value = fetched response.status buf := by
  have fromBuffer :
      (readBody limit response.chunks [] >>= fun buf =>
        (.ok (fetched response.status buf) : Except ToolError JsonValue)) =
          .ok value ↔
        ∃ buf, readBody limit response.chunks [] = .ok buf ∧
          value = fetched response.status buf := by
    cases readBody limit response.chunks [] with
    | error e => simp [bind, Except.bind]
    | ok buf => simp [bind, Except.bind, eq_comm]
  rw [← fromBuffer]
  unfold result
  cases response.contentLength with
  | none => simp [fetched, pure, Except.pure]
  | some len =>
      by_cases exceeds : limit < len
      · refine iff_of_false ?_ fun fits =>
          Nat.not_le.mpr exceeds (fits.1 len rfl)
        simp [exceeds, throw, throwThe, MonadExceptOf.throw, bind,
          Except.bind]
      · simp [exceeds, Nat.not_lt.mp exceeds, fetched, pure, Except.pure,
          bind, Except.bind]

section Call

variable {tool : HttpFetchTool}
  {parseUrl : String → Except String (Option String)} {args : JsonValue}
  {remainingNs : Nat} {network : Network}

/-- A call succeeds with what it reads. -/
theorem invoke_eq_ok_iff (value : JsonValue) :
    (tool.invoke parseUrl args remainingNs network).2 = .ok value ↔
      ∃ response buf,
        tool.Reads parseUrl args remainingNs network response buf ∧
        value = fetched response.status buf := by
  constructor
  · intro succeeds
    unfold invoke at succeeds
    cases passes : tool.preflight parseUrl args remainingNs with
    | error e => simp [passes] at succeeds
    | ok request =>
        obtain ⟨host, maxBytes⟩ := request
        obtain rfl := preflight_limit passes
        simp only [passes] at succeeds
        cases answer : network.response (tool.reach network 3 [host]) with
        | error e => cases e <;> simp [answer] at succeeds
        | ok response =>
            simp only [answer] at succeeds
            obtain ⟨fits, buf, read, isValue⟩ :=
              (result_eq_ok_iff _ _ _).mp succeeds
            exact ⟨response, buf, ⟨⟨host, passes, answer⟩, fits, read⟩,
              isValue⟩
  · rintro ⟨response, buf, ⟨⟨host, passes, answer⟩, fits, read⟩, isValue⟩
    unfold invoke
    simp only [passes, answer]
    exact (result_eq_ok_iff _ _ _).mpr ⟨fits, buf, read, isValue⟩

/-- What is read of a response that completes is its beginning. -/
theorem reads_iff {response : FetchResponse} {buf : List UInt8} :
    tool.Reads parseUrl args remainingNs network response buf ↔
      tool.Answered parseUrl args remainingNs network response ∧
        Completes (tool.limitInForce args) response ∧
        buf = (bodyBytes response.chunks).take (tool.limitInForce args) := by
  unfold Reads Completes
  by_cases complete : Unbroken response.chunks ∨
      tool.limitInForce args ≤ (bodyBytes response.chunks).length
  · rw [readBody_eq_ok (Nat.zero_le _) complete]
    simp [complete, eq_comm]
  · obtain ⟨broken, short⟩ := not_or.mp complete
    obtain ⟨e, fails⟩ := @readBody_eq_error _ _ [] broken
      (Nat.not_le.mp short)
    simp [fails, complete]

/-- A request has one answer. -/
theorem Answered.unique {response other : FetchResponse}
    (answered : tool.Answered parseUrl args remainingNs network response)
    (otherwise : tool.Answered parseUrl args remainingNs network other) :
    response = other := by
  obtain ⟨host, passes, answer⟩ := answered
  obtain ⟨host', passes', answer'⟩ := otherwise
  obtain ⟨rfl, -⟩ := Prod.mk.inj (Except.ok.inj (passes.symm.trans passes'))
  exact Except.ok.inj (answer.symm.trans answer')

/-- Where the cap is kept, no more bytes are read. -/
theorem KeepsCap.length_le {response : FetchResponse}
    (keeps : tool.KeepsCap parseUrl args remainingNs network)
    (answered : tool.Answered parseUrl args remainingNs network response)
    (completes : Completes (tool.limitInForce args) response) :
    min (tool.limitInForce args) (bodyBytes response.chunks).length ≤
      tool.maxBytes := by
  have reads := reads_iff.mpr ⟨answered, completes, rfl⟩
  obtain ⟨response', buf, reads', -, n, capped, isBeginning⟩ :=
    keeps.1 _ ((invoke_eq_ok_iff _).mpr ⟨response, _, reads, rfl⟩)
  obtain ⟨answered', -, isRead⟩ := reads_iff.mp reads'
  obtain rfl := answered.unique answered'
  have sameLength := congrArg List.length (isRead.symm.trans isBeginning)
  rw [List.length_take, List.length_take] at sameLength
  omega

/-- A call keeps to the configured cap exactly when the limit in force does, or
the response is no longer than the cap, or the request is not answered or its
answer does not complete. -/
theorem keepsCap_iff :
    tool.KeepsCap parseUrl args remainingNs network ↔
      tool.limitInForce args ≤ tool.maxBytes ∨
        ∀ response, tool.Answered parseUrl args remainingNs network response →
          Completes (tool.limitInForce args) response →
          (bodyBytes response.chunks).length ≤ tool.maxBytes := by
  constructor
  · intro keeps
    by_cases tight : tool.limitInForce args ≤ tool.maxBytes
    · exact Or.inl tight
    · refine Or.inr fun response answered completes => ?_
      have atMost := keeps.length_le answered completes
      omega
  · intro condition
    refine ⟨fun value succeeds => ?_, fun response chunks later long =>
      result_append response long later⟩
    obtain ⟨response, buf, reads, isValue⟩ := (invoke_eq_ok_iff value).mp succeeds
    obtain ⟨answered, completes, isBeginning⟩ := reads_iff.mp reads
    refine ⟨response, buf, reads, isValue, ?_⟩
    rcases condition with tight | short
    · exact ⟨_, tight, isBeginning⟩
    · refine ⟨min (tool.limitInForce args)
          (bodyBytes response.chunks).length, ?_,
        isBeginning.trans List.take_eq_take_min⟩
      exact Nat.le_trans (Nat.min_le_right _ _)
        (short response answered completes)

end Call

/-! ## A call with a larger limit -/

/-- A tool with a cap of four bytes. -/
def cappedTool : HttpFetchTool where
  allowlist := ["a"]
  maxBytes := 4
  followRedirects := false
  enabled := true

/-- A call that asks for eight. -/
def eightByteArgs : JsonValue :=
  .object [("url", .string "http://a/"), ("max_bytes", .number (.posInt 8))]

/-- Eight bytes in one chunk, without an announced length. -/
def eightByteResponse : FetchResponse where
  status := 200
  contentLength := none
  chunks := [.ok (LossyUtf8.encode "abcdefgh".toList)]

def eightByteNetwork : Network where
  redirect := fun _ => none
  response := fun _ => .ok eightByteResponse

/-- All eight bytes are read. -/
theorem eightBytes_beyond_cap :
    cappedTool.maxBytes = 4 ∧
      (cappedTool.invoke (fun _ => .ok (some "a")) eightByteArgs 1
        eightByteNetwork).2 =
        .ok (fetched 200 (LossyUtf8.encode "abcdefgh".toList)) ∧
      ¬ cappedTool.KeepsCap (fun _ => .ok (some "a")) eightByteArgs 1
        eightByteNetwork := by
  have passes : cappedTool.preflight (fun _ => .ok (some "a"))
      eightByteArgs 1 = .ok ("a", 8) := by
    decide
  refine ⟨rfl, ?_, fun keeps => ?_⟩
  · unfold invoke
    rw [passes]
    rfl
  · have completes : Completes (cappedTool.limitInForce eightByteArgs)
        eightByteResponse := by
      refine ⟨fun len given => ?_, Or.inr (by decide)⟩
      cases given
    have atMost := keeps.length_le ⟨"a", passes, rfl⟩ completes
    exact absurd atMost (by decide)

end HttpFetchTool

end TorchInference
