import TorchInference.JsonValue
import Mathlib.Logic.Function.Basic

/-!
# The rate limiter and its middleware

`RateLimiter` counts requests by key in fixed windows of wall-clock seconds.
`RateLimitMiddleware` charges every request but probes to the address its
forwarding headers name, or to its peer; the handler of `POST /predict` charges
the same limiter once more, always to the peer.
-/

namespace TorchInference

structure RateLimitError where
  message : String
  retryAfter : UInt64
  deriving DecidableEq

/-- The response to a refused request: its status, its `Retry-After` header and
its body. -/
structure LimitedResponse where
  status : Nat
  retryAfter : String
  body : JsonValue

def RateLimitError.errorResponse (error : RateLimitError) : LimitedResponse where
  status := 429
  retryAfter := toString error.retryAfter
  body := .object
    [("error", .string error.message),
      ("retry_after", .number (.posInt error.retryAfter))]

structure RateLimiter where
  requestCounts : String → Option (UInt64 × UInt64)
  maxRequests : UInt64
  windowSeconds : UInt64

namespace RateLimiter

def new (maxRequests windowSeconds : UInt64) : RateLimiter :=
  ⟨fun _ => none, maxRequests, windowSeconds⟩

/-- Store the count and the window start of a key. -/
def withEntry (limiter : RateLimiter) (key : String)
    (entry : UInt64 × UInt64) : RateLimiter :=
  { limiter with
    requestCounts := Function.update limiter.requestCounts key (some entry) }

/-- `is_allowed` at the clock reading `now`; subtraction wraps around as it does
in a release build. -/
def isAllowed (limiter : RateLimiter) (key : String) (now : UInt64) :
    Except RateLimitError Unit × RateLimiter :=
  match limiter.requestCounts key with
  | some (count, timestamp) =>
      if limiter.windowSeconds < now - timestamp then
        (.ok (), limiter.withEntry key (1, now))
      else if count < limiter.maxRequests then
        (.ok (), limiter.withEntry key (count + 1, timestamp))
      else
        let retryAfter := limiter.windowSeconds - (now - timestamp)
        (.error ⟨"Rate limit exceeded", retryAfter⟩, limiter)
  | none =>
      if 0 < limiter.maxRequests then
        (.ok (), limiter.withEntry key (1, now))
      else
        (.error ⟨"Rate limit exceeded", limiter.windowSeconds⟩, limiter)

end RateLimiter

/-- The headers a proxy adds. -/
structure ForwardingHeaders where
  forwarded : Option String
  xForwardedFor : Option String
  deriving DecidableEq

/-- What the middleware and the routes read of a request, and the reading of
the clock while it is handled. -/
structure ServiceRequest where
  method : String
  path : String
  peerAddr : Option String
  headers : ForwardingHeaders
  /-- The body is an inference request. -/
  validBody : Bool
  now : UInt64

namespace ServiceRequest

/-- Probes are never throttled. -/
def isExempt (request : ServiceRequest) : Bool :=
  "/health".toList.isPrefixOf request.path.toList || request.path == "/metrics"

/-- The key of the handler. -/
def peerKey (request : ServiceRequest) : String :=
  request.peerAddr.getD "unknown"

/-- The key of the middleware, with `named` for the address the headers name. -/
def realipKey (named : ForwardingHeaders → Option String)
    (request : ServiceRequest) : String :=
  ((named request.headers).or request.peerAddr).getD "unknown"

/-- The request is dispatched to `predict` with its arguments. -/
def reachesPredict (request : ServiceRequest) : Bool :=
  request.method == "POST" && request.path == "/predict" && request.validBody

end ServiceRequest

namespace RateLimiter

variable (named : ForwardingHeaders → Option String)

/-- `RateLimitMiddlewareService::call`: a response when the request does not
reach the inner service. -/
def call (limiter : RateLimiter) (request : ServiceRequest) :
    Option LimitedResponse × RateLimiter :=
  if request.isExempt then (none, limiter)
  else
    match limiter.isAllowed (request.realipKey named) request.now with
    | (.ok _, after) => (none, after)
    | (.error e, after) => (some e.errorResponse, after)

/-- The check at the start of `predict`: the message of a refusal. -/
def predictCheck (limiter : RateLimiter) (request : ServiceRequest) :
    Option String × RateLimiter :=
  match limiter.isAllowed request.peerKey request.now with
  | (.ok _, after) => (none, after)
  | (.error e, after) => (some e.message, after)

/-- A request of the assembled application, which gives the middleware and the
handler one limiter: whether the limiter lets it through. -/
def serve (limiter : RateLimiter) (request : ServiceRequest) :
    Bool × RateLimiter :=
  match limiter.call named request with
  | (some _, after) => (false, after)
  | (none, after) =>
      if request.reachesPredict then
        let (refused, charged) := after.predictCheck request
        (refused.isNone, charged)
      else (true, after)

end RateLimiter

end TorchInference
