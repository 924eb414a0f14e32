import TorchInference.AgentTools
import TorchInference.IpAddresses
import TorchInference.LossyUtf8

/-!
# The tool that fetches over HTTP

A fetch is allowed for the hosts that match the allowlist, unless they are
private; a pattern for `.internal` names lifts the second check.  The same
checks are made for the target of each redirect.  Both of them read the text of
the host, as names are not resolved.
-/

namespace TorchInference

open IpParser

/-! ## Hosts -/

/-- `host` ends with `suffix`. -/
def hasSuffix (host suffix : String) : Bool :=
  suffix.toList.isSuffixOf host.toList

def hostMatchesGlob (host pat : String) : Bool :=
  match pat.toList with
  | '*' :: '.' :: suffix =>
      let needle := "." ++ String.ofList suffix
      hasSuffix host needle && needle.utf8ByteSize < host.utf8ByteSize
  | _ => host == pat

namespace Ipv4Addr

def isLoopback (v4 : Ipv4Addr) : Bool :=
  v4.a == 127

def isPrivate (v4 : Ipv4Addr) : Bool :=
  v4.a == 10 || (v4.a == 172 && 16 ≤ v4.b && v4.b ≤ 31) ||
    (v4.a == 192 && v4.b == 168)

def isUnspecified (v4 : Ipv4Addr) : Bool :=
  v4 == ⟨0, 0, 0, 0⟩

end Ipv4Addr

namespace Ipv6Addr

def isLoopback (v6 : Ipv6Addr) : Bool :=
  v6 == ⟨0, 0, 0, 0, 0, 0, 0, 1⟩

def isUnspecified (v6 : Ipv6Addr) : Bool :=
  v6 == ⟨0, 0, 0, 0, 0, 0, 0, 0⟩

end Ipv6Addr

def isPrivateV4 (v4 : Ipv4Addr) : Bool :=
  v4.isLoopback || v4.isPrivate || v4.isUnspecified ||
    (v4.a == 169 && v4.b == 254) ||
    (v4.a == 100 && v4.b &&& 0xc0 == 0x40) ||
    v4 == ⟨255, 255, 255, 255⟩

/-- The branch of `is_private_host` for an IPv6 address. -/
def isPrivateV6 (v6 : Ipv6Addr) : Bool :=
  if v6.isLoopback || v6.isUnspecified then true
  else if v6.s0 == 0 && v6.s1 == 0 && v6.s2 == 0 && v6.s3 == 0 &&
      v6.s4 == 0 && v6.s5 == 0xffff then
    isPrivateV4 ⟨(v6.s6 >>> 8).toUInt8, (v6.s6 &&& 0xff).toUInt8,
      (v6.s7 >>> 8).toUInt8, (v6.s7 &&& 0xff).toUInt8⟩
  else if v6.s0 &&& 0xfe00 == 0xfc00 then true
  else if v6.s0 &&& 0xffc0 == 0xfe80 then true
  else false

/-- `trim_start_matches('[')` and `trim_end_matches(']')`. -/
def trimBrackets (host : List Char) : List Char :=
  ((host.dropWhile (· == '[')).reverse.dropWhile (· == ']')).reverse

def isPrivateHost (host : String) : Bool :=
  match parseIpAddr (trimBrackets host.toList) with
  | some (.v4 v4) => isPrivateV4 v4
  | some (.v6 v6) => isPrivateV6 v6
  | none =>
      host == "localhost" || host == "ip6-localhost" || host == "ip6-loopback"

/-! ## The tool -/

structure HttpFetchTool where
  allowlist : List String
  maxBytes : Nat
  followRedirects : Bool
  enabled : Bool

namespace HttpFetchTool

def hostAllowed (tool : HttpFetchTool) (host : String) : Bool :=
  tool.allowlist.any fun pat => hostMatchesGlob host pat

def internalOk (tool : HttpFetchTool) (host : String) : Bool :=
  tool.allowlist.any fun pat =>
    hasSuffix pat ".internal" && hostMatchesGlob host pat

/-- Whether a redirect is followed, after the given URLs. -/
def followsRedirect (tool : HttpFetchTool) (previous : List String)
    (host : String) : Bool :=
  if tool.followRedirects then
    if 3 ≤ previous.length then false
    else tool.hostAllowed host && !(isPrivateHost host && !tool.internalOk host)
  else false

/-- Why a request has no response. -/
inductive SendError where
  | timeout
  | failed (message : String)

/-- A response, with the chunks of its body or an error in place of one. -/
structure FetchResponse where
  status : UInt16
  contentLength : Option Nat
  chunks : List (Except String (List UInt8))

/-- The servers: where the last of some hosts redirects to, and what the last
of them answers in the end. -/
structure Network where
  redirect : List String → Option String
  response : List String → Except SendError FetchResponse

/-- `as_u64`. -/
def asU64 : JsonValue → Option Nat
  | .number (.posInt value) => some value.toNat
  | _ => none

/-- The checks before a request: its host and the cap of its body.  The parser
of URLs gives the text of the host, if there is one. -/
def preflight (tool : HttpFetchTool)
    (parseUrl : String → Except String (Option String)) (args : JsonValue)
    (remainingNs : Nat) : Except ToolError (String × Nat) :=
  if tool.enabled then
    match (args.field "url").bind JsonValue.asStr with
    | none => .error (.badArg "http_fetch requires `url`")
    | some url =>
        let maxBytes := ((args.field "max_bytes").bind asU64).getD tool.maxBytes
        match parseUrl url with
        | .error e => .error (.badArg ("invalid url: " ++ e))
        | .ok none => .error (.badArg "url missing host")
        | .ok (some host) =>
            if tool.hostAllowed host then
              if isPrivateHost host && !tool.internalOk host then
                .error (.denied s!"http_fetch denied: private host `{host}`")
              else if remainingNs = 0 then .error (.timeout 0)
              else .ok (host, maxBytes)
            else
              .error (.denied
                s!"http_fetch denied: host `{host}` not in allowlist")
  else .error (.denied "http_fetch disabled")

/-- The hosts that a request reaches within a number of answers. -/
def reach (tool : HttpFetchTool) (network : Network) :
    Nat → List String → List String
  | 0, hosts => hosts
  | answers + 1, hosts =>
      match network.redirect hosts with
      | none => hosts
      | some host =>
          if tool.followsRedirect hosts host then
            tool.reach network answers (hosts ++ [host])
          else hosts

/-- The loop over the chunks of the body. -/
def readBody (maxBytes : Nat) :
    List (Except String (List UInt8)) → List UInt8 →
      Except ToolError (List UInt8)
  | [], buf => .ok buf
  | chunk :: chunks, buf =>
      if buf.length < maxBytes then
        match chunk with
        | .error e => .error (.upstream ("http_fetch body: " ++ e))
        | .ok bytes =>
            readBody maxBytes chunks
              (buf ++ bytes.take (maxBytes - buf.length))
      else .ok buf

/-- What is made of a response. -/
def result (maxBytes : Nat) (response : FetchResponse) :
    Except ToolError JsonValue := do
  match response.contentLength with
  | some len =>
      if maxBytes < len then
        throw (.upstream ("http_fetch body too large: Content-Length " ++
          s!"{len} > max_bytes {maxBytes}"))
  | none => pure ()
  let buf ← readBody maxBytes response.chunks []
  return .object
    [("status", .number (.posInt response.status.toUInt64)),
      ("body", .string (String.ofList (LossyUtf8.decode buf)))]

/-- `invoke`: the hosts that are reached, and the result.  A third redirect is
never followed. -/
def invoke (tool : HttpFetchTool)
    (parseUrl : String → Except String (Option String)) (args : JsonValue)
    (remainingNs : Nat) (network : Network) :
    List String × Except ToolError JsonValue :=
  match tool.preflight parseUrl args remainingNs with
  | .error e => ([], .error e)
  | .ok (host, maxBytes) =>
      let hosts := tool.reach network 3 [host]
      match network.response hosts with
      | .error .timeout => (hosts, .error (.timeout (remainingNs / 1000000)))
      | .error (.failed e) =>
          (hosts, .error (.upstream ("http_fetch: " ++ e)))
      | .ok response => (hosts, result maxBytes response)

end HttpFetchTool

end TorchInference
