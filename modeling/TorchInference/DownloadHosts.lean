import Mathlib.Data.List.Basic

/-!
# Hosts a URL download contacts

`download_from_url` checks the scheme and the host of the URL it is given and
then sends a request with the shared client.  That client has no redirect
policy of its own, so it follows up to ten redirects to any `http` or `https`
target, and the hosts it contacts are chosen by the responses.  Parsing a URL
is left to the URL library and is a parameter.
-/

namespace TorchInference

/-- What the download reads off a parsed URL. -/
structure Url where
  scheme : String
  hostStr : Option String
  pathSegments : Option (List String)
  deriving DecidableEq

def allowedHosts : List String :=
  ["huggingface.co",
    "cdn-lfs.huggingface.co",
    "github.com",
    "objects.githubusercontent.com",
    "download.pytorch.org",
    "storage.googleapis.com"]

def loopbackHosts : List String :=
  ["localhost", "127.0.0.1", "[::1]", "::1"]

namespace Url

def host (url : Url) : String :=
  url.hostStr.getD ""

def isLoopback (url : Url) : Bool :=
  loopbackHosts.contains url.host

/-- The host is in the list or ends with a dot and an entry of it. -/
def hostAllowed (url : Url) : Bool :=
  allowedHosts.any fun allowed =>
    url.host == allowed ||
      ('.' :: allowed.toList).isSuffixOf url.host.toList

/-- The check made before the request is sent. -/
def check (url : Url) : Except String Unit :=
  if url.scheme = "https" ∨ url.scheme = "http" ∧ url.isLoopback then
    if ¬ url.isLoopback ∧ ¬ url.hostAllowed then
      .error s!"model download host '{url.host}' is not in the allowlist"
    else .ok ()
  else .error s!"scheme '{url.scheme}' is not allowed for model downloads"

end Url

inductive HttpReply where
  | redirect (target : Url)
  /-- Any other response, or none at all. -/
  | answer
  deriving DecidableEq

/-- The redirects followed by a client without a redirect policy. -/
def redirectLimit : Nat := 10

/-- The targets a client goes on to, given the replies it receives. -/
def redirectsFollowed : Nat → List HttpReply → List Url
  | limit + 1, .redirect target :: replies =>
      if target.scheme = "http" ∨ target.scheme = "https" then
        target :: redirectsFollowed limit replies
      else []
  | _, _ => []

/-- The URLs requested for a `Url` download, in order. -/
def urlDownloadRequests (parse : String → Option Url) (url : String)
    (replies : List HttpReply) : List Url :=
  match parse url with
  | none => []
  | some parsed =>
      match parsed.check with
      | .error _ => []
      | .ok () => parsed :: redirectsFollowed redirectLimit replies

/-! ## What the check means -/

/-- The host is an entry of the list or a subdomain of one. -/
def AllowedHost (host : String) : Prop :=
  ∃ allowed ∈ allowedHosts, host = allowed ∨
    ∃ labels : List Char, host.toList = labels ++ '.' :: allowed.toList

/-- A request may go to `target` when the client submitted `submitted`. -/
structure Permitted (submitted target : Url) : Prop where
  host : AllowedHost target.host ∨
    target.isLoopback = true ∧ submitted.isLoopback = true
  scheme : target.scheme = "https" ∨
    target.scheme = "http" ∧ target.isLoopback = true

theorem hostAllowed_iff (url : Url) :
    url.hostAllowed = true ↔ AllowedHost url.host := by
  simp only [Url.hostAllowed, List.any_eq_true, Bool.or_eq_true,
    beq_iff_eq, List.isSuffixOf_iff_suffix, AllowedHost]
  refine exists_congr fun allowed => and_congr_right fun _ =>
    or_congr_right ?_
  exact exists_congr fun labels => eq_comm

/-- No loopback name is an allowed host. -/
theorem not_hostAllowed_of_isLoopback {url : Url}
    (loopback : url.isLoopback = true) : url.hostAllowed = false := by
  have everyName : ∀ host ∈ loopbackHosts,
      (allowedHosts.any fun allowed => host == allowed ||
        ('.' :: allowed.toList).isSuffixOf host.toList) = false := by
    decide +kernel
  have member : url.host ∈ loopbackHosts := by
    simpa [Url.isLoopback] using loopback
  exact everyName url.host member

theorem check_eq_ok (url : Url) :
    url.check = .ok () ↔
      (url.scheme = "https" ∨ url.scheme = "http" ∧ url.isLoopback = true) ∧
        (url.isLoopback = true ∨ url.hostAllowed = true) := by
  unfold Url.check
  split
  case isTrue scheme =>
    split
    case isTrue refused =>
      simp [refused.1, refused.2]
    case isFalse granted =>
      have known : url.isLoopback = true ∨ url.hostAllowed = true := by
        by_cases loopback : url.isLoopback = true
        · exact Or.inl loopback
        · exact Or.inr (by
            by_contra unknown
            exact granted ⟨loopback, unknown⟩)
      simp [scheme, known]
  case isFalse scheme =>
    simp [scheme]

/-- A target is permitted exactly when it would pass the check itself and is
loopback only if the submitted URL was. -/
theorem permitted_iff (submitted target : Url) :
    Permitted submitted target ↔ target.check = .ok () ∧
      (target.isLoopback = true → submitted.isLoopback = true) := by
  rw [check_eq_ok]
  constructor
  · intro permitted
    refine ⟨⟨permitted.scheme, ?_⟩, ?_⟩
    · rcases permitted.host with allowed | ⟨loopback, -⟩
      · exact Or.inr ((hostAllowed_iff target).mpr allowed)
      · exact Or.inl loopback
    · intro loopback
      rcases permitted.host with allowed | ⟨-, submittedLoopback⟩
      · have refused := not_hostAllowed_of_isLoopback loopback
        rw [(hostAllowed_iff target).mpr allowed] at refused
        cases refused
      · exact submittedLoopback
  · rintro ⟨⟨scheme, known⟩, loopbackOnly⟩
    refine ⟨?_, scheme⟩
    rcases known with loopback | allowed
    · exact Or.inr ⟨loopback, loopbackOnly loopback⟩
    · exact Or.inl ((hostAllowed_iff target).mp allowed)

/-! ## Contacted hosts -/

/-- Every host contacted for the download is permitted. -/
def ContactsPermitted (parse : String → Option Url) (url : String)
    (replies : List HttpReply) : Prop :=
  ∀ submitted, parse url = some submitted →
    ∀ target ∈ urlDownloadRequests parse url replies,
      Permitted submitted target

/-- Every redirect that is followed passes the check of a submitted URL, and
leads to loopback only if the submitted URL did. -/
def RedirectsPass (parse : String → Option Url) (url : String)
    (replies : List HttpReply) : Prop :=
  ∀ submitted, parse url = some submitted → submitted.check = .ok () →
    ∀ target ∈ redirectsFollowed redirectLimit replies,
      target.check = .ok () ∧
        (target.isLoopback = true → submitted.isLoopback = true)

theorem urlDownloadRequests_of_check {parse : String → Option Url}
    {url : String} {submitted : Url} (parses : parse url = some submitted)
    (checked : submitted.check = .ok ()) (replies : List HttpReply) :
    urlDownloadRequests parse url replies =
      submitted :: redirectsFollowed redirectLimit replies := by
  simp [urlDownloadRequests, parses, checked]

theorem urlDownloadRequests_of_refused {parse : String → Option Url}
    {url reason : String} {submitted : Url}
    (parses : parse url = some submitted)
    (refused : submitted.check = .error reason) (replies : List HttpReply) :
    urlDownloadRequests parse url replies = [] := by
  simp [urlDownloadRequests, parses, refused]

/-- The check covers the submitted URL and nothing after it: only permitted
hosts are contacted exactly when every followed redirect passes the check. -/
theorem contactsPermitted_iff_redirectsPass (parse : String → Option Url)
    (url : String) (replies : List HttpReply) :
    ContactsPermitted parse url replies ↔
      RedirectsPass parse url replies := by
  constructor
  · intro permitted submitted parses checked target followed
    have requests := urlDownloadRequests_of_check parses checked replies
    have targetPermitted : Permitted submitted target :=
      permitted submitted parses target (by
        rw [requests]
        exact List.mem_cons_of_mem _ followed)
    exact (permitted_iff submitted target).mp targetPermitted
  · intro pass submitted parses target contacted
    cases checked : submitted.check with
    | error reason =>
        rw [urlDownloadRequests_of_refused parses checked] at contacted
        cases contacted
    | ok granted =>
        rw [urlDownloadRequests_of_check parses checked] at contacted
        apply (permitted_iff submitted target).mpr
        rcases List.mem_cons.mp contacted with rfl | followed
        · exact ⟨checked, id⟩
        · exact pass submitted parses checked target followed

/-- A release archive whose host redirects to a metadata address. -/
def releaseUrl : Url where
  scheme := "https"
  hostStr := some "github.com"
  pathSegments := some ["torch", "models", "releases", "model.bin"]

def metadataUrl : Url where
  scheme := "http"
  hostStr := some "169.254.169.254"
  pathSegments := some ["latest", "meta-data"]

def parseRelease (text : String) : Option Url :=
  if text = "https://github.com/torch/models/releases/model.bin" then
    some releaseUrl
  else none

/-- One redirect of an allowed host takes the download to the metadata
address over plain `http`. -/
theorem redirect_contacts_metadata :
    ¬ ContactsPermitted parseRelease
      "https://github.com/torch/models/releases/model.bin"
      [.redirect metadataUrl, .answer] := by
  intro permitted
  have reached : Permitted releaseUrl metadataUrl :=
    permitted releaseUrl (by decide) metadataUrl (by decide)
  have checked := ((permitted_iff _ _).mp reached).1
  revert checked
  decide

end TorchInference
