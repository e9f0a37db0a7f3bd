import RateGuardian.Pipeline
import RateGuardian.Lib.Dict
import RateGuardian.Lib.Urlparse
import Mathlib.Data.List.DropRight

/-!
# RateGuardian.Gateway

**The two ends of a proxied request**: the route `/proxy/{upstream_url:path}` with the context
that `GatewayController.handle` builds (`app/controllers/gateway.py`), and the request that
`HttpxProxyService.forward` makes of it (`app/models/services/proxy.py`).

Building the context can fail. It takes `request.url.path`, for which the framework parses a URL
that it has put together of client input, and `_upstream_host` parses the URL of the upstream.
Either may raise, before any step of the pipeline runs and outside of its `try`. The parser is an
argument of everything that depends on it (`urlparse`), so nothing here depends on which URLs it
rejects.

`forward` is described as replaying the request faithfully (`Faithful`). It is given the path
parameter only, and it collects the header fields in a `dict`; `forward_faithful_iff` says for
which requests nothing is lost on the way.
-/

namespace RateGuardian

open Lib Imp

/-! ### The request of the client -/

/-- A request as the framework hands it over: the decoded path, the text after the `?`, and the
address of the peer.

`urlPath` is `request.url.path`. The framework joins scheme, `Host` field, decoded path and query to
a URL and parses that again. A decoded `?` or `#` ends the path there, a `Host` field with a `/`
lengthens it, and a `Host` field with a stray bracket makes the parser raise. So it is a value of
its own, about which nothing is assumed. -/
structure ClientRequest where
  request : Request
  path : String
  urlPath : Except PyException String
  query : String
  host : String
  deriving DecidableEq

/-- `str.isspace` on a character: the white space of Unicode, and four separators of ASCII. -/
def isSpace (c : Char) : Bool :=
  let n := c.toNat
  (9 ≤ n && n ≤ 13) || (28 ≤ n && n ≤ 32) || n = 0x85 || n = 0xa0 || n = 0x1680 ||
    (0x2000 ≤ n && n ≤ 0x200a) || n = 0x2028 || n = 0x2029 || n = 0x202f || n = 0x205f ||
    n = 0x3000

/-- `s.strip()`, which takes white space off both ends. -/
def strip (s : List Char) : List Char := (s.dropWhile isSpace).rdropWhile isSpace

/-- `headers.get(name)`: the first field of that name, in any case. -/
def headerGet (headers : Headers) (name : String) : Option String :=
  (headers.find? fun h => h.1.toLower = name).map Prod.snd

/-- The address that a non-empty `X-Forwarded-For` names, before the first comma. -/
def firstForwarded (forwarded : String) : String :=
  String.ofList (strip (forwarded.toList.takeWhile (· ≠ ',')))

/-- `_get_client_ip`: what the client claims in its header, or the address of the peer. An empty
header counts as none. -/
def getClientIp (req : ClientRequest) : String :=
  let peer := if req.host = "" then "unknown" else req.host
  match headerGet req.request.headers "x-forwarded-for" with
  | some forwarded => if forwarded = "" then peer else firstForwarded forwarded
  | none => peer

/-! ### The upstream -/

/-- `_upstream_host`: the network location of the URL, or all of it where it has none. -/
def upstreamHost (urlparse : String → Except String String) (url : String) :
    Except PyException String :=
  match urlparse url with
  | .ok netloc => .ok (if netloc = "" then url else netloc)
  | .error text => .error ⟨text⟩

example : upstreamHost urlparse "https://api.example.com:8080/data?x=1" =
    .ok "api.example.com:8080" := by decide +kernel

example : upstreamHost urlparse "https://[abc/x" = .error ⟨"Invalid IPv6 URL"⟩ := by decide +kernel

/-! ### The route and its controller -/

def proxyMethods : List String := ["GET", "POST", "PUT", "PATCH", "DELETE"]

/-- What the path parameter takes of the rest of a path. It is matched by `.*$`: a dot takes no line
feed, and the dollar leaves one at the very end out. -/
def pathParameter (rest : List Char) : Option String :=
  let line := if rest.getLast? = some '\n' then rest.dropLast else rest
  if '\n' ∈ line then none else some (String.ofList line)

/-- The path parameter of the route, where it matches; any other request is not the gateway's. -/
def proxyRoute (req : ClientRequest) : Option String :=
  if req.request.method ∈ proxyMethods ∧ "/proxy/".toList <+: req.path.toList then
    pathParameter (req.path.toList.drop 7)
  else none

/-- The readings of `time.monotonic()` that one request takes, on whichever path takes them. -/
structure MonotonicReadings where
  start : Time
  limited : Time
  refused : Time
  done : Time
  failed : Time
  deriving DecidableEq

namespace GatewayController

/-- The context that `handle` builds. Its arguments are evaluated in the order of the source, and
the first that raises ends it. -/
def context (urlparse : String → Except String String) (upstreamUrl : String)
    (req : ClientRequest) (startTime : Time) : Except PyException PipelineContext := do
  let path ← req.urlPath
  let host ← upstreamHost urlparse upstreamUrl
  return {
    request := req.request
    upstreamUrl := upstreamUrl
    clientIp := getClientIp req
    path := path
    upstreamHost := host
    startTime := startTime
    response := none }

section Handle

variable {σ : Type} (urlparse : String → Except String String) (http : Starlette)
  (events : EventManager σ) (rules : RuleSource σ)
  (rateLimiter : RateLimiterBase σ) (circuitBreaker : CircuitBreakerBase σ) (proxy : ProxyBase σ)

/-- The steps of the pipeline, in the order in which the controller puts them together. -/
def steps (m : MonotonicReadings) : List (PipelineStep σ) :=
  [.of (RateLimitStep.execute http events rules rateLimiter m.limited),
    .of (CircuitBreakerStep.execute http events circuitBreaker m.refused),
    ProxyStep.execute http events proxy circuitBreaker m.done m.failed]

/-- `handle`: the context, and then the pipeline on it. An exception of the context reaches the
framework, which answers it with a 500. -/
def handle (m : MonotonicReadings) (upstreamUrl : String) (req : ClientRequest) :
    Imp σ PyException Response := do
  let ctx ← lift (context urlparse upstreamUrl req m.start)
  GatewayPipeline.run http (steps http events rules rateLimiter circuitBreaker proxy m) ctx

end Handle

/-- What a context takes over from its request, field by field. -/
structure ContextOf (urlparse : String → Except String String) (url : String) (req : ClientRequest)
    (ctx : PipelineContext) : Prop where
  request : ctx.request = req.request
  upstreamUrl : ctx.upstreamUrl = url
  clientIp : ctx.clientIp = getClientIp req
  path : req.urlPath = .ok ctx.path
  upstreamHost : RateGuardian.upstreamHost urlparse url = .ok ctx.upstreamHost

section Context

variable {urlparse : String → Except String String} {url : String} {req : ClientRequest}
  {start : Time}

theorem contextOf_context {ctx : PipelineContext} (h : context urlparse url req start = .ok ctx) :
    ContextOf urlparse url req ctx := by
  rw [context] at h
  cases hpath : req.urlPath with
  | error exc => simp [hpath, bind, Except.bind] at h
  | ok path =>
      cases hhost : RateGuardian.upstreamHost urlparse url with
      | error exc => simp [hpath, hhost, bind, Except.bind] at h
      | ok host =>
          simp only [hpath, hhost, bind, Except.bind, pure, Except.pure, Except.ok.injEq] at h
          subst h
          exact ⟨rfl, rfl, rfl, hpath, hhost⟩

end Context

end GatewayController

/-! ### The forwarded request -/

/-- The arguments of `httpx.AsyncClient.request`, as far as they depend on the request. -/
structure ClientCall where
  method : String
  url : String
  headers : Headers
  content : Bytes
  followRedirects : Bool
  deriving DecidableEq

structure HttpClient (σ : Type) where
  request : ClientCall → Imp σ PyException UpstreamResponse

/-- `_HOP_BY_HOP`, the names of the fields that are not forwarded, in lower case. -/
def hopByHop : List String :=
  ["host", "connection", "transfer-encoding", "te", "trailer", "upgrade", "keep-alive",
    "proxy-authorization", "proxy-authenticate"]

/-- The fields to be forwarded, with repeated names and in their order. -/
def endToEnd (headers : Headers) : Headers := headers.filter fun h => h.1.toLower ∉ hopByHop

namespace HttpxProxyService

/-- The call that `forward` makes. The `dict` keeps one field of each name, the last. -/
def clientCall (request : Request) (upstreamUrl : String) : ClientCall where
  method := request.method
  url := upstreamUrl
  headers := Dict.ofList (endToEnd request.headers)
  content := request.body
  followRedirects := true

def service {σ : Type} (client : HttpClient σ) : ProxyBase σ where
  forward request upstreamUrl := client.request (clientCall request upstreamUrl)

end HttpxProxyService

/-! ### Fidelity -/

/-- The URL with the query appended, if there is one. -/
def withQuery (url query : String) : String := if query = "" then url else url ++ "?" ++ query

/-- The call replays the request to the upstream `url`: method, URL with the query, body, and the
end-to-end fields in whichever order. -/
structure Faithful (req : ClientRequest) (url : String) (call : ClientCall) : Prop where
  method : call.method = req.request.method
  url : call.url = withQuery url req.query
  headers : call.headers.Perm (endToEnd req.request.headers)
  content : call.content = req.request.body

/-- A client that records its calls and gives the same outcome to each. -/
def recordingClient (outcome : Except PyException UpstreamResponse) :
    HttpClient (List ClientCall) where
  request call := do
    exec fun calls => calls ++ [call]
    lift outcome

theorem withQuery_eq_iff {url query : String} : url = withQuery url query ↔ query = "" := by
  rw [withQuery]
  constructor
  · intro h
    by_contra hne
    rw [if_neg hne] at h
    have hlen := congrArg String.length h
    have hmark : "?".length = 1 := rfl
    rw [String.length_append, String.length_append] at hlen
    omega
  · intro h
    rw [if_pos h]

theorem faithful_clientCall_iff (req : ClientRequest) (url : String) :
    Faithful req url (HttpxProxyService.clientCall req.request url) ↔
      req.query = "" ∧ ((endToEnd req.request.headers).map Prod.fst).Nodup := by
  constructor
  · intro h
    exact ⟨withQuery_eq_iff.mp h.url, Dict.ofList_perm_iff.mp h.headers⟩
  · rintro ⟨hquery, hnodup⟩
    exact ⟨rfl, withQuery_eq_iff.mpr hquery, Dict.ofList_perm_iff.mpr hnodup, rfl⟩

theorem pathParameter_of_line {rest : List Char} (h : '\n' ∉ rest) :
    pathParameter rest = some (String.ofList rest) := by
  have hlast : rest.getLast? ≠ some '\n' := fun hnl => h (List.mem_of_getLast? hnl)
  simp only [pathParameter, if_neg hlast, if_neg h]

theorem proxyRoute_of_path {req : ClientRequest} {url : String}
    (hmethod : req.request.method ∈ proxyMethods) (hpath : req.path = "/proxy/" ++ url)
    (hline : '\n' ∉ url.toList) : proxyRoute req = some url := by
  have hlist : req.path.toList = "/proxy/".toList ++ url.toList := by
    rw [hpath, String.toList_append]
  have hrest : ("/proxy/".toList ++ url.toList).drop 7 = url.toList := by simp
  rw [proxyRoute, hlist, if_pos ⟨hmethod, List.prefix_append _ _⟩, hrest,
    pathParameter_of_line hline, String.ofList_toList]

theorem forward_on (ctx : PipelineContext) (outcome : Except PyException UpstreamResponse)
    (calls : List ClientCall) :
    on ((HttpxProxyService.service (recordingClient outcome)).forward ctx.request
      ctx.upstreamUrl) calls =
      (outcome, calls ++ [HttpxProxyService.clientCall ctx.request ctx.upstreamUrl]) := by
  rw [HttpxProxyService.service, recordingClient, on_bind_ok (on_exec _ _), on_lift]

/-- A search at an upstream, with its query. -/
def searchRequest : ClientRequest where
  request := ⟨"GET", [("accept", "text/html")], []⟩
  path := "/proxy/https://api.example.com/search"
  urlPath := .ok "/proxy/https://api.example.com/search"
  query := "q=1"
  host := "10.0.0.1"

/-- The query of the client does not reach the upstream. -/
theorem query_not_forwarded :
    searchRequest.request.method ∈ proxyMethods ∧
    searchRequest.path = "/proxy/" ++ "https://api.example.com/search" ∧
    proxyRoute searchRequest = some "https://api.example.com/search" ∧
    ∃ ctx, GatewayController.context urlparse "https://api.example.com/search" searchRequest 0 =
        .ok ctx ∧
      ¬ Faithful searchRequest "https://api.example.com/search"
        (HttpxProxyService.clientCall ctx.request ctx.upstreamUrl) := by
  refine ⟨by decide, by decide, by decide +kernel, _, rfl, ?_⟩
  intro h
  have hurl := h.url
  revert hurl
  decide

/-- **What reaches the upstream.** `forward` makes one call of the client, on every context that
`handle` builds of the request. It replays the request exactly when the request has no query and no
end-to-end header name twice. -/
theorem forward_faithful_iff (req : ClientRequest) (url : String)
    (hmethod : req.request.method ∈ proxyMethods) (hpath : req.path = "/proxy/" ++ url) :
    ('\n' ∉ url.toList → proxyRoute req = some url) ∧
    let call := HttpxProxyService.clientCall req.request url
    (∀ urlparse start ctx, GatewayController.context urlparse url req start = .ok ctx →
      ∀ outcome calls, on ((HttpxProxyService.service (recordingClient outcome)).forward
        ctx.request ctx.upstreamUrl) calls = (outcome, calls ++ [call])) ∧
    (Faithful req url call ↔
      req.query = "" ∧ ((endToEnd req.request.headers).map Prod.fst).Nodup) := by
  refine ⟨proxyRoute_of_path hmethod hpath, ?_, faithful_clientCall_iff req url⟩
  intro urlparse start ctx hctx outcome calls
  have hof := GatewayController.contextOf_context hctx
  rw [forward_on, hof.request, hof.upstreamUrl]

/-- A post with two bytes and no query is replayed as it is. -/
theorem forward_faithful_iff_post :
    let req : ClientRequest :=
      ⟨⟨"POST", [("host", "gateway"), ("accept", "*/*")], [1, 2]⟩,
        "/proxy/https://api.example.com/data", .ok "/proxy/https://api.example.com/data", "",
        "10.0.0.1"⟩
    Faithful req "https://api.example.com/data"
      (HttpxProxyService.clientCall req.request "https://api.example.com/data") := by
  intro req
  exact (forward_faithful_iff req "https://api.example.com/data" (by decide) (by decide)).2.2.mpr
    ⟨rfl, by decide +kernel⟩

end RateGuardian
