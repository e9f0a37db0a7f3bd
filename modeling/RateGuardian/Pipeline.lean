import RateGuardian.RateLimiter
import RateGuardian.RuleRepository
import RateGuardian.Lib.Imperative

/-!
# RateGuardian.Pipeline

**The request pipeline** of `app/controllers/pipeline.py`: three steps over a context, each of
which may answer the client, and the runner that stops at the first answer.

The steps are written against interfaces, as in the source: a limiter, a breaker, a proxy
and an event bus act on a state `σ` and may raise. The two response classes of the web
framework are a parameter (`Starlette`); what is relied on of them is `Starlette.Lawful`.

A reading of `time.monotonic()` is an argument of the step that takes it. `ProxyStep` takes two, one
on each path, since the source reads the clock when the outcome is known.

The order of the calls within a step is the order of the source, because an exception between two
of them is caught or not caught depending on where it comes from.
-/

namespace RateGuardian

open Lib

/-! ### What passes through the pipeline -/

/-- A Python exception, represented by its `str`, which is all that a handler puts into a reply. -/
structure PyException where
  text : String
  deriving Repr, DecidableEq

abbrev Bytes := List UInt8

/-- Header fields in the order in which they were received or given. A `dict` of them has one entry
for each name. -/
abbrev Headers := List (String × String)

/-- Fired when a request is rejected before reaching the upstream (`app/core/events.py`). -/
structure RequestBlocked where
  clientIp : String
  method : String
  path : String
  upstream : String
  statusCode : ℕ
  latencyMs : Time
  reason : String
  deriving DecidableEq

/-- Fired when a request was successfully proxied to the upstream. -/
structure RequestForwarded where
  clientIp : String
  method : String
  path : String
  upstream : String
  statusCode : ℕ
  latencyMs : Time
  deriving DecidableEq

inductive Event
  | blocked (e : RequestBlocked)
  | forwarded (e : RequestForwarded)
  deriving DecidableEq

/-- What the pipeline and the proxy read of an incoming request. -/
structure Request where
  method : String
  headers : Headers
  body : Bytes
  deriving DecidableEq

/-- A response to the client, as Starlette has constructed it. -/
structure Response where
  statusCode : ℕ
  headers : Headers
  body : Bytes
  deriving DecidableEq

/-- A response of an upstream, as `httpx` gives it: the header fields as received, and the
body after undoing its content encoding. -/
structure UpstreamResponse where
  statusCode : ℕ
  headers : Headers
  content : Bytes
  deriving DecidableEq

structure PipelineContext where
  request : Request
  upstreamUrl : String
  clientIp : String
  path : String
  upstreamHost : String
  startTime : Time
  response : Option Response
  deriving DecidableEq

/-! ### The web framework -/

/-- The values that the steps put into a JSON reply: strings and numbers. -/
inductive Json
  | str (s : String)
  | int (z : ℤ)
  deriving DecidableEq

/-- `Response(content, status_code, headers)` and `JSONResponse(status_code, content, headers)`. -/
structure Starlette where
  response : Bytes → ℕ → Headers → Except PyException Response
  jsonResponse : ℕ → List (String × Json) → Headers → Response

/-- A string of code points below 256, which is what can be encoded as Latin-1. -/
def Latin1 (s : String) : Prop := ∀ c ∈ s.toList, c.toNat < 256

instance : DecidablePred Latin1 := fun s => List.decidableBAll _ s.toList

/-- The number that a field value of ASCII digits denotes, and nothing for any other value. -/
def decimal (s : String) : Option ℕ :=
  if s.toList ≠ [] ∧ s.toList.all Char.isDigit then some (Nat.ofDigitChars 10 s.toList 0) else none

theorem decimal_repr (n : ℕ) : decimal n.repr = some n := by
  have hdigits : (Nat.toDigits 10 n).all Char.isDigit = true :=
    List.all_eq_true.mpr fun c hc => Nat.isDigit_of_mem_toDigits (by decide) (by decide) hc
  have hne : Nat.toDigits 10 n ≠ [] := Nat.toDigits_ne_nil
  rw [decimal, Nat.toList_repr, if_pos ⟨hne, hdigits⟩,
    Nat.ofDigitChars_toDigits (by decide) (by decide)]

/-- What the pipeline relies on of the two response classes: when constructing one raises, and what
of its arguments is found in it. -/
structure Starlette.Lawful (http : Starlette) : Prop where
  /-- Header names and values are encoded as Latin-1. -/
  response_raises : ∀ content status headers,
    (∃ e, http.response content status headers = .error e) ↔
      ∃ h ∈ headers, ¬ (Latin1 h.1 ∧ Latin1 h.2)
  response_statusCode : ∀ content status headers r,
    http.response content status headers = .ok r → r.statusCode = status
  response_body : ∀ content status headers r,
    http.response content status headers = .ok r → r.body = content
  /-- A given `content-length` is kept. -/
  response_contentLength_given : ∀ content status headers r,
    http.response content status headers = .ok r → ∀ v, ("content-length", v) ∈ headers →
      ∀ v', ("content-length", v') ∈ r.headers ↔ ("content-length", v') ∈ headers
  /-- `Content-Length` is computed only where it is not given. -/
  response_contentLength_computed : ∀ content status headers r,
    http.response content status headers = .ok r → (∀ v, ("content-length", v) ∉ headers) →
      ∀ v, ("content-length", v) ∈ r.headers → decimal v = some content.length
  json_statusCode : ∀ status content headers,
    (http.jsonResponse status content headers).statusCode = status
  json_contentLength : ∀ status content headers,
    (∀ v, ("content-length", v) ∉ headers) →
      ∀ v, ("content-length", v) ∈ (http.jsonResponse status content headers).headers →
        decimal v = some (http.jsonResponse status content headers).body.length

/-! ### The collaborators -/

structure RuleSource (σ : Type) where
  /-- `RuleRepository.match` on the path of the request. -/
  findRule : String → Imp σ PyException (Option Rule)

structure RateLimiterBase (σ : Type) where
  check : String → ℤ → ℤ → Imp σ PyException RateLimitResult

structure CircuitBreakerBase (σ : Type) where
  canRequest : String → Imp σ PyException Bool
  recordSuccess : String → Imp σ PyException Unit
  recordFailure : String → Imp σ PyException Unit

structure ProxyBase (σ : Type) where
  forward : Request → String → Imp σ PyException UpstreamResponse

structure EventManager (σ : Type) where
  emit : Event → Imp σ PyException Unit

/-! ### The steps -/

section Steps

variable {σ : Type} (http : Starlette) (events : EventManager σ)

def blockedEvent (ctx : PipelineContext) (statusCode : ℕ) (latency : Time) (reason : String) :
    Event :=
  .blocked
    { clientIp := ctx.clientIp, method := ctx.request.method, path := ctx.path,
      upstream := ctx.upstreamHost, statusCode := statusCode, latencyMs := latency,
      reason := reason }

def forwardedEvent (ctx : PipelineContext) (statusCode : ℕ) (latency : Time) : Event :=
  .forwarded
    { clientIp := ctx.clientIp, method := ctx.request.method, path := ctx.path,
      upstream := ctx.upstreamHost, statusCode := statusCode, latencyMs := latency }

def latencyMs (ctx : PipelineContext) (now : Time) : Time := (now - ctx.startTime) * 1000

/-- The limiter key of a request that `rule` applies to: the address of the client, or one key for
all. -/
def rateLimitKey (rule : Rule) (clientIp : String) : String :=
  match rule.keyType with
  | .ip => clientIp
  | .global => "global"

def RateLimitStep.execute (rules : RuleSource σ) (rateLimiter : RateLimiterBase σ) (now : Time)
    (ctx : PipelineContext) : Imp σ PyException (Option Response) := do
  let rule ← rules.findRule ctx.path
  match rule with
  | none => return none
  | some rule =>
      let key := rateLimitKey rule ctx.clientIp
      let result ← rateLimiter.check key rule.limit rule.windowSeconds
      if result.allowed then
        return none
      else
        events.emit (blockedEvent ctx 429 (latencyMs ctx now) "rate_limit")
        return some (http.jsonResponse 429
          [("error", .str "Too Many Requests"), ("limit", .int result.limit),
            ("reset_in", .int result.resetIn)]
          [("X-RateLimit-Limit", toString result.limit),
            ("X-RateLimit-Remaining", toString result.remaining),
            ("X-RateLimit-Reset", toString result.resetIn),
            ("Retry-After", toString result.resetIn)])

def CircuitBreakerStep.execute (circuitBreaker : CircuitBreakerBase σ) (now : Time)
    (ctx : PipelineContext) : Imp σ PyException (Option Response) := do
  let admitted ← circuitBreaker.canRequest ctx.upstreamHost
  if admitted then
    return none
  else
    events.emit (blockedEvent ctx 503 (latencyMs ctx now) "circuit_breaker")
    return some (http.jsonResponse 503
      [("error", .str "Service Unavailable"), ("reason", .str "circuit_breaker_open")] [])

/-- `dict(headers)` of `httpx`: one entry a lower-cased name, repeated values joined. -/
def headerDict (headers : Headers) : Headers :=
  (headers.map fun h => h.1.toLower).eraseDups.map fun name =>
    (name, ", ".intercalate ((headers.filter fun h => h.1.toLower = name).map Prod.snd))

/-- The headers that `ProxyStep` passes on: the dictionary of the upstream's less three names. -/
def keptHeaders (headers : Headers) : Headers :=
  (headerDict headers).filter fun h =>
    h.1 ∉ ["content-encoding", "transfer-encoding", "connection"]

/-- `ProxyStep.execute`; `done` and `failed` are the readings on the two paths. It answers
through the context when the upstream did. -/
def ProxyStep.execute (proxy : ProxyBase σ) (circuitBreaker : CircuitBreakerBase σ)
    (done failed : Time) (ctx : PipelineContext) :
    Imp σ PyException (Option Response × PipelineContext) :=
  Imp.handle
    (do
      let upstreamResp ← proxy.forward ctx.request ctx.upstreamUrl
      circuitBreaker.recordSuccess ctx.upstreamHost
      events.emit (forwardedEvent ctx upstreamResp.statusCode (latencyMs ctx done))
      let response ← Imp.lift (http.response upstreamResp.content upstreamResp.statusCode
        (keptHeaders upstreamResp.headers))
      return (none, { ctx with response := some response }))
    (fun exc => do
      circuitBreaker.recordFailure ctx.upstreamHost
      events.emit (blockedEvent ctx 502 (latencyMs ctx failed) "upstream_error")
      return (some (http.jsonResponse 502
        [("error", .str "Bad Gateway"), ("detail", .str exc.text)] []), ctx))

/-! ### The runner -/

/-- A step of the pipeline. It returns an answer or none, with the context as the next step finds
it. -/
abbrev PipelineStep (σ : Type) :=
  PipelineContext → Imp σ PyException (Option Response × PipelineContext)

/-- A step that leaves the context alone. -/
def PipelineStep.of (step : PipelineContext → Imp σ PyException (Option Response)) :
    PipelineStep σ :=
  fun ctx => do return (← step ctx, ctx)

def GatewayPipeline.run : List (PipelineStep σ) → PipelineContext → Imp σ PyException Response
  | [], ctx =>
      return ctx.response.getD (http.jsonResponse 500 [("error", .str "No response produced")] [])
  | step :: steps, ctx => do
      let (result, ctx) ← step ctx
      match result with
      | some response => return response
      | none => run steps ctx

end Steps

end RateGuardian
