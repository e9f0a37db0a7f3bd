import RateGuardian.Pipeline
import Mathlib.Data.List.Count

/-!
# RateGuardian.ProxySound

**What a proxied request leads to.** `ProxyStep` runs against a breaker and a bus that record
their calls and do not raise, and a proxy that gives any outcome.

There are three ways through the step (`execute_of_error`, `execute_of_ok`,
`execute_of_unencodable`). In the third the upstream has answered and the answer cannot be
turned into a response: the `try` block has already recorded the success and emitted its event
when the exception reaches the handler, which records a failure and emits a second event.

The same construction decides how a response is framed. The body is the decoded content of the
upstream's, but its `Content-Length` is passed on as received.

* `one_outcome_iff`: the calls of the breaker and of the bus tell the same story as the client's
  response, exactly where the third way is not taken;
* `framed_iff`: the length that the client is told is the length of what it gets, exactly where
  the upstream's `Content-Length` denotes the length of the decoded body.

Both hold for any framework that constructs responses as Starlette does (`Starlette.Lawful`); the
documented construction is given as `Starlette.documented`, and is lawful.
-/

namespace RateGuardian

open Lib Imp

namespace ProxyStep

/-! ### Recorded calls

The step is run against services whose state is the list of the calls made so far. They are the
lightest services that do not raise, and what they record is what is to be compared. -/

/-- A call of the breaker or of the bus, with its argument. -/
inductive Call
  | recordSuccess (upstream : String)
  | recordFailure (upstream : String)
  | emit (event : Event)
  deriving DecidableEq

namespace Call

def isRecord : Call → Bool
  | .recordSuccess _ | .recordFailure _ => true
  | .emit _ => false

def isEmit : Call → Bool
  | .emit _ => true
  | .recordSuccess _ | .recordFailure _ => false

end Call

def recordingBreaker : CircuitBreakerBase (List Call) where
  canRequest _ := return true
  recordSuccess up := exec fun calls => calls ++ [.recordSuccess up]
  recordFailure up := exec fun calls => calls ++ [.recordFailure up]

def recordingEvents : EventManager (List Call) where
  emit event := exec fun calls => calls ++ [.emit event]

/-- A proxy whose `forward` has the given outcome and records nothing. -/
def scriptedProxy (outcome : Except PyException UpstreamResponse) : ProxyBase (List Call) where
  forward _ _ := lift outcome

section Paths

variable (http : Starlette) (ctx : PipelineContext) (done failed : Time) (calls : List Call)

/-- The step as it is run here, against the proxy of an outcome and the recording services. -/
def recorded (outcome : Except PyException UpstreamResponse) : PipelineStep (List Call) :=
  execute http recordingEvents (scriptedProxy outcome) recordingBreaker done failed

/-- The response that the step gives to a client when it handles an exception. -/
def badGateway (exc : PyException) : Response :=
  http.jsonResponse 502 [("error", .str "Bad Gateway"), ("detail", .str exc.text)] []

def successCalls (up : UpstreamResponse) : List Call :=
  [.recordSuccess ctx.upstreamHost,
    .emit (forwardedEvent ctx up.statusCode (latencyMs ctx done))]

def failureCalls : List Call :=
  [.recordFailure ctx.upstreamHost,
    .emit (blockedEvent ctx 502 (latencyMs ctx failed) "upstream_error")]

theorem handler_on (exc : PyException) :
    on (do
      recordingBreaker.recordFailure ctx.upstreamHost
      recordingEvents.emit (blockedEvent ctx 502 (latencyMs ctx failed) "upstream_error")
      return (some (badGateway http exc), ctx)) calls =
      (.ok (some (badGateway http exc), ctx), calls ++ failureCalls ctx failed) := by
  simp [on_bind, on_map, recordingBreaker, recordingEvents, failureCalls]

/-- The first way: `forward` raised, so a failure is recorded and one event emitted. -/
theorem execute_of_error (exc : PyException) :
    on (recorded http done failed (.error exc) ctx) calls =
      (.ok (some (badGateway http exc), ctx), calls ++ failureCalls ctx failed) := by
  have hbody : ∀ k : UpstreamResponse → Imp (List Call) PyException
      (Option Response × PipelineContext),
      on ((scriptedProxy (.error exc)).forward ctx.request ctx.upstreamUrl >>= k) calls =
        (.error exc, calls) :=
    fun k => on_bind_error rfl k
  rw [recorded, execute, on_handle_error (hbody _)]
  exact handler_on http ctx failed calls exc

variable {http} {up : UpstreamResponse}

/-- The second way: `forward` returned, and its response can be passed on. A success is recorded and
one event emitted. -/
theorem execute_of_ok {response : Response}
    (h : http.response up.content up.statusCode (keptHeaders up.headers) = .ok response) :
    on (recorded http done failed (.ok up) ctx) calls =
      (.ok (none, { ctx with response := some response }),
        calls ++ successCalls ctx done up) := by
  rw [recorded, execute, on_handle]
  simp [on_bind, on_map, scriptedProxy, recordingBreaker, recordingEvents, successCalls, h]

/-- The third way: `forward` returned, and its response cannot be passed on. Both outcomes are
recorded, and both events emitted. -/
theorem execute_of_unencodable {exc : PyException}
    (h : http.response up.content up.statusCode (keptHeaders up.headers) = .error exc) :
    on (recorded http done failed (.ok up) ctx) calls =
      (.ok (some (badGateway http exc), ctx),
        calls ++ successCalls ctx done up ++ failureCalls ctx failed) := by
  have hbody : on (do
      let upstreamResp ← (scriptedProxy (.ok up)).forward ctx.request ctx.upstreamUrl
      recordingBreaker.recordSuccess ctx.upstreamHost
      recordingEvents.emit (forwardedEvent ctx upstreamResp.statusCode (latencyMs ctx done))
      let response ← Imp.lift (http.response upstreamResp.content upstreamResp.statusCode
        (keptHeaders upstreamResp.headers))
      return ((none : Option Response), { ctx with response := some response })) calls =
      (.error exc, calls ++ successCalls ctx done up) := by
    simp [on_bind, on_map, scriptedProxy, recordingBreaker, recordingEvents, successCalls, h]
  rw [recorded, execute, on_handle_error hbody]
  exact handler_on http ctx failed _ exc

end Paths

/-! ### The client's side

The step leaves its response in the context, and the route returns what it finds there. -/

section Client

variable (http : Starlette) (ctx : PipelineContext) (done failed : Time)
  (outcome : Except PyException UpstreamResponse)

/-- The pipeline from `ProxyStep` on: the client's response, and the calls made. -/
def proxied : Except PyException Response × List Call :=
  on (GatewayPipeline.run http [recorded http done failed outcome] ctx) []

/-- The fields of the upstream's response that are passed on can be encoded, as a response is built
of them. -/
def Encodable (up : UpstreamResponse) : Prop :=
  ∀ h ∈ keptHeaders up.headers, Latin1 h.1 ∧ Latin1 h.2

variable {http ctx done failed}

theorem proxied_of_error (exc : PyException) :
    proxied http ctx done failed (.error exc) =
      (.ok (badGateway http exc), failureCalls ctx failed) := by
  rw [proxied, GatewayPipeline.run, on_bind_ok (execute_of_error http ctx done failed [] exc)]
  rfl

/-- Where `forward` returned, the client gets the upstream's response and one outcome is recorded,
or that response cannot be encoded, the client gets a 502 and both outcomes are recorded. -/
theorem proxied_of_ok (hhttp : http.Lawful) (up : UpstreamResponse) :
    (Encodable up ∧ ∃ response,
      http.response up.content up.statusCode (keptHeaders up.headers) = .ok response ∧
        proxied http ctx done failed (.ok up) = (.ok response, successCalls ctx done up)) ∨
    (¬ Encodable up ∧ ∃ exc, proxied http ctx done failed (.ok up) =
      (.ok (badGateway http exc), successCalls ctx done up ++ failureCalls ctx failed)) := by
  have hraises := hhttp.response_raises up.content up.statusCode (keptHeaders up.headers)
  cases hresp : http.response up.content up.statusCode (keptHeaders up.headers) with
  | ok response =>
      left
      refine ⟨?_, response, rfl, ?_⟩
      · intro h hh
        by_contra hnot
        obtain ⟨e, he⟩ := hraises.mpr ⟨h, hh, hnot⟩
        rw [hresp] at he
        cases he
      · rw [proxied, GatewayPipeline.run, on_bind_ok (execute_of_ok ctx done failed [] hresp)]
        rfl
  | error exc =>
      right
      obtain ⟨h, hh, hnot⟩ := hraises.mp ⟨exc, hresp⟩
      refine ⟨fun henc => hnot (henc h hh), exc, ?_⟩
      rw [proxied, GatewayPipeline.run,
        on_bind_ok (execute_of_unencodable ctx done failed [] hresp)]
      rfl

/-! ### One outcome

A proxied request should leave one record with the breaker and one event on the bus, and both should
agree with what the client is told. -/

/-- The outcome of `forward`, the calls and the client's response tell one story. -/
structure OneOutcome (ctx : PipelineContext) (outcome : Except PyException UpstreamResponse)
    (result : Except PyException Response × List Call) : Prop where
  oneRecord : result.2.countP Call.isRecord = 1
  oneEvent : result.2.countP Call.isEmit = 1
  agrees : match outcome with
    | .ok up => .recordSuccess ctx.upstreamHost ∈ result.2 ∧
        (∃ latency, .emit (forwardedEvent ctx up.statusCode latency) ∈ result.2) ∧
        ∃ response, result.1 = .ok response ∧ response.statusCode = up.statusCode
    | .error _ => .recordFailure ctx.upstreamHost ∈ result.2 ∧
        (∃ latency, .emit (blockedEvent ctx 502 latency "upstream_error") ∈ result.2) ∧
        ∃ response, result.1 = .ok response ∧ response.statusCode = 502

end Client

end ProxyStep

/-! ### The framework, as documented

A concrete `Starlette` for the runs of this development: how it builds a JSON response, which fields
it computes, and that it refuses a field that is not Latin-1. -/

/-- A string as `json.dumps` writes it with `ensure_ascii=False`. -/
def jsonString (s : String) : String :=
  "\"" ++ s.foldl (fun acc c => acc ++ match c with
    | '"' => "\\\""
    | '\\' => "\\\\"
    | '\n' => "\\n"
    | c => c.toString) "" ++ "\""

def Json.render : Json → String
  | .str s => jsonString s
  | .int z => toString z

def renderObject (content : List (String × Json)) : String :=
  "\x7b" ++ ",".intercalate (content.map fun f => jsonString f.1 ++ ":" ++ f.2.render) ++ "\x7d"

/-- The field that is computed from the body, except for the statuses that have none. -/
def contentLengthField (status : ℕ) (body : Bytes) : Headers :=
  if status < 200 ∨ status = 204 ∨ status = 304 then []
  else [("content-length", body.length.repr)]

/-- The headers of a response: the given ones, and a `content-length` where none is given. -/
def responseHeaders (status : ℕ) (headers : Headers) (body : Bytes) : Headers :=
  headers ++ if headers.any (fun h => h.1 = "content-length") then [] else
    contentLengthField status body

def Starlette.documented : Starlette where
  response content status headers :=
    if headers.all (fun h => Latin1 h.1 ∧ Latin1 h.2) then
      .ok ⟨status, responseHeaders status headers content, content⟩
    else .error ⟨"'latin-1' codec can't encode character"⟩
  jsonResponse status content headers :=
    let body := (renderObject content).toUTF8.toList
    ⟨status, responseHeaders status headers body ++ [("content-type", "application/json")], body⟩

theorem mem_responseHeaders_given {status : ℕ} {headers : Headers} {body : Bytes} {v v' : String}
    (h : ("content-length", v) ∈ headers) :
    ("content-length", v') ∈ responseHeaders status headers body ↔
      ("content-length", v') ∈ headers := by
  have hany : headers.any (fun h => h.1 = "content-length") = true :=
    List.any_eq_true.mpr ⟨_, h, by simp⟩
  rw [responseHeaders, hany]
  simp

theorem decimal_of_mem_responseHeaders {status : ℕ} {headers : Headers} {body : Bytes} {v : String}
    (h : ∀ v, ("content-length", v) ∉ headers)
    (hv : ("content-length", v) ∈ responseHeaders status headers body) :
    decimal v = some body.length := by
  rw [responseHeaders] at hv
  rcases List.mem_append.mp hv with hv | hv
  · exact absurd hv (h v)
  · have hfield : ("content-length", v) ∈ contentLengthField status body := by
      split at hv
      · cases hv
      · exact hv
    rw [contentLengthField] at hfield
    split at hfield
    · cases hfield
    · obtain rfl : v = body.length.repr := by simpa using hfield
      exact decimal_repr _

theorem response_documented_ok {content : Bytes} {status : ℕ} {headers : Headers} {r : Response}
    (h : Starlette.documented.response content status headers = .ok r) :
    (∀ h ∈ headers, Latin1 h.1 ∧ Latin1 h.2) ∧
      r = ⟨status, responseHeaders status headers content, content⟩ := by
  simp only [Starlette.documented] at h
  split at h
  · next hall =>
    refine ⟨?_, (Except.ok.inj h).symm⟩
    intro f hf
    exact of_decide_eq_true (List.all_eq_true.mp hall f hf)
  · cases h

theorem response_documented_error {content : Bytes} {status : ℕ} {headers : Headers}
    {exc : PyException} (h : Starlette.documented.response content status headers = .error exc) :
    ∃ h ∈ headers, ¬ (Latin1 h.1 ∧ Latin1 h.2) := by
  simp only [Starlette.documented] at h
  split at h
  · cases h
  · next hall =>
    by_contra hnone
    refine hall (List.all_eq_true.mpr ?_)
    intro f hf
    refine decide_eq_true ?_
    by_contra hnot
    exact hnone ⟨f, hf, hnot⟩

/-- The documented construction of responses is lawful. -/
theorem Starlette.documented_lawful : Starlette.documented.Lawful where
  response_raises content status headers := by
    constructor
    · intro h
      obtain ⟨exc, hexc⟩ := h
      exact response_documented_error hexc
    · intro h
      obtain ⟨f, hf, hnot⟩ := h
      cases hresp : Starlette.documented.response content status headers with
      | ok r => exact absurd ((response_documented_ok hresp).1 f hf) hnot
      | error exc => exact ⟨exc, rfl⟩
  response_statusCode content status headers r h := by
    rw [(response_documented_ok h).2]
  response_body content status headers r h := by
    rw [(response_documented_ok h).2]
  response_contentLength_given content status headers r h v hv v' := by
    rw [(response_documented_ok h).2]
    exact mem_responseHeaders_given hv
  response_contentLength_computed content status headers r h hnone v hv := by
    rw [(response_documented_ok h).2] at hv
    exact decimal_of_mem_responseHeaders hnone hv
  json_statusCode _ _ _ := rfl
  json_contentLength status content headers hnone v hv := by
    rcases List.mem_append.mp hv with hv | hv
    · exact decimal_of_mem_responseHeaders hnone hv
    · simp at hv

namespace ProxyStep

/-! ### The two results

The first is about the calls, the second about the length of the body. Each comes with the upstream
that shows where it stops. -/

def exampleContext : PipelineContext :=
  ⟨⟨"GET", [], []⟩, "http://svc/names", "10.0.0.1", "/proxy/http://svc/names", "svc", 0, none⟩

/-- An upstream names a resource with a check mark, which is not a Latin-1 character. -/
def checkMarked : UpstreamResponse := ⟨200, [("x-name", "✓")], []⟩

/-- For that upstream there is more than one outcome: a success and a failure are both recorded. -/
theorem unencodable_header_two_outcomes :
    ¬ OneOutcome exampleContext (.ok checkMarked)
      (proxied Starlette.documented exampleContext 1 1 (.ok checkMarked)) := by
  intro h
  have hone := h.oneRecord
  revert hone
  decide +kernel

/-- **One outcome for each proxied request**, exactly when `forward` raises or every header
that is passed on can be encoded. -/
theorem one_outcome_iff {http : Starlette} (hhttp : http.Lawful) (ctx : PipelineContext)
    (done failed : Time) (outcome : Except PyException UpstreamResponse) :
    OneOutcome ctx outcome (proxied http ctx done failed outcome) ↔
      ∀ up, outcome = .ok up → Encodable up := by
  cases outcome with
  | error exc =>
      refine ⟨fun _ => nofun, fun _ => ?_⟩
      rw [proxied_of_error]
      refine ⟨rfl, rfl, ?_, ⟨latencyMs ctx failed, ?_⟩, _, rfl, hhttp.json_statusCode _ _ _⟩
      · simp [failureCalls]
      · exact List.mem_cons_of_mem _ (List.mem_singleton_self _)
  | ok up =>
      rcases @proxied_of_ok http ctx done failed hhttp up with
        ⟨henc, response, hresp, hrun⟩ | ⟨hnot, exc, hrun⟩
      · rw [hrun]
        refine ⟨fun _ up' hup => by cases hup; exact henc, fun _ => ?_⟩
        refine ⟨rfl, rfl, ?_, ⟨latencyMs ctx done, ?_⟩, response, rfl,
          hhttp.response_statusCode _ _ _ _ hresp⟩
        · simp [successCalls]
        · exact List.mem_cons_of_mem _ (List.mem_singleton_self _)
      · rw [hrun]
        constructor
        · intro h
          -- the recorded success and the recorded failure are two
          have hone := h.oneRecord
          simp [successCalls, failureCalls, Call.isRecord, List.countP_cons] at hone
        · intro h
          exact absurd (h up rfl) hnot

theorem one_outcome_iff_documented :
    OneOutcome exampleContext (.ok ⟨200, [("X-Name", "tick")], []⟩)
        (proxied Starlette.documented exampleContext 1 1 (.ok ⟨200, [("X-Name", "tick")], []⟩)) ↔
      ∀ up, (.ok ⟨200, [("X-Name", "tick")], []⟩ : Except PyException UpstreamResponse) = .ok up →
        Encodable up :=
  one_outcome_iff Starlette.documented_lawful _ _ _ _

/-! ### Framing

`httpx` hands over the body with its content coding undone, and the fields as they were received. -/

/-- A `Content-Length` of the client's response is the number of bytes of its body. -/
def Framed (result : Except PyException Response × List Call) : Prop :=
  ∀ response, result.1 = .ok response →
    ∀ v, ("content-length", v) ∈ response.headers → decimal v = some response.body.length

/-- What an upstream sends: its status, its fields, and the bytes of the body as they are
transferred. -/
structure UpstreamMessage where
  statusCode : ℕ
  headers : Headers
  body : Bytes

/-- What `httpx` makes of it: `undo` undoes the content encoding that the headers name. -/
def UpstreamMessage.received (undo : Headers → Bytes → Bytes) (msg : UpstreamMessage) :
    UpstreamResponse :=
  ⟨msg.statusCode, msg.headers, undo msg.headers msg.body⟩

/-- The twenty-four bytes of a short gzip file. -/
def gzipped : Bytes :=
  [31, 139, 8, 0, 0, 0, 0, 0, 2, 3, 75, 76, 36, 14, 0, 0, 37, 138, 91, 201, 40, 0, 0, 0]

/-- They decompress to forty times the letter `a`. -/
def gunzip (headers : Headers) (body : Bytes) : Bytes :=
  if ("Content-Encoding", "gzip") ∈ headers ∧ body = gzipped then List.replicate 40 97 else body

def gzippedMessage : UpstreamMessage :=
  ⟨200, [("Content-Encoding", "gzip"), ("Content-Length", "24")], gzipped⟩

/-- The upstream's message is framed; the client gets its `Content-Length` and the
decompressed body. -/
theorem gzip_length_mismatch : decimal "24" = some gzippedMessage.body.length ∧
    ¬ Framed (proxied Starlette.documented exampleContext 1 1
      (.ok (gzippedMessage.received gunzip))) := by
  refine ⟨by decide, ?_⟩
  intro h
  have hresponse : (proxied Starlette.documented exampleContext 1 1
      (.ok (gzippedMessage.received gunzip))).1 =
      .ok ⟨200, [("content-length", "24")], List.replicate 40 97⟩ := by
    decide +kernel
  have hlength := h _ hresponse "24" (by simp)
  revert hlength
  decide

/-- The `Content-Length` fields that the upstream sent denote the length of the decoded body. -/
def LengthOfContent (up : UpstreamResponse) : Prop :=
  ∀ v, ("content-length", v) ∈ headerDict up.headers → decimal v = some up.content.length

theorem mem_keptHeaders_contentLength {headers : Headers} {v : String} :
    ("content-length", v) ∈ keptHeaders headers ↔ ("content-length", v) ∈ headerDict headers := by
  simp [keptHeaders]

/-- **Responses are framed**, exactly when the response of the upstream cannot be passed on or
its `Content-Length` denotes the length of its decoded body. -/
theorem framed_iff {http : Starlette} (hhttp : http.Lawful) (ctx : PipelineContext)
    (done failed : Time) (outcome : Except PyException UpstreamResponse) :
    Framed (proxied http ctx done failed outcome) ↔
      ∀ up, outcome = .ok up → Encodable up → LengthOfContent up := by
  have hjson : ∀ exc calls, Framed (.ok (badGateway http exc), calls) := by
    intro exc calls response hresponse v hv
    obtain rfl : badGateway http exc = response := Except.ok.inj hresponse
    exact hhttp.json_contentLength _ _ _ (by simp) v hv
  cases outcome with
  | error exc =>
      rw [proxied_of_error]
      exact ⟨fun _ => nofun, fun _ => hjson _ _⟩
  | ok up =>
      rcases @proxied_of_ok http ctx done failed hhttp up with
        ⟨henc, response, hresp, hrun⟩ | ⟨hnot, exc, hrun⟩
      · rw [hrun]
        have hbody := hhttp.response_body _ _ _ _ hresp
        constructor
        · intro hframed up' hup _ v hv
          cases hup
          have hkept := mem_keptHeaders_contentLength.mpr hv
          have hgiven := (hhttp.response_contentLength_given _ _ _ _ hresp v hkept v).mpr hkept
          rw [← hbody]
          exact hframed response rfl v hgiven
        · intro hlength response' hresponse v hv
          obtain rfl : response = response' := Except.ok.inj hresponse
          rw [hbody]
          by_cases hnone : ∀ v, ("content-length", v) ∉ keptHeaders up.headers
          · exact hhttp.response_contentLength_computed _ _ _ _ hresp hnone v hv
          · obtain ⟨v', hv'⟩ : ∃ v', ("content-length", v') ∈ keptHeaders up.headers := by
              simpa using hnone
            have hkept := (hhttp.response_contentLength_given _ _ _ _ hresp v' hv' v).mp hv
            exact hlength up rfl henc v (mem_keptHeaders_contentLength.mp hkept)
      · rw [hrun]
        refine ⟨fun _ up' hup henc => ?_, fun _ => hjson _ _⟩
        cases hup
        exact absurd henc hnot

theorem framed_iff_documented :
    Framed (proxied Starlette.documented exampleContext 1 1
        (.ok (gzippedMessage.received fun _ body => body))) ↔
      ∀ up, (.ok (gzippedMessage.received fun _ body => body) :
        Except PyException UpstreamResponse) = .ok up → Encodable up → LengthOfContent up :=
  framed_iff Starlette.documented_lawful _ _ _ _

end ProxyStep

end RateGuardian
