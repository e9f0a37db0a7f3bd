import RateGuardian.GatewayEffects
import RateGuardian.RequestLogging

/-!
# RateGuardian.Server

**The running application** (`app/main.py`): the gateway with its Redis database, its table of rules
and the log that its events end up in, and any number of requests under way.

A request runs through `GatewayController.handle` without giving way to others until `ProxyStep`
awaits `forward`, and from the answer of the upstream on again. So it takes two steps:

* it *arrives*. If its context cannot be built, the exception goes to the framework, which answers
  with a 500, and nothing else happens. Otherwise the limiter and the breaker look at it
  (`receive`), and it is answered or forwarded; and
* if it was forwarded, it *completes* (`complete`) with whatever comes of the call to the upstream.

`handle_eq` says that the two steps, with nothing in between, are `handle`. In a run of the
application there is usually something in between: other requests take their steps, log tasks write
their rows, and others change the rules and anything in Redis but the keys of the breaker
(`ServerStep`). The log is written by the log tasks only. Redis and the database are there all the
time; what happens when a call to one of them raises is the subject of `CallProtocol` and of the
modules on several processes.
-/

namespace RateGuardian

open Lib Imp Redis

structure ServerWorld where
  redis : Redis
  rules : RuleTable
  log : LogWorld

/-- A request that the route has accepted, with the readings that it takes on its way as far as it
gets: of `time.monotonic()` for the latency, and of `time.time()` at `match`, `check` and
`can_request`. -/
structure Arrival where
  url : String
  req : ClientRequest
  route : proxyRoute req = some url
  start : Time
  limited : Time
  refused : Time
  matchedAt : Time
  checkedAt : Time
  askedAt : Time
  matched_le : matchedAt ≤ checkedAt
  checked_le : checkedAt ≤ askedAt

/-- What comes of a forwarded request, and the readings taken then. -/
structure Completion where
  outcome : Except PyException UpstreamResponse
  done : Time
  failed : Time
  succeededAt : Time
  failedAt : Time
  succeeded_le : succeededAt ≤ failedAt

/-- The context of the request, or the exception that it ends with. -/
def Arrival.context (urlparse : String → Except String String) (a : Arrival) :
    Except PyException PipelineContext :=
  GatewayController.context urlparse a.url a.req a.start

namespace Server

/-! ### The services of the application

The steps of `Pipeline` get their services here: the limiter and the rules on the Redis database,
the breaker on the same one, and the bus with the listener. Only the proxy is replaced, by one that
returns what the completion says. -/

section Services

variable (urlparse : String → Except String String) (http : Starlette) (fnmatch : String → String →
Bool) (cb : RedisCircuitBreaker)

/-- The bus, with the log listener subscribed to it. -/
def events : EventManager ServerWorld where
  emit event := focus ServerWorld.log (fun log s => { s with log := log })
    (RateGuardian.events.emit event)

def ruleSource (now : Time) : RuleSource ServerWorld where
  findRule path := act fun s =>
    let found := RuleRepository.match fnmatch s.rules s.redis now path
    (found.1, { s with redis := found.2 })

def rateLimiter (now : Time) : RateLimiterBase ServerWorld where
  check key limit w := act fun s =>
    let checked := SlidingWindowRateLimiter.check s.redis now key limit w
    (checked.1, { s with redis := checked.2 })

def circuitBreaker (askedAt succeededAt failedAt : Time) : CircuitBreakerBase ServerWorld where
  canRequest up := act fun s =>
    let asked := RedisCircuitBreaker.canRequest s.redis askedAt up
    (asked.1, { s with redis := asked.2 })
  recordSuccess up := exec fun s =>
    { s with redis := RedisCircuitBreaker.recordSuccess s.redis succeededAt up }
  recordFailure up := exec fun s =>
    { s with redis := RedisCircuitBreaker.recordFailure cb s.redis failedAt up }

/-- A proxy whose `forward` has the given outcome. -/
def proxy (outcome : Except PyException UpstreamResponse) : ProxyBase ServerWorld where
  forward _ _ := lift outcome

def limitStep (a : Arrival) (ctx : PipelineContext) :
    Imp ServerWorld PyException (Option Response) :=
  RateLimitStep.execute http events (ruleSource fnmatch a.matchedAt) (rateLimiter a.checkedAt)
    a.limited ctx

def breakerStep (a : Arrival) (ctx : PipelineContext) :
    Imp ServerWorld PyException (Option Response) :=
  CircuitBreakerStep.execute http events (circuitBreaker cb a.askedAt a.askedAt a.askedAt)
    a.refused ctx

/-- A request with a context, up to `forward`: it is answered, or it is forwarded. -/
def receive (a : Arrival) (ctx : PipelineContext) :
    Imp ServerWorld PyException (Option Response) := do
  let result ← limitStep http fnmatch a ctx
  match result with
  | some response => return some response
  | none => breakerStep http cb a ctx

/-- A forwarded request from the outcome of `forward` on. -/
def complete (ctx : PipelineContext) (c : Completion) : Imp ServerWorld PyException Response :=
  GatewayPipeline.run http
    [ProxyStep.execute http events (proxy c.outcome)
      (circuitBreaker cb c.succeededAt c.succeededAt c.failedAt) c.done c.failed] ctx

/-- `GatewayController.handle` with these services. -/
def handle (a : Arrival) (c : Completion) : Imp ServerWorld PyException Response :=
  GatewayController.handle urlparse http events (ruleSource fnmatch a.matchedAt)
    (rateLimiter a.checkedAt) (circuitBreaker cb a.askedAt c.succeededAt c.failedAt)
    (proxy c.outcome) ⟨a.start, a.limited, a.refused, c.done, c.failed⟩ a.url a.req

/-- A step that raises ends the run of the pipeline, with its exception and the state it left. -/
theorem run_of_error {σ : Type} {step : PipelineContext → Imp σ PyException (Option Response)}
    {steps : List (PipelineStep σ)} {ctx : PipelineContext} {s s₁ : σ} {exc : PyException}
    (h : on (step ctx) s = (.error exc, s₁)) :
    on (GatewayPipeline.run http (.of step :: steps) ctx) s = (.error exc, s₁) := by
  have hstep : on (PipelineStep.of step ctx) s = (.error exc, s₁) := by
    rw [PipelineStep.of, on_bind_error h]
  rw [GatewayPipeline.run, on_bind_error hstep]

/-- **The two steps of a request, taken in a row, are `handle`.** Where there is no context, there
is no step either, and the exception is what `handle` ends with. -/
theorem handle_eq (a : Arrival) (c : Completion) (s : ServerWorld) :
    on (handle urlparse http fnmatch cb a c) s =
      match a.context urlparse with
      | .error exc => (.error exc, s)
      | .ok ctx =>
          match on (receive http fnmatch cb a ctx) s with
          | (.ok (some response), s') => (.ok response, s')
          | (.ok none, s') => on (complete http cb ctx c) s'
          | (.error exc, s') => (.error exc, s') := by
  rw [handle, GatewayController.handle, ← Arrival.context]
  cases hctx : a.context urlparse with
  | error exc => exact on_bind_error (on_lift _ _) _
  | ok ctx =>
      rw [on_bind_ok (on_lift _ _)]
      simp only [receive]
      rw [on_bind]
      rcases hlimit : on (limitStep http fnmatch a ctx) s with ⟨exc | _ | response, s₁⟩
      · exact run_of_error http hlimit
      · refine (run_of_pass hlimit).trans ?_
        dsimp only
        rcases hbreaker : on (breakerStep http cb a ctx) s₁ with ⟨exc | _ | response, s₂⟩
        · exact run_of_error http hbreaker
        · exact run_of_pass hbreaker
        · exact run_of_answer hbreaker
      · exact run_of_answer hlimit

end Services

/-! ### What an arrival does

The code of the two steps up to `forward` is worked out once, and what it does is said in three
cases. Everything later is proved from these. -/

/-- The task of an event's row is pending. -/
def schedule (event : Event) (log : LogWorld) : LogWorld :=
  { log with tasks := log.tasks ++ [rowOf event] }

/-- The verdict of the rate limit, if a rule applies, and the database that `match` and `check`
leave. Both are given what the context has: the path of `request.url` and the address of the
client. -/
def quota (fnmatch : String → String → Bool) (a : Arrival) (ctx : PipelineContext)
    (s : ServerWorld) : Option RateLimitResult × Redis :=
  let found := RuleRepository.match fnmatch s.rules s.redis a.matchedAt ctx.path
  match found.1 with
  | none => (none, found.2)
  | some rule =>
      let checked := SlidingWindowRateLimiter.check found.2 a.checkedAt
        (rateLimitKey rule ctx.clientIp) rule.limit rule.windowSeconds
      (some checked.1, checked.2)

/-- A rule applies to the request, and the check of that rule refuses it. -/
def Limited (fnmatch : String → String → Bool) (a : Arrival) (ctx : PipelineContext)
    (s : ServerWorld) : Prop :=
  ∃ result, (quota fnmatch a ctx s).1 = some result ∧ result.allowed = false

/-- The answer of `RateLimitStep` to a request that it refuses, with the result of the check. -/
def tooManyRequests (http : Starlette) (result : RateLimitResult) : Response :=
  http.jsonResponse 429
    [("error", .str "Too Many Requests"), ("limit", .int result.limit),
      ("reset_in", .int result.resetIn)]
    [("X-RateLimit-Limit", toString result.limit),
      ("X-RateLimit-Remaining", toString result.remaining),
      ("X-RateLimit-Reset", toString result.resetIn),
      ("Retry-After", toString result.resetIn)]

/-- The answer of `CircuitBreakerStep` to a request that it refuses. -/
def circuitOpen (http : Starlette) : Response :=
  http.jsonResponse 503
    [("error", .str "Service Unavailable"), ("reason", .str "circuit_breaker_open")] []

/-- What `can_request` answers to a request that the rate limit lets through, and the database
after it. -/
def asked (fnmatch : String → String → Bool) (a : Arrival) (ctx : PipelineContext)
    (s : ServerWorld) : Bool × Redis :=
  RedisCircuitBreaker.canRequest (quota fnmatch a ctx s).2 a.askedAt ctx.upstreamHost

section Admission

variable {http : Starlette} {fnmatch : String → String → Bool} {cb : RedisCircuitBreaker}
  {a : Arrival} {ctx : PipelineContext} {s : ServerWorld}

theorem on_emit (event : Event) (s : ServerWorld) :
    on (events.emit event) s = (.ok (), { s with log := schedule event s.log }) := by
  have hlog := RateGuardian.on_emit event s.log
  rw [events, on_focus]
  exact congrArg (fun x => (x.1, { s with log := x.2 })) hlog

theorem on_limitStep_of_limited {result : RateLimitResult}
    (hresult : (quota fnmatch a ctx s).1 = some result) (hfalse : result.allowed = false) :
    on (limitStep http fnmatch a ctx) s = (.ok (some (tooManyRequests http result)), { s with
      redis := (quota fnmatch a ctx s).2
      log := schedule (blockedEvent ctx 429 (latencyMs ctx a.limited) "rate_limit") s.log }) := by
  cases hrule : (RuleRepository.match fnmatch s.rules s.redis a.matchedAt ctx.path).1 with
  | none => simp [quota, hrule] at hresult
  | some rule =>
      simp only [quota, hrule, Option.some.injEq] at hresult
      simp only [limitStep, RateLimitStep.execute, ruleSource, rateLimiter, on_bind, on_act,
        hrule, hresult, hfalse, on_emit, Bool.false_eq_true, if_false, on_pure, quota]
      rfl

theorem on_limitStep_of_passed (h : ¬ Limited fnmatch a ctx s) :
    on (limitStep http fnmatch a ctx) s =
      (.ok none, { s with redis := (quota fnmatch a ctx s).2 }) := by
  cases hrule : (RuleRepository.match fnmatch s.rules s.redis a.matchedAt ctx.path).1 with
  | none => simp [limitStep, RateLimitStep.execute, ruleSource, on_bind, hrule, quota]
  | some rule =>
      have hallowed : (SlidingWindowRateLimiter.check
          (RuleRepository.match fnmatch s.rules s.redis a.matchedAt ctx.path).2 a.checkedAt
          (rateLimitKey rule ctx.clientIp) rule.limit rule.windowSeconds).1.allowed = true := by
        by_contra hfalse
        refine h ⟨_, ?_, Bool.eq_false_iff.mpr hfalse⟩
        simp only [quota, hrule]
      simp [limitStep, RateLimitStep.execute, ruleSource, rateLimiter, on_bind, hrule, hallowed,
        quota]

/-- What the breaker step does with a request that the limiter has let through. -/
theorem on_breakerStep (s₁ : ServerWorld) :
    on (breakerStep http cb a ctx) s₁ =
      if (RedisCircuitBreaker.canRequest s₁.redis a.askedAt ctx.upstreamHost).1 then
        (.ok none, { s₁ with
          redis := (RedisCircuitBreaker.canRequest s₁.redis a.askedAt ctx.upstreamHost).2 })
      else
        (.ok (some (circuitOpen http)), { s₁ with
          redis := (RedisCircuitBreaker.canRequest s₁.redis a.askedAt ctx.upstreamHost).2
          log := schedule (blockedEvent ctx 503 (latencyMs ctx a.refused) "circuit_breaker")
            s₁.log }) := by
  simp only [breakerStep, CircuitBreakerStep.execute, circuitBreaker, on_bind, on_act]
  split
  · rfl
  · rw [on_bind_ok (on_emit _ _)]
    rfl

/-- **What an arrival does.** The rate limit answers it, or the breaker does, or it is forwarded. Of
the rest of the world, the first two schedule a log task, and the third leaves everything as it
is. -/
theorem receive_cases (http : Starlette) (fnmatch : String → String → Bool)
    (cb : RedisCircuitBreaker) (a : Arrival) (ctx : PipelineContext) (s : ServerWorld) :
    (∃ result, (quota fnmatch a ctx s).1 = some result ∧ result.allowed = false ∧
      on (receive http fnmatch cb a ctx) s = (.ok (some (tooManyRequests http result)), { s with
        redis := (quota fnmatch a ctx s).2
        log := schedule (blockedEvent ctx 429 (latencyMs ctx a.limited) "rate_limit") s.log })) ∨
    (¬ Limited fnmatch a ctx s ∧ (asked fnmatch a ctx s).1 = false ∧
      on (receive http fnmatch cb a ctx) s = (.ok (some (circuitOpen http)), { s with
        redis := (asked fnmatch a ctx s).2
        log := schedule (blockedEvent ctx 503 (latencyMs ctx a.refused) "circuit_breaker")
          s.log })) ∨
    (¬ Limited fnmatch a ctx s ∧ (asked fnmatch a ctx s).1 = true ∧
      on (receive http fnmatch cb a ctx) s =
        (.ok none, { s with redis := (asked fnmatch a ctx s).2 })) := by
  by_cases hlimited : Limited fnmatch a ctx s
  · obtain ⟨result, hresult, hfalse⟩ := hlimited
    refine Or.inl ⟨result, hresult, hfalse, ?_⟩
    rw [receive, on_bind_ok (on_limitStep_of_limited hresult hfalse)]
    rfl
  · -- The limiter has written its entry, and the breaker decides on what is left.
    have hrest : on (receive http fnmatch cb a ctx) s =
        on (breakerStep http cb a ctx) { s with redis := (quota fnmatch a ctx s).2 } := by
      rw [receive, on_bind_ok (on_limitStep_of_passed hlimited)]
    rw [on_breakerStep] at hrest
    cases hans : (asked fnmatch a ctx s).1 with
    | false =>
        rw [asked] at hans
        rw [hans, if_neg Bool.false_ne_true] at hrest
        exact Or.inr (Or.inl ⟨hlimited, rfl, hrest⟩)
    | true =>
        rw [asked] at hans
        rw [hans, if_pos rfl] at hrest
        exact Or.inr (Or.inr ⟨hlimited, rfl, hrest⟩)

end Admission

/-! ### What a completion does

Likewise for the code from the answer of the upstream on. -/

section Completion

open ProxyStep

variable {http : Starlette} {cb : RedisCircuitBreaker} {ctx : PipelineContext} {c : Completion}

/-- The world after `record_success` and the event of a forwarded request. -/
def succeeded (ctx : PipelineContext) (c : Completion) (status : ℕ) (s : ServerWorld) :
    ServerWorld :=
  { s with
    redis := RedisCircuitBreaker.recordSuccess s.redis c.succeededAt ctx.upstreamHost
    log := schedule (forwardedEvent ctx status (latencyMs ctx c.done)) s.log }

/-- The world after `record_failure` and the event of an upstream error. -/
def failed (cb : RedisCircuitBreaker) (ctx : PipelineContext) (c : Completion) (s : ServerWorld) :
    ServerWorld :=
  { s with
    redis := RedisCircuitBreaker.recordFailure cb s.redis c.failedAt ctx.upstreamHost
    log := schedule (blockedEvent ctx 502 (latencyMs ctx c.failed) "upstream_error") s.log }

/-- The handler of an exception records a failure, emits its event and answers with a 502. -/
theorem on_handler (exc : PyException) (s : ServerWorld) :
    on (do
      (circuitBreaker cb c.succeededAt c.succeededAt c.failedAt).recordFailure ctx.upstreamHost
      events.emit (blockedEvent ctx 502 (latencyMs ctx c.failed) "upstream_error")
      return (some (badGateway http exc), ctx)) s =
      (.ok (some (badGateway http exc), ctx), failed cb ctx c s) := by
  simp only [circuitBreaker]
  rw [on_bind_ok (on_exec _ _), on_bind_ok (on_emit _ _)]
  rfl

theorem on_proxyStep_of_raise {exc : PyException} {s s' : ServerWorld}
    (h : on (do
      let upstreamResp ← (proxy c.outcome).forward ctx.request ctx.upstreamUrl
      (circuitBreaker cb c.succeededAt c.succeededAt c.failedAt).recordSuccess ctx.upstreamHost
      events.emit (forwardedEvent ctx upstreamResp.statusCode (latencyMs ctx c.done))
      let response ← lift (http.response upstreamResp.content upstreamResp.statusCode
        (keptHeaders upstreamResp.headers))
      return ((none : Option Response), { ctx with response := some response })) s =
        (.error exc, s')) :
    on (complete http cb ctx c) s = (.ok (badGateway http exc), failed cb ctx c s') := by
  have hstep : on (ProxyStep.execute http events (proxy c.outcome)
      (circuitBreaker cb c.succeededAt c.succeededAt c.failedAt) c.done c.failed ctx) s =
        (.ok (some (badGateway http exc), ctx), failed cb ctx c s') := by
    rw [ProxyStep.execute, on_handle_error h]
    exact on_handler exc s'
  rw [complete, GatewayPipeline.run, on_bind_ok hstep]
  rfl

/-- The body of the `try` records the success and emits its event, and only then builds the
response, which may raise. -/
theorem on_body_of_ok {up : UpstreamResponse} (hout : c.outcome = .ok up) (s : ServerWorld)
    (k : Response → Imp ServerWorld PyException (Option Response × PipelineContext)) :
    on (do
      let upstreamResp ← (proxy c.outcome).forward ctx.request ctx.upstreamUrl
      (circuitBreaker cb c.succeededAt c.succeededAt c.failedAt).recordSuccess ctx.upstreamHost
      events.emit (forwardedEvent ctx upstreamResp.statusCode (latencyMs ctx c.done))
      let response ← lift (http.response upstreamResp.content upstreamResp.statusCode
        (keptHeaders upstreamResp.headers))
      k response) s =
      on (lift (http.response up.content up.statusCode (keptHeaders up.headers)) >>= k)
        (succeeded ctx c up.statusCode s) := by
  have hforward : on ((proxy c.outcome).forward ctx.request ctx.upstreamUrl) s = (.ok up, s) := by
    rw [proxy, hout, on_lift]
  rw [on_bind_ok hforward]
  simp only [circuitBreaker]
  rw [on_bind_ok (on_exec _ _), on_bind_ok (on_emit _ _)]
  rfl

/-- **What a completion does.** The upstream failed, or its response is passed on, or it answered
and its response cannot be passed on. -/
theorem complete_cases (hhttp : http.Lawful) (ctx : PipelineContext) (c : Completion)
    (s : ServerWorld) :
    (∃ exc, c.outcome = .error exc ∧
      on (complete http cb ctx c) s = (.ok (badGateway http exc), failed cb ctx c s)) ∨
    (∃ up response, c.outcome = .ok up ∧ Encodable up ∧ response.statusCode = up.statusCode ∧
      on (complete http cb ctx c) s = (.ok response, succeeded ctx c up.statusCode s)) ∨
    (∃ up exc, c.outcome = .ok up ∧ ¬ Encodable up ∧
      on (complete http cb ctx c) s =
        (.ok (badGateway http exc), failed cb ctx c (succeeded ctx c up.statusCode s))) := by
  cases hout : c.outcome with
  | error exc =>
      -- `forward` raises, and nothing else of the `try` has run.
      refine Or.inl ⟨exc, rfl, on_proxyStep_of_raise ?_⟩
      rw [proxy, hout, on_bind_error (on_lift _ _)]
  | ok up =>
      have hraises := hhttp.response_raises up.content up.statusCode (keptHeaders up.headers)
      cases hresp : http.response up.content up.statusCode (keptHeaders up.headers) with
      | ok response =>
          have henc : Encodable up := by
            intro h hh
            by_contra hnot
            obtain ⟨exc, hexc⟩ := hraises.mpr ⟨h, hh, hnot⟩
            rw [hresp] at hexc
            cases hexc
          refine Or.inr (Or.inl ⟨up, response, rfl, henc,
            hhttp.response_statusCode _ _ _ _ hresp, ?_⟩)
          have hstep : on (ProxyStep.execute http events (proxy c.outcome)
              (circuitBreaker cb c.succeededAt c.succeededAt c.failedAt) c.done c.failed ctx) s =
                (.ok (none, { ctx with response := some response }),
                  succeeded ctx c up.statusCode s) := by
            rw [ProxyStep.execute, on_handle, on_body_of_ok hout, hresp,
              on_bind_ok (on_lift _ _)]
            rfl
          rw [complete, GatewayPipeline.run, on_bind_ok hstep]
          rfl
      | error exc =>
          -- `Response(...)` raises inside the `try`, after `record_success` and `emit`.
          have hnot : ¬ Encodable up := by
            intro henc
            obtain ⟨h, hh, hbad⟩ := hraises.mp ⟨exc, hresp⟩
            exact hbad (henc h hh)
          refine Or.inr (Or.inr ⟨up, exc, rfl, hnot, on_proxyStep_of_raise ?_⟩)
          rw [on_body_of_ok hout, hresp, on_bind_error (on_lift _ _)]

end Completion

end Server

/-! ### Any number of requests

The state has the world that the services share, the requests that are under way, and the last
reading of the clock. Steps of different requests come in any order that the clock allows. -/

/-- A request that was forwarded and has no response yet; requests are numbered as they arrive. -/
structure Flight where
  id : ℕ
  ctx : PipelineContext

structure ServerState where
  world : ServerWorld
  clock : Time
  arrived : ℕ
  inFlight : List Flight
  id_lt : ∀ f ∈ inFlight, f.id < arrived
  nodup : (inFlight.map Flight.id).Nodup

namespace ServerState

def initial (t₀ : Time) (rules : RuleTable) (log : LogTable) : ServerState :=
  ⟨⟨.empty, rules, .initial log⟩, t₀, 0, [], nofun, List.nodup_nil⟩

/-- The state after a request was answered on arrival: it is never under way. -/
def turnAway (s : ServerState) (w : ServerWorld) (now : Time) : ServerState where
  world := w
  clock := now
  arrived := s.arrived + 1
  inFlight := s.inFlight
  id_lt f hf := Nat.lt_succ_of_lt (s.id_lt f hf)
  nodup := s.nodup

/-- The state after a request was forwarded: it is under way, under the next number. -/
def letIn (s : ServerState) (ctx : PipelineContext) (w : ServerWorld) (now : Time) :
    ServerState where
  world := w
  clock := now
  arrived := s.arrived + 1
  inFlight := ⟨s.arrived, ctx⟩ :: s.inFlight
  id_lt := by
    refine List.forall_mem_cons.mpr ⟨Nat.lt_succ_self _, ?_⟩
    intro f hf
    exact Nat.lt_succ_of_lt (s.id_lt f hf)
  nodup := by
    refine List.nodup_cons.mpr ⟨?_, s.nodup⟩
    intro hmem
    obtain ⟨f, hf, heq⟩ := List.mem_map.mp hmem
    exact Nat.ne_of_lt (s.id_lt f hf) heq

/-- The state after a forwarded request was answered: it is not under way any more. -/
def settle (s : ServerState) (f : Flight) (w : ServerWorld) (now : Time) : ServerState where
  world := w
  clock := now
  arrived := s.arrived
  inFlight := s.inFlight.filter fun g => g.id ≠ f.id
  id_lt g hg := s.id_lt g (List.mem_filter.mp hg).1
  nodup := s.nodup.sublist (List.filter_sublist.map _)

end ServerState

/-- What becomes of a request on its arrival. -/
inductive Reception
  /-- Its context cannot be built, and the framework answers the exception. -/
  | raised (exc : PyException)
  /-- The rate limit or the breaker answers it. -/
  | answered (ctx : PipelineContext) (response : Response)
  | forwarded (ctx : PipelineContext)

/-- The status of the answer, if there is one. That of an exception is the framework's. -/
def Reception.status : Reception → Option ℕ
  | .raised _ => some 500
  | .answered _ response => some response.statusCode
  | .forwarded _ => none

inductive ServerEvent
  | arrive (a : Arrival) (result : Reception)
  /-- A forwarded request is answered. -/
  | complete (f : Flight) (c : Completion) (response : Response)
  /-- A log task runs, at the reading `now`. -/
  | task (now : Time)
  /-- Somebody else writes to Redis or to the table of rules. -/
  | others

instance : DecidablePred ProxyStep.Encodable := fun up =>
  List.decidableBAll (fun h : String × String => Latin1 h.1 ∧ Latin1 h.2) (keptHeaders up.headers)

/-- The responses of the upstream can be passed on. -/
def ServerEvent.PassesOn : ServerEvent → Prop
  | .complete _ c _ => ∀ up, c.outcome = .ok up → ProxyStep.Encodable up
  | _ => True

section Steps

variable (urlparse : String → Except String String) (http : Starlette)
  (fnmatch : String → String → Bool) (cb : RedisCircuitBreaker)

inductive ServerStep : ServerState → ServerEvent → ServerState → Prop
  /-- A request without a context ends before it touches anything or reads the clock. -/
  | raise {s : ServerState} (a : Arrival) (exc : PyException)
      (hctx : a.context urlparse = .error exc) :
      ServerStep s (.arrive a (.raised exc)) (s.turnAway s.world s.clock)
  | turnAway {s : ServerState} (a : Arrival) (ctx : PipelineContext) (response : Response)
      (w : ServerWorld) (hctx : a.context urlparse = .ok ctx) (hclock : s.clock ≤ a.matchedAt)
      (hon : on (Server.receive http fnmatch cb a ctx) s.world = (.ok (some response), w)) :
      ServerStep s (.arrive a (.answered ctx response)) (s.turnAway w a.askedAt)
  | letIn {s : ServerState} (a : Arrival) (ctx : PipelineContext) (w : ServerWorld)
      (hctx : a.context urlparse = .ok ctx) (hclock : s.clock ≤ a.matchedAt)
      (hon : on (Server.receive http fnmatch cb a ctx) s.world = (.ok none, w)) :
      ServerStep s (.arrive a (.forwarded ctx)) (s.letIn ctx w a.askedAt)
  | complete {s : ServerState} (f : Flight) (c : Completion) (response : Response)
      (w : ServerWorld) (hclock : s.clock ≤ c.succeededAt) (hin : f ∈ s.inFlight)
      (hon : on (Server.complete http cb f.ctx c) s.world = (.ok response, w)) :
      ServerStep s (.complete f c response) (s.settle f w c.failedAt)
  | task {s : ServerState} (now : Time) (log : LogWorld)
      (hlog : LogStep s.world.log (.run now) log) :
      ServerStep s (.task now) { s with world := { s.world with log := log } }
  /-- The routes of the rules, an expiring key, another user of Redis: the rules may change, and in
  Redis anything but the keys of the breaker. The log does not. -/
  | others {s : ServerState} (redis : Redis) (rules : RuleTable)
      (hkeys : ∀ up, AgreeOn (breakerKeys up) s.world.redis redis) :
      ServerStep s .others { s with world := { s.world with redis := redis, rules := rules } }

abbrev ServerTrace := List (Transition ServerState ServerEvent)

variable {urlparse http fnmatch cb}

/-- The arrival of a request whose context cannot be built, which changes nothing. -/
theorem ServerStep.raise_cases {s s' : ServerState} {a : Arrival} {result : Reception}
    {exc : PyException} (hctx : a.context urlparse = .error exc)
    (h : ServerStep urlparse http fnmatch cb s (.arrive a result) s') :
    result = .raised exc ∧ s' = s.turnAway s.world s.clock := by
  cases h with
  | raise a exc' hctx' =>
      obtain rfl := Except.error.inj (hctx.symm.trans hctx')
      exact ⟨rfl, rfl⟩
  | turnAway a ctx response w hctx' hclock hon => cases hctx.symm.trans hctx'
  | letIn a ctx w hctx' hclock hon => cases hctx.symm.trans hctx'

/-- **The arrival of a request that has a context.** The three cases are those of
`Server.receive_cases`, with the result that the step is labelled with and the state that it leads
to, so that nothing about an arrival has to go back to the code of the two steps. -/
theorem ServerStep.arrive_cases {s s' : ServerState} {a : Arrival} {ctx : PipelineContext}
    {result : Reception} (hctx : a.context urlparse = .ok ctx)
    (h : ServerStep urlparse http fnmatch cb s (.arrive a result) s') :
    s.clock ≤ a.matchedAt ∧
    ((∃ verdict, (Server.quota fnmatch a ctx s.world).1 = some verdict ∧
        verdict.allowed = false ∧
        result = .answered ctx (Server.tooManyRequests http verdict) ∧
        s' = s.turnAway { s.world with
          redis := (Server.quota fnmatch a ctx s.world).2
          log := Server.schedule (blockedEvent ctx 429 (latencyMs ctx a.limited) "rate_limit")
            s.world.log } a.askedAt) ∨
      (¬ Server.Limited fnmatch a ctx s.world ∧
        (Server.asked fnmatch a ctx s.world).1 = false ∧
        result = .answered ctx (Server.circuitOpen http) ∧
        s' = s.turnAway { s.world with
          redis := (Server.asked fnmatch a ctx s.world).2
          log := Server.schedule
            (blockedEvent ctx 503 (latencyMs ctx a.refused) "circuit_breaker")
            s.world.log } a.askedAt) ∨
      (¬ Server.Limited fnmatch a ctx s.world ∧
        (Server.asked fnmatch a ctx s.world).1 = true ∧
        result = .forwarded ctx ∧
        s' = s.letIn ctx { s.world with redis := (Server.asked fnmatch a ctx s.world).2 }
          a.askedAt)) := by
  have hcases := Server.receive_cases http fnmatch cb a ctx s.world
  cases h with
  | raise a exc hctx' => cases hctx.symm.trans hctx'
  | turnAway a ctx' response w hctx' hclock hon =>
      obtain rfl := Except.ok.inj (hctx.symm.trans hctx')
      refine ⟨hclock, ?_⟩
      rcases hcases with ⟨verdict, hv, hfalse, hon'⟩ | ⟨hnot, hans, hon'⟩ | ⟨-, -, hon'⟩ <;>
        cases hon.symm.trans hon'
      · exact Or.inl ⟨verdict, hv, hfalse, rfl, rfl⟩
      · exact Or.inr (Or.inl ⟨hnot, hans, rfl, rfl⟩)
  | letIn a ctx' w hctx' hclock hon =>
      obtain rfl := Except.ok.inj (hctx.symm.trans hctx')
      refine ⟨hclock, ?_⟩
      rcases hcases with ⟨_, -, -, hon'⟩ | ⟨-, -, hon'⟩ | ⟨hnot, hans, hon'⟩ <;>
        cases hon.symm.trans hon'
      exact Or.inr (Or.inr ⟨hnot, hans, rfl, rfl⟩)

/-- Every forwarded request is answered, whatever becomes of it. -/
theorem exists_complete (hhttp : http.Lawful) (s : ServerState) {f : Flight} (hf : f ∈ s.inFlight)
    (c : Completion) (hclock : s.clock ≤ c.succeededAt) :
    ∃ response w, ServerStep urlparse http fnmatch cb s (.complete f c response)
      (s.settle f w c.failedAt) := by
  rcases @Server.complete_cases http cb hhttp f.ctx c s.world with
    ⟨exc, -, hon⟩ | ⟨up, response, -, -, -, hon⟩ | ⟨up, exc, -, -, hon⟩
  · exact ⟨_, _, .complete f c _ _ hclock hf hon⟩
  · exact ⟨_, _, .complete f c _ _ hclock hf hon⟩
  · exact ⟨_, _, .complete f c _ _ hclock hf hon⟩

end Steps

end RateGuardian
