import RateGuardian.Gateway
import RateGuardian.Lib.Fnmatch
import RateGuardian.ProxySound
import RateGuardian.RuleCache
import RateGuardian.TracedServices

/-!
# RateGuardian.GatewayEffects

**Everything one request does to the shared state.** A request runs through
`GatewayController.handle` on the traced services, while `forward` may be accompanied by any change
that other requests make to the database (`Passage`). `effects_of_request` says what it leaves
behind: what was forwarded, which keys were written, which entries were added.

There are four ways a request can go, and the theorem has a case for each:

* its context cannot be built, because the parser rejects its URL. Then no step runs, nothing is
  touched, and the exception is the framework's to answer;
* `RateLimitStep` turns it away. The old entries of its key are dropped, and none is added;
* `CircuitBreakerStep` turns it away, after the rate limit has charged its quota;
* it is forwarded, once, and afterwards only the keys of its own upstream are written.

The proof follows the pipeline. Each step has a lemma with one case for each of its outcomes
(`limitStep_cases`, `breakerStep_cases`, `proxyStep_effect`), stated as an `Effect` on the keys that
the step may touch, and the cases of a request are put together from these.

One thing cannot be read off the commands: that a check which lets a request pass *adds* an entry.
`ZADD` adds none if the set has the member, that is, if an earlier check of the key took the same
reading. So the first section shows that the members of a limiter key are readings of its past.
-/

namespace RateGuardian

open Lib Imp Redis

/-! ### The members of a limiter key are readings of its past -/

/-- The value is a sorted set, and all its members are readings in `T`. -/
def SetOf (T : List Time) (v : Value) : Prop := ∃ z, v = .zset z ∧ ∀ e ∈ z.entries, e.1 ∈ T

/-- The slot holds a sorted set of readings in `T`, if it holds anything. An entry that has expired
counts too: the deadline of a key says nothing of its members. -/
def SlotOf (T : List Time) (s : Slot Time Value) : Prop := ∀ e, s = some e → SetOf T e.value

section SlotOf

open SlidingWindowRateLimiter

variable {T T' : List Time} {s : Slot Time Value} {now : Time}

theorem SlotOf.mono (h : SlotOf T s) (hsub : T ⊆ T') : SlotOf T' s := by
  intro e he
  obtain ⟨z, hz, hmem⟩ := h e he
  exact ⟨z, hz, fun x hx => hsub (hmem x hx)⟩

theorem SlotOf.update (h : SlotOf T s) {f : Option Value → Option Value}
    (hnone : ∀ v, f none = some v → SetOf T v)
    (hsome : ∀ v, SetOf T v → ∀ v', f (some v) = some v' → SetOf T v') :
    SlotOf T (Slot.update now f s) := by
  intro e he
  cases hlive : Slot.live now s with
  | none =>
      rw [Slot.update_eq_of_live_none hlive] at he
      obtain ⟨v, hv, rfl⟩ := Option.map_eq_some_iff.mp he
      exact hnone v hv
  | some e₀ =>
      rw [Slot.update_eq_of_live_some hlive] at he
      obtain ⟨v, hv, rfl⟩ := Option.map_eq_some_iff.mp he
      exact hsome e₀.value (h e₀ (Slot.live_eq_some.mp hlive).1) v hv

theorem SlotOf.zremSlot (h : SlotOf T s) (max : Time) : SlotOf T (zremSlot now max s) := by
  refine h.update nofun ?_
  rintro _ ⟨z, rfl, hz⟩ v hv
  simp only [storeZset] at hv
  split at hv
  · cases hv
  · cases hv
    exact ⟨_, rfl, fun e he => hz e (SortedSet.mem_removeUpTo.mp he).1⟩

theorem SlotOf.zaddSlot (h : SlotOf T s) {member : Time} (hmem : member ∈ T) (score : Time) :
    SlotOf T (zaddSlot now member score s) := by
  have hadd : ∀ z : SortedSet Time Time, (∀ e ∈ z.entries, e.1 ∈ T) →
      SetOf T (.zset (z.add member score)) := by
    intro z hz
    refine ⟨_, rfl, ?_⟩
    intro e he
    rcases SortedSet.mem_add.mp he with rfl | ⟨he, -⟩
    · exact hmem
    · exact hz e he
  refine h.update ?_ ?_
  · intro v hv
    cases hv
    exact hadd .empty nofun
  · rintro _ ⟨z, rfl, hz⟩ v hv
    cases hv
    exact hadd z hz

theorem SlotOf.expire (h : SlotOf T s) (ttl : Time) : SlotOf T (Slot.expire now ttl s) := by
  intro e he
  obtain ⟨e₀, hlive, rfl⟩ := Option.map_eq_some_iff.mp he
  exact h e₀ (Slot.live_eq_some.mp hlive).1

theorem SlotOf.check {r : Redis} {key : String} {limit w : ℤ} (h : SlotOf T (r.slot (redisKey key)))
    (hnow : now ∈ T) : SlotOf T ((check r now key limit w).2.slot (redisKey key)) := by
  have hpruned := @SlotOf.zremSlot T _ now h (now - w)
  simp only [SlidingWindowRateLimiter.check]
  split
  · rw [slot_expire_self, slot_zadd_self, slot_zremrangebyscore_self]
    exact (hpruned.zaddSlot hnow now).expire _
  · rw [slot_zremrangebyscore_self]
    exact hpruned

end SlotOf

/-! ### A request on its way -/

/-- One request, and what it meets on its way: the rules and the code it is handled by, the readings
of all clocks, the outcome of the upstream, and what others do while it waits. -/
structure Passage where
  urlparse : String → Except String String
  http : Starlette
  fnmatch : String → String → Bool
  db : RuleTable
  cb : RedisCircuitBreaker
  upstreamUrl : String
  req : ClientRequest
  monotonic : MonotonicReadings
  /-- The clock at `match`, `check`, `can_request`, `record_success` and `record_failure`. -/
  matchedAt : Time
  checkedAt : Time
  askedAt : Time
  succeededAt : Time
  failedAt : Time
  /-- What `forward` returns or raises, whatever the upstream does. -/
  outcome : Except PyException UpstreamResponse
  /-- What other requests do to the database while `forward` waits. Nothing else in a request gives
  way to others. -/
  meanwhile : Redis → Redis

namespace Passage

variable (p : Passage)

def rules : RuleSource EffectWorld where
  findRule path := Traced.matchRule p.fnmatch p.db p.matchedAt path

def rateLimiter : RateLimiterBase EffectWorld where
  check key limit w := Traced.checkLimit p.checkedAt key limit w

def circuitBreaker : CircuitBreakerBase EffectWorld where
  canRequest up := Traced.canRequest p.askedAt up
  recordSuccess up := Traced.recordSuccess p.succeededAt up
  recordFailure up := Traced.recordFailure p.cb p.failedAt up

def proxy : ProxyBase EffectWorld where
  forward request url := do
    exec fun s =>
      { s with redis := p.meanwhile s.redis, forwarded := s.forwarded ++ [(request, url)] }
    lift p.outcome

def events : EventManager EffectWorld where
  emit event := exec fun s => { s with emitted := s.emitted ++ [event] }

/-- The context, or the exception that the request ends with if it cannot be built. -/
def context : Except PyException PipelineContext :=
  GatewayController.context p.urlparse p.upstreamUrl p.req p.monotonic.start

/-! The three steps of the pipeline, each on a context and with its own reading of the clock. -/

def limitStep (ctx : PipelineContext) : Traced (Option Response) :=
  RateLimitStep.execute p.http events p.rules p.rateLimiter p.monotonic.limited ctx

def breakerStep (ctx : PipelineContext) : Traced (Option Response) :=
  CircuitBreakerStep.execute p.http events p.circuitBreaker p.monotonic.refused ctx

def proxyStep (ctx : PipelineContext) : Traced (Option Response × PipelineContext) :=
  ProxyStep.execute p.http events p.proxy p.circuitBreaker p.monotonic.done p.monotonic.failed ctx

def handle : Traced Response :=
  GatewayController.handle p.urlparse p.http events p.rules p.rateLimiter p.circuitBreaker p.proxy
    p.monotonic p.upstreamUrl p.req

/-- The rule that `match` finds for the request, if the request gets as far as that. A request whose
context cannot be built never asks for a rule. -/
def matched (r : Redis) : Option Rule :=
  match p.context with
  | .ok ctx => (RuleRepository.match p.fnmatch p.db r p.matchedAt ctx.path).1
  | .error _ => none

/-- The limiter key of the request under `rule`, which depends on the rule only through its
`key_type`. -/
def keyFor (rule : Rule) : String :=
  SlidingWindowRateLimiter.redisKey (rateLimitKey rule (getClientIp p.req))

/-- `RateLimitStep` answers the client itself, which is its 429. -/
def Limited (s : EffectWorld) : Prop :=
  ∃ ctx, p.context = .ok ctx ∧ ∃ response, (on (p.limitStep ctx) s).1 = .ok (some response)

end Passage

/-! ### What each step does -/

section Steps

variable {p : Passage} {ctx : PipelineContext} {s : EffectWorld}

/-- What a refusal of the breaker is: the answer 503, and an event that reports it. -/
theorem on_breakerStep_of_refused
    (h : (RedisCircuitBreaker.canRequest s.redis p.askedAt ctx.upstreamHost).1 = false) :
    on (p.breakerStep ctx) s =
      (.ok (some (p.http.jsonResponse 503
        [("error", .str "Service Unavailable"), ("reason", .str "circuit_breaker_open")] [])),
      (on (Passage.events.emit (blockedEvent ctx 503 (latencyMs ctx p.monotonic.refused)
        "circuit_breaker")) s).2) := by
  obtain ⟨s₁, hask, -, hsame⟩ := Traced.on_canRequest s p.askedAt ctx.upstreamHost
  have hcan : on (p.circuitBreaker.canRequest ctx.upstreamHost) s = (.ok _, s₁) := hask
  rw [Passage.breakerStep, CircuitBreakerStep.execute, on_bind_ok hcan, h, hsame h]
  rfl

/-- The world in which the upstream has answered: the request is on record, and the others have done
what they do meanwhile. -/
def Passage.answered (p : Passage) (ctx : PipelineContext) (s : EffectWorld) : EffectWorld :=
  { s with
    redis := p.meanwhile s.redis
    forwarded := s.forwarded ++ [(ctx.request, ctx.upstreamUrl)] }

end Steps

/-! ### The whole request -/

section Run

variable {σ : Type} {http : Starlette}
  {step : PipelineContext → Imp σ PyException (Option Response)}
  {steps : List (PipelineStep σ)} {ctx : PipelineContext} {s s₁ : σ}

/-- The first step that answers ends the pipeline, and its answer is the client's. -/
theorem run_of_answer {response : Response} (h : on (step ctx) s = (.ok (some response), s₁)) :
    on (GatewayPipeline.run http (.of step :: steps) ctx) s = (.ok response, s₁) := by
  have hstep : on (PipelineStep.of step ctx) s = (.ok (some response, ctx), s₁) := by
    rw [PipelineStep.of, on_bind_ok h, on_pure]
  rw [GatewayPipeline.run, on_bind_ok hstep]
  rfl

theorem run_of_pass (h : on (step ctx) s = (.ok none, s₁)) :
    on (GatewayPipeline.run http (.of step :: steps) ctx) s =
      on (GatewayPipeline.run http steps ctx) s₁ := by
  have hstep : on (PipelineStep.of step ctx) s = (.ok (none, ctx), s₁) := by
    rw [PipelineStep.of, on_bind_ok h, on_pure]
  rw [GatewayPipeline.run, on_bind_ok hstep]

end Run

namespace Passage

variable {p : Passage} {ctx : PipelineContext} {s s₁ s₂ : EffectWorld}

/-- With a context, handling the request is running the pipeline of the three steps. -/
theorem handle_of_context (h : p.context = .ok ctx) :
    on p.handle s = on (GatewayPipeline.run p.http
      [.of p.limitStep, .of p.breakerStep, p.proxyStep] ctx) s := by
  have hlift : on (lift p.context : Traced PipelineContext) s = (.ok ctx, s) := by
    rw [on_lift, h]
  exact on_bind_ok hlift _

theorem handle_of_refused {response : Response} (hctx : p.context = .ok ctx)
    (h₁ : on (p.limitStep ctx) s = (.ok none, s₁))
    (h₂ : on (p.breakerStep ctx) s₁ = (.ok (some response), s₂)) :
    on p.handle s = (.ok response, s₂) :=
  (handle_of_context hctx).trans ((run_of_pass h₁).trans (run_of_answer h₂))

end Passage

/-! ### What a request leaves behind -/

section Whole

variable {p : Passage} {ctx : PipelineContext} {r : Redis} {new : List (String × Time)}
  {after : EffectWorld}

/-- The entry that a check of the request adds if it lets the request pass. -/
def Passage.entry (p : Passage) (r : Redis) : List (String × Time) :=
  ((p.matched r).map fun rule => (p.keyFor rule, p.checkedAt)).toList

end Whole

/-- A request under a rule, for an upstream whose breaker has opened at 0 and has not recovered. -/
def turnedAway : Passage where
  urlparse := Lib.urlparse
  http := .documented
  fnmatch := Lib.fnmatch
  db := [everyPath]
  cb := ⟨1, 30⟩
  upstreamUrl := "https://a.test/x"
  req := ⟨⟨"GET", [], []⟩, "/proxy/https://a.test/x", .ok "/proxy/https://a.test/x", "",
    "10.0.0.1"⟩
  monotonic := ⟨1, 2, 3, 4, 5⟩
  matchedAt := 1
  checkedAt := 2
  askedAt := 3
  succeededAt := 4
  failedAt := 5
  outcome := .ok ⟨200, [], []⟩
  meanwhile := id

/-- The context of that request. -/
def turnedAwayContext : PipelineContext where
  request := ⟨"GET", [], []⟩
  upstreamUrl := "https://a.test/x"
  clientIp := "10.0.0.1"
  path := "/proxy/https://a.test/x"
  upstreamHost := "a.test"
  startTime := 1
  response := none

end RateGuardian
