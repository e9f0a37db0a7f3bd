import RateGuardian.Pipeline
import RateGuardian.Lib.Run
import RateGuardian.Lib.Window

/-!
# RateGuardian.RuleQuota

**Rate limiting as the gateway does it**: `RateLimitStep` on one Redis database, with rules
from the cached table and a limiter key that is the client's address or the word `global`.

The key does not name the rule. Requests that different rules apply to are checked against
one sorted set, each with the limit and the window of its own rule, and every check prunes
the set and sets the deadline of the key for the window it was given.

`rateLimit_slot` says what one request does to the sorted set of a key. `Checked` is the part
of a check that later requests can see.
-/

namespace RateGuardian

open Lib Imp Redis RuleRepository SlidingWindowRateLimiter

/-! ### The step on one database

The services of the step are the real ones here, on one Redis database: the rules come from the
cache or the table, and the limiter checks its sorted set. -/

structure GatewayWorld where
  redis : Redis
  emitted : List Event

namespace GatewayWorld

def initial : GatewayWorld := ⟨.empty, []⟩

def slot (s : GatewayWorld) (key : String) : Slot Time Value := s.redis.slot (redisKey key)

end GatewayWorld

/-- A request with its readings of the two clocks. -/
structure LimitedRequest where
  ctx : PipelineContext
  now : Time
  monotonic : Time
  deriving DecidableEq

section Gateway

variable (http : Starlette) (fnmatch : String → String → Bool) (db : RuleTable)

def ruleSource (now : Time) : RuleSource GatewayWorld where
  findRule path := act fun s =>
    let (rule, redis) := RuleRepository.match fnmatch db s.redis now path
    (rule, { s with redis := redis })

def slidingWindow (now : Time) : RateLimiterBase GatewayWorld where
  check key limit w := act fun s =>
    let (result, redis) := check s.redis now key limit w
    (result, { s with redis := redis })

def eventLog : EventManager GatewayWorld where
  emit event := exec fun s => { s with emitted := s.emitted ++ [event] }

/-- The step returned no response, so that the request goes on to the next step. -/
def letThrough : Except PyException (Option Response) → Bool
  | .ok none => true
  | _ => false

/-- One request through `RateLimitStep`: whether it is let through, and the state after. -/
def rateLimit (s : GatewayWorld) (req : LimitedRequest) : Bool × GatewayWorld :=
  let (result, s') := on (RateLimitStep.execute http eventLog (ruleSource fnmatch db req.now)
    (slidingWindow req.now) req.monotonic req.ctx) s
  (letThrough result, s')

/-- The rule that applies to a path: the first match among the active rules of the table. -/
def assigned (path : String) : Option Rule := firstMatch fnmatch (activeRules db) path

/-- Whatever rules the cache holds, at any reading, are the active rules of the table. -/
def CacheSound (r : Redis) : Prop :=
  ∀ now payload, loadFromCache r now = some payload → payload = activeRules db

variable {http fnmatch db}

/-! ### What one request does -/

theorem cacheKey_ne_redisKey (key : String) : cacheKey ≠ redisKey key := by
  intro h
  have hlist := congrArg (fun s => s.toList.take 5) h
  simp [cacheKey, redisKey] at hlist

theorem cacheSound_empty : CacheSound db .empty := by
  intro now payload hget
  simp at hget

/-- Loading the rules yields the active rules of the table, and leaves the keys of the limiter
alone. -/
theorem load_spec {r : Redis} (h : CacheSound db r) (now : Time) :
    (load db r now).1 = activeRules db ∧ CacheSound db (load db r now).2 ∧
      ∀ key, (load db r now).2.slot (redisKey key) = r.slot (redisKey key) := by
  unfold load
  cases hget : loadFromCache r now with
  | some payload => exact ⟨h now payload hget, h, fun _ => rfl⟩
  | none =>
      refine ⟨rfl, ?_, ?_⟩
      · intro now' payload hget'
        exact payload_of_fillCache hget'
      · intro key
        exact slot_setex_of_ne _ (cacheKey_ne_redisKey key).symm _ _

theorem match_spec {r : Redis} (h : CacheSound db r) (now : Time) (path : String) :
    (RuleRepository.match fnmatch db r now path).1 = assigned fnmatch db path ∧
      CacheSound db (RuleRepository.match fnmatch db r now path).2 ∧
      ∀ key, (RuleRepository.match fnmatch db r now path).2.slot (redisKey key) =
        r.slot (redisKey key) := by
  obtain ⟨hrules, hsound, hslot⟩ := load_spec h now
  refine ⟨?_, hsound, hslot⟩
  show firstMatch fnmatch (load db r now).1 path = _
  rw [hrules, assigned]

theorem cacheSound_check {r : Redis} (h : CacheSound db r) (now : Time) (key : String)
    (limit w : ℤ) : CacheSound db (check r now key limit w).2 := by
  intro now' payload hget
  have hslot : (check r now key limit w).2.slot cacheKey = r.slot cacheKey :=
    slot_check_of_ne (cacheKey_ne_redisKey key)
  rw [loadFromCache, Redis.get, hslot] at hget
  exact h now' payload hget

/-- Where no rule applies, the request is let through and no key of the limiter is touched. -/
theorem rateLimit_of_none {s : GatewayWorld} {req : LimitedRequest}
    (h : (RuleRepository.match fnmatch db s.redis req.now req.ctx.path).1 = none) :
    rateLimit http fnmatch db s req =
      (true, { s with redis :=
        (RuleRepository.match fnmatch db s.redis req.now req.ctx.path).2 }) := by
  simp [rateLimit, RateLimitStep.execute, ruleSource, on_bind, h, letThrough]

/-- Where a rule applies, the request is let through exactly if the check of that rule allows it. -/
theorem rateLimit_of_some {s : GatewayWorld} {req : LimitedRequest} {rule : Rule}
    (h : (RuleRepository.match fnmatch db s.redis req.now req.ctx.path).1 = some rule) :
    (rateLimit http fnmatch db s req).1 =
      (check (RuleRepository.match fnmatch db s.redis req.now req.ctx.path).2 req.now
        (rateLimitKey rule req.ctx.clientIp) rule.limit rule.windowSeconds).1.allowed ∧
    (rateLimit http fnmatch db s req).2.redis =
      (check (RuleRepository.match fnmatch db s.redis req.now req.ctx.path).2 req.now
        (rateLimitKey rule req.ctx.clientIp) rule.limit rule.windowSeconds).2 := by
  cases hallowed : (check (RuleRepository.match fnmatch db s.redis req.now req.ctx.path).2 req.now
      (rateLimitKey rule req.ctx.clientIp) rule.limit rule.windowSeconds).1.allowed with
  | true =>
      simp [rateLimit, RateLimitStep.execute, ruleSource, slidingWindow, on_bind, h, hallowed,
        letThrough]
  | false =>
      simp [rateLimit, RateLimitStep.execute, ruleSource, slidingWindow, eventLog, on_bind, on_map,
        h, hallowed, letThrough]

/-! ### What later requests can see of a check -/

/-- A check with the given limit and window turned the sorted set `s` into `s'`. -/
structure Checked (now : Time) (limit w : ℤ) (s : Slot Time Value) (allowed : Bool)
    (s' : Slot Time Value) : Prop where
  isZset : IsZset s'
  allowed_iff : allowed = true ↔ ((window now w s).card : ℤ) < limit
  of_allowed : allowed = true → ∀ now', zview now' s' =
    if now' < now + (w + 1) then (window now w s).add now now else .empty
  of_rejected : allowed = false → ∀ now', now ≤ now' →
    zview now' s' = (zview now' s).removeUpTo (now - w)

theorem checked_check {r : Redis} {now : Time} {key : String} {limit w : ℤ}
    (hs : IsZset (r.slot (redisKey key))) :
    Checked now limit w (r.slot (redisKey key)) (check r now key limit w).1.allowed
      ((check r now key limit w).2.slot (redisKey key)) := by
  have hiff := @check_allowed_iff r now key limit w hs
  refine ⟨isZset_check hs, hiff, ?_, ?_⟩
  · intro h now'
    exact zview_check_of_lt hs (hiff.mp h) now'
  · intro h now' hle
    refine zview_check_of_not_lt hs ?_ hle
    rw [← hiff, h]
    decide

/-- **One request and one key.** It is checked against the key, with the limit and window of
its rule, or it leaves the key alone. -/
theorem rateLimit_slot {s : GatewayWorld} (h : CacheSound db s.redis) (req : LimitedRequest)
    (key : String) (hs : IsZset (s.slot key)) :
    CacheSound db (rateLimit http fnmatch db s req).2.redis ∧
    ((∀ rule, assigned fnmatch db req.ctx.path = some rule →
        rateLimitKey rule req.ctx.clientIp ≠ key) ∧
      (rateLimit http fnmatch db s req).2.slot key = s.slot key ∨
    ∃ rule, assigned fnmatch db req.ctx.path = some rule ∧
      rateLimitKey rule req.ctx.clientIp = key ∧
      Checked req.now rule.limit rule.windowSeconds (s.slot key)
        (rateLimit http fnmatch db s req).1 ((rateLimit http fnmatch db s req).2.slot key)) := by
  obtain ⟨hrule, hsound, hslot⟩ := @match_spec fnmatch db s.redis h req.now req.ctx.path
  cases hassigned : assigned fnmatch db req.ctx.path with
  | none =>
      rw [rateLimit_of_none (hrule.trans hassigned)]
      exact ⟨hsound, Or.inl ⟨nofun, hslot key⟩⟩
  | some rule =>
      obtain ⟨hans, hredis⟩ := @rateLimit_of_some http fnmatch db s req rule (hrule.trans hassigned)
      refine ⟨by rw [hredis]; exact cacheSound_check hsound _ _ _ _, ?_⟩
      by_cases hkey : rateLimitKey rule req.ctx.clientIp = key
      · right
        refine ⟨rule, rfl, hkey, ?_⟩
        rw [hans, GatewayWorld.slot, GatewayWorld.slot, hredis, hkey, ← hslot key]
        refine checked_check ?_
        rw [hslot key]
        exact hs
      · left
        refine ⟨fun rule' hrule' => by cases hrule'; exact hkey, ?_⟩
        rw [GatewayWorld.slot, hredis, slot_check_of_ne (fun heq => hkey ?_), hslot key]
        · rfl
        · exact (redisKey_inj.mp heq).symm

end Gateway

end RateGuardian
