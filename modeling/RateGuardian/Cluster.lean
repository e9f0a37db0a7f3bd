import RateGuardian.SharedFaults
import RateGuardian.UpstreamIsolation
import RateGuardian.Pipeline

/-!
# RateGuardian.Cluster

**Several gateway processes on one Redis, whole requests, one command at a time.** A process runs
a request through `RateLimitStep` and `CircuitBreakerStep` without giving way to its other
requests, and again from the answer of the upstream on; the commands of different processes
interleave. An exception may end such a stretch, and a process may die.

What the processes do to the circuit of one upstream is a run of the breaker's protocol of
`RateGuardian.SharedFaults`, and what they do to one limiter key is a run of the limiter's. So the
results about the protocols hold of whole gateways.

Nothing is assumed of the clock but that it does not go back. In particular two calls of `check` may
take the same reading, for one key or for two, and the second `ZADD` then replaces the entry of the
first. The results that count admissions by their readings say so in a hypothesis of their own.
-/

namespace RateGuardian

open Lib Redis RedisCircuitBreaker SlidingWindowRateLimiter

/-! ### One process -/

/-- The next command of a `check`, and the point it leads to. Which branch the call takes is decided
by the reply of `ZCARD`. -/
def CheckPoint.command (key : String) (limit w : ℤ) (now : Time) (r : Redis) :
    CheckPoint → CheckPoint × Redis
  | .idle => (.idle, r)
  | .started t => (.pruned t, r.zremrangebyscore now (redisKey key) (t - w))
  | .pruned t => (if (r.zcard now (redisKey key) : ℤ) < limit then .letIn t else .turnedAway t, r)
  | .letIn t => (.added t, r.zadd now (redisKey key) t t)
  | .added _ => (.idle, r.expire now (redisKey key) (w + 1))
  | .turnedAway _ => (.idle, r)

/-- Where a process stands between two of its awaits. In such a stretch it sends one command after
another and does nothing for its other requests. -/
inductive Stretch
  | idle
  /-- `RateLimitStep`, of a request to the upstream `up` that the rule applies to. -/
  | checking (rule : Rule) (client up : String) (p : CheckPoint)
  /-- `CircuitBreakerStep`, in the call of `can_request`. -/
  | asking (up : String) (p : BreakerPoint)
  /-- `ProxyStep`, in the `try`, after the response of the upstream: in `record_success`. -/
  | succeeding (up : String) (p : BreakerPoint)
  /-- `ProxyStep`, in the handler: in `record_failure`. -/
  | failing (up : String) (p : BreakerPoint)
  deriving DecidableEq

namespace Stretch

/-- The call of the breaker that the process is in, if it is one for `up`. -/
def callAt (up : String) : Stretch → Option BreakerPoint
  | .asking u p | .succeeding u p | .failing u p => if u = up then some p else none
  | _ => none

/-- Where the process stands in the `check` of a key, or at rest if it is in none of that key. -/
def checkAt (key : String) : Stretch → CheckPoint
  | .checking rule client _ p => if rateLimitKey rule client = key then p else .idle
  | _ => .idle

/-- A command is to come, so the process can be interrupted before it. -/
def busy : Stretch → Bool
  | .idle => false
  | .checking .. => true
  | .asking _ p | .succeeding _ p | .failing _ p => p.busy

/-- The next command. A call that the limiter lets in goes on to the breaker. -/
def command (cb : RedisCircuitBreaker) (now : Time) (r : Redis) : Stretch → Stretch × Redis
  | .idle => (.idle, r)
  | .checking rule client up p =>
      let (p', r) := p.command (rateLimitKey rule client) rule.limit rule.windowSeconds now r
      (match p with
        | .added _ => .asking up .asking
        | .turnedAway _ => .idle
        | _ => .checking rule client up p', r)
  | .asking up p =>
      let (p, r) := p.command cb up now r
      (.asking up p, r)
  | .succeeding up p =>
      let (p, r) := p.command cb up now r
      (.succeeding up p, r)
  | .failing up p =>
      let (p, r) := p.command cb up now r
      (.failing up p, r)

/-- The `check` that the next command makes return `allowed=True`, with its key and its reading. -/
def passes : Stretch → Option (String × Time)
  | .checking rule client _ (.added t) => some (rateLimitKey rule client, t)
  | _ => none

/-- An exception: `ProxyStep` handles it by recording a failure, and nobody else handles one. -/
def raised : Stretch → Stretch
  | .succeeding up _ => .failing up .failing
  | _ => .idle

end Stretch

/-! ### The cluster -/

structure Cluster (n : ℕ) where
  clock : Time
  redis : Redis
  proc : Fin n → Stretch
  /-- The requests that await `forward`, each at its process. They can be any number. -/
  inFlight : List (Fin n × String)
  /-- The readings taken for each limiter key, one for each call of `check`. -/
  readings : List (String × Time)
  /-- The calls of `check` that returned `allowed=True`, by key and reading. -/
  passed : List (String × Time)

namespace Cluster

variable {n : ℕ}

def initial (n : ℕ) (t₀ : Time) : Cluster n := ⟨t₀, .empty, fun _ => .idle, [], [], []⟩

/-- Process `i` executes its next command. -/
def advance (cb : RedisCircuitBreaker) (s : Cluster n) (i : Fin n) : Cluster n :=
  let (st, r) := (s.proc i).command cb s.clock s.redis
  { s with redis := r, proc := Function.update s.proc i st,
           passed := s.passed ++ (s.proc i).passes.toList }

/-- Process `i` moves on without a command, as when a request arrives or is answered. -/
def jump (s : Cluster n) (i : Fin n) (st : Stretch) : Cluster n :=
  { s with proc := Function.update s.proc i st }

end Cluster

inductive ClusterEvent (n : ℕ)
  | tick (now : Time)
  /-- A request comes to process `i`; `match` finds a rule for it, or none. -/
  | arrive (i : Fin n) (rule : Option Rule) (client up : String)
  | command (i : Fin n)
  /-- The request is forwarded, and the process turns to other requests. -/
  | forward (i : Fin n) (up : String)
  /-- The request is answered, and the process turns to other requests. -/
  | answer (i : Fin n)
  /-- `forward` returns or raises, and the process goes on with that request. -/
  | complete (i : Fin n) (up : String) (ok : Bool)
  | raise (i : Fin n)
  | crash (i : Fin n)
  /-- Somebody writes to other keys: `match`, the routes of the rules, another service. -/
  | others
  deriving DecidableEq

/-- The keys of the limiter and of the breaker. -/
def gatewayKeys : Set String := {k | (∃ key, k = redisKey key) ∨ ∃ up, k ∈ breakerKeys up}

/-- One step of a cluster whose requests meet the rules of `table`. -/
inductive ClusterStep {n : ℕ} (cb : RedisCircuitBreaker) (table : List Rule) :
    Cluster n → ClusterEvent n → Cluster n → Prop
  | tick {s : Cluster n} (now : Time) (hle : s.clock ≤ now) :
      ClusterStep cb table s (.tick now) { s with clock := now }
  /-- `now = time.time()`. -/
  | arrive {s : Cluster n} (i : Fin n) (rule : Rule) (client up : String) (hi : s.proc i = .idle)
      (hrule : rule ∈ table) :
      ClusterStep cb table s (.arrive i (some rule) client up)
        { s.jump i (.checking rule client up (.started s.clock)) with
          readings := s.readings ++ [(rateLimitKey rule client, s.clock)] }
  | arriveFree {s : Cluster n} (i : Fin n) (client up : String) (hi : s.proc i = .idle) :
      ClusterStep cb table s (.arrive i none client up) (s.jump i (.asking up .asking))
  | command {s : Cluster n} (i : Fin n) (hi : (s.proc i).busy = true) :
      ClusterStep cb table s (.command i) (s.advance cb i)
  | forward {s : Cluster n} (i : Fin n) (up : String)
      (hi : s.proc i = .asking up (.done (some true))) :
      ClusterStep cb table s (.forward i up)
        { s.jump i .idle with inFlight := s.inFlight ++ [(i, up)] }
  /-- With 503, with the response of the upstream, or with 502. -/
  | answer {s : Cluster n} (i : Fin n) (up : String)
      (hi : s.proc i = .asking up (.done (some false)) ∨ s.proc i = .succeeding up (.done none) ∨
        s.proc i = .failing up (.done none)) :
      ClusterStep cb table s (.answer i) (s.jump i .idle)
  | complete {s : Cluster n} (i : Fin n) (up : String) (ok : Bool) (hi : s.proc i = .idle)
      (hin : (i, up) ∈ s.inFlight) :
      ClusterStep cb table s (.complete i up ok)
        { s.jump i (if ok then .succeeding up .succeeding else .failing up .failing) with
          inFlight := s.inFlight.erase (i, up) }
  | raise {s : Cluster n} (i : Fin n) (hi : s.proc i ≠ .idle) :
      ClusterStep cb table s (.raise i) (s.jump i (s.proc i).raised)
  | crash {s : Cluster n} (i : Fin n) :
      ClusterStep cb table s (.crash i)
        { s.jump i .idle with inFlight := s.inFlight.filter fun f => f.1 ≠ i }
  | others {s : Cluster n} (r : Redis) (hkeys : AgreeOn gatewayKeys s.redis r) :
      ClusterStep cb table s .others { s with redis := r }

abbrev ClusterTransition (n : ℕ) := Transition (Cluster n) (ClusterEvent n)

/-! ### What is seen of a run -/

/-- `record_failure` reads the clock to open the circuit of `up`. The commands that write the
deadline and the state come after that, if the call gets as far. -/
def TripsAt {n : ℕ} (up : String) (t : ClusterTransition n) : Prop :=
  ∃ i, t.label = .command i ∧ (t.pre.proc i).callAt up = some .tripping

/-- `can_request` returns False, at the command that has found the circuit open and not
recovered. -/
def RefusesAt {n : ℕ} (up : String) (t : ClusterTransition n) : Prop :=
  ∃ i, t.label = .command i ∧ (t.post.proc i).callAt up = some (.done (some false))

def tallyStepAt {n : ℕ} (up : String) (k : ℕ) (t : ClusterTransition n) : ℕ :=
  match t.label with
  | .command i => (((t.pre.proc i).callAt up).map (BreakerPoint.tally k)).getD k
  | _ => k

/-- The `INCR`s of the failure counter of `up` since it was last deleted. -/
def tallyAt {n : ℕ} (up : String) (tr : List (ClusterTransition n)) : ℕ :=
  tr.foldl (tallyStepAt up) 0

/-- The times recorded for a key, in the order of the calls. -/
def timesOf (key : String) (l : List (String × Time)) : List Time :=
  (l.filter fun e => e.1 = key).map Prod.snd

/-! ### Two processes -/

/-- One request a minute, from anybody. -/
def perMinute : Rule :=
  { id := 1, name := "all", pathPattern := "/*", limit := 1, windowSeconds := 60,
    keyType := .global, active := true, createdAt := 0 }

/-- Two processes let a request each pass at once. One is answered by a failure, which opens the
circuit; a request at 10 is refused. No call breaks off, and none is in a `check` at the end. -/
theorem two_processes_cluster : ∃ tr t s,
    Run (ClusterStep ⟨1, 30⟩ [perMinute]) (.initial 2 0) (tr ++ [t]) s ∧ RefusesAt "svc" t ∧
      timesOf "global" s.passed = [0, 1] ∧ (timesOf "global" s.readings).Nodup ∧
        s.redis.zcard s.clock (redisKey "global") = 2 ∧
        (∀ u ∈ tr ++ [t], ∀ i, u.label ≠ .raise i ∧ u.label ≠ .crash i) ∧
        ∀ i, (s.proc i).checkAt "global" = .idle := by
  have hmem : perMinute ∈ [perMinute] := List.mem_singleton_self _
  refine ⟨_, _, _, .snoc (.snoc (.snoc (.snoc (.snoc (.snoc (.snoc (.snoc (.snoc (.snoc (.snoc
    (.snoc (.snoc (.snoc (.snoc (.snoc (.snoc (.snoc (.snoc (.snoc (.snoc (.snoc (.snoc (.snoc
    (.snoc (.snoc (.snoc .nil
    (.arrive 0 perMinute "10.0.0.1" "svc" ?_ hmem)) (.command 0 ?_)) (.tick 1 ?_))
    (.arrive 1 perMinute "10.0.0.2" "svc" ?_ hmem)) (.command 1 ?_)) (.command 0 ?_))
    (.command 1 ?_)) (.command 0 ?_)) (.command 1 ?_)) (.command 0 ?_)) (.command 1 ?_))
    (.command 0 ?_)) (.forward 0 "svc" ?_)) (.command 1 ?_)) (.forward 1 "svc" ?_))
    (.complete 0 "svc" false ?_ ?_)) (.command 0 ?_)) (.command 0 ?_)) (.command 0 ?_))
    (.command 0 ?_)) (.command 0 ?_)) (.answer 0 "svc" ?_)) (.tick 10 ?_))
    (.arriveFree 0 "10.0.0.1" "svc" ?_)) (.command 0 ?_)) (.command 0 ?_)) (.command 0 ?_),
    ⟨0, rfl, ?_⟩, ?_, ?_, ?_, ?_, ?_⟩
  all_goals decide +kernel

end RateGuardian
