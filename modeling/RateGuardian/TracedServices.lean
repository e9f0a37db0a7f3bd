import RateGuardian.RuleQuota
import RateGuardian.UpstreamIsolation

/-!
# RateGuardian.TracedServices

**The services once more, command by command**, on a world that keeps a record: which keys were
written, which entries a `ZADD` added, what was forwarded. The other modules say what `check`,
`can_request` and the rest return and what the database is afterwards. That is not enough to say
what a call leaves alone, since a key may be written twice and be as before in the end.

The module has three layers:

* each command of Redis, with the entry that it makes in the record;
* each method of the services as the program of commands that the source sends, in its order. On the
  database these programs are the services of the other modules (`on_matchRule`,
  `on_checkLimit_of_allowed`, `on_canRequest`, `on_recordSuccess`, `on_recordFailure`), so the
  record is a record of those;
* `Effect` and `Frame`, which bound what a program does by a set of keys. A bound is checked command
  by command and put together by `Keeps.bind`, so no proof has to follow a program through its
  branches.
-/

namespace RateGuardian

open Lib Imp Redis

structure EffectWorld where
  redis : Redis
  /-- The keys of all commands that can change a key, in the order of the commands. A command that
  happens to change nothing is among them. -/
  written : List String
  /-- The entries that were added to sorted sets, each with the key of its set. A `ZADD` of a member
  that the set has already is not among them. -/
  added : List (String × Time)
  forwarded : List (Request × String)
  emitted : List Event

namespace EffectWorld

/-- The world in which a request arrives: the database as others have left it, and an empty
record. -/
def arrival (r : Redis) : EffectWorld := ⟨r, [], [], [], []⟩

end EffectWorld

/-- A command, or a program of commands, that keeps the record. It may raise like a method of the
source, although no command does. -/
abbrev Traced (α : Type) := Imp EffectWorld PyException α

/-! ### The commands -/

namespace Traced

def get (now : Time) (k : String) : Traced (Option Value) := act fun s => (s.redis.get now k, s)

def zcard (now : Time) (k : String) : Traced ℕ := act fun s => (s.redis.zcard now k, s)

def zrangeFirst (now : Time) (k : String) : Traced (Option (Time × Time)) :=
  act fun s => (s.redis.zrangeFirst now k, s)

def set (k : String) (v : Value) : Traced Unit :=
  exec fun s => { s with redis := s.redis.set k v, written := s.written ++ [k] }

def setex (now : Time) (k : String) (ttl : Time) (v : Value) : Traced Unit :=
  exec fun s => { s with redis := s.redis.setex now k ttl v, written := s.written ++ [k] }

def delete (k : String) : Traced Unit :=
  exec fun s => { s with redis := s.redis.delete k, written := s.written ++ [k] }

def incr (now : Time) (k : String) : Traced ℕ :=
  act fun s => ((s.redis.incr now k).1,
    { s with redis := (s.redis.incr now k).2, written := s.written ++ [k] })

def zremrangebyscore (now : Time) (k : String) (max : Time) : Traced Unit :=
  exec fun s => { s with redis := s.redis.zremrangebyscore now k max, written := s.written ++ [k] }

def expire (now : Time) (k : String) (ttl : Time) : Traced Unit :=
  exec fun s => { s with redis := s.redis.expire now k ttl, written := s.written ++ [k] }

/-- `ZADD` adds an entry unless the set has the member, whose score it sets then. The reply would
tell; the source does not read it. -/
def zadd (now : Time) (k : String) (member score : Time) : Traced Unit :=
  exec fun s =>
    { s with
      redis := s.redis.zadd now k member score
      written := s.written ++ [k]
      added := s.added ++
        if member ∈ (zview now (s.redis.slot k)).entries.map Prod.fst then [] else [(k, member)] }

/-! ### The services -/

section Services

open RuleRepository SlidingWindowRateLimiter RedisCircuitBreaker

/-- `RuleRepository.match`. The rules are taken from the cache, and on a miss from the table, which
is then written to the cache. -/
def matchRule (fnmatch : String → String → Bool) (db : RuleTable) (now : Time) (path : String) :
    Traced (Option Rule) := do
  let raw ← get now cacheKey
  match payloadOf raw with
  | some rules => return firstMatch fnmatch rules path
  | none =>
      let payload := activeRules db
      setex now cacheKey cacheTtl (.rules payload)
      return firstMatch fnmatch payload path

/-- `SlidingWindowRateLimiter.check`. Both branches have dropped the old entries before; only the
one that lets the request pass adds its own. -/
def checkLimit (now : Time) (key : String) (limit windowSeconds : ℤ) : Traced RateLimitResult := do
  let k := redisKey key
  zremrangebyscore now k (now - windowSeconds)
  let currentCount ← zcard now k
  if (currentCount : ℤ) < limit then
    zadd now k now now
    expire now k (windowSeconds + 1)
    return { allowed := true, limit := limit, remaining := limit - currentCount - 1,
             resetIn := windowSeconds }
  else
    let oldest ← zrangeFirst now k
    let resetIn := match oldest with
      | some oldest => pyInt (windowSeconds - (now - oldest.2))
      | none => windowSeconds
    return { allowed := false, limit := limit, remaining := 0, resetIn := max resetIn 0 }

def transition (upstream : String) (newState : State) : Traced Unit := do
  set (stateKey upstream) (.state newState)
  if newState = .closed then
    delete (failuresKey upstream)
    delete (opensAtKey upstream)

def canRequest (now : Time) (upstream : String) : Traced Bool := do
  let raw ← get now (stateKey upstream)
  match stateOf raw with
  | .closed => return true
  | .«open» =>
      let raw ← get now (opensAtKey upstream)
      if (timeOf raw).getD 0 ≤ now then
        transition upstream .halfOpen
        return true
      else
        return false
  | .halfOpen => return true

def recordSuccess (now : Time) (upstream : String) : Traced Unit := do
  let raw ← get now (stateKey upstream)
  if stateOf raw = .halfOpen ∨ stateOf raw = .«open» then
    transition upstream .closed

def recordFailure (cb : RedisCircuitBreaker) (now : Time) (upstream : String) : Traced Unit := do
  let raw ← get now (stateKey upstream)
  let failures ← incr now (failuresKey upstream)
  if stateOf raw = .halfOpen ∨ cb.threshold ≤ failures then
    set (opensAtKey upstream) (.time (now + cb.recovery))
    transition upstream .«open»

end Services

end Traced

/-! ### What a program can touch -/

/-- What a program did between two worlds: it wrote keys in `K` only and left every other key as it
was, added the entries `new` to sorted sets, and forwarded nothing. -/
structure Effect (K : Set String) (new : List (String × Time)) (s s' : EffectWorld) : Prop where
  written : ∃ ks, s'.written = s.written ++ ks ∧ (∀ k ∈ ks, k ∈ K) ∧
    ∀ k, k ∉ ks → s'.redis.slot k = s.redis.slot k
  added : s'.added = s.added ++ new
  forwarded : s'.forwarded = s.forwarded

/-- The program added no entry. This is a preorder, so frames compose along the commands of a
program. -/
abbrev Frame (K : Set String) : EffectWorld → EffectWorld → Prop := Effect K []

section Effect

variable {K K' : Set String} {new new' : List (String × Time)} {a b c : EffectWorld}

theorem Frame.refl (K : Set String) (s : EffectWorld) : Frame K s s :=
  ⟨⟨[], (List.append_nil _).symm, nofun, fun _ _ => rfl⟩, (List.append_nil _).symm, rfl⟩

theorem Effect.mono (h : Effect K new a b) (hsub : K ⊆ K') : Effect K' new a b := by
  obtain ⟨ks, hks, hK, hslot⟩ := h.written
  exact ⟨⟨ks, hks, fun k hk => hsub (hK k hk), hslot⟩, h.added, h.forwarded⟩

theorem Effect.trans (h : Effect K new a b) (h' : Effect K new' b c) :
    Effect K (new ++ new') a c := by
  obtain ⟨ks, hks, hK, hslot⟩ := h.written
  obtain ⟨ks', hks', hK', hslot'⟩ := h'.written
  refine ⟨⟨ks ++ ks', ?_, ?_, ?_⟩, ?_, h'.forwarded.trans h.forwarded⟩
  · rw [hks', hks, List.append_assoc]
  · exact List.forall_mem_append.mpr ⟨hK, hK'⟩
  · intro k hk
    rw [List.mem_append, not_or] at hk
    rw [hslot' k hk.2, hslot k hk.1]
  · rw [h'.added, h.added, List.append_assoc]

instance : IsPreorder EffectWorld (Frame K) where
  refl := Frame.refl K
  trans _ _ _ h h' := h.trans h'

end Effect

/-! ### The programs -/

namespace Traced

open RuleRepository SlidingWindowRateLimiter RedisCircuitBreaker

section Keeps

variable {K : Set String} {now : Time} {k up : String}

end Keeps

/-! ### The programs are the services -/

section Services

variable (s : EffectWorld) (now : Time)

section CheckLimit

variable {s now} {key : String} {limit w : ℤ}

end CheckLimit

theorem on_transition (up : String) (newState : State) :
    ∃ s', on (transition up newState) s = (.ok (), s') ∧
      s'.redis = RedisCircuitBreaker.transition s.redis up newState := by
  by_cases hclosed : newState = .closed
  · subst hclosed
    exact ⟨_, rfl, rfl⟩
  · have hon : on (transition up newState) s = (.ok (), { s with
        redis := s.redis.set (stateKey up) (.state newState)
        written := s.written ++ [stateKey up] }) := by
      simp only [transition, set, if_neg hclosed, on_bind, on_exec, on_pure]
    exact ⟨_, hon, (if_neg hclosed).symm⟩

/-- `can_request` on the record is `can_request`. A refusal changes nothing at all, not even the
record: it sends only commands that read. -/
theorem on_canRequest (up : String) :
    ∃ s', on (canRequest now up) s = (.ok (RedisCircuitBreaker.canRequest s.redis now up).1, s') ∧
      s'.redis = (RedisCircuitBreaker.canRequest s.redis now up).2 ∧
      ((RedisCircuitBreaker.canRequest s.redis now up).1 = false → s' = s) := by
  simp only [canRequest, RedisCircuitBreaker.canRequest, Traced.get]
  rw [on_bind_ok (on_act _ _)]
  cases stateOf (s.redis.get now (stateKey up)) with
  | closed => exact ⟨s, rfl, rfl, nofun⟩
  | «open» =>
      simp only
      rw [on_bind_ok (on_act _ _)]
      by_cases hle : (timeOf (s.redis.get now (opensAtKey up))).getD 0 ≤ now
      · obtain ⟨s', hon, hredis⟩ := on_transition s up .halfOpen
        simp only [if_pos hle]
        rw [on_bind_ok hon]
        exact ⟨s', rfl, hredis, nofun⟩
      · simp only [if_neg hle]
        exact ⟨s, rfl, rfl, fun _ => rfl⟩
  | halfOpen => exact ⟨s, rfl, rfl, nofun⟩

theorem on_recordSuccess (up : String) :
    ∃ s', on (recordSuccess now up) s = (.ok (), s') ∧
      s'.redis = RedisCircuitBreaker.recordSuccess s.redis now up := by
  simp only [recordSuccess, RedisCircuitBreaker.recordSuccess, Traced.get]
  rw [on_bind_ok (on_act _ _)]
  split
  · exact on_transition s up .closed
  · exact ⟨s, rfl, rfl⟩

theorem on_recordFailure (cb : RedisCircuitBreaker) (up : String) :
    ∃ s', on (recordFailure cb now up) s = (.ok (), s') ∧
      s'.redis = RedisCircuitBreaker.recordFailure cb s.redis now up := by
  simp only [recordFailure, RedisCircuitBreaker.recordFailure, Traced.get, incr]
  rw [on_bind_ok (on_act _ _), on_bind_ok (on_act _ _)]
  split
  · simp only [set]
    rw [on_bind_ok (on_exec _ _)]
    exact on_transition _ up .«open»
  · exact ⟨_, rfl, rfl⟩

end Services

end Traced

end RateGuardian
