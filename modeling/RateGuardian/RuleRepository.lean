import RateGuardian.Redis

/-!
# RateGuardian.RuleRepository

**The rules and their cache**, `RuleRepository` of `app/models/repositories/rule_repository.py`: the
`rules` table and the cache of its active rows under one Redis key. `fnmatch` is a parameter of
everything that matches paths.

The table is the list of its rows by primary key. Only rows are modelled that a query returns;
sessions and `refresh` add nothing to them.
-/

namespace RateGuardian

open Lib Redis

abbrev RuleTable := List Rule

/-! ### Writing -/

/-- What the three writers commit: a new row, the flag of a row, or that a row is gone. -/
inductive Write
  | create (rule : Rule)
  | setActive (id : ℕ) (active : Bool)
  | delete (id : ℕ)
  deriving DecidableEq

def Write.commit : Write → RuleTable → RuleTable
  | .create rule, db => db ++ [rule]
  | .setActive id active, db => db.map fun r => if r.id = id then { r with active := active } else r
  | .delete id, db => db.filter fun r => r.id ≠ id

/-! ### Reading -/

namespace RuleRepository

def cacheKey : String := "rg:rules:all"

/-- The time for which a fill is cached, in seconds. -/
def cacheTtl : Time := 60

/-- The query of `_load_into_cache`: active rows by creation time. -/
def activeRules (db : RuleTable) : List Rule :=
  (db.filter (·.active)).insertionSort fun a b => a.createdAt ≤ b.createdAt

/-- What a reply to `GET` is to `_load_from_cache`: the rules that were cached, or a miss. -/
def payloadOf : Option Value → Option (List Rule)
  | some (.rules payload) => some payload
  | _ => none

/-- `_load_from_cache` at the reading `now`. -/
def loadFromCache (r : Redis) (now : Time) : Option (List Rule) := payloadOf (r.get now cacheKey)

/-- The `SETEX` of `_load_into_cache`, which gives the key a new value and a new deadline. -/
def fillCache (r : Redis) (now : Time) (payload : List Rule) : Redis :=
  r.setex now cacheKey cacheTtl (.rules payload)

/-- `_load_into_cache`: the query and the fill, with the rules as the result. -/
def loadIntoCache (db : RuleTable) (r : Redis) (now : Time) : List Rule × Redis :=
  let payload := activeRules db
  (payload, fillCache r now payload)

/-- `_invalidate_cache`, with Redis available. -/
def invalidateCache (r : Redis) : Redis := r.delete cacheKey

/-- The rules one `match` evaluates: from the cache, or from the table on a miss. -/
def load (db : RuleTable) (r : Redis) (now : Time) : List Rule × Redis :=
  match loadFromCache r now with
  | some rules => (rules, r)
  | none => loadIntoCache db r now

/-- The loop of `match`: the first of the rules that is active and whose pattern matches
the path. -/
def firstMatch (fnmatch : String → String → Bool) (rules : List Rule) (path : String) :
    Option Rule :=
  rules.find? fun rule => rule.active && fnmatch path rule.pathPattern

end RuleRepository

/-- `RuleRepository.match` at the reading `now`. -/
def RuleRepository.match (fnmatch : String → String → Bool) (db : RuleTable) (r : Redis)
    (now : Time) (path : String) : Option Rule × Redis :=
  let (rules, r) := load db r now
  (firstMatch fnmatch rules path, r)

namespace RuleRepository

/-! ### What the cache holds -/

@[simp] theorem loadFromCache_empty (now : Time) : loadFromCache .empty now = none := rfl

@[simp] theorem loadFromCache_invalidateCache (r : Redis) (now : Time) :
    loadFromCache (invalidateCache r) now = none := by
  simp [loadFromCache, invalidateCache, Redis.get, payloadOf]

/-- After a fill the cache holds the payload, until the key expires. -/
theorem loadFromCache_fillCache (r : Redis) (now now' : Time) (payload : List Rule) :
    loadFromCache (fillCache r now payload) now' =
      if now' < now + cacheTtl then some payload else none := by
  simp only [loadFromCache, fillCache, Redis.get, slot_setex_self, Slot.putEx, Slot.read,
    Slot.live_some, Slot.alive]
  by_cases h : now' < now + cacheTtl
  · simp [h, payloadOf]
  · simp [h, payloadOf]

theorem payload_of_fillCache {r : Redis} {now now' : Time} {payload payload' : List Rule}
    (h : loadFromCache (fillCache r now payload) now' = some payload') : payload' = payload := by
  rw [loadFromCache_fillCache] at h
  split at h
  · exact (Option.some.inj h).symm
  · cases h

end RuleRepository

end RateGuardian
