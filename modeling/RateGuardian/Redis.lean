import RateGuardian.Lib.Keyspace
import RateGuardian.Lib.SortedSet
import Mathlib.Data.Rat.Floor

/-!
# RateGuardian.Redis

The shared Redis database of the gateway (`app/core/redis_client.py`), as the commands
its services issue. The rate limiter, the circuit breaker and the rule cache all write to
**one keyspace** with string keys, so whether they interfere is a question about key strings.

Design points:

* Times are exact rationals. `time.time()` readings and `EXPIRE` deadlines are on one clock,
  and every command names the reading it executes at; a key is gone from its deadline on.
* A string value is represented by what its writer encoded (`str`, `repr`, `json.dumps`) and
  its reader decodes; the encodings round-trip, so nothing is lost. The ZSET members the
  limiter writes are `str(now)`, represented by the reading itself.
* A command on a key that holds another type of value leaves it alone. Redis answers
  `WRONGTYPE` there; the key prefixes of the three services keep them from meeting it.
-/

namespace RateGuardian

open Lib

/-- A reading of `time.time()`: seconds since the epoch, exactly. -/
abbrev Time := ℚ

/-! ### What the services store

One type for all values, so that a key of one service could hold a value of another. That it does
not is a result about the prefixes and not a matter of types. -/

inductive KeyType
  | ip
  | global
  deriving Repr, DecidableEq

/-- A rate-limiting rule (`app/models/rule.py`), applied to requests whose path matches
`pathPattern`. -/
structure Rule where
  id : ℕ
  name : String
  pathPattern : String
  limit : ℤ
  windowSeconds : ℤ
  keyType : KeyType
  active : Bool
  createdAt : Time
  deriving DecidableEq

/-- The circuit states, `_CLOSED`, `_OPEN` and `_HALF_OPEN`. -/
inductive State
  | closed
  | «open»
  | halfOpen
  deriving Repr, DecidableEq

/-- A Redis value, by what was written: a circuit state name, an `INCR` counter, a float
clock reading, the JSON payload of the rule cache, or a sorted set of written readings. -/
inductive Value
  | state (s : State)
  | counter (n : ℕ)
  | time (t : Time)
  | rules (payload : List Rule)
  | zset (z : SortedSet Time Time)

structure Redis where
  slot : Keyspace String Time Value

namespace Redis

def empty : Redis := ⟨fun _ => none⟩

def modify (r : Redis) (k : String) (f : Slot Time Value → Slot Time Value) : Redis :=
  ⟨r.slot.modify k f⟩

@[simp] theorem slot_modify_self (r : Redis) (k : String) (f : Slot Time Value → Slot Time Value) :
    (r.modify k f).slot k = f (r.slot k) := by
  simp [modify]

@[simp] theorem slot_modify_of_ne (r : Redis) {k k' : String}
    (f : Slot Time Value → Slot Time Value) (h : k' ≠ k) :
    (r.modify k f).slot k' = r.slot k' := by
  simp [modify, h]

/-! ### String commands -/

def get (r : Redis) (now : Time) (k : String) : Option Value := Slot.read now (r.slot k)

/-- `SET key value`. The key has the new value, and loses any deadline it had. -/
def set (r : Redis) (k : String) (v : Value) : Redis := r.modify k (fun _ => Slot.put v)

def setex (r : Redis) (now : Time) (k : String) (ttl : Time) (v : Value) : Redis :=
  r.modify k (fun _ => Slot.putEx now ttl v)

def delete (r : Redis) (k : String) : Redis := r.modify k (fun _ => none)

/-- The value a counter has for `INCR`: a missing key counts as 0. -/
def countOf : Option Value → ℕ
  | some (.counter n) => n
  | _ => 0

/-- `INCR key`: the new value, and the database that holds it. -/
def incr (r : Redis) (now : Time) (k : String) : ℕ × Redis :=
  (countOf (r.get now k) + 1,
    r.modify k (Slot.update now fun
      | none => some (.counter 1)
      | some (.counter n) => some (.counter (n + 1))
      | other => other))

/-! ### Sorted-set commands

The ones that write are functions of a slot first, so that what they leave in it can be said without
a database around it. -/

/-- The sorted set a command sees under a key: a missing key counts as empty. -/
def zsetOf : Option Value → SortedSet Time Time
  | some (.zset z) => z
  | _ => .empty

def zview (now : Time) (s : Slot Time Value) : SortedSet Time Time := zsetOf (Slot.read now s)

/-- What is stored for a sorted set: one that lost its last member is deleted with its key. -/
def storeZset (z : SortedSet Time Time) : Option Value :=
  if z.card = 0 then none else some (.zset z)

/-- `ZREMRANGEBYSCORE key -inf max` on a slot. The deadline of the key stays. -/
def zremSlot (now max : Time) : Slot Time Value → Slot Time Value :=
  Slot.update now fun
    | some (.zset z) => storeZset (z.removeUpTo max)
    | other => other

/-- `ZADD key score member` on a slot. A member that is there already gets the new score. -/
def zaddSlot (now member score : Time) : Slot Time Value → Slot Time Value :=
  Slot.update now fun
    | none => some (.zset (SortedSet.empty.add member score))
    | some (.zset z) => some (.zset (z.add member score))
    | other => other

def zremrangebyscore (r : Redis) (now : Time) (k : String) (max : Time) : Redis :=
  r.modify k (zremSlot now max)

def zcard (r : Redis) (now : Time) (k : String) : ℕ := (zview now (r.slot k)).card

def zadd (r : Redis) (now : Time) (k : String) (member score : Time) : Redis :=
  r.modify k (zaddSlot now member score)

/-- `ZRANGE key 0 0 WITHSCORES`: the oldest member, if any. -/
def zrangeFirst (r : Redis) (now : Time) (k : String) : Option (Time × Time) :=
  (zview now (r.slot k)).first

def expire (r : Redis) (now : Time) (k : String) (ttl : Time) : Redis :=
  r.modify k (Slot.expire now ttl)

/-! ### Frame rules: a command touches its own key only -/

section Frame

variable (r : Redis) {now : Time} {k k' : String} (h : k' ≠ k)
include h

@[simp] theorem slot_set_of_ne (v : Value) : (r.set k v).slot k' = r.slot k' :=
  slot_modify_of_ne _ _ h

@[simp] theorem slot_setex_of_ne (ttl : Time) (v : Value) :
    (r.setex now k ttl v).slot k' = r.slot k' :=
  slot_modify_of_ne _ _ h

@[simp] theorem slot_delete_of_ne : (r.delete k).slot k' = r.slot k' :=
  slot_modify_of_ne _ _ h

@[simp] theorem slot_incr_of_ne : (r.incr now k).2.slot k' = r.slot k' :=
  slot_modify_of_ne _ _ h

@[simp] theorem slot_zremrangebyscore_of_ne (max : Time) :
    (r.zremrangebyscore now k max).slot k' = r.slot k' :=
  slot_modify_of_ne _ _ h

@[simp] theorem slot_zadd_of_ne (member score : Time) :
    (r.zadd now k member score).slot k' = r.slot k' :=
  slot_modify_of_ne _ _ h

@[simp] theorem slot_expire_of_ne (ttl : Time) : (r.expire now k ttl).slot k' = r.slot k' :=
  slot_modify_of_ne _ _ h

end Frame

@[simp] theorem slot_set_self (r : Redis) (k : String) (v : Value) :
    (r.set k v).slot k = Slot.put v := by
  simp [set]

@[simp] theorem slot_setex_self (r : Redis) (now : Time) (k : String) (ttl : Time) (v : Value) :
    (r.setex now k ttl v).slot k = Slot.putEx now ttl v := by
  simp [setex]

@[simp] theorem slot_delete_self (r : Redis) (k : String) : (r.delete k).slot k = none := by
  simp [delete]

@[simp] theorem slot_zremrangebyscore_self (r : Redis) (now : Time) (k : String) (max : Time) :
    (r.zremrangebyscore now k max).slot k = zremSlot now max (r.slot k) := by
  simp [zremrangebyscore]

@[simp] theorem slot_zadd_self (r : Redis) (now : Time) (k : String) (member score : Time) :
    (r.zadd now k member score).slot k = zaddSlot now member score (r.slot k) := by
  simp [zadd]

@[simp] theorem slot_expire_self (r : Redis) (now : Time) (k : String) (ttl : Time) :
    (r.expire now k ttl).slot k = Slot.expire now ttl (r.slot k) := by
  simp [expire]

/-! ### Databases that agree on a set of keys -/

def AgreeOn (K : Set String) (r r' : Redis) : Prop := Set.EqOn r.slot r'.slot K

section Agreement

variable {K : Set String} {r r' : Redis}

theorem agreeOn_equivalence (K : Set String) : Equivalence (AgreeOn K) :=
  ⟨fun _ => Set.eqOn_refl _ _, Set.EqOn.symm, Set.EqOn.trans⟩

theorem AgreeOn.get (h : AgreeOn K r r') {k : String} (hk : k ∈ K) (now : Time) :
    r.get now k = r'.get now k := by
  rw [Redis.get, Redis.get, h hk]

/-- The same command on both keeps them in agreement, whatever its key. -/
theorem AgreeOn.modify (h : AgreeOn K r r') (k : String) (f : Slot Time Value → Slot Time Value) :
    AgreeOn K (r.modify k f) (r'.modify k f) :=
  Keyspace.modify_eqOn h k f

theorem AgreeOn.incr (h : AgreeOn K r r') {k : String} (hk : k ∈ K) (now : Time) :
    (r.incr now k).1 = (r'.incr now k).1 ∧ AgreeOn K (r.incr now k).2 (r'.incr now k).2 := by
  refine ⟨?_, h.modify _ _⟩
  rw [Redis.incr, Redis.incr, h.get hk]

end Agreement

/-! ### What the sorted-set commands leave visible

What matters to a later command is not the slot but what of it is visible at that command's reading,
so each command is described by that. -/

@[simp] theorem zview_none (now : Time) : zview now none = .empty := rfl

theorem zview_of_live_none {now : Time} {s : Slot Time Value} (h : Slot.live now s = none) :
    zview now s = .empty := by
  rw [zview, Slot.read, h]; rfl

/-- The slot holds a sorted set, if it holds anything at all. -/
def IsZset (s : Slot Time Value) : Prop := ∀ e, s = some e → ∃ z, e.value = .zset z

theorem isZset_none : IsZset none := by
  intro e he
  cases he

theorem isZset_some (z : SortedSet Time Time) (d : Option Time) :
    IsZset (some ⟨.zset z, d⟩) := by
  rintro e ⟨⟩
  exact ⟨z, rfl⟩

theorem zview_some (now : Time) (z : SortedSet Time Time) (d : Option Time) :
    zview now (some ⟨.zset z, d⟩) = if Slot.alive now d then z else .empty := by
  rw [zview, Slot.read, Slot.live_some]
  cases Slot.alive now d <;> rfl

theorem zview_eq_of_live {now : Time} {s : Slot Time Value} {z : SortedSet Time Time}
    {d : Option Time} (h : Slot.live now s = some ⟨.zset z, d⟩) : zview now s = z := by
  rw [zview, Slot.read, h]; rfl

/-- A slot of a sorted set is seen either as absent or as the set it stores. -/
theorem IsZset.live_cases {s : Slot Time Value} (h : IsZset s) (now : Time) :
    (Slot.live now s = none ∧ zview now s = .empty) ∨
      ∃ z d, Slot.live now s = some ⟨.zset z, d⟩ ∧ zview now s = z := by
  rcases hlive : Slot.live now s with _ | ⟨v, d⟩
  · exact Or.inl ⟨rfl, zview_of_live_none hlive⟩
  · obtain ⟨z, rfl⟩ := h ⟨v, d⟩ (Slot.live_eq_some.mp hlive).1
    exact Or.inr ⟨z, d, rfl, zview_eq_of_live hlive⟩

/-- A prune keeps the deadline, and deletes a key whose set it emptied. -/
theorem zremSlot_of_live {now max : Time} {s : Slot Time Value} {z : SortedSet Time Time}
    {d : Option Time} (h : Slot.live now s = some ⟨.zset z, d⟩) :
    zremSlot now max s =
      if (z.removeUpTo max).card = 0 then none else some ⟨.zset (z.removeUpTo max), d⟩ := by
  rw [zremSlot, Slot.update_eq_of_live_some h]
  simp only [storeZset]
  split <;> rfl

theorem zremSlot_of_live_none {now max : Time} {s : Slot Time Value}
    (h : Slot.live now s = none) : zremSlot now max s = none := by
  rw [zremSlot, Slot.update_eq_of_live_none h]
  rfl

theorem IsZset.zremSlot {s : Slot Time Value} (h : IsZset s) (now max : Time) :
    IsZset (zremSlot now max s) := by
  rcases h.live_cases now with ⟨hlive, -⟩ | ⟨z, d, hlive, -⟩
  · rw [zremSlot_of_live_none hlive]
    exact isZset_none
  · rw [zremSlot_of_live hlive]
    split
    · exact isZset_none
    · exact isZset_some _ _

/-- **What a prune leaves.** At the prune and at any later reading, the entries above the
bound, and nothing else, are visible. -/
theorem IsZset.zview_zremSlot {s : Slot Time Value} (h : IsZset s) {now now' max : Time}
    (hle : now ≤ now') :
    zview now' (Redis.zremSlot now max s) = (zview now' s).removeUpTo max := by
  rcases h.live_cases now with ⟨hlive, -⟩ | ⟨z, d, hlive, -⟩
  · have hlive' : Slot.live now' s = none := by
      rcases hl : Slot.live now' s with _ | e
      · rfl
      · rw [Slot.live_anti hle hl] at hlive; cases hlive
    rw [zview_of_live_none hlive', zremSlot_of_live_none hlive]
    rfl
  · obtain ⟨rfl, -⟩ := Slot.live_eq_some.mp hlive
    rw [zremSlot_of_live hlive, zview_some]
    -- the deadline is kept, so the key is visible later exactly when it was before
    by_cases hcard : (z.removeUpTo max).card = 0
    · have hnil : (z.removeUpTo max) = .empty := SortedSet.ext (SortedSet.card_eq_zero.mp hcard)
      rw [if_pos hcard, zview_none]
      split
      · exact hnil.symm
      · rfl
    · rw [if_neg hcard, zview_some]
      split <;> rfl

/-- Adding to a slot of a sorted set stores the visible set with the member added. -/
theorem IsZset.zaddSlot_expire {s : Slot Time Value} (h : IsZset s) (now member score ttl : Time) :
    Slot.expire now ttl (zaddSlot now member score s) =
      some ⟨.zset ((zview now s).add member score), some (now + ttl)⟩ := by
  have hlive : ∃ d, zaddSlot now member score s =
      some ⟨.zset ((zview now s).add member score), d⟩ ∧
        Slot.live now (zaddSlot now member score s) = zaddSlot now member score s := by
    rcases h.live_cases now with ⟨hlive, hv⟩ | ⟨z, d, hlive, hv⟩
    · refine ⟨none, ?_, ?_⟩ <;> rw [zaddSlot, Slot.update_eq_of_live_none hlive]
      · rw [hv]; rfl
      · rfl
    · refine ⟨d, ?_, ?_⟩ <;> rw [zaddSlot, Slot.update_eq_of_live_some hlive]
      · rw [hv]; rfl
      · exact Slot.live_with hlive _
  obtain ⟨d, hz, hl⟩ := hlive
  rw [Slot.expire, hl, hz]
  rfl

theorem IsZset.zaddSlot {s : Slot Time Value} (h : IsZset s) (now member score : Time) :
    IsZset (zaddSlot now member score s) := by
  rcases h.live_cases now with ⟨hlive, -⟩ | ⟨z, d, hlive, -⟩
  · rw [Redis.zaddSlot, Slot.update_eq_of_live_none hlive]
    exact isZset_some _ _
  · rw [Redis.zaddSlot, Slot.update_eq_of_live_some hlive]
    exact isZset_some _ _

theorem IsZset.zview_zaddSlot {s : Slot Time Value} (h : IsZset s) (now member score : Time) :
    zview now (Redis.zaddSlot now member score s) = (zview now s).add member score := by
  have hread : Slot.read now (Redis.zaddSlot now member score s) =
      some (.zset ((zview now s).add member score)) := by
    rw [Redis.zaddSlot, Slot.read_update_self]
    rcases h.live_cases now with ⟨hlive, hv⟩ | ⟨z, d, hlive, hv⟩
    · rw [Slot.read, hlive, hv]
      rfl
    · rw [Slot.read, hlive, hv]
      rfl
  rw [zview, hread]
  rfl

theorem IsZset.expire {s : Slot Time Value} (h : IsZset s) (now ttl : Time) :
    IsZset (Slot.expire now ttl s) := by
  rcases h.live_cases now with ⟨hlive, -⟩ | ⟨z, d, hlive, -⟩
  · rw [Slot.expire, hlive]
    exact isZset_none
  · rw [Slot.expire, hlive]
    exact isZset_some _ _

/-- A deadline in the future hides nothing yet. -/
theorem zview_expire {now ttl : Time} (s : Slot Time Value) (hpos : 0 < ttl) :
    zview now (Slot.expire now ttl s) = zview now s := by
  rw [zview, zview, Slot.expire, Slot.read, Slot.read]
  cases Slot.live now s with
  | none => rfl
  | some e => simp [Slot.live_some, Slot.alive, hpos]

end Redis

/-! ### Python's `int` on a float -/

/-- `int(x)`: truncation toward zero. -/
def pyInt (x : Time) : ℤ := if 0 ≤ x then ⌊x⌋ else ⌈x⌉

theorem pyInt_of_nonneg {x : Time} (h : 0 ≤ x) : pyInt x = ⌊x⌋ := if_pos h

end RateGuardian
