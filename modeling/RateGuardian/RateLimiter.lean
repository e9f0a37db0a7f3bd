import RateGuardian.Redis
import Mathlib.Tactic.Linarith

/-!
# RateGuardian.RateLimiter

`SlidingWindowRateLimiter` of `app/models/services/rate_limiter.py`: a sliding-window log
in a Redis sorted set. The definitions follow the source command by command; the spec
lemmas below say what one `check` does to the slot of its key (`slot_check_of_lt`,
`slot_check_of_not_lt`) and to the others (`slot_check_of_ne`), and callers use nothing else.

`window now w s` is the set a check compares with the limit: what is left visible of the
slot after the entries up to `now - w` are pruned.

One `check` is executed whole here, at one reading. `SharedLimiter` takes it apart into its
commands, for several processes that share a key.
-/

namespace RateGuardian

open Lib Redis

/-- Outcome of a rate-limit check (`app/models/services/interfaces.py`). -/
structure RateLimitResult where
  allowed : Bool
  limit : ℤ
  remaining : ℤ
  resetIn : ℤ
  deriving Repr, DecidableEq

namespace SlidingWindowRateLimiter

/-- `f"{_PREFIX}{key}"`, the key of the sorted set in Redis. -/
def redisKey (key : String) : String := "rg:rl:" ++ key

theorem redisKey_inj {key key' : String} : redisKey key = redisKey key' ↔ key = key' :=
  String.append_right_inj _

/-- `SlidingWindowRateLimiter.check` at the reading `now`. -/
def check (r : Redis) (now : Time) (key : String) (limit windowSeconds : ℤ) :
    RateLimitResult × Redis :=
  let k := redisKey key
  let windowStart := now - windowSeconds
  -- the pipeline also asks for ZCARD; its reply is not used
  let r := r.zremrangebyscore now k windowStart
  let currentCount := r.zcard now k
  if (currentCount : ℤ) < limit then
    let r := r.zadd now k now now
    let r := r.expire now k (windowSeconds + 1)
    ({ allowed := true, limit := limit, remaining := limit - currentCount - 1,
       resetIn := windowSeconds }, r)
  else
    let resetIn := match r.zrangeFirst now k with
      | some oldest => pyInt (windowSeconds - (now - oldest.2))
      | none => windowSeconds
    ({ allowed := false, limit := limit, remaining := 0, resetIn := max resetIn 0 }, r)

/-! ### What one check does

A check is either an admission or a rejection, by the size of the window. For each the slot is given
afterwards, and what is visible of it at any later reading. -/

/-- The entries of a slot that count for a window of `w` seconds at `now`. -/
def window (now : Time) (w : ℤ) (s : Slot Time Value) : SortedSet Time Time :=
  (zview now s).removeUpTo (now - w)

theorem mem_window {now : Time} {w : ℤ} {s : Slot Time Value} {e : Time × Time} :
    e ∈ (window now w s).entries ↔ e ∈ (zview now s).entries ∧ now - w < e.2 :=
  SortedSet.mem_removeUpTo

section Spec

variable {r : Redis} {now : Time} {key : String} {limit w : ℤ}

/-- A check leaves every key alone but the one it is given. -/
theorem slot_check_of_ne {k : String} (h : k ≠ redisKey key) :
    (check r now key limit w).2.slot k = r.slot k := by
  unfold check
  simp only
  split <;> simp [h]

/-- A check sees its key and no other: on two databases that agree there, it answers alike and
leaves them in agreement. -/
theorem check_agreeOn {K : Set String} {r r' : Redis} (h : AgreeOn K r r')
    (hk : redisKey key ∈ K) :
    (check r now key limit w).1 = (check r' now key limit w).1 ∧
      AgreeOn K (check r now key limit w).2 (check r' now key limit w).2 := by
  have hpruned : AgreeOn K (r.zremrangebyscore now (redisKey key) (now - w))
      (r'.zremrangebyscore now (redisKey key) (now - w)) := h.modify _ _
  simp only [check, zcard, zrangeFirst, hpruned hk]
  by_cases hlt : ((zview now ((r'.zremrangebyscore now (redisKey key) (now - w)).slot
      (redisKey key))).card : ℤ) < limit
  · simp only [hlt, if_true]
    exact ⟨trivial, (hpruned.modify _ _).modify _ _⟩
  · simp only [hlt, if_false]
    exact ⟨trivial, hpruned⟩

variable (hs : IsZset (r.slot (redisKey key)))
include hs

theorem zview_prune : zview now ((r.zremrangebyscore now (redisKey key) (now - w)).slot
    (redisKey key)) = window now w (r.slot (redisKey key)) := by
  rw [slot_zremrangebyscore_self, hs.zview_zremSlot le_rfl, window]

theorem check_of_lt (h : ((window now w (r.slot (redisKey key))).card : ℤ) < limit) :
    (check r now key limit w).1 =
      { allowed := true, limit := limit,
        remaining := limit - (window now w (r.slot (redisKey key))).card - 1, resetIn := w } := by
  simp only [check, zcard, zview_prune hs, if_pos h]

theorem check_of_not_lt (h : ¬ ((window now w (r.slot (redisKey key))).card : ℤ) < limit) :
    (check r now key limit w).1 =
      { allowed := false, limit := limit, remaining := 0,
        resetIn := max (match (window now w (r.slot (redisKey key))).first with
          | some oldest => pyInt (w - (now - oldest.2))
          | none => w) 0 } := by
  simp only [check, zcard, zrangeFirst, zview_prune hs, if_neg h]

theorem check_allowed_iff : (check r now key limit w).1.allowed = true ↔
    ((window now w (r.slot (redisKey key))).card : ℤ) < limit := by
  by_cases h : ((window now w (r.slot (redisKey key))).card : ℤ) < limit
  · simp [check_of_lt hs h, h]
  · simp [check_of_not_lt hs h, h]

/-- An admission stores the pruned window with the reading added, for `w + 1` seconds. -/
theorem slot_check_of_lt (h : ((window now w (r.slot (redisKey key))).card : ℤ) < limit) :
    (check r now key limit w).2.slot (redisKey key) =
      some ⟨.zset ((window now w (r.slot (redisKey key))).add now now),
        some (now + (w + 1))⟩ := by
  simp only [check, zcard, zview_prune hs, if_pos h]
  simp only [slot_expire_self, slot_zadd_self, slot_zremrangebyscore_self]
  rw [(hs.zremSlot now (now - w)).zaddSlot_expire, hs.zview_zremSlot le_rfl, window]

/-- A rejection prunes the slot and does nothing else to it. -/
theorem slot_check_of_not_lt (h : ¬ ((window now w (r.slot (redisKey key))).card : ℤ) < limit) :
    (check r now key limit w).2.slot (redisKey key) =
      zremSlot now (now - w) (r.slot (redisKey key)) := by
  simp only [check, zcard, zview_prune hs, if_neg h]
  rw [slot_zremrangebyscore_self]

theorem isZset_check : IsZset ((check r now key limit w).2.slot (redisKey key)) := by
  by_cases h : ((window now w (r.slot (redisKey key))).card : ℤ) < limit
  · rw [slot_check_of_lt hs h]
    exact isZset_some _ _
  · rw [slot_check_of_not_lt hs h]
    exact hs.zremSlot _ _

/-- **Later visibility after an admission.** The reading and what counted with it are
visible for `w + 1` seconds, and nothing is after that. -/
theorem zview_check_of_lt (h : ((window now w (r.slot (redisKey key))).card : ℤ) < limit)
    (now' : Time) : zview now' ((check r now key limit w).2.slot (redisKey key)) =
      if now' < now + (w + 1) then (window now w (r.slot (redisKey key))).add now now
      else .empty := by
  rw [slot_check_of_lt hs h, zview_some]
  simp [Slot.alive]

/-- **Later visibility after a rejection.** What would have been visible, less the entries
up to the bound of the prune. -/
theorem zview_check_of_not_lt (h : ¬ ((window now w (r.slot (redisKey key))).card : ℤ) < limit)
    {now' : Time} (hle : now ≤ now') :
    zview now' ((check r now key limit w).2.slot (redisKey key)) =
      (zview now' (r.slot (redisKey key))).removeUpTo (now - w) := by
  rw [slot_check_of_not_lt hs h, hs.zview_zremSlot hle]

end Spec

end SlidingWindowRateLimiter

end RateGuardian
