import RateGuardian.CircuitBreakerSound
import RateGuardian.RateLimiter
import RateGuardian.RuleRepository
import RateGuardian.Lib.Unwinding

/-!
# RateGuardian.UpstreamIsolation

**One keyspace, three services, any number of upstreams.** The circuit breaker, the rate
limiter and the rule cache compose their keys from strings that clients choose. What keeps an
upstream to itself is that no other composition yields one of its three keys:

* a key of another upstream differs, because the three suffixes end differently and equal
  suffixes leave the upstream (`mem_breakerKeys`);
* a limiter key and the cache key differ at their fourth character.

The operations on an upstream see its keys only, so every other operation is hidden from them
(`perform_unwinding`).
-/

namespace RateGuardian

open Lib Redis RedisCircuitBreaker SlidingWindowRateLimiter RuleRepository

/-! ### The keys of an upstream

Two facts about strings: the upstream can be read off a key, and the prefix is that of no other
service. -/

/-- The keys that hold the circuit of an upstream. -/
def breakerKeys (up : String) : Set String := {stateKey up, failuresKey up, opensAtKey up}

section Keys

variable {u v a b : String}

@[simp] theorem stateKey_mem (u : String) : stateKey u ∈ breakerKeys u := by simp [breakerKeys]
@[simp] theorem failuresKey_mem (u : String) : failuresKey u ∈ breakerKeys u := by
  simp [breakerKeys]
@[simp] theorem opensAtKey_mem (u : String) : opensAtKey u ∈ breakerKeys u := by
  simp [breakerKeys]

/-- The last character of a key is the last one of its suffix. -/
theorem getLast?_key (ha : a ≠ "") :
    ("rg:cb:" ++ u ++ a).toList.getLast? = a.toList.getLast? := by
  have hne : a.toList ≠ [] := by simpa using ha
  rw [String.toList_append, List.getLast?_append, List.getLast?_eq_some_getLast hne]
  rfl

/-- The upstream can be read off any of its keys. -/
theorem upstream_eq_of_key_eq (ha : a ∈ [":state", ":failures", ":opens_at"])
    (hb : b ∈ [":state", ":failures", ":opens_at"])
    (h : "rg:cb:" ++ u ++ a = "rg:cb:" ++ v ++ b) : u = v := by
  have hne : ∀ c ∈ [":state", ":failures", ":opens_at"], c ≠ "" := by decide
  have hlast := congrArg (fun s => s.toList.getLast?) h
  simp only [getLast?_key (hne a ha), getLast?_key (hne b hb)] at hlast
  -- the three suffixes end in different characters
  have heq : ∀ a ∈ [":state", ":failures", ":opens_at"],
      ∀ b ∈ [":state", ":failures", ":opens_at"],
        a.toList.getLast? = b.toList.getLast? → a = b := by decide
  rw [heq a ha b hb hlast] at h
  exact (String.append_right_inj _).mp ((String.append_left_inj _).mp h)

theorem mem_breakerKeys {k : String} : k ∈ breakerKeys u ↔
    ∃ a ∈ [":state", ":failures", ":opens_at"], k = "rg:cb:" ++ u ++ a := by
  simp [breakerKeys, stateKey, failuresKey, opensAtKey]

/-- No key belongs to two upstreams, since a key names its upstream. -/
theorem eq_of_mem_breakerKeys {k : String} (hu : k ∈ breakerKeys u) (hv : k ∈ breakerKeys v) :
    u = v := by
  obtain ⟨a, ha, rfl⟩ := mem_breakerKeys.mp hu
  obtain ⟨b, hb, heq⟩ := mem_breakerKeys.mp hv
  exact upstream_eq_of_key_eq ha hb heq

/-- Every key of the breaker starts with its prefix. -/
theorem prefix_of_mem {k : String} (h : k ∈ breakerKeys u) : k.toList.take 4 = "rg:c".toList := by
  obtain ⟨a, -, rfl⟩ := mem_breakerKeys.mp h
  simp

theorem redisKey_notMem (key : String) : redisKey key ∉ breakerKeys u := by
  intro h
  have hprefix := prefix_of_mem h
  simp [redisKey] at hprefix

theorem cacheKey_notMem : cacheKey ∉ breakerKeys u := by
  intro h
  have hprefix := prefix_of_mem h
  simp [cacheKey] at hprefix

end Keys

/-! ### What an operation touches

The frame of the breaker: its operations on an upstream read and write the three keys of it. -/

section Touches

variable {cb : RedisCircuitBreaker} {up : String} {K : Set String} {r r' : Redis} {now : Time}

theorem Redis.AgreeOn.transition (h : AgreeOn K r r') (newState : State) :
    AgreeOn K (transition r up newState) (transition r' up newState) := by
  have hset : AgreeOn K (r.set (stateKey up) (.state newState))
      (r'.set (stateKey up) (.state newState)) := h.modify _ _
  simp only [RedisCircuitBreaker.transition]
  split
  · exact (hset.modify _ _).modify _ _
  · exact hset

/-- An operation on an upstream reads the keys of that upstream only: on databases that agree there,
it answers alike and leaves them in agreement. -/
theorem Redis.AgreeOn.call (h : AgreeOn (breakerKeys up) r r') (c : Call) :
    (call cb up r c).1 = (call cb up r' c).1 ∧
      AgreeOn (breakerKeys up) (call cb up r c).2 (call cb up r' c).2 := by
  obtain ⟨op, now⟩ := c
  have hstate := h.get (stateKey_mem up) now
  cases op with
  | canRequest =>
      have hopens := h.get (opensAtKey_mem up) now
      simp only [RedisCircuitBreaker.call, canRequest, hstate, hopens]
      cases stateOf (r'.get now (stateKey up)) with
      | closed => exact ⟨rfl, h⟩
      | «open» =>
          by_cases hle : (timeOf (r'.get now (opensAtKey up))).getD 0 ≤ now
          · simp only [if_pos hle]
            exact ⟨trivial, h.transition _⟩
          · simp only [if_neg hle]
            exact ⟨trivial, h⟩
      | halfOpen => exact ⟨rfl, h⟩
  | recordSuccess =>
      simp only [RedisCircuitBreaker.call, recordSuccess, hstate]
      split
      · exact ⟨trivial, h.transition _⟩
      · exact ⟨trivial, h⟩
  | recordFailure =>
      obtain ⟨hcount, hincr⟩ := h.incr (failuresKey_mem up) now
      simp only [RedisCircuitBreaker.call, recordFailure, hstate, hcount]
      split
      · exact ⟨trivial, AgreeOn.transition (hincr.modify _ _) _⟩
      · exact ⟨trivial, hincr⟩

theorem Redis.AgreeOn.getState (h : AgreeOn (breakerKeys up) r r') :
    getState r now up = getState r' now up := by
  simp only [RedisCircuitBreaker.getState, h.get (stateKey_mem up), h.get (failuresKey_mem up),
    h.get (opensAtKey_mem up)]

/-- A transition writes the keys of its upstream only. -/
theorem slot_transition_of_notMem {k : String} (hk : k ∉ breakerKeys up) (newState : State) :
    (transition r up newState).slot k = r.slot k := by
  simp only [breakerKeys, Set.mem_insert_iff, Set.mem_singleton_iff, not_or] at hk
  obtain ⟨hstate, hfailures, hopens⟩ := hk
  unfold transition
  simp only
  split <;> simp [hstate, hfailures, hopens]

theorem slot_call_of_notMem {k : String} (hk : k ∉ breakerKeys up) (c : Call) :
    (call cb up r c).2.slot k = r.slot k := by
  have hne : k ≠ failuresKey up ∧ k ≠ opensAtKey up := by
    simp only [breakerKeys, Set.mem_insert_iff, Set.mem_singleton_iff, not_or] at hk
    exact hk.2
  obtain ⟨op, now⟩ := c
  cases op with
  | canRequest =>
      simp only [call, canRequest]
      split
      · rfl
      · split
        · show (transition r up .halfOpen).slot k = r.slot k
          exact slot_transition_of_notMem hk _
        · rfl
      · rfl
  | recordSuccess =>
      simp only [call, recordSuccess]
      split
      · exact slot_transition_of_notMem hk _
      · rfl
  | recordFailure =>
      simp only [call, recordFailure]
      split
      · rw [slot_transition_of_notMem hk, slot_set_of_ne _ hne.2, slot_incr_of_ne _ hne.1]
      · exact slot_incr_of_ne _ hne.1

end Touches

/-! ### The services on one database

A history mixes the calls of all three services, on any keys. For the observer of one upstream all
other calls can be left out, by the unwinding theorem of the library. -/

/-- A call of one of the three services, with the strings that its keys are made of. -/
inductive ServiceCall
  | breaker (up : String) (op : Op)
  | getState (up : String)
  | check (key : String) (limit windowSeconds : ℤ)
  | readRules
  | fillRules (payload : List Rule)
  | invalidateRules

inductive ServiceAnswer
  | breaker (answer : Option Bool)
  | circuit (c : CircuitState)
  | limit (result : RateLimitResult)
  | rules (payload : Option (List Rule))
  | done

/-- One call on the database, at the clock reading that comes with it: its answer, and the database
after it. -/
def perform (cb : RedisCircuitBreaker) (r : Redis) (c : ServiceCall × Time) :
    ServiceAnswer × Redis :=
  match c.1 with
  | .breaker up op => (.breaker (call cb up r ⟨op, c.2⟩).1, (call cb up r ⟨op, c.2⟩).2)
  | .getState up => (.circuit (getState r c.2 up), r)
  | .check key limit w => (.limit (check r c.2 key limit w).1, (check r c.2 key limit w).2)
  | .readRules => (.rules (loadFromCache r c.2), r)
  | .fillRules payload => (.done, fillCache r c.2 payload)
  | .invalidateRules => (.done, invalidateCache r)

/-- The call is a breaker operation on `u`. -/
def concerns (u : String) (c : ServiceCall × Time) : Bool :=
  match c.1 with
  | .breaker up _ | .getState up => up = u
  | _ => false

/-- Every other call is hidden from the breaker of `u`. -/
theorem perform_unwinding (cb : RedisCircuitBreaker) (u : String) :
    Unwinding (perform cb) (fun _ => True) (fun c => concerns u c = false)
      (AgreeOn (breakerKeys u)) := by
  have hvisible : ∀ {r r' : Redis} {c : ServiceCall × Time}, ¬ concerns u c = false →
      AgreeOn (breakerKeys u) r r' → (perform cb r c).1 = (perform cb r' c).1 ∧
        AgreeOn (breakerKeys u) (perform cb r c).2 (perform cb r' c).2 := by
    rintro r r' ⟨c, now⟩ hc h
    cases c with
    | breaker up op =>
        obtain rfl : up = u := by simpa [concerns] using hc
        obtain ⟨hans, hafter⟩ := @Redis.AgreeOn.call cb up r r' h ⟨op, now⟩
        exact ⟨congrArg ServiceAnswer.breaker hans, hafter⟩
    | getState up =>
        obtain rfl : up = u := by simpa [concerns] using hc
        exact ⟨congrArg ServiceAnswer.circuit h.getState, h⟩
    | _ => exact absurd rfl hc
  refine ⟨agreeOn_equivalence _, fun _ => trivial, fun _ _ hc h => (hvisible hc h).1,
    fun _ _ hc h => (hvisible hc h).2, ?_⟩
  rintro r ⟨c, now⟩ - hc k hk
  cases c with
  | breaker up op =>
      have hne : up ≠ u := by simpa [concerns] using hc
      exact slot_call_of_notMem (fun hup => hne (eq_of_mem_breakerKeys hup hk)) _
  | getState up => rfl
  | check key limit w =>
      refine slot_check_of_ne ?_
      rintro rfl
      exact redisKey_notMem key hk
  | readRules => rfl
  | fillRules payload =>
      refine slot_setex_of_ne _ ?_ _ _
      rintro rfl
      exact cacheKey_notMem hk
  | invalidateRules =>
      refine slot_delete_of_ne _ ?_
      rintro rfl
      exact cacheKey_notMem hk

/-- **Upstreams are isolated.** Whatever else is done with the database, the breaker of `u`
answers as if the operations on `u` were all there was. -/
theorem upstream_isolated (cb : RedisCircuitBreaker) (u : String) (r : Redis)
    (calls : List (ServiceCall × Time)) :
    answersTo (concerns u) (perform cb) r calls =
      answersTo (concerns u) (perform cb) r (calls.filter (concerns u)) :=
  (perform_unwinding cb u).answers (erasure_filter _ calls) trivial trivial (Set.eqOn_refl _ _)
    (by simp)

end RateGuardian
