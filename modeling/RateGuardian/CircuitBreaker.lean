import RateGuardian.Redis

/-!
# RateGuardian.CircuitBreaker

`RedisCircuitBreaker` of `app/models/services/circuit_breaker.py`. The state of one upstream
is spread over three Redis keys, written by separate commands.

Two layers:

* the operations as the source has them, on the whole database;
* the state machine they implement, on `CircuitState` — what `get_state` reports.

`Stored r c` relates them: the three keys of `c.upstream` hold exactly `c`, without
deadlines. Every operation refines its counterpart (`canRequest_refines`,
`recordSuccess_refines`, `recordFailure_refines`), so the proofs about runs never look at
a key again.

The state machine is the source's code, not its table of states: `can_request` answers True to
every caller while the circuit is HALF_OPEN, and `record_success` closes a circuit in whatever state
it is. What follows from these for runs is said in `CircuitBreakerSound` and `GatewayBreaker`.
-/

namespace RateGuardian

open Lib Redis

/-- Current state of a circuit breaker for one upstream
(`app/models/services/interfaces.py`). -/
structure CircuitState where
  upstream : String
  state : State
  failures : ℕ
  opensAt : Option Time
  deriving Repr, DecidableEq

/-- The configuration a breaker is built with (`app/core/config.py`). -/
structure RedisCircuitBreaker where
  threshold : ℕ
  recovery : ℤ
  deriving Repr, DecidableEq

namespace RedisCircuitBreaker

/-! ### Keys -/

def stateKey (up : String) : String := "rg:cb:" ++ up ++ ":state"
def failuresKey (up : String) : String := "rg:cb:" ++ up ++ ":failures"
def opensAtKey (up : String) : String := "rg:cb:" ++ up ++ ":opens_at"

theorem key_ne {up a b : String} (h : a ≠ b) : "rg:cb:" ++ up ++ a ≠ "rg:cb:" ++ up ++ b :=
  fun heq => h ((String.append_right_inj _).mp heq)

@[simp] theorem stateKey_ne_failuresKey (up : String) : stateKey up ≠ failuresKey up :=
  key_ne (by decide)
@[simp] theorem stateKey_ne_opensAtKey (up : String) : stateKey up ≠ opensAtKey up :=
  key_ne (by decide)
@[simp] theorem failuresKey_ne_stateKey (up : String) : failuresKey up ≠ stateKey up :=
  key_ne (by decide)
@[simp] theorem failuresKey_ne_opensAtKey (up : String) : failuresKey up ≠ opensAtKey up :=
  key_ne (by decide)
@[simp] theorem opensAtKey_ne_stateKey (up : String) : opensAtKey up ≠ stateKey up :=
  key_ne (by decide)
@[simp] theorem opensAtKey_ne_failuresKey (up : String) : opensAtKey up ≠ failuresKey up :=
  key_ne (by decide)

/-! ### The operations -/

/-- `get(state_key) or _CLOSED`, so an upstream without a key is closed. -/
def stateOf : Option Value → State
  | some (.state s) => s
  | _ => .closed

/-- `float(get(opens_at_key))`, when the key is there. Only a deadline is ever written to it. -/
def timeOf : Option Value → Option Time
  | some (.time t) => some t
  | _ => none

/-- `_transition`: the state is written, and on the way to CLOSED the counter and the deadline are
deleted. -/
def transition (r : Redis) (upstream : String) (newState : State) : Redis :=
  let r := r.set (stateKey upstream) (.state newState)
  if newState = .closed then
    (r.delete (failuresKey upstream)).delete (opensAtKey upstream)
  else r

/-- `can_request`, at the reading `now`. It is also the one place where OPEN becomes HALF_OPEN, once
the deadline has come. -/
def canRequest (r : Redis) (now : Time) (upstream : String) : Bool × Redis :=
  match stateOf (r.get now (stateKey upstream)) with
  | .closed => (true, r)
  | .«open» =>
      let opensAt := (timeOf (r.get now (opensAtKey upstream))).getD 0
      if opensAt ≤ now then (true, transition r upstream .halfOpen) else (false, r)
  -- "allow exactly one probe": the source keeps no record that a probe is out
  | .halfOpen => (true, r)

/-- `record_success`, which closes the circuit unless it is closed already. -/
def recordSuccess (r : Redis) (now : Time) (upstream : String) : Redis :=
  let state := stateOf (r.get now (stateKey upstream))
  if state = .halfOpen ∨ state = .«open» then transition r upstream .closed else r

/-- `record_failure` counts, and opens the circuit if it was half-open or the count has come to the
threshold. -/
def recordFailure (cb : RedisCircuitBreaker) (r : Redis) (now : Time) (upstream : String) :
    Redis :=
  let state := stateOf (r.get now (stateKey upstream))
  let (failures, r) := r.incr now (failuresKey upstream)
  if state = .halfOpen ∨ cb.threshold ≤ failures then
    let opensAt := now + cb.recovery
    transition (r.set (opensAtKey upstream) (.time opensAt)) upstream .«open»
  else r

/-- `get_state`, which reads the three keys and changes none. -/
def getState (r : Redis) (now : Time) (upstream : String) : CircuitState :=
  { upstream := upstream
    state := stateOf (r.get now (stateKey upstream))
    failures := countOf (r.get now (failuresKey upstream))
    opensAt := timeOf (r.get now (opensAtKey upstream)) }

end RedisCircuitBreaker

/-! ### The state machine -/

namespace CircuitState

/-- An upstream nothing was recorded for, which has none of the three keys. -/
def initial (up : String) : CircuitState := ⟨up, .closed, 0, none⟩

def canRequest (c : CircuitState) (now : Time) : Bool × CircuitState :=
  match c.state with
  | .closed => (true, c)
  | .«open» => if c.opensAt.getD 0 ≤ now then (true, { c with state := .halfOpen }) else (false, c)
  | .halfOpen => (true, c)

def recordSuccess (c : CircuitState) : CircuitState :=
  match c.state with
  | .closed => c
  | _ => initial c.upstream

def recordFailure (cb : RedisCircuitBreaker) (c : CircuitState) (now : Time) : CircuitState :=
  if c.state = .halfOpen ∨ cb.threshold ≤ c.failures + 1 then
    { c with state := .«open», failures := c.failures + 1, opensAt := some (now + cb.recovery) }
  else { c with failures := c.failures + 1 }

variable {c : CircuitState} {now : Time} {cb : RedisCircuitBreaker}

@[simp] theorem canRequest_upstream : (c.canRequest now).2.upstream = c.upstream := by
  unfold canRequest
  split
  · rfl
  · split <;> rfl
  · rfl

@[simp] theorem canRequest_failures : (c.canRequest now).2.failures = c.failures := by
  unfold canRequest
  split
  · rfl
  · split <;> rfl
  · rfl

/-- `can_request` refuses in one situation only, and changes the state in one only. -/
theorem canRequest_cases :
    ((c.canRequest now).1 = true ∧ (c.canRequest now).2 = c ∧ c.state ≠ .«open») ∨
    (c.state = .«open» ∧ c.opensAt.getD 0 ≤ now ∧ (c.canRequest now).1 = true ∧
      (c.canRequest now).2 = { c with state := .halfOpen }) ∨
    (c.state = .«open» ∧ now < c.opensAt.getD 0 ∧ (c.canRequest now).1 = false ∧
      (c.canRequest now).2 = c) := by
  unfold canRequest
  rcases hstate : c.state with _ | _ | _
  · exact Or.inl ⟨rfl, rfl, by simp⟩
  · by_cases hle : c.opensAt.getD 0 ≤ now
    · exact Or.inr (Or.inl ⟨rfl, hle, by simp [hle], by simp [hle]⟩)
    · exact Or.inr (Or.inr ⟨rfl, not_le.mp hle, by simp [hle], by simp [hle]⟩)
  · exact Or.inl ⟨rfl, rfl, by simp⟩

theorem recordSuccess_cases :
    (c.state = .closed ∧ c.recordSuccess = c) ∨
    (c.state ≠ .closed ∧ c.recordSuccess = initial c.upstream) := by
  unfold recordSuccess
  rcases hstate : c.state with _ | _ | _
  · exact Or.inl ⟨rfl, rfl⟩
  · exact Or.inr ⟨by simp, rfl⟩
  · exact Or.inr ⟨by simp, rfl⟩

@[simp] theorem recordSuccess_upstream : c.recordSuccess.upstream = c.upstream := by
  rcases recordSuccess_cases (c := c) with ⟨-, h⟩ | ⟨-, h⟩ <;> rw [h]
  rfl

theorem recordFailure_of_trip (h : c.state = .halfOpen ∨ cb.threshold ≤ c.failures + 1) :
    c.recordFailure cb now = { c with state := .«open», failures := c.failures + 1,
                                      opensAt := some (now + cb.recovery) } :=
  if_pos h

theorem recordFailure_of_not_trip (h : ¬ (c.state = .halfOpen ∨ cb.threshold ≤ c.failures + 1)) :
    c.recordFailure cb now = { c with failures := c.failures + 1 } :=
  if_neg h

@[simp] theorem recordFailure_failures : (c.recordFailure cb now).failures = c.failures + 1 := by
  unfold recordFailure
  split <;> rfl

@[simp] theorem recordFailure_upstream : (c.recordFailure cb now).upstream = c.upstream := by
  unfold recordFailure
  split <;> rfl

end CircuitState

/-! ### The keys refine the state machine -/

namespace RedisCircuitBreaker

open CircuitState

/-- A slot holds `v`, or is absent where that reads the same (a missing counter is 0); it has no
deadline, so it reads the same at any time. -/
def Holds (s : Slot Time Value) (v : Value) (absent : Prop) : Prop :=
  (s = none ∧ absent) ∨ s = some ⟨v, none⟩

/-- The three keys of `c.upstream` hold `c`, and nothing about them changes with time alone. -/
structure Stored (r : Redis) (c : CircuitState) : Prop where
  state : Holds (r.slot (stateKey c.upstream)) (.state c.state) (c.state = .closed)
  failures : Holds (r.slot (failuresKey c.upstream)) (.counter c.failures) (c.failures = 0)
  opensAt : r.slot (opensAtKey c.upstream) = c.opensAt.map fun t => ⟨.time t, none⟩

theorem stored_empty (up : String) : Stored .empty (initial up) :=
  ⟨Or.inl ⟨rfl, rfl⟩, Or.inl ⟨rfl, rfl⟩, rfl⟩

section Reads

variable {r : Redis} {c : CircuitState} (h : Stored r c) (now : Time)
include h

theorem Stored.stateOf_get : stateOf (r.get now (stateKey c.upstream)) = c.state := by
  rcases h.state with ⟨hs, hclosed⟩ | hs <;> rw [Redis.get, hs]
  · exact hclosed.symm
  · rfl

theorem Stored.countOf_get : countOf (r.get now (failuresKey c.upstream)) = c.failures := by
  rcases h.failures with ⟨hs, hzero⟩ | hs <;> rw [Redis.get, hs]
  · exact hzero.symm
  · rfl

theorem Stored.timeOf_get : timeOf (r.get now (opensAtKey c.upstream)) = c.opensAt := by
  rw [Redis.get, h.opensAt]
  cases c.opensAt <;> rfl

/-- `get_state` reports what is stored, at any reading of the clock. -/
theorem getState_eq : getState r now c.upstream = c := by
  rw [getState, h.stateOf_get, h.countOf_get, h.timeOf_get]

end Reads

/-- A transition to CLOSED forgets the failures and the deadline, whatever the keys held. -/
theorem stored_transition_closed (r : Redis) (up : String) :
    Stored (transition r up .closed) (initial up) := by
  refine ⟨Or.inr ?_, Or.inl ⟨?_, rfl⟩, ?_⟩ <;>
    simp [transition, initial, Slot.put]

section Refinement

variable {r : Redis} {c : CircuitState} (h : Stored r c)
include h

/-- A transition to a state other than CLOSED writes the state key alone. -/
theorem Stored.transition {newState : State} (hne : newState ≠ .closed) :
    Stored (transition r c.upstream newState) { c with state := newState } := by
  have htr : RedisCircuitBreaker.transition r c.upstream newState =
      r.set (stateKey c.upstream) (.state newState) := if_neg hne
  rw [htr]
  refine ⟨Or.inr (by simp [Slot.put]), ?_, ?_⟩
  · simpa using h.failures
  · simpa using h.opensAt

/-- Counting a failure changes the counter key alone, and creates it at the first one. -/
theorem Stored.incr (now : Time) :
    (r.incr now (failuresKey c.upstream)).1 = c.failures + 1 ∧
      Stored (r.incr now (failuresKey c.upstream)).2 { c with failures := c.failures + 1 } := by
  refine ⟨by rw [Redis.incr, h.countOf_get], ?_, Or.inr ?_, ?_⟩
  · simpa using h.state
  · rw [Redis.incr, slot_modify_self]
    rcases h.failures with ⟨hs, hzero⟩ | hs <;> rw [hs]
    · simp [Slot.update, hzero]
    · rfl
  · simpa using h.opensAt

theorem canRequest_refines (now : Time) :
    (canRequest r now c.upstream).1 = (c.canRequest now).1 ∧
      Stored (canRequest r now c.upstream).2 (c.canRequest now).2 := by
  unfold canRequest CircuitState.canRequest
  rw [h.stateOf_get, h.timeOf_get]
  rcases hstate : c.state with _ | _ | _
  · exact ⟨rfl, h⟩
  · simp only
    split
    · have hhalf : State.halfOpen ≠ .closed := by decide
      exact ⟨rfl, h.transition hhalf⟩
    · exact ⟨rfl, h⟩
  · exact ⟨rfl, h⟩

theorem recordSuccess_refines (now : Time) :
    Stored (recordSuccess r now c.upstream) c.recordSuccess := by
  unfold recordSuccess CircuitState.recordSuccess
  rw [h.stateOf_get]
  rcases hstate : c.state with _ | _ | _
  · exact h
  · exact stored_transition_closed _ _
  · exact stored_transition_closed _ _

theorem recordFailure_refines (cb : RedisCircuitBreaker) (now : Time) :
    Stored (recordFailure cb r now c.upstream) (c.recordFailure cb now) := by
  obtain ⟨hcount, hincr⟩ := h.incr now
  unfold recordFailure CircuitState.recordFailure
  simp only [h.stateOf_get, hcount]
  split
  · -- the deadline is written first, then the state
    have hset : Stored ((r.incr now (failuresKey c.upstream)).2.set (opensAtKey c.upstream)
        (.time (now + cb.recovery)))
        ⟨c.upstream, c.state, c.failures + 1, some (now + cb.recovery)⟩ := by
      refine ⟨?_, ?_, ?_⟩
      · simpa using hincr.state
      · simpa using hincr.failures
      · simp [Slot.put]
    have hopen : State.«open» ≠ .closed := by decide
    exact hset.transition hopen
  · exact hincr

end Refinement

end RedisCircuitBreaker

end RateGuardian
