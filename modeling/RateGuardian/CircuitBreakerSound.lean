import RateGuardian.CircuitBreaker
import RateGuardian.Lib.Run
import Mathlib.Tactic.Linarith

/-!
# RateGuardian.CircuitBreakerSound

**The breaker's three keys as a function of its history.** A run is any list of
`can_request`, `record_success` and `record_failure` calls on one upstream, in whatever
order overlapping requests produce them.

`HistoryInv` ties what the keys hold to that list: the counter is the number of failures
since the circuit last closed, the three keys agree on whether it is closed, and the
deadline belongs to the latest failure. It is kept by each operation in each state
(`HistoryInv.canRequest`, `.recordSuccess`, `.recordFailure`).

The main results:

* `state_determined_by_history`: what `get_state` reports and what `can_request` answers is a
  function of the calls so far, whatever keys and commands they went through;
* `opens_on_consecutive_failures`: when the circuit opens on failures in a row.

The counter is *not* the number of consecutive failures: a success recorded while the
circuit is closed leaves it alone. So the second needs runs in which no such success is recorded
while failures are counted, and `success_does_not_reset_count` shows what happens otherwise.
-/

namespace RateGuardian

open Lib

namespace RedisCircuitBreaker

open CircuitState

/-! ### Runs of one upstream -/

/-- The three state-changing methods of `CircuitBreakerBase`. -/
inductive Op
  | canRequest
  | recordSuccess
  | recordFailure
  deriving Repr, DecidableEq

/-- A call, and the reading of the clock at the time of it. -/
structure Call where
  op : Op
  now : Time
  deriving Repr, DecidableEq

/-- Make one call; only `can_request` answers. -/
def call (cb : RedisCircuitBreaker) (up : String) (r : Redis) (c : Call) : Option Bool × Redis :=
  match c.op with
  | .canRequest => (some (canRequest r c.now up).1, (canRequest r c.now up).2)
  | .recordSuccess => (none, recordSuccess r c.now up)
  | .recordFailure => (none, recordFailure cb r c.now up)

/-- A recorded call, with the database before it and after it. -/
abbrev CallStep := Transition Redis (Call × Option Bool)

def isFailure (t : CallStep) : Bool := t.label.1.op = .recordFailure
def isSuccess (t : CallStep) : Bool := t.label.1.op = .recordSuccess

/-- The call found the circuit open or half-open and left it closed. -/
def movesToClosed (up : String) (t : CallStep) : Bool :=
  (getState t.pre t.label.1.now up).state ≠ .closed ∧
    (getState t.post t.label.1.now up).state = .closed

/-- The failures recorded since the circuit last moved to CLOSED, or since the start. -/
def failuresSinceClosed (up : String) (tr : List CallStep) : ℕ :=
  (tr.rtakeWhile (fun t => !movesToClosed up t)).countP isFailure

/-- The failures recorded in a row since the last recorded success, or since the start. -/
def consecutiveFailures (tr : List CallStep) : ℕ :=
  (tr.rtakeWhile (fun t => !isSuccess t)).countP isFailure

/-- When the most recent failure was recorded, which the deadline of an open circuit counts from. -/
def lastFailure (tr : List CallStep) : Option Time :=
  ((tr.filter isFailure).getLast?).map (fun t => t.label.1.now)

theorem failuresSinceClosed_concat (up : String) (tr : List CallStep) (t : CallStep) :
    failuresSinceClosed up (tr ++ [t]) =
      if movesToClosed up t then 0
      else failuresSinceClosed up tr + if isFailure t then 1 else 0 := by
  unfold failuresSinceClosed
  rw [List.rtakeWhile_concat]
  cases movesToClosed up t <;> simp [List.countP_append, List.countP_singleton]

theorem consecutiveFailures_concat (tr : List CallStep) (t : CallStep) :
    consecutiveFailures (tr ++ [t]) =
      if isSuccess t then 0 else consecutiveFailures tr + if isFailure t then 1 else 0 := by
  unfold consecutiveFailures
  rw [List.rtakeWhile_concat]
  cases isSuccess t <;> simp [List.countP_append, List.countP_singleton]

theorem lastFailure_concat (tr : List CallStep) (t : CallStep) :
    lastFailure (tr ++ [t]) = if isFailure t then some t.label.1.now else lastFailure tr := by
  unfold lastFailure
  rw [List.filter_append, List.filter_singleton]
  cases isFailure t <;> simp

theorem exists_of_lastFailure {tr : List CallStep} {t : Time} (h : lastFailure tr = some t) :
    ∃ f ∈ tr, isFailure f = true ∧ f.label.1.now = t := by
  obtain ⟨f, hf, rfl⟩ := Option.map_eq_some_iff.mp h
  obtain ⟨hmem, hfail⟩ := List.mem_filter.mp (List.mem_of_getLast? hf)
  exact ⟨f, hmem, hfail, rfl⟩

/-! ### The invariant -/

/-- What the circuit `c` of `up` has to do with the calls made so far. It is kept by every call in
every state. -/
structure HistoryInv (cb : RedisCircuitBreaker) (up : String) (tr : List CallStep)
    (c : CircuitState) : Prop where
  upstream : c.upstream = up
  failures : c.failures = failuresSinceClosed up tr
  closed_iff_lt : c.state = .closed ↔ c.failures < cb.threshold
  closed_iff_absent : c.state = .closed ↔ c.opensAt = none
  opensAt : c.state ≠ .closed →
    ∃ t, lastFailure tr = some t ∧ c.opensAt = some (t + cb.recovery)
  /-- A half-open circuit was admitted to at or after its deadline. -/
  probed : c.state = .halfOpen → ∃ t ∈ tr, c.opensAt.getD 0 ≤ t.label.1.now

theorem movesToClosed_eq {up : String} {t : CallStep} {c c' : CircuitState}
    (hpre : Stored t.pre c) (hpost : Stored t.post c') (hc : c.upstream = up)
    (hc' : c'.upstream = up) :
    movesToClosed up t = decide (c.state ≠ .closed ∧ c'.state = .closed) := by
  subst hc
  have hget' : getState t.post t.label.1.now c.upstream = c' := by
    rw [← hc', getState_eq hpost]
  rw [movesToClosed, getState_eq hpre, hget']

section Steps

variable {cb : RedisCircuitBreaker} {up : String} {tr : List CallStep} {c : CircuitState}
  {t : CallStep}

/-- A call that neither records a failure nor closes the circuit adds nothing to the count. -/
theorem HistoryInv.failures_of_other (h : HistoryInv cb up tr c) (hfail : isFailure t = false)
    (hmove : movesToClosed up t = false) : c.failures = failuresSinceClosed up (tr ++ [t]) := by
  rw [failuresSinceClosed_concat, hmove, hfail, h.failures]
  rfl

/-- A call that leaves the circuit alone, and is no failure, keeps the invariant as it is. -/
theorem HistoryInv.unchanged (h : HistoryInv cb up tr c) (hfail : isFailure t = false)
    (hmove : movesToClosed up t = false) : HistoryInv cb up (tr ++ [t]) c := by
  have hlast : lastFailure (tr ++ [t]) = lastFailure tr := by simp [lastFailure_concat, hfail]
  refine ⟨h.upstream, h.failures_of_other hfail hmove, h.closed_iff_lt, h.closed_iff_absent,
    fun hne => hlast ▸ h.opensAt hne, ?_⟩
  intro hhalf
  obtain ⟨u, hu, hle⟩ := h.probed hhalf
  exact ⟨u, List.mem_append_left _ hu, hle⟩

theorem HistoryInv.not_lt (h : HistoryInv cb up tr c) (hne : c.state ≠ .closed) :
    ¬ c.failures < cb.threshold :=
  fun hlt => hne (h.closed_iff_lt.mpr hlt)

theorem HistoryInv.canRequest (h : HistoryInv cb up tr c) (hpre : Stored t.pre c)
    (hpost : Stored t.post (c.canRequest t.label.1.now).2)
    (hop : t.label.1.op = .canRequest) :
    HistoryInv cb up (tr ++ [t]) (c.canRequest t.label.1.now).2 := by
  have hfail : isFailure t = false := by simp [isFailure, hop]
  have hlast : lastFailure (tr ++ [t]) = lastFailure tr := by simp [lastFailure_concat, hfail]
  have hmoves := movesToClosed_eq hpre hpost h.upstream (by simp [h.upstream])
  rcases @canRequest_cases c t.label.1.now with
    ⟨-, hc, -⟩ | ⟨hopen, hle, -, hc⟩ | ⟨-, -, -, hc⟩
  · rw [hc] at hmoves ⊢
    exact h.unchanged hfail (by rw [hmoves]; simp)
  · -- OPEN to HALF_OPEN: the deadline has been reached
    rw [hc] at hmoves ⊢
    have hmove : movesToClosed up t = false := by rw [hmoves]; simp
    have hne : c.state ≠ .closed := by
      rw [hopen]
      decide
    have hnot := h.not_lt hne
    have hsome : c.opensAt ≠ none := fun hnone => hne (h.closed_iff_absent.mpr hnone)
    refine ⟨h.upstream, h.failures_of_other hfail hmove, ?_, ?_, ?_, ?_⟩
    · simpa using hnot
    · simpa using hsome
    · intro _
      rw [hlast]
      exact h.opensAt hne
    · intro _
      exact ⟨t, by simp, hle⟩
  · rw [hc] at hmoves ⊢
    exact h.unchanged hfail (by rw [hmoves]; simp)

theorem HistoryInv.recordSuccess (h : HistoryInv cb up tr c) (hth : 1 ≤ cb.threshold)
    (hpre : Stored t.pre c) (hpost : Stored t.post c.recordSuccess)
    (hop : t.label.1.op = .recordSuccess) : HistoryInv cb up (tr ++ [t]) c.recordSuccess := by
  have hfail : isFailure t = false := by simp [isFailure, hop]
  have hmoves := movesToClosed_eq hpre hpost h.upstream (by simp [h.upstream])
  rcases @recordSuccess_cases c with ⟨hclosed, hc⟩ | ⟨hne, hc⟩
  · rw [hc] at hmoves ⊢
    exact h.unchanged hfail (by rw [hmoves]; simp [hclosed])
  · -- the circuit moves to CLOSED: nothing before this call counts any more
    rw [hc] at hmoves ⊢
    have hmove : movesToClosed up t = true := by rw [hmoves]; simp [hne, initial]
    refine ⟨h.upstream, ?_, ?_, by simp [initial], by simp [initial], by simp [initial]⟩
    · rw [failuresSinceClosed_concat, hmove]
      rfl
    · simp only [initial, true_iff]
      omega

theorem HistoryInv.recordFailure (h : HistoryInv cb up tr c)
    (hpre : Stored t.pre c) (hpost : Stored t.post (c.recordFailure cb t.label.1.now))
    (hop : t.label.1.op = .recordFailure) :
    HistoryInv cb up (tr ++ [t]) (c.recordFailure cb t.label.1.now) := by
  have hfail : isFailure t = true := by simp [isFailure, hop]
  have hlast : lastFailure (tr ++ [t]) = some t.label.1.now := by
    simp [lastFailure_concat, hfail]
  have hmoves := movesToClosed_eq hpre hpost h.upstream (by simp [h.upstream])
  by_cases htrip : c.state = .halfOpen ∨ cb.threshold ≤ c.failures + 1
  · rw [recordFailure_of_trip htrip] at hmoves ⊢
    have hmove : movesToClosed up t = false := by rw [hmoves]; simp
    -- a half-open circuit has reached the threshold already
    have hge : cb.threshold ≤ c.failures + 1 := by
      rcases htrip with hhalf | hge
      · have hnot := h.not_lt (by rw [hhalf]; decide)
        omega
      · exact hge
    refine ⟨h.upstream, ?_, ?_, by simp, fun _ => ⟨_, hlast, rfl⟩, by simp⟩
    · rw [failuresSinceClosed_concat, hmove, hfail]
      simp [h.failures]
    · simp only [reduceCtorEq, false_iff]
      omega
  · -- below the threshold the circuit was closed, and stays closed
    rw [recordFailure_of_not_trip htrip] at hmoves ⊢
    have hmove : movesToClosed up t = false := by rw [hmoves]; simp
    have hclosed : c.state = .closed := h.closed_iff_lt.mpr (by omega)
    have habsent := h.closed_iff_absent.mp hclosed
    refine ⟨h.upstream, ?_, ?_, by simp [hclosed, habsent], by simp [hclosed], by simp [hclosed]⟩
    · rw [failuresSinceClosed_concat, hmove, hfail]
      simp [h.failures]
    · simp only [hclosed, true_iff]
      omega

end Steps

/-- **The run lemma.** After any calls from an empty database the keys hold a circuit that
the history determines. -/
theorem historyInv_run (cb : RedisCircuitBreaker) (hth : 1 ≤ cb.threshold) {up : String}
    {tr : List CallStep} {r : Redis} (h : Run (Answers (call cb up)) .empty tr r) :
    ∃ c, Stored r c ∧ HistoryInv cb up tr c := by
  refine h.invariant (I := fun tr r => ∃ c, Stored r c ∧ HistoryInv cb up tr c)
    ⟨initial up, stored_empty up, ?_⟩ ?_
  · refine ⟨rfl, rfl, ?_, by simp [initial], by simp [initial], by simp [initial]⟩
    simp only [initial, true_iff]
    omega
  · rintro tr r ⟨⟨op, now⟩, ans⟩ r' - ⟨c, hstored, hinv⟩ hstep
    obtain rfl : c.upstream = up := hinv.upstream
    cases op with
    | canRequest =>
        obtain ⟨-, rfl⟩ := Prod.mk.inj hstep
        have hpost := (canRequest_refines hstored now).2
        exact ⟨_, hpost, hinv.canRequest hstored hpost rfl⟩
    | recordSuccess =>
        obtain ⟨-, rfl⟩ := Prod.mk.inj hstep
        have hpost := recordSuccess_refines hstored now
        exact ⟨_, hpost, hinv.recordSuccess hth hstored hpost rfl⟩
    | recordFailure =>
        obtain ⟨-, rfl⟩ := Prod.mk.inj hstep
        have hpost := recordFailure_refines hstored cb now
        exact ⟨_, hpost, hinv.recordFailure hstored hpost rfl⟩

/-! ### What an observer sees -/

/-- What `get_state` and `can_request` say at `now`, in terms of the calls made so far. -/
structure DeterminedBy (cb : RedisCircuitBreaker) (up : String) (tr : List CallStep) (now : Time)
    (r : Redis) : Prop where
  failures : (getState r now up).failures = failuresSinceClosed up tr
  closed_iff_lt : (getState r now up).state = .closed ↔ (getState r now up).failures < cb.threshold
  closed_iff_absent : (getState r now up).state = .closed ↔ (getState r now up).opensAt = none
  opensAt : (getState r now up).state ≠ .closed →
    ∃ t, lastFailure tr = some t ∧ (getState r now up).opensAt = some (t + cb.recovery)
  refuses : (canRequest r now up).1 = false ↔
    cb.threshold ≤ (getState r now up).failures ∧
      ∃ t, lastFailure tr = some t ∧ now < t + cb.recovery
  /-- The breaker cannot wedge: a recovery period after the last failure it lets requests pass. -/
  admits : (∀ f ∈ tr, isFailure f = true → f.label.1.now + cb.recovery ≤ now) →
    (canRequest r now up).1 = true

section Determined

variable {cb : RedisCircuitBreaker} {up : String} {tr : List CallStep} {c : CircuitState}
  {now : Time}

/-- The answer of `can_request`, at a reading no earlier call is ahead of. -/
theorem HistoryInv.refuses_iff (h : HistoryInv cb up tr c) (hnow : ∀ t ∈ tr, t.label.1.now ≤ now) :
    (c.canRequest now).1 = false ↔
      cb.threshold ≤ c.failures ∧ ∃ t, lastFailure tr = some t ∧ now < t + cb.recovery := by
  have hge : cb.threshold ≤ c.failures ↔ c.state ≠ .closed := by
    rw [Ne, h.closed_iff_lt, Nat.not_lt]
  constructor
  · intro hfalse
    rcases @canRequest_cases c now with
      ⟨htrue, -⟩ | ⟨-, -, htrue, -⟩ | ⟨hopen, hlt, -⟩
    · rw [htrue] at hfalse
      cases hfalse
    · rw [htrue] at hfalse
      cases hfalse
    · have hne : c.state ≠ .closed := by
        rw [hopen]
        decide
      obtain ⟨t, hlast, hopens⟩ := h.opensAt hne
      rw [hopens] at hlt
      exact ⟨hge.mpr hne, t, hlast, hlt⟩
  · rintro ⟨hthr, t, hlast, hlt⟩
    have hne : c.state ≠ .closed := hge.mp hthr
    obtain ⟨t', hlast', hopens⟩ := h.opensAt hne
    obtain rfl : t' = t := Option.some.inj (hlast'.symm.trans hlast)
    have hbefore : now < c.opensAt.getD 0 := by
      rw [hopens]
      exact hlt
    rcases @canRequest_cases c now with
      ⟨-, -, hnot⟩ | ⟨-, hle, -⟩ | ⟨-, -, hfalse, -⟩
    · -- neither closed nor open: half-open, so some call was made after the deadline
      have hhalf : c.state = .halfOpen := by
        rcases hstate : c.state with _ | _ | _
        · exact absurd hstate hne
        · exact absurd hstate hnot
        · rfl
      obtain ⟨u, hu, hle⟩ := h.probed hhalf
      exact absurd (hle.trans (hnow u hu)) (not_le.mpr hbefore)
    · exact absurd hle (not_le.mpr hbefore)
    · exact hfalse

theorem HistoryInv.determinedBy {r : Redis} (h : HistoryInv cb up tr c) (hr : Stored r c)
    (hnow : ∀ t ∈ tr, t.label.1.now ≤ now) : DeterminedBy cb up tr now r := by
  obtain rfl : c.upstream = up := h.upstream
  have hget := getState_eq hr now
  have hcan := (canRequest_refines hr now).1
  refine ⟨?_, ?_, ?_, ?_, ?_, ?_⟩ <;> simp only [hget, hcan]
  · exact h.failures
  · exact h.closed_iff_lt
  · exact h.closed_iff_absent
  · exact h.opensAt
  · exact h.refuses_iff hnow
  · intro hold
    rw [← Bool.not_eq_false, h.refuses_iff hnow]
    rintro ⟨-, t, hlast, hlt⟩
    obtain ⟨f, hf, hfail, rfl⟩ := exists_of_lastFailure hlast
    exact absurd (hold f hf hfail) (not_le.mpr hlt)

end Determined

/-- **The breaker's state is determined by its history**: after any calls on one upstream
from an empty database, at any reading the clock can have next. -/
theorem state_determined_by_history (cb : RedisCircuitBreaker) (hth : 1 ≤ cb.threshold)
    (up : String) {calls : List Call} {now : Time}
    (hclock : (calls.map Call.now ++ [now]).Pairwise (· ≤ ·)) :
    DeterminedBy cb up (trace (call cb up) .empty calls) now
      (final (call cb up) .empty calls) := by
  obtain ⟨c, hstored, hinv⟩ := historyInv_run cb hth (trace_run (call cb up) .empty calls)
  refine hinv.determinedBy hstored ?_
  intro t ht
  have hmem : t.label.1 ∈ calls := by
    rw [← trace_inputs (call cb up) .empty calls]
    exact List.mem_map_of_mem ht
  obtain ⟨-, -, hle⟩ := List.pairwise_append.mp hclock
  exact hle _ (List.mem_map_of_mem hmem) now (by simp)

/-- Two failures open the circuit at 1, a success of an older request closes it at 2, and
the next failure is counted from there. -/
theorem state_determined_by_history_late_success :
    DeterminedBy ⟨2, 30⟩ "svc" (trace (call ⟨2, 30⟩ "svc") .empty
      [⟨.recordFailure, 0⟩, ⟨.recordFailure, 1⟩, ⟨.recordSuccess, 2⟩, ⟨.recordFailure, 3⟩]) 4
      (final (call ⟨2, 30⟩ "svc") .empty
        [⟨.recordFailure, 0⟩, ⟨.recordFailure, 1⟩, ⟨.recordSuccess, 2⟩, ⟨.recordFailure, 3⟩]) :=
  state_determined_by_history ⟨2, 30⟩ (by decide) "svc" (by decide +kernel)

/-! ### Consecutive failures -/

/-- In `tr`, a failure recorded while CLOSED opens the circuit exactly when it is at least
the threshold-th in a row since the last success. -/
def OpensOnConsecutive (cb : RedisCircuitBreaker) (up : String) (tr : List CallStep) : Prop :=
  ∀ tr₁ t tr₂, tr = tr₁ ++ t :: tr₂ → isFailure t = true →
    (getState t.pre t.label.1.now up).state = .closed →
    ((getState t.post t.label.1.now up).state = .«open» ↔
      cb.threshold ≤ consecutiveFailures tr₁ + 1)

/-- No success is recorded while the circuit is CLOSED with failures counted: the source
has no branch that would reset the counter there. -/
def NothingToReset (up : String) (r : Redis) (l : Call × Option Bool) : Prop :=
  l.1.op = .recordSuccess → (getState r l.1.now up).state = .closed →
    (getState r l.1.now up).failures = 0

/-- While nothing is left to reset, the counter is the number of failures in a row. -/
theorem counter_consecutive_run {cb : RedisCircuitBreaker} {up : String} {tr : List CallStep}
    {r : Redis} (h : Run (Guarded (Answers (call cb up)) (NothingToReset up)) .empty tr r) :
    ∃ c, Stored r c ∧ c.upstream = up ∧ c.failures = consecutiveFailures tr := by
  refine h.invariant
    (I := fun tr r => ∃ c, Stored r c ∧ c.upstream = up ∧ c.failures = consecutiveFailures tr)
    ⟨initial up, stored_empty up, rfl, rfl⟩ ?_
  rintro tr r ⟨⟨op, now⟩, ans⟩ r' - ⟨c, hstored, rfl, hcount⟩ ⟨hstep, hguard⟩
  simp only [NothingToReset, getState_eq hstored] at hguard
  cases op with
  | canRequest =>
      obtain ⟨-, rfl⟩ := Prod.mk.inj hstep
      refine ⟨_, (canRequest_refines hstored now).2, canRequest_upstream, ?_⟩
      rw [consecutiveFailures_concat, canRequest_failures]
      simpa [isSuccess, isFailure] using hcount
  | recordSuccess =>
      obtain ⟨-, rfl⟩ := Prod.mk.inj hstep
      refine ⟨_, recordSuccess_refines hstored now, recordSuccess_upstream, ?_⟩
      rw [consecutiveFailures_concat]
      rcases @recordSuccess_cases c with ⟨hclosed, hc⟩ | ⟨-, hc⟩
      · rw [hc]
        simpa [isSuccess] using hguard rfl hclosed
      · rw [hc]
        simp [isSuccess, initial]
  | recordFailure =>
      obtain ⟨-, rfl⟩ := Prod.mk.inj hstep
      refine ⟨_, recordFailure_refines hstored cb now, recordFailure_upstream, ?_⟩
      rw [consecutiveFailures_concat, recordFailure_failures]
      simpa [isSuccess, isFailure] using hcount

/-- A failure recorded while CLOSED opens the circuit on the counter alone, whichever calls it
counts. -/
theorem recordFailure_opens_iff {cb : RedisCircuitBreaker} {c : CircuitState} {now : Time}
    (hclosed : c.state = .closed) :
    (c.recordFailure cb now).state = .«open» ↔ cb.threshold ≤ c.failures + 1 := by
  constructor
  · intro hopen
    by_contra hlt
    rw [recordFailure_of_not_trip (by simp [hclosed, hlt])] at hopen
    simp [hclosed] at hopen
  · intro hge
    rw [recordFailure_of_trip (Or.inr hge)]

/-- Two failures with a success between them open a circuit whose threshold is two. -/
theorem success_does_not_reset_count :
    ([0, 1, 2] : List Time).Pairwise (· ≤ ·) ∧
      ¬ OpensOnConsecutive ⟨2, 30⟩ "svc" (trace (call ⟨2, 30⟩ "svc") .empty
        [⟨.recordFailure, 0⟩, ⟨.recordSuccess, 1⟩, ⟨.recordFailure, 2⟩]) := by
  refine ⟨by decide +kernel, ?_⟩
  intro h
  have hiff := h _ _ [] rfl (by decide +kernel) (by decide +kernel)
  have hopen := hiff.mp (by decide +kernel)
  revert hopen
  decide +kernel

/-- **Consecutive failures open the circuit**, in every run in which no success is recorded
while the circuit is CLOSED with failures counted. -/
theorem opens_on_consecutive_failures (cb : RedisCircuitBreaker) (up : String)
    {tr : List CallStep} {r : Redis}
    (h : Run (Guarded (Answers (call cb up)) (NothingToReset up)) .empty tr r) :
    OpensOnConsecutive cb up tr := by
  rintro tr₁ ⟨r₁, ⟨⟨op, now⟩, ans⟩, r₂⟩ tr₂ rfl hfail hclosed
  obtain ⟨hrun, ⟨hstep, -⟩, -⟩ := h.split_at
  obtain ⟨c, hstored, rfl, hcount⟩ := counter_consecutive_run hrun
  obtain rfl : op = .recordFailure := by simpa [isFailure] using hfail
  obtain rfl : RedisCircuitBreaker.recordFailure cb r₁ now c.upstream = r₂ :=
    (Prod.mk.inj hstep).2
  have hpost : getState (RedisCircuitBreaker.recordFailure cb r₁ now c.upstream) now c.upstream =
      c.recordFailure cb now := by
    simpa using getState_eq (recordFailure_refines hstored cb now) now
  simp only [getState_eq hstored] at hclosed
  rw [← hcount, ← @recordFailure_opens_iff cb c now hclosed]
  simp only [hpost]

/-- Two failures in a row, with nothing to reset before them, open a circuit with that threshold. -/
theorem opens_on_consecutive_failures_two :
    OpensOnConsecutive ⟨2, 30⟩ "svc" (trace (call ⟨2, 30⟩ "svc") .empty
      [⟨.recordSuccess, 0⟩, ⟨.recordFailure, 1⟩, ⟨.recordFailure, 2⟩]) :=
  opens_on_consecutive_failures ⟨2, 30⟩ "svc"
    (.snoc (.snoc (.snoc .nil ⟨rfl, fun _ _ => by decide +kernel⟩) ⟨rfl, nofun⟩) ⟨rfl, nofun⟩)

end RedisCircuitBreaker

end RateGuardian
