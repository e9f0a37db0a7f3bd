import RateGuardian.CircuitBreaker
import RateGuardian.Lib.Run
import Mathlib.Tactic.Linarith

/-!
# RateGuardian.GatewayBreaker

**The gateway in front of one upstream, with any number of requests in flight.**
`ProxyStep` awaits the upstream between `CircuitBreakerStep`'s `can_request` and its own
`record_success` or `record_failure`, so other requests are admitted and completed in
between, in any order. Each of the three breaker methods runs without an `await`, so it is
one step here.

Two promises of the breaker are about such runs:

* an open circuit admits nothing before its deadline (`open_until_recovery`);
* a half-open circuit admits one probe (`single_probe_iff`).

Neither holds of every run. The breaker keeps no record of which requests it admitted when,
so a request from before the opening can close an open circuit, and nothing tells a second
half-open request from the probe. The results state exactly which steps to exclude, and
`late_success_admits_early` and `second_request_passes_half_open` are runs with such steps.

The proofs never look at a key. `GatewayStep.circuit_after` says what one event does to the circuit
that `get_state` reports, for circuits that are stored in the three keys, which all of them are
(`WellStored`). What is kept by every admissible step is then an invariant of runs: that an opened
circuit is shut (`ShutSince`), and that a half-open one has a probe out (`probe_out`).
-/

namespace RateGuardian

open Lib CircuitState RedisCircuitBreaker

/-! ### The step relation -/

/-- What a request does at the breaker of its upstream, each in one go. -/
inductive GatewayAction
  /-- `CircuitBreakerStep` with `can_request` answering `True`. -/
  | passed
  /-- `CircuitBreakerStep` with `can_request` answering `False`: the client gets a 503. -/
  | refused
  /-- `ProxyStep` after the upstream answered: `record_success`. -/
  | succeeded
  /-- `ProxyStep` after `forward` raised: `record_failure`. -/
  | failed
  deriving Repr, DecidableEq

structure GatewayEvent where
  action : GatewayAction
  request : ℕ
  now : Time
  deriving Repr, DecidableEq

structure GatewayState where
  redis : Redis
  clock : Time
  /-- The requests that were admitted and are not completed, by number. -/
  inFlight : List ℕ

namespace GatewayState

def initial (t₀ : Time) : GatewayState := ⟨.empty, t₀, []⟩

/-- The circuit as `get_state` reports it at the current reading. -/
def circuit (s : GatewayState) (up : String) : CircuitState := getState s.redis s.clock up

end GatewayState

inductive GatewayStep (cb : RedisCircuitBreaker) (up : String) :
    GatewayState → GatewayEvent → GatewayState → Prop
  | passed {s : GatewayState} (i : ℕ) (now : Time) (hclock : s.clock ≤ now)
      (hnew : i ∉ s.inFlight) (hans : (canRequest s.redis now up).1 = true) :
      GatewayStep cb up s ⟨.passed, i, now⟩ ⟨(canRequest s.redis now up).2, now, i :: s.inFlight⟩
  | refused {s : GatewayState} (i : ℕ) (now : Time) (hclock : s.clock ≤ now)
      (hnew : i ∉ s.inFlight) (hans : (canRequest s.redis now up).1 = false) :
      GatewayStep cb up s ⟨.refused, i, now⟩ ⟨(canRequest s.redis now up).2, now, s.inFlight⟩
  | succeeded {s : GatewayState} (i : ℕ) (now : Time) (hclock : s.clock ≤ now)
      (hin : i ∈ s.inFlight) :
      GatewayStep cb up s ⟨.succeeded, i, now⟩
        ⟨recordSuccess s.redis now up, now, s.inFlight.erase i⟩
  | failed {s : GatewayState} (i : ℕ) (now : Time) (hclock : s.clock ≤ now)
      (hin : i ∈ s.inFlight) :
      GatewayStep cb up s ⟨.failed, i, now⟩
        ⟨recordFailure cb s.redis now up, now, s.inFlight.erase i⟩

abbrev GatewayTransition := Transition GatewayState GatewayEvent

/-- The event is a call of `can_request`, whatever it answers. -/
def GatewayAction.asks : GatewayAction → Bool
  | .passed | .refused => true
  | .succeeded | .failed => false

/-! ### The circuit along a run -/

section Circuit

variable {cb : RedisCircuitBreaker} {up : String} {s s' : GatewayState} {e : GatewayEvent}

/-- The circuit after one event, by the state machine of the breaker. -/
def CircuitState.after (cb : RedisCircuitBreaker) (c : CircuitState) (e : GatewayEvent) :
    CircuitState :=
  match e.action with
  | .passed | .refused => (c.canRequest e.now).2
  | .succeeded => c.recordSuccess
  | .failed => c.recordFailure cb e.now

theorem GatewayStep.clock_eq (h : GatewayStep cb up s e s') : s'.clock = e.now := by
  cases h <;> rfl

theorem GatewayStep.clock_le (h : GatewayStep cb up s e s') : s.clock ≤ e.now := by
  cases h <;> assumption

/-- The three keys hold some circuit of this upstream. -/
def WellStored (up : String) (s : GatewayState) : Prop := Stored s.redis (s.circuit up)

theorem wellStored_of {c : CircuitState} (h : Stored s.redis c) (hc : c.upstream = up) :
    WellStored up s ∧ s.circuit up = c := by
  subst hc
  have hget : s.circuit c.upstream = c := getState_eq h s.clock
  exact ⟨by rw [WellStored, hget]; exact h, hget⟩

/-- **One step, on the state machine.** What the commands do to the keys is what the event does to
the circuit. -/
theorem GatewayStep.circuit_after (h : GatewayStep cb up s e s') (hs : WellStored up s) :
    WellStored up s' ∧ s'.circuit up = (s.circuit up).after cb e := by
  have hup : (s.circuit up).upstream = up := rfl
  cases h with
  | passed => exact wellStored_of (canRequest_refines hs _).2 canRequest_upstream
  | refused => exact wellStored_of (canRequest_refines hs _).2 canRequest_upstream
  | succeeded => exact wellStored_of (recordSuccess_refines hs _) recordSuccess_upstream
  | failed => exact wellStored_of (recordFailure_refines hs cb _) recordFailure_upstream

/-- What `can_request` answered is what the state machine answers. -/
theorem GatewayStep.answer (h : GatewayStep cb up s e s') (hs : WellStored up s)
    (hasks : e.action.asks = true) :
    e.action = .passed ↔ ((s.circuit up).canRequest e.now).1 = true := by
  have hans : ∀ now, (canRequest s.redis now up).1 = ((s.circuit up).canRequest now).1 :=
    fun now => (canRequest_refines hs now).1
  cases h with
  | passed _ _ _ _ htrue => simpa [← hans] using htrue
  | refused _ _ _ _ hfalse => simpa [← hans] using hfalse
  | succeeded => cases hasks
  | failed => cases hasks

theorem wellStored_initial (up : String) (t₀ : Time) : WellStored up (.initial t₀) :=
  (@wellStored_of up (.initial t₀) (CircuitState.initial up) (stored_empty up) rfl).1

theorem wellStored_run {t₀ : Time} {tr : List GatewayTransition}
    (h : Run (GatewayStep cb up) (.initial t₀) tr s) : WellStored up s := by
  refine h.invariant (I := fun _ s => WellStored up s) (wellStored_initial up t₀) ?_
  intro tr s e s' _ hs hstep
  exact (hstep.circuit_after hs).1

end Circuit

/-! ### An open circuit and its deadline -/

/-- The failure recorded by `t` moves the circuit to OPEN, where it was not before. -/
def Opens (up : String) (t : GatewayTransition) : Prop :=
  t.label.action = .failed ∧ (t.pre.circuit up).state ≠ .«open» ∧
    (t.post.circuit up).state = .«open»

/-- In `tr`, no request is admitted between an opening and its recovery deadline. -/
def ClosedToTraffic (cb : RedisCircuitBreaker) (up : String) (tr : List GatewayTransition) :
    Prop :=
  ∀ tr₁ t tr₂, tr = tr₁ ++ t :: tr₂ → Opens up t → ∀ u ∈ tr₂, u.label.action = .passed →
    ¬ (t.label.now ≤ u.label.now ∧ u.label.now < t.label.now + cb.recovery)

/-- No success is recorded on an open circuit before its deadline. Only a request admitted
before the circuit opened can do so. -/
def NoEarlySuccess (up : String) (s : GatewayState) (e : GatewayEvent) : Prop :=
  e.action = .succeeded → (s.circuit up).state = .«open» → (s.circuit up).opensAt.getD 0 ≤ e.now

/-- The circuit opened at `T`, and has been shut since or its recovery period is over. -/
structure ShutSince (cb : RedisCircuitBreaker) (up : String) (T : Time) (s : GatewayState) :
    Prop where
  le_clock : T ≤ s.clock
  shut : T + cb.recovery ≤ s.clock ∨
    (s.circuit up).state = .«open» ∧ ∃ d, (s.circuit up).opensAt = some d ∧ T + cb.recovery ≤ d

section ShutSince

variable {cb : RedisCircuitBreaker} {up : String} {s s' : GatewayState} {e : GatewayEvent}
  {T : Time}

/-- Before its deadline an open circuit answers `False` and stays as it is. -/
theorem canRequest_of_shut {c : CircuitState} {now d : Time} (hopen : c.state = .«open»)
    (hd : c.opensAt = some d) (hlt : now < d) : c.canRequest now = (false, c) := by
  have hnot : ¬ c.opensAt.getD 0 ≤ now := by
    rw [hd]
    exact not_le.mpr hlt
  rw [CircuitState.canRequest, hopen]
  exact if_neg hnot

/-- A late failure can only push the deadline of an open circuit back. -/
theorem recordFailure_of_open {c : CircuitState} {now d : Time} (hopen : c.state = .«open»)
    (hd : c.opensAt = some d) : (c.recordFailure cb now).state = .«open» ∧
      ((c.recordFailure cb now).opensAt = some d ∨
        (c.recordFailure cb now).opensAt = some (now + cb.recovery)) := by
  by_cases htrip : c.state = .halfOpen ∨ cb.threshold ≤ c.failures + 1
  · rw [recordFailure_of_trip htrip]
    exact ⟨rfl, Or.inr rfl⟩
  · rw [recordFailure_of_not_trip htrip]
    exact ⟨hopen, Or.inl hd⟩

/-- The step lemma: an opened circuit stays shut under every admissible event. -/
theorem ShutSince.step (h : ShutSince cb up T s) (hs : WellStored up s)
    (hstep : GatewayStep cb up s e s') (hguard : NoEarlySuccess up s e) :
    ShutSince cb up T s' := by
  have hclock := hstep.clock_eq
  have hle := hstep.clock_le
  refine ⟨by rw [hclock]; exact h.le_clock.trans hle, ?_⟩
  rcases h.shut with hpast | ⟨hopen, d, hd, hdead⟩
  · left
    rw [hclock]
    exact hpast.trans hle
  · by_cases hlt : e.now < d
    · right
      have hask := canRequest_of_shut hopen hd hlt
      rw [(hstep.circuit_after hs).2, CircuitState.after]
      cases hact : e.action with
      | passed => simpa only [hask] using ⟨hopen, d, hd, hdead⟩
      | refused => simpa only [hask] using ⟨hopen, d, hd, hdead⟩
      | succeeded =>
          have hreached := hguard hact hopen
          rw [hd] at hreached
          exact absurd hreached (not_le.mpr hlt)
      | failed =>
          obtain ⟨hopen', hd' | hd'⟩ := @recordFailure_of_open cb _ e.now d hopen hd
          · exact ⟨hopen', d, hd', hdead⟩
          · refine ⟨hopen', _, hd', ?_⟩
            have := h.le_clock
            linarith
    · left
      rw [hclock]
      exact hdead.trans (not_lt.mp hlt)

theorem ShutSince.run {tr : List GatewayTransition} (h : ShutSince cb up T s)
    (hs : WellStored up s)
    (hrun : Run (Guarded (GatewayStep cb up) (NoEarlySuccess up)) s tr s') :
    WellStored up s' ∧ ShutSince cb up T s' := by
  refine hrun.invariant (I := fun _ s => WellStored up s ∧ ShutSince cb up T s) ⟨hs, h⟩ ?_
  rintro tr s e s' - ⟨hs, h⟩ ⟨hstep, hguard⟩
  exact ⟨(hstep.circuit_after hs).1, h.step hs hstep hguard⟩

/-- A shut circuit admits nothing before the recovery period is over. -/
theorem ShutSince.le_of_passed (h : ShutSince cb up T s) (hs : WellStored up s)
    (hstep : GatewayStep cb up s e s') (hadm : e.action = .passed) : T + cb.recovery ≤ e.now := by
  rcases h.shut with hpast | ⟨hopen, d, hd, hdead⟩
  · exact hpast.trans hstep.clock_le
  · by_contra hnot
    have hlt : e.now < d := (not_le.mp hnot).trans_le hdead
    have hans := (hstep.answer hs (by rw [hadm]; rfl)).mp hadm
    rw [canRequest_of_shut hopen hd hlt] at hans
    cases hans

/-- A failure that opens the circuit sets its deadline. -/
theorem shutSince_of_opens {t : GatewayTransition} (ht : Opens up t) (hs : WellStored up t.pre)
    (hstep : GatewayStep cb up t.pre t.label t.post) : ShutSince cb up t.label.now t.post := by
  obtain ⟨hact, hnot, hopen⟩ := ht
  refine ⟨by rw [hstep.clock_eq], Or.inr ⟨hopen, ?_⟩⟩
  have hafter := (hstep.circuit_after hs).2
  rw [CircuitState.after, hact] at hafter
  rw [hafter] at hopen ⊢
  by_cases htrip : (t.pre.circuit up).state = .halfOpen ∨
      cb.threshold ≤ (t.pre.circuit up).failures + 1
  · rw [recordFailure_of_trip htrip]
    exact ⟨_, rfl, le_rfl⟩
  · rw [recordFailure_of_not_trip htrip] at hopen
    exact absurd hopen hnot

end ShutSince

/-- Of two requests admitted at 0 one fails at 10, which opens the circuit until 40; the other
succeeds at 11, and a third is admitted at 12. -/
theorem late_success_admits_early : ∃ tr s,
    Run (GatewayStep ⟨1, 30⟩ "svc") (.initial 0) tr s ∧ ¬ ClosedToTraffic ⟨1, 30⟩ "svc" tr := by
  refine ⟨_, _, .snoc (.snoc (.snoc (.snoc (.snoc .nil
    (.passed 1 0 ?_ ?_ ?_)) (.passed 2 0 ?_ ?_ ?_)) (.failed 1 10 ?_ ?_)) (.succeeded 2 11 ?_ ?_))
    (.passed 3 12 ?_ ?_ ?_), ?_⟩
  rotate_right
  · intro h
    have hlast : ∀ a b : GatewayTransition, b ∈ [a, b] := fun a b => by simp
    refine h [_, _] _ [_, _] rfl ⟨rfl, ?_, ?_⟩ _ (hlast _ _) rfl ⟨?_, ?_⟩ <;> decide +kernel
  all_goals decide +kernel

/-- **Open means closed to traffic**, in every run in which no success is recorded on an
open circuit before its deadline. -/
theorem open_until_recovery (cb : RedisCircuitBreaker) (up : String) (t₀ : Time)
    {tr : List GatewayTransition} {s : GatewayState}
    (h : Run (Guarded (GatewayStep cb up) (NoEarlySuccess up)) (.initial t₀) tr s) :
    ClosedToTraffic cb up tr := by
  rintro tr₁ t tr₂ rfl hopens u hu hadm ⟨-, hlt⟩
  obtain ⟨hrun₁, hstep, hrun₂⟩ := h.split_at
  have hs := wellStored_run hrun₁.of_guarded
  have hs' := (hstep.1.circuit_after hs).1
  obtain ⟨tr₃, tr₄, rfl⟩ := List.append_of_mem hu
  obtain ⟨hrun₃, hadmit, -⟩ := hrun₂.split_at
  obtain ⟨hsu, hshut⟩ := (shutSince_of_opens hopens hs hstep.1).run hs' hrun₃
  exact absurd (hshut.le_of_passed hsu hadmit.1 hadm) (not_le.mpr hlt)

/-- Open at 10, probed at 40, closed at 41, and the next request passes. -/
theorem recovery_run : ∃ tr s,
    Run (Guarded (GatewayStep ⟨1, 30⟩ "svc") (NoEarlySuccess "svc")) (.initial 0) tr s ∧
      tr.map (fun t => t.label.action) = [.passed, .failed, .passed, .succeeded, .passed] := by
  refine ⟨_, _, .snoc (.snoc (.snoc (.snoc (.snoc .nil
    ⟨.passed 1 0 ?_ ?_ ?_, nofun⟩) ⟨.failed 1 10 ?_ ?_, nofun⟩) ⟨.passed 2 40 ?_ ?_ ?_, nofun⟩)
    ⟨.succeeded 2 41 ?_ ?_, fun _ => ?_⟩) ⟨.passed 3 42 ?_ ?_ ?_, nofun⟩, rfl⟩
  all_goals decide +kernel

theorem open_until_recovery_probed : ∃ tr : List GatewayTransition,
    tr.map (fun t => t.label.action) = [.passed, .failed, .passed, .succeeded, .passed] ∧
      ClosedToTraffic ⟨1, 30⟩ "svc" tr := by
  obtain ⟨tr, s, h, hacts⟩ := recovery_run
  exact ⟨tr, hacts, open_until_recovery ⟨1, 30⟩ "svc" 0 h⟩

/-! ### One probe -/

def Completes (t : GatewayTransition) : Bool := !t.label.action.asks

def Admits (t : GatewayTransition) : Bool := t.label.action = .passed

/-- The request whose `can_request` moves the circuit from OPEN to HALF_OPEN. -/
def Probes (up : String) (t : GatewayTransition) : Prop :=
  t.label.action = .passed ∧ (t.pre.circuit up).state = .«open» ∧
    (t.post.circuit up).state = .halfOpen

/-- In `tr`, from a probe to the next completion one `can_request` answers `True`. -/
def SingleProbe (up : String) (tr : List GatewayTransition) : Prop :=
  ∀ tr₁ p tr₂ tr₃, tr = tr₁ ++ p :: (tr₂ ++ tr₃) → Probes up p →
    (∀ t ∈ tr₂, Completes t = false) → (p :: tr₂).countP Admits = 1

/-- No request reaches the breaker while the circuit is half-open. -/
def NoneAtHalfOpen (up : String) (tr : List GatewayTransition) : Prop :=
  ∀ t ∈ tr, t.label.action.asks = true → (t.pre.circuit up).state ≠ .halfOpen

section Probe

variable {cb : RedisCircuitBreaker} {up : String} {s s' : GatewayState} {e : GatewayEvent}
  {tr : List GatewayTransition} {t₀ : Time}

/-- How a circuit comes to be half-open: it was, or a probe was admitted. No completion
leaves it half-open. -/
theorem GatewayStep.halfOpen_cases (h : GatewayStep cb up s e s') (hs : WellStored up s)
    (hhalf : (s'.circuit up).state = .halfOpen) :
    e.action.asks = true ∧
      ((s.circuit up).state = .halfOpen ∨ Probes up ⟨s, e, s'⟩) := by
  have hafter := (h.circuit_after hs).2
  have hasked : ((s.circuit up).canRequest e.now).2.state = .halfOpen →
      (s.circuit up).state = .halfOpen ∨
        ((s.circuit up).state = .«open» ∧ ((s.circuit up).canRequest e.now).1 = true) := by
    intro hstate
    rcases @canRequest_cases (s.circuit up) e.now with
      ⟨-, hc, -⟩ | ⟨hopen, -, hans, -⟩ | ⟨-, -, -, hc⟩
    · rw [hc] at hstate
      exact Or.inl hstate
    · exact Or.inr ⟨hopen, hans⟩
    · rw [hc] at hstate
      exact Or.inl hstate
  have hprobe : e.action.asks = true → ((s.circuit up).canRequest e.now).2.state = .halfOpen →
      (s.circuit up).state = .halfOpen ∨ Probes up ⟨s, e, s'⟩ := by
    intro hasks hstate
    rcases hasked hstate with hold | ⟨hopen, hans⟩
    · exact Or.inl hold
    · exact Or.inr ⟨(h.answer hs hasks).mpr hans, hopen, hhalf⟩
  rw [hafter, CircuitState.after] at hhalf
  cases hact : e.action with
  | passed =>
      rw [hact] at hhalf hprobe
      exact ⟨rfl, hprobe rfl hhalf⟩
  | refused =>
      rw [hact] at hhalf hprobe
      exact ⟨rfl, hprobe rfl hhalf⟩
  | succeeded =>
      rw [hact] at hhalf
      rcases @recordSuccess_cases (s.circuit up) with ⟨hclosed, hc⟩ | ⟨-, hc⟩
      · simp [hc, hclosed] at hhalf
      · simp [hc, CircuitState.initial] at hhalf
  | failed =>
      rw [hact] at hhalf
      by_cases htrip : (s.circuit up).state = .halfOpen ∨
          cb.threshold ≤ (s.circuit up).failures + 1
      · simp [recordFailure_of_trip htrip] at hhalf
      · simp only [recordFailure_of_not_trip htrip] at hhalf
        exact absurd (Or.inl hhalf) htrip

/-- **A half-open circuit has a probe out.** In a run that ends half-open, some probe was
admitted and nothing has been completed since. -/
theorem probe_out (h : Run (GatewayStep cb up) (.initial t₀) tr s)
    (hhalf : (s.circuit up).state = .halfOpen) :
    ∃ tr₁ p tr₂, tr = tr₁ ++ p :: tr₂ ∧ Probes up p ∧ ∀ t ∈ tr₂, Completes t = false := by
  induction h with
  | nil => cases hhalf
  | @snoc tr s s' e hrun hstep ih =>
      obtain ⟨hasks, hold | hprobe⟩ := hstep.halfOpen_cases (wellStored_run hrun) hhalf
      · obtain ⟨tr₁, p, tr₂, rfl, hp, hrest⟩ := ih hold
        refine ⟨tr₁, p, tr₂ ++ [⟨s, e, s'⟩], by simp, hp, ?_⟩
        intro t ht
        rcases List.mem_append.mp ht with ht | ht
        · exact hrest t ht
        · rw [List.mem_singleton.mp ht, Completes, hasks]
          rfl
      · exact ⟨tr, ⟨s, e, s'⟩, [], rfl, hprobe, by simp⟩

/-- A half-open circuit answers `True` to whoever asks, and stays half-open. -/
theorem canRequest_of_halfOpen {c : CircuitState} {now : Time} (h : c.state = .halfOpen) :
    (c.canRequest now).1 = true := by
  rw [CircuitState.canRequest, h]

end Probe

/-- The circuit opens at 10; the probe is admitted at 40 and a second request at 41, while
the probe is still out. -/
theorem second_request_passes_half_open : ∃ tr s,
    Run (GatewayStep ⟨1, 30⟩ "svc") (.initial 0) tr s ∧ ¬ SingleProbe "svc" tr := by
  refine ⟨_, _, .snoc (.snoc (.snoc (.snoc .nil
    (.passed 1 0 ?_ ?_ ?_)) (.failed 1 10 ?_ ?_)) (.passed 2 40 ?_ ?_ ?_))
    (.passed 3 41 ?_ ?_ ?_), ?_⟩
  rotate_right
  · intro h
    have hcount := h [_, _] _ [_] [] rfl ⟨rfl, ?_, ?_⟩ ?_
    · revert hcount
      decide
    · decide +kernel
    · decide +kernel
    · decide
  all_goals decide +kernel

/-- **A half-open circuit admits one probe exactly in the runs in which no request reaches
the breaker while the circuit is half-open**: the source keeps no record of the probe. -/
theorem single_probe_iff (cb : RedisCircuitBreaker) (up : String) (t₀ : Time)
    {tr : List GatewayTransition} {s : GatewayState}
    (h : Run (GatewayStep cb up) (.initial t₀) tr s) :
    SingleProbe up tr ↔ NoneAtHalfOpen up tr := by
  constructor
  · intro hsingle t ht hasks hhalf
    obtain ⟨tr₁, tr₂, rfl⟩ := List.append_of_mem ht
    obtain ⟨hrun, hstep, -⟩ := h.split_at
    have hadm : t.label.action = .passed :=
      (hstep.answer (wellStored_run hrun) hasks).mpr (canRequest_of_halfOpen hhalf)
    obtain ⟨tr₃, p, tr₄, rfl, hp, hrest⟩ := probe_out hrun hhalf
    have hcount := hsingle tr₃ p (tr₄ ++ [t]) tr₂ (by simp) hp (by
      intro u hu
      rcases List.mem_append.mp hu with hu | hu
      · exact hrest u hu
      · rw [List.mem_singleton.mp hu, Completes, hasks]
        rfl)
    -- the probe and the request at `t` are two
    have hprobe : Admits p = true := by simp [Admits, hp.1]
    have hsecond : Admits t = true := by simp [Admits, hadm]
    rw [List.countP_cons_of_pos hprobe, List.countP_append, List.countP_singleton,
      hsecond] at hcount
    simp at hcount
  · rintro hnone tr₁ p tr₂ tr₃ rfl hp hrest
    have hprobe : Admits p = true := by simp [Admits, hp.1]
    obtain ⟨-, -, hrun⟩ := h.split_at
    cases tr₂ with
    | nil => simp [hprobe]
    | cons t tr₂ =>
        -- the first event after the probe would be a request at a half-open circuit
        obtain ⟨hpre, -, -⟩ := hrun.cons_inv
        have hasks : t.label.action.asks = true := by
          simpa [Completes] using hrest t (by simp)
        have hhalf : (t.pre.circuit up).state = .halfOpen := by
          rw [hpre]
          exact hp.2.2
        exact absurd hhalf (hnone t (by simp) hasks)

theorem single_probe_iff_probed : ∃ tr : List GatewayTransition,
    tr.map (fun t => t.label.action) = [.passed, .failed, .passed, .succeeded, .passed] ∧
      (SingleProbe "svc" tr ↔ NoneAtHalfOpen "svc" tr) := by
  obtain ⟨tr, s, h, hacts⟩ := recovery_run
  exact ⟨tr, hacts, single_probe_iff ⟨1, 30⟩ "svc" 0 h.of_guarded⟩

end RateGuardian
