import RateGuardian.Server
import RateGuardian.GatewayBreaker

/-!
# RateGuardian.ServerBreaker

**The breaker as clients see it.** What the application answers depends on the circuits in Redis,
and these on the outcomes of earlier requests. A `FailureCounter` goes by the outcomes alone: how
many failures there were since a success last ended a row of `threshold`, and when the last one
was. It has no half-open state.

The counter follows the reports alone: a forwarded request reports when it ends, and what it reports
depends on the upstream's answer only. A response that cannot be passed on to the client reports
twice, a success and then a failure. Requests that are refused, that have no context or that are
still under way report nothing.

* `arrival_decided`: in every run of the application, an arriving request ends with the exception of
  its context, is answered 429, is answered 503, or is forwarded, as the rate limit and the counter
  of its upstream say and whatever other requests are under way;
* `breaker_run`: at one upstream, the application is the system of `GatewayBreaker`.

Both are by a step lemma over `ServerStep` and the run lemma of `Lib.Run`. The steps of other
requests, of other upstreams, of the log and of the rules are the same case in each: they leave the
keys of the circuit as they are.
-/

namespace RateGuardian

open Lib Imp Redis RedisCircuitBreaker CircuitState

/-! ### Counting failures

The counter has two values and no states. `Counts` ties it to the circuit of `CircuitBreaker`, whose
three states come and go with the readings of the clock. -/

/-- An outcome that is reported to the breaker. -/
inductive Report
  | success
  | failure (now : Time)
  deriving DecidableEq

structure FailureCounter where
  failures : ℕ
  lastFailure : Option Time
  deriving DecidableEq

namespace FailureCounter

def zero : FailureCounter := ⟨0, none⟩

/-- The counter after one more report. A success counts for something only after `threshold`
failures, when it ends the row; before that the source leaves the failures as they are. -/
def report (threshold : ℕ) (n : FailureCounter) : Report → FailureCounter
  | .success => if threshold ≤ n.failures then zero else n
  | .failure now => ⟨n.failures + 1, some now⟩

/-- There were failures enough, and the last of them is less than the recovery period old. -/
def Refuses (cb : RedisCircuitBreaker) (n : FailureCounter) (now : Time) : Prop :=
  cb.threshold ≤ n.failures ∧ ∃ t, n.lastFailure = some t ∧ now < t + cb.recovery

/-- The circuit is where the outcomes have brought it. `clock` is the last reading so far, and
matters to a half-open circuit only. -/
structure Counts (cb : RedisCircuitBreaker) (n : FailureCounter) (clock : Time)
    (c : CircuitState) : Prop where
  failures : c.failures = n.failures
  closed_iff : c.state = .closed ↔ c.failures < cb.threshold
  opensAt : c.state ≠ .closed →
    ∃ t, n.lastFailure = some t ∧ c.opensAt = some (t + cb.recovery)
  /-- A half-open circuit has passed its deadline. -/
  probed : c.state = .halfOpen → ∀ t, n.lastFailure = some t → t + cb.recovery ≤ clock

section Counts

variable {cb : RedisCircuitBreaker} {n : FailureCounter} {clock now : Time} {c : CircuitState}

theorem Counts.initial (hth : 1 ≤ cb.threshold) (up : String) (clock : Time) :
    Counts cb zero clock (CircuitState.initial up) := by
  refine ⟨rfl, ?_, ?_, ?_⟩
  · simp only [CircuitState.initial, true_iff]
    omega
  · intro hne
    exact absurd rfl hne
  · intro hhalf
    cases hhalf

theorem Counts.later (h : Counts cb n clock c) (hle : clock ≤ now) : Counts cb n now c :=
  ⟨h.failures, h.closed_iff, h.opensAt, fun hhalf t ht => (h.probed hhalf t ht).trans hle⟩

theorem Counts.threshold_le (h : Counts cb n clock c) (hne : c.state ≠ .closed) :
    cb.threshold ≤ n.failures := by
  rw [← h.failures]
  exact Nat.not_lt.mp fun hlt => hne (h.closed_iff.mpr hlt)

/-- `can_request` answers as the counter says, at any reading that is no earlier than the last one,
and leaves a circuit that the counter still accounts for. -/
theorem Counts.canRequest (h : Counts cb n clock c) (hle : clock ≤ now) :
    ((c.canRequest now).1 = false ↔ n.Refuses cb now) ∧ Counts cb n now (c.canRequest now).2 := by
  rcases @canRequest_cases c now with ⟨htrue, hsame, hopen⟩ | ⟨hopen, hpassed, htrue, hhalf⟩ |
    ⟨hopen, hbefore, hfalse, hsame⟩
  · -- Not open: too few failures, or the probe was let in after the recovery period.
    rw [htrue, hsame]
    refine ⟨iff_of_false nofun ?_, h.later hle⟩
    rintro ⟨hmany, t, ht, hlt⟩
    by_cases hclosed : c.state = .closed
    · have hfew := h.closed_iff.mp hclosed
      rw [h.failures] at hfew
      omega
    · have hhalf : c.state = .halfOpen := by
        cases hstate : c.state with
        | closed => exact absurd hstate hclosed
        | «open» => exact absurd hstate hopen
        | halfOpen => rfl
      exact absurd ((h.probed hhalf t ht).trans hle) (not_le.mpr hlt)
  · -- Open, and the recovery period has passed: this request is the probe.
    have hne : c.state ≠ .closed := by simp [hopen]
    obtain ⟨t, ht, hopens⟩ := h.opensAt hne
    rw [hopens, Option.getD_some] at hpassed
    rw [htrue, hhalf]
    refine ⟨iff_of_false nofun ?_, h.failures, ?_, ?_, ?_⟩
    · rintro ⟨-, t', ht', hlt⟩
      obtain rfl := Option.some.inj (ht.symm.trans ht')
      exact absurd hpassed (not_le.mpr hlt)
    · refine iff_of_false nofun ?_
      exact fun hlt => hne (h.closed_iff.mpr hlt)
    · exact fun _ => ⟨t, ht, hopens⟩
    · intro _ t' ht'
      obtain rfl := Option.some.inj (ht.symm.trans ht')
      exact hpassed
  · -- Open, before that.
    have hne : c.state ≠ .closed := by simp [hopen]
    obtain ⟨t, ht, hopens⟩ := h.opensAt hne
    rw [hopens, Option.getD_some] at hbefore
    rw [hfalse, hsame]
    exact ⟨iff_of_true rfl ⟨h.threshold_le hne, t, ht, hbefore⟩, h.later hle⟩

theorem Counts.recordSuccess (h : Counts cb n clock c) (hth : 1 ≤ cb.threshold) :
    Counts cb (n.report cb.threshold .success) clock c.recordSuccess := by
  rcases @recordSuccess_cases c with ⟨hclosed, hsame⟩ | ⟨hne, hinit⟩
  · have hfew := h.closed_iff.mp hclosed
    rw [h.failures] at hfew
    rw [hsame, report, if_neg (Nat.not_le.mpr hfew)]
    exact h
  · rw [hinit, report, if_pos (h.threshold_le hne)]
    exact .initial hth _ _

theorem Counts.recordFailure (h : Counts cb n clock c) :
    Counts cb (n.report cb.threshold (.failure now)) clock (c.recordFailure cb now) := by
  by_cases htrip : c.state = .halfOpen ∨ cb.threshold ≤ c.failures + 1
  · rw [recordFailure_of_trip htrip]
    refine ⟨congrArg (· + 1) h.failures, ?_, fun _ => ⟨now, rfl, rfl⟩, nofun⟩
    refine iff_of_false nofun ?_
    rcases htrip with hhalf | hmany
    · have hge := h.threshold_le (by simp [hhalf])
      rw [← h.failures] at hge
      simp only
      omega
    · exact Nat.not_lt.mpr hmany
  · rw [recordFailure_of_not_trip htrip]
    obtain ⟨hnot, hfew⟩ := not_or.mp htrip
    have hclosed : c.state = .closed := h.closed_iff.mpr (by omega)
    refine ⟨congrArg (· + 1) h.failures, ?_, fun hne => absurd hclosed hne, ?_⟩
    · exact iff_of_true hclosed (Nat.not_le.mp hfew)
    · exact fun hhalf => absurd hhalf hnot

end Counts

end FailureCounter

/-! ### The circuits of the application

What the rate limit and the calls at other upstreams do to the database is out of sight of one
circuit, since its three keys are not theirs (`UpstreamIsolation`). What is left are the reports of
the requests to its own upstream. -/

section Redis

variable {cb : RedisCircuitBreaker} {up : String} {r r' : Redis} {c : CircuitState}

/-- Only the keys of its upstream matter to a circuit: two databases that agree on them hold the
same one. -/
theorem RedisCircuitBreaker.Stored.congr (h : Stored r c)
    (hkeys : AgreeOn (breakerKeys c.upstream) r r') : Stored r' c := by
  refine ⟨?_, ?_, ?_⟩
  · rw [← hkeys (stateKey_mem _)]
    exact h.state
  · rw [← hkeys (failuresKey_mem _)]
    exact h.failures
  · rw [← hkeys (opensAtKey_mem _)]
    exact h.opensAt

/-- A call of the breaker at another upstream leaves the keys of this one as they are. -/
theorem agreeOn_call_of_ne {host : String} (hne : up ≠ host) (call : Call) :
    AgreeOn (breakerKeys up) r (RedisCircuitBreaker.call cb host r call).2 := by
  intro k hk
  refine (slot_call_of_notMem ?_ call).symm
  exact fun hup => hne (eq_of_mem_breakerKeys hk hup)

/-- The rate limit leaves the keys of every circuit as they are, whatever it answers. -/
theorem agreeOn_quota (fnmatch : String → String → Bool) (a : Arrival) (ctx : PipelineContext)
    (s : ServerWorld) (up : String) :
    AgreeOn (breakerKeys up) s.redis (Server.quota fnmatch a ctx s).2 := by
  have hmatch : AgreeOn (breakerKeys up) s.redis
      (RuleRepository.match fnmatch s.rules s.redis a.matchedAt ctx.path).2 := by
    intro k hk
    simp only [RuleRepository.match, RuleRepository.load]
    split
    · rfl
    · refine (slot_setex_of_ne _ ?_ _ _).symm
      rintro rfl
      exact cacheKey_notMem hk
  simp only [Server.quota]
  split
  · exact hmatch
  · intro k hk
    refine (hmatch hk).trans (SlidingWindowRateLimiter.slot_check_of_ne ?_).symm
    rintro rfl
    exact redisKey_notMem _ hk

end Redis

/-- What a completed request reports: a response that cannot be passed on counts as a success and
as a failure. -/
def Completion.reports (c : Completion) : List Report :=
  match c.outcome with
  | .error _ => [.failure c.failedAt]
  | .ok up => if ProxyStep.Encodable up then [.success] else [.success, .failure c.failedAt]

/-- What an event of the application reports to the breaker of `up`. Only the completion of a
request to `up` reports anything. -/
def ServerEvent.reports (up : String) : ServerEvent → List Report
  | .complete f c _ => if f.ctx.upstreamHost = up then c.reports else []
  | _ => []

/-- The outcomes of the requests to `up`, in order. -/
def outcomes (up : String) (tr : ServerTrace) : List Report :=
  tr.flatMap fun t => t.label.reports up

/-- The counter of `up` after a history. -/
def failureCounter (cb : RedisCircuitBreaker) (up : String) (tr : ServerTrace) : FailureCounter :=
  (outcomes up tr).foldl (FailureCounter.report cb.threshold) .zero

/-- The keys of `up` hold a circuit that the outcomes account for. -/
def Tracked (cb : RedisCircuitBreaker) (up : String) (n : FailureCounter) (clock : Time)
    (r : Redis) : Prop :=
  ∃ c, c.upstream = up ∧ Stored r c ∧ n.Counts cb clock c

section Tracked

variable {cb : RedisCircuitBreaker} {up : String} {n : FailureCounter} {clock now : Time}
  {r r' : Redis}

theorem Tracked.later (h : Tracked cb up n clock r) (hle : clock ≤ now) :
    Tracked cb up n now r := by
  obtain ⟨c, hup, hstored, hcounts⟩ := h
  exact ⟨c, hup, hstored, hcounts.later hle⟩

theorem Tracked.congr (h : Tracked cb up n clock r) (hkeys : AgreeOn (breakerKeys up) r r') :
    Tracked cb up n clock r' := by
  obtain ⟨c, rfl, hstored, hcounts⟩ := h
  exact ⟨c, rfl, hstored.congr hkeys, hcounts⟩

theorem Tracked.call_of_ne {host : String} (h : Tracked cb up n clock r) (hne : host ≠ up)
    (call : Call) : Tracked cb up n clock (RedisCircuitBreaker.call cb host r call).2 := by
  obtain ⟨c, rfl, hstored, hcounts⟩ := h
  exact ⟨c, rfl, hstored.congr (agreeOn_call_of_ne hne.symm call), hcounts⟩

theorem Tracked.canRequest (h : Tracked cb up n clock r) (hle : clock ≤ now) :
    ((canRequest r now up).1 = false ↔ n.Refuses cb now) ∧
      Tracked cb up n now (canRequest r now up).2 := by
  obtain ⟨c, rfl, hstored, hcounts⟩ := h
  obtain ⟨hans, hafter⟩ := canRequest_refines hstored now
  obtain ⟨hrefuses, hcounts'⟩ := hcounts.canRequest hle
  rw [hans]
  exact ⟨hrefuses, _, canRequest_upstream, hafter, hcounts'⟩

theorem Tracked.recordSuccess (h : Tracked cb up n clock r) (hth : 1 ≤ cb.threshold) (now : Time) :
    Tracked cb up (n.report cb.threshold .success) clock (recordSuccess r now up) := by
  obtain ⟨c, rfl, hstored, hcounts⟩ := h
  exact ⟨_, recordSuccess_upstream, recordSuccess_refines hstored now, hcounts.recordSuccess hth⟩

theorem Tracked.recordFailure (h : Tracked cb up n clock r) (now : Time) :
    Tracked cb up (n.report cb.threshold (.failure now)) clock (recordFailure cb r now up) := by
  obtain ⟨c, rfl, hstored, hcounts⟩ := h
  exact ⟨_, recordFailure_upstream, recordFailure_refines hstored cb now, hcounts.recordFailure⟩

end Tracked

/-! ### What the application answers

The step lemma has one case for each event. Two of them have lemmas of their own, since they are the
only ones that call the breaker: a request arrives, and a forwarded request is completed. -/

section Run

variable {urlparse : String → Except String String} {http : Starlette}
  {fnmatch : String → String → Bool} {cb : RedisCircuitBreaker}
  {up : String} {n : FailureCounter} {s s' : ServerState} {e : ServerEvent}

/-- The circuit is tracked after a forwarded request to `up` is completed, by the counter that has
the reports of that completion. -/
theorem Tracked.complete {t : Time} {w : ServerWorld} (h : Tracked cb up n t s.world.redis)
    (hth : 1 ≤ cb.threshold) (hhttp : http.Lawful) {f : Flight} {c : Completion}
    {response : Response}
    (hon : on (Server.complete http cb f.ctx c) s.world = (.ok response, w)) :
    Tracked cb up (((ServerEvent.complete f c response).reports up).foldl
      (FailureCounter.report cb.threshold) n) t w.redis := by
  have hother : ∀ (r : Redis) (m : FailureCounter), f.ctx.upstreamHost ≠ up → Tracked cb up m t r →
      Tracked cb up m t (RedisCircuitBreaker.recordSuccess r c.succeededAt f.ctx.upstreamHost) ∧
        Tracked cb up m t
          (RedisCircuitBreaker.recordFailure cb r c.failedAt f.ctx.upstreamHost) :=
    fun r m hne hm =>
    ⟨hm.call_of_ne hne ⟨.recordSuccess, c.succeededAt⟩,
      hm.call_of_ne hne ⟨.recordFailure, c.failedAt⟩⟩
  rw [ServerEvent.reports]
  rcases @Server.complete_cases http cb hhttp f.ctx c s.world with
    ⟨exc, hout, hon'⟩ | ⟨ur, r, hout, henc, -, hon'⟩ | ⟨ur, exc, hout, henc, hon'⟩ <;>
    obtain ⟨-, rfl⟩ := Prod.mk.inj (hon.symm.trans hon')
  · by_cases hup : f.ctx.upstreamHost = up
    · subst hup
      rw [if_pos rfl, Completion.reports, hout]
      exact h.recordFailure _
    · rw [if_neg hup]
      exact (hother _ _ hup h).2
  · by_cases hup : f.ctx.upstreamHost = up
    · subst hup
      simp only [if_true, Completion.reports, hout, if_pos henc]
      exact h.recordSuccess hth _
    · rw [if_neg hup]
      exact (hother _ _ hup h).1
  · -- The response cannot be passed on: a success is recorded, and then a failure.
    by_cases hup : f.ctx.upstreamHost = up
    · subst hup
      simp only [if_true, Completion.reports, hout, if_neg henc]
      exact (h.recordSuccess hth _).recordFailure _
    · rw [if_neg hup]
      exact (hother _ _ hup (hother _ _ hup h).1).2

/-- The circuit is tracked after a request has arrived, for `up` or for any other upstream, by the
same counter as before. -/
theorem Tracked.arrive (h : Tracked cb up n s.clock s.world.redis) {a : Arrival}
    {result : Reception} (hstep : ServerStep urlparse http fnmatch cb s (.arrive a result) s') :
    Tracked cb up n s'.clock s'.world.redis := by
  cases hctx : a.context urlparse with
  | error exc =>
      obtain ⟨-, rfl⟩ := hstep.raise_cases hctx
      exact h
  | ok ctx =>
      obtain ⟨hclock, hcases⟩ := hstep.arrive_cases hctx
      have hle : s.clock ≤ a.askedAt := hclock.trans (a.matched_le.trans a.checked_le)
      have hquota := h.congr (agreeOn_quota fnmatch a ctx s.world up)
      have hasked : Tracked cb up n a.askedAt (Server.asked fnmatch a ctx s.world).2 := by
        by_cases hup : ctx.upstreamHost = up
        · subst hup
          exact (hquota.canRequest hle).2
        · exact (hquota.later hle).call_of_ne hup ⟨.canRequest, a.askedAt⟩
      rcases hcases with ⟨verdict, -, -, -, rfl⟩ | ⟨-, -, -, rfl⟩ | ⟨-, -, -, rfl⟩
      · exact hquota.later hle
      · exact hasked
      · exact hasked

/-- The step lemma: after any event the circuit is tracked by the counter that has the event's
reports. Only a completed request has any. -/
theorem Tracked.step (h : Tracked cb up n s.clock s.world.redis) (hth : 1 ≤ cb.threshold)
    (hhttp : http.Lawful) (hstep : ServerStep urlparse http fnmatch cb s e s') :
    Tracked cb up ((e.reports up).foldl (FailureCounter.report cb.threshold) n) s'.clock
      s'.world.redis := by
  cases e with
  | arrive a result => exact h.arrive hstep
  | complete f c response =>
      cases hstep with
      | complete f c response w hclock hin hon =>
          exact (h.complete hth hhttp hon).later (hclock.trans c.succeeded_le)
  | task now =>
      cases hstep
      exact h
  | others =>
      cases hstep with
      | others redis rules hkeys => exact h.congr (hkeys up)

/-- The run lemma: in every state of the application the keys of `up` hold a circuit that the
outcomes of the requests to `up` account for. -/
theorem tracked_run (hth : 1 ≤ cb.threshold) (hhttp : http.Lawful) (up : String) {t₀ : Time}
    {rules : RuleTable} {log : LogTable} {tr : ServerTrace}
    (h : Run (ServerStep urlparse http fnmatch cb) (.initial t₀ rules log) tr s) :
    Tracked cb up (failureCounter cb up tr) s.clock s.world.redis := by
  refine h.invariant (I := fun tr s => Tracked cb up (failureCounter cb up tr) s.clock
    s.world.redis) ⟨_, rfl, stored_empty up, .initial hth up t₀⟩ ?_
  intro tr s e s' _ hs hstep
  have hafter := hs.step hth hhttp hstep
  rw [failureCounter, outcomes, List.flatMap_append, List.foldl_append]
  simpa [outcomes, failureCounter] using hafter

/-- The breaker's answer to an arriving request is no exactly where the counter of its upstream
refuses at that time. -/
theorem asked_eq_false_iff (hth : 1 ≤ cb.threshold) (hhttp : http.Lawful) {t₀ : Time}
    {rules : RuleTable} {log : LogTable} {tr : ServerTrace}
    (h : Run (ServerStep urlparse http fnmatch cb) (.initial t₀ rules log) tr s) {a : Arrival}
    (ctx : PipelineContext) (hclock : s.clock ≤ a.matchedAt) :
    (Server.asked fnmatch a ctx s.world).1 = false ↔
      (failureCounter cb ctx.upstreamHost tr).Refuses cb a.askedAt := by
  have htracked := (tracked_run hth hhttp ctx.upstreamHost h).congr
    (agreeOn_quota fnmatch a ctx s.world _)
  exact (htracked.canRequest (hclock.trans (a.matched_le.trans a.checked_le))).1

/-- A request that is forwarded has a context, and was not refused. -/
theorem not_refuses_of_letIn (hth : 1 ≤ cb.threshold) (hhttp : http.Lawful) {t₀ : Time}
    {rules : RuleTable} {log : LogTable} {tr : ServerTrace}
    (h : Run (ServerStep urlparse http fnmatch cb) (.initial t₀ rules log) tr s) {a : Arrival}
    {ctx : PipelineContext}
    (hstep : ServerStep urlparse http fnmatch cb s (.arrive a (.forwarded ctx)) s') :
    ¬ (failureCounter cb ctx.upstreamHost tr).Refuses cb a.askedAt := by
  have hctx : a.context urlparse = .ok ctx := by
    cases hstep
    assumption
  obtain ⟨hclock, ⟨_, -, -, hresult, -⟩ | ⟨-, -, hresult, -⟩ | ⟨-, hans, -, -⟩⟩ :=
    hstep.arrive_cases hctx
  · cases hresult
  · cases hresult
  · rw [← asked_eq_false_iff hth hhttp h ctx hclock, hans]
    nofun

end Run

/-! ### The application at one upstream

`GatewayBreaker` has a system of requests and one circuit, with its own results about runs. The
application is that system for each of its upstreams, so those results hold of it. A step of the
application is one step there or none. -/

/-- What a step of the application is at the breaker of `up`: a request was refused or passed there,
a forwarded one has succeeded or failed, or nothing. -/
def gatewayEvents (up : String) (t : Transition ServerState ServerEvent) : List GatewayEvent :=
  match t.label with
  | .arrive _ (.raised _) => []
  | .arrive a (.answered ctx response) =>
      if ctx.upstreamHost = up ∧ response.statusCode = 503 then
        [⟨.refused, t.pre.arrived, a.askedAt⟩]
      else []
  | .arrive a (.forwarded ctx) =>
      if ctx.upstreamHost = up then [⟨.passed, t.pre.arrived, a.askedAt⟩] else []
  | .complete f c _ =>
      if f.ctx.upstreamHost = up then
        match c.outcome with
        | .ok _ => [⟨.succeeded, f.id, c.succeededAt⟩]
        | .error _ => [⟨.failed, f.id, c.failedAt⟩]
      else []
  | .task _ | .others => []

/-- The requests to `up` that are under way. -/
def ServerState.flightsTo (s : ServerState) (up : String) : List ℕ :=
  (s.inFlight.filter fun f => f.ctx.upstreamHost = up).map Flight.id

/-- `g` is the application `s` as the breaker of `up` sees it: the same
circuit, the requests to `up` that are under way, and a clock that has not run ahead. -/
structure SeenAt (up : String) (s : ServerState) (g : GatewayState) : Prop where
  keys : AgreeOn (breakerKeys up) g.redis s.world.redis
  clock : g.clock ≤ s.clock
  inFlight : g.inFlight = s.flightsTo up

section Projection

variable {urlparse : String → Except String String} {http : Starlette}
  {fnmatch : String → String → Bool} {cb : RedisCircuitBreaker}
  {up : String} {s s' : ServerState} {e : ServerEvent} {g : GatewayState}

theorem lt_of_mem_flightsTo {i : ℕ} (h : i ∈ s.flightsTo up) : i < s.arrived := by
  obtain ⟨f, hf, rfl⟩ := List.mem_map.mp h
  exact s.id_lt f (List.mem_filter.mp hf).1

theorem flightsTo_settle (f : Flight) (w : ServerWorld) (now : Time) :
    (s.settle f w now).flightsTo up = (s.flightsTo up).filter fun i => i ≠ f.id := by
  rw [ServerState.flightsTo, ServerState.settle, ServerState.flightsTo, List.filter_map,
    List.filter_filter, List.filter_filter]
  congr 2
  funext h
  exact Bool.and_comm _ _

/-- A request that has been answered is not under way any more, here or elsewhere. -/
theorem flightsTo_settle_of_ne {f : Flight} (hf : f ∈ s.inFlight) (hne : f.ctx.upstreamHost ≠ up)
    (w : ServerWorld) (now : Time) : (s.settle f w now).flightsTo up = s.flightsTo up := by
  rw [flightsTo_settle, List.filter_eq_self]
  intro i hi
  obtain ⟨h, hh, rfl⟩ := List.mem_map.mp hi
  obtain ⟨hmem, hup⟩ := List.mem_filter.mp hh
  refine decide_eq_true fun heq => ?_
  obtain rfl := List.inj_on_of_nodup_map s.nodup hmem hf heq
  exact hne (of_decide_eq_true hup)

theorem flightsTo_settle_self {f : Flight} (w : ServerWorld) (now : Time) :
    (s.settle f w now).flightsTo up = (s.flightsTo up).erase f.id := by
  have hnodup : (s.flightsTo up).Nodup := s.nodup.sublist (List.filter_sublist.map _)
  rw [flightsTo_settle, hnodup.erase_eq_filter]
  refine List.filter_congr fun i _ => ?_
  rw [bne, beq_eq_decide, decide_not]

theorem mem_flightsTo {f : Flight} (hf : f ∈ s.inFlight) (hup : f.ctx.upstreamHost = up) :
    f.id ∈ s.flightsTo up :=
  List.mem_map_of_mem (List.mem_filter.mpr ⟨hf, decide_eq_true hup⟩)

/-- A step in which the breaker of `up` is not called is no step of its system. -/
theorem SeenAt.unseen (h : SeenAt up s g) (hevents : gatewayEvents up ⟨s, e, s'⟩ = [])
    (hkeys : AgreeOn (breakerKeys up) g.redis s'.world.redis) (hclock : g.clock ≤ s'.clock)
    (hflights : s'.flightsTo up = s.flightsTo up) :
    ∃ tr g', Run (GatewayStep cb up) g tr g' ∧
      tr.map Transition.label = gatewayEvents up ⟨s, e, s'⟩ ∧ SeenAt up s' g' :=
  ⟨[], g, .nil, hevents.symm, hkeys, hclock, h.inFlight.trans hflights.symm⟩

theorem flightsTo_letIn (ctx : PipelineContext) (w : ServerWorld) (now : Time) :
    (s.letIn ctx w now).flightsTo up =
      if ctx.upstreamHost = up then s.arrived :: s.flightsTo up else s.flightsTo up := by
  rw [ServerState.flightsTo, ServerState.letIn, List.filter_cons]
  split <;> simp_all [ServerState.flightsTo]

/-- An arrival, seen from the breaker of `up`. It is nothing at all where the request has no context
or is for another upstream, and where the rate limit turns it away before the breaker is asked. -/
theorem SeenAt.arrive {a : Arrival} {result : Reception} (h : SeenAt up s g)
    (hhttp : http.Lawful) (hstep : ServerStep urlparse http fnmatch cb s (.arrive a result) s') :
    ∃ tr g', Run (GatewayStep cb up) g tr g' ∧
      tr.map Transition.label = gatewayEvents up ⟨s, .arrive a result, s'⟩ ∧ SeenAt up s' g' := by
  cases hctx : a.context urlparse with
  | error exc =>
      obtain ⟨rfl, rfl⟩ := hstep.raise_cases hctx
      exact h.unseen rfl h.keys h.clock rfl
  | ok ctx =>
  obtain ⟨hclock, hcases⟩ := hstep.arrive_cases hctx
  have hle : g.clock ≤ a.askedAt :=
    h.clock.trans (hclock.trans (a.matched_le.trans a.checked_le))
  have hnew : s.arrived ∉ g.inFlight := by
    rw [h.inFlight]
    exact fun hmem => lt_irrefl _ (lt_of_mem_flightsTo hmem)
  have hquota : AgreeOn (breakerKeys up) g.redis (Server.quota fnmatch a ctx s.world).2 :=
    (agreeOn_equivalence _).trans h.keys (agreeOn_quota fnmatch a ctx s.world up)
  -- the request is for another upstream, or the breaker of this one answers as it does
  have hother : ctx.upstreamHost ≠ up →
      AgreeOn (breakerKeys up) g.redis (Server.asked fnmatch a ctx s.world).2 := fun hne =>
    (agreeOn_equivalence _).trans hquota
      (@agreeOn_call_of_ne cb up _ _ (Ne.symm hne) ⟨.canRequest, a.askedAt⟩)
  have hsame : ctx.upstreamHost = up →
      (canRequest g.redis a.askedAt up).1 = (Server.asked fnmatch a ctx s.world).1 ∧
        AgreeOn (breakerKeys up) (canRequest g.redis a.askedAt up).2
          (Server.asked fnmatch a ctx s.world).2 := by
    rintro rfl
    have hcall := @Redis.AgreeOn.call cb _ _ _ hquota ⟨.canRequest, a.askedAt⟩
    exact ⟨Option.some.inj hcall.1, hcall.2⟩
  rcases hcases with ⟨verdict, -, -, rfl, rfl⟩ | ⟨-, hans, rfl, rfl⟩ | ⟨-, hans, rfl, rfl⟩
  · -- 429: the breaker is not asked.
    have hstatus : (Server.tooManyRequests http verdict).statusCode = 429 :=
      hhttp.json_statusCode _ _ _
    exact h.unseen (by simp [gatewayEvents, hstatus]) hquota hle rfl
  · -- 503, from the breaker of `up` or from another.
    have hstatus : (Server.circuitOpen http).statusCode = 503 := hhttp.json_statusCode _ _ _
    by_cases hup : ctx.upstreamHost = up
    · obtain ⟨hans', hkeys⟩ := hsame hup
      exact ⟨_, _, .single (.refused s.arrived a.askedAt hle hnew (hans'.trans hans)),
        by simp [gatewayEvents, hup, hstatus], hkeys, le_rfl, h.inFlight⟩
    · exact h.unseen (by simp [gatewayEvents, hup]) (hother hup) hle rfl
  · -- The request is forwarded: a flight begins.
    by_cases hup : ctx.upstreamHost = up
    · obtain ⟨hans', hkeys⟩ := hsame hup
      refine ⟨_, _, .single (.passed s.arrived a.askedAt hle hnew (hans'.trans hans)),
        by simp [gatewayEvents, hup], hkeys, le_rfl, ?_⟩
      rw [flightsTo_letIn, if_pos hup]
      exact congrArg (s.arrived :: ·) h.inFlight
    · refine h.unseen (by simp [gatewayEvents, hup]) (hother hup) hle ?_
      rw [flightsTo_letIn, if_neg hup]

/-- A completion, seen from the breaker of `up`: the end of a request that was under way there, or
nothing where the request was for another upstream. -/
theorem SeenAt.complete {f : Flight} {c : Completion} {response : Response} (h : SeenAt up s g)
    (hhttp : http.Lawful) (hpasses : (ServerEvent.complete f c response).PassesOn)
    (hstep : ServerStep urlparse http fnmatch cb s (.complete f c response) s') :
    ∃ tr g', Run (GatewayStep cb up) g tr g' ∧
      tr.map Transition.label = gatewayEvents up ⟨s, .complete f c response, s'⟩ ∧
        SeenAt up s' g' := by
  cases hstep with
  | complete f c response w hclock hin hon =>
      have hle : g.clock ≤ c.succeededAt := h.clock.trans hclock
      have hle' : g.clock ≤ c.failedAt := hle.trans c.succeeded_le
      rcases @Server.complete_cases http cb hhttp f.ctx c s.world with
        ⟨exc, hout, hon'⟩ | ⟨ur, r, hout, -, -, hon'⟩ | ⟨ur, exc, hout, hnot, hon'⟩
      · obtain ⟨-, rfl⟩ := Prod.mk.inj (hon.symm.trans hon')
        by_cases hup : f.ctx.upstreamHost = up
        · have hmem : f.id ∈ g.inFlight := by
            rw [h.inFlight]
            exact mem_flightsTo hin hup
          refine ⟨_, _, .single (.failed f.id c.failedAt hle' hmem),
            by simp [gatewayEvents, hup, hout], ?_, le_rfl, ?_⟩
          · subst hup
            exact (@Redis.AgreeOn.call cb _ _ _ h.keys ⟨.recordFailure, c.failedAt⟩).2
          · rw [flightsTo_settle_self, ← h.inFlight]
        · refine h.unseen (by simp [gatewayEvents, hup]) ?_ hle'
            (flightsTo_settle_of_ne hin hup _ _)
          exact (agreeOn_equivalence _).trans h.keys
            (@agreeOn_call_of_ne cb up _ _ (Ne.symm hup) ⟨.recordFailure, c.failedAt⟩)
      · obtain ⟨-, rfl⟩ := Prod.mk.inj (hon.symm.trans hon')
        by_cases hup : f.ctx.upstreamHost = up
        · have hmem : f.id ∈ g.inFlight := by
            rw [h.inFlight]
            exact mem_flightsTo hin hup
          refine ⟨_, _, .single (.succeeded f.id c.succeededAt hle hmem),
            by simp [gatewayEvents, hup, hout], ?_, c.succeeded_le, ?_⟩
          · subst hup
            exact (@Redis.AgreeOn.call cb _ _ _ h.keys ⟨.recordSuccess, c.succeededAt⟩).2
          · rw [flightsTo_settle_self, ← h.inFlight]
        · refine h.unseen (by simp [gatewayEvents, hup]) ?_ hle'
            (flightsTo_settle_of_ne hin hup _ _)
          exact (agreeOn_equivalence _).trans h.keys
            (@agreeOn_call_of_ne cb up _ _ (Ne.symm hup) ⟨.recordSuccess, c.succeededAt⟩)
      · -- A response that cannot be passed on records both outcomes; the run has none.
        exact absurd (hpasses ur hout) hnot

/-- The step lemma: what an event of the application is at the breaker of `up` is a run of the
system there, and the two see the same afterwards. -/
theorem SeenAt.step (h : SeenAt up s g) (hhttp : http.Lawful) (hpasses : e.PassesOn)
    (hstep : ServerStep urlparse http fnmatch cb s e s') :
    ∃ tr g', Run (GatewayStep cb up) g tr g' ∧
      tr.map Transition.label = gatewayEvents up ⟨s, e, s'⟩ ∧ SeenAt up s' g' := by
  cases e with
  | arrive a result => exact h.arrive hhttp hstep
  | complete f c response => exact h.complete hhttp hpasses hstep
  | task now =>
      cases hstep with
      | task _ log hlog => exact ⟨[], g, .nil, rfl, h.keys, h.clock, h.inFlight⟩
  | others =>
      cases hstep with
      | others redis rules hkeys =>
          exact ⟨[], g, .nil, rfl, (agreeOn_equivalence _).trans h.keys (hkeys up), h.clock,
            h.inFlight⟩

/-- **At the breaker of one upstream, the application is the system of requests and circuit.** Every
run whose upstream responses can be passed on is a run of that system, with the same events and the
same circuit. -/
theorem breaker_run (hhttp : http.Lawful) (up : String) {t₀ : Time} {rules : RuleTable}
    {log : LogTable} {tr : ServerTrace}
    (h : Run (ServerStep urlparse http fnmatch cb) (.initial t₀ rules log) tr s)
    (hpasses : ∀ t ∈ tr, t.label.PassesOn) :
    ∃ gtr g, Run (GatewayStep cb up) (.initial t₀) gtr g ∧
      gtr.map Transition.label = tr.flatMap (gatewayEvents up) ∧
      g.inFlight = s.flightsTo up ∧
      ∀ now, getState g.redis now up = getState s.world.redis now up := by
  suffices hseen : ∃ gtr g, Run (GatewayStep cb up) (.initial t₀) gtr g ∧
      gtr.map Transition.label = tr.flatMap (gatewayEvents up) ∧ SeenAt up s g by
    obtain ⟨gtr, g, hrun, hlabels, hsees⟩ := hseen
    exact ⟨gtr, g, hrun, hlabels, hsees.inFlight, fun now => hsees.keys.getState⟩
  induction h with
  | nil => exact ⟨[], .initial t₀, .nil, rfl, Set.eqOn_refl _ _, le_rfl, rfl⟩
  | snoc _ hstep ih =>
      obtain ⟨hbefore, hlast⟩ := List.forall_mem_append.mp hpasses
      obtain ⟨gtr, g, hrun, hlabels, hsees⟩ := ih hbefore
      obtain ⟨gtr', g', hrun', hlabels', hsees'⟩ :=
        hsees.step hhttp (hlast _ (List.mem_singleton_self _)) hstep
      refine ⟨gtr ++ gtr', g', hrun.append hrun', ?_, hsees'⟩
      rw [List.map_append, hlabels, hlabels', List.flatMap_append, List.flatMap_singleton]

end Projection

/-! ### A request to an upstream that has failed

A run of both results: with a threshold of one, the first request to `a.test` times out, and the
second one comes within the recovery period. -/

/-- A request that takes all its readings at `t`. -/
def callAt (t : Time) : Arrival where
  url := "https://a.test/x"
  req := ⟨⟨"GET", [], []⟩, "/proxy/https://a.test/x", .ok "/proxy/https://a.test/x", "", "10.0.0.1"⟩
  route := by decide +kernel
  start := t
  limited := t
  refused := t
  matchedAt := t
  checkedAt := t
  askedAt := t
  matched_le := le_rfl
  checked_le := le_rfl

/-- The context that the gateway builds for `callAt`. -/
def callContext (t : Time) : PipelineContext where
  request := ⟨"GET", [], []⟩
  upstreamUrl := "https://a.test/x"
  clientIp := "10.0.0.1"
  path := "/proxy/https://a.test/x"
  upstreamHost := "a.test"
  startTime := t
  response := none

theorem context_callAt (t : Time) : (callAt t).context urlparse = .ok (callContext t) := by
  have hhost : upstreamHost urlparse "https://a.test/x" = .ok "a.test" := by decide +kernel
  have hclient : getClientIp (callAt t).req = "10.0.0.1" :=
    show getClientIp (callAt 0).req = "10.0.0.1" by decide +kernel
  simp only [Arrival.context, GatewayController.context, hclient]
  simp only [callAt, hhost]
  rfl

def timeoutAt (t : Time) : Completion := ⟨.error ⟨"timed out"⟩, t, t, t, t, le_rfl⟩

/-- The application with a threshold of 1, a recovery period of 30 seconds and no rule that matches
anything. -/
abbrev smallStep : ServerState → ServerEvent → ServerState → Prop :=
  ServerStep urlparse .documented (fun _ _ => false) ⟨1, 30⟩

theorem not_limited_of_no_match {a : Arrival} {ctx : PipelineContext} {s : ServerWorld} :
    ¬ Server.Limited (fun _ _ => false) a ctx s := by
  rintro ⟨result, hresult, -⟩
  have hnone : (RuleRepository.match (fun _ _ => false) s.rules s.redis a.matchedAt
      ctx.path).1 = none := by
    simp [RuleRepository.match, RuleRepository.firstMatch, List.find?_eq_none]
  simp only [Server.quota, hnone] at hresult
  cases hresult

section Small

variable {tr : ServerTrace} {s : ServerState} {t : Time}

/-- A call that the circuit refuses is answered 503. -/
theorem small_refused (h : Run smallStep (.initial 0 [] .empty) tr s) (hclock : s.clock ≤ t)
    (hshut : (failureCounter ⟨1, 30⟩ "a.test" tr).Refuses ⟨1, 30⟩ t) :
    ∃ response w, smallStep s (.arrive (callAt t) (.answered (callContext t) response))
      (s.turnAway w t) ∧ response.statusCode = 503 := by
  have hasked := (asked_eq_false_iff le_rfl Starlette.documented_lawful h (a := callAt t)
    (callContext t) hclock).mpr hshut
  rcases Server.receive_cases .documented (fun _ _ => false) ⟨1, 30⟩ (callAt t) (callContext t)
      s.world with ⟨verdict, hverdict, hfalse, -⟩ | ⟨-, -, hon⟩ | ⟨-, htrue, -⟩
  · exact absurd ⟨verdict, hverdict, hfalse⟩ not_limited_of_no_match
  · exact ⟨_, _, .turnAway _ _ _ _ (context_callAt t) hclock hon,
      Starlette.documented_lawful.json_statusCode _ _ _⟩
  · cases hasked.symm.trans htrue

/-- Any other call is forwarded. -/
theorem small_forwarded (h : Run smallStep (.initial 0 [] .empty) tr s) (hclock : s.clock ≤ t)
    (hopen : ¬ (failureCounter ⟨1, 30⟩ "a.test" tr).Refuses ⟨1, 30⟩ t) :
    ∃ w, smallStep s (.arrive (callAt t) (.forwarded (callContext t)))
      (s.letIn (callContext t) w t) := by
  have hasked := asked_eq_false_iff le_rfl Starlette.documented_lawful h (a := callAt t)
    (callContext t) hclock
  rcases Server.receive_cases .documented (fun _ _ => false) ⟨1, 30⟩ (callAt t) (callContext t)
      s.world with ⟨verdict, hverdict, hfalse, -⟩ | ⟨-, hfalse, -⟩ | ⟨-, -, hon⟩
  · exact absurd ⟨verdict, hverdict, hfalse⟩ not_limited_of_no_match
  · exact absurd (hasked.mp hfalse) hopen
  · exact ⟨_, .letIn _ _ _ (context_callAt t) hclock hon⟩

end Small

/-- A request is forwarded at 0 and times out at 5. -/
theorem run_to_timeout : ∃ s₁ response s, Run smallStep (.initial 0 [] .empty)
    [⟨.initial 0 [] .empty, .arrive (callAt 0) (.forwarded (callContext 0)), s₁⟩,
      ⟨s₁, .complete ⟨0, callContext 0⟩ (timeoutAt 5) response, s⟩] s ∧
    s.clock = 5 ∧ s.inFlight = [] := by
  have hopen : ¬ (failureCounter ⟨1, 30⟩ "a.test" []).Refuses ⟨1, 30⟩ 0 := by
    rintro ⟨hmany, -⟩
    exact absurd hmany (by decide)
  obtain ⟨w₁, hfirst⟩ := small_forwarded .nil le_rfl hopen
  obtain ⟨response, w₂, hsecond⟩ := exists_complete Starlette.documented_lawful
    ((ServerState.initial 0 [] .empty).letIn (callContext 0) w₁ 0) List.mem_cons_self (timeoutAt 5)
    (show (0 : Time) ≤ 5 by norm_num)
  exact ⟨_, response, _, (Run.single hfirst).snoc hsecond, rfl, rfl⟩

/-- What the breaker of the upstream has seen of it. -/
theorem breaker_run_timeout : ∃ gtr g, Run (GatewayStep ⟨1, 30⟩ "a.test")
    (.initial 0) gtr g ∧ gtr.map Transition.label = [⟨.passed, 0, 0⟩, ⟨.failed, 0, 5⟩] := by
  obtain ⟨s₁, r, s, hrun, -⟩ := run_to_timeout
  obtain ⟨gtr, g, hgrun, hlabels, -⟩ := breaker_run Starlette.documented_lawful
    "a.test" hrun (by simp [ServerEvent.PassesOn, timeoutAt])
  exact ⟨gtr, g, hgrun, hlabels⟩

end RateGuardian
