import RateGuardian.ServerBreaker
import RateGuardian.Lib.Window

/-!
# RateGuardian.ServerOutage

**What an upstream that is down still gets.** While every request to an upstream fails, its circuit
lets a request through now and then to see whether it still does, and a half-open circuit lets
through every request that comes until the first of them has failed.

`outage_flow` says that this is not much. But for the requests that it takes to open the circuit, no
more of them are forwarded in any `recovery` seconds than are ever under way at once. With one
request at a time this is one probe per recovery period.

The invariant (`Outage`) goes by the counter of failures alone, and by the requests under way: every
request that was forwarded since the last failure has not been answered yet, because an answer would
have been a failure. So it does not matter which requests the rate limit turns away, or which end
without a context.
-/

namespace RateGuardian

open Lib Redis RedisCircuitBreaker

/-! ### The requests that are forwarded -/

namespace ServerEvent

/-- The reading at which the event forwards a request to `up`. -/
def forwards (up : String) : ServerEvent → Option Time
  | .arrive a (.forwarded ctx) => if ctx.upstreamHost = up then some a.askedAt else none
  | _ => none

/-- The event reports no success of `up`. -/
def Fails (up : String) (e : ServerEvent) : Prop := Report.success ∉ e.reports up

end ServerEvent

def forwardedAt (up : String) (tr : ServerTrace) : List Time :=
  tr.filterMap fun t => t.label.forwards up

theorem forwardedAt_concat (up : String) (tr : ServerTrace)
    (t : Transition ServerState ServerEvent) :
    forwardedAt up (tr ++ [t]) = forwardedAt up tr ++ (t.label.forwards up).toList := by
  rw [forwardedAt, List.filterMap_append, forwardedAt]
  cases h : t.label.forwards up <;> simp [h]

theorem failureCounter_concat (cb : RedisCircuitBreaker) (up : String) (tr : ServerTrace)
    (t : Transition ServerState ServerEvent) :
    failureCounter cb up (tr ++ [t]) =
      (t.label.reports up).foldl (FailureCounter.report cb.threshold)
        (failureCounter cb up tr) := by
  rw [failureCounter, outcomes, List.flatMap_append, List.foldl_append, List.flatMap_singleton]
  rfl

section Steps

variable {urlparse : String → Except String String} {http : Starlette}
  {fnmatch : String → String → Bool} {cb : RedisCircuitBreaker}
  {up : String} {s s' : ServerState} {e : ServerEvent}

theorem ServerStep.clock_le (h : ServerStep urlparse http fnmatch cb s e s') :
    s.clock ≤ s'.clock := by
  cases h with
  | raise a exc hctx => exact le_rfl
  | turnAway a ctx response w hctx hclock hon =>
      exact hclock.trans (a.matched_le.trans a.checked_le)
  | letIn a ctx w hctx hclock hon => exact hclock.trans (a.matched_le.trans a.checked_le)
  | complete f c response w hclock hin hon => exact hclock.trans c.succeeded_le
  | task now log hlog => exact le_rfl
  | others redis rules hkeys => exact le_rfl

/-- What a step can do at an upstream that fails: forward a request, record a failure, or
nothing. -/
theorem ServerStep.outage_cases (h : ServerStep urlparse http fnmatch cb s e s')
    (hfails : e.Fails up) :
    (∃ a ctx, e = .arrive a (.forwarded ctx) ∧ ctx.upstreamHost = up ∧ s'.clock = a.askedAt ∧
      s'.flightsTo up = s.arrived :: s.flightsTo up) ∨
    (e.forwards up = none ∧ e.reports up = [.failure s'.clock] ∧
      (s'.flightsTo up).length + 1 = (s.flightsTo up).length) ∨
    (e.forwards up = none ∧ e.reports up = [] ∧ s'.flightsTo up = s.flightsTo up) := by
  cases h with
  | raise a exc hctx => exact Or.inr (Or.inr ⟨rfl, rfl, rfl⟩)
  | turnAway a ctx response w hctx hclock hon => exact Or.inr (Or.inr ⟨rfl, rfl, rfl⟩)
  | letIn a ctx w hctx hclock hon =>
      by_cases hup : ctx.upstreamHost = up
      · refine Or.inl ⟨a, ctx, rfl, hup, rfl, ?_⟩
        rw [flightsTo_letIn, if_pos hup]
      · refine Or.inr (Or.inr ⟨?_, rfl, ?_⟩)
        · rw [ServerEvent.forwards, if_neg hup]
        · rw [flightsTo_letIn, if_neg hup]
  | complete f c response w hclock hin hon =>
      by_cases hup : f.ctx.upstreamHost = up
      · refine Or.inr (Or.inl ⟨rfl, ?_, ?_⟩)
        · simp only [ServerEvent.Fails, ServerEvent.reports, if_pos hup, Completion.reports]
            at hfails ⊢
          cases hout : c.outcome with
          | error exc => rfl
          | ok ur =>
              -- A success is recorded first, also where the response cannot be passed on.
              simp only [hout] at hfails
              split at hfails <;> simp at hfails
        · rw [flightsTo_settle_self]
          exact List.length_erase_add_one (mem_flightsTo hin hup)
      · refine Or.inr (Or.inr ⟨rfl, ?_, flightsTo_settle_of_ne hin hup w _⟩)
        rw [ServerEvent.reports, if_neg hup]
  | task now log hlog => exact Or.inr (Or.inr ⟨rfl, rfl, rfl⟩)
  | others redis rules hkeys => exact Or.inr (Or.inr ⟨rfl, rfl, rfl⟩)

/-! ### The flow -/

/-- The requests forwarded in an outage: those until the circuit opened, and the later ones. Of the
later ones, those since the last failure are all under way. -/
structure Outage (cb : RedisCircuitBreaker) (c : ℕ) (n : FailureCounter) (clock : Time)
    (flights : ℕ) (early late : List Time) : Prop where
  early_lt : early.length < cb.threshold + c
  closed : n.failures < cb.threshold → late = [] ∧ early.length ≤ n.failures + flights
  bounded : WindowBounded (cb.recovery : Time) c late
  le_clock : ∀ t ∈ late, t ≤ clock
  sinceFailure : ∃ before since, late = before ++ since ∧ since.length ≤ flights ∧
    ∀ t ∈ before, ∃ f, n.lastFailure = some f ∧ t ≤ f

namespace Outage

variable {c : ℕ} {n : FailureCounter} {clock now : Time} {flights flights' : ℕ}
  {early late : List Time}

theorem later (h : Outage cb c n clock flights early late) (hle : clock ≤ now) :
    Outage cb c n now flights early late :=
  ⟨h.early_lt, h.closed, h.bounded, fun t ht => (h.le_clock t ht).trans hle, h.sinceFailure⟩

/-- The invariant is kept by a request that the circuit does not refuse: it is forwarded, and under
way. -/
theorem forward (h : Outage cb c n clock flights early late) (hle : clock ≤ now)
    (hc : flights + 1 ≤ c) (hpassed : ¬ n.Refuses cb now) :
    ∃ early' late', early ++ late ++ [now] = early' ++ late' ∧
      Outage cb c n now (flights + 1) early' late' := by
  by_cases hfew : n.failures < cb.threshold
  · -- Closed: the request is an early one.
    obtain ⟨rfl, hearly⟩ := h.closed hfew
    refine ⟨early ++ [now], [], by simp, ?_, ?_, h.bounded, nofun, [], [], rfl, Nat.zero_le _,
      nofun⟩
    · rw [List.length_append, List.length_singleton]
      omega
    · refine fun _ => ⟨rfl, ?_⟩
      rw [List.length_append, List.length_singleton]
      omega
  · -- Of the later ones in its interval, all are under way with it.
    obtain ⟨before, since, rfl, hsince, hbefore⟩ := h.sinceFailure
    refine ⟨early, before ++ since ++ [now], by simp, h.early_lt, fun hlt => absurd hlt hfew, ?_,
      ?_, before, since ++ [now], by simp, by simpa using hsince, hbefore⟩
    · refine h.bounded.concat ?_
      -- the last failure is a recovery period ago
      have hnone : counted now (cb.recovery : Time) before = [] := by
        refine List.filter_eq_nil_iff.mpr ?_
        intro t ht hcounts
        obtain ⟨f, hf, htf⟩ := hbefore t ht
        have hpast : f + cb.recovery ≤ now :=
          not_lt.mp fun hlt => hpassed ⟨Nat.not_lt.mp hfew, f, hf, hlt⟩
        have hlate : now - cb.recovery < t := of_decide_eq_true hcounts
        linarith
      have hlength : (counted now (cb.recovery : Time) since).length ≤ since.length :=
        List.length_filter_le _ _
      rw [counted_append, hnone, List.nil_append]
      omega
    · intro t ht
      rcases List.mem_append.mp ht with ht | ht
      · exact (h.le_clock t ht).trans hle
      · exact (List.mem_singleton.mp ht).le

/-- The invariant is kept by a failure of a request that was under way. -/
theorem fail (h : Outage cb c n clock (flights + 1) early late) (hle : clock ≤ now) :
    Outage cb c (n.report cb.threshold (.failure now)) now flights early late := by
  refine ⟨h.early_lt, ?_, h.bounded, fun t ht => (h.le_clock t ht).trans hle, late, [], by simp,
    Nat.zero_le _, fun t ht => ⟨now, rfl, (h.le_clock t ht).trans hle⟩⟩
  intro hfew
  obtain ⟨hlate, hearly⟩ := h.closed (Nat.lt_of_succ_lt hfew)
  refine ⟨hlate, ?_⟩
  simp only [FailureCounter.report]
  omega

end Outage

end Steps

section Runs

variable {urlparse : String → Except String String} {http : Starlette}
  {fnmatch : String → String → Bool} {cb : RedisCircuitBreaker}
  {s₁ s : ServerState}

/-- **The flow to an upstream that is down.** In every run of the application, from any history on,
in which no request to `up` succeeds and never more than `c` of them are under way at once: all
requests forwarded to `up` but fewer than `threshold + c` at the beginning are so spread out that no
half-open interval of length `recovery` contains more than `c`. -/
theorem outage_flow (hth : 1 ≤ cb.threshold) (hhttp : http.Lawful) (up : String) (c : ℕ)
    {t₀ : Time} {rules : RuleTable} {log : LogTable} {tr₁ tr₂ : ServerTrace}
    (h₁ : Run (ServerStep urlparse http fnmatch cb) (.initial t₀ rules log) tr₁ s₁)
    (h₂ : Run (ServerStep urlparse http fnmatch cb) s₁ tr₂ s)
    (hfails : ∀ t ∈ tr₂, t.label.Fails up)
    (hflights : ∀ t ∈ tr₂, (t.post.flightsTo up).length ≤ c) :
    ∃ early late, forwardedAt up tr₂ = early ++ late ∧ early.length < cb.threshold + c ∧
      WindowBounded (cb.recovery : Time) c late := by
  suffices hinv : ∃ early late, forwardedAt up tr₂ = early ++ late ∧
      Outage cb c (failureCounter cb up (tr₁ ++ tr₂)) s.clock (s.flightsTo up).length early late by
    obtain ⟨early, late, htimes, hout⟩ := hinv
    exact ⟨early, late, htimes, hout.early_lt, hout.bounded⟩
  induction h₂ with
  | nil =>
      exact ⟨[], [], rfl, Nat.add_pos_left hth c, fun _ => ⟨rfl, Nat.zero_le _⟩,
        windowBounded_nil _ _, nofun, [], [], rfl, Nat.zero_le _, nofun⟩
  | @snoc tr s s' e hrun hstep ih =>
      obtain ⟨hfails, hlast⟩ := List.forall_mem_append.mp hfails
      obtain ⟨hflights, hlastFlights⟩ := List.forall_mem_append.mp hflights
      have hfail : e.Fails up := hlast _ (List.mem_singleton_self _)
      have hc : (s'.flightsTo up).length ≤ c := hlastFlights _ (List.mem_singleton_self _)
      obtain ⟨early, late, htimes, hout⟩ := ih hfails hflights
      rw [← List.append_assoc, failureCounter_concat, forwardedAt_concat, htimes]
      rcases hstep.outage_cases hfail with
        ⟨a, ctx, rfl, hup, hclock, hfl⟩ | ⟨hfwd, hreports, hfl⟩ | ⟨hfwd, hreports, hfl⟩
      · subst hup
        -- The circuit let the request pass: fewer failures than the threshold so far, or none
        -- for a recovery period.
        have hpassed := not_refuses_of_letIn hth hhttp (h₁.append hrun) hstep
        rw [hfl, List.length_cons] at hc ⊢
        have hle : s.clock ≤ a.askedAt := hclock ▸ hstep.clock_le
        obtain ⟨early', late', happend, hout'⟩ := hout.forward hle hc hpassed
        refine ⟨early', late', ?_, hclock.symm ▸ hout'⟩
        rw [← happend, ServerEvent.forwards, if_pos rfl]
        rfl
      · rw [hfwd, hreports, Option.toList_none, List.append_nil]
        rw [← hfl] at hout
        exact ⟨early, late, rfl, hout.fail hstep.clock_le⟩
      · rw [hfwd, hreports, hfl, Option.toList_none, List.append_nil]
        exact ⟨early, late, rfl, hout.later hstep.clock_le⟩

end Runs

/-! ### An outage of three recovery periods -/

/-- A history of calls that fail, with the readings at which they were forwarded and the counter
that they leave. -/
structure CallsInOutage (tr : ServerTrace) (s : ServerState) (times : List Time)
    (n : FailureCounter) : Prop where
  run : Run smallStep (.initial 0 [] .empty) tr s
  forwarded : forwardedAt "a.test" tr = times
  counter : failureCounter ⟨1, 30⟩ "a.test" tr = n
  fails : ∀ t ∈ tr, t.label.Fails "a.test"
  flights : ∀ t ∈ tr, (t.post.flightsTo "a.test").length ≤ 1

namespace CallsInOutage

variable {tr : ServerTrace} {s s' : ServerState} {times : List Time} {n : FailureCounter}
  {e : ServerEvent} {t : Time}

theorem snoc (h : CallsInOutage tr s times n) (hstep : smallStep s e s') (hfails : e.Fails "a.test")
    (hone : (s'.flightsTo "a.test").length ≤ 1) :
    CallsInOutage (tr ++ [⟨s, e, s'⟩]) s' (times ++ (e.forwards "a.test").toList)
      ((e.reports "a.test").foldl (FailureCounter.report 1) n) := by
  refine ⟨h.run.snoc hstep, ?_, ?_, ?_, ?_⟩
  · rw [forwardedAt_concat, h.forwarded]
  · rw [failureCounter_concat, h.counter]
  · exact List.forall_mem_append.mpr ⟨h.fails, List.forall_mem_singleton.mpr hfails⟩
  · exact List.forall_mem_append.mpr ⟨h.flights, List.forall_mem_singleton.mpr hone⟩

/-- A call that the circuit lets through, with nothing else under way. It times out five seconds
later. -/
theorem probe (h : CallsInOutage tr s times n) (hidle : s.inFlight = []) (hclock : s.clock ≤ t)
    (hopen : ¬ n.Refuses ⟨1, 30⟩ t) :
    ∃ tr' s', tr ⊆ tr' ∧ s'.inFlight = [] ∧ s'.clock = t + 5 ∧
      CallsInOutage tr' s' (times ++ [t]) ⟨n.failures + 1, some (t + 5)⟩ := by
  obtain ⟨w₁, hfirst⟩ := small_forwarded h.run hclock (h.counter.symm ▸ hopen)
  obtain ⟨response, w₂, hsecond⟩ := exists_complete Starlette.documented_lawful
    (s.letIn (callContext t) w₁ t) List.mem_cons_self (timeoutAt (t + 5))
    (show t ≤ t + 5 by linarith)
  have hflights : s.flightsTo "a.test" = [] := by
    rw [ServerState.flightsTo, hidle]
    rfl
  have hhost : (callContext t).upstreamHost = "a.test" := rfl
  have hone : (s.letIn (callContext t) w₁ t).flightsTo "a.test" = [s.arrived] := by
    rw [flightsTo_letIn, hflights, if_pos hhost]
  have hnone : ((s.letIn (callContext t) w₁ t).settle ⟨s.arrived, callContext t⟩ w₂
      (timeoutAt (t + 5)).failedAt).inFlight = [] := by
    simp [ServerState.settle, ServerState.letIn, hidle]
  have hforwards : (ServerEvent.arrive (callAt t) (.forwarded (callContext t))).forwards "a.test" =
      some t := by
    rw [ServerEvent.forwards, if_pos hhost]
    rfl
  have hreports : (ServerEvent.complete ⟨s.arrived, callContext t⟩ (timeoutAt (t + 5))
      response).reports "a.test" = [.failure (t + 5)] := by
    rw [ServerEvent.reports, if_pos hhost]
    rfl
  have hfails : (ServerEvent.complete ⟨s.arrived, callContext t⟩ (timeoutAt (t + 5))
      response).Fails "a.test" := by
    simp [ServerEvent.Fails, hreports]
  have hafter := (h.snoc hfirst List.not_mem_nil (by rw [hone]; exact le_rfl)).snoc hsecond hfails
    (by rw [ServerState.flightsTo, hnone]; exact Nat.zero_le _)
  rw [hforwards, hreports] at hafter
  refine ⟨_, _, ?_, hnone, rfl, List.append_nil (times ++ [t]) ▸ hafter⟩
  exact List.Subset.trans (List.subset_append_left _ _) (List.subset_append_left _ _)

end CallsInOutage

/-- The call at 0 opens the circuit, the call at 10 is answered 503, and those at 40 and at 80 are
the probes of the next recovery periods. -/
theorem run_through_outage : ∃ tr s n, CallsInOutage tr s [0, 40, 80] n ∧
    ∃ t ∈ tr, ∃ result, t.label = .arrive (callAt 10) result ∧ result.status = some 503 := by
  have hstart : CallsInOutage [] (.initial 0 [] .empty) [] .zero :=
    ⟨.nil, rfl, rfl, fun t ht => absurd ht List.not_mem_nil,
      fun t ht => absurd ht List.not_mem_nil⟩
  have hclosed : ¬ FailureCounter.zero.Refuses ⟨1, 30⟩ 0 := fun hrefuses =>
    absurd hrefuses.1 (by decide)
  obtain ⟨tr₁, s₁, -, hidle₁, hclock₁, h₁⟩ := hstart.probe rfl (show (0 : Time) ≤ 0 from le_rfl)
    hclosed
  rw [zero_add] at h₁ hclock₁
  have hshut : (⟨1, some 5⟩ : FailureCounter).Refuses ⟨1, 30⟩ 10 := ⟨le_rfl, 5, rfl, by norm_num⟩
  have hten : s₁.clock ≤ 10 := hclock₁.trans_le (by norm_num)
  obtain ⟨response, w, hrefused, hstatus⟩ := small_refused h₁.run hten (h₁.counter.symm ▸ hshut)
  have hnone : (s₁.turnAway w 10).inFlight = [] := hidle₁
  have h₂ := h₁.snoc hrefused List.not_mem_nil (by
    rw [ServerState.flightsTo, hnone]
    exact Nat.zero_le _)
  -- both probes come more than a recovery period after the last failure
  have hprobe : ∀ f t : Time, f + 30 ≤ t → ∀ k,
      ¬ (⟨k, some f⟩ : FailureCounter).Refuses ⟨1, 30⟩ t := by
    rintro f t hlate k ⟨-, f', hf, hlt⟩
    obtain rfl := Option.some.inj hf
    exact absurd hlt (not_lt.mpr (by exact_mod_cast hlate))
  obtain ⟨tr₃, s₃, hsub₃, hidle₃, hclock₃, h₃⟩ := h₂.probe hnone
    (show (10 : Time) ≤ 40 by norm_num) (hprobe 5 40 (by norm_num) _)
  obtain ⟨tr₄, s₄, hsub₄, -, -, h₄⟩ := h₃.probe hidle₃
    (hclock₃.trans_le (by norm_num : (40 : Time) + 5 ≤ 80)) (hprobe _ 80 (by norm_num) _)
  refine ⟨tr₄, s₄, _, h₄, _, hsub₄ (hsub₃ (List.mem_append_right _ (List.mem_singleton_self _))),
    _, rfl, ?_⟩
  exact congrArg some hstatus

/-- With one call at a time, the call that opens the circuit is followed by one probe in a recovery
period. -/
theorem outage_flow_timeout : ∃ (tr : ServerTrace) (early late : List Time),
    forwardedAt "a.test" tr = [0, 40, 80] ∧
    (∃ t ∈ tr, ∃ result, t.label = .arrive (callAt 10) result ∧ result.status = some 503) ∧
    [0, 40, 80] = early ++ late ∧ early.length < 1 + 1 ∧ WindowBounded 30 1 late := by
  obtain ⟨tr, s, n, h, hrefused⟩ := run_through_outage
  obtain ⟨early, late, htimes, hflow⟩ := outage_flow le_rfl Starlette.documented_lawful "a.test" 1
    .nil h.run h.fails h.flights
  exact ⟨tr, early, late, h.forwarded, hrefused, h.forwarded.symm.trans htimes, hflow⟩

end RateGuardian
