import RateGuardian.SharedBreaker
import RateGuardian.SharedLimiterSound

/-!
# RateGuardian.SharedFaults

**Calls that break off.** A Redis command can raise, and a process can die, so that a call of
`RedisCircuitBreaker` or of `SlidingWindowRateLimiter` ends after any of its commands and
leaves the keys as they are. Runs interleave the commands of `n` processes as in
`RateGuardian.SharedBreaker` and `RateGuardian.SharedLimiter`; in addition any call may end
at any point.

* The circuit may be left OPEN without a deadline, or CLOSED with an old one. It never gets
  stuck: every refusal goes back to a failure of the last `recovery` seconds that opened the
  circuit, and to `threshold` failures counted without a clearing (`cause_of_refuses`).
* The sorted set may keep the entry of a call that never returned, and may be left without an
  expiry. The limiter exceeds its limit by no more than without faults
  (`limit_bound_of_broken_calls`).
-/

namespace RateGuardian

open Lib Redis RedisCircuitBreaker

/-! ### The breaker

A call that breaks off leaves debts behind that nobody pays, so the invariants of `SharedBreaker` do
not hold here. What holds looks back instead: whatever the keys say, failures have brought it
about. -/

inductive FaultyBreakerEvent (n : ℕ)
  | go (e : BreakerEvent n)
  | breakOff (i : Fin n)
  deriving DecidableEq

inductive FaultyBreakerStep {n : ℕ} (cb : RedisCircuitBreaker) (up : String) :
    BreakerPool n → FaultyBreakerEvent n → BreakerPool n → Prop
  | go {s s' : BreakerPool n} {e : BreakerEvent n} (h : BreakerStep cb up s e s') :
      FaultyBreakerStep cb up s (.go e) s'
  /-- The call in progress returns nothing; its last command may have been executed. -/
  | breakOff {s : BreakerPool n} (i : Fin n) (hi : (s.point i).busy = true) :
      FaultyBreakerStep cb up s (.breakOff i)
        { s with point := Function.update s.point i (.done none) }

abbrev FaultyBreakerTransition (n : ℕ) := Transition (BreakerPool n) (FaultyBreakerEvent n)

/-- `record_failure` reads the clock to open the circuit. -/
def Trips {n : ℕ} (t : FaultyBreakerTransition n) : Prop :=
  ∃ i, t.label = .go (.command i) ∧ t.pre.point i = .tripping

/-- `can_request` returns False. -/
def Refuses {n : ℕ} (t : FaultyBreakerTransition n) : Prop :=
  ∃ i, t.label = .go (.command i) ∧ t.post.point i = .done (some false)

/-- The failures counted since the counter was deleted, after one more command. -/
def BreakerPoint.tally (k : ℕ) : BreakerPoint → ℕ
  | .counting _ => k + 1
  | .clearingFailures => 0
  | _ => k

def tallyStep {n : ℕ} (k : ℕ) (t : FaultyBreakerTransition n) : ℕ :=
  match t.label with
  | .go (.command i) => (t.pre.point i).tally k
  | _ => k

/-- The `INCR`s of the failure counter since it was last deleted. -/
def tally {n : ℕ} (tr : List (FaultyBreakerTransition n)) : ℕ := tr.foldl tallyStep 0

/-- There were `threshold` failures with no clearing in between. -/
def ThresholdMet {n : ℕ} (cb : RedisCircuitBreaker) (tr : List (FaultyBreakerTransition n)) :
    Prop :=
  ∃ tr₁, tr₁ <+: tr ∧ cb.threshold ≤ tally tr₁

/-- Some failure opened the circuit until `d`. -/
def DeadlineOf {n : ℕ} (cb : RedisCircuitBreaker) (tr : List (FaultyBreakerTransition n))
    (d : Time) : Prop :=
  ∃ u ∈ tr, Trips u ∧ d = u.pre.clock + cb.recovery

/-- The call has read a circuit that is not CLOSED, or is opening it. -/
def BreakerPoint.leavesClosed : BreakerPoint → Bool
  | .readingDeadline | .comparing _ | .probing | .tripping | .settingDeadline _ | .opening => true
  | .counting state => state != .closed
  | _ => false

/-! What a call knows, and what the keys hold, goes back to failures: `D` are the deadlines that
failures have set, `R` that the threshold was met. -/

structure PointCaused (D : Time → Prop) (R : Prop) (p : BreakerPoint) : Prop where
  setting : ∀ d, p = .settingDeadline d → D d
  comparing : ∀ d, p = .comparing d → d = 0 ∨ D d
  leaving : p.leavesClosed = true → R

structure CircuitCaused (D : Time → Prop) (R : Prop) (c : CircuitState) : Prop where
  opensAt : ∀ d, c.opensAt = some d → D d
  state : c.state ≠ .closed → R

section Caused

variable {cb : RedisCircuitBreaker} {now : Time} {D D' : Time → Prop} {R R' : Prop}
  {p : BreakerPoint} {c : CircuitState}

theorem PointCaused.mono (h : PointCaused D R p) (hD : ∀ d, D d → D' d) (hR : R → R') :
    PointCaused D' R' p :=
  ⟨fun d hd => hD d (h.setting d hd), fun d hd => (h.comparing d hd).imp_right (hD d),
    fun hleaves => hR (h.leaving hleaves)⟩

theorem CircuitCaused.mono (h : CircuitCaused D R c) (hD : ∀ d, D d → D' d) (hR : R → R') :
    CircuitCaused D' R' c :=
  ⟨fun d hd => hD d (h.opensAt d hd), fun hstate => hR (h.state hstate)⟩

/-- What is known of a point that holds no deadline: only that the threshold was met, where it says
so. -/
theorem pointCaused_of_plain (hset : ∀ d, p ≠ .settingDeadline d) (hcmp : ∀ d, p ≠ .comparing d)
    (hleaves : p.leavesClosed = true → R) : PointCaused D R p :=
  ⟨fun d hd => absurd hd (hset d), fun d hd => absurd hd (hcmp d), hleaves⟩

theorem pointCaused_done (answer : Option Bool) : PointCaused D R (.done answer) :=
  pointCaused_of_plain (fun _ h => by cases h) (fun _ h => by cases h) (fun h => by cases h)

theorem pointCaused_entry (op : Op) : PointCaused D R (.entry op) := by
  cases op <;>
    exact pointCaused_of_plain (fun _ h => by cases h) (fun _ h => by cases h)
      (fun h => by cases h)

theorem CircuitCaused.setState (h : CircuitCaused D R c) {state : State}
    (hstate : state ≠ .closed → R) : CircuitCaused D R { c with state := state } :=
  ⟨h.opensAt, hstate⟩

theorem BreakerPoint.commandOn_failures :
    (p.commandOn cb now c).2.failures = p.tally c.failures := by
  cases p with
  | asking => rw [commandOn_asking]; rfl
  | _ => rfl

/-- **One command.** It keeps what is known of the call and of the circuit, if the deadline that it
sets and the threshold that it meets are accounted for. -/
theorem caused_command (hp : PointCaused D R p) (hc : CircuitCaused D R c)
    (htrip : p = .tripping → D (now + cb.recovery))
    (hmet : cb.threshold ≤ p.tally c.failures → R) :
    PointCaused D R (p.commandOn cb now c).1 ∧ CircuitCaused D R (p.commandOn cb now c).2 := by
  have hplain : ∀ {q : BreakerPoint}, (∀ d, q ≠ .settingDeadline d) → (∀ d, q ≠ .comparing d) → R →
      PointCaused D R q := fun hset hcmp hR => pointCaused_of_plain hset hcmp fun _ => hR
  have hsilent : ∀ {q : BreakerPoint}, (∀ d, q ≠ .settingDeadline d) → (∀ d, q ≠ .comparing d) →
      q.leavesClosed = false → PointCaused D R q := fun hset hcmp hq =>
    pointCaused_of_plain hset hcmp fun h => absurd (hq.symm.trans h) Bool.false_ne_true
  cases p with
  | done answer => exact ⟨hp, hc⟩
  | asking =>
      rw [BreakerPoint.commandOn]
      cases hstate : c.state with
      | closed => exact ⟨pointCaused_done _, hc⟩
      | «open» =>
          have hR : R := hc.state (by rw [hstate]; decide)
          exact ⟨hplain (by simp) (by simp) hR, hc⟩
      | halfOpen => exact ⟨pointCaused_done _, hc⟩
  | readingDeadline =>
      refine ⟨⟨?_, ?_, fun _ => hp.leaving rfl⟩, hc⟩
      · intro d hd
        cases hd
      · -- A deadline, or the 0 read where there is none.
        intro d hd
        cases hopens : c.opensAt with
        | none =>
            simp only [BreakerPoint.commandOn, hopens, Option.getD_none,
              BreakerPoint.comparing.injEq] at hd
            exact Or.inl hd.symm
        | some d' =>
            simp only [BreakerPoint.commandOn, hopens, Option.getD_some,
              BreakerPoint.comparing.injEq] at hd
            exact Or.inr (hd ▸ hc.opensAt d' hopens)
  | comparing opensAt =>
      rw [BreakerPoint.commandOn]
      split
      · exact ⟨hplain (by simp) (by simp) (hp.leaving rfl), hc⟩
      · exact ⟨pointCaused_done _, hc⟩
  | probing => exact ⟨pointCaused_done _, hc.setState fun _ => hp.leaving rfl⟩
  | succeeding =>
      rw [BreakerPoint.commandOn]
      split
      · exact ⟨hsilent (by simp) (by simp) rfl, hc⟩
      · exact ⟨pointCaused_done _, hc⟩
  | closing =>
      -- CLOSED needs no cause.
      exact ⟨hsilent (by simp [BreakerPoint.commandOn]) (by simp [BreakerPoint.commandOn]) rfl,
        hc.setState fun hne => absurd rfl hne⟩
  | clearingFailures =>
      exact ⟨hsilent (by simp [BreakerPoint.commandOn]) (by simp [BreakerPoint.commandOn]) rfl,
        hc.opensAt, hc.state⟩
  | clearingDeadline =>
      refine ⟨pointCaused_done _, ?_, hc.state⟩
      intro d hd
      cases hd
  | failing =>
      -- A state that is read and is not CLOSED has a cause, which the call carries on.
      refine ⟨pointCaused_of_plain (by simp [BreakerPoint.commandOn])
        (by simp [BreakerPoint.commandOn]) ?_, hc⟩
      intro hread
      exact hc.state (bne_iff_ne.mp hread)
  | counting state =>
      refine ⟨?_, hc.opensAt, hc.state⟩
      rw [BreakerPoint.commandOn]
      split
      · -- The probe failed, or the count has reached the threshold.
        next htrips =>
        refine hplain (by simp) (by simp) ?_
        rcases htrips with rfl | hcount
        · exact hp.leaving rfl
        · exact hmet hcount
      · exact pointCaused_done _
  | tripping =>
      refine ⟨⟨?_, ?_, fun _ => hp.leaving rfl⟩, hc⟩
      · -- The deadline is counted from this reading of the clock.
        intro d hd
        cases hd
        exact htrip rfl
      · intro d hd
        cases hd
  | settingDeadline opensAt =>
      refine ⟨hplain (by simp [BreakerPoint.commandOn]) (by simp [BreakerPoint.commandOn])
        (hp.leaving rfl), ?_, hc.state⟩
      intro d hd
      cases hd
      exact hp.setting opensAt rfl
  | opening => exact ⟨pointCaused_done _, hc.setState fun _ => hp.leaving rfl⟩

end Caused

/-- What holds after every history: the counter counts the failures since its last deletion, and
everything that is not CLOSED goes back to failures. -/
structure FaultyInv {n : ℕ} (cb : RedisCircuitBreaker) (t₀ : Time) (c : CircuitState)
    (tr : List (FaultyBreakerTransition n)) (s : BreakerPool n) : Prop where
  stored : Stored s.redis c
  clock : t₀ ≤ s.clock
  failures : c.failures = tally tr
  points : ∀ i, PointCaused (DeadlineOf cb tr) (ThresholdMet cb tr) (s.point i)
  circuit : CircuitCaused (DeadlineOf cb tr) (ThresholdMet cb tr) c

section Runs

variable {n : ℕ} {cb : RedisCircuitBreaker} {up : String} {t₀ : Time} {s s' : BreakerPool n}
  {e : FaultyBreakerEvent n} {c : CircuitState} {tr tr' : List (FaultyBreakerTransition n)}
  {t : FaultyBreakerTransition n}

theorem tally_concat (tr : List (FaultyBreakerTransition n)) (t : FaultyBreakerTransition n) :
    tally (tr ++ [t]) = tallyStep (tally tr) t := by
  rw [tally, List.foldl_append]
  rfl

theorem DeadlineOf.mono (hsub : tr ⊆ tr') {d : Time} (h : DeadlineOf cb tr d) :
    DeadlineOf cb tr' d := by
  obtain ⟨u, hu, htrips, hd⟩ := h
  exact ⟨u, hsub hu, htrips, hd⟩

theorem ThresholdMet.mono (hpre : tr <+: tr') (h : ThresholdMet cb tr) : ThresholdMet cb tr' := by
  obtain ⟨tr₁, htr₁, hmet⟩ := h
  exact ⟨tr₁, htr₁.trans hpre, hmet⟩

theorem faultyInv_initial : FaultyInv cb t₀ (CircuitState.initial up) [] (.initial n t₀) := by
  refine ⟨stored_empty up, le_rfl, rfl, fun _ => pointCaused_done none, ?_, ?_⟩
  · intro d hd
    cases hd
  · intro hne
    exact absurd rfl hne

/-- The invariant is kept by a step that leaves the circuit alone: calls begin and end, and time
passes. -/
theorem FaultyInv.idle (h : FaultyInv cb t₀ c tr s) (hstored : Stored s'.redis c)
    (hclock : s.clock ≤ s'.clock) (hlabel : ∀ i, e ≠ .go (.command i))
    (hpoints : ∀ i, s'.point i = s.point i ∨ (∃ answer, s'.point i = .done answer) ∨
      ∃ op, s'.point i = .entry op) :
    FaultyInv cb t₀ c (tr ++ [⟨s, e, s'⟩]) s' := by
  have hD : ∀ d, DeadlineOf cb tr d → DeadlineOf cb (tr ++ [⟨s, e, s'⟩]) d :=
    fun d hd => hd.mono (List.subset_append_left _ _)
  have hR : ThresholdMet cb tr → ThresholdMet cb (tr ++ [⟨s, e, s'⟩]) :=
    fun hmet => hmet.mono (List.prefix_append _ _)
  refine ⟨hstored, h.clock.trans hclock, ?_, ?_, h.circuit.mono hD hR⟩
  · rw [tally_concat, h.failures, tallyStep]
    split
    · next i hi => exact absurd hi (hlabel i)
    · rfl
  · intro i
    rcases hpoints i with hsame | ⟨answer, hdone⟩ | ⟨op, hentry⟩
    · rw [hsame]
      exact (h.points i).mono hD hR
    · rw [hdone]
      exact pointCaused_done answer
    · rw [hentry]
      exact pointCaused_entry op

/-- The invariant is kept by a command of a process. -/
theorem FaultyInv.command (h : FaultyInv cb t₀ c tr s) {i : Fin n}
    (hpre : t.pre = s) (hlabel : t.label = .go (.command i))
    (hpost : t.post = s.advance cb c.upstream i) :
    FaultyInv cb t₀ ((s.point i).commandOn cb s.clock c).2 (tr ++ [t]) t.post := by
  obtain ⟨hpoint, hstored⟩ := command_refines h.stored cb s.clock (s.point i)
  have hD : ∀ d, DeadlineOf cb tr d → DeadlineOf cb (tr ++ [t]) d :=
    fun d hd => hd.mono (List.subset_append_left _ _)
  have hR : ThresholdMet cb tr → ThresholdMet cb (tr ++ [t]) :=
    fun hmet => hmet.mono (List.prefix_append _ _)
  have htally : tally (tr ++ [t]) = (s.point i).tally c.failures := by
    rw [tally_concat, h.failures, tallyStep, hlabel, hpre]
  have htrips : s.point i = .tripping → DeadlineOf cb (tr ++ [t]) (s.clock + cb.recovery) :=
    fun htrip => ⟨t, by simp, ⟨i, hlabel, hpre ▸ htrip⟩, by rw [hpre]⟩
  have hmet : cb.threshold ≤ (s.point i).tally c.failures → ThresholdMet cb (tr ++ [t]) :=
    fun hle => ⟨tr ++ [t], List.prefix_rfl, by rwa [htally]⟩
  obtain ⟨hp, hc⟩ := caused_command ((h.points i).mono hD hR) (h.circuit.mono hD hR) htrips hmet
  rw [hpost]
  refine ⟨hstored, h.clock, ?_, ?_, hc⟩
  · rw [BreakerPoint.commandOn_failures, htally]
  · intro j
    show PointCaused _ _ (Function.update s.point i
      ((s.point i).command cb c.upstream s.clock s.redis).1 j)
    rw [hpoint]
    by_cases hji : j = i
    · rw [hji, Function.update_self]
      exact hp
    · rw [Function.update_of_ne hji]
      exact (h.points j).mono hD hR

/-- The run lemma: in every state that is reached the keys hold a circuit that goes back to
failures. -/
theorem faultyInv_run (h : Run (FaultyBreakerStep cb up) (.initial n t₀) tr s) :
    ∃ c, c.upstream = up ∧ FaultyInv cb t₀ c tr s := by
  refine h.invariant (I := fun tr s => ∃ c, c.upstream = up ∧ FaultyInv cb t₀ c tr s)
    ⟨_, rfl, faultyInv_initial⟩ ?_
  rintro tr s e s' - ⟨c, rfl, hinv⟩ hstep
  cases hstep with
  | go hgo =>
      cases hgo with
      | tick now hle =>
          refine ⟨c, rfl, hinv.idle hinv.stored hle ?_ fun i => Or.inl rfl⟩
          intro i hi
          cases hi
      | call i op hi =>
          refine ⟨c, rfl, hinv.idle hinv.stored le_rfl ?_ ?_⟩
          · intro i hi
            cases hi
          · intro j
            by_cases hji : j = i
            · exact Or.inr (Or.inr ⟨op, by rw [hji]; exact Function.update_self ..⟩)
            · exact Or.inl (Function.update_of_ne hji ..)
      | command i hi => exact ⟨_, BreakerPoint.commandOn_upstream, hinv.command rfl rfl rfl⟩
  | breakOff i hi =>
      refine ⟨c, rfl, hinv.idle hinv.stored le_rfl ?_ ?_⟩
      · intro i hi
        cases hi
      · intro j
        by_cases hji : j = i
        · exact Or.inr (Or.inl ⟨none, by rw [hji]; exact Function.update_self ..⟩)
        · exact Or.inl (Function.update_of_ne hji ..)

/-- `can_request` returns False only after comparing a deadline that is still to come. -/
theorem BreakerPoint.commandOn_refuses {p : BreakerPoint} {now : Time} (hbusy : p.busy = true)
    (hrefuses : (p.commandOn cb now c).1 = .done (some false)) :
    ∃ d, p = .comparing d ∧ now < d := by
  cases p with
  | done => cases hbusy
  | asking =>
      rw [commandOn] at hrefuses
      split at hrefuses <;> simp at hrefuses
  | comparing d =>
      rw [commandOn] at hrefuses
      split at hrefuses
      · cases hrefuses
      · next hlate => exact ⟨d, rfl, not_le.mp hlate⟩
  | succeeding | counting =>
      rw [commandOn] at hrefuses
      split at hrefuses <;> simp at hrefuses
  | _ => simp [commandOn] at hrefuses

theorem FaultyBreakerStep.command_inv {i : Fin n}
    (h : FaultyBreakerStep cb up s (.go (.command i)) s') :
    (s.point i).busy = true ∧ s' = s.advance cb up i := by
  cases h with
  | go hgo =>
      cases hgo with
      | command _ hi => exact ⟨hi, rfl⟩

/-- **A refusal goes back to failures**, whatever the interleaving, and whichever calls break
off. -/
theorem cause_of_refuses (ht₀ : 0 ≤ t₀)
    (h : Run (FaultyBreakerStep cb up) (.initial n t₀) (tr ++ t :: tr') s) (hrefuses : Refuses t) :
    (∃ u ∈ tr, Trips u ∧ t.pre.clock < u.pre.clock + cb.recovery) ∧ ThresholdMet cb tr := by
  obtain ⟨hbefore, hstep, -⟩ := h.split_at
  obtain ⟨c, rfl, hinv⟩ := faultyInv_run hbefore
  obtain ⟨i, hlabel, hanswer⟩ := hrefuses
  rw [hlabel] at hstep
  obtain ⟨hbusy, hpost⟩ := hstep.command_inv
  rw [hpost] at hanswer
  have hpoint : ((t.pre.point i).command cb c.upstream t.pre.clock t.pre.redis).1 =
      .done (some false) := (Function.update_self ..).symm.trans hanswer
  rw [(command_refines hinv.stored cb t.pre.clock (t.pre.point i)).1] at hpoint
  obtain ⟨d, hcomparing, hlt⟩ := BreakerPoint.commandOn_refuses hbusy hpoint
  refine ⟨?_, (hinv.points i).leaving (by rw [hcomparing]; rfl)⟩
  rcases (hinv.points i).comparing d hcomparing with rfl | ⟨u, hu, htrips, rfl⟩
  · exact absurd (ht₀.trans hinv.clock) (not_le.mpr hlt)
  · exact ⟨u, hu, htrips, hlt⟩

/-- Once no failure is recent enough, the circuit lets requests pass again. -/
theorem canRequest_of_old_trips (ht₀ : 0 ≤ t₀)
    (h : Run (FaultyBreakerStep cb up) (.initial n t₀) tr s)
    (hold : ∀ u ∈ tr, Trips u → u.pre.clock + cb.recovery ≤ s.clock) :
    (canRequest s.redis s.clock up).1 = true := by
  obtain ⟨c, rfl, hinv⟩ := faultyInv_run h
  rw [(canRequest_refines hinv.stored s.clock).1, CircuitState.canRequest]
  cases c.state with
  | closed => rfl
  | halfOpen => rfl
  | «open» =>
      have hpast : c.opensAt.getD 0 ≤ s.clock := by
        cases hopens : c.opensAt with
        | none => exact ht₀.trans hinv.clock
        | some d =>
            obtain ⟨u, hu, htrips, rfl⟩ := hinv.circuit.opensAt d hopens
            exact hold u hu htrips
      simp only [if_pos hpast]

end Runs

/-! ### The limiter

The invariants of `SharedLimiterSound` hold here as they are. A call that breaks off is taken out of
the books as one that was not let in, and an `EXPIRE` that is executed without its call hearing of
it is a step of its own. -/

open SlidingWindowRateLimiter

namespace SharedState

variable {n : ℕ}

/-- The call of process `i` ends. Bookkeeping: it was not let in. -/
def giveUp (s : SharedState n) (i : Fin n) : SharedState n :=
  { s.moveTo i .idle with
    letIn := s.letIn.filter fun t => s.point i ≠ .letIn t ∧ s.point i ≠ .added t }

end SharedState

inductive FaultyCheckEvent (n : ℕ)
  | go (e : SharedEvent n)
  | breakOff (i : Fin n)
  | expireLost (i : Fin n)

inductive FaultyCheckStep {n : ℕ} (key : String) (limit w : ℤ) :
    SharedState n → FaultyCheckEvent n → SharedState n → Prop
  | go {s s' : SharedState n} {e : SharedEvent n} (h : SharedStep key limit w s e s') :
      FaultyCheckStep key limit w s (.go e) s'
  /-- The call in progress returns nothing; its last command may have been executed. -/
  | breakOff {s : SharedState n} (i : Fin n) (hi : s.point i ≠ .idle) :
      FaultyCheckStep key limit w s (.breakOff i) (s.giveUp i)
  /-- `EXPIRE` is executed, and the call does not hear of it. -/
  | expireLost {s : SharedState n} (i : Fin n) (now : Time) (hi : s.point i = .added now) :
      FaultyCheckStep key limit w s (.expireLost i)
        ({ s with redis := s.redis.expire s.clock (redisKey key) (w + 1) }.giveUp i)

section GiveUp

variable {n : ℕ} {key : String} {limit w : ℤ} {a : Time} {s s' : SharedState n} {i : Fin n}
  {e : FaultyCheckEvent n}

theorem mem_letIn_giveUp {t : Time} :
    t ∈ (s.giveUp i).letIn ↔ t ∈ s.letIn ∧ ¬ (s.point i).Owes t := by
  simp [SharedState.giveUp, CheckPoint.Owes]

theorem countP_giveUp_le : (s.giveUp i).letIn.countP (Within a w) ≤ s.letIn.countP (Within a w) :=
  List.filter_sublist.countP_le

theorem Bookkept.giveUp (h : Bookkept key s) (i : Fin n) : Bookkept key (s.giveUp i) := by
  have hkept : ∀ t ∈ s.letIn, ¬ (s.point i).Owes t → t ∈ (s.giveUp i).letIn :=
    fun t ht howes => mem_letIn_giveUp.mpr ⟨ht, howes⟩
  refine ⟨?_, h.apart.moveOn (Or.inl rfl), h.readings_le, ?_, h.letIn_nodup.filter _, ?_,
    h.allowed_nodup, h.isZset⟩
  · refine forall_point_update i (pointKnown_of_none rfl) ?_
    intro j hji
    refine ⟨(h.points j).reading, ?_, ?_⟩
    · intro t ht hmem
      exact (h.points j).undecided t ht (mem_letIn_giveUp.mp hmem).1
    · intro t ht
      obtain ⟨hin, hout⟩ := (h.points j).owes t ht
      refine ⟨hkept t hin ?_, hout⟩
      intro howes
      exact h.ne_reading hji (reading_of_owes howes) (reading_of_owes ht) rfl
  · intro t ht
    exact h.letIn_sub t (mem_letIn_giveUp.mp ht).1
  · intro t ht
    refine hkept t (h.allowed_sub t ht) ?_
    intro howes
    exact ((h.points i).owes t howes).2 ht

theorem AllOwed.giveUp (h : AllOwed a w s) (i : Fin n) : AllOwed a w (s.giveUp i) := by
  intro t ht hin
  obtain ⟨hmem, hnot⟩ := mem_letIn_giveUp.mp ht
  refine exists_point_update (P := fun p => p.Owes t) (h t hmem hin) ?_
  intro howes
  exact absurd howes hnot

theorem Kept.giveUp (h : Kept key limit a w s) (i : Fin n) :
    Kept key limit a w (s.giveUp i) := by
  refine ⟨h.lasts, h.le_clock, countP_giveUp_le.trans_lt h.count, ?_⟩
  obtain ⟨lost, hcard, hfound⟩ := h.found
  refine ⟨lost, hcard, ?_⟩
  intro t ht hin
  obtain ⟨hmem, hnot⟩ := mem_letIn_giveUp.mp ht
  rcases hfound t hmem hin with hlost | hpending | hentry
  · exact Or.inl hlost
  · refine Or.inr (Or.inl (exists_point_update (P := fun p => p = .letIn t) hpending ?_))
    intro hi
    exact absurd (Or.inl hi) hnot
  · exact Or.inr (Or.inr hentry)

theorem Settling.giveUp (h : Settling limit a w s) (i : Fin n) :
    Settling limit a w (s.giveUp i) := by
  have hmoved : Settling limit a w (s.moveTo i .idle) := by
    refine h.moveOn ?_
    intro t ht _
    rcases ht with ht | ht <;> cases ht
  obtain ⟨late, hlate, hcount⟩ := hmoved
  exact ⟨late, hlate, (Nat.add_le_add_right countP_giveUp_le _).trans_lt hcount⟩

theorem WindowInv.giveUp (h : WindowInv key limit a w s) (i : Fin n) :
    WindowInv key limit a w (s.giveUp i) := by
  rcases h with ⟨hin, howed | hkept⟩ | ⟨hout, hsettling⟩
  · exact Or.inl ⟨hin, Or.inl (howed.giveUp i)⟩
  · exact Or.inl ⟨hin, Or.inr (hkept.giveUp i)⟩
  · exact Or.inr ⟨hout, hsettling.giveUp i⟩

/-! An `EXPIRE` that reaches the database, before its call gives up -/

theorem Bookkept.expired (h : Bookkept key s) (ttl : Time) :
    Bookkept key { s with redis := s.redis.expire s.clock (redisKey key) ttl } := by
  refine ⟨h.points, h.apart, h.readings_le, h.letIn_sub, h.letIn_nodup, h.allowed_sub,
    h.allowed_nodup, ?_⟩
  show IsZset ((s.redis.expire s.clock (redisKey key) ttl).slot (redisKey key))
  rw [slot_expire_self]
  exact h.isZset.expire _ _

theorem WindowInv.expired (h : WindowInv key limit a w s) (hb : Bookkept key s)
    (hlimit : 1 ≤ limit) (hw : 1 ≤ w) {now : Time} (hi : s.point i = .added now) :
    WindowInv key limit a w
      { s with redis := s.redis.expire s.clock (redisKey key) (w + 1) } := by
  have hstay : Function.update s.point i (s.point i) = s.point := Function.update_eq_self i s.point
  -- nobody moves
  have hkept : Kept key limit a w ⟨s.clock, s.redis.expire s.clock (redisKey key) (w + 1),
      Function.update s.point i (s.point i), s.readings, s.letIn, s.allowed⟩ →
      Kept key limit a w { s with redis := s.redis.expire s.clock (redisKey key) (w + 1) } := by
    rw [hstay]
    exact id
  rcases h with ⟨hin, howed | h⟩ | ⟨hout, hsettling⟩
  · by_cases ha : a ≤ s.clock
    · exact Or.inl ⟨hin, Or.inr (hkept (howed.expire hb hlimit ha))⟩
    · exact Or.inl ⟨hin, Or.inl howed⟩
  · exact Or.inl ⟨hin, Or.inr (hkept (h.expire hw hi))⟩
  · exact Or.inr ⟨hout, hsettling⟩

/-- The step lemma, for a command of a call that goes on and for a call that breaks off. -/
theorem faultyCheck_step (hb : Bookkept key s) (h : ∀ a, WindowInv key limit a w s)
    (hlimit : 1 ≤ limit) (hw : 1 ≤ w) (hstep : FaultyCheckStep key limit w s e s') :
    Bookkept key s' ∧ ∀ a, WindowInv key limit a w s' := by
  cases hstep with
  | go hgo => exact ⟨hb.step hgo, fun a => (h a).step hb hlimit hw hgo⟩
  | breakOff i hi => exact ⟨hb.giveUp i, fun a => (h a).giveUp i⟩
  | expireLost i now hi =>
      exact ⟨(hb.expired _).giveUp i, fun a => ((h a).expired hb hlimit hw hi).giveUp i⟩

theorem windowInv_initial (hlimit : 1 ≤ limit) (t₀ a : Time) :
    WindowInv key limit a w (.initial n t₀) := by
  have hb : Bookkept key (.initial n t₀ : SharedState n) := bookkept_initial t₀
  have hnone : AllOwed a w (.initial n t₀ : SharedState n) := fun t ht => by cases ht
  by_cases hin : t₀ < a + w
  · exact Or.inl ⟨hin, Or.inl hnone⟩
  · exact Or.inr ⟨not_lt.mp hin,
      settling_of_inside (Or.inl hnone) hb hlimit t₀⟩

theorem faultyCheck_run (hlimit : 1 ≤ limit) (hw : 1 ≤ w) {t₀ : Time}
    {tr : List (Transition (SharedState n) (FaultyCheckEvent n))}
    (h : Run (FaultyCheckStep key limit w) (.initial n t₀) tr s) :
    Bookkept key s ∧ ∀ a, WindowInv key limit a w s := by
  refine h.invariant (I := fun _ s => Bookkept key s ∧ ∀ a, WindowInv key limit a w s)
    ⟨bookkept_initial t₀, windowInv_initial hlimit t₀⟩ ?_
  rintro tr s e s' - ⟨hb, hinv⟩ hstep
  exact faultyCheck_step hb hinv hlimit hw hstep

theorem windowBounded_of_inv (hb : Bookkept key s) (h : ∀ a, WindowInv key limit a w s)
    (hlimit : 1 ≤ limit) : WindowBounded (w : Time) (limit.toNat + 3 * n - 1) s.allowed := by
  have hsub : s.allowed.Subperm s.letIn := hb.allowed_nodup.subperm hb.allowed_sub
  refine windowBounded_of_ico ?_
  intro a
  have hcount := (h a).count_lt hb hlimit
  have hle : s.allowed.countP (Within a w) ≤ s.letIn.countP (Within a w) := hsub.countP_le _
  show s.allowed.countP (Within a w) ≤ _
  omega

end GiveUp

/-- **Calls that break off do not loosen the limit.** Whatever order the commands of `n` processes
interleave in, and whichever calls break off, no half-open interval of `w` seconds contains the
readings of more than `limit + 3 * n - 1` calls that return `allowed=True`. -/
theorem limit_bound_of_broken_calls {n : ℕ} {key : String} {limit w : ℤ} (hlimit : 1 ≤ limit)
    (hw : 1 ≤ w) {t₀ : Time} {s : SharedState n}
    {tr : List (Transition (SharedState n) (FaultyCheckEvent n))}
    (h : Run (FaultyCheckStep key limit w) (.initial n t₀) tr s) :
    WindowBounded (w : Time) (limit.toNat + 3 * n - 1) s.allowed := by
  obtain ⟨hb, hinv⟩ := faultyCheck_run hlimit hw h
  exact windowBounded_of_inv hb hinv hlimit

end RateGuardian
