import RateGuardian.Cluster

/-!
# RateGuardian.ClusterSound

**What a cluster does to one upstream and to one limiter key.** Every run of a cluster is, seen
from the circuit of an upstream, a run of the breaker's protocol with calls that break off
(`cluster_run_breaker`), and seen from a limiter key a run of the limiter's
(`cluster_run_limiter`). The commands on other keys, the other processes' commands among them, do
not show.

Both are simulations. A step of the cluster is matched by the steps of the protocol that it makes at
the upstream or at the key: by none for most of them, by one for a command there, and by a call that
breaks off for an exception or a crash. So what was proved of the protocols is carried over: that no
upstream is refused for longer than it should be (`cluster_never_stuck`), and the bound on what a
limiter key lets pass (`cluster_limit_bound`). The latter needs the readings of the key to be
distinct, and it is the only result here that does.
-/

namespace RateGuardian

open Lib Redis RedisCircuitBreaker SlidingWindowRateLimiter

/-! ### What a command touches

Frame lemmas for single commands, as `UpstreamIsolation` has them for whole calls. A command of a
call at one upstream, or of a `check` of one key, can be ignored wherever other keys are looked
at. -/

section Touches

variable {cb : RedisCircuitBreaker} {up k key : String} {limit w : ℤ} {now : Time} {r r' : Redis}

/-- A command of the breaker reads the keys of its upstream only: where these agree, it replies and
goes on in the same way. -/
theorem BreakerPoint.command_agreeOn (h : AgreeOn (breakerKeys up) r r') (p : BreakerPoint) :
    (p.command cb up now r).1 = (p.command cb up now r').1 ∧
      AgreeOn (breakerKeys up) (p.command cb up now r).2 (p.command cb up now r').2 := by
  have hstate := h.get (stateKey_mem up) now
  cases p with
  | asking =>
      rw [command, command, hstate]
      cases stateOf (r'.get now (stateKey up)) <;> exact ⟨rfl, h⟩
  | readingDeadline =>
      rw [command, command, h.get (opensAtKey_mem up)]
      exact ⟨rfl, h⟩
  | succeeding | failing =>
      rw [command, command, hstate]
      exact ⟨rfl, h⟩
  | counting state =>
      obtain ⟨hcount, hincr⟩ := h.incr (failuresKey_mem up) now
      refine ⟨?_, hincr⟩
      simp only [command, hcount]
  | probing | closing | clearingFailures | clearingDeadline | settingDeadline | opening =>
      exact ⟨rfl, h.modify _ _⟩
  | _ => exact ⟨rfl, h⟩

/-- It writes the keys of its upstream only, so all other slots are as they were. -/
theorem BreakerPoint.slot_command_of_notMem (hk : k ∉ breakerKeys up) (p : BreakerPoint) :
    (p.command cb up now r).2.slot k = r.slot k := by
  simp only [breakerKeys, Set.mem_insert_iff, Set.mem_singleton_iff, not_or] at hk
  obtain ⟨hstate, hfailures, hopens⟩ := hk
  cases p with
  | asking =>
      rw [command]
      cases stateOf (r.get now (stateKey up)) <;> rfl
  | probing | closing | opening => exact slot_set_of_ne _ hstate _
  | clearingFailures => exact slot_delete_of_ne _ hfailures
  | clearingDeadline => exact slot_delete_of_ne _ hopens
  | settingDeadline => exact slot_set_of_ne _ hopens _
  | counting => exact slot_incr_of_ne _ hfailures
  | _ => rfl

/-- A command of a `check` writes its key only, so all other slots are as they were. -/
theorem CheckPoint.slot_command_of_ne (hk : k ≠ redisKey key) (p : CheckPoint) :
    (p.command key limit w now r).2.slot k = r.slot k := by
  cases p with
  | started => exact slot_zremrangebyscore_of_ne _ hk _
  | letIn => exact slot_zadd_of_ne _ hk _ _
  | added => exact slot_expire_of_ne _ hk _
  | _ => rfl

end Touches

/-! ### The circuit of an upstream

The view (`BreakerView`) has the processes of the cluster at the points of their calls of the
breaker at `up`, and in no call otherwise. Where a process of the cluster dies or gets an exception
in the middle of such a call, the protocol has a call that breaks off. Most steps are of three
kinds, which have a lemma each: a jump from one place to another without a command, a command of a
call at some upstream, and a command of a `check`. -/

/-- What a process does, as far as the breaker of `up` is concerned: it is in a call, or in none. -/
def ShowsCall (up : String) (st : Stretch) (q : BreakerPoint) : Prop :=
  match st.callAt up with
  | some p => q = p
  | none => q.busy = false

structure BreakerView {n : ℕ} (up : String) (s : Cluster n) (b : BreakerPool n) : Prop where
  clock : b.clock = s.clock
  redis : AgreeOn (breakerKeys up) s.redis b.redis
  point : ∀ i, ShowsCall up (s.proc i) (b.point i)

/-- The moves of the breaker in one step of the cluster: what they show of the circuit is what the
step shows of it. -/
structure SameMoves {n : ℕ} (up : String) (t : ClusterTransition n)
    (us : List (FaultyBreakerTransition n)) : Prop where
  clock : ∀ u ∈ us, u.pre.clock = t.pre.clock
  trips : ∀ u ∈ us, Trips u → TripsAt up t
  refuses : RefusesAt up t → ∃ u, us = [u] ∧ Refuses u
  tally : ∀ k, us.foldl tallyStep k = tallyStepAt up k t
  tally_prefix : ∀ us' k, us' <+: us →
    us'.foldl tallyStep k = k ∨ us'.foldl tallyStep k = tallyStepAt up k t

section BreakerView

variable {n : ℕ} {cb : RedisCircuitBreaker} {table : List Rule} {up : String} {s s' : Cluster n}
  {b : BreakerPool n} {e : ClusterEvent n} {i : Fin n} {st : Stretch}

theorem showsCall_of_none {q : BreakerPoint} (hst : st.callAt up = none) (hq : q.busy = false) :
    ShowsCall up st q := by
  rw [ShowsCall, hst]
  exact hq

theorem showsCall_of_some {p : BreakerPoint} (hst : st.callAt up = some p) : ShowsCall up st p := by
  rw [ShowsCall, hst]

theorem ShowsCall.eq {q p : BreakerPoint} (h : ShowsCall up st q) (hst : st.callAt up = some p) :
    q = p := by
  rwa [ShowsCall, hst] at h

/-- One process moves on; the others show what they showed. -/
theorem showsCall_update {proc : Fin n → Stretch} {point : Fin n → BreakerPoint} {q : BreakerPoint}
    (h : ∀ j, ShowsCall up (proc j) (point j)) (hi : ShowsCall up st q) (j : Fin n) :
    ShowsCall up (Function.update proc i st j) (Function.update point i q j) := by
  by_cases hji : j = i
  · rw [hji, Function.update_self, Function.update_self]
    exact hi
  · rw [Function.update_of_ne hji, Function.update_of_ne hji]
    exact h j

/-- Steps without a command of the breaker, at the reading `now`: calls begin or break off. -/
def Silent (now : Time) (us : List (FaultyBreakerTransition n)) : Prop :=
  ∀ u ∈ us, u.pre.clock = now ∧ ∀ i, u.label ≠ .go (.command i)

/-- No command of the breaker of `up`, and none that makes it answer. -/
def NoCommandAt (up : String) (t : ClusterTransition n) : Prop :=
  ∀ i, t.label = .command i → (t.pre.proc i).callAt up = none ∧
    (t.post.proc i).callAt up ≠ some (.done (some false))

theorem Silent.tally {now : Time} {us : List (FaultyBreakerTransition n)} (h : Silent now us)
    (k : ℕ) : us.foldl tallyStep k = k := by
  induction us with
  | nil => rfl
  | cons u us ih =>
      obtain ⟨hu, hus⟩ := List.forall_mem_cons.mp h
      have hstep : tallyStep k u = k := by
        rw [tallyStep]
        split
        · next i hi => exact absurd hi (hu.2 i)
        · rfl
      rw [List.foldl_cons, hstep]
      exact ih hus

theorem NoCommandAt.tally {t : ClusterTransition n} (h : NoCommandAt up t) (k : ℕ) :
    tallyStepAt up k t = k := by
  rw [tallyStepAt]
  split
  · next i hi => rw [(h i hi).1, Option.map_none, Option.getD_none]
  · rfl

theorem Silent.sameMoves {t : ClusterTransition n} {us : List (FaultyBreakerTransition n)}
    (h : Silent t.pre.clock us) (hnone : NoCommandAt up t) : SameMoves up t us := by
  refine ⟨fun u hu => (h u hu).1, ?_, ?_, ?_, ?_⟩
  · rintro u hu ⟨i, hlabel, -⟩
    exact absurd hlabel ((h u hu).2 i)
  · rintro ⟨i, hlabel, hrefuses⟩
    exact absurd hrefuses (hnone i hlabel).2
  · intro k
    rw [h.tally, hnone.tally]
  · intro us' k hpre
    have hsilent : Silent t.pre.clock us' := fun u hu => h u (hpre.subset hu)
    exact Or.inl (hsilent.tally k)

/-- The call in progress breaks off, if there is one; this is a run of at most one step. -/
theorem breakOff_run (cb : RedisCircuitBreaker) (up : String) (b : BreakerPool n) (i : Fin n) :
    ∃ us q, Run (FaultyBreakerStep cb up) b us { b with point := Function.update b.point i q } ∧
      q.busy = false ∧ Silent b.clock us := by
  by_cases hbusy : (b.point i).busy = true
  · refine ⟨_, _, .single (.breakOff i hbusy), rfl, ?_⟩
    intro u hu
    rw [List.mem_singleton.mp hu]
    exact ⟨rfl, fun j hj => by cases hj⟩
  · refine ⟨[], b.point i, ?_, Bool.eq_false_iff.mpr hbusy, ?_⟩
    · rw [Function.update_eq_self]
      exact .nil
    · intro u hu
      cases hu

/-- **A jump.** The process leaves a call of the breaker unfinished, or none, and may begin
another. -/
theorem BreakerView.jump (h : BreakerView up s b) (hclock : s'.clock = s.clock)
    (hredis : AgreeOn (breakerKeys up) s.redis s'.redis)
    (hproc : s'.proc = Function.update s.proc i st)
    (hst : st.callAt up = none ∨ ∃ op, st.callAt up = some (.entry op)) :
    ∃ us b', Run (FaultyBreakerStep cb up) b us b' ∧ BreakerView up s' b' ∧ Silent s.clock us := by
  obtain ⟨us, q, hrun, hq, hsilent⟩ := breakOff_run cb up b i
  have hview : ∀ q', ShowsCall up st q' →
      BreakerView up s' { b with point := Function.update b.point i q' } := by
    intro q' hq'
    refine ⟨h.clock.trans hclock.symm, hredis.symm.trans h.redis, ?_⟩
    rw [hproc]
    exact showsCall_update h.point hq'
  rw [← h.clock]
  rcases hst with hnone | ⟨op, hentry⟩
  · exact ⟨us, _, hrun, hview q (showsCall_of_none hnone hq), hsilent⟩
  · have hidle : (Function.update b.point i q i).busy = false := by
      rw [Function.update_self]
      exact hq
    have hcall : FaultyBreakerStep cb up { b with point := Function.update b.point i q }
        (.go (.call i op))
        { b with point := Function.update (Function.update b.point i q) i (.entry op) } :=
      .go (.call i op hidle)
    rw [Function.update_idem] at hcall
    refine ⟨_, _, .snoc hrun hcall, hview _ (showsCall_of_some hentry), ?_⟩
    intro u hu
    rcases List.mem_append.mp hu with hu | hu
    · exact hsilent u hu
    · rw [List.mem_singleton.mp hu]
      exact ⟨rfl, fun j hj => by cases hj⟩

/-- **A command of the breaker of `up`**, of a process that shows it before and after. -/
theorem BreakerView.command (h : BreakerView up s b) {p : BreakerPoint} {st' : Stretch}
    (hbefore : (s.proc i).callAt up = some p) (hbusy : p.busy = true)
    (hafter : st'.callAt up = some (p.command cb up s.clock s.redis).1)
    (hs' : s' = { s with redis := (p.command cb up s.clock s.redis).2
                         proc := Function.update s.proc i st' }) :
    ∃ us b', Run (FaultyBreakerStep cb up) b us b' ∧ BreakerView up s' b' ∧
      SameMoves up ⟨s, .command i, s'⟩ us := by
  have hpoint : b.point i = p := (h.point i).eq hbefore
  obtain ⟨hnext, hagree⟩ := @BreakerPoint.command_agreeOn cb up s.clock _ _ h.redis p
  have hadvance : b.advance cb up i = { b with
      redis := (p.command cb up s.clock b.redis).2
      point := Function.update b.point i (p.command cb up s.clock b.redis).1 } := by
    rw [BreakerPool.advance, hpoint, h.clock]
  refine ⟨_, _, .single (.go (.command i (by rwa [hpoint]))), ?_, ?_⟩
  · rw [hadvance, hs']
    refine ⟨h.clock, hagree, ?_⟩
    rw [← hnext]
    exact showsCall_update h.point (showsCall_of_some hafter)
  · have htally : ∀ k, (b.point i).tally k =
        (((s.proc i).callAt up).map (BreakerPoint.tally k)).getD k := by
      intro k
      rw [hpoint, hbefore, Option.map_some, Option.getD_some]
    -- One opens the circuit exactly where the other does, and refuses where it does.
    refine ⟨?_, ?_, ?_, htally, ?_⟩
    · intro u hu
      rw [List.mem_singleton.mp hu]
      exact h.clock
    · intro u hu htrips
      rw [List.mem_singleton.mp hu] at htrips
      obtain ⟨j, hlabel, hj⟩ := htrips
      cases hlabel
      refine ⟨i, rfl, ?_⟩
      rw [← hj]
      exact hbefore.trans (congrArg some hpoint.symm)
    · rintro ⟨j, hlabel, hj⟩
      cases hlabel
      refine ⟨_, rfl, i, rfl, ?_⟩
      rw [hs'] at hj
      have hj' : (Function.update s.proc i st' i).callAt up = some (.done (some false)) := hj
      rw [Function.update_self, hafter, hnext] at hj'
      show (b.advance cb up i).point i = _
      rw [hadvance]
      exact (Function.update_self ..).trans (Option.some.inj hj')
    · intro us' k hpre
      rcases List.prefix_cons_iff.mp hpre with rfl | ⟨rest, rfl, hrest⟩
      · exact Or.inl rfl
      · rw [List.prefix_nil.mp hrest]
        exact Or.inr (htally k)

/-- A step that takes a process out of a call of the breaker, or into one, or elsewhere, without a
command. -/
theorem BreakerView.step_of_jump (h : BreakerView up s b) (hclock : s'.clock = s.clock)
    (hredis : AgreeOn (breakerKeys up) s.redis s'.redis)
    (hproc : s'.proc = Function.update s.proc i st)
    (hst : st.callAt up = none ∨ ∃ op, st.callAt up = some (.entry op))
    (hnone : NoCommandAt up ⟨s, e, s'⟩) :
    ∃ us b', Run (FaultyBreakerStep cb up) b us b' ∧ BreakerView up s' b' ∧
      SameMoves up ⟨s, e, s'⟩ us := by
  obtain ⟨us, b', hrun, hview, hsilent⟩ : ∃ us b', Run (FaultyBreakerStep cb up) b us b' ∧
      BreakerView up s' b' ∧ Silent s.clock us := h.jump hclock hredis hproc hst
  exact ⟨us, b', hrun, hview, hsilent.sameMoves hnone⟩

/-- A command of a process in a call of the breaker, of whichever upstream: that of `up` is a move
of the protocol, any other does not show. -/
theorem BreakerView.step_of_call (h : BreakerView up s b) {u : String} {p : BreakerPoint}
    {mk : BreakerPoint → Stretch} (hmk : ∀ q v, (mk q).callAt v = if u = v then some q else none)
    (hi : s.proc i = mk p) (hbusy : p.busy = true) (hpasses : (mk p).passes = none)
    (hcmd : (mk p).command cb s.clock s.redis =
      (mk (p.command cb u s.clock s.redis).1, (p.command cb u s.clock s.redis).2)) :
    ∃ us b', Run (FaultyBreakerStep cb up) b us b' ∧ BreakerView up (s.advance cb i) b' ∧
      SameMoves up ⟨s, .command i, s.advance cb i⟩ us := by
  have hadvance : s.advance cb i = { s with
      redis := (p.command cb u s.clock s.redis).2
      proc := Function.update s.proc i (mk (p.command cb u s.clock s.redis).1) } := by
    simp only [Cluster.advance, hi, hcmd, hpasses, Option.toList_none, List.append_nil]
  by_cases hu : u = up
  · subst hu
    refine h.command ?_ hbusy ?_ hadvance
    · rw [hi, hmk, if_pos rfl]
    · rw [hmk, if_pos rfl]
  · -- The keys of another upstream are not those of `up`.
    have hnone : ∀ q, (mk q).callAt up = none := by
      intro q
      rw [hmk, if_neg hu]
    rw [hadvance]
    refine h.step_of_jump rfl ?_ rfl (Or.inl (hnone _)) ?_
    · intro k hk
      have hother : k ∉ breakerKeys u := fun hmem => hu (eq_of_mem_breakerKeys hmem hk)
      exact (BreakerPoint.slot_command_of_notMem hother p).symm
    · intro j hlabel
      cases hlabel
      refine ⟨by rw [hi, hnone], ?_⟩
      show (Function.update s.proc i _ i).callAt up ≠ _
      rw [Function.update_self, hnone]
      simp

/-- A command of a `check` does not show at the breaker, unless it lets the request pass. Then the
process begins a call of `can_request`. -/
theorem BreakerView.step_of_check (h : BreakerView up s b) {rule : Rule} {client u : String}
    {p : CheckPoint} (hi : s.proc i = .checking rule client u p) :
    ∃ us b', Run (FaultyBreakerStep cb up) b us b' ∧ BreakerView up (s.advance cb i) b' ∧
      SameMoves up ⟨s, .command i, s.advance cb i⟩ us := by
  have hst : ∃ st, (s.advance cb i).proc = Function.update s.proc i st ∧
      (st.callAt up = none ∨ st.callAt up = some .asking) := by
    refine ⟨((s.proc i).command cb s.clock s.redis).1, rfl, ?_⟩
    rw [hi]
    cases p with
    | added =>
        -- The last command of a check that lets the request pass; `can_request` comes next.
        by_cases hu : u = up
        · exact Or.inr (if_pos hu)
        · exact Or.inl (if_neg hu)
    | _ => exact Or.inl rfl
  obtain ⟨st, hproc, hcall⟩ := hst
  refine h.step_of_jump rfl ?_ hproc (hcall.imp_right fun hcall => ⟨.canRequest, hcall⟩) ?_
  · intro k hk
    have hother : k ≠ redisKey (rateLimitKey rule client) :=
      fun heq => redisKey_notMem _ (heq ▸ hk)
    show s.redis.slot k = ((s.proc i).command cb s.clock s.redis).2.slot k
    rw [hi]
    exact (CheckPoint.slot_command_of_ne hother p).symm
  · intro j hlabel
    cases hlabel
    refine ⟨by rw [hi]; rfl, ?_⟩
    show ((s.advance cb i).proc i).callAt up ≠ _
    rw [hproc, Function.update_self]
    rcases hcall with hcall | hcall <;> rw [hcall] <;> simp

/-- A process at the entry of a call is in a call of that upstream and of no other. -/
theorem callAt_entry (mk : BreakerPoint → Stretch) (op : Op) {u : String}
    (hmk : ∀ q v, (mk q).callAt v = if u = v then some q else none) :
    (mk (.entry op)).callAt up = none ∨ ∃ o, (mk (.entry op)).callAt up = some (.entry o) := by
  rw [hmk]
  by_cases hu : u = up
  · exact Or.inr ⟨op, if_pos hu⟩
  · exact Or.inl (if_neg hu)

theorem breakerKeys_subset (up : String) : breakerKeys up ⊆ gatewayKeys :=
  fun _ hk => Or.inr ⟨up, hk⟩

/-- **One step** of the cluster is matched by the moves of the breaker that it makes at `up`. -/
theorem BreakerView.step (h : BreakerView up s b) (hstep : ClusterStep cb table s e s') :
    ∃ us b', Run (FaultyBreakerStep cb up) b us b' ∧ BreakerView up s' b' ∧
      SameMoves up ⟨s, e, s'⟩ us := by
  have hsame : AgreeOn (breakerKeys up) s.redis s.redis := (agreeOn_equivalence _).refl _
  cases hstep with
  | tick now hle =>
      have htick : Silent s.clock [⟨b, .go (.tick now), { b with clock := now }⟩] := by
        intro u hu
        rw [List.mem_singleton.mp hu]
        exact ⟨h.clock, fun j hj => by cases hj⟩
      exact ⟨_, _, .single (.go (.tick now (by rwa [h.clock]))), ⟨rfl, h.redis, h.point⟩,
        htick.sameMoves (fun j hj => by cases hj)⟩
  | arrive i rule client u hi hrule =>
      exact h.step_of_jump rfl hsame rfl (Or.inl rfl) (fun j hj => by cases hj)
  | arriveFree i client u hi =>
      exact h.step_of_jump rfl hsame rfl (callAt_entry (.asking u) .canRequest fun _ _ => rfl)
        (fun j hj => by cases hj)
  | command i hi =>
      cases hst : s.proc i with
      | idle =>
          rw [hst] at hi
          cases hi
      | checking rule client u p => exact h.step_of_check hst
      | asking u p =>
          rw [hst] at hi
          exact h.step_of_call (fun _ _ => rfl) hst hi rfl rfl
      | succeeding u p =>
          rw [hst] at hi
          exact h.step_of_call (fun _ _ => rfl) hst hi rfl rfl
      | failing u p =>
          rw [hst] at hi
          exact h.step_of_call (fun _ _ => rfl) hst hi rfl rfl
  | forward i u hi =>
      exact h.step_of_jump rfl hsame rfl (Or.inl rfl) (fun j hj => by cases hj)
  | answer i u hi =>
      exact h.step_of_jump rfl hsame rfl (Or.inl rfl) (fun j hj => by cases hj)
  | complete i u ok hi hin =>
      have hentry : ∀ ok : Bool,
          (if ok then Stretch.succeeding u .succeeding else .failing u .failing).callAt up = none ∨
            ∃ o, (if ok then Stretch.succeeding u .succeeding else .failing u .failing).callAt up =
              some (.entry o) := by
        intro ok
        cases ok with
        | true => exact callAt_entry (.succeeding u) .recordSuccess fun _ _ => rfl
        | false => exact callAt_entry (.failing u) .recordFailure fun _ _ => rfl
      exact h.step_of_jump rfl hsame rfl (hentry ok) (fun j hj => by cases hj)
  | raise i hi =>
      -- An exception in `record_success` is caught and recorded; any other ends the request.
      refine h.step_of_jump rfl hsame rfl ?_ (fun j hj => by cases hj)
      cases s.proc i with
      | succeeding u p => exact callAt_entry (.failing u) .recordFailure fun _ _ => rfl
      | _ => exact Or.inl rfl
  | crash i =>
      exact h.step_of_jump rfl hsame rfl (Or.inl rfl) (fun j hj => by cases hj)
  | others r hkeys =>
      have hagree : AgreeOn (breakerKeys up) s.redis r :=
        fun k hk => hkeys (breakerKeys_subset up hk)
      have hnone : Silent s.clock ([] : List (FaultyBreakerTransition n)) :=
        fun u hu => by cases hu
      exact ⟨[], b, .nil, ⟨h.clock, hagree.symm.trans h.redis, h.point⟩,
        hnone.sameMoves (fun j hj => by cases hj)⟩

theorem breakerView_initial (up : String) (t₀ : Time) :
    BreakerView up (.initial n t₀) (.initial n t₀) :=
  ⟨rfl, (agreeOn_equivalence _).refl _, fun _ => rfl⟩

/-- **The circuit of an upstream, under a cluster.** Every run of the cluster is matched, step by
step, by a run of the breaker's protocol; at the end the processes are at the same points of their
calls and `get_state` reports the same. -/
theorem cluster_run_breaker {t₀ : Time} {tr : List (ClusterTransition n)}
    (h : Run (ClusterStep cb table) (.initial n t₀) tr s) (up : String) :
    ∃ blocks b, Run (FaultyBreakerStep cb up) (.initial n t₀) blocks.flatten b ∧
      List.Forall₂ (SameMoves up) tr blocks ∧ (∀ i, ShowsCall up (s.proc i) (b.point i)) ∧
      getState s.redis s.clock up = b.circuit up := by
  obtain ⟨blocks, b, hrun, hview, hblocks⟩ := h.simulate
    (fun _ _ _ _ hview hstep => hview.step hstep) (breakerView_initial up t₀)
  refine ⟨blocks, b, hrun, hblocks, hview.point, ?_⟩
  rw [BreakerPool.circuit, hview.clock]
  exact hview.redis.getState

/-- The counter passes through the same values on both levels. -/
theorem exists_tallyAt {tr : List (ClusterTransition n)}
    {blocks : List (List (FaultyBreakerTransition n))} (h : List.Forall₂ (SameMoves up) tr blocks)
    {us : List (FaultyBreakerTransition n)} (hpre : us <+: blocks.flatten) (k : ℕ) :
    ∃ tr', tr' <+: tr ∧ us.foldl tallyStep k = tr'.foldl (tallyStepAt up) k := by
  induction h generalizing us k with
  | nil =>
      rw [List.flatten_nil, List.prefix_nil] at hpre
      exact ⟨[], List.nil_prefix, by rw [hpre]; rfl⟩
  | @cons t block tr blocks hblock _ ih =>
      rw [List.flatten_cons] at hpre
      rcases List.prefix_or_prefix_of_prefix hpre (List.prefix_append _ _) with
        hin | ⟨rest, rfl⟩
      · rcases hblock.tally_prefix us k hin with hsame | hnext
        · exact ⟨[], List.nil_prefix, hsame⟩
        · exact ⟨[t], by simp, hnext⟩
      · have hrest := (List.prefix_append_right_inj _).mp hpre
        obtain ⟨tr', hpre', htally⟩ := ih hrest (tallyStepAt up k t)
        refine ⟨t :: tr', List.cons_prefix_cons.mpr ⟨rfl, hpre'⟩, ?_⟩
        rw [List.foldl_append, hblock.tally, htally, List.foldl_cons]

/-- **No upstream is refused for longer than it should be.** Whatever the processes do, in whichever
order, and whichever requests and processes break off: a request that is refused at an upstream
is refused within `recovery` seconds of a failure that opened the circuit, and after `threshold`
failures counted without a clearing; and once no failure is as recent, `can_request` returns
True. -/
theorem cluster_never_stuck {t₀ : Time} (ht₀ : 0 ≤ t₀) {tr : List (ClusterTransition n)}
    (h : Run (ClusterStep cb table) (.initial n t₀) tr s) (up : String) :
    (∀ tr₁ t tr₂, tr = tr₁ ++ t :: tr₂ → RefusesAt up t →
      (∃ u ∈ tr₁, TripsAt up u ∧ t.pre.clock < u.pre.clock + cb.recovery) ∧
        ∃ tr', tr' <+: tr₁ ∧ cb.threshold ≤ tallyAt up tr') ∧
    ((∀ u ∈ tr, TripsAt up u → u.pre.clock + cb.recovery ≤ s.clock) →
      (canRequest s.redis s.clock up).1 = true) := by
  obtain ⟨blocks, b, hrun, hview, hblocks⟩ := h.simulate
    (fun _ _ _ _ hview hstep => hview.step hstep) (breakerView_initial up t₀)
  constructor
  · rintro tr₁ t tr₂ rfl hrefuses
    obtain ⟨blocks₁, us, blocks₂, rfl, hbefore, hus⟩ := forall₂_split hblocks
    obtain ⟨u, rfl, hu⟩ := hus.refuses hrefuses
    rw [List.flatten_append, List.flatten_cons, List.singleton_append] at hrun
    obtain ⟨⟨v, hv, htrips, hlt⟩, vs, hvs, hmet⟩ := cause_of_refuses ht₀ hrun hu
    constructor
    · obtain ⟨t', ht', us', hus', hmem⟩ := exists_of_mem_block hbefore hv
      refine ⟨t', ht', hus'.trips v hmem htrips, ?_⟩
      rwa [← hus'.clock v hmem, ← hus.clock u List.mem_cons_self]
    · obtain ⟨tr', hpre, htally⟩ := exists_tallyAt hbefore hvs 0
      exact ⟨tr', hpre, hmet.trans_eq htally⟩
  · intro hold
    have hpast : ∀ v ∈ blocks.flatten, Trips v → v.pre.clock + cb.recovery ≤ b.clock := by
      intro v hv htrips
      obtain ⟨t', ht', us', hus', hmem⟩ := exists_of_mem_block hblocks hv
      rw [hus'.clock v hmem, hview.clock]
      exact hold t' ht' (hus'.trips v hmem htrips)
    have hcall : (call cb up s.redis ⟨.canRequest, s.clock⟩).1 =
        (call cb up b.redis ⟨.canRequest, s.clock⟩).1 := (hview.redis.call _).1
    have hsame : (canRequest s.redis s.clock up).1 = (canRequest b.redis s.clock up).1 :=
      Option.some.inj hcall
    rw [hsame, ← hview.clock]
    exact canRequest_of_old_trips ht₀ hrun hpast

end BreakerView

theorem cluster_run_breaker_two : ∃ tr s blocks b,
    Run (FaultyBreakerStep ⟨1, 30⟩ "svc") (.initial 2 0) blocks.flatten b ∧
      List.Forall₂ (SameMoves "svc") tr blocks ∧ (∃ t ∈ tr, RefusesAt "svc" t) ∧
      getState (s : Cluster 2).redis s.clock "svc" = b.circuit "svc" := by
  obtain ⟨tr, t, s, hrun, hrefuses, -⟩ := two_processes_cluster
  obtain ⟨blocks, b, hb, hblocks, -, hstate⟩ := cluster_run_breaker hrun "svc"
  exact ⟨_, s, blocks, b, hb, hblocks, ⟨t, by simp, hrefuses⟩, hstate⟩

theorem cluster_never_stuck_two : ∃ (tr : List (ClusterTransition 2)) (t : ClusterTransition 2),
    RefusesAt "svc" t ∧ (∃ u ∈ tr, TripsAt "svc" u ∧ t.pre.clock < u.pre.clock + (30 : ℤ)) ∧
      ∃ tr', tr' <+: tr ∧ 1 ≤ tallyAt "svc" tr' := by
  obtain ⟨tr, t, s, hrun, hrefuses, -⟩ := two_processes_cluster
  exact ⟨tr, t, hrefuses, (cluster_never_stuck (le_refl 0) hrun "svc").1 tr t [] rfl hrefuses⟩

/-! ### A limiter key

The same for a key of the limiter, with one thing more to carry along: the readings that calls of
the key have taken, since the protocol asks that they be distinct. That is asked of a run of the
cluster at its end, and holds at every earlier state because readings are only added
(`run_of_distinct`). -/

theorem timesOf_append (key : String) (l l' : List (String × Time)) :
    timesOf key (l ++ l') = timesOf key l ++ timesOf key l' := by
  simp [timesOf]

/-- The calls in progress are of rules of the table, so its limits and windows are theirs. -/
def OfTable {n : ℕ} (table : List Rule) (proc : Fin n → Stretch) : Prop :=
  ∀ i rule client up p, proc i = .checking rule client up p → rule ∈ table ∧ p ≠ .idle

structure LimiterView {n : ℕ} (table : List Rule) (key : String) (s : Cluster n)
    (a : SharedState n) : Prop where
  clock : a.clock = s.clock
  slot : a.redis.slot (redisKey key) = s.redis.slot (redisKey key)
  point : ∀ i, a.point i = (s.proc i).checkAt key
  readings : a.readings = timesOf key s.readings
  allowed : a.allowed = timesOf key s.passed
  ofTable : OfTable table s.proc

section LimiterView

variable {n : ℕ} {cb : RedisCircuitBreaker} {table : List Rule} {key : String} {limit w : ℤ}
  {s s' : Cluster n} {a a' : SharedState n} {e : ClusterEvent n} {i : Fin n} {st : Stretch}

theorem OfTable.update {proc : Fin n → Stretch} (h : OfTable table proc)
    (hst : ∀ rule client up p, st = .checking rule client up p → rule ∈ table ∧ p ≠ .idle) :
    OfTable table (Function.update proc i st) := by
  intro j rule client up p hj
  by_cases hji : j = i
  · rw [hji, Function.update_self] at hj
    exact hst rule client up p hj
  · rw [Function.update_of_ne hji] at hj
    exact h j rule client up p hj

theorem Stretch.checkAt_raised (st : Stretch) (key : String) : st.raised.checkAt key = .idle := by
  cases st <;> rfl

/-- No exception leads into a `check`: the handler of `ProxyStep` only calls the breaker. -/
theorem Stretch.raised_ne_checking (st : Stretch) (rule : Rule) (client up : String)
    (p : CheckPoint) : st.raised ≠ .checking rule client up p := by
  intro heq
  cases st <;> cases heq

theorem OfTable.step (h : OfTable table s.proc) (hstep : ClusterStep cb table s e s') :
    OfTable table s'.proc := by
  cases hstep with
  | tick now hle => exact h
  | others r hkeys => exact h
  | arrive i rule client up hi hrule =>
      refine h.update ?_
      intro rule' client' up' p' heq
      cases heq
      exact ⟨hrule, by simp⟩
  | command i hi =>
      refine h.update ?_
      intro rule client up p heq
      cases hst : s.proc i with
      | checking rule' client' up' p' =>
          obtain ⟨hmem, hne⟩ := h i _ _ _ _ hst
          rw [hst] at heq
          cases p' with
          | idle => exact absurd rfl hne
          | added | turnedAway => cases heq
          | started | letIn =>
              cases heq
              exact ⟨hmem, by simp⟩
          | pruned now =>
              cases heq
              refine ⟨hmem, ?_⟩
              split <;> simp
      | _ =>
          rw [hst] at heq
          cases heq
  | complete i up ok hi hin =>
      refine h.update ?_
      intro rule client up p heq
      cases ok <;> cases heq
  | raise i hi =>
      refine h.update ?_
      intro rule client up p heq
      exact absurd heq (Stretch.raised_ne_checking _ _ _ _ _)
  | arriveFree i client up hi => exact h.update fun _ _ _ _ heq => by cases heq
  | forward i up hi => exact h.update fun _ _ _ _ heq => by cases heq
  | answer i up hi => exact h.update fun _ _ _ _ heq => by cases heq
  | crash i => exact h.update fun _ _ _ _ heq => by cases heq

theorem checkAt_update {proc : Fin n → Stretch} {point : Fin n → CheckPoint} {p : CheckPoint}
    (h : ∀ j, point j = (proc j).checkAt key) (hp : p = st.checkAt key) (j : Fin n) :
    Function.update point i p j = (Function.update proc i st j).checkAt key := by
  by_cases hji : j = i
  · rw [hji, Function.update_self, Function.update_self]
    exact hp
  · rw [Function.update_of_ne hji, Function.update_of_ne hji]
    exact h j

/-- **A jump.** The process leaves the `check` of the key unfinished, or is in none, and is in none
afterwards. -/
theorem LimiterView.jump (h : LimiterView table key s a) (hclock : s'.clock = s.clock)
    (hslot : s'.redis.slot (redisKey key) = s.redis.slot (redisKey key))
    (hproc : s'.proc = Function.update s.proc i st)
    (hreadings : timesOf key s'.readings = timesOf key s.readings)
    (hpassed : timesOf key s'.passed = timesOf key s.passed)
    (hidle : st.checkAt key = .idle) (htable : OfTable table s'.proc) :
    ∃ us a', Run (FaultyCheckStep key limit w) a us a' ∧ LimiterView table key s' a' := by
  by_cases hi : a.point i = .idle
  · refine ⟨[], a, .nil, h.clock.trans hclock.symm, h.slot.trans hslot.symm, ?_,
      h.readings.trans hreadings.symm, h.allowed.trans hpassed.symm, htable⟩
    have hsame := checkAt_update (i := i) h.point hidle.symm
    rw [← hi, Function.update_eq_self] at hsame
    rw [hproc]
    exact hsame
  · refine ⟨_, _, .single (.breakOff i hi), h.clock.trans hclock.symm, h.slot.trans hslot.symm, ?_,
      h.readings.trans hreadings.symm, h.allowed.trans hpassed.symm, htable⟩
    rw [hproc]
    exact checkAt_update h.point hidle.symm

/-- What one command of a `check` does to the cluster, by the point the call is at. -/
theorem advance_checking {rule : Rule} {client up : String} {p : CheckPoint}
    (hst : s.proc i = .checking rule client up p) :
    (s.advance cb i).clock = s.clock ∧
    (s.advance cb i).proc = Function.update s.proc i
      ((Stretch.checking rule client up p).command cb s.clock s.redis).1 ∧
    (s.advance cb i).redis =
      (p.command (rateLimitKey rule client) rule.limit rule.windowSeconds s.clock s.redis).2 := by
  rw [← hst]
  refine ⟨rfl, rfl, ?_⟩
  show ((s.proc i).command cb s.clock s.redis).2 = _
  rw [hst]
  rfl

/-- A call of process `i` breaks off, by an exception or because the process dies. -/
def ClusterEvent.BreaksOff (e : ClusterEvent n) (i : Fin n) : Prop := e = .raise i ∨ e = .crash i

/-- A step without a command on the key, which may begin a call of it or break one off. -/
structure QuietAt (key : String) (s : Cluster n) (e : ClusterEvent n) (s' : Cluster n) : Prop where
  clock : s.clock ≤ s'.clock
  slot : s'.redis.slot (redisKey key) = s.redis.slot (redisKey key)
  point : ∀ i, (s'.proc i).checkAt key = (s.proc i).checkAt key ∨
    ((s'.proc i).checkAt key = .idle ∧ e.BreaksOff i) ∨
    ((s.proc i).checkAt key = .idle ∧ (s'.proc i).checkAt key = .started s.clock)

theorem quietAt_update (hclock : s'.clock = s.clock)
    (hslot : s'.redis.slot (redisKey key) = s.redis.slot (redisKey key))
    (hproc : s'.proc = Function.update s.proc i st)
    (hst : st.checkAt key = (s.proc i).checkAt key ∨
      (st.checkAt key = .idle ∧ e.BreaksOff i) ∨
      ((s.proc i).checkAt key = .idle ∧ st.checkAt key = .started s.clock)) :
    QuietAt key s e s' := by
  refine ⟨hclock.ge, hslot, ?_⟩
  intro j
  rw [hproc]
  by_cases hji : j = i
  · rw [hji, Function.update_self]
    exact hst
  · rw [Function.update_of_ne hji]
    exact Or.inl rfl

/-- **What a step does to a limiter key**: nothing, or it is a command of a `check` of the key. -/
theorem ClusterStep.atKey (h : ClusterStep cb table s e s') (key : String) :
    QuietAt key s e s' ∨ ∃ i rule client up p, e = .command i ∧
      s.proc i = .checking rule client up p ∧ rateLimitKey rule client = key ∧
      s' = s.advance cb i := by
  have hbreaker : ∀ (i : Fin n) (u : String) (p : BreakerPoint) (mk : BreakerPoint → Stretch),
      (∀ q, (mk q).checkAt key = .idle) → s.proc i = mk p →
      (mk p).command cb s.clock s.redis =
        (mk (p.command cb u s.clock s.redis).1, (p.command cb u s.clock s.redis).2) →
      QuietAt key s (.command i) (s.advance cb i) := by
    intro i u p mk hmk hi hcmd
    refine @quietAt_update _ _ _ _ _ i ((s.proc i).command cb s.clock s.redis).1 rfl ?_ rfl
      (Or.inl ?_)
    · show ((s.proc i).command cb s.clock s.redis).2.slot _ = _
      rw [hi, hcmd]
      exact BreakerPoint.slot_command_of_notMem (redisKey_notMem _) p
    · rw [hi, hcmd, hmk, hmk]
  cases h with
  | tick now hle => exact Or.inl ⟨hle, rfl, fun i => Or.inl rfl⟩
  | others r hkeys =>
      exact Or.inl ⟨le_rfl, (hkeys (Or.inl ⟨key, rfl⟩)).symm, fun i => Or.inl rfl⟩
  | arrive i rule client up hi hrule =>
      refine Or.inl (quietAt_update rfl rfl rfl ?_)
      by_cases hkey : rateLimitKey rule client = key
      · -- The call takes its reading where it begins.
        exact Or.inr (Or.inr ⟨by rw [hi]; rfl, if_pos hkey⟩)
      · exact Or.inl (by rw [hi]; exact if_neg hkey)
  | arriveFree i client up hi =>
      exact Or.inl (quietAt_update rfl rfl rfl (Or.inl (by rw [hi]; rfl)))
  | command i hi =>
      cases hst : s.proc i with
      | idle =>
          rw [hst] at hi
          cases hi
      | checking rule client up p =>
          by_cases hkey : rateLimitKey rule client = key
          · exact Or.inr ⟨i, rule, client, up, p, rfl, hst, hkey, rfl⟩
          · obtain ⟨hclock, hproc, hredis⟩ := @advance_checking n cb s i rule client up p hst
            refine Or.inl (quietAt_update hclock ?_ hproc (Or.inl ?_))
            · rw [hredis]
              exact CheckPoint.slot_command_of_ne (fun heq => hkey (redisKey_inj.mp heq).symm) p
            · -- A check of another key, before the command and after it.
              have hout : ∀ q, Stretch.checkAt key (.checking rule client up q) = .idle :=
                fun q => if_neg hkey
              rw [hst, hout]
              cases p with
              | added | turnedAway => rfl
              | _ => exact hout _
      | asking u p => exact Or.inl (hbreaker i u p (.asking u) (fun _ => rfl) hst rfl)
      | succeeding u p => exact Or.inl (hbreaker i u p (.succeeding u) (fun _ => rfl) hst rfl)
      | failing u p => exact Or.inl (hbreaker i u p (.failing u) (fun _ => rfl) hst rfl)
  | forward i up hi => exact Or.inl (quietAt_update rfl rfl rfl (Or.inl (by rw [hi]; rfl)))
  | answer i up hi =>
      refine Or.inl (quietAt_update rfl rfl rfl (Or.inl ?_))
      rcases hi with hi | hi | hi <;> rw [hi] <;> rfl
  | complete i up ok hi hin =>
      refine Or.inl (quietAt_update rfl rfl rfl (Or.inl ?_))
      rw [hi]
      cases ok <;> rfl
  | raise i hi =>
      exact Or.inl (quietAt_update rfl rfl rfl
        (Or.inr (Or.inl ⟨Stretch.checkAt_raised _ _, Or.inl rfl⟩)))
  | crash i =>
      exact Or.inl (quietAt_update rfl rfl rfl (Or.inr (Or.inl ⟨rfl, Or.inr rfl⟩)))

/-- **A command of a `check` of the key** is the same command of the protocol. -/
theorem LimiterView.check (h : LimiterView table key s a) {rule : Rule} {client up : String}
    {p : CheckPoint} (hst : s.proc i = .checking rule client up p)
    (hkey : rateLimitKey rule client = key) (hrule : rule.limit = limit ∧ rule.windowSeconds = w)
    (htable : OfTable table (s.advance cb i).proc) :
    ∃ us a', Run (FaultyCheckStep key limit w) a us a' ∧
      LimiterView table key (s.advance cb i) a' := by
  obtain ⟨rfl, rfl⟩ := hrule
  obtain ⟨hmem, hne⟩ := h.ofTable i _ _ _ _ hst
  have hpoint : a.point i = p := by
    rw [h.point, hst]
    exact if_pos hkey
  have hat : ∀ p, p = Stretch.checkAt key (.checking rule client up p) :=
    fun p => (if_pos hkey).symm
  cases p with
  | idle => exact absurd rfl hne
  | started t =>
      have hadv : s.advance cb i = { s with
          redis := s.redis.zremrangebyscore s.clock (redisKey key) (t - rule.windowSeconds)
          proc := Function.update s.proc i (.checking rule client up (.pruned t)) } := by
        simp [Cluster.advance, hst, Stretch.command, CheckPoint.command, Stretch.passes, hkey]
      refine ⟨_, _, .single (.go (.prune i t hpoint)), ?_⟩
      rw [hadv] at htable ⊢
      refine ⟨h.clock, ?_, checkAt_update h.point (hat _), h.readings, h.allowed, htable⟩
      rw [slot_zremrangebyscore_self, slot_zremrangebyscore_self, h.slot, h.clock]
  | pruned t =>
      -- `ZCARD` sees the same entries on both sides, so the calls decide alike.
      have hcard : a.redis.zcard a.clock (redisKey key) = s.redis.zcard s.clock (redisKey key) := by
        rw [zcard, zcard, h.slot, h.clock]
      by_cases hlt : (s.redis.zcard s.clock (redisKey key) : ℤ) < rule.limit
      · have hadv : s.advance cb i = { s with
            proc := Function.update s.proc i (.checking rule client up (.letIn t)) } := by
          simp [Cluster.advance, hst, Stretch.command, CheckPoint.command, Stretch.passes, hkey,
            hlt]
        refine ⟨_, _, .single (.go (.zcardLow i t hpoint (by rwa [hcard]))), ?_⟩
        rw [hadv] at htable ⊢
        exact ⟨h.clock, h.slot, checkAt_update h.point (hat _), h.readings, h.allowed, htable⟩
      · have hadv : s.advance cb i = { s with
            proc := Function.update s.proc i (.checking rule client up (.turnedAway t)) } := by
          simp [Cluster.advance, hst, Stretch.command, CheckPoint.command, Stretch.passes, hkey,
            hlt]
        refine ⟨_, _, .single (.go (.zcardHigh i t hpoint (by rwa [hcard]))), ?_⟩
        rw [hadv] at htable ⊢
        exact ⟨h.clock, h.slot, checkAt_update h.point (hat _), h.readings, h.allowed, htable⟩
  | letIn t =>
      have hadv : s.advance cb i = { s with
          redis := s.redis.zadd s.clock (redisKey key) t t
          proc := Function.update s.proc i (.checking rule client up (.added t)) } := by
        simp [Cluster.advance, hst, Stretch.command, CheckPoint.command, Stretch.passes, hkey]
      refine ⟨_, _, .single (.go (.zadd i t hpoint)), ?_⟩
      rw [hadv] at htable ⊢
      refine ⟨h.clock, ?_, checkAt_update h.point (hat _), h.readings, h.allowed, htable⟩
      rw [slot_zadd_self, slot_zadd_self, h.slot, h.clock]
  | added t =>
      have hadv : s.advance cb i = { s with
          redis := s.redis.expire s.clock (redisKey key) (rule.windowSeconds + 1)
          proc := Function.update s.proc i (.asking up .asking)
          passed := s.passed ++ [(key, t)] } := by
        simp [Cluster.advance, hst, Stretch.command, CheckPoint.command, Stretch.passes, hkey]
      refine ⟨_, _, .single (.go (.expire i t hpoint)), ?_⟩
      rw [hadv] at htable ⊢
      refine ⟨h.clock, ?_, checkAt_update h.point rfl, h.readings, ?_, htable⟩
      · rw [slot_expire_self, slot_expire_self, h.slot, h.clock]
      · rw [timesOf_append, ← h.allowed]
        simp [timesOf]
  | turnedAway t =>
      have hadv : s.advance cb i = { s with proc := Function.update s.proc i .idle } := by
        simp [Cluster.advance, hst, Stretch.command, CheckPoint.command, Stretch.passes]
      refine ⟨_, _, .single (.go (.zrange i t hpoint)), ?_⟩
      rw [hadv] at htable ⊢
      exact ⟨h.clock, h.slot, checkAt_update h.point rfl, h.readings, h.allowed, htable⟩

/-- A command of a `check` of another key does not show at this one. -/
theorem LimiterView.otherCheck (h : LimiterView table key s a) {rule : Rule} {client up : String}
    {p : CheckPoint} (hst : s.proc i = .checking rule client up p)
    (hkey : rateLimitKey rule client ≠ key) (htable : OfTable table (s.advance cb i).proc) :
    ∃ us a', Run (FaultyCheckStep key limit w) a us a' ∧
      LimiterView table key (s.advance cb i) a' := by
  obtain ⟨hmem, hne⟩ := h.ofTable i _ _ _ _ hst
  have hredis : redisKey key ≠ redisKey (rateLimitKey rule client) :=
    fun heq => hkey (redisKey_inj.mp heq).symm
  have hproc : (s.advance cb i).proc =
      Function.update s.proc i ((s.proc i).command cb s.clock s.redis).1 := rfl
  refine h.jump rfl ?_ hproc rfl ?_ ?_ htable
  · show ((s.proc i).command cb s.clock s.redis).2.slot _ = _
    rw [hst]
    exact CheckPoint.slot_command_of_ne hredis p
  · show timesOf key (s.passed ++ (s.proc i).passes.toList) = _
    rw [timesOf_append, hst]
    cases p with
    | added t => simp [Stretch.passes, timesOf, hkey]
    | _ => simp [Stretch.passes, timesOf]
  · rw [hst]
    cases p with
    | added | turnedAway => rfl
    | _ => exact if_neg hkey

/-- A command of the breaker does not show at a limiter key. -/
theorem LimiterView.breaker (h : LimiterView table key s a) {u : String} {p : BreakerPoint}
    {mk : BreakerPoint → Stretch} (hmk : ∀ q, (mk q).checkAt key = .idle)
    (hi : s.proc i = mk p) (hpasses : (mk p).passes = none)
    (htable : OfTable table (s.advance cb i).proc)
    (hcmd : (mk p).command cb s.clock s.redis =
      (mk (p.command cb u s.clock s.redis).1, (p.command cb u s.clock s.redis).2)) :
    ∃ us a', Run (FaultyCheckStep key limit w) a us a' ∧
      LimiterView table key (s.advance cb i) a' := by
  have hproc : (s.advance cb i).proc =
      Function.update s.proc i (mk (p.command cb u s.clock s.redis).1) := by
    show Function.update s.proc i ((s.proc i).command cb s.clock s.redis).1 = _
    rw [hi, hcmd]
  refine h.jump rfl ?_ hproc rfl ?_ (hmk _) htable
  · show ((s.proc i).command cb s.clock s.redis).2.slot _ = _
    rw [hi, hcmd]
    exact BreakerPoint.slot_command_of_notMem (redisKey_notMem _) p
  · show timesOf key (s.passed ++ (s.proc i).passes.toList) = _
    rw [hi, hpasses, Option.toList_none, List.append_nil]

/-- A step that begins no `check` and makes none go on can only break one off. -/
theorem LimiterView.leave (h : LimiterView table key s a) (i : Fin n) {st : Stretch}
    {inFlight : List (Fin n × String)} (hidle : ∀ key, st.checkAt key = .idle)
    (htable : OfTable table (Function.update s.proc i st)) :
    ∃ us a', Run (FaultyCheckStep key limit w) a us a' ∧
      LimiterView table key { s.jump i st with inFlight := inFlight } a' := by
  exact h.jump rfl rfl rfl rfl rfl (hidle key) htable

/-- **One step**, after which no two calls of the key have taken one reading. -/
theorem LimiterView.step (h : LimiterView table key s a)
    (hsame : ∀ rule ∈ table, ∀ client, rateLimitKey rule client = key →
      rule.limit = limit ∧ rule.windowSeconds = w)
    (hstep : ClusterStep cb table s e s') (hdistinct : (timesOf key s'.readings).Nodup) :
    ∃ us a', Run (FaultyCheckStep key limit w) a us a' ∧ LimiterView table key s' a' := by
  have htable := h.ofTable.step hstep
  cases hstep with
  | tick now hle =>
      exact ⟨_, _, .single (.go (.tick now (by rwa [h.clock]))),
        ⟨rfl, h.slot, h.point, h.readings, h.allowed, h.ofTable⟩⟩
  | arrive i rule client u hi hrule =>
      by_cases hkey : rateLimitKey rule client = key
      · -- The call takes its reading, which no other call of the key has.
        subst hkey
        have hidle : a.point i = .idle := by
          rw [h.point, hi]
          rfl
        have hfresh : a.clock ∉ a.readings := by
          have happend : (timesOf (rateLimitKey rule client)
              (s.readings ++ [(rateLimitKey rule client, s.clock)])).Nodup := hdistinct
          rw [timesOf_append, List.nodup_append] at happend
          rw [h.clock, h.readings]
          intro hold
          exact happend.2.2 _ hold s.clock (by simp [timesOf]) rfl
        refine ⟨_, _, .single (.go (.start i hidle hfresh)), h.clock, h.slot, ?_, ?_, h.allowed,
          htable⟩
        · refine checkAt_update h.point ?_
          rw [h.clock]
          exact (if_pos rfl).symm
        · show a.readings ++ [a.clock] = timesOf _ (s.readings ++ [_])
          rw [timesOf_append, h.readings, h.clock]
          simp [timesOf]
      · refine h.jump rfl rfl rfl ?_ rfl (if_neg hkey) htable
        show timesOf key (s.readings ++ [_]) = _
        rw [timesOf_append]
        simp [timesOf, hkey]
  | arriveFree i client u hi => exact h.leave i (fun _ => rfl) htable
  | command i hi =>
      cases hst : s.proc i with
      | idle =>
          rw [hst] at hi
          cases hi
      | checking rule client u p =>
          by_cases hkey : rateLimitKey rule client = key
          · exact h.check hst hkey (hsame rule (h.ofTable i _ _ _ _ hst).1 client hkey) htable
          · exact h.otherCheck hst hkey htable
      | asking u p =>
          exact h.breaker (fun _ => rfl) hst rfl htable rfl
      | succeeding u p =>
          exact h.breaker (fun _ => rfl) hst rfl htable rfl
      | failing u p =>
          exact h.breaker (fun _ => rfl) hst rfl htable rfl
  | forward i u hi => exact h.leave i (fun _ => rfl) htable
  | answer i u hi => exact h.leave i (fun _ => rfl) htable
  | complete i u ok hi hin =>
      cases ok with
      | true => exact h.leave i (fun _ => rfl) htable
      | false => exact h.leave i (fun _ => rfl) htable
  | raise i hi => exact h.leave i (Stretch.checkAt_raised _) htable
  | crash i => exact h.leave i (fun _ => rfl) htable
  | others r hkeys =>
      have hslot : s.redis.slot (redisKey key) = r.slot (redisKey key) :=
        hkeys (Or.inl ⟨key, rfl⟩)
      exact ⟨[], a, .nil, ⟨h.clock, h.slot.trans hslot, h.point, h.readings, h.allowed,
        h.ofTable⟩⟩

theorem limiterView_initial (table : List Rule) (key : String) (t₀ : Time) :
    LimiterView table key (.initial n t₀) (.initial n t₀) :=
  ⟨rfl, rfl, fun _ => rfl, rfl, rfl, fun _ _ _ _ _ heq => by cases heq⟩

/-- Readings are only ever added, at the end of the list. -/
theorem readings_grow (hstep : ClusterStep cb table s e s') : s.readings <+: s'.readings := by
  cases hstep with
  | arrive i rule client u hi hrule => exact List.prefix_append _ _
  | _ => exact List.prefix_rfl

/-- Readings that are distinct at the end of a run were so after each of its steps. -/
theorem run_of_distinct {t₀ : Time} {tr : List (ClusterTransition n)}
    (h : Run (ClusterStep cb table) (.initial n t₀) tr s)
    (hdistinct : (timesOf key s.readings).Nodup) :
    Run (fun s e s' => ClusterStep cb table s e s' ∧ (timesOf key s'.readings).Nodup)
      (.initial n t₀) tr s := by
  induction h with
  | nil => exact .nil
  | snoc _ hstep ih =>
      have hsub := ((readings_grow hstep).sublist.filter fun e => decide (e.1 = key)).map Prod.snd
      exact (ih (hdistinct.sublist hsub)).snoc ⟨hstep, hdistinct⟩

/-- **A limiter key, under a cluster.** Every run of the cluster in which no two calls of the key
take one reading is matched by a run of the limiter's protocol, with the same calls in progress and
the same readings. -/
theorem cluster_run_limiter {t₀ : Time} {tr : List (ClusterTransition n)}
    (hsame : ∀ rule ∈ table, ∀ client, rateLimitKey rule client = key →
      rule.limit = limit ∧ rule.windowSeconds = w)
    (h : Run (ClusterStep cb table) (.initial n t₀) tr s)
    (hdistinct : (timesOf key s.readings).Nodup) :
    ∃ us a, Run (FaultyCheckStep key limit w) (.initial n t₀) us a ∧
      LimiterView table key s a := by
  have hstep : ∀ (s : Cluster n) e s' a, LimiterView table key s a →
      ClusterStep cb table s e s' ∧ (timesOf key s'.readings).Nodup →
      ∃ us a', Run (FaultyCheckStep key limit w) a us a' ∧ LimiterView table key s' a' ∧ True := by
    rintro s e s' a hview ⟨hstep, hdistinct⟩
    obtain ⟨us, a', hus, hview'⟩ := hview.step hsame hstep hdistinct
    exact ⟨us, a', hus, hview', trivial⟩
  obtain ⟨blocks, a, hrun, hview, -⟩ := (run_of_distinct h hdistinct).simulate
    (Q := fun _ _ => True) hstep (limiterView_initial table key t₀)
  exact ⟨_, a, hrun, hview⟩

end LimiterView

/-- **The limit under a cluster.** Let all rules that use a limiter key have the same limit and
window, and let no two calls of `check` for it take the same reading. Then no half-open interval of
a window's length contains the readings of more than `limit + 3 * n - 1` requests that pass
`RateLimitStep` under that key, whatever the `n` processes do, in whichever order, and whichever
requests and processes break off.

Calls with one reading share one entry of the sorted set, which is counted once: with equal readings
any number of them would pass. -/
theorem cluster_limit_bound {n : ℕ} {cb : RedisCircuitBreaker} {table : List Rule} {key : String}
    {limit w : ℤ} (hlimit : 1 ≤ limit) (hw : 1 ≤ w)
    (hsame : ∀ rule ∈ table, ∀ client, rateLimitKey rule client = key →
      rule.limit = limit ∧ rule.windowSeconds = w)
    {t₀ : Time} {s : Cluster n} {tr : List (ClusterTransition n)}
    (h : Run (ClusterStep cb table) (.initial n t₀) tr s)
    (hdistinct : (timesOf key s.readings).Nodup) :
    WindowBounded (w : Time) (limit.toNat + 3 * n - 1) (timesOf key s.passed) := by
  obtain ⟨us, a, hrun, hview⟩ := cluster_run_limiter hsame h hdistinct
  obtain ⟨hb, hinv⟩ := faultyCheck_run hlimit hw hrun
  rw [← hview.allowed]
  exact windowBounded_of_inv hb hinv hlimit

theorem cluster_limit_bound_two : ∃ s : Cluster 2, timesOf "global" s.passed = [0, 1] ∧
    WindowBounded ((60 : ℤ) : Time) ((1 : ℤ).toNat + 3 * 2 - 1) (timesOf "global" s.passed) := by
  have hsame : ∀ rule ∈ [perMinute], ∀ client, rateLimitKey rule client = "global" →
      rule.limit = 1 ∧ rule.windowSeconds = 60 := by
    intro rule hrule client _
    rw [List.mem_singleton.mp hrule]
    exact ⟨rfl, rfl⟩
  obtain ⟨tr, t, s, hrun, -, hpassed, hdistinct, -⟩ := two_processes_cluster
  exact ⟨s, hpassed, cluster_limit_bound (by decide) (by decide) hsame hrun hdistinct⟩

end RateGuardian
