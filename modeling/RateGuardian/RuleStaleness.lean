import RateGuardian.RuleCache
import Mathlib.Tactic.Linarith

/-!
# RateGuardian.RuleStaleness

**How old the rules of a `match` can be.** The operations of `RuleCache` on a clock: every step
happens at a reading, no earlier than the steps before it, and an invalidation can fail. The cache
key expires 60 seconds after the `SETEX`, by the same clock.

A fill stores what a query returned some time before. If that time is at most `d`, the cache serves
rules that are at most `60 + d` old (`bounded_staleness`): the cached payload is tied to the moment
of its query (`CacheRecent`), not to the invalidations, and any of these may be lost. A run in which
none is lost is one of `RuleCache` (`untimed_run`).
-/

namespace RateGuardian

open Lib RuleRepository

/-! ### Operations on a clock

The points and events are those of `RuleCache`, with the reading of each query kept beside what it
returned. Versions are gone: how old a table is, is a matter of time here. -/

/-- Where an operation stands, with the rules it has and when they were read. -/
inductive TimedPoint
  | idle
  /-- A writer that has committed and not tried to invalidate the cache yet. -/
  | committed
  | returned
  /-- A `match` whose `GET` missed. -/
  | missed
  /-- A `match` that queried the table. -/
  | queried (readAt : Time) (payload : List Rule)
  /-- A `match` that has the rules it evaluates, read at `readAt` from the cache or the table. -/
  | evaluated (readAt : Time) (payload : List Rule)
  deriving DecidableEq

structure TimedState where
  now : Time
  db : RuleTable
  redis : Redis
  point : ℕ → TimedPoint

namespace TimedState

def initial (start : Time) (db : RuleTable) (r : Redis) : TimedState :=
  ⟨start, db, r, fun _ => .idle⟩

def moveTo (s : TimedState) (t : Time) (i : ℕ) (p : TimedPoint) : TimedState :=
  { s with now := t, point := Function.update s.point i p }

end TimedState

inductive TimedEvent
  | commit (i : ℕ) (w : Write)
  | invalidate (i : ℕ)
  /-- The `DEL` raises, and the exception is logged. -/
  | invalidateFails (i : ℕ)
  | get (i : ℕ)
  | query (i : ℕ)
  | setex (i : ℕ)
  deriving DecidableEq

/-- One step, at the reading `t`. -/
inductive TimedStep : TimedState → TimedEvent × Time → TimedState → Prop
  | commit {s : TimedState} {t : Time} (i : ℕ) (w : Write) (ht : s.now ≤ t)
      (hi : s.point i = .idle) :
      TimedStep s (.commit i w, t) { s.moveTo t i .committed with db := w.commit s.db }
  | invalidate {s : TimedState} {t : Time} (i : ℕ) (ht : s.now ≤ t)
      (hi : s.point i = .committed) :
      TimedStep s (.invalidate i, t)
        { s.moveTo t i .returned with redis := invalidateCache s.redis }
  | invalidateFails {s : TimedState} {t : Time} (i : ℕ) (ht : s.now ≤ t)
      (hi : s.point i = .committed) :
      TimedStep s (.invalidateFails i, t) (s.moveTo t i .returned)
  | hit {s : TimedState} {t : Time} (i : ℕ) (payload : List Rule) (ht : s.now ≤ t)
      (hi : s.point i = .idle) (hget : loadFromCache s.redis t = some payload) :
      TimedStep s (.get i, t) (s.moveTo t i (.evaluated t payload))
  | miss {s : TimedState} {t : Time} (i : ℕ) (ht : s.now ≤ t) (hi : s.point i = .idle)
      (hget : loadFromCache s.redis t = none) :
      TimedStep s (.get i, t) (s.moveTo t i .missed)
  | query {s : TimedState} {t : Time} (i : ℕ) (ht : s.now ≤ t) (hi : s.point i = .missed) :
      TimedStep s (.query i, t) (s.moveTo t i (.queried t (activeRules s.db)))
  | setex {s : TimedState} {t : Time} (i : ℕ) (readAt : Time) (payload : List Rule)
      (ht : s.now ≤ t) (hi : s.point i = .queried readAt payload) :
      TimedStep s (.setex i, t)
        { s.moveTo t i (.evaluated readAt payload) with redis := fillCache s.redis t payload }

/-- If the step is a fill, it comes at most `d` after the query whose result it stores. -/
def Prompt (d : Time) (s : TimedState) (e : TimedEvent × Time) : Prop :=
  ∀ i readAt payload, e.1 = .setex i → s.point i = .queried readAt payload → e.2 - readAt ≤ d

theorem prompt_setex {d t readAt : Time} {s : TimedState} {i : ℕ} {payload : List Rule}
    (hi : s.point i = .queried readAt payload) (hd : t - readAt ≤ d) :
    Prompt d s (.setex i, t) := by
  intro j readAt' payload' he hj
  cases he
  rw [hi] at hj
  cases hj
  exact hd

/-- The steps of a `match` at one reading are `load`. -/
theorem timed_load_steps (s : TimedState) (i : ℕ) {t : Time} (ht : s.now ≤ t)
    (hi : s.point i = .idle) :
    ∃ tr s', Run (Guarded TimedStep (Prompt 0)) s tr s' ∧
      s'.point i = .evaluated t (load s.db s.redis t).1 ∧
      s'.redis = (load s.db s.redis t).2 ∧ s'.db = s.db := by
  unfold load
  cases hget : loadFromCache s.redis t with
  | some payload =>
      exact ⟨_, _, .single ⟨.hit i payload ht hi hget, nofun⟩, by simp [TimedState.moveTo], rfl,
        rfl⟩
  | none =>
      have hmissed : (s.moveTo t i .missed).point i = .missed := by simp [TimedState.moveTo]
      have hqueried : ((s.moveTo t i .missed).moveTo t i (.queried t (activeRules s.db))).point i =
          .queried t (activeRules s.db) := by simp [TimedState.moveTo]
      have hprompt := prompt_setex (t := t) hqueried (sub_self t).le
      exact ⟨_, _, .snoc (.snoc (.snoc .nil ⟨.miss i ht hi hget, nofun⟩)
        ⟨.query i le_rfl hmissed, nofun⟩) ⟨.setex i t _ le_rfl hqueried, hprompt⟩,
        by simp [TimedState.moveTo, loadIntoCache], rfl, rfl⟩

/-! ### Moments of a run

A moment of a run is the reading of one of its states, and the table at that moment is the table of
that state. What was right at some moment stays so when the run goes on. -/

section Moments

variable (s₀ : TimedState)

/-- At the moment `m` of the run, the query would have returned `payload`. -/
def ActiveAt (tr : List (Transition TimedState (TimedEvent × Time))) (m : Time)
    (payload : List Rule) : Prop :=
  ∃ s ∈ s₀ :: tr.map Transition.post, s.now = m ∧ activeRules s.db = payload

/-- What a reader at `t` gets was right at some moment of the last `60 + d` seconds. -/
def Recent (tr : List (Transition TimedState (TimedEvent × Time))) (d t : Time)
    (payload : List Rule) : Prop :=
  ∃ m, t - 60 - d ≤ m ∧ m ≤ t ∧ ActiveAt s₀ tr m payload

/-- What is known of an operation's rules from where it stands: that they were right at the moment
of the query, or at some recent moment. -/
def TimedOk (tr : List (Transition TimedState (TimedEvent × Time))) (d : Time) (now : Time) :
    TimedPoint → Prop
  | .queried readAt payload => readAt ≤ now ∧ ActiveAt s₀ tr readAt payload
  | .evaluated readAt payload => Recent s₀ tr d readAt payload
  | .idle | .committed | .returned | .missed => True

/-- What is in the cache was queried at some moment `m`, and expires `60 + d` after it at the
latest. -/
def CacheRecent (tr : List (Transition TimedState (TimedEvent × Time))) (d : Time)
    (s : TimedState) : Prop :=
  ∀ t payload, loadFromCache s.redis t = some payload →
    ∃ m, t - 60 - d ≤ m ∧ m ≤ s.now ∧ ActiveAt s₀ tr m payload

structure StalenessInv (d : Time) (tr : List (Transition TimedState (TimedEvent × Time)))
    (s : TimedState) : Prop where
  visited : s ∈ s₀ :: tr.map Transition.post
  points : ∀ i, TimedOk s₀ tr d s.now (s.point i)
  stored : CacheRecent s₀ tr d s

end Moments

section Steps

variable {s₀ s s' : TimedState} {d t : Time} {e : TimedEvent × Time}
  {tr : List (Transition TimedState (TimedEvent × Time))}

theorem mem_visited_concat {x : TimedState} (h : x ∈ s₀ :: tr.map Transition.post)
    (st : Transition TimedState (TimedEvent × Time)) :
    x ∈ s₀ :: (tr ++ [st]).map Transition.post := by
  rw [List.map_append, ← List.cons_append]
  exact List.mem_append_left _ h

theorem post_mem_visited (s : TimedState) (e : TimedEvent × Time) (s' : TimedState) :
    s' ∈ s₀ :: (tr ++ [Transition.mk s e s']).map Transition.post := by
  rw [List.map_append, ← List.cons_append]
  exact List.mem_append_right _ List.mem_cons_self

theorem ActiveAt.mono {m : Time} {payload : List Rule} (h : ActiveAt s₀ tr m payload)
    (st : Transition TimedState (TimedEvent × Time)) : ActiveAt s₀ (tr ++ [st]) m payload := by
  obtain ⟨x, hx, hm, hp⟩ := h
  exact ⟨x, mem_visited_concat hx st, hm, hp⟩

theorem Recent.mono {payload : List Rule} (h : Recent s₀ tr d t payload)
    (st : Transition TimedState (TimedEvent × Time)) : Recent s₀ (tr ++ [st]) d t payload := by
  obtain ⟨m, hlow, hle, hm⟩ := h
  exact ⟨m, hlow, hle, hm.mono st⟩

theorem TimedOk.mono {p : TimedPoint} {now : Time} (h : TimedOk s₀ tr d now p) (hle : now ≤ t)
    (st : Transition TimedState (TimedEvent × Time)) : TimedOk s₀ (tr ++ [st]) d t p := by
  cases p with
  | queried readAt payload => exact ⟨h.1.trans hle, h.2.mono st⟩
  | evaluated readAt payload => exact Recent.mono h st
  | idle => trivial
  | committed => trivial
  | returned => trivial
  | missed => trivial

/-- A step moves one operation, and leaves the cache as it was or stores what was queried. -/
theorem StalenessInv.next (h : StalenessInv s₀ d tr s) {i : ℕ} {p : TimedPoint}
    (hle : s.now ≤ s'.now) (hpoint : s'.point = Function.update s.point i p)
    (hp : TimedOk s₀ (tr ++ [⟨s, e, s'⟩]) d s'.now p)
    (hcache : ∀ t payload, loadFromCache s'.redis t = some payload →
      loadFromCache s.redis t = some payload ∨
        ∃ m, t - 60 - d ≤ m ∧ m ≤ s.now ∧ ActiveAt s₀ tr m payload) :
    StalenessInv s₀ d (tr ++ [⟨s, e, s'⟩]) s' := by
  refine ⟨post_mem_visited s e s', ?_, ?_⟩
  · rw [hpoint]
    exact (Function.forall_update_iff _ fun _ p => TimedOk s₀ _ d s'.now p).mpr
      ⟨hp, fun j _ => (h.points j).mono hle _⟩
  · intro t payload hget
    obtain ⟨m, hlow, hm, hactive⟩ := (hcache t payload hget).elim (h.stored t payload) id
    exact ⟨m, hlow, hm.trans hle, hactive.mono _⟩

theorem StalenessInv.point (h : StalenessInv s₀ d tr s) {i : ℕ} {p : TimedPoint}
    (hi : s.point i = p) : TimedOk s₀ tr d s.now p :=
  hi ▸ h.points i

/-- The step lemma: every step keeps the invariant, where fills are prompt. -/
theorem StalenessInv.step (h : StalenessInv s₀ d tr s) (hstep : TimedStep s e s')
    (hprompt : Prompt d s e) : StalenessInv s₀ d (tr ++ [⟨s, e, s'⟩]) s' := by
  cases hstep with
  | commit i w ht hi => exact h.next ht rfl trivial fun _ _ hget => Or.inl hget
  | invalidate i ht hi =>
      refine h.next ht rfl trivial ?_
      intro t payload hget
      rw [loadFromCache_invalidateCache] at hget
      cases hget
  | invalidateFails i ht hi => exact h.next ht rfl trivial fun _ _ hget => Or.inl hget
  | @hit t i payload ht hi hget =>
      obtain ⟨m, hlow, hm, hactive⟩ := h.stored t payload hget
      exact h.next ht rfl ⟨m, hlow, hm.trans ht, hactive.mono _⟩ fun _ _ hget => Or.inl hget
  | miss i ht hi hget => exact h.next ht rfl trivial fun _ _ hget => Or.inl hget
  | @query t i ht hi =>
      refine h.next ht rfl ⟨le_rfl, ?_⟩ fun _ _ hget => Or.inl hget
      exact ⟨_, post_mem_visited _ _ _, rfl, rfl⟩
  | @setex t i readAt payload ht hi =>
      obtain ⟨hread, hactive⟩ := h.point hi
      have hd : t - readAt ≤ d := hprompt i readAt payload rfl hi
      refine h.next ht rfl ⟨readAt, ?_, le_rfl, hactive.mono _⟩ ?_
      · linarith
      · intro t' payload' hget
        -- the key is visible for 60 seconds from `t`, and `t` is at most `d` after the query
        have hvisible : t' < t + cacheTtl := by
          have hfill := hget
          rw [loadFromCache_fillCache] at hfill
          split at hfill
          next hlt => exact hlt
          next => cases hfill
        rw [payload_of_fillCache hget]
        rw [cacheTtl] at hvisible
        exact Or.inr ⟨readAt, by linarith, hread, hactive⟩

end Steps

/-- **Bounded staleness.** Whatever the invalidations do, every `match` evaluates rules that were
the active rules of the table at some moment of the `60 + d` seconds before it read them, if every
fill comes at most `d` after its query. At the start the cache may be empty or hold the rules of the
table. -/
theorem bounded_staleness (d start : Time) (db : RuleTable) {r : Redis}
    (hr : ∀ t payload, loadFromCache r t = some payload →
      activeRules db = payload ∧ t ≤ start + 60 + d)
    {tr : List (Transition TimedState (TimedEvent × Time))} {s : TimedState}
    (h : Run (Guarded TimedStep (Prompt d)) (.initial start db r) tr s) :
    ∀ i readAt payload, s.point i = .evaluated readAt payload →
      Recent (.initial start db r) tr d readAt payload := by
  have hinv : StalenessInv (.initial start db r) d tr s := by
    refine h.invariant ⟨List.mem_cons_self, fun _ => trivial, ?_⟩ ?_
    · intro t payload hget
      obtain ⟨hp, ht⟩ := hr t payload hget
      exact ⟨start, by linarith, le_rfl, _, List.mem_cons_self, rfl, hp⟩
    · intro tr s e s' _ hinv hstep
      exact hinv.step hstep.1 hstep.2
  intro i readAt payload hi
  exact hinv.point hi

/-- A fill comes five seconds after its query, and a rule has been created in between. 64 seconds
after the query the table without the rule is still served. -/
theorem bounded_staleness_late_fill : ∃ tr, ∃ s : TimedState, s.db = [everyPath] ∧
    s.point 3 = .evaluated 64 [] ∧ Recent (.initial 0 [] .empty) tr 5 64 [] := by
  have hrun : ∃ tr s, Run (Guarded TimedStep (Prompt 5)) (.initial 0 [] .empty) tr s ∧
      s.db = [everyPath] ∧ s.point 3 = .evaluated 64 [] := by
    refine ⟨_, _, .snoc (.snoc (.snoc (.snoc (.snoc (.snoc .nil
      ⟨@TimedStep.miss _ 0 1 ?_ ?_ ?_, nofun⟩) ⟨@TimedStep.query _ 0 1 ?_ ?_, nofun⟩)
      ⟨@TimedStep.commit _ 1 2 (.create everyPath) ?_ ?_, nofun⟩)
      ⟨@TimedStep.invalidate _ 2 2 ?_ ?_, nofun⟩)
      ⟨@TimedStep.setex _ 5 1 0 [] ?_ ?_, @prompt_setex 5 5 0 _ 1 [] ?_ ?_⟩)
      ⟨@TimedStep.hit _ 64 3 [] ?_ ?_ ?_, nofun⟩, ?_, ?_⟩
    all_goals decide +kernel
  obtain ⟨tr, s, h, hdb, hpoint⟩ := hrun
  exact ⟨tr, s, hdb, hpoint,
    bounded_staleness 5 0 [] (fun _ _ hget => by simp at hget) h 3 64 [] hpoint⟩

/-! ### Without the clock

The two systems of operations are the same one, as long as no invalidation fails. So what
`RuleCache` has to say about fills around a writer is said of the timed operations too. -/

/-- An operation stands at the same place in the two systems, with the same rules. -/
inductive SamePoint : TimedPoint → RulePoint → Prop
  | idle : SamePoint .idle .idle
  | committed (v : ℕ) : SamePoint .committed (.committed v)
  | returned : SamePoint .returned .returned
  | missed (known : ℕ) : SamePoint .missed (.missed known)
  | queried (readAt : Time) (known v : ℕ) (payload : List Rule) :
      SamePoint (.queried readAt payload) (.queried known v payload)
  | evaluated (readAt : Time) (known : ℕ) (payload : List Rule) :
      SamePoint (.evaluated readAt payload) (.evaluated known payload)

/-- `r` is `s` without its clock: the same table and database, and the operations at the same
places. -/
structure Untimed (s : TimedState) (r : RuleState) : Prop where
  db : r.table r.version = s.db
  redis : r.redis = s.redis
  points : ∀ i, SamePoint (s.point i) (r.point i)

section Untimed

variable {s s' : TimedState} {r : RuleState}

theorem untimed_initial (start : Time) (db : RuleTable) (r : Redis) :
    Untimed (.initial start db r) (.initial db r) :=
  ⟨rfl, rfl, fun _ => .idle⟩

theorem Untimed.point (h : Untimed s r) {i : ℕ} {p : TimedPoint} (hi : s.point i = p) :
    ∃ p', r.point i = p' ∧ SamePoint p p' :=
  ⟨_, rfl, hi ▸ h.points i⟩

/-- The operations agree after one of them has moved on in both systems, to places that agree. -/
theorem Untimed.points_update (h : Untimed s r) (i : ℕ) {p : TimedPoint} {p' : RulePoint}
    (hp : SamePoint p p') (j : ℕ) :
    SamePoint (Function.update s.point i p j) (Function.update r.point i p' j) := by
  by_cases hji : j = i
  · rw [hji, Function.update_self, Function.update_self]
    exact hp
  · rw [Function.update_of_ne hji, Function.update_of_ne hji]
    exact h.points j

/-- A step other than a failing invalidation is a step of the system without a clock. -/
theorem Untimed.step {e : TimedEvent × Time} (h : Untimed s r) (hstep : TimedStep s e s')
    (hinv : ∀ i, e.1 ≠ .invalidateFails i) : ∃ l r', RuleStep r l r' ∧ Untimed s' r' := by
  cases hstep with
  | commit i w ht hi =>
      obtain ⟨_, hr, hpoint⟩ := h.point hi
      cases hpoint
      refine ⟨_, _, .commit i w hr, ?_, h.redis, h.points_update i (.committed _)⟩
      simp [h.db]
  | invalidate i ht hi =>
      obtain ⟨_, hr, hpoint⟩ := h.point hi
      cases hpoint with
      | committed v =>
          exact ⟨_, _, .invalidate i v hr, h.db, congrArg invalidateCache h.redis,
            h.points_update i .returned⟩
  | invalidateFails i ht hi => exact absurd rfl (hinv i)
  | @hit t i payload ht hi hget =>
      obtain ⟨_, hr, hpoint⟩ := h.point hi
      cases hpoint
      rw [← h.redis] at hget
      exact ⟨_, _, .hit i t payload hr hget, h.db, h.redis,
        h.points_update i (.evaluated _ _ _)⟩
  | @miss t i ht hi hget =>
      obtain ⟨_, hr, hpoint⟩ := h.point hi
      cases hpoint
      rw [← h.redis] at hget
      exact ⟨_, _, .miss i t hr hget, h.db, h.redis, h.points_update i (.missed _)⟩
  | query i ht hi =>
      obtain ⟨_, hr, hpoint⟩ := h.point hi
      cases hpoint with
      | missed known =>
          refine ⟨_, _, .query i known hr, h.db, h.redis, ?_⟩
          rw [← h.db]
          exact h.points_update i (.queried _ _ _ _)
  | @setex t i readAt payload ht hi =>
      obtain ⟨_, hr, hpoint⟩ := h.point hi
      cases hpoint with
      | queried _ known v _ =>
          refine ⟨_, _, .setex i known v t payload hr, h.db, ?_,
            h.points_update i (.evaluated _ _ _)⟩
          exact congrArg (fillCache · t payload) h.redis

/-- Without failing invalidations, a run on the clock is a run of `RuleStep`. -/
theorem untimed_run {start : Time} {db : RuleTable} {r : Redis}
    {tr : List (Transition TimedState (TimedEvent × Time))}
    (h : Run (Guarded TimedStep fun _ e => ∀ i, e.1 ≠ .invalidateFails i) (.initial start db r)
      tr s) : ∃ tr' r', Run RuleStep (.initial db r) tr' r' ∧ Untimed s r' := by
  induction h with
  | nil => exact ⟨[], _, .nil, untimed_initial start db r⟩
  | snoc _ hstep ih =>
      obtain ⟨tr', r', hrun, hsame⟩ := ih
      obtain ⟨l, r'', hstep', hsame'⟩ := hsame.step hstep.1 hstep.2
      exact ⟨_, r'', .snoc hrun hstep', hsame'⟩

end Untimed

end RateGuardian
