import RateGuardian.RuleRepository
import RateGuardian.Lib.Run

/-!
# RateGuardian.RuleCache

**Rule changes and the rule cache under concurrency.** The `/rules` routes run in worker
threads, so their commits and invalidations interleave with each other and with the three
steps of a `match`: `GET`, and on a miss the query and `SETEX`.

The state keeps every committed table, numbered by version, and the program point of every
operation. Versions are bookkeeping: no step reads a table other than the newest.

A fill can straddle a writer: query before the commit, `SETEX` after the invalidation. The
cache then serves a table that a returned writer has already replaced, until the key
expires. `matches_fresh` shows that this is the only way: without such a fill every `match`
evaluates a table at least as new as every write that had returned when it started.
-/

namespace RateGuardian

open Lib RuleRepository

/-! ### Operations in progress

A writer has two steps, its commit and its invalidation, and a `match` has up to three. Which
operations run, and how many of them at once, is not fixed. -/

/-- Where an operation stands, with what it has read so far. -/
inductive RulePoint
  | idle
  /-- A writer that committed version `v` and has not invalidated the cache yet. -/
  | committed (v : ℕ)
  | returned
  /-- A `match` whose `GET` missed. `known` is the newest version whose writer had returned
  when the `match` started. -/
  | missed (known : ℕ)
  /-- A `match` that queried the table of version `v`. -/
  | queried (known v : ℕ) (payload : List Rule)
  /-- A `match` that has the rules it evaluates. -/
  | evaluated (known : ℕ) (payload : List Rule)
  deriving DecidableEq

structure RuleState where
  table : ℕ → RuleTable
  version : ℕ
  redis : Redis
  /-- The newest version whose writer has returned. -/
  known : ℕ
  point : ℕ → RulePoint

namespace RuleState

def initial (db : RuleTable) (r : Redis) : RuleState := ⟨fun _ => db, 0, r, 0, fun _ => .idle⟩

def moveTo (s : RuleState) (i : ℕ) (p : RulePoint) : RuleState :=
  { s with point := Function.update s.point i p }

end RuleState

inductive RuleEvent
  | commit (i : ℕ) (w : Write)
  | invalidate (i : ℕ)
  | get (i : ℕ) (now : Time)
  | query (i : ℕ)
  | setex (i : ℕ) (now : Time)
  /-- The cache key expires. -/
  | expire
  deriving DecidableEq

inductive RuleStep : RuleState → RuleEvent → RuleState → Prop
  | commit {s : RuleState} (i : ℕ) (w : Write) (hi : s.point i = .idle) :
      RuleStep s (.commit i w)
        { s with
          table := Function.update s.table (s.version + 1) (w.commit (s.table s.version))
          version := s.version + 1
          point := Function.update s.point i (.committed (s.version + 1)) }
  | invalidate {s : RuleState} (i v : ℕ) (hi : s.point i = .committed v) :
      RuleStep s (.invalidate i)
        { s with
          redis := invalidateCache s.redis
          known := max s.known v
          point := Function.update s.point i .returned }
  | hit {s : RuleState} (i : ℕ) (now : Time) (payload : List Rule) (hi : s.point i = .idle)
      (hget : loadFromCache s.redis now = some payload) :
      RuleStep s (.get i now) (s.moveTo i (.evaluated s.known payload))
  | miss {s : RuleState} (i : ℕ) (now : Time) (hi : s.point i = .idle)
      (hget : loadFromCache s.redis now = none) :
      RuleStep s (.get i now) (s.moveTo i (.missed s.known))
  | query {s : RuleState} (i known : ℕ) (hi : s.point i = .missed known) :
      RuleStep s (.query i)
        (s.moveTo i (.queried known s.version (activeRules (s.table s.version))))
  | setex {s : RuleState} (i known v : ℕ) (now : Time) (payload : List Rule)
      (hi : s.point i = .queried known v payload) :
      RuleStep s (.setex i now)
        { s with
          redis := fillCache s.redis now payload
          point := Function.update s.point i (.evaluated known payload) }
  | expire {s : RuleState} : RuleStep s .expire { s with redis := invalidateCache s.redis }

/-- The three steps of a `match` that misses, taken in a row, are `load`; a hit is, too. -/
theorem load_steps (s : RuleState) (i : ℕ) (now : Time) (hi : s.point i = .idle) :
    ∃ tr s', Run RuleStep s tr s' ∧
      s'.point i = .evaluated s.known (load (s.table s.version) s.redis now).1 ∧
      s'.redis = (load (s.table s.version) s.redis now).2 := by
  unfold load
  cases hget : loadFromCache s.redis now with
  | some payload =>
      exact ⟨_, _, .single (.hit i now payload hi hget), by simp [RuleState.moveTo], rfl⟩
  | none =>
      have hmiss : (s.moveTo i (.missed s.known)).point i = .missed s.known := by
        simp [RuleState.moveTo]
      refine ⟨_, _, .snoc (.snoc (.snoc .nil (.miss i now hi hget)) (.query i _ hmiss))
        (.setex i s.known s.version now (activeRules (s.table s.version)) ?_), ?_, rfl⟩
      · simp [RuleState.moveTo]
      · simp [loadIntoCache]

/-! ### Freshness

The promise is about `match`, and the condition about fills. The invariant in between says of every
operation, and of the cache, how old the rules are that it has. -/

/-- `payload` is what the query returns on a committed table, not older than version `v`. -/
def Reflects (s : RuleState) (v : ℕ) (payload : List Rule) : Prop :=
  ∃ u, v ≤ u ∧ u ≤ s.version ∧ payload = activeRules (s.table u)

/-- Every `match` evaluates the rules of a table not older than any write that had returned
when it started. -/
def MatchesFresh (s : RuleState) : Prop :=
  ∀ i known payload, s.point i = .evaluated known payload → Reflects s known payload

/-- No fill stores the rules of a table that a returned write has replaced. -/
def FillsCurrent (s : RuleState) (e : RuleEvent) : Prop :=
  ∀ i now known v payload, e = .setex i now → s.point i = .queried known v payload → s.known ≤ v

/-- What is known of an operation's rules from where it stands: how old the table can be that they
are of. -/
def PointOk (s : RuleState) : RulePoint → Prop
  | .committed v => v ≤ s.version
  | .missed known => known ≤ s.version
  | .queried known v payload => known ≤ v ∧ v ≤ s.version ∧ payload = activeRules (s.table v)
  | .evaluated known payload => Reflects s known payload
  | .idle | .returned => True

/-- What holds between the cache, the tables and the operations in progress. -/
structure CacheInv (s : RuleState) : Prop where
  known_le : s.known ≤ s.version
  points : ∀ i, PointOk s (s.point i)
  cached : ∀ now payload, loadFromCache s.redis now = some payload → Reflects s s.known payload

/-- Tables are added and never changed, and writers that have returned stay so. -/
structure Grows (s s' : RuleState) : Prop where
  version : s.version ≤ s'.version
  table : ∀ u, u ≤ s.version → s'.table u = s.table u

section Steps

variable {s s' : RuleState}

theorem Reflects.mono {v : ℕ} {payload : List Rule} (h : Reflects s v payload)
    (hg : Grows s s') : Reflects s' v payload := by
  obtain ⟨u, hv, hu, hp⟩ := h
  exact ⟨u, hv, hu.trans hg.version, by rw [hp, hg.table u hu]⟩

theorem PointOk.mono {p : RulePoint} (h : PointOk s p) (hg : Grows s s') : PointOk s' p := by
  cases p with
  | idle => trivial
  | committed v => exact Nat.le_trans h hg.version
  | returned => trivial
  | missed known => exact Nat.le_trans h hg.version
  | queried known v payload =>
      obtain ⟨hknown, hv, hp⟩ := h
      exact ⟨hknown, hv.trans hg.version, by rw [hp, hg.table v hv]⟩
  | evaluated known payload => exact Reflects.mono h hg

/-- What is to be shown of every operation when one has moved on: the new point of that one. What is
known of the others is not lost as the tables grow. -/
theorem CacheInv.points_update (h : CacheInv s) (hg : Grows s s') {i : ℕ} {p : RulePoint}
    (hpoint : s'.point = Function.update s.point i p) (hp : PointOk s' p) (j : ℕ) :
    PointOk s' (s'.point j) := by
  rw [hpoint]
  exact (Function.forall_update_iff _ fun _ p => PointOk s' p).mpr
    ⟨hp, fun j _ => (h.points j).mono hg⟩ j

theorem CacheInv.point (h : CacheInv s) {i : ℕ} {p : RulePoint} (hi : s.point i = p) :
    PointOk s p :=
  hi ▸ h.points i

/-- The step lemma: every step keeps the invariant, where a fill stores no rules that a returned
write has replaced. -/
theorem CacheInv.step {e : RuleEvent} (h : CacheInv s) (hstep : RuleStep s e s')
    (hguard : FillsCurrent s e) : CacheInv s' := by
  cases hstep with
  | commit i w hi =>
      -- the table grows; whatever the cache reflects, it still reflects
      have hg : Grows s { s with
          table := Function.update s.table (s.version + 1) (w.commit (s.table s.version))
          version := s.version + 1
          point := Function.update s.point i (.committed (s.version + 1)) } := by
        refine ⟨Nat.le_succ _, ?_⟩
        intro u hu
        exact Function.update_of_ne (Nat.ne_of_lt (Nat.lt_succ_of_le hu)) _ _
      have hp : s.version + 1 ≤ s.version + 1 := le_rfl
      refine ⟨h.known_le.trans hg.version, h.points_update hg rfl hp, ?_⟩
      intro now payload hget
      exact (h.cached now payload hget).mono hg
  | invalidate i v hi =>
      have hv : v ≤ s.version := h.point hi
      refine ⟨max_le h.known_le hv, h.points_update ⟨le_rfl, fun _ _ => rfl⟩ rfl trivial, ?_⟩
      intro now payload hget
      rw [loadFromCache_invalidateCache] at hget
      cases hget
  | hit i now payload hi hget =>
      have hp : Reflects s s.known payload := h.cached now payload hget
      exact ⟨h.known_le, h.points_update ⟨le_rfl, fun _ _ => rfl⟩ rfl hp, h.cached⟩
  | miss i now hi hget =>
      exact ⟨h.known_le, h.points_update ⟨le_rfl, fun _ _ => rfl⟩ rfl h.known_le, h.cached⟩
  | query i known hi =>
      have hknown : known ≤ s.version := h.point hi
      have hp : known ≤ s.version ∧ s.version ≤ s.version ∧
          activeRules (s.table s.version) = activeRules (s.table s.version) :=
        ⟨hknown, le_rfl, rfl⟩
      exact ⟨h.known_le, h.points_update ⟨le_rfl, fun _ _ => rfl⟩ rfl hp, h.cached⟩
  | setex i known v now payload hi =>
      have hq : known ≤ v ∧ v ≤ s.version ∧ payload = activeRules (s.table v) :=
        h.point hi
      obtain ⟨hknown, hv, hp⟩ := hq
      have hcurrent : s.known ≤ v := hguard i now known v payload rfl hi
      refine ⟨h.known_le, h.points_update ⟨le_rfl, fun _ _ => rfl⟩ rfl ⟨v, hknown, hv, hp⟩, ?_⟩
      intro now' payload' hget
      rw [payload_of_fillCache hget]
      exact ⟨v, hcurrent, hv, hp⟩
  | expire =>
      refine ⟨h.known_le, h.points, ?_⟩
      intro now payload hget
      rw [loadFromCache_invalidateCache] at hget
      cases hget

theorem CacheInv.matchesFresh (h : CacheInv s) : MatchesFresh s := by
  intro i known payload hi
  exact h.point hi

end Steps

/-! ### Runs

First the run in which the promise is broken, by a fill around a writer, and then the theorem that
there is no other way. -/

def everyPath : Rule := ⟨1, "all", "*", 10, 60, .ip, true, 0⟩

/-- A `match` queries the empty table; a rule is created and the cache invalidated; the
`match` stores the empty list, and the next one evaluates it. -/
theorem straddling_fill_serves_stale : ∃ tr s,
    Run RuleStep (.initial [] .empty) tr s ∧ ¬ MatchesFresh s := by
  refine ⟨_, _, .snoc (.snoc (.snoc (.snoc (.snoc (.snoc .nil
    (.miss 1 0 ?_ ?_)) (.query 1 0 ?_)) (.commit 2 (.create everyPath) ?_)) (.invalidate 2 1 ?_))
    (.setex 1 0 0 1 [] ?_)) (.hit 3 2 [] ?_ ?_), ?_⟩
  rotate_right
  · intro hfresh
    obtain ⟨u, hle, hu, hp⟩ := hfresh 3 1 [] (by decide)
    obtain rfl : u = 1 := by
      have hu' : u ≤ 1 := hu
      omega
    revert hp
    decide +kernel
  all_goals decide +kernel

/-- **Rule changes take effect once the call returns**, in every run in which no fill stores
the rules of a table that a returned write has replaced. The cache may hold the rules of the
table at the start. -/
theorem matches_fresh (db : RuleTable) {r : Redis}
    (hr : ∀ now payload, loadFromCache r now = some payload → payload = activeRules db)
    {tr : List (Transition RuleState RuleEvent)} {s : RuleState}
    (h : Run (Guarded RuleStep FillsCurrent) (.initial db r) tr s) : MatchesFresh s := by
  refine CacheInv.matchesFresh (h.invariant (I := fun _ s => CacheInv s) ?_ ?_)
  · refine ⟨le_rfl, fun _ => trivial, ?_⟩
    intro now payload hget
    exact ⟨0, le_rfl, le_rfl, hr now payload hget⟩
  · intro tr s e s' _ hinv hstep
    exact hinv.step hstep.1 hstep.2

theorem fillsCurrent_setex {s : RuleState} (i known v : ℕ) (now : Time) (payload : List Rule)
    (hi : s.point i = .queried known v payload) (hv : s.known ≤ v) :
    FillsCurrent s (.setex i now) := by
  intro j now' known' v' payload' he hj
  cases he
  rw [hi] at hj
  cases hj
  exact hv

/-- A rule is created, and the next `match` misses, fills the cache and evaluates it. -/
theorem matches_fresh_sequential : ∃ s : RuleState,
    s.point 3 = .evaluated 1 [everyPath] ∧ MatchesFresh s := by
  have hrun : ∃ tr s, Run (Guarded RuleStep FillsCurrent) (.initial [] .empty) tr s ∧
      s.point 3 = .evaluated 1 [everyPath] := by
    refine ⟨_, _, .snoc (.snoc (.snoc (.snoc (.snoc .nil
      ⟨.commit 2 (.create everyPath) ?_, nofun⟩) ⟨.invalidate 2 1 ?_, nofun⟩)
      ⟨.miss 3 2 ?_ ?_, nofun⟩) ⟨.query 3 1 ?_, nofun⟩)
      ⟨.setex 3 1 1 2 [everyPath] ?_, fillsCurrent_setex 3 1 1 2 [everyPath] ?_ ?_⟩, ?_⟩
    all_goals decide +kernel
  obtain ⟨tr, s, h, hpoint⟩ := hrun
  exact ⟨s, hpoint, matches_fresh [] (fun _ _ hget => by simp at hget) h⟩

end RateGuardian
