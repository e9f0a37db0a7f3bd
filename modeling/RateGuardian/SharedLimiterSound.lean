import RateGuardian.SharedLimiter
import Mathlib.Data.Finset.Card
import Mathlib.Tactic.Linarith

/-!
# RateGuardian.SharedLimiterSound

**How far several processes can exceed a limit.** Fix an interval `[a, a + w)`. While the
clock is inside it, every call let in with a reading there is accounted for in one of two
ways (`WindowInv`):

* before the first `EXPIRE` since `a`, it is still in flight, so there are at most `n`;
* from that `EXPIRE` on the key outlives the interval, so the call is one of the `n` that
  can have been lost by then, or waits for its `ZADD`, or has its entry in the sorted set,
  where the next `ZCARD` sees it.

After the interval only calls that are undecided by then are added, at most one a process.

Three times `n` is what this adds up to. `n` calls can have been let in before the first `EXPIRE`
and have lost their entries with the key. From then on a call is let in below the limit, where the
count can miss the calls of the `n - 1` other processes that have not had their `ZADD` yet. And `n`
late calls can be decided when the interval is over.

The readings of calls in progress are distinct, and so are the readings of all calls let in, since
`SharedStep` has a process read a clock that no other call has read (`Bookkept`). So calls and
entries of the sorted set can be counted against each other by their readings.

* `windowInv_run`: the invariant of an interval, by a step lemma with one case for each command;
* `shared_limit_bound`: the bound over every interval, and `shared_limit_attained`, a run of one
  process that reaches it.
-/

namespace RateGuardian

open Lib Redis SlidingWindowRateLimiter

variable {n : ℕ} {key : String} {limit w : ℤ}

/-! ### Readings are distinct -/

/-- The reading of a call that counts, or may come to. -/
def CheckPoint.reading : CheckPoint → Option Time
  | .started now | .pruned now | .letIn now | .added now => some now
  | .idle | .turnedAway _ => none

/-- The call at this point has a reading `t` and has not been decided: its `ZCARD` is
still to come. -/
def CheckPoint.Undecided (p : CheckPoint) (t : Time) : Prop := p = .started t ∨ p = .pruned t

/-- The call at this point has a reading `t`, has been let in and has not returned: its `ZADD` or
its `EXPIRE` is still to come. -/
def CheckPoint.Owes (p : CheckPoint) (t : Time) : Prop := p = .letIn t ∨ p = .added t

/-- No two calls in progress share a reading. -/
def Apart (point : Fin n → CheckPoint) : Prop :=
  ∀ i j t, (point i).reading = some t → (point j).reading = some t → i = j

theorem Apart.update {point : Fin n → CheckPoint} (h : Apart point) {i : Fin n} {p : CheckPoint}
    (hp : ∀ t, p.reading = some t → ∀ j, j ≠ i → (point j).reading ≠ some t) :
    Apart (Function.update point i p) := by
  intro j k t hj hk
  by_cases hji : j = i
  · subst hji
    rw [Function.update_self] at hj
    by_contra hne
    rw [Function.update_of_ne (Ne.symm hne)] at hk
    exact hp t hj k (Ne.symm hne) hk
  · rw [Function.update_of_ne hji] at hj
    by_cases hki : k = i
    · subst hki
      rw [Function.update_self] at hk
      exact absurd hj (hp t hk j hji)
    · rw [Function.update_of_ne hki] at hk
      exact h j k t hj hk

/-- A call that moves on keeps its reading, or gives it up. -/
theorem Apart.moveOn {point : Fin n → CheckPoint} (h : Apart point) {i : Fin n} {p : CheckPoint}
    (hp : p.reading = none ∨ p.reading = (point i).reading) :
    Apart (Function.update point i p) := by
  refine h.update ?_
  intro t ht j hne hj
  rcases hp with hp | hp
  · rw [hp] at ht
    cases ht
  · rw [hp] at ht
    exact hne (h j i t hj ht)

/-- What is known of a call from where it stands, by the lists of the readings so far, of those let
in and of those that have returned. -/
structure PointKnown (readings letIn allowed : List Time) (p : CheckPoint) : Prop where
  reading : ∀ t, p.reading = some t → t ∈ readings
  undecided : ∀ t, p.Undecided t → t ∉ letIn
  owes : ∀ t, p.Owes t → t ∈ letIn ∧ t ∉ allowed

/-- What holds of the books at every point of a run: a call is decided once and returns once, under
a reading of its own. -/
structure Bookkept (key : String) (s : SharedState n) : Prop where
  points : ∀ i, PointKnown s.readings s.letIn s.allowed (s.point i)
  apart : Apart s.point
  readings_le : ∀ t ∈ s.readings, t ≤ s.clock
  letIn_sub : ∀ t ∈ s.letIn, t ∈ s.readings
  letIn_nodup : s.letIn.Nodup
  allowed_sub : ∀ t ∈ s.allowed, t ∈ s.letIn
  allowed_nodup : s.allowed.Nodup
  isZset : IsZset (s.slot key)

theorem reading_of_undecided {p : CheckPoint} {t : Time} (h : p.Undecided t) :
    p.reading = some t := by
  rcases h with rfl | rfl <;> rfl

theorem reading_of_owes {p : CheckPoint} {t : Time} (h : p.Owes t) : p.reading = some t := by
  rcases h with rfl | rfl <;> rfl

theorem not_owes_of_undecided {p : CheckPoint} {t u : Time} (h : p.Undecided t) : ¬ p.Owes u := by
  intro howes
  rcases h with rfl | rfl <;> rcases howes with howes | howes <;> cases howes

section PointKnown

variable {readings letIn allowed : List Time} {p : CheckPoint} {now : Time}

theorem pointKnown_of_none (h : p.reading = none) : PointKnown readings letIn allowed p := by
  refine ⟨?_, ?_, ?_⟩
  · intro t ht
    rw [h] at ht
    cases ht
  · intro t ht
    rw [reading_of_undecided ht] at h
    cases h
  · intro t ht
    rw [reading_of_owes ht] at h
    cases h

theorem pointKnown_of_undecided (h : p.Undecided now) (hread : now ∈ readings)
    (hnew : now ∉ letIn) : PointKnown readings letIn allowed p := by
  have hsame : ∀ t, p.reading = some t → t = now := fun t ht =>
    Option.some.inj (ht.symm.trans (reading_of_undecided h))
  refine ⟨?_, ?_, fun t ht => absurd ht (not_owes_of_undecided h)⟩
  · intro t ht
    rwa [hsame t ht]
  · intro t ht
    rwa [hsame t (reading_of_undecided ht)]

theorem pointKnown_of_owes (h : p.Owes now) (hread : now ∈ readings) (hin : now ∈ letIn)
    (hout : now ∉ allowed) : PointKnown readings letIn allowed p := by
  have hsame : ∀ t, p.reading = some t → t = now := fun t ht =>
    Option.some.inj (ht.symm.trans (reading_of_owes h))
  refine ⟨?_, fun t ht => absurd h (not_owes_of_undecided ht), ?_⟩
  · intro t ht
    rwa [hsame t ht]
  · intro t ht
    rw [hsame t (reading_of_owes ht)]
    exact ⟨hin, hout⟩

end PointKnown

/-- What is to be shown of every process when one has moved on: the new point of that one, and what
the others knew before. -/
theorem forall_point_update {point : Fin n → CheckPoint} {P : CheckPoint → Prop} (i : Fin n)
    {p : CheckPoint} (hp : P p) (hrest : ∀ j, j ≠ i → P (point j)) (j : Fin n) :
    P (Function.update point i p j) :=
  (Function.forall_update_iff point fun _ p => P p).mpr ⟨hp, hrest⟩ j

theorem nodup_concat {l : List Time} {t : Time} (h : l.Nodup) (ht : t ∉ l) :
    (l ++ [t]).Nodup := by
  rw [← List.concat_eq_append]
  exact h.concat ht

theorem forall_mem_concat {P : Time → Prop} {l : List Time} {t : Time} (h : ∀ u ∈ l, P u)
    (ht : P t) : ∀ u ∈ l ++ [t], P u :=
  List.forall_mem_append.mpr ⟨h, List.forall_mem_singleton.mpr ht⟩

section Bookkept

variable {s s' : SharedState n} {e : SharedEvent n}

theorem bookkept_initial (t₀ : Time) : Bookkept key (.initial n t₀) :=
  ⟨fun _ => pointKnown_of_none rfl, nofun, nofun, nofun, .nil, nofun, .nil, isZset_none⟩

theorem Bookkept.known (h : Bookkept key s) {i : Fin n} {p : CheckPoint} (hi : s.point i = p) :
    PointKnown s.readings s.letIn s.allowed p :=
  hi ▸ h.points i

/-- A process that is in a call has a reading that no other process has. -/
theorem Bookkept.ne_reading (h : Bookkept key s) {i j : Fin n} {now t : Time} (hji : j ≠ i)
    (hi : (s.point i).reading = some now) (hj : (s.point j).reading = some t) : t ≠ now := by
  intro heq
  rw [← heq] at hi
  exact hji (h.apart j i t hj hi)

/-- The books are kept by a step that decides nothing and returns nothing. -/
theorem Bookkept.moveOn (h : Bookkept key s) {i : Fin n} {p : CheckPoint} {r : Redis}
    (hp : PointKnown s.readings s.letIn s.allowed p)
    (hreading : p.reading = none ∨ p.reading = (s.point i).reading)
    (hr : IsZset (r.slot (redisKey key))) : Bookkept key { s.moveTo i p with redis := r } :=
  ⟨forall_point_update i hp fun j _ => h.points j, h.apart.moveOn hreading, h.readings_le,
    h.letIn_sub, h.letIn_nodup, h.allowed_sub, h.allowed_nodup, hr⟩

/-- The books are kept when a clock reading starts a call, as long as the reading is new. -/
theorem Bookkept.start (h : Bookkept key s) (i : Fin n) (hnew : s.clock ∉ s.readings) :
    Bookkept key { s.moveTo i (.started s.clock) with readings := s.readings ++ [s.clock] } := by
  have hsub : ∀ t ∈ s.readings, t ∈ s.readings ++ [s.clock] :=
    fun t ht => List.mem_append_left _ ht
  have hlast : s.clock ∈ s.readings ++ [s.clock] := List.mem_append_right _ (by simp)
  refine ⟨?_, ?_, forall_mem_concat h.readings_le le_rfl, fun t ht => hsub t (h.letIn_sub t ht),
    h.letIn_nodup, h.allowed_sub, h.allowed_nodup, h.isZset⟩
  · have hnotIn : s.clock ∉ s.letIn := fun hmem => hnew (h.letIn_sub _ hmem)
    refine forall_point_update i (pointKnown_of_undecided (Or.inl rfl) hlast hnotIn) ?_
    intro j _
    exact ⟨fun t ht => hsub t ((h.points j).reading t ht), (h.points j).undecided,
      (h.points j).owes⟩
  · refine h.apart.update ?_
    intro t ht j _ hj
    cases ht
    exact hnew ((h.points j).reading _ hj)

/-- The books are kept when a `ZCARD` lets a call in. -/
theorem Bookkept.letIn (h : Bookkept key s) {i : Fin n} {now : Time}
    (hi : s.point i = .pruned now) :
    Bookkept key { s.moveTo i (.letIn now) with letIn := s.letIn ++ [now] } := by
  have hreading : (s.point i).reading = some now := by
    rw [hi]
    rfl
  have hnew : now ∉ s.letIn := (h.known hi).undecided now (Or.inr rfl)
  have hlast : now ∈ s.letIn ++ [now] := List.mem_append_right _ (by simp)
  have hread : now ∈ s.readings := (h.points i).reading now hreading
  have hnotOut : now ∉ s.allowed := fun hmem => hnew (h.allowed_sub _ hmem)
  refine ⟨?_, h.apart.moveOn (Or.inr hreading.symm), h.readings_le,
    forall_mem_concat h.letIn_sub hread, nodup_concat h.letIn_nodup hnew,
    fun t ht => List.mem_append_left _ (h.allowed_sub t ht), h.allowed_nodup, h.isZset⟩
  refine forall_point_update i (pointKnown_of_owes (Or.inl rfl) hread hlast hnotOut) ?_
  intro j hji
  refine ⟨(h.points j).reading, ?_, ?_⟩
  · intro t ht
    have hne : t ≠ now := h.ne_reading hji hreading (reading_of_undecided ht)
    simpa [hne] using (h.points j).undecided t ht
  · intro t ht
    obtain ⟨hmem, hret⟩ := (h.points j).owes t ht
    exact ⟨List.mem_append_left _ hmem, hret⟩

/-- The books are kept when a call returns after its `EXPIRE`. -/
theorem Bookkept.returned (h : Bookkept key s) {i : Fin n} {now ttl : Time}
    (hi : s.point i = .added now) :
    Bookkept key { s.moveTo i .idle with
      redis := s.redis.expire s.clock (redisKey key) ttl
      allowed := s.allowed ++ [now] } := by
  have hreading : (s.point i).reading = some now := by
    rw [hi]
    rfl
  obtain ⟨hmem, hret⟩ := (h.known hi).owes now (Or.inr rfl)
  refine ⟨?_, h.apart.moveOn (Or.inl rfl), h.readings_le, h.letIn_sub, h.letIn_nodup,
    forall_mem_concat h.allowed_sub hmem, nodup_concat h.allowed_nodup hret, ?_⟩
  · refine forall_point_update i (pointKnown_of_none rfl) ?_
    intro j hji
    refine ⟨(h.points j).reading, (h.points j).undecided, ?_⟩
    intro t ht
    obtain ⟨hin, hnot⟩ := (h.points j).owes t ht
    have hne : t ≠ now := h.ne_reading hji hreading (reading_of_owes ht)
    exact ⟨hin, by simpa [hne] using hnot⟩
  · show IsZset ((s.redis.expire s.clock (redisKey key) ttl).slot (redisKey key))
    rw [slot_expire_self]
    exact h.isZset.expire _ _

theorem Bookkept.step (h : Bookkept key s) (hstep : SharedStep key limit w s e s') :
    Bookkept key s' := by
  cases hstep with
  | tick now hle =>
      exact ⟨h.points, h.apart, fun t ht => (h.readings_le t ht).trans hle, h.letIn_sub,
        h.letIn_nodup, h.allowed_sub, h.allowed_nodup, h.isZset⟩
  | start i hi hnew => exact h.start i hnew
  | prune i now hi =>
      have hp : PointKnown s.readings s.letIn s.allowed (.pruned now) :=
        pointKnown_of_undecided (Or.inr rfl) ((h.known hi).reading now rfl)
          ((h.known hi).undecided now (Or.inl rfl))
      refine h.moveOn hp (Or.inr (by rw [hi]; rfl)) ?_
      rw [slot_zremrangebyscore_self]
      exact h.isZset.zremSlot _ _
  | zcardLow i now hi hlt => exact h.letIn hi
  | zcardHigh i now hi hge => exact h.moveOn (pointKnown_of_none rfl) (Or.inl rfl) h.isZset
  | zadd i now hi =>
      obtain ⟨hin, hout⟩ := (h.known hi).owes now (Or.inl rfl)
      have hp : PointKnown s.readings s.letIn s.allowed (.added now) :=
        pointKnown_of_owes (Or.inr rfl) ((h.known hi).reading now rfl) hin hout
      refine h.moveOn hp (Or.inr (by rw [hi]; rfl)) ?_
      rw [slot_zadd_self]
      exact h.isZset.zaddSlot _ _ _
  | expire i now hi => exact h.returned hi
  | zrange i now hi => exact h.moveOn (pointKnown_of_none rfl) (Or.inl rfl) h.isZset

theorem bookkept_run {t₀ : Time} {tr : List (Transition (SharedState n) (SharedEvent n))}
    (h : Run (SharedStep key limit w) (.initial n t₀) tr s) : Bookkept key s := by
  refine h.invariant (I := fun _ s => Bookkept key s) (bookkept_initial t₀) ?_
  intro tr s e s' _ hinv hstep
  exact hinv.step hstep

end Bookkept

/-! ### One interval

The interval is fixed from here on, and so is what is counted: the calls let in whose reading is
within it. -/

/-- `t` lies in the interval of `w` seconds from `a`. -/
def Within (a : Time) (w : ℤ) (t : Time) : Prop := a ≤ t ∧ t < a + w

instance (a : Time) (w : ℤ) : DecidablePred (Within a w) :=
  fun t => inferInstanceAs (Decidable (a ≤ t ∧ t < a + w))

/-- Every call let in with a reading in the interval is still in flight. -/
def AllOwed (a : Time) (w : ℤ) (s : SharedState n) : Prop :=
  ∀ t ∈ s.letIn, Within a w t → ∃ i, (s.point i).Owes t

/-- The key outlives the interval, and of the calls let in with a reading there all but `n`
wait for their `ZADD` or are in the sorted set. -/
structure Kept (key : String) (limit : ℤ) (a : Time) (w : ℤ) (s : SharedState n) : Prop where
  lasts : Slot.LastsUntil s.clock (a + w) (s.slot key)
  le_clock : a ≤ s.clock
  count : s.letIn.countP (Within a w) < limit.toNat + 2 * n
  found : ∃ lost : Finset Time, lost.card ≤ n ∧ ∀ t ∈ s.letIn, Within a w t →
    t ∈ lost ∨ (∃ i, s.point i = .letIn t) ∨ (t, t) ∈ (zview s.clock (s.slot key)).entries

/-- The interval is over, and only the processes in `late` can still be let in with a reading
there. -/
def Settling (limit : ℤ) (a : Time) (w : ℤ) (s : SharedState n) : Prop :=
  ∃ late : Finset (Fin n), (∀ i t, (s.point i).Undecided t → Within a w t → i ∈ late) ∧
    s.letIn.countP (Within a w) + late.card < limit.toNat + 3 * n

def WindowInv (key : String) (limit : ℤ) (a : Time) (w : ℤ) (s : SharedState n) : Prop :=
  (s.clock < a + w ∧ (AllOwed a w s ∨ Kept key limit a w s)) ∨
    (a + w ≤ s.clock ∧ Settling limit a w s)

theorem countP_le_card {l : List Time} (hnodup : l.Nodup) {P : Time → Prop} [DecidablePred P]
    {S : Finset Time} (h : ∀ t ∈ l, P t → t ∈ S) : l.countP P ≤ S.card := by
  rw [List.countP_eq_length_filter, ← List.toFinset_card_of_nodup (hnodup.filter _)]
  refine Finset.card_le_card ?_
  intro t ht
  obtain ⟨hmem, hP⟩ := List.mem_filter.mp (List.mem_toFinset.mp ht)
  exact h t hmem (of_decide_eq_true hP)

/-- What some process is at, it is still at after another one has moved on. -/
theorem exists_point_update {point : Fin n → CheckPoint} {P : CheckPoint → Prop} {i : Fin n}
    {p : CheckPoint} (h : ∃ j, P (point j)) (hi : P (point i) → P p) :
    ∃ j, P (Function.update point i p j) := by
  rw [Function.exists_update_iff point fun _ p => P p]
  obtain ⟨j, hj⟩ := h
  by_cases hji : j = i
  · exact Or.inl (hi (hji ▸ hj))
  · exact Or.inr ⟨j, hji, hj⟩

section Interval

variable {a : Time} {s : SharedState n} {i : Fin n} {p : CheckPoint} {r : Redis}
  {readings allowed : List Time}

/-! Before the first `EXPIRE`. The key may expire at any moment here, because nothing has extended
it since the interval began, so no entry can be counted on. -/

theorem AllOwed.count_le (h : AllOwed a w s) (hb : Bookkept key s) :
    s.letIn.countP (Within a w) ≤ n := by
  have hmem : ∀ t ∈ s.letIn, Within a w t →
      t ∈ Finset.univ.image fun i => ((s.point i).reading).getD 0 := by
    intro t ht hin
    obtain ⟨i, hi⟩ := h t ht hin
    refine Finset.mem_image.mpr ⟨i, Finset.mem_univ i, ?_⟩
    rw [reading_of_owes hi]
    rfl
  refine (countP_le_card hb.letIn_nodup hmem).trans (Finset.card_image_le.trans ?_)
  rw [Finset.card_univ, Fintype.card_fin]

theorem AllOwed.moveOn (h : AllOwed a w s) (hp : ∀ t, (s.point i).Owes t → p.Owes t) :
    AllOwed a w ⟨s.clock, r, Function.update s.point i p, readings, s.letIn, allowed⟩ := by
  intro t ht hin
  exact exists_point_update (P := fun p => p.Owes t) (h t ht hin) (hp t)

theorem AllOwed.letIn {now : Time} (h : AllOwed a w s) (hi : s.point i = .pruned now) :
    AllOwed a w { s.moveTo i (.letIn now) with letIn := s.letIn ++ [now] } := by
  intro t ht hin
  rcases List.mem_append.mp ht with ht | ht
  · refine exists_point_update (P := fun p => p.Owes t) (h t ht hin) ?_
    intro howes
    rw [hi] at howes
    rcases howes with howes | howes <;> cases howes
  · rw [List.mem_singleton.mp ht]
    exact ⟨i, Or.inl (Function.update_self _ _ _)⟩

/-- The first `EXPIRE` of the interval makes the key outlive it. The calls let in so far are in
flight, so they are at most `n`, and they are what can have been lost. -/
theorem AllOwed.expire (h : AllOwed a w s) (hb : Bookkept key s) (hlimit : 1 ≤ limit)
    (ha : a ≤ s.clock) :
    Kept key limit a w ⟨s.clock, s.redis.expire s.clock (redisKey key) (w + 1),
      Function.update s.point i p, readings, s.letIn, allowed⟩ := by
  have hcount := h.count_le hb
  refine ⟨?_, ha, ?_, (s.letIn.filter (Within a w)).toFinset, ?_, ?_⟩
  · show Slot.LastsUntil s.clock (a + w)
      ((s.redis.expire s.clock (redisKey key) (w + 1)).slot (redisKey key))
    rw [slot_expire_self]
    exact Slot.lastsUntil_expire _ (by linarith)
  · show s.letIn.countP (Within a w) < _
    omega
  · rw [List.toFinset_card_of_nodup (hb.letIn_nodup.filter _), ← List.countP_eq_length_filter]
    exact hcount
  · intro t ht hin
    exact Or.inl (List.mem_toFinset.mpr (List.mem_filter.mpr ⟨ht, decide_eq_true hin⟩))

/-! While the key outlives the interval. Entries of the interval can no more be lost: the key does
not expire before its end, and a prune within it takes earlier entries only. -/

theorem Kept.tick {now : Time} (h : Kept key limit a w s) (hle : s.clock ≤ now)
    (hnow : now < a + w) : Kept key limit a w { s with clock := now } := by
  have hview : zview now (s.slot key) = zview s.clock (s.slot key) := by
    rw [zview, zview, Slot.read, Slot.read, h.lasts.live_eq hle hnow]
  refine ⟨h.lasts.later hle, h.le_clock.trans hle, h.count, ?_⟩
  obtain ⟨lost, hcard, hfound⟩ := h.found
  refine ⟨lost, hcard, ?_⟩
  intro t ht hin
  show _ ∨ _ ∨ (t, t) ∈ (zview now (s.slot key)).entries
  rw [hview]
  exact hfound t ht hin

/-- The invariant is kept by a step that lets nobody in and takes no entry of the interval away. -/
theorem Kept.moveOn (h : Kept key limit a w s)
    (hlasts : Slot.LastsUntil s.clock (a + w) (r.slot (redisKey key)))
    (hview : ∀ t, Within a w t → (t, t) ∈ (zview s.clock (s.slot key)).entries →
      (t, t) ∈ (zview s.clock (r.slot (redisKey key))).entries)
    (hp : ∀ t, s.point i = .letIn t → (t, t) ∈ (zview s.clock (r.slot (redisKey key))).entries) :
    Kept key limit a w ⟨s.clock, r, Function.update s.point i p, readings, s.letIn, allowed⟩ := by
  refine ⟨hlasts, h.le_clock, h.count, ?_⟩
  obtain ⟨lost, hcard, hfound⟩ := h.found
  refine ⟨lost, hcard, ?_⟩
  intro t ht hin
  rcases hfound t ht hin with hlost | ⟨j, hj⟩ | hentry
  · exact Or.inl hlost
  · by_cases hji : j = i
    · exact Or.inr (Or.inr (hp t (hji ▸ hj)))
    · refine Or.inr (Or.inl ⟨j, ?_⟩)
      show Function.update s.point i p j = _
      rw [Function.update_of_ne hji]
      exact hj
  · exact Or.inr (Or.inr (hview t hin hentry))

/-- The invariant is kept by a step that does not touch the key. -/
theorem Kept.moveOn_of_slot_eq (h : Kept key limit a w s) (hp : ∀ t, s.point i ≠ .letIn t) :
    Kept key limit a w
      ⟨s.clock, s.redis, Function.update s.point i p, readings, s.letIn, allowed⟩ :=
  h.moveOn h.lasts (fun _ _ hentry => hentry) (fun t ht => absurd ht (hp t))

/-- The invariant is kept by a prune, whose bound lies before the interval. -/
theorem Kept.prune {now : Time} (h : Kept key limit a w s) (hb : Bookkept key s)
    (hclock : s.clock < a + w) (hi : s.point i = .started now) :
    Kept key limit a w ⟨s.clock, s.redis.zremrangebyscore s.clock (redisKey key) (now - w),
      Function.update s.point i p, readings, s.letIn, allowed⟩ := by
  have hle : now ≤ s.clock := hb.readings_le now ((hb.known hi).reading now rfl)
  refine h.moveOn ?_ ?_ (by simp [hi])
  · rw [slot_zremrangebyscore_self]
    exact h.lasts.update _
  · intro t hin hentry
    rw [slot_zremrangebyscore_self]
    show (t, t) ∈ (zview s.clock (zremSlot s.clock (now - w) (s.slot key))).entries
    rw [hb.isZset.zview_zremSlot le_rfl, SortedSet.mem_removeUpTo]
    have hage := hin.1
    exact ⟨hentry, show now - w < t by linarith⟩

/-- The invariant is kept by a `ZADD`, which moves its call from those that wait into the sorted
set. -/
theorem Kept.zadd {now : Time} (h : Kept key limit a w s) (hb : Bookkept key s)
    (hi : s.point i = .letIn now) :
    Kept key limit a w ⟨s.clock, s.redis.zadd s.clock (redisKey key) now now,
      Function.update s.point i p, readings, s.letIn, allowed⟩ := by
  have hview : zview s.clock ((s.redis.zadd s.clock (redisKey key) now now).slot
      (redisKey key)) = (zview s.clock (s.slot key)).add now now := by
    rw [slot_zadd_self]
    exact hb.isZset.zview_zaddSlot _ _ _
  refine h.moveOn ?_ ?_ ?_
  · rw [slot_zadd_self]
    exact h.lasts.update _
  · intro t _ hentry
    rw [hview, SortedSet.mem_add]
    by_cases heq : t = now
    · exact Or.inl (by rw [heq])
    · exact Or.inr ⟨hentry, heq⟩
  · intro t ht
    rw [hi] at ht
    cases ht
    rw [hview, SortedSet.mem_add]
    exact Or.inl rfl

/-- The invariant is kept by a later `EXPIRE`, which only moves the deadline further away. -/
theorem Kept.expire {now : Time} (h : Kept key limit a w s) (hw : 1 ≤ w)
    (hi : s.point i = .added now) :
    Kept key limit a w ⟨s.clock, s.redis.expire s.clock (redisKey key) (w + 1),
      Function.update s.point i p, readings, s.letIn, allowed⟩ := by
  have hw : (1 : Time) ≤ w := by exact_mod_cast hw
  refine h.moveOn ?_ ?_ (by simp [hi])
  · rw [slot_expire_self]
    have hle := h.le_clock
    exact Slot.lastsUntil_expire _ (by linarith)
  · intro t _ hentry
    rw [slot_expire_self]
    show (t, t) ∈ (zview s.clock (Slot.expire s.clock (w + 1) (s.slot key))).entries
    rw [zview_expire _ (by linarith)]
    exact hentry

/-- The count that lets a call in: all but `n` of the calls before it are seen by it, or
belong to the other processes. -/
theorem Kept.countP_lt {now : Time} (h : Kept key limit a w s) (hb : Bookkept key s)
    (hi : s.point i = .pruned now)
    (hlt : (s.redis.zcard s.clock (redisKey key) : ℤ) < limit) :
    s.letIn.countP (Within a w) + 1 < limit.toNat + 2 * n := by
  obtain ⟨lost, hcard, hfound⟩ := h.found
  have hmem : ∀ t ∈ s.letIn, Within a w t →
      t ∈ lost ∪ ((Finset.univ.erase i).image fun j => ((s.point j).reading).getD 0) ∪
        ((zview s.clock (s.slot key)).entries.map Prod.fst).toFinset := by
    intro t ht hin
    rcases hfound t ht hin with hlost | ⟨j, hj⟩ | hentry
    · simp [hlost]
    · have hji : j ≠ i := by
        intro heq
        rw [heq, hi] at hj
        cases hj
      have himage : t ∈ (Finset.univ.erase i).image fun j => ((s.point j).reading).getD 0 := by
        refine Finset.mem_image.mpr ⟨j, Finset.mem_erase.mpr ⟨hji, Finset.mem_univ j⟩, ?_⟩
        rw [hj]
        rfl
      exact Finset.mem_union_left _ (Finset.mem_union_right _ himage)
    · exact Finset.mem_union_right _ (List.mem_toFinset.mpr (List.mem_map_of_mem hentry))
  have hothers : ((Finset.univ.erase i).image
      fun j => ((s.point j).reading).getD 0).card ≤ n - 1 := by
    refine Finset.card_image_le.trans ?_
    rw [Finset.card_erase_of_mem (Finset.mem_univ i), Finset.card_univ, Fintype.card_fin]
  have hseen : (((zview s.clock (s.slot key)).entries.map Prod.fst).toFinset).card ≤
      s.redis.zcard s.clock (redisKey key) := by
    refine (List.toFinset_card_le _).trans ?_
    rw [List.length_map]
    rfl
  have hle := countP_le_card hb.letIn_nodup hmem
  have hunion := (Finset.card_union_le _ _).trans
    (Nat.add_le_add_right (Finset.card_union_le lost _) _) |>.trans' hle
  have hpos : 0 < n := i.pos
  omega

theorem Kept.letIn {now : Time} (h : Kept key limit a w s) (hb : Bookkept key s)
    (hi : s.point i = .pruned now)
    (hlt : (s.redis.zcard s.clock (redisKey key) : ℤ) < limit) :
    Kept key limit a w { s.moveTo i (.letIn now) with letIn := s.letIn ++ [now] } := by
  have hcount := h.countP_lt hb hi hlt
  obtain ⟨lost, hcard, hfound⟩ := h.found
  refine ⟨h.lasts, h.le_clock, ?_, lost, hcard, ?_⟩
  · show (s.letIn ++ [now]).countP (Within a w) < _
    rw [List.countP_append, List.countP_singleton]
    split <;> omega
  · intro t ht hin
    rcases List.mem_append.mp ht with ht | ht
    · rcases hfound t ht hin with hlost | hpending | hentry
      · exact Or.inl hlost
      · refine Or.inr (Or.inl (exists_point_update (P := fun p => p = .letIn t) hpending ?_))
        intro heq
        rw [hi] at heq
        cases heq
      · exact Or.inr (Or.inr hentry)
    · rw [List.mem_singleton.mp ht]
      exact Or.inr (Or.inl ⟨i, Function.update_self _ _ _⟩)

/-! After the interval. No call reads the clock within it any more, so all that can be added are the
calls that have read it and are not decided. -/

theorem Settling.moveOn (h : Settling limit a w s)
    (hp : ∀ t, p.Undecided t → Within a w t → (s.point i).Undecided t) :
    Settling limit a w
      ⟨s.clock, r, Function.update s.point i p, readings, s.letIn, allowed⟩ := by
  obtain ⟨late, hlate, hcount⟩ := h
  refine ⟨late, ?_, hcount⟩
  intro j t hj hin
  by_cases hji : j = i
  · subst hji
    have hnew : p.Undecided t := by
      have hj' : (Function.update s.point j p j).Undecided t := hj
      rwa [Function.update_self] at hj'
    exact hlate j t (hp t hnew hin) hin
  · have hold : (Function.update s.point i p j).Undecided t := hj
    rw [Function.update_of_ne hji] at hold
    exact hlate j t hold hin

/-- A late call is let in at the expense of its process, which is in `late` no longer. -/
theorem Settling.letIn {now : Time} (h : Settling limit a w s) (hi : s.point i = .pruned now) :
    Settling limit a w { s.moveTo i (.letIn now) with letIn := s.letIn ++ [now] } := by
  obtain ⟨late, hlate, hcount⟩ := h
  have hrest : ∀ j t, (Function.update s.point i (.letIn now) j).Undecided t → Within a w t →
      j ≠ i ∧ j ∈ late := by
    intro j t hj hin
    have hji : j ≠ i := by
      intro heq
      rw [heq, Function.update_self] at hj
      rcases hj with hj | hj <;> cases hj
    rw [Function.update_of_ne hji] at hj
    exact ⟨hji, hlate j t hj hin⟩
  by_cases hin : Within a w now
  · have hmem : i ∈ late := hlate i now (Or.inr hi) hin
    refine ⟨late.erase i, ?_, ?_⟩
    · intro j t hj hjin
      exact Finset.mem_erase.mpr (hrest j t hj hjin)
    · show (s.letIn ++ [now]).countP (Within a w) + _ < _
      have hpos : 0 < late.card := Finset.card_pos.mpr ⟨i, hmem⟩
      rw [List.countP_append, List.countP_singleton, Finset.card_erase_of_mem hmem]
      split <;> omega
  · refine ⟨late, fun j t hj hjin => (hrest j t hj hjin).2, ?_⟩
    show (s.letIn ++ [now]).countP (Within a w) + _ < _
    rw [List.countP_append, List.countP_singleton, if_neg (by simpa using hin)]
    exact hcount

end Interval

/-! ### Runs -/

section Runs

variable {a : Time} {s s' : SharedState n} {e : SharedEvent n}

theorem WindowInv.count_lt (h : WindowInv key limit a w s) (hb : Bookkept key s)
    (hlimit : 1 ≤ limit) : s.letIn.countP (Within a w) < limit.toNat + 3 * n := by
  rcases h with ⟨-, howed | hkept⟩ | ⟨-, late, -, hcount⟩
  · have := howed.count_le hb
    omega
  · have := hkept.count
    omega
  · omega

/-- The interval ends: every process may have a late call. -/
theorem settling_of_inside (h : AllOwed a w s ∨ Kept key limit a w s) (hb : Bookkept key s)
    (hlimit : 1 ≤ limit) (now : Time) : Settling limit a w { s with clock := now } := by
  refine ⟨Finset.univ, fun i _ _ _ => Finset.mem_univ i, ?_⟩
  show s.letIn.countP (Within a w) + _ < _
  rw [Finset.card_univ, Fintype.card_fin]
  rcases h with howed | hkept
  · have := howed.count_le hb
    omega
  · have := hkept.count
    omega

/-- The invariant is kept, in whichever phase, by a step that lets nobody in. -/
theorem WindowInv.moveOn {i : Fin n} {p : CheckPoint} {r : Redis} {readings allowed : List Time}
    (h : WindowInv key limit a w s) (howes : ∀ t, (s.point i).Owes t → p.Owes t)
    (hkept : s.clock < a + w → Kept key limit a w s → Kept key limit a w
      ⟨s.clock, r, Function.update s.point i p, readings, s.letIn, allowed⟩)
    (hundecided : a + w ≤ s.clock → ∀ t, p.Undecided t → Within a w t → (s.point i).Undecided t) :
    WindowInv key limit a w
      ⟨s.clock, r, Function.update s.point i p, readings, s.letIn, allowed⟩ := by
  rcases h with ⟨hin, howed | h⟩ | ⟨hout, h⟩
  · exact Or.inl ⟨hin, Or.inl (howed.moveOn howes)⟩
  · exact Or.inl ⟨hin, Or.inr (hkept hin h)⟩
  · exact Or.inr ⟨hout, h.moveOn (hundecided hout)⟩

/-- The step lemma: whichever process moves, and whichever command it executes, the invariant of the
interval is kept. -/
theorem WindowInv.step (h : WindowInv key limit a w s) (hb : Bookkept key s) (hlimit : 1 ≤ limit)
    (hw : 1 ≤ w) (hstep : SharedStep key limit w s e s') : WindowInv key limit a w s' := by
  cases hstep with
  | tick now hle =>
      rcases h with ⟨hin, h⟩ | ⟨hout, h⟩
      · by_cases hnow : now < a + w
        · refine Or.inl ⟨hnow, ?_⟩
          rcases h with howed | hkept
          · exact Or.inl howed
          · exact Or.inr (hkept.tick hle hnow)
        · exact Or.inr ⟨not_lt.mp hnow, settling_of_inside h hb hlimit now⟩
      · exact Or.inr ⟨hout.trans hle, h⟩
  | start i hi hnew =>
      refine h.moveOn (by simp [CheckPoint.Owes, hi])
        (fun _ hkept => hkept.moveOn_of_slot_eq (by simp [hi])) ?_
      -- the new reading is past the interval
      intro hout t ht hin
      rcases ht with ht | ht <;> cases ht
      exact absurd hin.2 (not_lt.mpr hout)
  | prune i now hi =>
      refine h.moveOn (by simp [CheckPoint.Owes, hi]) (fun hin hkept => hkept.prune hb hin hi) ?_
      intro _ t ht _
      rcases ht with ht | ht <;> cases ht
      exact Or.inl hi
  | zcardLow i now hi hlt =>
      rcases h with ⟨hin, howed | hkept⟩ | ⟨hout, h⟩
      · exact Or.inl ⟨hin, Or.inl (howed.letIn hi)⟩
      · exact Or.inl ⟨hin, Or.inr (hkept.letIn hb hi hlt)⟩
      · exact Or.inr ⟨hout, h.letIn hi⟩
  | zcardHigh i now hi hge =>
      exact h.moveOn (by simp [CheckPoint.Owes, hi])
        (fun _ hkept => hkept.moveOn_of_slot_eq (by simp [hi])) (by simp [CheckPoint.Undecided])
  | zadd i now hi =>
      exact h.moveOn (by simp [CheckPoint.Owes, hi]) (fun _ hkept => hkept.zadd hb hi)
        (by simp [CheckPoint.Undecided])
  | expire i now hi =>
      rcases h with ⟨hin, howed | hkept⟩ | ⟨hout, h⟩
      · by_cases ha : a ≤ s.clock
        · exact Or.inl ⟨hin, Or.inr (howed.expire hb hlimit ha)⟩
        · -- no reading is in the interval yet
          refine Or.inl ⟨hin, Or.inl ?_⟩
          intro t ht htin
          have hle : t ≤ s.clock := hb.readings_le t (hb.letIn_sub t ht)
          exact absurd (htin.1.trans hle) ha
      · exact Or.inl ⟨hin, Or.inr (hkept.expire hw hi)⟩
      · exact Or.inr ⟨hout, h.moveOn (by simp [CheckPoint.Undecided])⟩
  | zrange i now hi =>
      exact h.moveOn (by simp [CheckPoint.Owes, hi])
        (fun _ hkept => hkept.moveOn_of_slot_eq (by simp [hi])) (by simp [CheckPoint.Undecided])

/-- The run lemma: the invariant of the interval holds in every state that the processes reach. -/
theorem windowInv_run {t₀ : Time} {tr : List (Transition (SharedState n) (SharedEvent n))}
    (hlimit : 1 ≤ limit) (hw : 1 ≤ w)
    (h : Run (SharedStep key limit w) (.initial n t₀) tr s) (a : Time) :
    WindowInv key limit a w s := by
  refine h.invariant (I := fun _ s => WindowInv key limit a w s) ?_ ?_
  · by_cases hin : t₀ < a + w
    · exact Or.inl ⟨hin, Or.inl nofun⟩
    · refine Or.inr ⟨not_lt.mp hin, ?_⟩
      exact @settling_of_inside n key limit w a (.initial n t₀) (Or.inl nofun)
        (bookkept_initial t₀) hlimit t₀
  · intro tr s e s' hrun hinv hstep
    exact hinv.step (bookkept_run hrun) hlimit hw hstep

end Runs

/-- Two processes read the same count, and both are let in. -/
theorem two_processes_run : ∃ tr s,
    Run (SharedStep "10.0.0.1" 1 10) (.initial 2 0) tr s ∧ s.allowed = [0, 1] := by
  refine ⟨_, _, .snoc (.snoc (.snoc (.snoc (.snoc (.snoc (.snoc (.snoc (.snoc (.snoc (.snoc .nil
    (.start 0 ?_ ?_)) (.tick 1 ?_)) (.start 1 ?_ ?_)) (.prune 0 0 ?_)) (.prune 1 1 ?_))
    (.zcardLow 0 0 ?_ ?_)) (.zcardLow 1 1 ?_ ?_)) (.zadd 0 0 ?_)) (.zadd 1 1 ?_))
    (.expire 0 0 ?_)) (.expire 1 1 ?_), ?_⟩
  all_goals decide +kernel

theorem shared_limit_exceeded : ∃ tr s,
    Run (SharedStep "10.0.0.1" 1 10) (.initial 2 0) tr s ∧
      ¬ WindowBounded (10 : Time) 1 s.allowed := by
  obtain ⟨tr, s, hrun, hallowed⟩ := two_processes_run
  refine ⟨tr, s, hrun, ?_⟩
  intro hbound
  have htwo := (hbound 0).1
  rw [hallowed] at htwo
  revert htwo
  decide +kernel

/-- **The limit with `n` processes.** Whatever order their commands interleave in, no
half-open interval of `w` seconds contains the readings of more than `limit + 3 * n - 1` calls
that return `allowed=True`. -/
theorem shared_limit_bound (hlimit : 1 ≤ limit) (hw : 1 ≤ w) {t₀ : Time} {s : SharedState n}
    {tr : List (Transition (SharedState n) (SharedEvent n))}
    (h : Run (SharedStep key limit w) (.initial n t₀) tr s) :
    WindowBounded (w : Time) (limit.toNat + 3 * n - 1) s.allowed := by
  have hb := bookkept_run h
  refine windowBounded_of_ico ?_
  intro a
  have hcount := (windowInv_run hlimit hw h a).count_lt hb hlimit
  have hle : s.allowed.countP (Within a w) ≤ s.letIn.countP (Within a w) := by
    have hmem : ∀ t ∈ s.allowed, Within a w t → t ∈ (s.letIn.filter (Within a w)).toFinset :=
      fun t ht hin => List.mem_toFinset.mpr
        (List.mem_filter.mpr ⟨hb.allowed_sub t ht, decide_eq_true hin⟩)
    refine (countP_le_card hb.allowed_nodup hmem).trans ((List.toFinset_card_le _).trans ?_)
    rw [List.countP_eq_length_filter]
  show s.allowed.countP (Within a w) ≤ _
  omega

theorem shared_limit_bound_two : ∃ s : SharedState 2,
    s.allowed = [0, 1] ∧ WindowBounded ((10 : ℤ) : Time) ((1 : ℤ).toNat + 3 * 2 - 1) s.allowed := by
  obtain ⟨tr, s, hrun, hallowed⟩ := two_processes_run
  exact ⟨s, hallowed, shared_limit_bound (by decide) (by decide) hrun⟩

/-- The bound is attained, even by one process. Its second entry is lost when the key expires
before the `EXPIRE` of that call; two more fill the limit; the last call, read at 14, counts
at 25, when the key has expired again. -/
theorem shared_limit_attained : ∃ tr s, Run (SharedStep "10.0.0.1" 2 10) (.initial 1 0) tr s ∧
    s.allowed = [0, 5, 12, 13, 14] := by
  refine ⟨_, _, .snoc (.snoc (.snoc (.snoc (.snoc (.snoc (.snoc (.snoc (.snoc (.snoc (.snoc (.snoc
    (.snoc (.snoc (.snoc (.snoc (.snoc (.snoc (.snoc (.snoc (.snoc (.snoc (.snoc (.snoc (.snoc
    (.snoc (.snoc (.snoc (.snoc (.snoc (.snoc .nil
    (.start 0 ?_ ?_)) (.prune 0 0 ?_)) (.zcardLow 0 0 ?_ ?_)) (.zadd 0 0 ?_)) (.expire 0 0 ?_))
    (.tick 5 ?_)) (.start 0 ?_ ?_)) (.prune 0 5 ?_)) (.zcardLow 0 5 ?_ ?_)) (.zadd 0 5 ?_))
    (.tick 11 ?_)) (.expire 0 5 ?_))
    (.tick 12 ?_)) (.start 0 ?_ ?_)) (.prune 0 12 ?_)) (.zcardLow 0 12 ?_ ?_)) (.zadd 0 12 ?_))
    (.expire 0 12 ?_))
    (.tick 13 ?_)) (.start 0 ?_ ?_)) (.prune 0 13 ?_)) (.zcardLow 0 13 ?_ ?_)) (.zadd 0 13 ?_))
    (.expire 0 13 ?_))
    (.tick 14 ?_)) (.start 0 ?_ ?_)) (.tick 25 ?_)) (.prune 0 14 ?_)) (.zcardLow 0 14 ?_ ?_))
    (.zadd 0 14 ?_)) (.expire 0 14 ?_), ?_⟩
  all_goals decide +kernel

end RateGuardian
