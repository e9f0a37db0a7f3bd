import RateGuardian.ClusterSound

/-!
# RateGuardian.ClusterRefusals

**Why a cluster refuses a request.** A `check` counts what is in the sorted set when its `ZCARD`
runs, and that is not quite its own window. Between its prune and its `ZCARD` the other processes
add entries:

* of readings that are later than its own, which are requests that were let in after it took its
  reading and before it was refused; and
* of readings that its prune would have removed, if they had been there. Each of the other processes
  is late with one such entry at most, because its next call takes a new reading.

So a request is refused only if at least `limit - (n - 1)` calls were let in between the beginning
of its window and its refusal (`cluster_refusal_justified`). Nothing is assumed of the rules that
share a key, readings need not be distinct, and calls break off as before.

The invariant (`StretchKnown`) is about where the entries of a slot come from. Every member of a
limiter key is the reading of a call that added it. For a process between its prune and its `ZCARD`,
the entries that are too old for its window are of other processes, one of each at most (`FewLate`):
a process that has added a late one takes its next reading from a clock that is further. With that,
a count of `limit` leaves `limit - (n - 1)` entries that are recent enough.

That late entries do decide refusals is shown by a run (`late_entry_refuses`), so the `n - 1` cannot
simply be dropped.
-/

namespace RateGuardian

open Lib Redis SlidingWindowRateLimiter

/-! ### The entries of a slot -/

/-- The slot holds a sorted set whose entries satisfy `P`, if it holds anything. -/
def EntriesIn (P : Time × Time → Prop) (s : Slot Time Value) : Prop :=
  ∀ e, s = some e → ∃ z, e.value = .zset z ∧ ∀ x ∈ z.entries, P x

section EntriesIn

variable {P Q : Time × Time → Prop} {s : Slot Time Value} {now : Time}

theorem entriesIn_none : EntriesIn P none := by
  intro e he
  cases he

theorem EntriesIn.mono (h : EntriesIn P s) (himp : ∀ x, P x → Q x) : EntriesIn Q s := by
  intro e he
  obtain ⟨z, hz, hmem⟩ := h e he
  exact ⟨z, hz, fun x hx => himp x (hmem x hx)⟩

theorem EntriesIn.update (h : EntriesIn P s) {f : Option Value → Option Value}
    (hnone : ∀ v, f none = some v → ∃ z, v = .zset z ∧ ∀ x ∈ z.entries, Q x)
    (hsome : ∀ z : SortedSet Time Time, (∀ x ∈ z.entries, P x) → ∀ v, f (some (.zset z)) = some v →
      ∃ z', v = .zset z' ∧ ∀ x ∈ z'.entries, Q x) :
    EntriesIn Q (Slot.update now f s) := by
  intro e he
  cases hlive : Slot.live now s with
  | none =>
      rw [Slot.update_eq_of_live_none hlive] at he
      obtain ⟨v, hv, rfl⟩ := Option.map_eq_some_iff.mp he
      exact hnone v hv
  | some e₀ =>
      rw [Slot.update_eq_of_live_some hlive] at he
      obtain ⟨v, hv, rfl⟩ := Option.map_eq_some_iff.mp he
      obtain ⟨z, hz, hmem⟩ := h e₀ (Slot.live_eq_some.mp hlive).1
      rw [hz] at hv
      exact hsome z hmem v hv

/-- What a prune leaves satisfies `P` and is above the bound of the prune. -/
theorem EntriesIn.zremSlot (h : EntriesIn P s) (max : Time) :
    EntriesIn (fun x => P x ∧ max < x.2) (zremSlot now max s) := by
  refine h.update (fun v hv => by cases hv) ?_
  intro z hz v hv
  simp only [storeZset] at hv
  split at hv
  · cases hv
  · cases hv
    refine ⟨_, rfl, ?_⟩
    intro x hx
    obtain ⟨hmem, hlt⟩ := SortedSet.mem_removeUpTo.mp hx
    exact ⟨hz x hmem, hlt⟩

theorem EntriesIn.zaddSlot (h : EntriesIn P s) {member score : Time} (hnew : P (member, score)) :
    EntriesIn P (zaddSlot now member score s) := by
  have hadd : ∀ z : SortedSet Time Time, (∀ x ∈ z.entries, P x) →
      ∀ x ∈ (z.add member score).entries, P x := by
    intro z hz x hx
    rcases SortedSet.mem_add.mp hx with rfl | ⟨hmem, -⟩
    · exact hnew
    · exact hz x hmem
  refine h.update ?_ ?_
  · intro v hv
    cases hv
    exact ⟨_, rfl, hadd .empty fun x hx => by cases hx⟩
  · intro z hz v hv
    cases hv
    exact ⟨_, rfl, hadd z hz⟩

theorem EntriesIn.expire (h : EntriesIn P s) (ttl : Time) :
    EntriesIn P (Slot.expire now ttl s) := by
  intro e he
  obtain ⟨e₀, hlive, rfl⟩ := Option.map_eq_some_iff.mp he
  exact h e₀ (Slot.live_eq_some.mp hlive).1

/-- What a command sees of the slot satisfies `P`. -/
theorem EntriesIn.zview (h : EntriesIn P s) {x : Time × Time} (hx : x ∈ (zview now s).entries) :
    P x := by
  cases hlive : Slot.live now s with
  | none =>
      rw [zview_of_live_none hlive] at hx
      cases hx
  | some e₀ =>
      obtain ⟨v, d⟩ := e₀
      obtain ⟨z, hz, hmem⟩ := h ⟨v, d⟩ (Slot.live_eq_some.mp hlive).1
      obtain rfl : v = .zset z := hz
      rw [zview_eq_of_live hlive] at hx
      exact hmem x hx

end EntriesIn

/-! ### Late entries -/

/-- The reading of a call that may yet add its entry, which is still before its `ZADD`. -/
def Stretch.toAdd : Stretch → Option Time
  | .checking _ _ _ (.started t) | .checking _ _ _ (.pruned t) | .checking _ _ _ (.letIn t) =>
      some t
  | _ => none

/-- Of the entries up to `max` in the slot, each of the processes other than `j` has added one at
most; it will not add another, since its calls have taken readings from `now` on. -/
def FewLate {n : ℕ} (proc : Fin n → Stretch) (j : Fin n) (now max : Time)
    (s : Slot Time Value) : Prop :=
  ∃ late : Fin n → Option Time, late j = none ∧
    EntriesIn (fun x => x.2 ≤ max → ∃ i, late i = some x.1) s ∧
    ∀ i, late i ≠ none → ∀ t, (proc i).toAdd = some t → now ≤ t

/-- At least `limit` calls, but for one for each other process, were let in and added their entries,
with distinct readings that are later than a window before `now` and not later than `refused`. -/
def RefusedFor (n : ℕ) (rule : Rule) (now refused : Time) (added : List Time) : Prop :=
  ∃ es : List Time, es.Nodup ∧
    (∀ t ∈ es, t ∈ added ∧ now - rule.windowSeconds < t ∧ t ≤ refused) ∧
    rule.limit < es.length + n

section Late

variable {n : ℕ} {proc proc' : Fin n → Stretch} {i j : Fin n} {now max clock : Time}
  {s s' : Slot Time Value}

/-- Late entries are few: no two of them are of one process. -/
theorem length_lt_of_late {late : Fin n → Option Time} {es : List Time} (hj : late j = none)
    (hnodup : es.Nodup) (hes : ∀ t ∈ es, ∃ i, late i = some t) : es.length < n := by
  have hsub : es.toFinset ⊆ (Finset.univ.erase j).image fun i => (late i).getD 0 := by
    intro t ht
    obtain ⟨i, hi⟩ := hes t (List.mem_toFinset.mp ht)
    refine Finset.mem_image.mpr ⟨i, ?_, by rw [hi]; rfl⟩
    refine Finset.mem_erase.mpr ⟨?_, Finset.mem_univ i⟩
    rintro rfl
    rw [hj] at hi
    cases hi
  have hcard : es.toFinset.card ≤ (Finset.univ.erase j).card :=
    (Finset.card_le_card hsub).trans Finset.card_image_le
  rw [List.toFinset_card_of_nodup hnodup, Finset.card_erase_of_mem (Finset.mem_univ j),
    Finset.card_univ, Fintype.card_fin] at hcard
  have hpos : 0 < n := j.pos
  omega

/-- After the prune there is no late entry at all. -/
theorem fewLate_prune {P : Time × Time → Prop} (h : EntriesIn P s) :
    FewLate proc j now max (zremSlot clock max s) := by
  refine ⟨fun _ => none, rfl, (h.zremSlot max).mono ?_, fun i hi => absurd rfl hi⟩
  rintro x ⟨-, hlt⟩ hle
  exact absurd hle (not_le.mpr hlt)

/-- Calls begin, go on and end, and the slot gains nothing. New calls take readings from the clock,
so none of them can be late. -/
theorem FewLate.move (h : FewLate proc j now max s) (hnow : now ≤ clock)
    (hslot : ∀ P, EntriesIn P s → EntriesIn P s')
    (hproc : ∀ i t, (proc' i).toAdd = some t → (proc i).toAdd = some t ∨ t = clock) :
    FewLate proc' j now max s' := by
  obtain ⟨late, hj, hentries, hlate⟩ := h
  refine ⟨late, hj, hslot _ hentries, ?_⟩
  intro i hi t ht
  rcases hproc i t ht with hsame | rfl
  · exact hlate i hi t hsame
  · exact hnow

/-- Another process adds its entry, and is done with it. -/
theorem FewLate.zadd (h : FewLate proc j now max s) (hmax : max < now) (hji : j ≠ i) {t : Time}
    (hi : (proc i).toAdd = some t) (hproc : ∀ k, k ≠ i → proc' k = proc k)
    (hdone : (proc' i).toAdd = none) :
    FewLate proc' j now max (zaddSlot clock t t s) := by
  obtain ⟨late, hj, hentries, hlate⟩ := h
  have hkeep : ∀ k, k ≠ i → late k ≠ none → ∀ u, (proc' k).toAdd = some u → now ≤ u := by
    intro k hk hne u hu
    rw [hproc k hk] at hu
    exact hlate k hne u hu
  by_cases hlt : max < t
  · -- The reading is in the window.
    refine ⟨late, hj, hentries.zaddSlot fun hle => absurd hle (not_le.mpr hlt), ?_⟩
    intro k hne u hu
    by_cases hk : k = i
    · rw [hk, hdone] at hu
      cases hu
    · exact hkeep k hk hne u hu
  · -- A late entry, and the first of its process: after one, its readings are from `now` on.
    have hfirst : late i = none := by
      by_contra hne
      exact hlt (hmax.trans_le (hlate i hne t hi))
    refine ⟨Function.update late i (some t), ?_, ?_, ?_⟩
    · rwa [Function.update_of_ne hji]
    · refine EntriesIn.zaddSlot (hentries.mono ?_) fun _ => ⟨i, Function.update_self ..⟩
      intro x hx hle
      obtain ⟨k, hk⟩ := hx hle
      refine ⟨k, ?_⟩
      have hki : k ≠ i := by
        rintro rfl
        rw [hfirst] at hk
        cases hk
      rwa [Function.update_of_ne hki]
    · intro k hne u hu
      by_cases hk : k = i
      · rw [hk, hdone] at hu
        cases hu
      · rw [Function.update_of_ne hk] at hne
        exact hkeep k hk hne u hu

/-- A full window is full of recent entries, but for the late ones, of which there are fewer than
processes. -/
theorem FewLate.refusedFor {rule : Rule} {added : List Time}
    (h : FewLate proc j now (now - rule.windowSeconds) s)
    (hadded : EntriesIn (fun x => x.1 = x.2 ∧ x.1 ∈ added) s) (hpast : ∀ t ∈ added, t ≤ clock)
    (hfull : ¬ ((zview clock s).card : ℤ) < rule.limit) :
    RefusedFor n rule now clock added := by
  obtain ⟨late, hj, hentries, -⟩ := h
  -- What `ZCARD` counted, less fewer than `n` late entries, is in the window.
  let readings := (zview clock s).entries.map Prod.fst
  let recent := readings.filter fun t => now - rule.windowSeconds < t
  let old := readings.filter fun t => ¬ now - rule.windowSeconds < t
  have hnodup : readings.Nodup := (zview clock s).nodup
  have hold : old.length < n := by
    refine length_lt_of_late hj (hnodup.filter _) ?_
    intro t ht
    obtain ⟨hmem, hle⟩ := List.mem_filter.mp ht
    obtain ⟨x, hx, rfl⟩ := List.mem_map.mp hmem
    have heq := (hadded.zview hx).1
    exact hentries.zview hx (heq ▸ not_lt.mp (of_decide_eq_true hle))
  have hsplit : (zview clock s).card = recent.length + old.length := by
    have hlen : readings.length = (zview clock s).card := List.length_map _
    rw [← hlen]
    simpa only [recent, old, decide_not] using
      readings.length_eq_length_filter_add fun t => now - rule.windowSeconds < t
  refine ⟨recent, hnodup.filter _, ?_, ?_⟩
  · intro t ht
    obtain ⟨hmem, hlt⟩ := List.mem_filter.mp ht
    obtain ⟨x, hx, rfl⟩ := List.mem_map.mp hmem
    have hin := (hadded.zview hx).2
    exact ⟨hin, of_decide_eq_true hlt, hpast _ hin⟩
  · omega

end Late

/-! ### The invariant -/

/-- The entry that a step adds for a key, by its reading: the `ZADD` of a call that its `ZCARD`
let in. -/
def addsAt {n : ℕ} (key : String) (t : ClusterTransition n) : Option Time :=
  match t.label with
  | .command i => match t.pre.proc i with
    | .checking rule client _ (.letIn now) =>
        if rateLimitKey rule client = key then some now else none
    | _ => none
  | _ => none

/-- The entries added for a key so far, by their readings, in the order of the `ZADD`s. -/
def addedFor {n : ℕ} (tr : List (ClusterTransition n)) (key : String) : List Time :=
  tr.filterMap (addsAt key)

/-- What is known of a process from where it stands in a `check`: that its reading is not ahead of
the clock, and what the slot holds besides entries of its window. -/
def StretchKnown {n : ℕ} (table : List Rule) (added : String → List Time) (s : Cluster n)
    (j : Fin n) : Stretch → Prop
  | .checking rule client _ p => rule ∈ table ∧ match p with
    | .idle => False
    | .started now | .letIn now => now ≤ s.clock
    | .pruned now => now ≤ s.clock ∧ FewLate s.proc j now (now - rule.windowSeconds)
        (s.redis.slot (redisKey (rateLimitKey rule client)))
    | .added _ => True
    | .turnedAway now =>
        now ≤ s.clock ∧ RefusedFor n rule now s.clock (added (rateLimitKey rule client))
  | _ => True

structure RefusalInv {n : ℕ} (table : List Rule) (added : String → List Time)
    (s : Cluster n) : Prop where
  slots : ∀ key, EntriesIn (fun x => x.1 = x.2 ∧ x.1 ∈ added key) (s.redis.slot (redisKey key))
  added_le : ∀ key, ∀ t ∈ added key, t ≤ s.clock
  known : ∀ j, StretchKnown table added s j (s.proc j)

section Invariant

variable {n : ℕ} {cb : RedisCircuitBreaker} {table : List Rule} {added added' : String → List Time}
  {s s' : Cluster n} {e : ClusterEvent n} {i j : Fin n} {st : Stretch}

theorem RefusedFor.mono {rule : Rule} {now refused later : Time} {l l' : List Time}
    (h : RefusedFor n rule now refused l) (hle : refused ≤ later) (hsub : l ⊆ l') :
    RefusedFor n rule now later l' := by
  obtain ⟨es, hnodup, hes, hlt⟩ := h
  refine ⟨es, hnodup, ?_, hlt⟩
  intro t ht
  obtain ⟨hmem, hrecent, hpast⟩ := hes t ht
  exact ⟨hsub hmem, hrecent, hpast.trans hle⟩

theorem refusalInv_initial (table : List Rule) (t₀ : Time) :
    RefusalInv table (addedFor ([] : List (ClusterTransition n))) (.initial n t₀) :=
  ⟨fun _ => entriesIn_none, fun _ _ ht => (by cases ht), fun _ => trivial⟩

/-- What is known of a process stays known when a step leaves the process alone. -/
theorem StretchKnown.keep (h : StretchKnown table added s j st) (hclock : s.clock ≤ s'.clock)
    (hadded : ∀ key, added key ⊆ added' key)
    (hlate : ∀ rule client up now, st = .checking rule client up (.pruned now) → now ≤ s.clock →
      ∀ key, FewLate s.proc j now (now - rule.windowSeconds) (s.redis.slot (redisKey key)) →
        FewLate s'.proc j now (now - rule.windowSeconds) (s'.redis.slot (redisKey key))) :
    StretchKnown table added' s' j st := by
  cases st with
  | checking rule client up p =>
      obtain ⟨hrule, hp⟩ := h
      refine ⟨hrule, ?_⟩
      cases p with
      | idle => exact hp
      | started now | letIn now => exact le_trans hp hclock
      | pruned now => exact ⟨hp.1.trans hclock, hlate rule client up now rfl hp.1 _ hp.2⟩
      | added now => trivial
      | turnedAway now => exact ⟨hp.1.trans hclock, hp.2.mono hclock (hadded _)⟩
  | _ => trivial

/-- A step that adds no entry keeps the invariant, if it does for the process that it moves. -/
theorem RefusalInv.move (h : RefusalInv table added s) (hclock : s.clock ≤ s'.clock)
    (hslot : ∀ key P, EntriesIn P (s.redis.slot (redisKey key)) →
      EntriesIn P (s'.redis.slot (redisKey key)))
    (hproc : ∀ j, s'.proc j = s.proc j ∨ (StretchKnown table added s' j (s'.proc j) ∧
      ∀ t, (s'.proc j).toAdd = some t → (s.proc j).toAdd = some t ∨ t = s.clock)) :
    RefusalInv table added s' := by
  refine ⟨fun key => hslot key _ (h.slots key), ?_, ?_⟩
  · intro key t ht
    exact (h.added_le key t ht).trans hclock
  · intro j
    rcases hproc j with hsame | ⟨hknown, -⟩
    · rw [hsame]
      refine (h.known j).keep hclock (fun _ => List.Subset.refl _) ?_
      intro rule client up now _ hnow key hlate
      refine hlate.move hnow (hslot key) ?_
      intro k t ht
      rcases hproc k with hk | ⟨-, hk⟩
      · exact Or.inl (hk ▸ ht)
      · exact hk t ht
    · exact hknown

/-- One process moves on, and no entry is added. -/
theorem RefusalInv.moveOn (h : RefusalInv table added s) (hclock : s'.clock = s.clock)
    (hslot : ∀ key P, EntriesIn P (s.redis.slot (redisKey key)) →
      EntriesIn P (s'.redis.slot (redisKey key)))
    (hproc : s'.proc = Function.update s.proc i st) (hst : StretchKnown table added s' i st)
    (htoAdd : ∀ t, st.toAdd = some t → (s.proc i).toAdd = some t ∨ t = s.clock) :
    RefusalInv table added s' := by
  refine h.move hclock.ge hslot ?_
  intro j
  rw [hproc]
  by_cases hji : j = i
  · rw [hji, Function.update_self]
    exact Or.inr ⟨hst, htoAdd⟩
  · exact Or.inl (Function.update_of_ne hji ..)

/-- A process that leaves its `check`, or was in none. -/
theorem RefusalInv.leave (h : RefusalInv table added s) (hclock : s'.clock = s.clock)
    (hslot : ∀ key P, EntriesIn P (s.redis.slot (redisKey key)) →
      EntriesIn P (s'.redis.slot (redisKey key)))
    (hproc : s'.proc = Function.update s.proc i st)
    (hst : ∀ rule client up p, st ≠ .checking rule client up p) : RefusalInv table added s' := by
  have hnone : StretchKnown table added s' i st ∧ st.toAdd = none := by
    cases st with
    | checking rule client up p => exact absurd rfl (hst rule client up p)
    | _ => exact ⟨trivial, rfl⟩
  refine h.moveOn hclock hslot hproc hnone.1 ?_
  intro t ht
  rw [hnone.2] at ht
  cases ht

/-- **A command of a `check` that adds no entry** keeps the invariant: the prune, the `ZCARD`, the
`EXPIRE` and the `ZRANGE`. -/
theorem RefusalInv.check (h : RefusalInv table added s) {rule : Rule} {client up : String}
    {p : CheckPoint} (hst : s.proc i = .checking rule client up p) (hp : ∀ t, p ≠ .letIn t) :
    RefusalInv table added (s.advance cb i) := by
  have hknown := h.known i
  rw [hst] at hknown
  obtain ⟨hrule, hknown⟩ := hknown
  obtain ⟨hclock, hproc, hredis⟩ := @advance_checking n cb s i rule client up p hst
  have hslot : ∀ key P, EntriesIn P (s.redis.slot (redisKey key)) →
      EntriesIn P ((s.advance cb i).redis.slot (redisKey key)) := by
    intro key P hP
    rw [hredis]
    by_cases hkey : key = rateLimitKey rule client
    · subst hkey
      cases p with
      | started now =>
          rw [CheckPoint.command, slot_zremrangebyscore_self]
          exact (hP.zremSlot _).mono fun _ hx => hx.1
      | letIn now => exact absurd rfl (hp now)
      | added now =>
          rw [CheckPoint.command, slot_expire_self]
          exact hP.expire _
      | _ => exact hP
    · rw [CheckPoint.slot_command_of_ne fun heq => hkey (redisKey_inj.mp heq)]
      exact hP
  cases p with
  | idle => exact hknown.elim
  | started now =>
      -- After the prune, no entry is late.
      refine h.moveOn hclock hslot hproc ⟨hrule, hknown, ?_⟩ ?_
      · rw [hredis, CheckPoint.command, slot_zremrangebyscore_self]
        exact fewLate_prune (h.slots _)
      · intro t ht
        rw [hst]
        exact Or.inl ht
  | pruned now =>
      by_cases hlt : (s.redis.zcard s.clock (redisKey (rateLimitKey rule client)) : ℤ) < rule.limit
      · simp only [Stretch.command, CheckPoint.command, if_pos hlt] at hproc
        refine h.moveOn hclock hslot hproc ⟨hrule, hknown.1⟩ ?_
        intro t ht
        rw [hst]
        exact Or.inl ht
      · simp only [Stretch.command, CheckPoint.command, if_neg hlt] at hproc
        have hfull := hknown.2.refusedFor (h.slots _) (h.added_le _) hlt
        refine h.moveOn hclock hslot hproc ⟨hrule, hknown.1, hfull⟩ ?_
        intro t ht
        cases ht
  | letIn now => exact absurd rfl (hp now)
  | added now => exact h.leave hclock hslot hproc fun _ _ _ _ heq => by cases heq
  | turnedAway now => exact h.leave hclock hslot hproc fun _ _ _ _ heq => by cases heq

/-- **The `ZADD`** keeps the invariant. It is the one command that the others may find late. -/
theorem RefusalInv.zadd (h : RefusalInv table added s) (hw : ∀ rule ∈ table, 1 ≤ rule.windowSeconds)
    {rule : Rule} {client up : String} {now : Time}
    (hst : s.proc i = .checking rule client up (.letIn now))
    (hsub : ∀ key, added key ⊆ added' key) (hnew : now ∈ added' (rateLimitKey rule client))
    (hadded' : ∀ key, ∀ t ∈ added' key, t ∈ added key ∨ t = now) :
    RefusalInv table added' (s.advance cb i) := by
  have hknown := h.known i
  rw [hst] at hknown
  obtain ⟨hrule, hnow⟩ := hknown
  obtain ⟨hclock, hproc, hredis⟩ := @advance_checking n cb s i rule client up _ hst
  have hother : ∀ key, key ≠ rateLimitKey rule client →
      (s.advance cb i).redis.slot (redisKey key) = s.redis.slot (redisKey key) := by
    intro key hkey
    rw [hredis]
    exact CheckPoint.slot_command_of_ne (fun heq => hkey (redisKey_inj.mp heq)) _
  have hself : (s.advance cb i).redis.slot (redisKey (rateLimitKey rule client)) =
      zaddSlot s.clock now now (s.redis.slot (redisKey (rateLimitKey rule client))) := by
    rw [hredis]
    exact slot_zadd_self ..
  refine ⟨?_, ?_, ?_⟩
  · intro key
    have hkept := (h.slots key).mono fun x hx => And.intro hx.1 (hsub key hx.2)
    by_cases hkey : key = rateLimitKey rule client
    · subst hkey
      rw [hself]
      exact hkept.zaddSlot ⟨rfl, hnew⟩
    · rw [hother key hkey]
      exact hkept
  · intro key t ht
    rcases hadded' key t ht with hold | rfl
    · exact h.added_le key t hold
    · exact hnow
  · intro j
    rw [hproc]
    by_cases hji : j = i
    · rw [hji, Function.update_self]
      exact ⟨hrule, trivial⟩
    · rw [Function.update_of_ne hji]
      refine (h.known j).keep hclock.ge hsub ?_
      intro rule' client' up' now' hj hnow' key hlate
      have hmoved : ∀ k, k ≠ i → (s.advance cb i).proc k = s.proc k := by
        intro k hk
        rw [hproc, Function.update_of_ne hk]
      have hdone : ((s.advance cb i).proc i).toAdd = none := by
        rw [hproc, Function.update_self]
        rfl
      have hsome : (s.proc i).toAdd = some now := by
        rw [hst]
        rfl
      by_cases hkey : key = rateLimitKey rule client
      · -- Another process is between its prune and its `ZCARD` on this key.
        have hrule' : rule' ∈ table := by
          have hj' := h.known j
          rw [hj] at hj'
          exact hj'.1
        have hpos : (1 : Time) ≤ rule'.windowSeconds := by exact_mod_cast hw rule' hrule'
        subst hkey
        rw [hself]
        exact hlate.zadd (by linarith) hji hsome hmoved hdone
      · rw [hother key hkey]
        refine hlate.move hnow' (fun _ => id) ?_
        intro k t ht
        by_cases hk : k = i
        · rw [hk, hdone] at ht
          cases ht
        · exact Or.inl (hmoved k hk ▸ ht)

/-- A command of the breaker touches no limiter key. -/
theorem RefusalInv.breaker (h : RefusalInv table added s) {u : String} {p : BreakerPoint}
    {mk : BreakerPoint → Stretch} (hmk : ∀ q rule client up p, mk q ≠ .checking rule client up p)
    (hi : s.proc i = mk p)
    (hcmd : (mk p).command cb s.clock s.redis =
      (mk (p.command cb u s.clock s.redis).1, (p.command cb u s.clock s.redis).2)) :
    RefusalInv table added (s.advance cb i) := by
  have hproc : (s.advance cb i).proc =
      Function.update s.proc i (mk (p.command cb u s.clock s.redis).1) := by
    show Function.update s.proc i ((s.proc i).command cb s.clock s.redis).1 = _
    rw [hi, hcmd]
  refine h.leave rfl ?_ hproc (hmk _)
  intro key P hP
  show EntriesIn P (((s.proc i).command cb s.clock s.redis).2.slot (redisKey key))
  rw [hi, hcmd, BreakerPoint.slot_command_of_notMem (redisKey_notMem key)]
  exact hP

theorem addedFor_concat_of_none {tr : List (ClusterTransition n)} {t : ClusterTransition n}
    (hnone : ∀ key, addsAt key t = none) : addedFor (tr ++ [t]) = addedFor tr := by
  funext key
  rw [addedFor, List.filterMap_append, List.filterMap_cons_none (hnone key), List.filterMap_nil,
    List.append_nil]
  rfl

/-- A step that is no `ZADD` of the key adds no entry to it. -/
theorem addsAt_of_ne {t : ClusterTransition n}
    (hne : ∀ i, t.label = .command i → ∀ rule client up now,
      t.pre.proc i ≠ .checking rule client up (.letIn now)) (key : String) :
    addsAt key t = none := by
  rw [addsAt]
  split
  · next i hlabel =>
    split
    · next rule client up now hst => exact absurd hst (hne i hlabel rule client up now)
    · rfl
  · rfl

/-- **One step** keeps the invariant, with one case for each kind of step of the cluster. -/
theorem RefusalInv.step {tr : List (ClusterTransition n)} (h : RefusalInv table (addedFor tr) s)
    (hw : ∀ rule ∈ table, 1 ≤ rule.windowSeconds) (hstep : ClusterStep cb table s e s') :
    RefusalInv table (addedFor (tr ++ [⟨s, e, s'⟩])) s' := by
  have hquiet : (∀ i, e ≠ .command i) →
      addedFor (tr ++ [⟨s, e, s'⟩]) = addedFor tr := fun hne =>
    addedFor_concat_of_none (addsAt_of_ne fun i hlabel => absurd hlabel (hne i))
  cases hstep with
  | tick now hle =>
      rw [hquiet fun i hi => by cases hi]
      exact h.move hle (fun _ _ => id) fun j => Or.inl rfl
  | arrive i rule client up hi hrule =>
      rw [hquiet fun i hi => by cases hi]
      refine @RefusalInv.moveOn _ _ _ _ _ i _ h rfl (fun _ _ => id) rfl ⟨hrule, le_refl s.clock⟩ ?_
      intro t ht
      exact Or.inr (Option.some.inj ht).symm
  | arriveFree i client up hi =>
      rw [hquiet fun i hi => by cases hi]
      exact h.leave rfl (fun _ _ => id) rfl fun _ _ _ _ heq => by cases heq
  | command i hi =>
      by_cases hadds : ∃ rule client up now, s.proc i = .checking rule client up (.letIn now)
      · -- The `ZADD` of a check: the one step that adds to the record.
        obtain ⟨rule, client, up, now, hst⟩ := hadds
        have hnew : ∀ key, addedFor (tr ++ [⟨s, .command i, s.advance cb i⟩]) key =
            addedFor tr key ++ if rateLimitKey rule client = key then [now] else [] := by
          intro key
          rw [addedFor, List.filterMap_append]
          by_cases hkey : rateLimitKey rule client = key <;> simp [addedFor, addsAt, hst, hkey]
        refine h.zadd hw hst ?_ ?_ ?_
        · intro key
          rw [hnew]
          exact List.subset_append_left _ _
        · rw [hnew, if_pos rfl]
          simp
        · intro key t ht
          rw [hnew] at ht
          rcases List.mem_append.mp ht with hold | hlast
          · exact Or.inl hold
          · split at hlast
            · exact Or.inr (List.mem_singleton.mp hlast)
            · cases hlast
      · have hne : ∀ rule client up now, s.proc i ≠ .checking rule client up (.letIn now) :=
          fun rule client up now hst => hadds ⟨rule, client, up, now, hst⟩
        have hnone : addedFor (tr ++ [⟨s, .command i, s.advance cb i⟩]) = addedFor tr := by
          refine addedFor_concat_of_none (addsAt_of_ne ?_)
          intro j hj
          cases hj
          exact hne
        rw [hnone]
        cases hst : s.proc i with
        | idle =>
            rw [hst] at hi
            cases hi
        | checking rule client up p =>
            refine h.check hst ?_
            rintro t rfl
            exact hne _ _ _ _ hst
        | asking u p => exact h.breaker (fun _ _ _ _ _ heq => by cases heq) hst rfl
        | succeeding u p => exact h.breaker (fun _ _ _ _ _ heq => by cases heq) hst rfl
        | failing u p => exact h.breaker (fun _ _ _ _ _ heq => by cases heq) hst rfl
  | forward i up hi =>
      rw [hquiet fun i hi => by cases hi]
      exact h.leave rfl (fun _ _ => id) rfl fun _ _ _ _ heq => by cases heq
  | answer i up hi =>
      rw [hquiet fun i hi => by cases hi]
      exact h.leave rfl (fun _ _ => id) rfl fun _ _ _ _ heq => by cases heq
  | complete i up ok hi hin =>
      rw [hquiet fun i hi => by cases hi]
      refine h.leave rfl (fun _ _ => id) rfl ?_
      intro rule client up p heq
      split at heq <;> cases heq
  | raise i hi =>
      rw [hquiet fun i hi => by cases hi]
      exact h.leave rfl (fun _ _ => id) rfl (Stretch.raised_ne_checking _)
  | crash i =>
      rw [hquiet fun i hi => by cases hi]
      exact h.leave rfl (fun _ _ => id) rfl fun _ _ _ _ heq => by cases heq
  | others r hkeys =>
      rw [hquiet fun i hi => by cases hi]
      refine h.move le_rfl ?_ fun j => Or.inl rfl
      intro key P hP
      have hslot : s.redis.slot (redisKey key) = r.slot (redisKey key) := hkeys (Or.inl ⟨key, rfl⟩)
      show EntriesIn P (r.slot (redisKey key))
      rwa [← hslot]

/-- The invariant holds after every run, by induction on its steps. -/
theorem refusalInv_run (hw : ∀ rule ∈ table, 1 ≤ rule.windowSeconds) {t₀ : Time}
    {tr : List (ClusterTransition n)} (h : Run (ClusterStep cb table) (.initial n t₀) tr s) :
    RefusalInv table (addedFor tr) s := by
  refine h.invariant (I := fun tr s => RefusalInv table (addedFor tr) s)
    (refusalInv_initial table t₀) ?_
  intro tr s e s' _ hinv hstep
  exact hinv.step hw hstep

end Invariant

/-! ### Refusals -/

/-- The `ZRANGE` of a call of `check` that is to return `allowed=False`, which is its last
command. -/
def TurnsAway {n : ℕ} (rule : Rule) (client : String) (now : Time)
    (t : ClusterTransition n) : Prop :=
  ∃ i up, t.label = .command i ∧ t.pre.proc i = .checking rule client up (.turnedAway now)

/-- The `reset_in` that it returns, computed from what the `ZRANGE` finds. -/
def resetInAt (r : Redis) (clock : Time) (key : String) (w : ℤ) (now : Time) : ℤ :=
  let resetIn := match r.zrangeFirst clock (redisKey key) with
    | some oldest => pyInt (w - (now - oldest.2))
    | none => w
  max resetIn 0

/-- A `check` that nothing interrupts returns the same `reset_in`, so it is that of the source. -/
theorem check_resetIn_of_not_lt {r : Redis} {now : Time} {key : String} {limit w : ℤ}
    (h : ¬ ((r.zremrangebyscore now (redisKey key) (now - w)).zcard now (redisKey key) : ℤ) <
      limit) :
    (check r now key limit w).1.resetIn =
      resetInAt (r.zremrangebyscore now (redisKey key) (now - w)) now key w now := by
  simp only [check, if_neg h]
  rfl

theorem pyInt_le_of_le {x y : Time} (h : x ≤ y) (hy : 0 ≤ y) : (pyInt x : Time) ≤ y := by
  rw [pyInt]
  split
  · exact (Int.floor_le x).trans h
  · next hneg =>
    have hceil : ⌈x⌉ ≤ 0 := Int.ceil_le.mpr (by exact_mod_cast (not_le.mp hneg).le)
    have hcast : ((⌈x⌉ : ℤ) : Time) ≤ 0 := by exact_mod_cast hceil
    exact hcast.trans hy

/-- **Every refusal is justified, but for the late entries of the other processes.** Whatever the
`n` processes do, in whichever order, and whichever requests and processes break off: for a
request that `RateLimitStep` refuses, at least `limit - (n - 1)` calls were let in under its key and
added their entries, with distinct readings that are later than a window before its own and not
later than its refusal. This is so also if rules with other limits and windows share the key. The
`Retry-After` of the refusal is not negative, and exceeds the window by no more than the refusal
took. -/
theorem cluster_refusal_justified {n : ℕ} {cb : RedisCircuitBreaker} {table : List Rule}
    (hw : ∀ rule ∈ table, 1 ≤ rule.windowSeconds) {t₀ : Time} {s : Cluster n}
    {tr tr' : List (ClusterTransition n)} {t : ClusterTransition n}
    (h : Run (ClusterStep cb table) (.initial n t₀) (tr ++ t :: tr') s) {rule : Rule}
    {client : String} {now : Time} (hturned : TurnsAway rule client now t) :
    RefusedFor n rule now t.pre.clock (addedFor tr (rateLimitKey rule client)) ∧
    let resetIn := resetInAt t.pre.redis t.pre.clock (rateLimitKey rule client)
      rule.windowSeconds now
    0 ≤ resetIn ∧ (resetIn : Time) ≤ rule.windowSeconds + (t.pre.clock - now) := by
  obtain ⟨hbefore, -, -⟩ := h.split_at
  have hinv := refusalInv_run hw hbefore
  obtain ⟨i, up, -, hst⟩ := hturned
  have hknown := hinv.known i
  rw [hst] at hknown
  obtain ⟨hrule, hnow, hrefused⟩ := hknown
  refine ⟨hrefused, le_max_right _ _, ?_⟩
  have hpos : (1 : Time) ≤ rule.windowSeconds := by exact_mod_cast hw rule hrule
  have hbound : 0 ≤ rule.windowSeconds + (t.pre.clock - now) := by linarith
  rw [resetInAt, Int.cast_max, Int.cast_zero]
  refine max_le ?_ hbound
  split
  · next oldest hfirst =>
    have hmem := SortedSet.mem_of_first hfirst
    obtain ⟨hscore, hadded⟩ := (hinv.slots _).zview hmem
    have hle := hinv.added_le _ _ hadded
    exact pyInt_le_of_le (by linarith) hbound
  · linarith

/-- Three requests a minute, from anybody. -/
def threePerMinute : Rule := { perMinute with limit := 3 }

/-- Two calls of one process are let in at 50 and at 70. The other process is late: it adds its
entry of the reading 0 after the first has pruned at 100, and the first refuses its request. -/
theorem late_entry_refuses : ∃ tr t s,
    Run (ClusterStep ⟨1, 30⟩ [threePerMinute]) (.initial 2 0) (tr ++ [t]) s ∧
      TurnsAway threePerMinute "10.0.0.2" 100 t ∧ t.pre.clock = 100 ∧
      addedFor tr "global" = [50, 70, 0] := by
  have hmem : threePerMinute ∈ [threePerMinute] := List.mem_singleton_self _
  refine ⟨_, _, _, .snoc (.snoc (.snoc (.snoc (.snoc (.snoc (.snoc (.snoc (.snoc (.snoc (.snoc
    (.snoc (.snoc (.snoc (.snoc (.snoc (.snoc (.snoc (.snoc (.snoc (.snoc (.snoc (.snoc (.snoc
    (.snoc .nil
    (.arrive 0 threePerMinute "10.0.0.1" "svc" ?_ hmem)) (.command 0 ?_)) (.command 0 ?_))
    (.tick 50 ?_)) (.arrive 1 threePerMinute "10.0.0.2" "svc" ?_ hmem)) (.command 1 ?_))
    (.command 1 ?_)) (.command 1 ?_)) (.command 1 ?_)) (.command 1 ?_)) (.forward 1 "svc" ?_))
    (.tick 70 ?_)) (.arrive 1 threePerMinute "10.0.0.2" "svc" ?_ hmem)) (.command 1 ?_))
    (.command 1 ?_)) (.command 1 ?_)) (.command 1 ?_)) (.command 1 ?_)) (.forward 1 "svc" ?_))
    (.tick 100 ?_)) (.arrive 1 threePerMinute "10.0.0.2" "svc" ?_ hmem)) (.command 1 ?_))
    (.command 0 ?_)) (.command 1 ?_)) (.command 1 ?_), ⟨1, "svc", rfl, ?_⟩, ?_, ?_⟩
  all_goals decide +kernel

/-- With a limit of 3 and two processes, the two calls of 50 and 70 are what the theorem promises
of the window before 100. The third entry that was counted is late. -/
theorem cluster_refusal_justified_two : ∃ (tr : List (ClusterTransition 2)),
    addedFor tr "global" = [50, 70, 0] ∧
      RefusedFor 2 threePerMinute 100 100 (addedFor tr "global") := by
  have hw : ∀ rule ∈ [threePerMinute], 1 ≤ rule.windowSeconds := by
    intro rule hrule
    rw [List.mem_singleton.mp hrule]
    decide
  obtain ⟨tr, t, s, hrun, hturned, hclock, hadded⟩ := late_entry_refuses
  have hjustified := (cluster_refusal_justified hw hrun hturned).1
  rw [hclock] at hjustified
  exact ⟨tr, hadded, hjustified⟩

end RateGuardian
