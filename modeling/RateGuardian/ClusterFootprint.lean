import RateGuardian.ClusterSound

/-!
# RateGuardian.ClusterFootprint

**What a limiter key costs.** However the commands of `n` processes interleave, and whichever calls
break off, a limiter key never holds more than `limit + n - 1` entries, `limit` being the largest
that is checked under it. A call adds its entry on a count below the limit, and each of the other
processes may add one on the same count.

And the key does not stay. Unless a call breaks off just before its `EXPIRE`, the key is gone a
window and a second after the last `check`. Both are invariants of all runs (`cluster_footprint`),
and neither needs the readings to be distinct.

For the first, what is bounded is not the number of entries but that number together with the
processes that are about to add one (`Footprint`). A call that is let in moves from the one to the
other, and it is let in only if the entries alone are below the limit; so the sum stays below the
limit plus the `n - 1` others. For the second, a key without a deadline is the work of a call that
has added its entry and not yet sent its `EXPIRE` (`Expiring`).
-/

namespace RateGuardian

open Lib Redis SlidingWindowRateLimiter

/-! ### The entries a slot shows -/

section Slots

variable {now now' max member score ttl : Time} {s : Slot Time Value}

/-- A slot shows no more as time passes. -/
theorem card_zview_anti (hle : now ≤ now') : (zview now' s).card ≤ (zview now s).card := by
  cases hlive : Slot.live now' s with
  | none =>
      rw [zview_of_live_none hlive]
      exact Nat.zero_le _
  | some e => rw [zview, zview, Slot.read, Slot.read, hlive, Slot.live_anti hle hlive]

theorem card_zview_zremSlot (h : IsZset s) :
    (zview now (zremSlot now max s)).card ≤ (zview now s).card := by
  rw [h.zview_zremSlot le_rfl]
  exact List.length_filter_le _ _

theorem card_zview_zaddSlot (h : IsZset s) :
    (zview now (zaddSlot now member score s)).card ≤ (zview now s).card + 1 := by
  rw [h.zview_zaddSlot, SortedSet.card_add]
  exact Nat.succ_le_succ List.countP_le_length

/-- An `EXPIRE` shows no more either, also with a deadline that is past at once. -/
theorem card_zview_expire : (zview now (Slot.expire now ttl s)).card ≤ (zview now s).card := by
  rw [zview, zview, Slot.expire, Slot.read, Slot.read]
  cases Slot.live now s with
  | none => exact le_rfl
  | some e =>
      rw [Option.map_some, Slot.live_some]
      split
      · exact le_rfl
      · exact Nat.zero_le _

/-- The key, if it is there, is gone from `d` on. -/
def ExpiresBy (d : Time) (s : Slot Time Value) : Prop :=
  ∀ e, s = some e → ∃ deadline, e.expireAt = some deadline ∧ deadline ≤ d

theorem ExpiresBy.mono {d d' : Time} (h : ExpiresBy d s) (hle : d ≤ d') : ExpiresBy d' s := by
  intro e he
  obtain ⟨deadline, hdeadline, hd⟩ := h e he
  exact ⟨deadline, hdeadline, hd.trans hle⟩

/-- A prune creates no key, and leaves the deadline of one that is there. -/
theorem ExpiresBy.zremSlot {d : Time} (h : ExpiresBy d s) : ExpiresBy d (zremSlot now max s) := by
  intro e he
  cases hlive : Slot.live now s with
  | none =>
      rw [zremSlot_of_live_none hlive] at he
      cases he
  | some e₀ =>
      rw [Redis.zremSlot, Slot.update_eq_of_live_some hlive] at he
      obtain ⟨v, -, rfl⟩ := Option.map_eq_some_iff.mp he
      exact h e₀ (Slot.live_eq_some.mp hlive).1

theorem expiresBy_expire {d : Time} (h : now + ttl ≤ d) : ExpiresBy d (Slot.expire now ttl s) := by
  intro e he
  obtain ⟨e₀, -, rfl⟩ := Option.map_eq_some_iff.mp he
  exact ⟨now + ttl, rfl, h⟩

theorem ExpiresBy.live_eq_none {d : Time} (h : ExpiresBy d s) (hle : d ≤ now) :
    Slot.live now s = none := by
  rcases hlive : Slot.live now s with _ | e
  · rfl
  · obtain ⟨rfl, halive⟩ := Slot.live_eq_some.mp hlive
    obtain ⟨deadline, hdeadline, hd⟩ := h e rfl
    rw [hdeadline, Slot.alive_some] at halive
    exact absurd (hd.trans hle) (not_le.mpr halive)

end Slots

/-! ### The invariant -/

/-- The call is about to add its entry: its `ZCARD` has let it in. -/
def CheckPoint.isLetIn : CheckPoint → Bool
  | .letIn _ => true
  | _ => false

/-- The processes about to add an entry to the key. -/
def adding {n : ℕ} (key : String) (s : Cluster n) : Finset (Fin n) :=
  Finset.univ.filter fun i => ((s.proc i).checkAt key).isLetIn = true

/-- The entries of the key and those about to be added are no more than the bound. -/
structure Footprint {n : ℕ} (table : List Rule) (key : String) (limit : ℤ) (s : Cluster n) :
    Prop where
  ofTable : OfTable table s.proc
  isZset : IsZset (s.redis.slot (redisKey key))
  card : (s.redis.zcard s.clock (redisKey key) + (adding key s).card : ℤ) ≤ limit + n - 1

/-- A call breaks off between its `ZADD` and its `EXPIRE`, so that the key may stay without a
deadline. -/
def LosesExpire {n : ℕ} (key : String) (t : ClusterTransition n) : Prop :=
  ∃ i now, t.label.BreaksOff i ∧ (t.pre.proc i).checkAt key = .added now

/-- The key has a deadline that is near enough, or is about to get one by a call that will send its
`EXPIRE`. -/
def Expiring {n : ℕ} (key : String) (w : ℤ) (s : Cluster n) : Prop :=
  ExpiresBy (s.clock + (w + 1)) (s.redis.slot (redisKey key)) ∨
    ∃ i now, (s.proc i).checkAt key = .added now

section Invariant

variable {n : ℕ} {cb : RedisCircuitBreaker} {table : List Rule} {key : String} {limit w : ℤ}
  {s s' : Cluster n} {e : ClusterEvent n} {i j : Fin n}

theorem mem_adding : j ∈ adding key s ↔ ∃ now, (s.proc j).checkAt key = .letIn now := by
  rw [adding, Finset.mem_filter]
  constructor
  · rintro ⟨-, hj⟩
    cases hp : (s.proc j).checkAt key with
    | letIn now => exact ⟨now, rfl⟩
    | _ =>
        rw [hp] at hj
        cases hj
  · rintro ⟨now, hj⟩
    exact ⟨Finset.mem_univ j, by rw [hj]; rfl⟩

theorem card_adding_le : (adding key s).card ≤ n :=
  (Finset.card_le_univ _).trans_eq (Fintype.card_fin n)

/-- Nobody is let in, so those who are about to add an entry were so before. -/
theorem adding_subset (h : ∀ j, (s'.proc j).checkAt key = (s.proc j).checkAt key ∨
    ((s'.proc j).checkAt key).isLetIn = false) : adding key s' ⊆ adding key s := by
  intro j hj
  rw [adding, Finset.mem_filter] at hj ⊢
  rcases h j with hsame | hout
  · exact ⟨hj.1, hsame ▸ hj.2⟩
  · exact absurd (hj.2.symm.trans hout) (by decide)

theorem footprint_initial (hlimit : 1 ≤ limit) (table : List Rule) (key : String) (t₀ : Time) :
    Footprint table key limit (.initial n t₀) := by
  have hnone : adding key (.initial n t₀ : Cluster n) = ∅ := by
    refine Finset.filter_eq_empty_iff.mpr ?_
    intro i _ hi
    cases hi
  refine ⟨fun _ _ _ _ _ heq => (by cases heq), isZset_none, ?_⟩
  rw [hnone, Finset.card_empty]
  show ((0 : ℕ) + (0 : ℕ) : ℤ) ≤ _
  omega

/-- The other processes are where they were after a command of `i`. -/
theorem checkAt_advance_of_ne {st : Stretch}
    (hproc : (s.advance cb i).proc = Function.update s.proc i st) (hji : j ≠ i) :
    ((s.advance cb i).proc j).checkAt key = (s.proc j).checkAt key := by
  rw [hproc, Function.update_of_ne hji]

/-- A command that lets nobody in makes nobody about to add an entry. -/
theorem adding_advance_subset {st : Stretch}
    (hproc : (s.advance cb i).proc = Function.update s.proc i st)
    (hst : (st.checkAt key).isLetIn = false) :
    adding key (s.advance cb i) ⊆ (adding key s).erase i := by
  intro j hj
  have hji : j ≠ i := by
    rintro rfl
    rw [adding, Finset.mem_filter, hproc, Function.update_self, hst] at hj
    exact absurd hj.2 (by decide)
  rw [Finset.mem_erase]
  rw [adding, Finset.mem_filter, checkAt_advance_of_ne hproc hji] at hj
  exact ⟨hji, Finset.mem_filter.mpr hj⟩

/-- **A command of a `check` of the key** keeps the bound: the `ZCARD` moves a call to those that
are about to add only below the limit, and the `ZADD` moves it to the entries. -/
theorem Footprint.check (h : Footprint table key limit s) {rule : Rule} {client up : String}
    {p : CheckPoint} (hst : s.proc i = .checking rule client up p)
    (hkey : rateLimitKey rule client = key) (hlimit : rule.limit ≤ limit)
    (htable : OfTable table (s.advance cb i).proc) :
    Footprint table key limit (s.advance cb i) := by
  obtain ⟨-, hne⟩ := h.ofTable i _ _ _ _ hst
  obtain ⟨-, hproc, hredis⟩ := @advance_checking n cb s i rule client up p hst
  rw [hkey] at hredis
  have hcard := h.card
  -- The call goes on, and the key has no more entries than before.
  have hkeep : ∀ {slot}, (s.advance cb i).redis.slot (redisKey key) = slot → IsZset slot →
      (zview s.clock slot).card ≤ s.redis.zcard s.clock (redisKey key) →
      (((Stretch.checking rule client up p).command cb s.clock s.redis).1.checkAt key).isLetIn =
        false → Footprint table key limit (s.advance cb i) := by
    rintro slot hslot hzset hle hout
    have hsub := Finset.card_le_card
      ((adding_advance_subset hproc hout).trans (Finset.erase_subset i _))
    refine ⟨htable, hslot ▸ hzset, ?_⟩
    show ((zview s.clock ((s.advance cb i).redis.slot _)).card + _ : ℤ) ≤ _
    rw [hslot]
    omega
  have hat : ∀ q, Stretch.checkAt key (.checking rule client up q) = q := fun q => if_pos hkey
  cases p with
  | idle => exact absurd rfl hne
  | started now =>
      refine hkeep (by rw [hredis, CheckPoint.command, slot_zremrangebyscore_self])
        (h.isZset.zremSlot _ _) (card_zview_zremSlot h.isZset) ?_
      exact congrArg CheckPoint.isLetIn (hat _)
  | pruned now =>
      by_cases hlt : (s.redis.zcard s.clock (redisKey (rateLimitKey rule client)) : ℤ) < rule.limit
      · -- The call is let in, on a count below the limit.
        refine ⟨htable, by rw [hredis]; exact h.isZset, ?_⟩
        rw [hkey] at hlt
        have hall := @card_adding_le n key (s.advance cb i)
        show ((zview s.clock ((s.advance cb i).redis.slot _)).card + _ : ℤ) ≤ _
        rw [hredis]
        show (s.redis.zcard s.clock (redisKey key) + _ : ℤ) ≤ _
        omega
      · refine hkeep (by rw [hredis, CheckPoint.command]) h.isZset le_rfl ?_
        simp only [Stretch.command, CheckPoint.command, if_neg hlt, hat]
        rfl
  | letIn now =>
      -- One entry more, and one process less that is about to add one.
      have hmem : i ∈ adding key s := mem_adding.mpr ⟨now, by rw [hst, hat]⟩
      have hout : (((Stretch.checking rule client up (.letIn now)).command cb s.clock
          s.redis).1.checkAt key).isLetIn = false := congrArg CheckPoint.isLetIn (hat _)
      have hless := Finset.card_le_card (adding_advance_subset hproc hout)
      rw [Finset.card_erase_of_mem hmem] at hless
      have hpos := Finset.card_pos.mpr ⟨i, hmem⟩
      have hslot : (s.advance cb i).redis.slot (redisKey key) =
          zaddSlot s.clock now now (s.redis.slot (redisKey key)) := by
        rw [hredis]
        exact slot_zadd_self ..
      refine ⟨htable, hslot ▸ h.isZset.zaddSlot _ _ _, ?_⟩
      have hmore := @card_zview_zaddSlot s.clock now now _ h.isZset
      show ((zview s.clock ((s.advance cb i).redis.slot _)).card + _ : ℤ) ≤ _
      rw [hslot]
      rw [zcard] at hcard
      omega
  | added now =>
      refine hkeep (by rw [hredis, CheckPoint.command, slot_expire_self]) (h.isZset.expire _ _)
        card_zview_expire rfl
  | turnedAway now => exact hkeep (by rw [hredis, CheckPoint.command]) h.isZset le_rfl rfl

/-- The step lemma of the bound. Whatever is no command of a `check` of the key touches neither its
entries nor those who are about to add one. -/
theorem Footprint.step (h : Footprint table key limit s)
    (hlimit : ∀ rule ∈ table, ∀ client, rateLimitKey rule client = key → rule.limit ≤ limit)
    (hstep : ClusterStep cb table s e s') : Footprint table key limit s' := by
  have htable := h.ofTable.step hstep
  rcases hstep.atKey key with hquiet | ⟨i, rule, client, up, p, -, hst, hkey, rfl⟩
  · have hsub := Finset.card_le_card (@adding_subset n key s s' fun j => by
      rcases hquiet.point j with hsame | ⟨hidle, -⟩ | ⟨-, hstarted⟩
      · exact Or.inl hsame
      · exact Or.inr (congrArg CheckPoint.isLetIn hidle)
      · exact Or.inr (congrArg CheckPoint.isLetIn hstarted))
    refine ⟨htable, hquiet.slot ▸ h.isZset, ?_⟩
    have hcard := h.card
    have hanti := @card_zview_anti _ _ (s.redis.slot (redisKey key)) hquiet.clock
    rw [zcard] at hcard
    rw [zcard, hquiet.slot]
    omega
  · exact h.check hst hkey (hlimit rule (h.ofTable i _ _ _ _ hst).1 client hkey) htable

/-- The step lemma of the deadline, for steps in which no call loses its `EXPIRE`. -/
theorem Expiring.step (h : Expiring key w s) (htable : OfTable table s.proc)
    (hw : ∀ rule ∈ table, ∀ client, rateLimitKey rule client = key → rule.windowSeconds ≤ w)
    (hkeeps : ¬ LosesExpire key ⟨s, e, s'⟩) (hstep : ClusterStep cb table s e s') :
    Expiring key w s' := by
  rcases hstep.atKey key with hquiet | ⟨i, rule, client, up, p, -, hst, hkey, rfl⟩
  · rcases h with hexpires | ⟨i, now, hi⟩
    · exact Or.inl (hquiet.slot ▸ hexpires.mono (add_le_add_left hquiet.clock _))
    · refine Or.inr ⟨i, now, ?_⟩
      rcases hquiet.point i with hsame | ⟨-, hbroken⟩ | ⟨hidle, -⟩
      · rw [hsame, hi]
      · exact absurd ⟨i, now, hbroken, hi⟩ hkeeps
      · cases hi.symm.trans hidle
  · obtain ⟨hclock, hproc, hredis⟩ := @advance_checking n cb s i rule client up p hst
    have hat : (s.proc i).checkAt key = p := by
      rw [hst]
      exact if_pos hkey
    rw [hkey] at hredis
    have hmove : (∀ now, p ≠ .added now) →
        (∀ d, ExpiresBy d (s.redis.slot (redisKey key)) →
          ExpiresBy d ((s.advance cb i).redis.slot (redisKey key))) →
        Expiring key w (s.advance cb i) := by
      intro hp hslot
      rcases h with hexpires | ⟨j, now, hj⟩
      · exact Or.inl (hslot _ hexpires)
      · have hji : j ≠ i := by
          rintro rfl
          exact hp now (hat.symm.trans hj)
        exact Or.inr ⟨j, now, (checkAt_advance_of_ne hproc hji).trans hj⟩
    cases p with
    | idle => exact absurd rfl (htable i _ _ _ _ hst).2
    | started now =>
        refine hmove (fun _ heq => by cases heq) ?_
        intro d hd
        rw [hredis, CheckPoint.command, slot_zremrangebyscore_self]
        exact hd.zremSlot
    | pruned now | turnedAway now =>
        refine hmove (fun _ heq => by cases heq) ?_
        intro d hd
        rw [hredis]
        exact hd
    | letIn now =>
        -- A new key has no deadline yet, but its process is about to set one.
        refine Or.inr ⟨i, now, ?_⟩
        rw [hproc, Function.update_self]
        exact if_pos hkey
    | added now =>
        have hle := hw rule (htable i _ _ _ _ hst).1 client hkey
        refine Or.inl ?_
        rw [hredis, CheckPoint.command, slot_expire_self, hclock]
        refine expiresBy_expire (add_le_add_right ?_ s.clock)
        exact_mod_cast Int.add_le_add_right hle 1

end Invariant

/-- **What a limiter key costs.** Let the rules that use a key check no more than `limit` and no
longer than `w` under it. Then in every interleaving of the commands of `n` processes, whichever
requests and processes break off, the key never shows more than `limit + n - 1` entries. And unless
a call breaks off between its `ZADD` and its `EXPIRE`, a key that no process is about to give its
deadline is gone `w + 1` seconds later. -/
theorem cluster_footprint {n : ℕ} {cb : RedisCircuitBreaker} {table : List Rule} {key : String}
    {limit w : ℤ} (hlimit : 1 ≤ limit)
    (hrules : ∀ rule ∈ table, ∀ client, rateLimitKey rule client = key →
      rule.limit ≤ limit ∧ rule.windowSeconds ≤ w)
    {t₀ : Time} {s : Cluster n} {tr : List (ClusterTransition n)}
    (h : Run (ClusterStep cb table) (.initial n t₀) tr s) :
    (s.redis.zcard s.clock (redisKey key) : ℤ) ≤ limit + n - 1 ∧
    ((∀ t ∈ tr, ¬ LosesExpire key t) → (∀ i now, (s.proc i).checkAt key ≠ .added now) →
      ∀ now, s.clock + (w + 1) ≤ now → Slot.live now (s.redis.slot (redisKey key)) = none) := by
  have hinv : Footprint table key limit s ∧
      ((∀ t ∈ tr, ¬ LosesExpire key t) → Expiring key w s) := by
    refine h.invariant (I := fun tr s => Footprint table key limit s ∧
      ((∀ t ∈ tr, ¬ LosesExpire key t) → Expiring key w s)) ?_ ?_
    · exact ⟨footprint_initial hlimit table key t₀, fun _ => Or.inl fun e he => by cases he⟩
    · rintro tr s e s' - ⟨hfoot, hexpiring⟩ hstep
      have hlimits := fun rule hrule client hkey => (hrules rule hrule client hkey).1
      refine ⟨hfoot.step hlimits hstep, ?_⟩
      intro hkeeps
      obtain ⟨hbefore, hlast⟩ := List.forall_mem_append.mp hkeeps
      exact (hexpiring hbefore).step hfoot.ofTable
        (fun rule hrule client hkey => (hrules rule hrule client hkey).2)
        (hlast _ (List.mem_singleton_self _)) hstep
  obtain ⟨hfoot, hexpiring⟩ := hinv
  constructor
  · have hcard := hfoot.card
    omega
  · intro hkeeps hquiet now hnow
    rcases hexpiring hkeeps with hexpires | ⟨i, added, hi⟩
    · exact hexpires.live_eq_none hnow
    · exact absurd hi (hquiet i added)

/-- Two processes let a request each pass at once, and both entries are there: the bound is
reached. Both calls have set the deadline of the key, so that it is gone a minute and a second
later. -/
theorem cluster_footprint_two : ∃ s : Cluster 2,
    s.redis.zcard s.clock (redisKey "global") = 2 ∧
      (s.redis.zcard s.clock (redisKey "global") : ℤ) ≤ 1 + 2 - 1 ∧
      ∀ now, s.clock + (60 + 1) ≤ now →
        Slot.live now (s.redis.slot (redisKey "global")) = none := by
  have hrules : ∀ rule ∈ [perMinute], ∀ client, rateLimitKey rule client = "global" →
      rule.limit ≤ 1 ∧ rule.windowSeconds ≤ 60 := by
    intro rule hrule client _
    rw [List.mem_singleton.mp hrule]
    decide
  obtain ⟨tr, t, s, hrun, -, -, -, hcard, hwhole, hidle⟩ := two_processes_cluster
  obtain ⟨hbound, hgone⟩ := cluster_footprint (by decide) hrules hrun
  refine ⟨s, hcard, hbound, ?_⟩
  intro now hnow
  refine hgone ?_ ?_ now (by exact_mod_cast hnow)
  · rintro u hu ⟨i, added, hraise | hcrash, -⟩
    · exact (hwhole u hu i).1 hraise
    · exact (hwhole u hu i).2 hcrash
  · intro i added hi
    cases (hidle i).symm.trans hi

end RateGuardian
