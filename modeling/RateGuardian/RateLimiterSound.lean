import RateGuardian.RateLimiter
import RateGuardian.Lib.Run
import RateGuardian.Lib.Window

/-!
# RateGuardian.RateLimiterSound

**The limiter is an exact sliding log.** For checks of one key with one limit and one
window, at strictly increasing readings, the sorted set that a check counts is exactly the
list of earlier admissions that still count. Three ways of vanishing have to agree with the
history: pruning by score, the deadline of the whole key, and never having been added.

The invariant (`LogInv`) speaks about **every later reading at once**: whatever the next
clock reading is, the entries visible then and above its bound are the admissions that
count then. Quantifying over the future is what makes expiry disappear from the induction:
an expired key is visibly empty at that reading, so the induction hypothesis at the same
reading already says that no admission counts any more.

Readings that repeat are covered by a stronger invariant (`TallyInv`), which holds as long as no
admission overwrites the entry of another; `LogInv` follows from it at increasing readings.
-/

namespace RateGuardian

open Lib Redis

namespace SlidingWindowRateLimiter

/-- Checks of one key with a fixed limit and window, one for each clock reading. -/
def checkAt (key : String) (limit w : ℤ) (r : Redis) (now : Time) : RateLimitResult × Redis :=
  check r now key limit w

/-- The readings of the calls that were allowed. -/
def allowedTimes (tr : List (Transition Redis (Time × RateLimitResult))) : List Time :=
  (tr.filter (fun t => t.label.2.allowed)).map (fun t => t.label.1)

theorem allowedTimes_concat (tr : List (Transition Redis (Time × RateLimitResult)))
    (t : Transition Redis (Time × RateLimitResult)) :
    allowedTimes (tr ++ [t]) =
      allowedTimes tr ++ if t.label.2.allowed then [t.label.1] else [] := by
  unfold allowedTimes
  rw [List.filter_append, List.map_append, List.filter_singleton]
  cases t.label.2.allowed <;> rfl

/-- What the sorted set of the key holds after the calls at `ts` allowed `A`: at any later
reading, the entries that count are the admissions that count. -/
structure LogInv (w : ℤ) (ts A : List Time) (s : Slot Time Value) : Prop where
  isZset : IsZset s
  /-- Only calls are allowed. -/
  mem : ∀ t ∈ A, t ∈ ts
  exact : ∀ now, (∀ t ∈ ts, t < now) →
    (window now w s).entries = (counted now w A).map (fun t => (t, t))

theorem LogInv.card {w : ℤ} {ts A : List Time} {s : Slot Time Value} (h : LogInv w ts A s)
    {now : Time} (hnow : ∀ t ∈ ts, t < now) :
    (window now w s).card = (counted now w A).length := by
  rw [SortedSet.card, h.exact now hnow, List.length_map]

/-! ### Readings that may repeat

An entry is named after its reading, so two admissions at one reading share an entry. The
invariant holds for repeated readings too (`TallyInv`), as long as no call is admitted at a
reading that already has an entry; strictly increasing readings are the case in which that
cannot happen. -/

/-- A call at `now` finds room in the set, and an entry for its own reading in it. -/
def Overwrites (key : String) (limit w : ℤ) (r : Redis) (now : Time) : Prop :=
  ((window now w (r.slot (redisKey key))).card : ℤ) < limit ∧
    ∃ e ∈ (window now w (r.slot (redisKey key))).entries, e.1 = now

instance (key : String) (limit w : ℤ) (r : Redis) (now : Time) :
    Decidable (Overwrites key limit w r now) :=
  inferInstanceAs (Decidable (_ ∧ ∃ e ∈ (window now w (r.slot (redisKey key))).entries, _))

/-- `LogInv`, also at a reading that is the last one again, where the admission just made is counted
already. -/
structure TallyInv (w : ℤ) (ts A : List Time) (s : Slot Time Value) : Prop where
  isZset : IsZset s
  mem : ∀ t ∈ A, t ∈ ts
  exact : ∀ now, (∀ t ∈ ts, t ≤ now) →
    (window now w s).entries = (counted now w A).map (fun t => (t, t))

theorem TallyInv.logInv {w : ℤ} {ts A : List Time} {s : Slot Time Value}
    (h : TallyInv w ts A s) : LogInv w ts A s :=
  ⟨h.isZset, h.mem, fun now hnow => h.exact now fun t ht => (hnow t ht).le⟩

theorem TallyInv.card {w : ℤ} {ts A : List Time} {s : Slot Time Value} (h : TallyInv w ts A s)
    {now : Time} (hnow : ∀ t ∈ ts, t ≤ now) :
    (window now w s).card = (counted now w A).length := by
  rw [SortedSet.card, h.exact now hnow, List.length_map]

/-- An admission keeps the invariant: before the new deadline the log is the old window
with the reading appended; from the deadline on nothing counts. -/
theorem TallyInv.allowed {w : ℤ} {ts A : List Time} {s s' : Slot Time Value} {now : Time}
    (h : TallyInv w ts A s) (hnow : ∀ t ∈ ts, t ≤ now)
    (hfresh : ∀ e ∈ (window now w s).entries, e.1 ≠ now) (hs' : IsZset s')
    (hview : ∀ now', zview now' s' =
      if now' < now + (w + 1) then (window now w s).add now now else .empty) :
    TallyInv w (ts ++ [now]) (A ++ [now]) s' := by
  have hlast : ((window now w s).add now now).entries =
      (counted now w A ++ [now]).map (fun t => (t, t)) := by
    have hold : ∀ e ∈ (window now w s).entries, e.2 < now := by
      intro e he
      have hne := hfresh e he
      rw [h.exact now hnow, List.mem_map] at he
      obtain ⟨t, ht, rfl⟩ := he
      exact lt_of_le_of_ne (hnow t (h.mem t (mem_counted.mp ht).1)) hne
    rw [SortedSet.entries_add_of_lt hold hfresh, h.exact now hnow, List.map_append]
    rfl
  refine ⟨hs', ?_, ?_⟩
  · intro t ht
    rcases List.mem_append.mp ht with ht | ht
    · exact List.mem_append_left _ (h.mem t ht)
    · exact List.mem_append_right _ ht
  · intro now' hnow'
    have hle : now ≤ now' := hnow' now (by simp)
    rw [window, SortedSet.entries_removeUpTo, hview now']
    by_cases hdead : now' < now + (w + 1)
    · have hcollapse : counted now' w (A ++ [now]) =
          counted now' w (counted now w A ++ [now]) := by
        rw [counted_append, counted_append, counted_counted hle]
      rw [if_pos hdead, hlast, hcollapse, List.filter_map]
      rfl
    · -- the key is gone, and every admission is at least `w + 1` old
      have hnone : counted now' w (A ++ [now]) = [] := by
        refine List.filter_eq_nil_iff.mpr ?_
        intro t ht
        have hle : t ≤ now := by
          rcases List.mem_append.mp ht with ht | ht
          · exact hnow t (h.mem t ht)
          · exact (List.mem_singleton.mp ht).le
        simp only [decide_eq_true_eq, not_lt]
        linarith
      rw [if_neg hdead, hnone]
      rfl

/-- A rejection keeps the invariant: what it prunes no longer counts. -/
theorem TallyInv.rejected {w : ℤ} {ts A : List Time} {s s' : Slot Time Value} {now : Time}
    (h : TallyInv w ts A s) (hs' : IsZset s')
    (hview : ∀ now', now ≤ now' → zview now' s' = (zview now' s).removeUpTo (now - w)) :
    TallyInv w (ts ++ [now]) A s' := by
  refine ⟨hs', fun t ht => List.mem_append_left _ (h.mem t ht), ?_⟩
  intro now' hnow'
  have hle : now ≤ now' := hnow' now (by simp)
  have hold := h.exact now' (fun t ht => hnow' t (List.mem_append_left _ ht))
  rw [window, hview now' hle, SortedSet.removeUpTo_removeUpTo (by linarith)]
  exact hold

section Sound

variable (key : String) {limit w : ℤ}

/-- The admissions of the run of calls at the readings `ts`, from an empty database. -/
def admissions (limit w : ℤ) (ts : List Time) : List Time :=
  allowedTimes (trace (checkAt key limit w) .empty ts)

theorem admissions_concat (ts : List Time) (now : Time) :
    admissions key limit w (ts ++ [now]) = admissions key limit w ts ++
      if (check (final (checkAt key limit w) .empty ts) now key limit w).1.allowed
      then [now] else [] := by
  rw [admissions, trace_concat, allowedTimes_concat]
  rfl

/-- The run lemma: `TallyInv` holds after every sequence of calls of which none is admitted
at a reading that already has an entry. -/
theorem tallyInv_final {ts : List Time} (hmono : ts.Pairwise (· ≤ ·))
    (hfresh : ∀ t ∈ trace (checkAt key limit w) .empty ts,
      ¬ Overwrites key limit w t.pre t.label.1) :
    TallyInv w ts (admissions key limit w ts)
      ((final (checkAt key limit w) .empty ts).slot (redisKey key)) := by
  induction ts using List.reverseRecOn with
  | nil => exact ⟨isZset_none, by simp [admissions, allowedTimes], fun now _ => rfl⟩
  | append_singleton ts now ih =>
      obtain ⟨hts, -, hle⟩ := List.pairwise_append.mp hmono
      rw [trace_concat, List.forall_mem_append, List.forall_mem_singleton] at hfresh
      have hinv := ih hts hfresh.1
      have hnow : ∀ t ∈ ts, t ≤ now := fun t ht => hle t ht now (by simp)
      rw [admissions_concat, final_concat]
      by_cases hadm : ((window now w ((final (checkAt key limit w) .empty ts).slot
          (redisKey key))).card : ℤ) < limit
      · rw [if_pos ((check_allowed_iff hinv.isZset).mpr hadm)]
        exact hinv.allowed hnow (fun e he heq => hfresh.2 ⟨hadm, e, he, heq⟩)
          (isZset_check hinv.isZset) (fun now' => zview_check_of_lt hinv.isZset hadm now')
      · rw [if_neg (fun h => hadm ((check_allowed_iff hinv.isZset).mp h)), List.append_nil]
        exact hinv.rejected (isZset_check hinv.isZset)
          (fun now' hle => zview_check_of_not_lt hinv.isZset hadm hle)

theorem windowBounded_of_not_overwrites {ts : List Time} (hmono : ts.Pairwise (· ≤ ·))
    (hfresh : ∀ t ∈ trace (checkAt key limit w) .empty ts,
      ¬ Overwrites key limit w t.pre t.label.1) :
    WindowBounded (w : Time) limit.toNat (admissions key limit w ts) := by
  induction ts using List.reverseRecOn with
  | nil => exact windowBounded_nil _ _
  | append_singleton ts now ih =>
      obtain ⟨hts, -, hle⟩ := List.pairwise_append.mp hmono
      rw [trace_concat, List.forall_mem_append] at hfresh
      have hbound := ih hts hfresh.1
      have hinv := tallyInv_final key hts hfresh.1
      rw [admissions_concat]
      split
      · next hres =>
        have hroom := (check_allowed_iff hinv.isZset).mp hres
        rw [hinv.card fun t ht => hle t ht now (by simp)] at hroom
        exact hbound.concat (by omega)
      · rwa [List.append_nil]

/-- Every entry of the set is named after the reading of an earlier call. -/
theorem not_overwrites_of_lt {ts A : List Time} {r : Redis} {now : Time}
    (h : TallyInv w ts A (r.slot (redisKey key))) (hnow : ∀ t ∈ ts, t < now) :
    ¬ Overwrites key limit w r now := by
  rintro ⟨-, e, he, rfl⟩
  rw [h.exact e.1 fun t ht => (hnow t ht).le, List.mem_map] at he
  obtain ⟨t, ht, rfl⟩ := he
  exact lt_irrefl _ (hnow t (h.mem t (mem_counted.mp ht).1))

/-- At increasing readings no call finds an entry for its own reading. -/
theorem not_overwrites_of_increasing {ts : List Time} (hinc : ts.Pairwise (· < ·)) :
    ∀ t ∈ trace (checkAt key limit w) .empty ts, ¬ Overwrites key limit w t.pre t.label.1 := by
  induction ts using List.reverseRecOn with
  | nil => simp
  | append_singleton ts now ih =>
      obtain ⟨hts, -, hlt⟩ := List.pairwise_append.mp hinc
      rw [trace_concat, List.forall_mem_append, List.forall_mem_singleton]
      have hinv := tallyInv_final key (hts.imp le_of_lt) (ih hts)
      exact ⟨ih hts, not_overwrites_of_lt key hinv fun t ht => hlt t ht now (by simp)⟩

/-- The run lemma: `LogInv` holds after every increasing sequence of calls. -/
theorem logInv_final {ts : List Time} (hinc : ts.Pairwise (· < ·)) :
    LogInv w ts (admissions key limit w ts)
      ((final (checkAt key limit w) .empty ts).slot (redisKey key)) :=
  (tallyInv_final key (hinc.imp le_of_lt) (not_overwrites_of_increasing key hinc)).logInv

variable {key}

/-- The decision of one call, in terms of the admissions before it: it is allowed exactly if fewer
of them count than the limit. -/
theorem allowed_iff_counted {ts : List Time} {now : Time} (hinc : (ts ++ [now]).Pairwise (· < ·)) :
    (check (final (checkAt key limit w) .empty ts) now key limit w).1.allowed = true ↔
      ((counted now w (admissions key limit w ts)).length : ℤ) < limit := by
  obtain ⟨hts, -, hlt⟩ := List.pairwise_append.mp hinc
  have hinv := @logInv_final key limit w ts hts
  rw [check_allowed_iff hinv.isZset, hinv.card (fun t ht => hlt t ht now (by simp))]

/-- What a call at `now` answers, given the admissions `A` before it and `A'` up to and
including it. -/
structure ExactAnswer (limit w : ℤ) (A A' : List Time) (now : Time) (res : RateLimitResult) :
    Prop where
  allowed : res.allowed = true ↔ ((counted now w A).length : ℤ) < limit
  remaining : res.allowed = true → res.remaining = limit - (counted now w A').length
  /-- The wait is counted from the oldest admission that still counts, in whole seconds. -/
  rejected : res.allowed = false → res.remaining = 0 ∧
    ∃ o ∈ counted now w A, (∀ t ∈ counted now w A, o ≤ t) ∧
      res.resetIn = ⌊o + w - now⌋ ∧ 0 ≤ res.resetIn ∧ res.resetIn ≤ w

/-- The wait of a rejected call is the rest of the window, rounded down, since it is not
negative. -/
theorem pyInt_wait {now o : Time} {w : ℤ} (hcount : now - w < o) (hle : o ≤ now) :
    pyInt (w - (now - o)) = ⌊o + w - now⌋ ∧ 0 ≤ pyInt (w - (now - o)) ∧
      pyInt (w - (now - o)) ≤ w := by
  have hpos : (0 : ℚ) ≤ w - (now - o) := by linarith
  have heq : (w : ℚ) - (now - o) = o + w - now := by ring
  rw [pyInt_of_nonneg hpos]
  refine ⟨by rw [heq], Int.floor_nonneg.mpr hpos, ?_⟩
  exact Int.floor_le_iff.mpr (by linarith)

/-- The entry that `ZRANGE key 0 0` finds is the oldest admission that counts. -/
theorem LogInv.first {w : ℤ} {ts A : List Time} {s : Slot Time Value} (h : LogInv w ts A s)
    {now : Time} (hnow : ∀ t ∈ ts, t < now) {oldest : Time × Time}
    (hfirst : (window now w s).first = some oldest) :
    ∃ o ∈ counted now w A, oldest = (o, o) ∧ ∀ t ∈ counted now w A, o ≤ t := by
  have hexact := h.exact now hnow
  have hmem := SortedSet.mem_of_first hfirst
  rw [hexact, List.mem_map] at hmem
  obtain ⟨o, ho, rfl⟩ := hmem
  refine ⟨o, ho, rfl, ?_⟩
  intro t ht
  have htmem : (t, t) ∈ (window now w s).entries := by
    rw [hexact]
    exact List.mem_map_of_mem ht
  exact SortedSet.first_le hfirst htmem

theorem exactAnswer_check (hlimit : 1 ≤ limit) (hw : 1 ≤ w) {ts : List Time} {now : Time}
    (hinc : (ts ++ [now]).Pairwise (· < ·)) :
    ExactAnswer limit w (admissions key limit w ts) (admissions key limit w (ts ++ [now])) now
      (check (final (checkAt key limit w) .empty ts) now key limit w).1 := by
  obtain ⟨hts, -, hlt⟩ := List.pairwise_append.mp hinc
  have hnow : ∀ t ∈ ts, t < now := fun t ht => hlt t ht now (by simp)
  have hinv := @logInv_final key limit w ts hts
  refine ⟨allowed_iff_counted hinc, ?_, ?_⟩
  · intro hres
    have hadm := (check_allowed_iff hinv.isZset).mp hres
    have hself : counted now w [now] = [now] :=
      List.filter_eq_self.mpr (fun t ht => by
        rw [List.mem_singleton.mp ht, decide_eq_true_eq]
        have : (0 : ℚ) < w := by exact_mod_cast (by omega : 0 < w)
        linarith)
    rw [admissions_concat, if_pos hres, counted_append, hself, List.length_append,
      check_of_lt hinv.isZset hadm, hinv.card hnow, List.length_singleton]
    push_cast
    ring
  · intro hres
    have hrej : ¬ ((window now w ((final (checkAt key limit w) .empty ts).slot
        (redisKey key))).card : ℤ) < limit := by
      intro hadm
      rw [(check_allowed_iff hinv.isZset).mpr hadm] at hres
      cases hres
    rw [check_of_not_lt hinv.isZset hrej]
    refine ⟨rfl, ?_⟩
    -- at least `limit ≥ 1` entries count, so there is an oldest one
    rcases hfirst : (window now w ((final (checkAt key limit w) .empty ts).slot
        (redisKey key))).first with _ | oldest
    · rw [SortedSet.first, List.head?_eq_none_iff] at hfirst
      rw [SortedSet.card_eq_zero.mpr hfirst] at hrej
      exact absurd (by omega) hrej
    · obtain ⟨o, ho, rfl, holdest⟩ := hinv.first hnow hfirst
      obtain ⟨hmem, hcount⟩ := mem_counted.mp ho
      obtain ⟨hfloor, hnonneg, hle⟩ := pyInt_wait hcount (hnow o (hinv.mem o hmem)).le
      refine ⟨o, ho, holdest, ?_⟩
      simp only [max_eq_left hnonneg]
      exact ⟨hfloor, hnonneg, hle⟩

theorem windowBounded_admissions {ts : List Time} (hinc : ts.Pairwise (· < ·)) :
    WindowBounded (w : Time) limit.toNat (admissions key limit w ts) :=
  windowBounded_of_not_overwrites key (hinc.imp le_of_lt) (not_overwrites_of_increasing key hinc)

/-- **The limiter is an exact sliding log.** For every sequence of checks of one key with
strictly increasing readings, each call is answered from the earlier admissions that still
count, every such admission is still in the visible sorted set, and no half-open interval
as long as the window holds more than `limit` admissions. -/
theorem check_exact_sliding_log (key : String) {limit w : ℤ} (hlimit : 1 ≤ limit) (hw : 1 ≤ w)
    {times : List Time} (hinc : times.Pairwise (· < ·)) :
    (∀ ts now rest, times = ts ++ now :: rest →
      ExactAnswer limit w (admissions key limit w ts) (admissions key limit w (ts ++ [now])) now
          (check (final (checkAt key limit w) .empty ts) now key limit w).1 ∧
        ∀ t ∈ counted now w (admissions key limit w ts),
          (t, t) ∈ (zview now ((final (checkAt key limit w) .empty ts).slot
            (redisKey key))).entries) ∧
      WindowBounded (w : Time) limit.toNat (admissions key limit w times) := by
  refine ⟨?_, windowBounded_admissions hinc⟩
  rintro ts now rest rfl
  have hpre : (ts ++ [now]).Pairwise (· < ·) := by
    refine hinc.sublist ?_
    exact List.Sublist.append_left (List.singleton_sublist.mpr List.mem_cons_self) ts
  refine ⟨exactAnswer_check hlimit hw hpre, ?_⟩
  intro t ht
  obtain ⟨hts, -, hlt⟩ := List.pairwise_append.mp hpre
  have hexact := (@logInv_final key limit w ts hts).exact now (fun t ht => hlt t ht now (by simp))
  have hmem : (t, t) ∈ (window now w ((final (checkAt key limit w) .empty ts).slot
      (redisKey key))).entries := by
    rw [hexact]
    exact List.mem_map_of_mem ht
  exact (mem_window.mp hmem).1

/-- One slot for ten seconds: the second call waits, the third finds the slot free. -/
theorem check_exact_sliding_log_one_slot :
    admissions "10.0.0.1" 1 10 [0, 5, 12] = [0, 12] ∧
      WindowBounded (10 : Time) 1 (admissions "10.0.0.1" 1 10 [0, 5, 12]) :=
  ⟨by decide +kernel,
    (check_exact_sliding_log "10.0.0.1" (by decide) (by decide) (by decide +kernel)).2⟩

end Sound

end SlidingWindowRateLimiter

end RateGuardian
