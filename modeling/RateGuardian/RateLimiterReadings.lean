import RateGuardian.RateLimiterSound

/-!
# RateGuardian.RateLimiterReadings

**Where the limiter depends on the exact clock readings.** Two promises hold for most
readings and not for all of them:

* the wait sent with a rejection is rounded down to whole seconds, so it is long enough only
  when the oldest entry that counts is a whole number of seconds old
  (`check_after_wait_iff`);
* an entry is named after its reading, so an admission at a reading that has an entry already
  is stored under that entry and not counted (`everyAdmissionCounted_iff`).

Both are stated as equivalences, with the condition on what there is before the call: the entries
of the set and the reading. They rest on the log invariants of `RateLimiterSound`.
-/

namespace RateGuardian

open Lib Redis

namespace SlidingWindowRateLimiter

variable {key : String} {limit w : ℤ}

/-! ### Waiting as long as told -/

/-- At a rejection the set is exactly full: as many admissions count as the limit allows. -/
theorem length_counted_of_rejected {ts : List Time} {now : Time} (hlimit : 1 ≤ limit)
    (hinc : (ts ++ [now]).Pairwise (· < ·))
    (hrej : (check (final (checkAt key limit w) .empty ts) now key limit w).1.allowed = false) :
    ((counted now w (admissions key limit w ts)).length : ℤ) = limit := by
  obtain ⟨hts, -, hlt⟩ := List.pairwise_append.mp hinc
  have hfull : ¬ ((counted now w (admissions key limit w ts)).length : ℤ) < limit := by
    intro hroom
    rw [(allowed_iff_counted hinc).mpr hroom] at hrej
    cases hrej
  have hmost : (counted now w (admissions key limit w ts)).length ≤ limit.toNat := by
    have hbound := ((@windowBounded_admissions key limit w ts hts) (now - w)).2
    refine le_trans (le_of_eq ?_) hbound
    rw [counted, ← List.countP_eq_length_filter]
    refine List.countP_congr fun t ht => ?_
    have htnow : t ≤ now := (hlt t ((@logInv_final key limit w ts hts).mem t ht) now (by simp)).le
    simp [htnow]
  omega

/-- After a rejection the next call is allowed exactly when the oldest admission no longer
counts. -/
theorem check_after_rejected_iff {ts : List Time} {now now' o : Time} (hlimit : 1 ≤ limit)
    (hinc : (ts ++ [now]).Pairwise (· < ·))
    (hrej : (check (final (checkAt key limit w) .empty ts) now key limit w).1.allowed = false)
    (ho : o ∈ counted now w (admissions key limit w ts))
    (holdest : ∀ t ∈ counted now w (admissions key limit w ts), o ≤ t) (hlater : now < now') :
    (check (final (checkAt key limit w) .empty (ts ++ [now])) now' key limit w).1.allowed = true ↔
      o + w ≤ now' := by
  have hinc' : (ts ++ [now] ++ [now']).Pairwise (· < ·) := by
    refine List.pairwise_append.mpr ⟨hinc, by simp, ?_⟩
    intro t ht u hu
    obtain rfl := List.mem_singleton.mp hu
    rcases List.mem_append.mp ht with ht | ht
    · exact ((List.pairwise_append.mp hinc).2.2 t ht now (by simp)).trans hlater
    · exact List.mem_singleton.mp ht ▸ hlater
  have hfull := length_counted_of_rejected hlimit hinc hrej
  have hsame : admissions key limit w (ts ++ [now]) = admissions key limit w ts := by
    rw [admissions_concat, if_neg (by simp [hrej]), List.append_nil]
  have hroom : ((counted now' w (counted now w (admissions key limit w ts))).length : ℤ) < limit ↔
      (counted now' w (counted now w (admissions key limit w ts))).length <
        (counted now w (admissions key limit w ts)).length := by omega
  rw [allowed_iff_counted hinc', hsame, ← counted_counted hlater.le, hroom]
  by_cases hgone : o + w ≤ now'
  · refine iff_of_true ?_ hgone
    refine List.length_filter_lt_length_iff_exists.mpr ⟨o, ho, ?_⟩
    simp only [decide_eq_true_eq, not_lt]
    linarith
  · refine iff_of_false ?_ hgone
    have hall : counted now' w (counted now w (admissions key limit w ts)) =
        counted now w (admissions key limit w ts) := by
      refine List.filter_eq_self.mpr fun t ht => ?_
      have := holdest t ht
      simp only [decide_eq_true_eq]
      linarith [not_le.mp hgone]
    rw [hall]
    exact lt_irrefl _

/-- The wait sent with a rejection, and the oldest admission it is counted from, which is the
first entry of the set. -/
theorem resetIn_of_rejected {ts : List Time} {now : Time} (hlimit : 1 ≤ limit) (hw : 1 ≤ w)
    (hinc : (ts ++ [now]).Pairwise (· < ·))
    (hrej : (check (final (checkAt key limit w) .empty ts) now key limit w).1.allowed = false) :
    ∃ o ∈ counted now w (admissions key limit w ts),
      (∀ t ∈ counted now w (admissions key limit w ts), o ≤ t) ∧
      (check (final (checkAt key limit w) .empty ts) now key limit w).1.resetIn = ⌊o + w - now⌋ ∧
      ∃ m, (window now w ((final (checkAt key limit w) .empty ts).slot (redisKey key))).first =
        some (m, o) := by
  obtain ⟨hts, -, hlt⟩ := List.pairwise_append.mp hinc
  have hnow : ∀ t ∈ ts, t < now := fun t ht => hlt t ht now (by simp)
  have hinv := @logInv_final key limit w ts hts
  obtain ⟨-, o, ho, holdest, hreset, -⟩ := (exactAnswer_check hlimit hw hinc).rejected hrej
  refine ⟨o, ho, holdest, hreset, ?_⟩
  cases hfirst : (window now w ((final (checkAt key limit w) .empty ts).slot
      (redisKey key))).first with
  | none =>
      rw [SortedSet.first, List.head?_eq_none_iff, hinv.exact now hnow, List.map_eq_nil_iff]
        at hfirst
      rw [hfirst] at ho
      cases ho
  | some oldest =>
      obtain ⟨o', ho', rfl, holdest'⟩ := hinv.first hnow hfirst
      exact ⟨o', by rw [le_antisymm (holdest o' ho') (holdest' o ho)]⟩

/-- **Waiting as told is enough exactly for whole seconds.** After a rejection at `now` with
`resetIn` seconds to wait, a lone call at any later time that has waited so long is allowed,
if and only if the oldest entry of the set is a whole number of seconds old at `now`. -/
theorem check_after_wait_iff (key : String) {limit w : ℤ} (hlimit : 1 ≤ limit) (hw : 1 ≤ w)
    {ts : List Time} {now : Time} (hinc : (ts ++ [now]).Pairwise (· < ·))
    (hrej : (check (final (checkAt key limit w) .empty ts) now key limit w).1.allowed = false) :
    (∀ now', now < now' →
        now + (check (final (checkAt key limit w) .empty ts) now key limit w).1.resetIn ≤ now' →
        (check (final (checkAt key limit w) .empty (ts ++ [now])) now' key limit w).1.allowed =
          true) ↔
      ∀ oldest, (window now w ((final (checkAt key limit w) .empty ts).slot
        (redisKey key))).first = some oldest → ∃ n : ℤ, now - oldest.2 = n := by
  obtain ⟨o, ho, holdest, hreset, m, hfirst⟩ := resetIn_of_rejected hlimit hw hinc hrej
  have hcounts : now - w < o := (mem_counted.mp ho).2
  have hfloor : (⌊o + w - now⌋ : ℚ) ≤ o + w - now := Int.floor_le _
  have hnonneg : (0 : ℚ) ≤ ⌊o + w - now⌋ := by
    exact_mod_cast Int.floor_nonneg.mpr (by linarith : (0 : ℚ) ≤ o + w - now)
  rw [hreset, hfirst]
  constructor
  · intro hwait oldest heq
    obtain rfl := Option.some.inj heq
    -- a call midway between the end of the wait and the expiry of the oldest entry
    have hle : o + w ≤ now + ⌊o + w - now⌋ := by
      by_contra hearly
      have hmid := (check_after_rejected_iff hlimit hinc hrej ho holdest
        (by linarith : now < (now + ⌊o + w - now⌋ + (o + w)) / 2)).mp
        (hwait _ (by linarith) (by linarith))
      linarith
    refine ⟨w - ⌊o + w - now⌋, ?_⟩
    push_cast
    linarith
  · intro hwhole now' hlater hwaited
    obtain ⟨n, hn⟩ := hwhole (m, o) rfl
    have hexact : o + w - now = ((w - n : ℤ) : ℚ) := by
      push_cast
      linarith [show now - o = n from hn]
    refine (check_after_rejected_iff hlimit hinc hrej ho holdest hlater).mpr ?_
    rw [hexact, Int.floor_intCast] at hwaited
    linarith

/-- One call a second: the rejection half a second later says to wait no time at all, and a
call a quarter of a second after it is rejected too. -/
theorem check_after_wait_half_second :
    (check (final (checkAt "10.0.0.1" 1 1) .empty [0]) (1 / 2) "10.0.0.1" 1 1).1.allowed = false ∧
      ¬ ∀ now' : Time, 1 / 2 < now' →
        1 / 2 + ((check (final (checkAt "10.0.0.1" 1 1) .empty [0]) (1 / 2) "10.0.0.1" 1
          1).1.resetIn : Time) ≤ now' →
        (check (final (checkAt "10.0.0.1" 1 1) .empty [0, 1 / 2]) now' "10.0.0.1" 1 1).1.allowed =
          true := by
  refine ⟨by decide +kernel, fun hwait => ?_⟩
  have hallowed := hwait (3 / 4) (by norm_num) (by decide +kernel)
  revert hallowed
  decide +kernel

/-- A rejection a whole second after the only admission in three: two seconds are enough. -/
theorem check_after_wait_whole_second :
    (check (final (checkAt "10.0.0.1" 1 3) .empty ([0] ++ [1])) 3 "10.0.0.1" 1 3).1.allowed =
      true := by
  refine (@check_after_wait_iff "10.0.0.1" 1 3 (by decide) (by decide) [0] 1 (by decide +kernel)
    (by decide +kernel)).mpr ?_ 3 (by norm_num) (by decide +kernel)
  intro oldest hfirst
  obtain rfl : (0, 0) = oldest := Option.some.inj (hfirst ▸ by decide +kernel)
  exact ⟨1, by norm_num⟩

/-! ### One entry for each admission -/

/-- What `ZCARD` replies right after a check. -/
theorem zcard_check_of_lt {r : Redis} {now : Time} (hw : 1 ≤ w)
    (hs : IsZset (r.slot (redisKey key)))
    (h : ((window now w (r.slot (redisKey key))).card : ℤ) < limit) :
    (check r now key limit w).2.zcard now (redisKey key) =
      ((window now w (r.slot (redisKey key))).add now now).card := by
  have hpos : (0 : ℚ) < w := by exact_mod_cast (by omega : 0 < w)
  rw [zcard, zview_check_of_lt hs h, if_pos (by linarith)]

theorem zcard_check_of_not_lt {r : Redis} {now : Time} (hs : IsZset (r.slot (redisKey key)))
    (h : ¬ ((window now w (r.slot (redisKey key))).card : ℤ) < limit) :
    (check r now key limit w).2.zcard now (redisKey key) =
      (window now w (r.slot (redisKey key))).card := by
  rw [zcard, zview_check_of_not_lt hs h le_rfl, window]

/-- After every call the set holds one entry for each admission that counts. -/
def Tallied (key : String) (limit w : ℤ) (ts : List Time) : Prop :=
  ∀ before now rest, ts = before ++ now :: rest →
    (final (checkAt key limit w) .empty (before ++ [now])).zcard now (redisKey key) =
      (counted now w (admissions key limit w (before ++ [now]))).length

theorem tallied_concat {ts : List Time} {now : Time} : Tallied key limit w (ts ++ [now]) ↔
    Tallied key limit w ts ∧
      (final (checkAt key limit w) .empty (ts ++ [now])).zcard now (redisKey key) =
        (counted now w (admissions key limit w (ts ++ [now]))).length := by
  constructor
  · intro h
    refine ⟨?_, h ts now [] rfl⟩
    rintro before t rest rfl
    exact h before t (rest ++ [now]) (by simp)
  · rintro ⟨hts, hnow⟩ before t rest heq
    rcases List.eq_nil_or_concat rest with rfl | ⟨rest, u, rfl⟩
    · obtain ⟨rfl, hlast⟩ := List.append_inj' heq rfl
      obtain rfl : now = t := by simpa using hlast
      exact hnow
    · have heq' : ts ++ [now] = (before ++ t :: rest) ++ [u] := by simpa using heq
      exact hts before t rest (List.append_inj' heq' rfl).1

/-- One step: after a call the set holds one entry for each admission that counts, unless
the call was admitted at a reading that had an entry. -/
theorem zcard_check_iff {ts : List Time} {now : Time} (hw : 1 ≤ w)
    (hinv : TallyInv w ts (admissions key limit w ts)
      ((final (checkAt key limit w) .empty ts).slot (redisKey key)))
    (hnow : ∀ t ∈ ts, t ≤ now) :
    (final (checkAt key limit w) .empty (ts ++ [now])).zcard now (redisKey key) =
        (counted now w (admissions key limit w (ts ++ [now]))).length ↔
      ¬ Overwrites key limit w (final (checkAt key limit w) .empty ts) now := by
  have hpos : (0 : ℚ) < w := by exact_mod_cast (by omega : 0 < w)
  have hself : counted now w [now] = [now] :=
    List.filter_eq_self.mpr fun t ht => by
      rw [List.mem_singleton.mp ht, decide_eq_true_eq]
      linarith
  have hcard := hinv.card hnow
  rw [final_concat, admissions_concat]
  show (check (final (checkAt key limit w) .empty ts) now key limit w).2.zcard now
    (redisKey key) = _ ↔ _
  by_cases hroom : ((window now w ((final (checkAt key limit w) .empty ts).slot
      (redisKey key))).card : ℤ) < limit
  · rw [zcard_check_of_lt hw hinv.isZset hroom,
      if_pos ((check_allowed_iff hinv.isZset).mpr hroom), counted_append, hself,
      List.length_append, List.length_singleton, ← hcard]
    constructor
    · rintro hcount ⟨-, hentry⟩
      rw [SortedSet.card_add_of_mem hentry] at hcount
      omega
    · intro hfresh
      exact SortedSet.card_add_of_notMem fun e he heq => hfresh ⟨hroom, e, he, heq⟩
  · have hrej := mt (check_allowed_iff hinv.isZset).mp hroom
    rw [zcard_check_of_not_lt hinv.isZset hroom, if_neg hrej, List.append_nil, ← hcard]
    exact iff_of_true rfl fun h => hroom h.1

/-- Every admission is counted as long as it counts, so that no half-open interval as long as
the window holds more admissions than the limit. -/
structure EveryAdmissionCounted (key : String) (limit w : ℤ) (ts : List Time) : Prop where
  tallied : Tallied key limit w ts
  bounded : WindowBounded (w : Time) limit.toNat (admissions key limit w ts)

/-- The set holds one entry for each admission exactly as long as none overwrites another. -/
theorem tallied_iff (hw : 1 ≤ w) {ts : List Time} (hmono : ts.Pairwise (· ≤ ·)) :
    Tallied key limit w ts ↔ ∀ t ∈ trace (checkAt key limit w) .empty ts,
      ¬ Overwrites key limit w t.pre t.label.1 := by
  induction ts using List.reverseRecOn with
  | nil => simp [Tallied]
  | append_singleton ts now ih =>
      obtain ⟨hts, -, hle⟩ := List.pairwise_append.mp hmono
      rw [tallied_concat, trace_concat, List.forall_mem_append, List.forall_mem_singleton, ih hts]
      refine and_congr_right fun hfresh => ?_
      exact zcard_check_iff hw (tallyInv_final key hts hfresh) fun t ht => hle t ht now (by simp)

/-- **No admission goes uncounted exactly as long as none overwrites another.** For readings
that may repeat, every admission is counted in every window it falls in, if and only if no
call ever finds both room in the set and an entry for its own reading. -/
theorem everyAdmissionCounted_iff (key : String) {limit w : ℤ} (hw : 1 ≤ w) {ts : List Time}
    (hmono : ts.Pairwise (· ≤ ·)) :
    EveryAdmissionCounted key limit w ts ↔ ∀ t ∈ trace (checkAt key limit w) .empty ts,
      ¬ Overwrites key limit w t.pre t.label.1 :=
  ⟨fun h => (tallied_iff hw hmono).mp h.tallied,
    fun h => ⟨(tallied_iff hw hmono).mpr h, windowBounded_of_not_overwrites key hmono h⟩⟩

/-- Two a second, three calls at one reading: all are allowed, and the set holds one entry. -/
theorem everyAdmissionCounted_one_reading :
    admissions "10.0.0.1" 2 1 [0, 0, 0] = [0, 0, 0] ∧
      ¬ EveryAdmissionCounted "10.0.0.1" 2 1 [0, 0, 0] := by
  refine ⟨by decide +kernel, fun h => ?_⟩
  have hbound := (h.bounded 0).1
  revert hbound
  decide +kernel

/-- A reading may repeat as long as the set is full at the second call. -/
theorem everyAdmissionCounted_two_readings :
    EveryAdmissionCounted "10.0.0.1" 2 1 [0, 1 / 2, 1 / 2] := by
  exact (everyAdmissionCounted_iff "10.0.0.1" (by decide) (by decide +kernel)).mpr
    (by decide +kernel)

end SlidingWindowRateLimiter

end RateGuardian
