import RateGuardian.RateLimiterSound
import RateGuardian.Lib.GreedyWindow

/-!
# RateGuardian.RateLimiterSchedule

**The limiter as a schedule.** At increasing readings the limiter selects from the calls it
receives, in turn and without looking ahead (`admissions_eq_greedy`), and the results of
`Lib.GreedyWindow` are results about it:

* a larger limit admits every call a smaller one admits (`allowed_of_larger_limit`);
* no other choice of calls that keeps the limit has admitted more of them at any point of the
  run (`admissions_optimal`), and a shorter window never admits fewer.
-/

namespace RateGuardian

open Lib Redis

namespace SlidingWindowRateLimiter

variable {key : String} {limit limit' w : ℤ}

/-- **Refinement.** At increasing readings the admissions of the limiter are the greedy selection of
its calls. -/
theorem admissions_eq_greedy {ts : List Time} (hinc : ts.Pairwise (· < ·)) :
    admissions key limit w ts = greedy (w : Time) limit.toNat ts := by
  induction ts using List.reverseRecOn with
  | nil => rfl
  | append_singleton ts now ih =>
      have hsame := ih (List.pairwise_append.mp hinc).1
      have hdecision := @allowed_iff_counted key limit w ts now hinc
      rw [admissions_concat, greedy_concat, ← hsame]
      by_cases hroom : (counted now (w : Time) (admissions key limit w ts)).length < limit.toNat
      · rw [if_pos hroom, if_pos (hdecision.mpr (by omega))]
      · rw [if_neg hroom, if_neg (fun h => hroom (by have := hdecision.mp h; omega))]

/-- **Raising a limit never turns an admission into a rejection.** -/
theorem allowed_of_larger_limit (key : String) {limit limit' w : ℤ} (hle : limit ≤ limit')
    {times : List Time} (hinc : times.Pairwise (· < ·)) :
    ∀ ts now rest, times = ts ++ now :: rest →
      (check (final (checkAt key limit w) .empty ts) now key limit w).1.allowed = true →
      (check (final (checkAt key limit' w) .empty ts) now key limit' w).1.allowed = true := by
  rintro ts now rest rfl hallowed
  have hpre : (ts ++ [now]).Pairwise (· < ·) :=
    hinc.sublist (List.Sublist.append_left (List.singleton_sublist.mpr List.mem_cons_self) ts)
  obtain ⟨hts, -, hlt⟩ := List.pairwise_append.mp hpre
  have hroom := (allowed_iff_counted hpre).mp hallowed
  have hexcess := (greedy_ahead (w := (w : Time)) (Int.toNat_le_toNat hle) (hts.imp le_of_lt)).2
    now fun t ht => (hlt t ht now (by simp)).le
  rw [admissions_eq_greedy hts] at hroom
  rw [allowed_iff_counted hpre, admissions_eq_greedy hts]
  omega

/-- One call in ten seconds, and then two: the second run admits the calls at 0 and 12 of the
first, and the one at 5 between them. -/
theorem allowed_of_larger_limit_two :
    admissions "10.0.0.1" 1 10 [0, 5, 12] = [0, 12] ∧
      admissions "10.0.0.1" 2 10 [0, 5, 12] = [0, 5, 12] ∧
      (check (final (checkAt "10.0.0.1" 2 10) .empty [0, 5]) 12 "10.0.0.1" 2 10).1.allowed =
        true :=
  ⟨by decide +kernel, by decide +kernel,
    allowed_of_larger_limit "10.0.0.1" (by decide : (1 : ℤ) ≤ 2) (by decide +kernel) [0, 5] 12 []
      rfl (by decide +kernel)⟩

/-! ### No schedule admits more -/

theorem length_filter_admissions {ts rest : List Time} (hinc : (ts ++ rest).Pairwise (· < ·)) :
    (ts.filter (· ∈ admissions key limit w (ts ++ rest))).length =
      (greedy (w : Time) limit.toNat ts).length := by
  rw [admissions_eq_greedy hinc]
  exact (filter_mem_greedy_perm (hinc.imp ne_of_lt)).length_eq

/-- **The limiter refuses no more than it must.** For every set `S` of which no half-open
interval as long as the window contains more than `limit` calls, and at every point of the
run, at least as many calls have been admitted as belong to `S`. In particular a shorter
window has admitted no fewer. -/
theorem admissions_optimal (key : String) {limit w : ℤ} (hw : 1 ≤ w) {times : List Time}
    (hinc : times.Pairwise (· < ·)) {ts : List Time} (hpre : ts <+: times) :
    (∀ S : Finset Time, WindowBounded (w : Time) limit.toNat (times.filter (· ∈ S)) →
      (ts.filter (· ∈ S)).length ≤ (ts.filter (· ∈ admissions key limit w times)).length) ∧
    ∀ w', 1 ≤ w' → w' ≤ w →
      (ts.filter (· ∈ admissions key limit w times)).length ≤
        (ts.filter (· ∈ admissions key limit w' times)).length := by
  obtain ⟨rest, rfl⟩ := hpre
  have hts : ts.Pairwise (· < ·) := (List.pairwise_append.mp hinc).1
  have hahead : ∀ (u : ℤ) (sel : List Time), 1 ≤ u → sel.Sublist ts →
      WindowBounded (u : Time) limit.toNat sel →
      sel.length ≤ (greedy (u : Time) limit.toNat ts).length := by
    intro u sel hu hsel hbound
    exact length_le_length_greedy (by exact_mod_cast (by omega : 0 < u)) hts hsel hbound
  constructor
  · intro S hS
    rw [length_filter_admissions hinc]
    refine hahead w _ hw List.filter_sublist (hS.sublist ?_)
    exact (List.sublist_append_left ts rest).filter _
  · intro w' hw' hle
    have hbound : WindowBounded (w : Time) limit.toNat (greedy (w : Time) limit.toNat ts) :=
      @admissions_eq_greedy key limit w ts hts ▸ windowBounded_admissions hts
    rw [length_filter_admissions hinc, length_filter_admissions hinc]
    exact hahead w' _ hw' (greedy_sublist ts) (hbound.shorter (by exact_mod_cast hle))

/-- One call in ten seconds: two of the three calls are admitted, as many as `{5}` or any other
choice could hold, and a window of five seconds admits all three. -/
theorem admissions_optimal_one_slot :
    ([0, 5, 12].filter (· ∈ ({5} : Finset Time))).length ≤
        ([0, 5, 12].filter (· ∈ admissions "10.0.0.1" 1 10 [0, 5, 12])).length ∧
      ([0, 5, 12].filter (· ∈ admissions "10.0.0.1" 1 10 [0, 5, 12])).length ≤
        ([0, 5, 12].filter (· ∈ admissions "10.0.0.1" 1 5 [0, 5, 12])).length := by
  have h := @admissions_optimal "10.0.0.1" 1 10 (by decide) [0, 5, 12] (by decide +kernel)
    [0, 5, 12] (List.prefix_refl _)
  have hone : ([0, 5, 12] : List Time).filter (· ∈ ({5} : Finset Time)) = [5] := by
    decide +kernel
  refine ⟨h.1 {5} ?_, h.2 5 (by decide) (by decide)⟩
  rw [hone]
  exact fun a => ⟨List.countP_le_length, List.countP_le_length⟩

end SlidingWindowRateLimiter

end RateGuardian
