import Mathlib.Algebra.Order.Group.Basic
import Mathlib.Data.Finset.Max
import Mathlib.Data.List.Induction

/-!
# RateGuardian.Lib.Window

**Counting events in half-open windows.** `WindowBounded w k ts` says that no
half-open interval of length `w`, closed on either side, contains more than `k` of
the times `ts`. For a history in the order of its events it is enough to look backwards
from each event (`WindowBounded.concat`): the earlier events that still count when `t`
happens are those after `t - w`, which is what a sliding-window log keeps.
-/

namespace RateGuardian.Lib

variable {τ : Type*} [AddCommGroup τ] [LinearOrder τ]

/-- The events of `ts` that still count at `now`, for a window of length `w`. -/
def counted (now w : τ) (ts : List τ) : List τ := ts.filter (fun t => now - w < t)

/-- No half-open interval of length `w` contains more than `k` of the times `ts`. -/
def WindowBounded (w : τ) (k : ℕ) (ts : List τ) : Prop :=
  ∀ a, ts.countP (fun t => a ≤ t ∧ t < a + w) ≤ k ∧ ts.countP (fun t => a < t ∧ t ≤ a + w) ≤ k

theorem mem_counted {w now t : τ} {ts : List τ} : t ∈ counted now w ts ↔ t ∈ ts ∧ now - w < t := by
  simp [counted]

theorem counted_append (now w : τ) (ts us : List τ) :
    counted now w (ts ++ us) = counted now w ts ++ counted now w us := by
  simp [counted]

variable [IsOrderedAddMonoid τ]

theorem counted_counted {w now now' : τ} (h : now ≤ now') (ts : List τ) :
    counted now' w (counted now w ts) = counted now' w ts := by
  simp only [counted, List.filter_filter]
  refine List.filter_congr fun t _ => ?_
  simp only [Bool.and_eq_left_iff_imp, decide_eq_true_eq]
  exact fun hlt => lt_of_le_of_lt (sub_le_sub_right h w) hlt

omit [IsOrderedAddMonoid τ] in
/-- Appending an event to a history that has few enough still counting keeps the bound
on any set of times narrower than `w`. -/
theorem countP_concat_le {w t : τ} {k : ℕ} {ts : List τ} (I : τ → Prop) [DecidablePred I]
    (hnarrow : ∀ x, I x → I t → t - w < x) (hts : ts.countP I ≤ k)
    (hcount : (counted t w ts).length < k) : (ts ++ [t]).countP I ≤ k := by
  rw [List.countP_append, List.countP_singleton]
  by_cases ht : I t
  · -- every other member of `I` lies in the window that ends at `t`
    have hsub : ts.countP I ≤ (counted t w ts).length := by
      rw [counted, ← List.countP_eq_length_filter]
      refine List.countP_mono_left fun x _ hx => ?_
      simp only [decide_eq_true_eq] at hx ⊢
      exact hnarrow x hx ht
    simp only [ht, decide_true, if_true]
    omega
  · simpa only [ht, decide_false, Bool.false_eq_true, if_false, Nat.add_zero] using hts

omit [IsOrderedAddMonoid τ] in
theorem windowBounded_nil (w : τ) (k : ℕ) : WindowBounded w k [] := by
  intro a
  simp

/-- **The sliding-window step.** If an event happens only while fewer than `k` earlier
ones still count, the bound on half-open intervals of length `w` is kept. -/
theorem WindowBounded.concat {w t : τ} {k : ℕ} {ts : List τ} (h : WindowBounded w k ts)
    (hcount : (counted t w ts).length < k) : WindowBounded w k (ts ++ [t]) := by
  intro a
  constructor
  · refine countP_concat_le (fun t => a ≤ t ∧ t < a + w) ?_ (h a).1 hcount
    intro x hx ht
    have hlt : t - w < a := sub_lt_iff_lt_add.mpr ht.2
    exact hlt.trans_le hx.1
  · refine countP_concat_le (fun t => a < t ∧ t ≤ a + w) ?_ (h a).2 hcount
    intro x hx ht
    have hle : t - w ≤ a := sub_le_iff_le_add.mpr ht.2
    exact hle.trans_lt hx.1

/-- A bound for long intervals is a bound for shorter ones, which lie in longer ones. -/
theorem WindowBounded.shorter {w w' : τ} {k : ℕ} {ts : List τ} (h : WindowBounded w k ts)
    (hle : w' ≤ w) : WindowBounded w' k ts := by
  intro a
  have hend : a + w' ≤ a + w := add_le_add_right hle a
  refine ⟨le_trans (List.countP_mono_left fun t _ ht => ?_) (h a).1,
    le_trans (List.countP_mono_left fun t _ ht => ?_) (h a).2⟩
  · simp only [decide_eq_true_eq] at ht ⊢
    exact ⟨ht.1, ht.2.trans_le hend⟩
  · simp only [decide_eq_true_eq] at ht ⊢
    exact ⟨ht.1, ht.2.trans hend⟩

omit [IsOrderedAddMonoid τ] in
theorem WindowBounded.sublist {w : τ} {k : ℕ} {ts us : List τ} (h : WindowBounded w k us)
    (hsub : ts.Sublist us) : WindowBounded w k ts :=
  fun a => ⟨hsub.countP_le.trans (h a).1, hsub.countP_le.trans (h a).2⟩

omit [IsOrderedAddMonoid τ] in
/-- Times in one half-open interval of length `w` are no more than `k`. -/
theorem WindowBounded.length_le {w : τ} {k : ℕ} {ts : List τ} (h : WindowBounded w k ts) (a : τ)
    (hts : ∀ t ∈ ts, a ≤ t ∧ t < a + w) : ts.length ≤ k := by
  have hall : ts.countP (fun t => a ≤ t ∧ t < a + w) = ts.length :=
    List.countP_eq_length.mpr fun t ht => decide_eq_true (hts t ht)
  rw [← hall]
  exact (h a).1

/-- Intervals closed on the left suffice: the members of `(a, a + w]` lie in the
interval of length `w` that starts at the least of them. -/
theorem windowBounded_of_ico {w : τ} {k : ℕ} {ts : List τ}
    (h : ∀ a, ts.countP (fun t => a ≤ t ∧ t < a + w) ≤ k) : WindowBounded w k ts := by
  intro a
  refine ⟨h a, ?_⟩
  by_cases hex : ∃ t ∈ ts, a < t ∧ t ≤ a + w
  · obtain ⟨t, ht, hat⟩ := hex
    have hmem : ∀ u, u ∈ (ts.filter (fun t => a < t ∧ t ≤ a + w)).toFinset ↔
        u ∈ ts ∧ a < u ∧ u ≤ a + w := fun u => by simp
    obtain ⟨m, hm, hmin⟩ := Finset.exists_min_image
      (ts.filter (fun t => a < t ∧ t ≤ a + w)).toFinset id ⟨t, (hmem t).mpr ⟨ht, hat⟩⟩
    have ham : a < m := ((hmem m).mp hm).2.1
    refine le_trans (List.countP_mono_left fun t ht hat => ?_) (h m)
    simp only [decide_eq_true_eq] at hat ⊢
    exact ⟨hmin t ((hmem t).mpr ⟨ht, hat⟩), lt_of_le_of_lt hat.2 (add_lt_add_left ham w)⟩
  · have hzero : ts.countP (fun t => a < t ∧ t ≤ a + w) = 0 := by
      refine List.countP_eq_zero.mpr fun t ht => ?_
      simpa using fun h1 => lt_of_not_ge fun h2 => hex ⟨t, ht, h1, h2⟩
    omega

end RateGuardian.Lib
