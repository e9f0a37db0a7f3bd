import Mathlib.Data.List.Dedup
import Mathlib.Data.List.Perm.Subperm
import Mathlib.Data.List.Sort
import Mathlib.Algebra.Order.BigOperators.Group.List
import Mathlib.Algebra.Order.Ring.Nat
import Mathlib.Algebra.Group.Action.Defs

/-!
# RateGuardian.Lib.TopCounts

**The most frequent keys of a list.** `groupCounts xs` counts every key once, as a query that
groups its rows does. `ByCount` orders counts from the greatest down, and leaves open which of two
equal ones comes first; `topCounts order n xs` cuts the ordered counts after `n`.

`TopCounts n xs sel` says what `sel` is then (`topCounts_spec`). The counts add up to all of the
list when the keys are no more than `n`, and to less otherwise (`TopCounts.sum_eq_iff`); a key that
makes up more than one `n + 1`-th of the list is always there (`TopCounts.mem_of_frequent`).
-/

namespace RateGuardian.Lib

variable {κ : Type*} [DecidableEq κ]

/-- `GROUP BY` with `COUNT`: each key that occurs, once, with how often it does. -/
def groupCounts (xs : List κ) : List (κ × ℕ) := xs.dedup.map fun k => (k, xs.count k)

/-- `ORDER BY count DESC`, with any choice among equal counts. -/
structure ByCount (κ : Type*) where
  order : List (κ × ℕ) → List (κ × ℕ)
  perm : ∀ groups, (order groups).Perm groups
  sorted : ∀ groups, (order groups).Pairwise fun a b => b.2 ≤ a.2

/-- One such order, where equal counts stay in the order they come in. -/
def ByCount.stable : ByCount κ where
  order groups := groups.insertionSort fun a b => b.2 ≤ a.2
  perm groups := List.perm_insertionSort _ _
  sorted groups := by
    have htotal : Std.Total fun a b : κ × ℕ => b.2 ≤ a.2 := ⟨fun a b => le_total b.2 a.2⟩
    have htrans : IsTrans (κ × ℕ) fun a b => b.2 ≤ a.2 := ⟨fun _ _ _ hab hbc => le_trans hbc hab⟩
    exact List.pairwise_insertionSort _ _

/-- The `n` greatest counts, or all of them if there are fewer. -/
def topCounts (o : ByCount κ) (n : ℕ) (xs : List κ) : List (κ × ℕ) :=
  (o.order (groupCounts xs)).take n

/-- `sel` lists the counts of `n` keys, or of all, the most frequent ones from the greatest on. -/
structure TopCounts (n : ℕ) (xs : List κ) (sel : List (κ × ℕ)) : Prop where
  count : ∀ e ∈ sel, e.1 ∈ xs ∧ e.2 = xs.count e.1
  nodup : (sel.map Prod.fst).Nodup
  length : sel.length = min n xs.dedup.length
  sorted : sel.Pairwise fun a b => b.2 ≤ a.2
  least : ∀ k ∈ xs, k ∉ sel.map Prod.fst → ∀ e ∈ sel, xs.count k ≤ e.2

section Counts

variable {xs : List κ}

theorem mem_groupCounts {e : κ × ℕ} : e ∈ groupCounts xs ↔ e.1 ∈ xs ∧ e.2 = xs.count e.1 := by
  constructor
  · intro he
    obtain ⟨k, hk, rfl⟩ := List.mem_map.mp he
    exact ⟨List.mem_dedup.mp hk, rfl⟩
  · intro h
    exact List.mem_map.mpr ⟨e.1, List.mem_dedup.mpr h.1, Prod.ext rfl h.2.symm⟩

theorem map_fst_groupCounts (xs : List κ) : (groupCounts xs).map Prod.fst = xs.dedup := by
  rw [groupCounts, List.map_map]
  exact List.map_id _

end Counts

theorem topCounts_spec (o : ByCount κ) (n : ℕ) (xs : List κ) :
    TopCounts n xs (topCounts o n xs) := by
  have hperm := o.perm (groupCounts xs)
  have hsorted := o.sorted (groupCounts xs)
  have hsub : (topCounts o n xs).Sublist (o.order (groupCounts xs)) := List.take_sublist n _
  constructor
  · intro e he
    exact mem_groupCounts.mp (hperm.subset (hsub.subset he))
  · have hkeys : ((o.order (groupCounts xs)).map Prod.fst).Nodup := by
      rw [(hperm.map Prod.fst).nodup_iff, map_fst_groupCounts]
      exact xs.nodup_dedup
    exact hkeys.sublist (hsub.map _)
  · rw [topCounts, List.length_take, hperm.length_eq, groupCounts, List.length_map]
  · exact hsorted.sublist hsub
  · intro k hk hout e he
    -- the key left out stands behind the cut
    have hmem : (k, xs.count k) ∈ o.order (groupCounts xs) :=
      hperm.mem_iff.mpr (mem_groupCounts.mpr ⟨hk, rfl⟩)
    rw [← List.take_append_drop n (o.order (groupCounts xs))] at hmem hsorted
    have hrest := (List.mem_append.mp hmem).resolve_left fun hin =>
      hout (List.mem_map_of_mem hin)
    exact (List.pairwise_append.mp hsorted).2.2 e he _ hrest

/-! ### How much of the list the counts make up -/

/-- The counts of different keys count the elements that are one of them. -/
theorem sum_count_of_nodup {ks : List κ} (hks : ks.Nodup) (xs : List κ) :
    (ks.map fun k => xs.count k).sum = xs.countP (· ∈ ks) := by
  induction ks with
  | nil => simp
  | cons k ks ih =>
      obtain ⟨hk, hks⟩ := List.nodup_cons.mp hks
      rw [List.map_cons, List.sum_cons, ih hks]
      clear ih
      induction xs with
      | nil => rfl
      | cons x xs ih =>
          rw [List.count_cons, List.countP_cons, List.countP_cons, ← ih]
          by_cases hx : x = k
          · subst hx
            simp [hk]
            omega
          · simp [hx]
            omega

section TopCounts

variable {n : ℕ} {xs : List κ} {sel : List (κ × ℕ)}

theorem TopCounts.map_snd (h : TopCounts n xs sel) :
    sel.map Prod.snd = (sel.map Prod.fst).map fun k => xs.count k := by
  rw [List.map_map]
  exact List.map_congr_left fun e he => (h.count e he).2

theorem TopCounts.sum_eq (h : TopCounts n xs sel) :
    (sel.map Prod.snd).sum = xs.countP (· ∈ sel.map Prod.fst) := by
  rw [h.map_snd, sum_count_of_nodup h.nodup]

/-- The keys that are listed are keys of the list, each at most once. -/
theorem TopCounts.subperm (h : TopCounts n xs sel) : (sel.map Prod.fst).Subperm xs.dedup := by
  refine h.nodup.subperm ?_
  intro k hk
  obtain ⟨e, he, rfl⟩ := List.mem_map.mp hk
  exact List.mem_dedup.mpr (h.count e he).1

/-- All keys are listed if they are no more than `n`. -/
theorem TopCounts.mem_of_few (h : TopCounts n xs sel) (hfew : xs.dedup.length ≤ n) {k : κ}
    (hk : k ∈ xs) : k ∈ sel.map Prod.fst := by
  have hlength : xs.dedup.length ≤ (sel.map Prod.fst).length := by
    rw [List.length_map, h.length, min_eq_right hfew]
  exact (h.subperm.perm_of_length_le hlength).mem_iff.mpr (List.mem_dedup.mpr hk)

/-- The counts add up to the list exactly when no key is left out. -/
theorem TopCounts.sum_eq_iff (h : TopCounts n xs sel) :
    (sel.map Prod.snd).sum = xs.length ↔ xs.dedup.length ≤ n := by
  rw [h.sum_eq, List.countP_eq_length]
  constructor
  · intro hall
    have hsub : xs.dedup.Subperm (sel.map Prod.fst) := by
      refine xs.nodup_dedup.subperm ?_
      intro k hk
      exact of_decide_eq_true (hall k (List.mem_dedup.mp hk))
    have hlength := hsub.length_le
    rw [List.length_map, h.length] at hlength
    exact hlength.trans (min_le_left _ _)
  · intro hfew k hk
    exact decide_eq_true (h.mem_of_few hfew hk)

/-- **Frequent keys are listed.** There is no room for `n` others that are as frequent as one that
makes up more than one `n + 1`-th of the list. -/
theorem TopCounts.mem_of_frequent (h : TopCounts n xs sel) {k : κ}
    (hfrequent : xs.length < (n + 1) * xs.count k) : k ∈ sel.map Prod.fst := by
  have hk : k ∈ xs := by
    by_contra hnot
    rw [List.count_eq_zero.mpr hnot, Nat.mul_zero] at hfrequent
    exact Nat.not_lt_zero _ hfrequent
  by_cases hfew : xs.dedup.length ≤ n
  · exact h.mem_of_few hfew hk
  · by_contra hout
    have hlength : sel.length = n := by
      rw [h.length, min_eq_left (not_le.mp hfew).le]
    -- `n` listed keys and `k` itself, each at least as frequent as `k`
    have hlisted : n * xs.count k ≤ (sel.map Prod.snd).sum := by
      have hleast : ∀ c ∈ sel.map Prod.snd, xs.count k ≤ c := by
        intro c hc
        obtain ⟨e, he, rfl⟩ := List.mem_map.mp hc
        exact h.least k hk hout e he
      have hsum := List.card_nsmul_le_sum _ _ hleast
      rwa [List.length_map, hlength, smul_eq_mul] at hsum
    have hall : xs.count k + (sel.map Prod.snd).sum ≤ xs.length := by
      have hsum := sum_count_of_nodup (List.nodup_cons.mpr ⟨hout, h.nodup⟩) xs
      rw [List.map_cons, List.sum_cons, ← h.map_snd] at hsum
      rw [hsum]
      exact List.countP_le_length
    have hmul : (n + 1) * xs.count k = n * xs.count k + xs.count k := Nat.succ_mul _ _
    omega

end TopCounts

end RateGuardian.Lib
