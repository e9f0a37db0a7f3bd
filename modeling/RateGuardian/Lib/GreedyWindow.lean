import RateGuardian.Lib.Window

/-!
# RateGuardian.Lib.GreedyWindow

**First come, first served under a windowed bound.** `greedy w k ts` is what is selected
from the calls `ts` when each is taken in turn, and selected exactly if fewer than `k` of the
calls selected so far still count. No choice is ever reconsidered, and still:

* a larger bound selects everything a smaller one selects, although the extra calls it selects
  count against the later ones (`greedy_ahead`);
* no selection within the bound is ahead of it at any time (`countP_le_countP_greedy`).

Both are inductions over the calls whose invariant speaks of every threshold at once: for
the first one every later reading, for the second every earlier point of the run.
-/

namespace RateGuardian.Lib

variable {τ : Type*} [AddCommGroup τ] [LinearOrder τ] {w : τ} {k k' : ℕ}

/-- The calls selected from `ts`, in turn, while fewer than `k` selected ones still count. -/
def greedy (w : τ) (k : ℕ) (ts : List τ) : List τ :=
  ts.foldl (fun sel t => if (counted t w sel).length < k then sel ++ [t] else sel) []

@[simp] theorem greedy_nil : greedy w k [] = [] := rfl

theorem greedy_concat (ts : List τ) (t : τ) : greedy w k (ts ++ [t]) =
    greedy w k ts ++ if (counted t w (greedy w k ts)).length < k then [t] else [] := by
  rw [greedy, List.foldl_append, ← greedy, List.foldl_cons, List.foldl_nil]
  split <;> simp

/-- Later calls do not change what was selected before them, since no choice is reconsidered. -/
theorem greedy_append (ts us : List τ) :
    ∃ rest, greedy w k (ts ++ us) = greedy w k ts ++ rest ∧ rest.Sublist us := by
  induction us using List.reverseRecOn with
  | nil => exact ⟨[], by simp, .slnil⟩
  | append_singleton us t ih =>
      obtain ⟨rest, hrest, hsub⟩ := ih
      rw [← List.append_assoc, greedy_concat, hrest, List.append_assoc]
      refine ⟨_, rfl, hsub.append ?_⟩
      split
      · exact List.Sublist.refl _
      · exact List.nil_sublist _

theorem greedy_sublist (ts : List τ) : (greedy w k ts).Sublist ts := by
  obtain ⟨rest, hrest, hsub⟩ := greedy_append (w := w) (k := k) [] ts
  rw [List.nil_append, greedy_nil, List.nil_append] at hrest
  rwa [hrest]

/-- The members of a prefix that a whole run selects are those the prefix alone selects. -/
theorem filter_mem_greedy_perm {ts us : List τ} (hnd : (ts ++ us).Nodup) :
    (ts.filter (· ∈ greedy w k (ts ++ us))).Perm (greedy w k ts) := by
  obtain ⟨rest, hrest, hsub⟩ := greedy_append (w := w) (k := k) ts us
  obtain ⟨hts, -, hdisj⟩ := List.nodup_append.mp hnd
  rw [List.perm_ext_iff_of_nodup (hts.filter _) (hts.sublist (greedy_sublist ts)), hrest]
  intro t
  simp only [List.mem_filter, List.mem_append, decide_eq_true_eq]
  constructor
  · rintro ⟨ht, ht' | ht'⟩
    · exact ht'
    · exact absurd rfl (hdisj t ht t (hsub.subset ht'))
  · intro ht
    exact ⟨(greedy_sublist ts).subset ht, Or.inl ht⟩

/-! ### A larger bound -/

/-- A list loses at least as much as any of its sublists when the test gets stricter. -/
theorem countP_add_le_of_sublist {α : Type*} {as bs : List α} {p q : α → Bool}
    (h : as.Sublist bs) (hpq : ∀ x, p x = true → q x = true) :
    bs.countP p + as.countP q ≤ bs.countP q + as.countP p := by
  induction h with
  | slnil => simp
  | cons a _ ih =>
      have ha : p a = true → q a = true := hpq a
      simp only [List.countP_cons]
      split_ifs <;> grind
  | cons_cons a _ ih =>
      simp only [List.countP_cons]
      omega

variable [IsOrderedAddMonoid τ]

theorem length_counted_add_le {as bs : List τ} (h : as.Sublist bs) {t now : τ} (hle : t ≤ now) :
    (counted now w bs).length + (counted t w as).length ≤
      (counted t w bs).length + (counted now w as).length := by
  simp only [counted, ← List.countP_eq_length_filter]
  refine countP_add_le_of_sublist h fun x hx => ?_
  simp only [decide_eq_true_eq] at hx ⊢
  exact lt_of_le_of_lt (sub_le_sub_right hle w) hx

/-- **A larger bound selects more**, call for call. What carries the induction is what it is
ahead by: at every later reading at most `k' - k` of its extra calls count. -/
theorem greedy_ahead (hk : k ≤ k') {ts : List τ} (hts : ts.Pairwise (· ≤ ·)) :
    (greedy w k ts).Sublist (greedy w k' ts) ∧
      ∀ now, (∀ t ∈ ts, t ≤ now) → (counted now w (greedy w k' ts)).length ≤
        (counted now w (greedy w k ts)).length + (k' - k) := by
  induction ts using List.reverseRecOn with
  | nil => simp [counted]
  | append_singleton ts t ih =>
      obtain ⟨hpre, -, hlast⟩ := List.pairwise_append.mp hts
      obtain ⟨hsub, hexcess⟩ := ih hpre
      have hexcess_t := hexcess t fun u hu => hlast u hu t (by simp)
      rw [greedy_concat, greedy_concat]
      by_cases hin : (counted t w (greedy w k ts)).length < k
      · -- selected under both bounds
        have hin' : (counted t w (greedy w k' ts)).length < k' := by omega
        rw [if_pos hin, if_pos hin']
        refine ⟨hsub.append_right [t], fun now hnow => ?_⟩
        have hold := hexcess now fun u hu => hnow u (List.mem_append_left _ hu)
        simp only [counted_append, List.length_append]
        omega
      · rw [if_neg hin, List.append_nil]
        by_cases hin' : (counted t w (greedy w k' ts)).length < k'
        · -- an extra call of the larger bound: the calls it is ahead by were fewer at `t`
          rw [if_pos hin']
          refine ⟨hsub.trans (List.sublist_append_left _ _), fun now hnow => ?_⟩
          have hgain := length_counted_add_le (w := w) hsub (hnow t (by simp))
          have hone : (counted now w [t]).length ≤ 1 := List.length_filter_le _ _
          simp only [counted_append, List.length_append]
          omega
        · rw [if_neg hin', List.append_nil]
          exact ⟨hsub, fun now hnow => hexcess now fun u hu => hnow u (List.mem_append_left _ hu)⟩

/-! ### Greedy stays ahead -/

omit [IsOrderedAddMonoid τ] in
/-- What was selected by now: the calls that no longer count, and those that do. -/
theorem length_eq_countP_add_counted (now : τ) (ts : List τ) :
    ts.length = ts.countP (fun t => t ≤ now - w) + (counted now w ts).length := by
  rw [counted, ← List.countP_eq_length_filter,
    List.length_eq_countP_add_countP (fun t => decide (t ≤ now - w))]
  simp

/-- The last call of a selection within the bound found fewer than `k` that still count. -/
theorem length_counted_lt_of_windowBounded {sel : List τ} {t : τ} (hw : 0 < w)
    (hsel : ∀ u ∈ sel, u ≤ t) (h : WindowBounded w k (sel ++ [t])) :
    (counted t w sel).length < k := by
  have hbound := (h (t - w)).2
  have hself : t - w < t := sub_lt_self t hw
  have hcongr : sel.countP (fun u => t - w < u ∧ u ≤ t - w + w) = (counted t w sel).length := by
    rw [counted, ← List.countP_eq_length_filter]
    refine List.countP_congr fun u hu => ?_
    simp [hsel u hu]
  rw [List.countP_append, hcongr] at hbound
  simp [hself] at hbound
  omega

/-- **No selection within the bound is ahead of the greedy one.** At every point `c` of the
run it has selected at most as many of the calls up to `c`. -/
theorem countP_le_countP_greedy (hw : 0 < w) {ts sel : List τ} (hts : ts.Pairwise (· < ·))
    (hsel : sel.Sublist ts) (hbound : WindowBounded w k sel) (c : τ) :
    sel.countP (fun t => t ≤ c) ≤ (greedy w k ts).countP (fun t => t ≤ c) := by
  induction ts using List.reverseRecOn generalizing sel c with
  | nil => simp [List.sublist_nil.mp hsel]
  | append_singleton ts t ih =>
      obtain ⟨hpre, -, hlast⟩ := List.pairwise_append.mp hts
      have hlt : ∀ u ∈ ts, u < t := fun u hu => hlast u hu t (by simp)
      obtain ⟨sel, last, rfl, hsub, hlast⟩ := List.sublist_append_iff.mp hsel
      have hih := ih hpre hsub (hbound.sublist (List.sublist_append_left _ _))
      rw [greedy_concat, List.countP_append, List.countP_append]
      by_cases hskip : last.countP (fun u => u ≤ c) = 0
      · -- the selection leaves `t` out, or `t` comes after `c`
        have := hih c
        omega
      obtain rfl : last = [t] := by
        rcases List.sublist_singleton.mp hlast with rfl | rfl
        · simp at hskip
        · rfl
      have htc : t ≤ c := by simpa using hskip
      by_cases hin : (counted t w (greedy w k ts)).length < k
      · rw [if_pos hin]
        exact Nat.add_le_add_right (hih c) _
      · -- greedy passes `t` over: it is level before `t - w`, and has `k` calls since then
        have hroom := length_counted_lt_of_windowBounded hw
          (fun u hu => (hlt u (hsub.subset hu)).le) hbound
        have hlevel := hih (t - w)
        have hall : (greedy w k ts).countP (fun u => u ≤ c) = (greedy w k ts).length := by
          refine List.countP_eq_length.mpr fun u hu => ?_
          have hle : u ≤ c := (hlt u ((greedy_sublist ts).subset hu)).le.trans htc
          exact decide_eq_true hle
        have hselected := length_eq_countP_add_counted (w := w) t sel
        have hgreedy := length_eq_countP_add_counted (w := w) t (greedy w k ts)
        have hsome : sel.countP (fun u => u ≤ c) ≤ sel.length := List.countP_le_length
        have hone : [t].countP (fun u => u ≤ c) ≤ 1 := List.countP_le_length
        rw [hall]
        omega

theorem length_le_length_greedy (hw : 0 < w) {ts sel : List τ} (hts : ts.Pairwise (· < ·))
    (hsel : sel.Sublist ts) (hbound : WindowBounded w k sel) :
    sel.length ≤ (greedy w k ts).length := by
  cases ts using List.reverseRecOn with
  | nil => simp [List.sublist_nil.mp hsel]
  | append_singleton init last =>
      have hle : ∀ t ∈ init ++ [last], t ≤ last := by
        intro t ht
        rcases List.mem_append.mp ht with ht | ht
        · exact ((List.pairwise_append.mp hts).2.2 t ht last (by simp)).le
        · exact (List.mem_singleton.mp ht).le
      have hall : ∀ us : List τ, us.Sublist (init ++ [last]) →
          us.countP (fun t => t ≤ last) = us.length := fun us hus =>
        List.countP_eq_length.mpr fun t ht => decide_eq_true (hle t (hus.subset ht))
      have hahead := countP_le_countP_greedy hw hts hsel hbound last
      rwa [hall _ hsel, hall _ (greedy_sublist _)] at hahead

end RateGuardian.Lib
