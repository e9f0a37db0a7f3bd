import Mathlib.Data.List.Sort
import Mathlib.Data.List.Nodup

/-!
# RateGuardian.Lib.Latest

**The `n` latest of a list.** `latestFirst key rows` lists rows by a key, the greatest first, as a
query with a descending order does. `Latest key n rows sel` says what it is for: `sel` lists, from
the latest on, as many of `rows` as there are up to `n`, and no row left out is later than one of
them. Where the keys differ, cutting the ordered list after `n` rows gives just that
(`latest_take`), and whether a row is among them is a matter of how many are later
(`mem_take_latestFirst_iff`).
-/

namespace RateGuardian.Lib

variable {α τ : Type*} [LinearOrder τ] {key : α → τ}

/-- `ORDER BY key DESC`; rows with equal keys stay in the order they come in. -/
def latestFirst (key : α → τ) (rows : List α) : List α :=
  rows.insertionSort fun a b => key b ≤ key a

/-- `sel` lists the `n` latest of `rows`, or all of them, from the latest on. -/
structure Latest (key : α → τ) (n : ℕ) (rows sel : List α) : Prop where
  mem : ∀ a ∈ sel, a ∈ rows
  length : sel.length = min n rows.length
  sorted : sel.Pairwise fun a b => key b < key a
  latest : ∀ a ∈ rows, a ∉ sel → ∀ b ∈ sel, key a < key b

theorem latestFirst_perm (key : α → τ) (rows : List α) : (latestFirst key rows).Perm rows :=
  List.perm_insertionSort _ _

theorem pairwise_le_latestFirst (key : α → τ) (rows : List α) :
    (latestFirst key rows).Pairwise fun a b => key b ≤ key a := by
  have htotal : Std.Total fun a b : α => key b ≤ key a := ⟨fun a b => le_total (key b) (key a)⟩
  have htrans : IsTrans α fun a b => key b ≤ key a := ⟨fun _ _ _ hab hbc => le_trans hbc hab⟩
  exact List.pairwise_insertionSort _ _

theorem pairwise_latestFirst {rows : List α} (hkeys : (rows.map key).Nodup) :
    (latestFirst key rows).Pairwise fun a b => key b < key a := by
  have hle := pairwise_le_latestFirst key rows
  have hne : (latestFirst key rows).Pairwise fun a b => key a ≠ key b := by
    have hnodup := ((latestFirst_perm key rows).map key).nodup_iff.mpr hkeys
    exact List.pairwise_map.mp hnodup
  exact (hle.and hne).imp fun h => lt_of_le_of_ne h.1 h.2.symm

/-- Cutting the ordered list after `n` rows leaves the `n` latest. -/
theorem latest_take {rows : List α} (hkeys : (rows.map key).Nodup) (n : ℕ) :
    Latest key n rows ((latestFirst key rows).take n) := by
  have hsorted := pairwise_latestFirst hkeys
  have hperm := latestFirst_perm key rows
  constructor
  · intro a ha
    exact hperm.subset ((List.take_sublist n _).subset ha)
  · rw [List.length_take, hperm.length_eq]
  · exact hsorted.sublist (List.take_sublist n _)
  · intro a ha hout b hb
    -- the row left out stands behind the cut
    have hrest : a ∈ (latestFirst key rows).drop n := by
      have hmem := hperm.mem_iff.mpr ha
      rw [← List.take_append_drop n (latestFirst key rows)] at hmem
      exact (List.mem_append.mp hmem).resolve_left hout
    rw [← List.take_append_drop n (latestFirst key rows)] at hsorted
    exact (List.pairwise_append.mp hsorted).2.2 b hb a hrest

/-- In a descending list a row stands before the cut if fewer than `n` are later. -/
theorem mem_take_iff_of_pairwise {l : List α} (hsorted : l.Pairwise fun a b => key b < key a)
    {a : α} (n : ℕ) (ha : a ∈ l) : a ∈ l.take n ↔ l.countP (fun b => key a < key b) < n := by
  induction l generalizing n with
  | nil => cases ha
  | cons b l ih =>
      obtain ⟨hhead, htail⟩ := List.pairwise_cons.mp hsorted
      cases n with
      | zero => simp
      | succ n =>
          rcases List.mem_cons.mp ha with rfl | hmem
          · -- nothing is later than the first row
            have hnone : (a :: l).countP (fun b => key a < key b) = 0 := by
              refine List.countP_eq_zero.mpr fun b hb => ?_
              rcases List.mem_cons.mp hb with rfl | hb
              · simp
              · simpa using (hhead b hb).le
            simp [hnone]
          · have hlater := hhead a hmem
            have hne : a ≠ b := fun heq => absurd (heq ▸ hlater) (lt_irrefl _)
            rw [List.take_succ_cons, List.mem_cons, List.countP_cons_of_pos (by simpa using hlater)]
            simp [hne, ih htail n hmem]

theorem mem_take_latestFirst_iff {rows : List α} (hkeys : (rows.map key).Nodup) {a : α} (n : ℕ)
    (ha : a ∈ rows) : a ∈ (latestFirst key rows).take n ↔
      rows.countP (fun b => key a < key b) < n := by
  have hperm := latestFirst_perm key rows
  rw [mem_take_iff_of_pairwise (pairwise_latestFirst hkeys) n (hperm.mem_iff.mpr ha),
    hperm.countP_eq]

/-! ### Only the latest rows -/

/-- Rows that are later than some time: ordering them is ordering all and leaving the rest out. -/
theorem latestFirst_filter {rows : List α} (hkeys : (rows.map key).Nodup) (p : α → Bool) :
    latestFirst key (rows.filter p) = (latestFirst key rows).filter p := by
  have hsorted : ((latestFirst key rows).filter p).Pairwise fun a b => key b < key a :=
    (pairwise_latestFirst hkeys).sublist List.filter_sublist
  have hperm : (latestFirst key (rows.filter p)).Perm ((latestFirst key rows).filter p) :=
    (latestFirst_perm key _).trans ((latestFirst_perm key rows).symm.filter p)
  have hkeys' : ((rows.filter p).map key).Nodup := hkeys.sublist (List.filter_sublist.map _)
  refine hperm.eq_of_pairwise ?_ (pairwise_latestFirst hkeys') hsorted
  intro a b _ _ hab hba
  exact absurd hab (lt_asymm hba)

theorem take_filter_of_pairwise {l : List α} (hsorted : l.Pairwise fun a b => key b < key a)
    {p : α → Bool} (hup : ∀ a b, key a ≤ key b → p a = true → p b = true) (n : ℕ) :
    (l.filter p).take n = (l.take n).filter p := by
  induction l generalizing n with
  | nil => simp
  | cons a l ih =>
      obtain ⟨hhead, htail⟩ := List.pairwise_cons.mp hsorted
      cases n with
      | zero => rfl
      | succ n =>
          cases ha : p a with
          | true => rw [List.filter_cons_of_pos ha, List.take_succ_cons, List.take_succ_cons,
              List.filter_cons_of_pos ha, ih htail]
          | false =>
              -- no earlier row is late enough either
              have hnone : ∀ b ∈ a :: l, ¬ p b = true := by
                intro b hb hpb
                rcases List.mem_cons.mp hb with rfl | hb
                · rw [ha] at hpb
                  cases hpb
                · rw [hup b a (hhead b hb).le hpb] at ha
                  cases ha
              rw [List.filter_eq_nil_iff.mpr hnone, List.take_nil, eq_comm,
                List.filter_eq_nil_iff]
              intro b hb
              exact hnone b ((List.take_sublist _ _).subset hb)

/-- **The latest of the later rows** are the later ones of the latest. Where `p` holds of all rows
from some time on, leaving out the others takes rows off the end of the ordered list only, so this
can be done before the cut or after it. -/
theorem take_latestFirst_filter {rows : List α} (hkeys : (rows.map key).Nodup) {p : α → Bool}
    (hup : ∀ a b, key a ≤ key b → p a = true → p b = true) (n : ℕ) :
    (latestFirst key (rows.filter p)).take n = ((latestFirst key rows).take n).filter p := by
  rw [latestFirst_filter hkeys, take_filter_of_pairwise (pairwise_latestFirst hkeys) hup]

end RateGuardian.Lib
