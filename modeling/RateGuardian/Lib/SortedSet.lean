import Mathlib.Data.Prod.Lex
import Mathlib.Data.List.Sort
import Mathlib.Data.List.Perm.Subperm

/-!
# RateGuardian.Lib.SortedSet

**Scored sets**, in the order a sorted-set store keeps them: members are distinct, each has one
score, and the members are listed by score, equal scores by member. The representation carries both
facts, so an ill-ordered or duplicated set cannot be built.

The two operations are those that a log of readings needs: removing the members up to a score, and
adding one. What the proofs use of them are the entries afterwards and their number; a member that
is there already is moved and not added, so the number does not always grow (`card_add_of_mem`).
-/

namespace RateGuardian.Lib

variable {μ τ : Type*} [LinearOrder μ] [LinearOrder τ]

/-- The order of the listing: by score, and equal scores by member. -/
def ScoreLe (a b : μ × τ) : Prop := toLex (a.2, a.1) ≤ toLex (b.2, b.1)

instance : DecidableRel (ScoreLe (μ := μ) (τ := τ)) :=
  fun a b => inferInstanceAs (Decidable (toLex (a.2, a.1) ≤ toLex (b.2, b.1)))

instance : Std.Total (ScoreLe (μ := μ) (τ := τ)) := ⟨fun _ _ => le_total _ _⟩

instance : IsTrans (μ × τ) ScoreLe := ⟨fun _ _ _ hab hbc => le_trans hab hbc⟩

theorem ScoreLe.score_le {a b : μ × τ} (h : ScoreLe a b) : a.2 ≤ b.2 := by
  rcases Prod.Lex.toLex_le_toLex.mp h with h | h
  · exact h.le
  · exact h.1.le

theorem orderedInsert_of_lt {es : List (μ × τ)} {m : μ} {score : τ}
    (h : ∀ e ∈ es, e.2 < score) : es.orderedInsert ScoreLe (m, score) = es ++ [(m, score)] := by
  induction es with
  | nil => rfl
  | cons e rest ih =>
      have hlt : e.2 < score := h e (by simp)
      have hnot : ¬ ScoreLe (m, score) e := fun hle => absurd hle.score_le (not_le.mpr hlt)
      rw [List.orderedInsert_cons, if_neg hnot, ih (fun e' he' => h e' (by simp [he']))]
      rfl

/-- A set of members with scores, in the order in which they are listed. -/
@[ext]
structure SortedSet (μ τ : Type*) [LinearOrder μ] [LinearOrder τ] where
  entries : List (μ × τ)
  /-- The members are listed by score. -/
  sorted : entries.Pairwise ScoreLe
  /-- No member is listed twice, so each has one score. -/
  nodup : (entries.map Prod.fst).Nodup

namespace SortedSet

def empty : SortedSet μ τ := ⟨[], .nil, .nil⟩

def card (z : SortedSet μ τ) : ℕ := z.entries.length

def first (z : SortedSet μ τ) : Option (μ × τ) := z.entries.head?

/-- Remove the members whose score is at most `max`. -/
def removeUpTo (max : τ) (z : SortedSet μ τ) : SortedSet μ τ where
  entries := z.entries.filter (fun e => max < e.2)
  sorted := z.sorted.filter _
  nodup := z.nodup.sublist (List.filter_sublist.map _)

/-- Insert a member with a score, or move it to a new one if it is there already. -/
def add (m : μ) (score : τ) (z : SortedSet μ τ) : SortedSet μ τ where
  entries := (z.entries.filter (fun e => e.1 ≠ m)).orderedInsert ScoreLe (m, score)
  sorted := (z.sorted.filter _).orderedInsert _ _
  nodup := by
    have hperm := (List.perm_orderedInsert ScoreLe (m, score)
      (z.entries.filter (fun e => e.1 ≠ m))).map Prod.fst
    refine hperm.nodup_iff.mpr (List.nodup_cons.mpr ⟨?_, ?_⟩)
    · simp only [List.mem_map, List.mem_filter, decide_eq_true_eq, not_exists, not_and]
      exact fun e he heq => he.2 heq
    · exact z.nodup.sublist (List.filter_sublist.map _)

@[simp] theorem entries_removeUpTo (max : τ) (z : SortedSet μ τ) :
    (z.removeUpTo max).entries = z.entries.filter (fun e => max < e.2) := rfl

theorem mem_removeUpTo {max : τ} {z : SortedSet μ τ} {e : μ × τ} :
    e ∈ (z.removeUpTo max).entries ↔ e ∈ z.entries ∧ max < e.2 := by
  simp

theorem mem_add {m : μ} {score : τ} {z : SortedSet μ τ} {e : μ × τ} :
    e ∈ (z.add m score).entries ↔ e = (m, score) ∨ (e ∈ z.entries ∧ e.1 ≠ m) := by
  simp [add]

theorem entries_add_of_lt {m : μ} {score : τ} {z : SortedSet μ τ}
    (hscore : ∀ e ∈ z.entries, e.2 < score) (hmem : ∀ e ∈ z.entries, e.1 ≠ m) :
    (z.add m score).entries = z.entries ++ [(m, score)] := by
  have hsame : z.entries.filter (fun e => e.1 ≠ m) = z.entries :=
    List.filter_eq_self.mpr (fun e he => by simpa using hmem e he)
  show (z.entries.filter (fun e => e.1 ≠ m)).orderedInsert ScoreLe (m, score) = _
  rw [hsame]
  exact orderedInsert_of_lt hscore

theorem card_eq_zero {z : SortedSet μ τ} : z.card = 0 ↔ z.entries = [] :=
  List.length_eq_zero_iff

theorem mem_of_first {z : SortedSet μ τ} {e : μ × τ} (h : z.first = some e) : e ∈ z.entries :=
  List.mem_of_head? h

theorem first_le {z : SortedSet μ τ} {e e' : μ × τ} (h : z.first = some e)
    (he' : e' ∈ z.entries) : e.2 ≤ e'.2 := by
  have hsorted := z.sorted
  unfold first at h
  cases hz : z.entries with
  | nil => rw [hz] at he'; simp at he'
  | cons a rest =>
      rw [hz] at h he' hsorted
      obtain rfl : a = e := by simpa using h
      rcases List.mem_cons.mp he' with rfl | hmem
      · exact le_rfl
      · exact ((List.pairwise_cons.mp hsorted).1 e' hmem).score_le

theorem nodup_entries (z : SortedSet μ τ) : z.entries.Nodup := z.nodup.of_map _

/-- Distinct entries of the set are counted by its cardinality. -/
theorem length_le_card {z : SortedSet μ τ} {es : List (μ × τ)} (hnd : es.Nodup)
    (hsub : ∀ e ∈ es, e ∈ z.entries) : es.length ≤ z.card :=
  (hnd.subperm hsub).length_le

theorem card_add (m : μ) (score : τ) (z : SortedSet μ τ) :
    (z.add m score).card = z.entries.countP (fun e => ¬ e.1 = m) + 1 := by
  show ((z.entries.filter (fun e => e.1 ≠ m)).orderedInsert ScoreLe (m, score)).length = _
  rw [List.orderedInsert_length, List.countP_eq_length_filter]

theorem card_add_of_notMem {m : μ} {score : τ} {z : SortedSet μ τ}
    (h : ∀ e ∈ z.entries, e.1 ≠ m) : (z.add m score).card = z.card + 1 := by
  rw [card_add, List.countP_eq_length.mpr fun e he => by simpa using h e he, card]

/-- Adding a member that is there already leaves the set as large as it was. -/
theorem card_add_of_mem {m : μ} {score : τ} {z : SortedSet μ τ} (h : ∃ e ∈ z.entries, e.1 = m) :
    (z.add m score).card = z.card := by
  have hone : z.entries.countP (fun e => e.1 = m) = 1 := by
    have hmem : m ∈ z.entries.map Prod.fst := by simpa using h
    rw [← List.count_eq_one_of_mem z.nodup hmem, List.count, List.countP_map]
    exact List.countP_congr fun e _ => by simp
  have hsplit := List.length_eq_countP_add_countP (fun e => decide (e.1 = m)) (l := z.entries)
  simp only [decide_eq_true_eq] at hsplit
  rw [card_add, card]
  omega

theorem removeUpTo_removeUpTo {z : SortedSet μ τ} {max max' : τ} (hle : max ≤ max') :
    ((z.removeUpTo max).removeUpTo max').entries = (z.removeUpTo max').entries := by
  simp only [entries_removeUpTo, List.filter_filter]
  refine List.filter_congr fun e _ => ?_
  simp only [Bool.and_eq_left_iff_imp, decide_eq_true_eq]
  exact fun h => lt_of_le_of_lt hle h

end SortedSet

end RateGuardian.Lib
