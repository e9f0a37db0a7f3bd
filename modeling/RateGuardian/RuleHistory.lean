import RateGuardian.Lib.Fnmatch
import RateGuardian.RuleQuota

/-!
# RateGuardian.RuleHistory

**Matching over a sequential history.** Rules are created, switched, deleted and matched one call
after another, from an empty table and an empty cache, and the cache key expires whenever it likes.

`EarliestMatch` says which rule a path deserves, from the table alone. The cache is sound
(`CacheSound`) after every call, so `match_over_history` gives that rule to every `match`, whether
it reads the cache or the table.

A write and its invalidation are one call here, with no `match` in between. What happens when they
come apart is in `RuleCache` and `RuleStaleness`.
-/

namespace RateGuardian

open Lib RuleRepository

/-! ### What a match should find -/

section Spec

variable (fnmatch : String → String → Bool) (db : RuleTable) (path : String)

/-- The rule is active and its pattern matches the path. -/
def Covers (rule : Rule) : Prop := rule.active = true ∧ fnmatch path rule.pathPattern = true

/-- The rule of the table that covers the path and was created before all others that do. -/
structure EarliestMatch (rule : Rule) : Prop where
  mem : rule ∈ db
  covers : Covers fnmatch path rule
  earliest : ∀ rule' ∈ db, Covers fnmatch path rule' → rule' ≠ rule →
    rule.createdAt < rule'.createdAt

/-- The answer is no rule where none covers the path, and else the earliest one that does. -/
structure MatchCorrect (answer : Option Rule) : Prop where
  none_iff : answer = none ↔ ∀ rule ∈ db, ¬ Covers fnmatch path rule
  earliest : ∀ rule, answer = some rule → EarliestMatch fnmatch db path rule

end Spec

section Assigned

variable {fnmatch : String → String → Bool} {db : RuleTable} {path : String}

theorem mem_activeRules {rule : Rule} :
    rule ∈ activeRules db ↔ rule ∈ db ∧ rule.active = true := by
  rw [activeRules, List.mem_insertionSort, List.mem_filter]

theorem pairwise_activeRules (db : RuleTable) :
    (activeRules db).Pairwise fun a b => a.createdAt ≤ b.createdAt := by
  have htotal : Std.Total fun a b : Rule => a.createdAt ≤ b.createdAt :=
    ⟨fun a b => le_total a.createdAt b.createdAt⟩
  have htrans : IsTrans Rule fun a b => a.createdAt ≤ b.createdAt :=
    ⟨fun _ _ _ hab hbc => le_trans hab hbc⟩
  exact List.pairwise_insertionSort _ _

theorem assigned_eq_none :
    assigned fnmatch db path = none ↔ ∀ rule ∈ db, ¬ Covers fnmatch path rule := by
  simp only [assigned, firstMatch, List.find?_eq_none, mem_activeRules, Covers, Bool.and_eq_true]
  constructor
  · intro h rule hmem hcovers
    exact h rule ⟨hmem, hcovers.1⟩ hcovers
  · intro h rule hmem
    exact h rule hmem.1

/-- The first match in creation order is the earliest rule that covers the path, where no two
creation times are equal. -/
theorem earliestMatch_of_assigned (hnodup : (db.map Rule.createdAt).Nodup) {rule : Rule}
    (h : assigned fnmatch db path = some rule) : EarliestMatch fnmatch db path rule := by
  obtain ⟨hcovers, before, after, happend, hbefore⟩ := List.find?_eq_some_iff_append.mp h
  rw [Bool.and_eq_true] at hcovers
  have hmem : rule ∈ db := by
    refine (mem_activeRules.mp ?_).1
    rw [happend]
    exact List.mem_append_right _ List.mem_cons_self
  refine ⟨hmem, hcovers, ?_⟩
  intro rule' hmem' hcovers' hne
  have hsorted := pairwise_activeRules db
  have hin : rule' ∈ activeRules db := mem_activeRules.mpr ⟨hmem', hcovers'.1⟩
  rw [happend] at hsorted hin
  -- it does not stand before the first match, so it stands after it
  have hle : rule.createdAt ≤ rule'.createdAt := by
    rcases List.mem_append.mp hin with hin | hin
    · have hnot := hbefore rule' hin
      rw [hcovers'.1, hcovers'.2] at hnot
      cases hnot
    · have hafter : rule' ∈ after := (List.mem_cons.mp hin).resolve_left hne
      exact List.rel_of_pairwise_cons (List.pairwise_append.mp hsorted).2.1 hafter
  refine lt_of_le_of_ne hle ?_
  intro heq
  exact hne (List.inj_on_of_nodup_map hnodup hmem hmem' heq).symm

theorem matchCorrect_assigned (hnodup : (db.map Rule.createdAt).Nodup) :
    MatchCorrect fnmatch db path (assigned fnmatch db path) :=
  ⟨assigned_eq_none, fun _ h => earliestMatch_of_assigned hnodup h⟩

end Assigned

/-! ### Histories

The creation times of a history are those of its `create` calls, whether or not the rules are still
there; the theorem asks that these differ. -/

structure RuleStore where
  db : RuleTable
  redis : Redis

namespace RuleStore

def empty : RuleStore := ⟨[], .empty⟩

end RuleStore

inductive RuleCall
  /-- `create`, `set_active` or `delete`. -/
  | write (w : Write)
  /-- `match`, with the clock reading of the Redis server. -/
  | find (path : String) (now : Time)
  /-- The cache key expires. -/
  | expire
  deriving DecidableEq

/-- One call, and the answer of a `match`. -/
def ruleCall (fnmatch : String → String → Bool) (s : RuleStore) :
    RuleCall → Option (Option Rule) × RuleStore
  | .write w => (none, ⟨w.commit s.db, invalidateCache s.redis⟩)
  | .find path now =>
      let (rule, redis) := RuleRepository.match fnmatch s.db s.redis now path
      (some rule, ⟨s.db, redis⟩)
  | .expire => (none, ⟨s.db, invalidateCache s.redis⟩)

/-- When the call creates a rule, the `created_at` of it. -/
def RuleCall.creates : RuleCall → Option Time
  | .write (.create rule) => some rule.createdAt
  | _ => none

section Histories

variable {fnmatch : String → String → Bool}

theorem cacheSound_invalidateCache (db : RuleTable) (r : Redis) :
    CacheSound db (invalidateCache r) := by
  intro now payload hget
  rw [loadFromCache_invalidateCache] at hget
  cases hget

/-- The step lemma for the cache: it is sound for the table after every call. -/
theorem cacheSound_ruleCall {s : RuleStore} (h : CacheSound s.db s.redis) (c : RuleCall) :
    CacheSound (ruleCall fnmatch s c).2.db (ruleCall fnmatch s c).2.redis := by
  cases c with
  | write w => exact cacheSound_invalidateCache _ _
  | find path now => exact (@match_spec fnmatch _ _ h now path).2.1
  | expire => exact cacheSound_invalidateCache _ _

theorem createdAt_commit (w : Write) (db : RuleTable) :
    ((w.commit db).map Rule.createdAt).Sublist
      (db.map Rule.createdAt ++ (RuleCall.write w).creates.toList) := by
  cases w with
  | create rule =>
      rw [Write.commit, List.map_append]
      exact List.Sublist.refl _
  | setActive id active =>
      have hsame : (Write.commit (.setActive id active) db).map Rule.createdAt =
          db.map Rule.createdAt := by
        rw [Write.commit, List.map_map]
        refine List.map_congr_left ?_
        intro rule _
        rw [Function.comp_apply]
        split <;> rfl
      rw [hsame]
      exact List.sublist_append_left _ _
  | delete id =>
      exact (List.filter_sublist.map _).trans (List.sublist_append_left _ _)

/-- The step lemma for the creation times: those of the rows after a call are among those before it
and the one that the call brings. -/
theorem createdAt_ruleCall (s : RuleStore) (c : RuleCall) :
    ((ruleCall fnmatch s c).2.db.map Rule.createdAt).Sublist
      (s.db.map Rule.createdAt ++ c.creates.toList) := by
  cases c with
  | write w => exact createdAt_commit w s.db
  | find path now => exact List.sublist_append_left _ _
  | expire => exact List.sublist_append_left _ _

/-- The run lemma: the cache is sound, and the rows are rows that were created. -/
theorem history_sound (calls : List RuleCall) :
    CacheSound (final (ruleCall fnmatch) .empty calls).db
        (final (ruleCall fnmatch) .empty calls).redis ∧
      ((final (ruleCall fnmatch) .empty calls).db.map Rule.createdAt).Sublist
        (calls.filterMap RuleCall.creates) := by
  induction calls using List.reverseRecOn with
  | nil => exact ⟨cacheSound_empty, List.Sublist.refl _⟩
  | append_singleton calls c ih =>
      obtain ⟨hsound, hcreated⟩ := ih
      rw [final_concat, List.filterMap_append]
      refine ⟨cacheSound_ruleCall hsound c, (createdAt_ruleCall _ c).trans ?_⟩
      refine hcreated.append ?_
      cases hc : c.creates <;> simp [hc]

/-- **Matching is right over every history.** Where the creation times of the rules differ, each
`match` answers with the earliest-created rule of the current table that covers the path, and with
no rule where none does. -/
theorem match_over_history (fnmatch : String → String → Bool) (calls : List RuleCall)
    (hdistinct : (calls.filterMap RuleCall.creates).Nodup) :
    ∀ t ∈ trace (ruleCall fnmatch) .empty calls, ∀ path now answer,
      t.label = (.find path now, some answer) → MatchCorrect fnmatch t.pre.db path answer := by
  intro t ht path now answer hlabel
  obtain ⟨before, c, after, rfl, rfl⟩ := exists_of_mem_trace _ _ ht
  obtain ⟨hsound, hcreated⟩ := @history_sound fnmatch before
  obtain ⟨rfl, hanswer⟩ := Prod.mk.inj hlabel
  have hans : (RuleRepository.match fnmatch _ _ now path).1 = answer := Option.some.inj hanswer
  rw [(match_spec hsound now path).1] at hans
  rw [← hans]
  rw [List.filterMap_append] at hdistinct
  exact matchCorrect_assigned (hdistinct.of_append_left.sublist hcreated)

/-- Two rules cover a path; the earlier one is switched off and on again. -/
def switchedHistory : List RuleCall :=
  [.write (.create ⟨1, "all", "*", 10, 60, .ip, true, 0⟩), .find "/a" 1,
    .write (.create ⟨2, "a", "/a*", 5, 60, .ip, true, 2⟩), .find "/a" 3, .find "/a" 4,
    .write (.setActive 1 false), .find "/a" 5, .find "/b" 6, .expire, .find "/b" 7,
    .write (.setActive 1 true), .find "/b" 8, .write (.delete 1), .find "/b" 9]

theorem match_over_history_switched :
    (trace (ruleCall Lib.fnmatch) .empty switchedHistory).filterMap (fun t =>
        t.label.2.map fun answer => answer.map Rule.id) =
      [some 1, some 1, some 1, some 2, none, none, some 1, none] ∧
    ∀ t ∈ trace (ruleCall Lib.fnmatch) .empty switchedHistory, ∀ path now answer,
      t.label = (.find path now, some answer) → MatchCorrect Lib.fnmatch t.pre.db path answer :=
  ⟨by decide +kernel, match_over_history Lib.fnmatch switchedHistory (by decide +kernel)⟩

end Histories

end RateGuardian
