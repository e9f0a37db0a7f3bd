import RateGuardian.RuleHistory

/-!
# RateGuardian.RuleChanges

**Rule changes affect only the paths they should.** `match` is a search for the first of the
active rules, in creation order, whose pattern matches. What a write does to its answers is read
off what the write does to the set of rules that cover a path: a creation adds the newest rule, a
deactivation and a deletion remove one, an activation adds one anywhere in the order
(`covering_create`, `covering_without`, `covering_activate`).

`matchFresh` is `match` on a fresh load, as it is after any write.

An answer is determined by the set of rules that cover the path (`MatchCorrect.unique`), so a write
that leaves that set alone leaves the answer alone. Where the set changes by one rule, the place of
that rule in the order decides whether the answer changes, and to what (`NextMatch`).
-/

namespace RateGuardian

open Lib RuleRepository

/-! ### Answers on a fresh load

The cache is out of the picture here; `RuleHistory` has shown that it does not change answers. -/

section Fresh

variable (fnmatch : String → String → Bool) (db : RuleTable)

/-- `match` after the cache has been invalidated. -/
def matchFresh (r : Redis) (now : Time) (path : String) : Option Rule :=
  (RuleRepository.match fnmatch db (invalidateCache r) now path).1

theorem matchFresh_eq_assigned (r : Redis) (now : Time) (path : String) :
    matchFresh fnmatch db r now path = assigned fnmatch db path :=
  (match_spec (cacheSound_invalidateCache db r) now path).1

/-- The rule is in the table, is active and matches the path. -/
def Covering (path : String) (rule : Rule) : Prop := rule ∈ db ∧ Covers fnmatch path rule

/-- The answer is the first in creation order of the rules covering the path that come after
`rule`, or none where there is none. -/
structure NextMatch (path : String) (rule : Rule) (answer : Option Rule) : Prop where
  none_iff : answer = none ↔ ∀ r, Covering fnmatch db path r → ¬ rule.createdAt < r.createdAt
  next : ∀ a, answer = some a → Covering fnmatch db path a ∧ rule.createdAt < a.createdAt ∧
    ∀ r, Covering fnmatch db path r → rule.createdAt < r.createdAt → r ≠ a →
      a.createdAt < r.createdAt

end Fresh

/-- What the schema and the clock guarantee of the table: ids are a primary key, and no two rules
are created at one time. -/
structure DistinctRules (db : RuleTable) : Prop where
  ids : (db.map Rule.id).Nodup
  createdAts : (db.map Rule.createdAt).Nodup

section Answers

variable {fnmatch : String → String → Bool} {db db' : RuleTable} {path : String}
  {answer answer' : Option Rule} {rule a : Rule}

theorem MatchCorrect.covering (h : MatchCorrect fnmatch db path (some a)) :
    Covering fnmatch db path a :=
  ⟨(h.earliest a rfl).mem, (h.earliest a rfl).covers⟩

/-- The answer to a path is determined by the rules that cover it. -/
theorem MatchCorrect.unique (h : MatchCorrect fnmatch db path answer)
    (h' : MatchCorrect fnmatch db path answer') : answer = answer' := by
  cases answer with
  | none => exact (h'.none_iff.mpr (h.none_iff.mp rfl)).symm
  | some a =>
      cases answer' with
      | none => exact absurd h.covering.2 (h'.none_iff.mp rfl a h.covering.1)
      | some b =>
          by_contra hne
          have hab : a ≠ b := fun heq => hne (congrArg some heq)
          have hlt := (h.earliest a rfl).earliest b h'.covering.1 h'.covering.2 hab.symm
          have hgt := (h'.earliest b rfl).earliest a h.covering.1 h.covering.2 hab
          exact absurd (hlt.trans hgt) (lt_irrefl _)

/-- A rule that covers the path and is older than all others that do is the answer. -/
theorem matchCorrect_some (ha : Covering fnmatch db path a)
    (hold : ∀ r, Covering fnmatch db path r → r ≠ a → a.createdAt < r.createdAt) :
    MatchCorrect fnmatch db path (some a) := by
  constructor
  · constructor
    · intro hnone
      cases hnone
    · intro hnone
      exact absurd ha.2 (hnone a ha.1)
  · intro b hb
    obtain rfl := Option.some.inj hb
    exact ⟨ha.1, ha.2, fun r hr hcovers hne => hold r ⟨hr, hcovers⟩ hne⟩

theorem matchCorrect_none (h : ∀ r, ¬ Covering fnmatch db path r) :
    MatchCorrect fnmatch db path none :=
  ⟨iff_of_true rfl fun r hr hcovers => h r ⟨hr, hcovers⟩, nofun⟩

/-- An answer is right for a second table if the same rules cover the path there. -/
theorem MatchCorrect.congr (h : MatchCorrect fnmatch db path answer)
    (hsame : ∀ r, Covering fnmatch db' path r ↔ Covering fnmatch db path r) :
    MatchCorrect fnmatch db' path answer := by
  cases answer with
  | none =>
      apply matchCorrect_none
      intro r hr
      have hcovering := (hsame r).mp hr
      exact h.none_iff.mp rfl r hcovering.1 hcovering.2
  | some a =>
      apply matchCorrect_some ((hsame a).mpr h.covering)
      intro r hr hne
      have hcovering := (hsame r).mp hr
      exact (h.earliest a rfl).earliest r hcovering.1 hcovering.2 hne

/-! ### What a write does to the rules that cover a path -/

theorem covering_create : Covering fnmatch ((Write.create rule).commit db) path a ↔
    Covering fnmatch db path a ∨ a = rule ∧ Covers fnmatch path rule := by
  simp only [Covering, Write.commit, List.mem_append, List.mem_singleton]
  constructor
  · intro h
    obtain ⟨hmem | rfl, hcovers⟩ := h
    · exact Or.inl ⟨hmem, hcovers⟩
    · exact Or.inr ⟨rfl, hcovers⟩
  · intro h
    rcases h with ⟨hmem, hcovers⟩ | ⟨rfl, hcovers⟩
    · exact ⟨Or.inl hmem, hcovers⟩
    · exact ⟨Or.inr rfl, hcovers⟩

/-- Two rules of the table have different ids exactly if they are different rules. -/
theorem DistinctRules.id_ne_iff (hdb : DistinctRules db) (ha : a ∈ db) (hr : rule ∈ db) :
    a.id ≠ rule.id ↔ a ≠ rule := by
  constructor
  · intro hne heq
    exact hne (congrArg Rule.id heq)
  · intro hne heq
    exact hne (List.inj_on_of_nodup_map hdb.ids ha hr heq)

/-- The writes that take the rule `id` out of the search: it is switched off, or deleted. -/
def Removes (id : ℕ) (w : Write) : Prop := w = .setActive id false ∨ w = .delete id

theorem covering_without {w : Write} (hdb : DistinctRules db) (hr : rule ∈ db)
    (hw : Removes rule.id w) :
    Covering fnmatch (w.commit db) path a ↔ Covering fnmatch db path a ∧ a ≠ rule := by
  have hid : ∀ a ∈ db, (a.id ≠ rule.id ↔ a ≠ rule) := fun a ha => hdb.id_ne_iff ha hr
  rcases hw with rfl | rfl
  · simp only [Covering, Write.commit, List.mem_map]
    constructor
    · intro h
      obtain ⟨⟨b, hb, rfl⟩, hcovers⟩ := h
      by_cases hsame : b.id = rule.id
      · -- the row of the rule is not active any more
        rw [if_pos hsame] at hcovers
        cases hcovers.1
      · rw [if_neg hsame] at hcovers ⊢
        exact ⟨⟨hb, hcovers⟩, (hid b hb).mp hsame⟩
    · intro h
      obtain ⟨⟨ha, hcovers⟩, hne⟩ := h
      exact ⟨⟨a, ha, if_neg ((hid a ha).mpr hne)⟩, hcovers⟩
  · simp only [Covering, Write.commit, List.mem_filter, decide_eq_true_eq]
    constructor
    · intro h
      exact ⟨⟨h.1.1, h.2⟩, (hid a h.1.1).mp h.1.2⟩
    · intro h
      exact ⟨⟨h.1.1, (hid a h.1.1).mpr h.2⟩, h.1.2⟩

/-- The row that an activation leaves of a rule, active and otherwise the same. -/
def Rule.activated (rule : Rule) : Rule := { rule with active := true }

theorem covering_activate (hdb : DistinctRules db) (hr : rule ∈ db) :
    Covering fnmatch ((Write.setActive rule.id true).commit db) path a ↔
      Covering fnmatch db path a ∨
        a = rule.activated ∧ fnmatch path rule.pathPattern = true := by
  simp only [Covering, Write.commit, List.mem_map]
  constructor
  · intro h
    obtain ⟨⟨b, hb, rfl⟩, hcovers⟩ := h
    by_cases hsame : b.id = rule.id
    · obtain rfl : b = rule := List.inj_on_of_nodup_map hdb.ids hb hr hsame
      rw [if_pos rfl] at hcovers ⊢
      exact Or.inr ⟨rfl, hcovers.2⟩
    · rw [if_neg hsame] at hcovers ⊢
      exact Or.inl ⟨hb, hcovers⟩
  · intro h
    rcases h with ⟨ha, hcovers⟩ | ⟨rfl, hmatches⟩
    · by_cases hsame : a.id = rule.id
      · obtain rfl : a = rule := List.inj_on_of_nodup_map hdb.ids ha hr hsame
        refine ⟨⟨a, ha, ?_⟩, hcovers⟩
        rw [if_pos rfl, ← hcovers.1]
      · exact ⟨⟨a, ha, if_neg hsame⟩, hcovers⟩
    · exact ⟨⟨rule, hr, if_pos rfl⟩, rfl, hmatches⟩

/-! ### What a write does to an answer -/

theorem MatchCorrect.create (h : MatchCorrect fnmatch db path (some a))
    (hnewest : ∀ r ∈ db, r.createdAt < rule.createdAt) :
    MatchCorrect fnmatch ((Write.create rule).commit db) path (some a) := by
  apply matchCorrect_some (covering_create.mpr (Or.inl h.covering))
  intro r hr hne
  rcases covering_create.mp hr with hold | ⟨rfl, -⟩
  · exact (h.earliest a rfl).earliest r hold.1 hold.2 hne
  · exact hnewest a h.covering.1

section Without

variable {w : Write} (hdb : DistinctRules db) (hr : rule ∈ db) (hw : Removes rule.id w)
include hdb hr hw

theorem MatchCorrect.without (h : MatchCorrect fnmatch db path answer) (hne : answer ≠ some rule) :
    MatchCorrect fnmatch (w.commit db) path answer := by
  cases answer with
  | none =>
      apply matchCorrect_none
      intro r hcovering
      have hold := ((covering_without hdb hr hw).mp hcovering).1
      exact h.none_iff.mp rfl r hold.1 hold.2
  | some a =>
      have ha : a ≠ rule := fun heq => hne (congrArg some heq)
      apply matchCorrect_some ((covering_without hdb hr hw).mpr ⟨h.covering, ha⟩)
      intro r hcovering hra
      have hold := ((covering_without hdb hr hw).mp hcovering).1
      exact (h.earliest a rfl).earliest r hold.1 hold.2 hra

/-- Where the rule that is taken out was the answer, the next one is the answer after it. -/
theorem MatchCorrect.next_of_without (h : MatchCorrect fnmatch db path (some rule))
    (h' : MatchCorrect fnmatch (w.commit db) path answer') :
    NextMatch fnmatch db path rule answer' := by
  -- the others that cover the path are those that come after it
  have hafter : ∀ r, Covering fnmatch (w.commit db) path r ↔
      Covering fnmatch db path r ∧ rule.createdAt < r.createdAt := by
    intro r
    rw [covering_without hdb hr hw]
    constructor
    · intro hc
      exact ⟨hc.1, (h.earliest rule rfl).earliest r hc.1.1 hc.1.2 hc.2⟩
    · intro hc
      refine ⟨hc.1, ?_⟩
      intro heq
      rw [heq] at hc
      exact lt_irrefl _ hc.2
  constructor
  · rw [h'.none_iff]
    constructor
    · intro hnone r hc hlt
      have hleft := (hafter r).mpr ⟨hc, hlt⟩
      exact hnone r hleft.1 hleft.2
    · intro hnone r hmem hcovers
      have hc := (hafter r).mp ⟨hmem, hcovers⟩
      exact hnone r hc.1 hc.2
  · intro a ha
    rw [ha] at h'
    have hc := (hafter a).mp h'.covering
    refine ⟨hc.1, hc.2, ?_⟩
    intro r hrc hlt hne
    have hleft := (hafter r).mpr ⟨hrc, hlt⟩
    exact (h'.earliest a rfl).earliest r hleft.1 hleft.2 hne

end Without

section Activate

variable (hdb : DistinctRules db) (hr : rule ∈ db)
include hdb hr

/-- A rule that does not match the path stays out of the way. -/
theorem MatchCorrect.activate_of_not_match (h : MatchCorrect fnmatch db path answer)
    (hnot : ¬ fnmatch path rule.pathPattern = true) :
    MatchCorrect fnmatch ((Write.setActive rule.id true).commit db) path answer := by
  apply h.congr
  intro r
  rw [covering_activate hdb hr]
  constructor
  · intro hc
    exact hc.resolve_right fun hnew => hnot hnew.2
  · exact Or.inl

/-- A rule that is not older than the answer stays out of the way as well. -/
theorem MatchCorrect.activate_of_le (h : MatchCorrect fnmatch db path (some a))
    (hle : a.createdAt ≤ rule.createdAt) :
    MatchCorrect fnmatch ((Write.setActive rule.id true).commit db) path (some a) := by
  apply matchCorrect_some ((covering_activate hdb hr).mpr (Or.inl h.covering))
  intro r hcovering hne
  rcases (covering_activate hdb hr).mp hcovering with hold | ⟨rfl, -⟩
  · exact (h.earliest a rfl).earliest r hold.1 hold.2 hne
  · refine lt_of_le_of_ne hle ?_
    intro heq
    obtain rfl : a = rule := List.inj_on_of_nodup_map hdb.createdAts h.covering.1 hr heq
    exact hne (by rw [Rule.activated, ← h.covering.2.1])

/-- Switching an active rule off and on again leaves the table as it was. -/
theorem commit_setActive_twice (hactive : rule.active = true) :
    (Write.setActive rule.id true).commit ((Write.setActive rule.id false).commit db) = db := by
  rw [Write.commit, Write.commit, List.map_map]
  conv_rhs => rw [← List.map_id db]
  apply List.map_congr_left
  intro r hmem
  rw [Function.comp_apply, id]
  by_cases hsame : r.id = rule.id
  · obtain rfl : r = rule := List.inj_on_of_nodup_map hdb.ids hmem hr hsame
    simp [← hactive]
  · simp [hsame]

end Activate

/-- The writes that create nothing keep the creation times apart. -/
theorem DistinctRules.createdAts_commit (hdb : DistinctRules db) {w : Write}
    (hw : (RuleCall.write w).creates = none) : ((w.commit db).map Rule.createdAt).Nodup := by
  have hsub := createdAt_commit w db
  rw [hw, Option.toList_none, List.append_nil] at hsub
  exact hdb.createdAts.sublist hsub

theorem DistinctRules.createdAts_create (hdb : DistinctRules db)
    (hnewest : ∀ r ∈ db, r.createdAt < rule.createdAt) :
    (((Write.create rule).commit db).map Rule.createdAt).Nodup := by
  rw [Write.commit, List.map_append, List.map_singleton]
  refine List.nodup_append.mpr ⟨hdb.createdAts, List.nodup_singleton _, ?_⟩
  intro t ht u hu
  obtain ⟨r, hr, rfl⟩ := List.mem_map.mp ht
  rw [List.mem_singleton.mp hu]
  exact (hnewest r hr).ne

/-! ### What each change does to the answer -/

/-- A new rule gives an answer only where there was none. -/
theorem assigned_of_create_ne (hdb : DistinctRules db)
    (hnewest : ∀ r ∈ db, r.createdAt < rule.createdAt)
    (hchanged : assigned fnmatch ((Write.create rule).commit db) path ≠ assigned fnmatch db path) :
    assigned fnmatch db path = none := by
  have hbefore := @matchCorrect_assigned fnmatch db path hdb.createdAts
  have hafter := @matchCorrect_assigned fnmatch _ path (hdb.createdAts_create hnewest)
  cases hans : assigned fnmatch db path with
  | none => rfl
  | some a =>
      have hkept := (hans ▸ hbefore).create hnewest
      exact absurd (hafter.unique (hans ▸ hkept)) hchanged

theorem DistinctRules.createdAts_of_removes (hdb : DistinctRules db) {w : Write}
    (hw : Removes rule.id w) : ((w.commit db).map Rule.createdAt).Nodup := by
  apply hdb.createdAts_commit
  rcases hw with rfl | rfl
  · rfl
  · rfl

section Removed

variable {w : Write} (hdb : DistinctRules db) (hr : rule ∈ db) (hw : Removes rule.id w)
include hdb hr hw

/-- Taking a rule out is noticed only where it was the answer. -/
theorem assigned_of_removes_ne
    (hchanged : assigned fnmatch (w.commit db) path ≠ assigned fnmatch db path) :
    assigned fnmatch db path = some rule := by
  have hbefore := @matchCorrect_assigned fnmatch db path hdb.createdAts
  have hafter := @matchCorrect_assigned fnmatch _ path (hdb.createdAts_of_removes hw)
  by_contra hne
  exact hchanged (hafter.unique (hbefore.without hdb hr hw hne))

theorem nextMatch_of_removes (hans : assigned fnmatch db path = some rule) :
    NextMatch fnmatch db path rule (assigned fnmatch (w.commit db) path) := by
  have hbefore := @matchCorrect_assigned fnmatch db path hdb.createdAts
  have hafter := @matchCorrect_assigned fnmatch _ path (hdb.createdAts_of_removes hw)
  exact MatchCorrect.next_of_without hdb hr hw (hans ▸ hbefore) hafter

end Removed

/-- Activating a rule is noticed only on the paths that it matches, where it is older than the
answer. -/
theorem of_assigned_activate_ne (hdb : DistinctRules db) (hr : rule ∈ db)
    (hchanged : assigned fnmatch ((Write.setActive rule.id true).commit db) path ≠
      assigned fnmatch db path) :
    fnmatch path rule.pathPattern = true ∧
      ∀ a, assigned fnmatch db path = some a → rule.createdAt < a.createdAt := by
  have hbefore := @matchCorrect_assigned fnmatch db path hdb.createdAts
  have hafter := @matchCorrect_assigned fnmatch _ path
    (@DistinctRules.createdAts_commit db hdb (.setActive rule.id true) rfl)
  constructor
  · by_contra hnot
    exact hchanged (hafter.unique (hbefore.activate_of_not_match hdb hr hnot))
  · intro a hans
    by_contra hle
    have hkept := MatchCorrect.activate_of_le hdb hr (hans ▸ hbefore) (not_lt.mp hle)
    exact hchanged (hafter.unique (hans ▸ hkept))

end Answers

/-- **Rule changes affect only the paths they should.** In a table of distinct rules, whatever
`fnmatch` is: a new rule changes the answer only where there was none; taking a rule out changes
it only where the rule was the answer, and there to the next one; activating a rule changes it
only where the rule matches and the answer was none or a newer rule; and switching an active rule
off and on again changes nothing. -/
theorem rule_changes (fnmatch : String → String → Bool) {db : RuleTable} (hdb : DistinctRules db)
    (r r' : Redis) (now now' : Time) :
    (∀ rule, (∀ other ∈ db, other.createdAt < rule.createdAt) → ∀ path,
      matchFresh fnmatch ((Write.create rule).commit db) r' now' path ≠
        matchFresh fnmatch db r now path → matchFresh fnmatch db r now path = none) ∧
    (∀ rule ∈ db, ∀ w, Removes rule.id w → ∀ path,
      (matchFresh fnmatch (w.commit db) r' now' path ≠ matchFresh fnmatch db r now path →
        matchFresh fnmatch db r now path = some rule) ∧
      (matchFresh fnmatch db r now path = some rule →
        NextMatch fnmatch db path rule (matchFresh fnmatch (w.commit db) r' now' path))) ∧
    (∀ rule ∈ db, ∀ path,
      matchFresh fnmatch ((Write.setActive rule.id true).commit db) r' now' path ≠
          matchFresh fnmatch db r now path →
        fnmatch path rule.pathPattern = true ∧
          ∀ a, matchFresh fnmatch db r now path = some a → rule.createdAt < a.createdAt) ∧
    (∀ rule ∈ db, rule.active = true → ∀ path,
      matchFresh fnmatch
          ((Write.setActive rule.id true).commit ((Write.setActive rule.id false).commit db))
          r' now' path =
        matchFresh fnmatch db r now path) := by
  simp only [matchFresh_eq_assigned]
  refine ⟨?_, ?_, ?_, ?_⟩
  · intro rule hnewest path hchanged
    exact assigned_of_create_ne hdb hnewest hchanged
  · intro rule hr w hw path
    exact ⟨assigned_of_removes_ne hdb hr hw, nextMatch_of_removes hdb hr hw⟩
  · intro rule hr path hchanged
    exact of_assigned_activate_ne hdb hr hchanged
  · intro rule hr hactive path
    rw [commit_setActive_twice hdb hr hactive]

/-- Two overlapping rules, of which the older is switched off, deleted, and switched on. -/
def overlapping : RuleTable :=
  [⟨1, "broad", "*", 100, 60, .ip, true, 0⟩, ⟨2, "specific", "/a*", 5, 60, .ip, true, 1⟩]

theorem rule_changes_overlapping :
    matchFresh Lib.fnmatch overlapping .empty 0 "/a" =
        some ⟨1, "broad", "*", 100, 60, .ip, true, 0⟩ ∧
      NextMatch Lib.fnmatch overlapping "/a" ⟨1, "broad", "*", 100, 60, .ip, true, 0⟩
        (matchFresh Lib.fnmatch ((Write.delete 1).commit overlapping) .empty 0 "/a") := by
  have hfirst : matchFresh Lib.fnmatch overlapping .empty 0 "/a" =
      some ⟨1, "broad", "*", 100, 60, .ip, true, 0⟩ := by decide +kernel
  have h := @rule_changes Lib.fnmatch overlapping ⟨by decide, by decide +kernel⟩ .empty .empty 0 0
  exact ⟨hfirst, (h.2.1 ⟨1, "broad", "*", 100, 60, .ip, true, 0⟩ (by decide +kernel) (.delete 1)
    (Or.inr rfl) "/a").2 hfirst⟩

end RateGuardian
