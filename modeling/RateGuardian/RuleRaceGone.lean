import RateGuardian.RuleRace

/-!
# RateGuardian.RuleRaceGone

**A rule that was deleted, in a race.** Requests that overlap need not be explained by any order,
but one thing holds whatever the order of their statements (`race_deleted_for_good`): once a
`DELETE` was answered 204, no row has the id of its rule again, and a request that begins then does
not come across the rule, even if others that found it before are still at work.

The argument is about ids. A row gets its id at its `INSERT`, from a sequence that never goes back,
so an id that was given and that no row has, seen or not, is `Gone` for good. The other half is what
each request knows of its own rule (`RaceKnown`), since a 204 has to mean that rule and no other.
-/

namespace RateGuardian

open Lib RuleRepository

/-- The rule that the path of a request names. -/
def RuleRequest.target : RuleRequest → Option ℤ
  | .post _ | .list => none
  | .toggle id | .delete id => some id

/-- The id was given to a rule, and no row has it, committed or not. -/
def Gone (t : RuleRows) (id : ℤ) : Prop :=
  ∃ n : ℕ, id = n ∧ n < t.nextId ∧ getById t.rows n = none

/-- What a request is at a point, whatever others do. -/
def RaceKnown (asked : Option RuleRequest) (d : RuleDatabase) : RacePoint → Prop
  | .checking body | .inserting body _ | .inserted body _ _ => asked = some (.post body)
  | .created _ => ∃ body, asked = some (.post body)
  | .listing => asked = some .list
  | .toggling id => asked = some (.toggle id)
  | .deleting id => asked = some (.delete id)
  | .toToggle rule => asked = some (.toggle rule.id)
  | .toggled id => asked = some (.toggle id)
  | .toDelete rule => asked = some (.delete rule.id) ∧ rule.id < d.table.nextId
  | .deleted id => asked = some (.delete id) ∧ Gone d.table id
  | .answered answer => ∀ id, asked = some (.delete id) → answer = .noContent → Gone d.table id
  | .notBegun | .raised | .brokenOff => True

/-- A request that begins when the rule is gone learns nothing of it. -/
def Spared (asked : Option RuleRequest) (id : ℤ) : RacePoint → Prop
  | .inserted _ _ n | .created n | .toggled n | .deleted n => (n : ℤ) ≠ id
  | .toToggle rule | .toDelete rule => (rule.id : ℤ) ≠ id
  | .answered answer => answer.Without id ∧
      (asked = some (.toggle id) ∨ asked = some (.delete id) →
        answer = .notFound (RuleApi.notFoundDetail id))
  | _ => True

section Gone

variable {asked : Option RuleRequest} {d d' : RuleDatabase} {id : ℤ} {p : RacePoint} {now : Time}

theorem nextId_le_statement (now : Time) (d : RuleDatabase) (p : RacePoint) :
    d.table.nextId ≤ (p.statement now d).2.table.nextId := by
  rcases p.statement_database now d with heq | ⟨_, _, _, _, heq⟩ | ⟨_, _, _, _, heq⟩ |
    ⟨_, _, _, heq⟩ | ⟨_, _, heq⟩
  · rw [heq]
  · rw [heq]
    exact Nat.le_succ _
  · rw [heq]
    exact le_rfl
  · rw [heq]
    exact le_rfl
  · rw [heq]
    exact le_rfl

/-- Nothing but an `INSERT` makes a row, and its id is new. -/
theorem Gone.statement (h : Gone d.table id) (now : Time) (p : RacePoint) :
    Gone (p.statement now d).2.table id := by
  obtain ⟨n, rfl, hlt, hnone⟩ := h
  refine ⟨n, rfl, hlt.trans_le (nextId_le_statement now d p), ?_⟩
  rcases p.statement_database now d with heq | ⟨_, checked, _, _, heq⟩ | ⟨_, _, _, _, heq⟩ |
    ⟨rule, _, _, heq⟩ | ⟨rule, _, heq⟩
  · rwa [heq]
  · rw [heq]
    -- The new row has the next id, and the rule had an earlier one.
    refine (getById_commit_of_ne (w := .create (createRule checked d.table.nextId now)) ?_).trans
      hnone
    exact hlt.ne'
  · rwa [heq]
  · rw [heq]
    exact (getById_setActive rule.id _).trans (by rw [hnone]; rfl)
  · rw [heq]
    refine List.find?_eq_none.mpr ?_
    intro r hr
    exact List.find?_eq_none.mp hnone r (List.mem_filter.mp hr).1

theorem gone_of_delete {rule : Rule} (hlt : rule.id < d.table.nextId) :
    Gone (d.delete rule.id).table rule.id := by
  refine ⟨rule.id, rfl, hlt, List.find?_eq_none.mpr ?_⟩
  intro r hr
  simpa using (List.mem_filter.mp hr).2

theorem Gone.notMem (h : Gone d.table id) {r : Rule} (hr : r ∈ d.table.rows) : (r.id : ℤ) ≠ id := by
  rintro rfl
  obtain ⟨n, hn, -, hnone⟩ := h
  obtain rfl : r.id = n := Int.ofNat.inj hn
  rw [d.table.getById_eq_some_iff.mpr ⟨hr, rfl⟩] at hnone
  cases hnone

/-- What `get_by_id` finds under a path parameter is a row of the table. -/
theorem found_by_getRule {rule : Rule} (h : RuleApi.getRule d.visible id = some rule) :
    id = rule.id ∧ rule ∈ d.table.rows := by
  obtain ⟨hid, hget⟩ := RuleApi.getRule_eq_some h
  exact ⟨hid, (d.mem_visible.mp (d.visible.getById_eq_some_iff.mp hget).1).1⟩

/-! ### What a request knows of its rule -/

/-- Others make statements. -/
theorem RaceKnown.mono (h : RaceKnown asked d p) (now : Time) (q : RacePoint) :
    RaceKnown asked (q.statement now d).2 p := by
  cases p with
  | toDelete rule => exact ⟨h.1, h.2.trans_le (nextId_le_statement now d q)⟩
  | deleted id => exact ⟨h.1, h.2.statement now q⟩
  | answered answer =>
      exact fun id hasked hanswer => (h id hasked hanswer).statement now q
  | _ => exact h

/-- A request that is no `DELETE`, or was not answered 204, says nothing of the kind. -/
theorem known_answered {request : RuleRequest} {answer : ApiAnswer} (hasked : asked = some request)
    (h : ∀ id, request = .delete id → answer ≠ .noContent) :
    RaceKnown asked d (.answered answer) := by
  intro id hdelete hanswer
  exact absurd hanswer (h id (Option.some.inj (hasked.symm.trans hdelete)))

/-- The step lemma of `RaceKnown`, for the request itself. -/
theorem RaceKnown.statement (h : RaceKnown asked d p) (now : Time) :
    RaceKnown asked (p.statement now d).2 (p.statement now d).1 := by
  cases p with
  | checking body =>
      rw [RacePoint.statement]
      split
      · exact known_answered h fun _ h => by cases h
      · exact h
  | inserting body checked =>
      rw [RacePoint.statement]
      split
      · exact h
      · exact known_answered h fun _ h => by cases h
  | inserted body made n => exact ⟨body, h⟩
  | created n =>
      obtain ⟨body, hasked⟩ := h
      exact known_answered hasked fun _ h => by cases h
  | listing => exact known_answered h fun _ h => by cases h
  | toggling id =>
      rw [RacePoint.statement]
      cases hrule : RuleApi.getRule d.visible id with
      | none => exact known_answered h fun _ h => by cases h
      | some rule =>
          obtain ⟨rfl, -⟩ := found_by_getRule hrule
          exact h
  | deleting id =>
      rw [RacePoint.statement]
      cases hrule : RuleApi.getRule d.visible id with
      | none => exact known_answered h fun _ _ h => by cases h
      | some rule =>
          obtain ⟨rfl, hmem⟩ := found_by_getRule hrule
          exact ⟨h, (d.table.id_range rule hmem).2⟩
  | toToggle rule =>
      rw [RacePoint.statement]
      split
      · exact known_answered h fun _ h => by cases h
      · exact h
  | toggled n => exact known_answered h fun _ h => by cases h
  | toDelete rule => exact ⟨h.1, gone_of_delete h.2⟩
  | deleted n =>
      obtain ⟨hasked, hgone⟩ := h
      intro id hdelete _
      obtain rfl : (n : ℤ) = id :=
        RuleRequest.delete.inj (Option.some.inj (hasked.symm.trans hdelete))
      exact hgone
  | _ => exact h

/-! ### What a new request learns -/

/-- The answer of a request for something else. -/
theorem spared_answered {request : RuleRequest} {answer : ApiAnswer} (hasked : asked = some request)
    (htarget : request.target ≠ some id) (hwithout : answer.Without id) :
    Spared asked id (.answered answer) := by
  subst hasked
  refine ⟨hwithout, ?_⟩
  rintro (heq | heq)
  · exact absurd (congrArg RuleRequest.target (Option.some.inj heq)) htarget
  · exact absurd (congrArg RuleRequest.target (Option.some.inj heq)) htarget

/-- What is loaded again is not the rule that is gone. -/
theorem without_reread {t : RuleRows} {n : ℕ} (hn : (n : ℤ) ≠ id) {answer : Rule → ApiAnswer}
    (hanswer : ∀ rule : Rule, (rule.id : ℤ) ≠ id → (answer rule).Without id) :
    (reread t n answer).Without id := by
  rw [reread]
  split
  · next rule hget =>
    refine hanswer rule ?_
    rwa [id_of_getById hget]
  · trivial

/-- **A rule that is gone** is not found, listed or made again. -/
theorem Spared.statement (h : Spared asked id p) (hgone : Gone d.table id)
    (hknown : RaceKnown asked d p) (now : Time) : Spared asked id (p.statement now d).1 := by
  cases p with
  | checking body =>
      rw [RacePoint.statement]
      split
      · exact spared_answered hknown (Option.some_ne_none id).symm trivial
      · trivial
  | inserting body checked =>
      rw [RacePoint.statement]
      split
      · obtain ⟨n, rfl, hlt, -⟩ := hgone
        exact fun heq => hlt.ne' (Int.ofNat.inj heq)
      · exact spared_answered hknown (Option.some_ne_none id).symm trivial
  | inserted body made n => exact h
  | created n =>
      obtain ⟨body, hasked⟩ := hknown
      exact spared_answered hasked (Option.some_ne_none id).symm
        (without_reread h fun _ hne => hne)
  | listing =>
      refine spared_answered hknown (Option.some_ne_none id).symm ?_
      intro r hr
      have hmem := (latestFirst_perm Rule.createdAt d.visible.rows).mem_iff.mp hr
      exact hgone.notMem (d.mem_visible.mp hmem).1
  | toggling other =>
      rw [RacePoint.statement]
      cases hrule : RuleApi.getRule d.visible other with
      | some rule => exact hgone.notMem (found_by_getRule hrule).2
      | none =>
          refine ⟨trivial, ?_⟩
          obtain rfl : asked = some (.toggle other) := hknown
          rintro (heq | heq)
          · rw [RuleRequest.toggle.inj (Option.some.inj heq)]
          · cases heq
  | deleting other =>
      rw [RacePoint.statement]
      cases hrule : RuleApi.getRule d.visible other with
      | some rule => exact hgone.notMem (found_by_getRule hrule).2
      | none =>
          refine ⟨trivial, ?_⟩
          obtain rfl : asked = some (.delete other) := hknown
          rintro (heq | heq)
          · cases heq
          · rw [RuleRequest.delete.inj (Option.some.inj heq)]
  | toToggle rule =>
      rw [RacePoint.statement]
      split
      · exact spared_answered hknown (fun heq => h (Option.some.inj heq)) trivial
      · exact h
  | toggled n =>
      exact spared_answered hknown (fun heq => h (Option.some.inj heq))
        (without_reread h fun _ hne => hne)
  | toDelete rule => exact h
  | deleted n =>
      exact spared_answered hknown.1 (fun heq => h (Option.some.inj heq)) trivial
  | _ => exact h

end Gone

/-! ### Runs -/

section GoneRuns

variable {s s' : RaceState} {e : RaceEvent}

/-- Every request stands at a point that fits what it was asked for. -/
def AllKnown (s : RaceState) : Prop := ∀ i, RaceKnown (s.asked i) s.db (s.point i)

theorem AllKnown.step (h : AllKnown s) (hstep : RaceStep s e s') : AllKnown s' := by
  intro j
  rcases hstep.atRequest j with ⟨now, q, hd, ha, hp⟩ | ⟨request, -, ha, hp⟩ | ⟨now, hd, ha, hp⟩ |
    ⟨-, hp | hp⟩
  · rw [hd, ha, hp]
    exact (h j).mono now q
  · rw [ha, hp]
    cases request <;> exact rfl
  · rw [hd, ha, hp]
    exact (h j).statement now
  · rw [hp]
    trivial
  · rw [hp]
    trivial

theorem Gone.step {id : ℤ} (h : Gone s.db.table id) (hstep : RaceStep s e s') :
    Gone s'.db.table id := by
  cases hstep with
  | begins i request hi => exact h
  | statement i now hi => exact h.statement now _
  | raises i hi => exact h
  | breaksOff i hi => exact h

/-- A request that has not begun, or began when the rule was gone, stays clear of the rule. -/
theorem Spared.step {id : ℤ} {j : ℕ} (h : Spared (s.asked j) id (s.point j))
    (hgone : Gone s.db.table id) (hknown : AllKnown s) (hstep : RaceStep s e s') :
    Spared (s'.asked j) id (s'.point j) := by
  rcases hstep.atRequest j with ⟨-, -, -, ha, hp⟩ | ⟨request, -, ha, hp⟩ | ⟨now, -, ha, hp⟩ |
    ⟨-, hp | hp⟩
  · rw [ha, hp]
    exact h
  · rw [hp]
    cases request <;> trivial
  · rw [ha, hp]
    exact h.statement hgone (hknown j) now
  · rw [hp]
    trivial
  · rw [hp]
    trivial

/-- **Deleted for good, also in a race.** In every interleaving of the statements of any requests,
once a `DELETE` of a rule was answered 204: no row has the id of the rule any more, and every
request that begins then is answered as if the rule had never been, 404 if it names the rule,
whatever other requests for it are still under way. Only a request of which a statement raises is
answered 500 instead. -/
theorem race_deleted_for_good {t : RuleRows} {m s : RaceState}
    {tr tr' : List (Transition RaceState RaceEvent)} (h : Run RaceStep (.initial t) tr m)
    (h' : Run RaceStep m tr' s) {i : ℕ} {id : ℤ} (hasked : m.asked i = some (.delete id))
    (hanswered : m.point i = .answered .noContent) :
    (∀ r ∈ s.db.table.rows, (r.id : ℤ) ≠ id) ∧
    ∀ j, m.point j = .notBegun → ∀ answer, s.point j = .answered answer →
      answer.Without id ∧
      (s.asked j = some (.toggle id) ∨ s.asked j = some (.delete id) →
        answer = .notFound (RuleApi.notFoundDetail id)) := by
  have hknown : AllKnown m := h.invariant (I := fun _ s => AllKnown s) (fun _ => trivial)
    fun _ _ _ _ _ ih hstep => ih.step hstep
  have hgone : Gone m.db.table id := by
    have hi := hknown i
    rw [hanswered] at hi
    exact hi id hasked rfl
  -- From `m` on, nobody brings the rule back, and the new requests do not come across it.
  have hall : AllKnown s ∧ Gone s.db.table id ∧
      ∀ j, m.point j = .notBegun → Spared (s.asked j) id (s.point j) := by
    refine h'.invariant (I := fun _ s => AllKnown s ∧ Gone s.db.table id ∧
      ∀ j, m.point j = .notBegun → Spared (s.asked j) id (s.point j)) ⟨hknown, hgone, ?_⟩ ?_
    · intro j hj
      rw [hj]
      trivial
    · rintro _ _ _ _ - ⟨hknown, hgone, hspared⟩ hstep
      exact ⟨hknown.step hstep, hgone.step hstep,
        fun j hj => (hspared j hj).step hgone hknown hstep⟩
  obtain ⟨-, hgone, hspared⟩ := hall
  refine ⟨fun r hr => hgone.notMem hr, ?_⟩
  intro j hj answer hanswer
  have hj := hspared j hj
  rwa [hanswer] at hj

/-- Rule 1 is deleted while another `DELETE` of it is under way. A toggle that begins then is
answered 404. -/
theorem race_deleted_for_good_two : ∃ s : RaceState, s.asked 2 = some (.toggle 1) ∧
    (∀ r ∈ s.db.table.rows, (r.id : ℤ) ≠ 1) ∧
    ∃ answer, s.point 2 = .answered answer ∧ answer = .notFound (RuleApi.notFoundDetail 1) := by
  have hrun : ∃ tr m tr' s answer, Run RaceStep (.initial twoRules) tr m ∧ Run RaceStep m tr' s ∧
      m.point 0 = .answered .noContent ∧ m.asked 0 = some (.delete 1) ∧ m.point 2 = .notBegun ∧
      s.asked 2 = some (.toggle 1) ∧ s.point 2 = .answered answer := by
    refine ⟨_, _, _, _, _, .snoc (.snoc (.snoc (.snoc (.snoc (.snoc .nil
      (.begins 0 (.delete 1) rfl)) (.begins 1 (.delete 1) rfl)) (.statement 0 0 rfl))
      (.statement 1 0 rfl)) (.statement 0 0 rfl)) (.statement 0 0 rfl),
      .snoc (.snoc (.snoc .nil (.statement 1 0 rfl)) (.begins 2 (.toggle 1) rfl))
      (.statement 2 0 rfl), rfl, rfl, rfl, rfl, rfl⟩
  obtain ⟨tr, m, tr', s, answer, hrun, hrun', hdeleted, hasked, hnew, htoggle, hanswer⟩ := hrun
  obtain ⟨hrows, hanswers⟩ := race_deleted_for_good hrun hrun' hasked hdeleted
  exact ⟨s, htoggle, hrows, answer, hanswer, (hanswers 2 hnew answer hanswer).2 (Or.inl htoggle)⟩

end GoneRuns

end RateGuardian
