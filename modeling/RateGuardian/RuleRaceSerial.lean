import RateGuardian.RuleRace
import RateGuardian.Lib.Serial

/-!
# RateGuardian.RuleRaceSerial

**Requests at the same time, as if one after another.** Each request to `/rules` that gets so far
has one step at which it takes effect: the one that commits what it writes, or finds that there is
nothing to write. `race_is_serial` puts the requests in the order of these steps. The routes called
one after another in that order leave the same rows and give the same answers.

No order explains two things that can happen at the same time, and the theorem excludes them:

* two requests are at statements on one rule (`overlapping_deletes`);
* a `POST` inserts its row while the row of another is not committed. If the later one commits
  first, a `GET` in between lists the rule with the higher id alone (`overlapping_posts`).

A `POST` that ends between its `INSERT` and its `COMMIT` has used up an id. In the order it stands
as a failed `POST`, which does this and no more.
-/

namespace RateGuardian

open Lib RuleRepository

/-! ### One after another

What the interleaved requests are compared with, and the order in which they are put: a step has an
effect or none (`raceEffect`), and the requests stand in the order of the steps that have one. -/

inductive SerialCall
  | call (c : ApiCall)
  /-- A `POST` that fails after its `INSERT`. -/
  | failedPost (body : RuleBody)

/-- The request that a call of the serial server stands for. -/
def SerialCall.request : SerialCall → Option RuleRequest
  | .call c => c.request
  | .failedPost body => some (.post body)

/-- The routes on a server that nobody else uses. -/
def serialCall (fnmatch : String → String → Bool) (s : RuleServer) :
    SerialCall → ApiAnswer × RuleServer
  | .call c => RuleApi.call fnmatch s c
  | .failedPost _ => (.serverError, { s with table := s.table.skipId })

/-- The call that a request amounts to, at the statement where it takes effect: where it commits, or
finds that there is nothing to write. -/
def RacePoint.effect (now : Time) (d : RuleDatabase) : RacePoint → Option ApiCall
  | .checking body =>
      match body.validate with
      | .error _ => some (.create body now)
      | .ok _ => none
  | .inserting body checked => if Storable checked then none else some (.create body now)
  | .inserted body made _ => some (.create body made)
  | .listing => some .list
  | .toggling id => if RuleApi.getRule d.visible id = none then some (.toggle id) else none
  | .toToggle rule => if getById d.visible.rows rule.id = none then none else some (.toggle rule.id)
  | .deleting id => if RuleApi.getRule d.visible id = none then some (.delete id) else none
  | .toDelete rule => if getById d.visible.rows rule.id = none then none else some (.delete rule.id)
  | _ => none

/-- What a request amounts to that ends early. -/
def RacePoint.lost : RacePoint → Option SerialCall
  | .inserted body _ _ => some (.failedPost body)
  | _ => none

/-- The request that takes effect in a step, and as which call. -/
def raceEffect (t : Transition RaceState RaceEvent) : Option (ℕ × SerialCall) :=
  match t.label with
  | .begins .. => none
  | .statement i now => ((t.pre.point i).effect now t.pre.db).map fun c => (i, .call c)
  | .raises i | .breaksOff i => (t.pre.point i).lost.map (Prod.mk i)

/-- No two requests are at statements on one rule, and nobody inserts while the row of another is
not committed. -/
structure RaceState.Apart (s : RaceState) (e : RaceEvent) : Prop where
  rows : ∀ i j id, (s.point i).holds = some id → (s.point j).holds = some id → i = j
  inserts : ∀ i now body checked, e = .statement i now → s.point i = .inserting body checked →
    ∀ j, (s.point j).pending = none

/-! ### What a request has in hand

Between two statements a session holds a row, an id or an answer that it has not given yet. What is
known of these is said for each point (`RacePointOk`), by the rows that are seen now and by the
requests that have taken effect. It has to hold while others take effect, and that is where the
condition of the theorem comes in: they are at statements on other rules. -/

abbrev RaceHistory := List (ℕ × SerialCall × ApiAnswer)

/-- The request has not taken effect. -/
def RaceHistory.Without (hist : RaceHistory) (i : ℕ) : Prop := i ∉ hist.map Prod.fst

/-- The request has taken effect, with this answer. -/
def RaceHistory.Has (hist : RaceHistory) (i : ℕ) (answer : ApiAnswer) : Prop :=
  ∃ c, (i, .call c, answer) ∈ hist

/-- The row is inserted and not committed. With its `COMMIT` it will be the last one that is seen,
as if it were inserted then. -/
structure Pending (d : RuleDatabase) (id : ℕ) (rule : Rule) : Prop where
  id_eq : rule.id = id
  mem : id ∈ d.uncommitted
  rows : (d.commit id).visible.rows = d.visible.rows ++ [rule]

/-- What is known of a request at a point. `hist` are the requests that have taken effect, with the
answers that the routes give them one after another. -/
def RacePointOk (asked : Option RuleRequest) (d : RuleDatabase) (hist : RaceHistory) (i : ℕ) :
    RacePoint → Prop
  | .notBegun => hist.Without i
  | .checking body => hist.Without i ∧ asked = some (.post body)
  | .inserting body checked =>
      hist.Without i ∧ asked = some (.post body) ∧ body.validate = .ok checked
  | .inserted body now id =>
      hist.Without i ∧ asked = some (.post body) ∧
        ∃ checked, body.validate = .ok checked ∧ Storable checked ∧
          Pending d id (createRule checked id now)
  | .listing => hist.Without i ∧ asked = some .list
  | .toggling id => hist.Without i ∧ asked = some (.toggle id)
  | .deleting id => hist.Without i ∧ asked = some (.delete id)
  | .toToggle rule =>
      hist.Without i ∧ asked = some (.toggle rule.id) ∧ getById d.visible.rows rule.id = some rule
  | .toDelete rule =>
      hist.Without i ∧ asked = some (.delete rule.id) ∧ getById d.visible.rows rule.id = some rule
  -- The row is still the one of the answer.
  | .created id => ∃ rule, getById d.visible.rows id = some rule ∧ hist.Has i (.created rule)
  | .toggled id => ∃ rule, getById d.visible.rows id = some rule ∧ hist.Has i (.ok rule)
  | .deleted _ => hist.Has i .noContent
  | .answered answer => hist.Has i answer
  | .raised | .brokenOff => True

section Statement

variable {fnmatch : String → String → Bool} {asked : Option RuleRequest} {d d' : RuleDatabase}
  {hist more : RaceHistory} {i : ℕ} {p : RacePoint} {now : Time} {id : ℕ} {rule : Rule}

theorem RaceHistory.Without.append (h : hist.Without i) (hmore : ∀ e ∈ more, e.1 ≠ i) :
    RaceHistory.Without (hist ++ more) i := by
  intro hi
  obtain ⟨e, he, rfl⟩ := List.mem_map.mp hi
  rcases List.mem_append.mp he with he | he
  · exact h (List.mem_map_of_mem he)
  · exact hmore e he rfl

theorem RaceHistory.Has.append {answer : ApiAnswer} (h : hist.Has i answer) :
    RaceHistory.Has (hist ++ more) i answer :=
  h.imp fun _ hc => List.mem_append_left _ hc

theorem RaceHistory.has_concat (c : ApiCall) (answer : ApiAnswer) :
    RaceHistory.Has (hist ++ [(i, .call c, answer)]) i answer :=
  ⟨c, List.mem_append_right _ (List.mem_singleton_self _)⟩

theorem Pending.setActive (h : Pending d id rule) {other : ℕ} (hne : rule.id ≠ other)
    (active : Bool) : Pending (d.setActive other active) id rule := by
  refine ⟨h.id_eq, h.mem, ?_⟩
  have hlast : (Write.setActive other active).commit [rule] = [rule] := by
    rw [Write.commit, List.map_singleton, if_neg hne]
  calc
    ((d.setActive other active).commit id).visible.rows
      = (Write.setActive other active).commit (d.commit id).visible.rows :=
        (d.commit id).visible_setActive other active
    _ = (Write.setActive other active).commit d.visible.rows ++ [rule] := by
        rw [h.rows, Write.commit, List.map_append]
        exact congrArg _ hlast
    _ = (d.setActive other active).visible.rows ++ [rule] := by rw [d.visible_setActive]

theorem Pending.delete (h : Pending d id rule) {other : ℕ} (hne : rule.id ≠ other) :
    Pending (d.delete other) id rule := by
  refine ⟨h.id_eq, h.mem, ?_⟩
  have hlast : (Write.delete other).commit [rule] = [rule] := by
    simp [Write.commit, hne]
  calc
    ((d.delete other).commit id).visible.rows
      = (Write.delete other).commit (d.commit id).visible.rows :=
        (d.commit id).visible_delete other
    _ = (Write.delete other).commit d.visible.rows ++ [rule] := by
        rw [h.rows, Write.commit, List.filter_append]
        exact congrArg _ hlast
    _ = (d.delete other).visible.rows ++ [rule] := by rw [d.visible_delete]

/-- Others take effect. They leave the row of the request alone, or the row that it has inserted
pending. -/
theorem RacePointOk.mono (h : RacePointOk asked d hist i p)
    (hrow : ∀ id rule, p.holds = some id → getById d.visible.rows id = some rule →
      getById d'.visible.rows id = some rule)
    (hpending : ∀ id rule, p.pending = some id → Pending d id rule → Pending d' id rule)
    (hmore : ∀ e ∈ more, e.1 ≠ i) : RacePointOk asked d' (hist ++ more) i p := by
  cases p with
  | notBegun => exact RaceHistory.Without.append h hmore
  | checking body => exact ⟨h.1.append hmore, h.2⟩
  | inserting body checked => exact ⟨h.1.append hmore, h.2⟩
  | inserted body now id =>
      obtain ⟨hwithout, hasked, checked, hvalid, hstorable, hrule⟩ := h
      exact ⟨hwithout.append hmore, hasked, checked, hvalid, hstorable, hpending _ _ rfl hrule⟩
  | listing => exact ⟨h.1.append hmore, h.2⟩
  | toggling id => exact ⟨h.1.append hmore, h.2⟩
  | deleting id => exact ⟨h.1.append hmore, h.2⟩
  | toToggle rule => exact ⟨h.1.append hmore, h.2.1, hrow _ _ rfl h.2.2⟩
  | toDelete rule => exact ⟨h.1.append hmore, h.2.1, hrow _ _ rfl h.2.2⟩
  | created id =>
      obtain ⟨rule, hrule, hhas⟩ := h
      exact ⟨rule, hrow _ _ rfl hrule, hhas.append⟩
  | toggled id =>
      obtain ⟨rule, hrule, hhas⟩ := h
      exact ⟨rule, hrow _ _ rfl hrule, hhas.append⟩
  | deleted id => exact RaceHistory.Has.append h
  | answered answer => exact RaceHistory.Has.append h
  | raised => trivial
  | brokenOff => trivial

theorem reread_of_getById {t : RuleRows} (h : getById t.rows id = some rule)
    (answer : Rule → ApiAnswer) : reread t id answer = answer rule := by
  rw [reread, h]

/-- A statement leaves all rows that are seen alone, but the one that the request holds. -/
theorem getById_statement (hid : p.holds ≠ some id)
    (hrule : getById d.visible.rows id = some rule) :
    getById (p.statement now d).2.visible.rows id = some rule := by
  rcases p.statement_database now d with heq | ⟨body, checked, -, -, heq⟩ |
    ⟨body, made, n, -, heq⟩ | ⟨found, rfl, -, heq⟩ | ⟨found, rfl, heq⟩
  · rwa [heq]
  · rwa [heq, d.visible_insert]
  · -- One more row is seen, and the others still are.
    obtain ⟨hmem, hruleId⟩ := d.visible.getById_eq_some_iff.mp hrule
    obtain ⟨hrows, hcommitted⟩ := d.mem_visible.mp hmem
    rw [heq, RuleRows.getById_eq_some_iff, RuleDatabase.mem_visible]
    exact ⟨⟨hrows, fun h => hcommitted (Finset.mem_of_mem_erase h)⟩, hruleId⟩
  · have hne : found.id ≠ id := fun h => hid (congrArg some h)
    rw [heq, d.visible_setActive]
    exact (getById_commit_of_ne (w := .setActive found.id _) hne).trans hrule
  · have hne : found.id ≠ id := fun h => hid (congrArg some h)
    rw [heq, d.visible_delete]
    exact (getById_commit_of_ne (w := .delete found.id) hne).trans hrule

/-- Nor does it touch a row that another request has inserted, if it inserts or commits none of its
own. -/
theorem Pending.statement (h : Pending d id rule) (hok : RacePointOk asked d hist i p)
    (hinsert : ∀ body checked, p ≠ .inserting body checked) (hpending : p.pending = none)
    (now : Time) : Pending (p.statement now d).2 id rule := by
  have hne : ∀ {found : Rule}, (getById d.visible.rows found.id).isSome → rule.id ≠ found.id := by
    intro found hfound heq
    obtain ⟨r, hr⟩ := Option.isSome_iff_exists.mp hfound
    exact d.notMem_uncommitted hr (heq ▸ h.id_eq ▸ h.mem)
  rcases p.statement_database now d with heq | ⟨body, checked, rfl, -⟩ | ⟨body, made, n, rfl, -⟩ |
    ⟨found, -, hfound, heq⟩ | ⟨found, rfl, heq⟩
  · rwa [heq]
  · exact absurd rfl (hinsert body checked)
  · cases hpending
  · rw [heq]
    exact h.setActive (hne hfound) _
  · rw [heq]
    exact h.delete (hne (Option.isSome_of_mem hok.2.2))

/-- A statement without effect that inserts nothing: the checks are passed, or the request finds its
row, or loads it again. -/
theorem RacePointOk.silent (h : RacePointOk asked d hist i p)
    (hinsert : ∀ body checked, p ≠ .inserting body checked) (heffect : p.effect now d = none) :
    (p.statement now d).2 = d ∧ RacePointOk asked d hist i (p.statement now d).1 := by
  cases p with
  | checking body =>
      rw [RacePoint.statement]
      cases hvalid : body.validate with
      | error errors => simp [RacePoint.effect, hvalid] at heffect
      | ok checked => exact ⟨rfl, h.1, h.2, hvalid⟩
  | inserting body checked => exact absurd rfl (hinsert body checked)
  | inserted body made id => cases heffect
  | listing => cases heffect
  | created id =>
      obtain ⟨rule, hrule, hhas⟩ := h
      refine ⟨rfl, ?_⟩
      rw [RacePoint.statement, reread_of_getById hrule]
      exact hhas
  | toggled id =>
      obtain ⟨rule, hrule, hhas⟩ := h
      refine ⟨rfl, ?_⟩
      rw [RacePoint.statement, reread_of_getById hrule]
      exact hhas
  | toggling id =>
      rw [RacePoint.statement]
      cases hrule : RuleApi.getRule d.visible id with
      | none => simp [RacePoint.effect, hrule] at heffect
      | some rule =>
          obtain ⟨rfl, hget⟩ := RuleApi.getRule_eq_some hrule
          exact ⟨rfl, h.1, h.2, hget⟩
  | deleting id =>
      rw [RacePoint.statement]
      cases hrule : RuleApi.getRule d.visible id with
      | none => simp [RacePoint.effect, hrule] at heffect
      | some rule =>
          obtain ⟨rfl, hget⟩ := RuleApi.getRule_eq_some hrule
          exact ⟨rfl, h.1, h.2, hget⟩
  -- The row that was found is there, so the write has an effect.
  | toToggle rule => simp [RacePoint.effect, h.2.2] at heffect
  | toDelete rule => simp [RacePoint.effect, h.2.2] at heffect
  | deleted id => exact ⟨rfl, h⟩
  | notBegun => exact ⟨rfl, h⟩
  | answered answer => exact ⟨rfl, h⟩
  | raised => exact ⟨rfl, h⟩
  | brokenOff => exact ⟨rfl, h⟩

/-- The `INSERT`: nothing that is seen changes, and the new row is pending. -/
theorem RacePointOk.inserted {body : RuleBody} {checked : RuleCreate}
    (h : RacePointOk asked d hist i (.inserting body checked)) (hstorable : Storable checked)
    (now : Time) : RacePointOk asked (d.insert checked now) hist i
      (.inserted body now d.table.nextId) := by
  obtain ⟨hwithout, hasked, hvalid⟩ := h
  refine ⟨hwithout, hasked, checked, hvalid, hstorable, rfl, Finset.mem_insert_self _ _, ?_⟩
  rw [d.visible_insert, d.visible_commit_insert]

/-- **The `COMMIT`** makes the rule that `create_rule` makes at once, if the id is the next one
there. -/
theorem RacePointOk.committed {body : RuleBody} {made : Time} {t : RuleRows}
    (h : RacePointOk asked d hist i (.inserted body made t.nextId))
    (hrows : t.rows = d.visible.rows) (redis : Redis) :
    asked = some (.post body) ∧
      (RuleApi.call fnmatch ⟨t, redis⟩ (.create body made)).2.table.rows =
        (d.commit t.nextId).visible.rows ∧
      (RuleApi.call fnmatch ⟨t, redis⟩ (.create body made)).2.table.nextId = t.nextId + 1 ∧
      RacePointOk asked (d.commit t.nextId) (hist ++ [(i, .call (.create body made),
        (RuleApi.call fnmatch ⟨t, redis⟩ (.create body made)).1)]) i (.created t.nextId) := by
  obtain ⟨-, hasked, checked, hvalid, hstorable, hpending⟩ := h
  have hcall : RuleApi.call fnmatch ⟨t, redis⟩ (.create body made) =
      (.created (createRule checked t.nextId made),
        ⟨t.insert checked made, invalidateCache redis⟩) := by
    rw [RuleApi.call, RuleApi.createRule, hvalid]
    exact if_pos hstorable
  rw [hcall]
  refine ⟨hasked, ?_, rfl, createRule checked t.nextId made, ?_, RaceHistory.has_concat _ _⟩
  · rw [hpending.rows, ← hrows]
    rfl
  · rw [RuleRows.getById_eq_some_iff, hpending.rows]
    exact ⟨List.mem_append_right _ (List.mem_singleton_self _), rfl⟩

/-- **Any other statement with effect** does what the route does at once, and the request will
answer what the route answers. -/
theorem RacePointOk.effective (h : RacePointOk asked d hist i p) (hpending : p.pending = none)
    {c : ApiCall} (heffect : p.effect now d = some c) {t : RuleRows}
    (hrows : t.rows = d.visible.rows) (redis : Redis) :
    hist.Without i ∧ asked = c.request ∧
      (RuleApi.call fnmatch ⟨t, redis⟩ c).2.table.rows = (p.statement now d).2.visible.rows ∧
      (RuleApi.call fnmatch ⟨t, redis⟩ c).2.table.nextId = t.nextId ∧
      RacePointOk asked (p.statement now d).2
        (hist ++ [(i, .call c, (RuleApi.call fnmatch ⟨t, redis⟩ c).1)]) i
        (p.statement now d).1 := by
  have hgetRule : ∀ id, RuleApi.getRule t id = RuleApi.getRule d.visible id :=
    RuleApi.getRule_congr hrows
  cases p with
  | checking body =>
      cases hvalid : body.validate with
      | ok checked => simp [RacePoint.effect, hvalid] at heffect
      | error errors =>
          obtain rfl : ApiCall.create body now = c := by
            simpa [RacePoint.effect, hvalid] using heffect
          refine ⟨h.1, h.2, ?_⟩
          rw [RuleApi.call, RuleApi.createRule, RacePoint.statement, hvalid]
          exact ⟨hrows, rfl, RaceHistory.has_concat _ _⟩
  | inserting body checked =>
      obtain ⟨hwithout, hasked, hvalid⟩ := h
      by_cases hstorable : Storable checked
      · simp [RacePoint.effect, hstorable] at heffect
      · obtain rfl : ApiCall.create body now = c := by
          simpa [RacePoint.effect, hstorable] using heffect
        refine ⟨hwithout, hasked, ?_⟩
        rw [RuleApi.call, RuleApi.createRule, hvalid, RacePoint.statement, if_neg hstorable]
        dsimp only
        rw [if_neg hstorable]
        exact ⟨hrows, rfl, RaceHistory.has_concat _ _⟩
  | inserted body made id => cases hpending
  | listing =>
      obtain rfl : ApiCall.list = c := Option.some.inj heffect
      refine ⟨h.1, h.2, hrows, rfl, ?_⟩
      rw [RuleApi.call, RuleApi.listRules, hrows]
      exact RaceHistory.has_concat _ _
  | toggling id =>
      cases hrule : RuleApi.getRule d.visible id with
      | some rule => simp [RacePoint.effect, hrule] at heffect
      | none =>
          obtain rfl : ApiCall.toggle id = c := by simpa [RacePoint.effect, hrule] using heffect
          refine ⟨h.1, h.2, ?_⟩
          rw [RuleApi.call, RuleApi.toggleRule, hgetRule, RacePoint.statement, hrule]
          exact ⟨hrows, rfl, RaceHistory.has_concat _ _⟩
  | deleting id =>
      cases hrule : RuleApi.getRule d.visible id with
      | some rule => simp [RacePoint.effect, hrule] at heffect
      | none =>
          obtain rfl : ApiCall.delete id = c := by simpa [RacePoint.effect, hrule] using heffect
          refine ⟨h.1, h.2, ?_⟩
          rw [RuleApi.call, RuleApi.deleteRule, hgetRule, RacePoint.statement, hrule]
          exact ⟨hrows, rfl, RaceHistory.has_concat _ _⟩
  | toToggle rule =>
      obtain ⟨hwithout, hasked, hget⟩ := h
      obtain rfl : ApiCall.toggle rule.id = c := by simpa [RacePoint.effect, hget] using heffect
      have hfound : RuleApi.getRule t rule.id = some rule := (hgetRule _).trans hget
      refine ⟨hwithout, hasked, ?_⟩
      rw [RuleApi.call, RuleApi.toggleRule, RacePoint.statement, hfound, hget]
      refine ⟨?_, rfl, { rule with active := !rule.active }, ?_, RaceHistory.has_concat _ _⟩
      · rw [d.visible_setActive, ← hrows]
        rfl
      -- The flag that is written is the negation of the one in the table.
      · rw [d.visible_setActive, getById_setActive, hget]
        simp
  | toDelete rule =>
      obtain ⟨hwithout, hasked, hget⟩ := h
      obtain rfl : ApiCall.delete rule.id = c := by simpa [RacePoint.effect, hget] using heffect
      have hfound : RuleApi.getRule t rule.id = some rule := (hgetRule _).trans hget
      refine ⟨hwithout, hasked, ?_⟩
      rw [RuleApi.call, RuleApi.deleteRule, RacePoint.statement, hfound]
      refine ⟨?_, rfl, RaceHistory.has_concat _ _⟩
      rw [d.visible_delete, ← hrows]
      rfl
  | created id => cases heffect
  | toggled id => cases heffect
  | deleted id => cases heffect
  | notBegun => cases heffect
  | answered answer => cases heffect
  | raised => cases heffect
  | brokenOff => cases heffect

end Statement

/-! ### Runs

The invariant ties three things together: the rows that are seen are those of the server that was
asked one by one, every request stands where it can stand after the order so far, and the two
sequences of ids are the same, or one `POST` has taken an id ahead of its turn. The step lemma is
put together of the lemmas for the five kinds of steps: a statement without effect, an `INSERT`, a
statement with effect, and an early end with an uncommitted row or without. -/

/-- Where the sequence stands, and where it stands on a server that is asked one by one. They differ
by one while a `POST` has inserted its row and not committed it. -/
inductive Sequence (next : ℕ) (s : RaceState) : Prop
  | atRest (hnone : ∀ i, (s.point i).pending = none) (heq : next = s.db.table.nextId)
  | taken (i : ℕ) (hi : (s.point i).pending = some next)
      (hothers : ∀ j ≠ i, (s.point j).pending = none) (heq : s.db.table.nextId = next + 1)

/-- The requests that have taken effect, in order, and the server that they were put to one by
one. -/
structure RaceInv (hist : RaceHistory) (srv : RuleServer) (s : RaceState) : Prop where
  rows : srv.table.rows = s.db.visible.rows
  sequence : Sequence srv.table.nextId s
  nodup : (hist.map Prod.fst).Nodup
  asked : ∀ e ∈ hist, s.asked e.1 = e.2.1.request
  point : ∀ i, RacePointOk (s.asked i) s.db hist i (s.point i)

section Runs

variable {fnmatch : String → String → Bool} {hist more : RaceHistory} {srv srv' : RuleServer}
  {s s' : RaceState} {i next : ℕ} {now : Time}

/-- A request moves, and it is not about an `INSERT` or its `COMMIT`. -/
theorem Sequence.update (h : Sequence next s) {p : RacePoint}
    (hpoint : s'.point = Function.update s.point i p) (hpending : p.pending = (s.point i).pending)
    (hnext : s'.db.table.nextId = s.db.table.nextId) : Sequence next s' := by
  have hsame : ∀ j, (s'.point j).pending = (s.point j).pending := by
    intro j
    by_cases hj : j = i
    · rw [hpoint, hj, Function.update_self, hpending]
    · rw [hpoint, Function.update_of_ne hj]
  cases h with
  | atRest hnone heq => exact .atRest (fun j => (hsame j).trans (hnone j)) (heq.trans hnext.symm)
  | taken j hj hothers heq =>
      exact .taken j ((hsame j).trans hj) (fun k hk => (hsame k).trans (hothers k hk))
        (hnext.trans heq)

/-- The one `POST` that has inserted its row commits it, or gives up. -/
theorem Sequence.finish (h : Sequence next s) (s' : RaceState) {p : RacePoint} {id : ℕ}
    (hi : (s.point i).pending = some id) (hpoint : s'.point = Function.update s.point i p)
    (hpending : p.pending = none) (hnext : s'.db.table.nextId = s.db.table.nextId) :
    id = next ∧ Sequence (next + 1) s' := by
  cases h with
  | atRest hnone heq => rw [hnone i] at hi; cases hi
  | taken j hj hothers heq =>
      obtain rfl : i = j := by
        by_contra hne
        rw [hothers i hne] at hi
        cases hi
      refine ⟨Option.some.inj (hi.symm.trans hj), .atRest ?_ (heq.symm.trans hnext.symm)⟩
      intro k
      by_cases hk : k = i
      · rw [hpoint, hk, Function.update_self, hpending]
      · rw [hpoint, Function.update_of_ne hk]
        exact hothers k hk

/-- Most statements leave the sequence alone. -/
theorem rest_of_statement {p : RacePoint} (d : RuleDatabase) (hpending : p.pending = none)
    (hinsert : ∀ body checked, p = .inserting body checked → ¬ Storable checked) (now : Time) :
    (p.statement now d).1.pending = none ∧ (p.statement now d).2.table.nextId = d.table.nextId := by
  cases p with
  | checking body => rw [RacePoint.statement]; split <;> exact ⟨rfl, rfl⟩
  | inserting body checked =>
      rw [RacePoint.statement, if_neg (hinsert body checked rfl)]
      exact ⟨rfl, rfl⟩
  | inserted body made id => cases hpending
  | toggling id => rw [RacePoint.statement]; split <;> exact ⟨rfl, rfl⟩
  | deleting id => rw [RacePoint.statement]; split <;> exact ⟨rfl, rfl⟩
  | toToggle rule => rw [RacePoint.statement]; split <;> exact ⟨rfl, rfl⟩
  | _ => exact ⟨rfl, rfl⟩

theorem raceInv_initial (t : RuleRows) (redis : Redis) :
    RaceInv [] ⟨t, redis⟩ (.initial t) := by
  refine ⟨?_, .atRest (fun _ => rfl) rfl, List.nodup_nil, fun _ he => absurd he List.not_mem_nil,
    fun _ => List.not_mem_nil⟩
  simp [RaceState.initial, RuleDatabase.visible]

theorem RaceInv.begin (h : RaceInv hist srv s) (hi : s.point i = .notBegun)
    (request : RuleRequest) : RaceInv hist srv (s.begin i request) := by
  have hwithout : hist.Without i := by
    have hpoint := h.point i
    rwa [hi] at hpoint
  refine ⟨h.rows, h.sequence.update rfl ?_ rfl, h.nodup, ?_, ?_⟩
  · rw [hi]
    cases request <;> rfl
  · intro e he
    have hne : e.1 ≠ i := fun heq => hwithout (List.mem_map.mpr ⟨e, he, heq⟩)
    exact (Function.update_of_ne hne _ _).trans (h.asked e he)
  · intro j
    by_cases hj : j = i
    · subst hj
      simp only [RaceState.begin, Function.update_self]
      cases request <;> exact ⟨hwithout, rfl⟩
    · simp only [RaceState.begin, Function.update_of_ne hj]
      exact h.point j

/-- A request ends early. What the others know is not touched, whether or not it stands in the
order. -/
theorem RaceInv.stop (h : RaceInv hist srv s) (more : RaceHistory) {p : RacePoint}
    (hp : p = .raised ∨ p = .brokenOff)
    (hrows : srv'.table.rows = srv.table.rows)
    (hsequence : Sequence srv'.table.nextId (s.stop i p))
    (hmore : ∀ e ∈ more, e.1 = i ∧ s.asked i = e.2.1.request)
    (hnodup : ((hist ++ more).map Prod.fst).Nodup) :
    RaceInv (hist ++ more) srv' (s.stop i p) := by
  refine ⟨hrows.trans h.rows, hsequence, hnodup, List.forall_mem_append.mpr ⟨h.asked, ?_⟩, ?_⟩
  · intro e he
    obtain ⟨rfl, hasked⟩ := hmore e he
    exact hasked
  · intro j
    by_cases hj : j = i
    · subst hj
      simp only [RaceState.stop, Function.update_self]
      rcases hp with rfl | rfl <;> trivial
    · simp only [RaceState.stop, Function.update_of_ne hj]
      refine (h.point j).mono (fun _ _ _ hrule => hrule) (fun _ _ _ hrule => hrule) ?_
      intro e he heq
      exact hj (heq.symm.trans (hmore e he).1)

/-- Requests that take effect keep their places in the order. -/
theorem RaceInv.nodup_concat (h : RaceInv hist srv s) (hwithout : hist.Without i)
    (c : SerialCall) (answer : ApiAnswer) :
    ((hist ++ [(i, c, answer)]).map Prod.fst).Nodup := by
  rw [List.map_append, List.map_singleton]
  exact h.nodup.append (List.nodup_singleton _) (List.disjoint_singleton.mpr hwithout)

/-- What the other requests know, after a statement of `i`. -/
theorem RaceInv.others (h : RaceInv hist srv s) (hapart : s.Apart (.statement i now))
    (hmore : ∀ e ∈ more, e.1 = i) {j : ℕ} (hj : j ≠ i) :
    RacePointOk (s.asked j) ((s.point i).statement now s.db).2 (hist ++ more) j (s.point j) := by
  refine (h.point j).mono ?_ ?_ ?_
  · intro id rule hholds hrule
    exact getById_statement (fun hid => hj (hapart.rows j i id hholds hid)) hrule
  · -- While the row of `j` is pending, `i` inserts and commits none.
    intro id rule hid hrule
    refine hrule.statement (h.point i) ?_ ?_ now
    · intro body checked hi
      rw [hapart.inserts i now body checked rfl hi j] at hid
      cases hid
    · cases h.sequence with
      | atRest hnone heq => exact hnone i
      | taken k hk hothers heq =>
          obtain rfl : j = k := by
            by_contra hne
            rw [hothers j hne] at hid
            cases hid
          exact hothers i (Ne.symm hj)
  · intro e he heq
    exact hj (heq.symm.trans (hmore e he))

/-- The invariant after a statement of `i`, from what the statement does for `i` itself. -/
theorem RaceInv.advance (h : RaceInv hist srv s) (more : RaceHistory)
    (hapart : s.Apart (.statement i now))
    (hrows : srv'.table.rows = ((s.point i).statement now s.db).2.visible.rows)
    (hsequence : Sequence srv'.table.nextId (s.advance i now))
    (hmore : ∀ e ∈ more, e.1 = i ∧ s.asked i = e.2.1.request)
    (hnodup : ((hist ++ more).map Prod.fst).Nodup)
    (hpoint : RacePointOk (s.asked i) ((s.point i).statement now s.db).2 (hist ++ more) i
      ((s.point i).statement now s.db).1) : RaceInv (hist ++ more) srv' (s.advance i now) := by
  refine ⟨hrows, hsequence, hnodup, List.forall_mem_append.mpr ⟨h.asked, ?_⟩, ?_⟩
  · intro e he
    obtain ⟨rfl, hasked⟩ := hmore e he
    exact hasked
  · intro j
    by_cases hj : j = i
    · subst hj
      simp only [RaceState.advance, Function.update_self]
      exact hpoint
    · simp only [RaceState.advance, Function.update_of_ne hj]
      exact h.others hapart (fun e he => (hmore e he).1) hj

/-- The invariant after a statement of `i` that adds nothing to the order. -/
theorem RaceInv.advance_silent (h : RaceInv hist srv s) (hapart : s.Apart (.statement i now))
    (hrows : srv.table.rows = ((s.point i).statement now s.db).2.visible.rows)
    (hsequence : Sequence srv.table.nextId (s.advance i now))
    (hpoint : RacePointOk (s.asked i) ((s.point i).statement now s.db).2 hist i
      ((s.point i).statement now s.db).1) : RaceInv hist srv (s.advance i now) := by
  have hadvance := h.advance [] hapart hrows hsequence
    (fun e he => absurd he List.not_mem_nil) (by rw [List.append_nil]; exact h.nodup)
    (by rw [List.append_nil]; exact hpoint)
  rwa [List.append_nil] at hadvance

/-- The `INSERT` has no effect yet. It takes an id, and nobody else has one that is not
committed. -/
theorem RaceInv.insert (h : RaceInv hist srv s) (hapart : s.Apart (.statement i now))
    {body : RuleBody} {checked : RuleCreate} (hi : s.point i = .inserting body checked)
    (hstorable : Storable checked) : RaceInv hist srv (s.advance i now) := by
  have hstatement : (s.point i).statement now s.db =
      (.inserted body now s.db.table.nextId, s.db.insert checked now) := by
    rw [hi, RacePoint.statement, if_pos hstorable]
  have hothers := hapart.inserts i now body checked rfl hi
  have hnext : srv.table.nextId = s.db.table.nextId := by
    cases h.sequence with
    | atRest hrest heq => exact heq
    | taken j hj => rw [hothers j] at hj; cases hj
  have hsequence : Sequence srv.table.nextId (s.advance i now) := by
    refine .taken i ?_ ?_ ?_
    · simp only [RaceState.advance, Function.update_self, hstatement, hnext]
      rfl
    · intro j hj
      simp only [RaceState.advance, Function.update_of_ne hj]
      exact hothers j
    · simp only [RaceState.advance, hstatement, hnext]
      rfl
  have hpoint := h.point i
  rw [hi] at hpoint
  refine h.advance_silent hapart ?_ hsequence ?_
  · rw [hstatement, s.db.visible_insert, h.rows]
  · rw [hstatement]
    exact hpoint.inserted hstorable now

/-- A statement without effect that is no `INSERT` leaves the database as it is. -/
theorem RaceInv.silent (h : RaceInv hist srv s) (hapart : s.Apart (.statement i now))
    (hinsert : ∀ body checked, s.point i ≠ .inserting body checked)
    (heffect : (s.point i).effect now s.db = none) : RaceInv hist srv (s.advance i now) := by
  have hpending : (s.point i).pending = none := by
    cases hi : s.point i with
    | inserted body made id => rw [hi] at heffect; cases heffect
    | _ => rfl
  obtain ⟨hdb, hpoint⟩ := (h.point i).silent hinsert heffect
  obtain ⟨hrest, hnext⟩ := rest_of_statement s.db hpending
    (fun body checked hi => absurd hi (hinsert body checked)) now
  refine h.advance_silent hapart ?_ (h.sequence.update rfl (hrest.trans hpending.symm) hnext) ?_
  · rw [hdb, h.rows]
  · rw [hdb]
    exact hpoint

/-- The step lemma for a statement without effect, be it an `INSERT` or any other. -/
theorem RaceInv.statement (h : RaceInv hist srv s) (hapart : s.Apart (.statement i now))
    (heffect : (s.point i).effect now s.db = none) : RaceInv hist srv (s.advance i now) := by
  by_cases hinsert : ∃ body checked, s.point i = .inserting body checked
  · obtain ⟨body, checked, hi⟩ := hinsert
    have hstorable : Storable checked := by
      by_contra hnot
      rw [hi, RacePoint.effect, if_neg hnot] at heffect
      cases heffect
    exact h.insert hapart hi hstorable
  · exact h.silent hapart (fun body checked hi => hinsert ⟨body, checked, hi⟩) heffect

/-- The step lemma for a statement with effect, which puts its request at the end of the order. -/
theorem RaceInv.effective (h : RaceInv hist srv s) (hapart : s.Apart (.statement i now))
    {c : ApiCall} (heffect : (s.point i).effect now s.db = some c) :
    RaceInv (hist ++ [(i, .call c, (RuleApi.call fnmatch srv c).1)]) (RuleApi.call fnmatch srv c).2
      (s.advance i now) := by
  obtain ⟨t, redis⟩ := srv
  cases hpending : (s.point i).pending with
  | none =>
      obtain ⟨hwithout, hasked, hrows, hnext, hpoint⟩ :=
        (h.point i).effective hpending heffect h.rows redis
      obtain ⟨hrest, hdb⟩ := rest_of_statement s.db hpending (fun body checked hi => by
        intro hstorable
        rw [hi, RacePoint.effect, if_pos hstorable] at heffect
        cases heffect) now
      refine h.advance _ hapart hrows ?_ (List.forall_mem_singleton.mpr ⟨rfl, hasked⟩)
        (h.nodup_concat hwithout _ _) hpoint
      rw [hnext]
      exact h.sequence.update rfl (hrest.trans hpending.symm) hdb
  | some id =>
      cases hi : s.point i with
      | inserted body made id' =>
          have hpoint := h.point i
          obtain ⟨hid, hsequence⟩ := h.sequence.finish (s.advance i now)
            (p := .created id') hpending (by rw [RaceState.advance, hi]; rfl) rfl
            (by rw [RaceState.advance, hi]; rfl)
          rw [hi] at hpoint hpending heffect
          obtain rfl : id' = id := Option.some.inj hpending
          obtain rfl : ApiCall.create body made = c := Option.some.inj heffect
          obtain rfl : id' = t.nextId := hid
          have hwithout := hpoint.1
          obtain ⟨hasked, hrows, hnext, hcreated⟩ := hpoint.committed h.rows redis
          refine h.advance _ hapart ?_ ?_ (List.forall_mem_singleton.mpr ⟨rfl, hasked⟩)
            (h.nodup_concat hwithout _ _) ?_
          · rw [hi]
            exact hrows
          · rw [hnext]
            exact hsequence
          · rw [hi]
            exact hcreated
      | _ => rw [hi] at hpending; cases hpending

/-- A request raises or breaks off, and has inserted no row, or committed it. -/
theorem RaceInv.stop_silent (h : RaceInv hist srv s) {p : RacePoint}
    (hp : p = .raised ∨ p = .brokenOff) (hlost : (s.point i).lost = none) :
    RaceInv hist srv (s.stop i p) := by
  have hpending : p.pending = (s.point i).pending := by
    have hnone : (s.point i).pending = none := by
      cases hi : s.point i with
      | inserted body made id => rw [hi] at hlost; cases hlost
      | _ => rfl
    rw [hnone]
    rcases hp with rfl | rfl <;> rfl
  have hstop := h.stop [] hp rfl (h.sequence.update rfl hpending rfl)
    (fun e he => absurd he List.not_mem_nil) (by rw [List.append_nil]; exact h.nodup)
  rwa [List.append_nil] at hstop

/-- A request raises or breaks off between its `INSERT` and its `COMMIT`: its id is used up, and it
stands in the order as a failed `POST`. -/
theorem RaceInv.stop_lost (h : RaceInv hist srv s) {p : RacePoint}
    (hp : p = .raised ∨ p = .brokenOff) {c : SerialCall} (hlost : (s.point i).lost = some c) :
    RaceInv (hist ++ [(i, c, (serialCall fnmatch srv c).1)]) (serialCall fnmatch srv c).2
      (s.stop i p) := by
  cases hi : s.point i with
  | inserted body made id =>
      have hpoint := h.point i
      rw [hi] at hpoint hlost
      obtain rfl : SerialCall.failedPost body = c := Option.some.inj hlost
      obtain ⟨-, hsequence⟩ := h.sequence.finish (s.stop i p) (p := p)
        (congrArg RacePoint.pending hi) rfl (by rcases hp with rfl | rfl <;> rfl) rfl
      exact h.stop _ hp rfl hsequence (List.forall_mem_singleton.mpr ⟨rfl, hpoint.2.1⟩)
        (h.nodup_concat hpoint.1 _ _)
  | _ => rw [hi] at hlost; cases hlost

/-- **Requests at the same time, one after another.** In every interleaving of the statements of
any number of requests, any of which raise or break off, no two of them at statements on one rule
and none inserting while the row of another is not committed: the requests that have taken effect,
in the order in which they did, leave the rows that they leave when the routes are called one after
another, and every answer is the one given there. A request that has not begun has not taken effect,
and one that was answered has, so where one was answered before another began, it comes first. -/
theorem race_is_serial (fnmatch : String → String → Bool) {t : RuleRows} {redis : Redis}
    {tr : List (Transition RaceState RaceEvent)}
    (h : Run (Guarded RaceStep RaceState.Apart) (.initial t) tr s) :
    let effects := tr.filterMap raceEffect
    (final (serialCall fnmatch) ⟨t, redis⟩ (effects.map Prod.snd)).table.rows =
      s.db.visible.rows ∧
    (effects.map Prod.fst).Nodup ∧ (∀ e ∈ effects, s.asked e.1 = e.2.request) ∧
    (∀ i, s.point i = .notBegun → i ∉ effects.map Prod.fst) ∧
    ∀ i answer, s.point i = .answered answer →
      ∃ c, (i, .call c, answer) ∈ replay (serialCall fnmatch) ⟨t, redis⟩ effects := by
  intro effects
  have hinv : RaceInv (replay (serialCall fnmatch) ⟨t, redis⟩ effects)
      (final (serialCall fnmatch) ⟨t, redis⟩ (effects.map Prod.snd)) s := by
    refine h.serial (I := RaceInv) (raceInv_initial t redis) ?_ ?_
    · rintro hist srv s e s' hinv ⟨hstep, hapart⟩ heffect
      cases hstep with
      | begins i request hi => exact hinv.begin hi request
      | statement i now hi => exact hinv.statement hapart (Option.map_eq_none_iff.mp heffect)
      | raises i hi => exact hinv.stop_silent (Or.inl rfl) (Option.map_eq_none_iff.mp heffect)
      | breaksOff i hi => exact hinv.stop_silent (Or.inr rfl) (Option.map_eq_none_iff.mp heffect)
    · rintro hist srv s e s' i c hinv ⟨hstep, hapart⟩ heffect
      cases hstep with
      | begins i request hi => cases heffect
      | statement j now hj =>
          obtain ⟨c', hc', heq⟩ := Option.map_eq_some_iff.mp heffect
          cases heq
          exact hinv.effective hapart hc'
      | raises j hj =>
          obtain ⟨c', hc', heq⟩ := Option.map_eq_some_iff.mp heffect
          cases heq
          exact hinv.stop_lost (Or.inl rfl) hc'
      | breaksOff j hj =>
          obtain ⟨c', hc', heq⟩ := Option.map_eq_some_iff.mp heffect
          cases heq
          exact hinv.stop_lost (Or.inr rfl) hc'
  obtain ⟨hrows, -, hnodup, hasked, hpoint⟩ := hinv
  have hids : (replay (serialCall fnmatch) ⟨t, redis⟩ effects).map Prod.fst =
      effects.map Prod.fst := by
    rw [← map_replay (serialCall fnmatch) ⟨t, redis⟩ effects, List.map_map, map_replay]
    rfl
  refine ⟨hrows, hids ▸ hnodup, ?_, ?_, ?_⟩
  · intro e he
    rw [← map_replay (serialCall fnmatch) ⟨t, redis⟩ effects] at he
    obtain ⟨e', he', rfl⟩ := List.mem_map.mp he
    exact hasked e' he'
  · intro i hi
    have hwithout := hpoint i
    rw [hi] at hwithout
    exact hids ▸ hwithout
  · intro i answer hi
    have hhas := hpoint i
    rwa [hi] at hhas

end Runs

/-- A body that passes the checks as `imageRule`. -/
def imageBody : RuleBody :=
  ⟨some imageRule.name, some imageRule.pathPattern, some imageRule.limit,
    some imageRule.windowSeconds, none⟩

/-- The condition of the theorem, where only the requests 0, 1 and 2 have begun. -/
theorem apart_of_three {s : RaceState} {e : RaceEvent}
    (hfar : ∀ i, 3 ≤ i → s.point i = .notBegun)
    (hrows : ∀ i < 3, ∀ j < 3,
      i = j ∨ (s.point i).holds = none ∨ (s.point i).holds ≠ (s.point j).holds)
    (hinserts : (∀ i < 3, (s.point i).pending = none) ∨
      ∀ i now, e = .statement i now → ∀ body checked, s.point i ≠ .inserting body checked) :
    s.Apart e := by
  have hbegun : ∀ {i id}, (s.point i).holds = some id → i < 3 := by
    intro i id hi
    by_contra hge
    rw [hfar i (Nat.not_lt.mp hge)] at hi
    cases hi
  constructor
  · intro i j id hi hj
    rcases hrows i (hbegun hi) j (hbegun hj) with heq | hnone | hne
    · exact heq
    · rw [hnone] at hi; cases hi
    · exact absurd (hi.trans hj.symm) hne
  · intro i now body checked he hi j
    rcases hinserts with hnone | hnot
    · by_cases hj : j < 3
      · exact hnone j hj
      · rw [hfar j (Nat.not_lt.mp hj)]
        rfl
    · exact absurd hi (hnot i now he body checked)

/-- A `POST` inserts its row as rule 3 and raises then. Rule 1 is switched while another `POST` has
inserted its row, which is rule 4, and not committed it. -/
theorem race_is_serial_three : ∃ tr s,
    Run (Guarded RaceStep RaceState.Apart) (.initial twoRules) tr s ∧
      s.point 0 = .raised ∧ s.point 2 = .answered (.created (createRule imageRule 4 5)) ∧
      (tr.filterMap raceEffect).map Prod.fst = [0, 1, 2] ∧
      ∃ c, (2, .call c, ApiAnswer.created (createRule imageRule 4 5)) ∈
        replay (serialCall Lib.fnmatch) ⟨twoRules, .empty⟩ (tr.filterMap raceEffect) := by
  have hrun : ∃ tr s, Run (Guarded RaceStep RaceState.Apart) (.initial twoRules) tr s ∧
      s.point 0 = .raised ∧ s.point 2 = .answered (.created (createRule imageRule 4 5)) ∧
      (tr.filterMap raceEffect).map Prod.fst = [0, 1, 2] := by
    refine ⟨_, _, .snoc (.snoc (.snoc (.snoc (.snoc (.snoc (.snoc (.snoc (.snoc (.snoc (.snoc (.snoc
      .nil
      ⟨.begins 0 (.post imageBody) rfl, apart_of_three ?_ (by decide) (Or.inl (by decide))⟩)
      ⟨.begins 1 (.toggle 1) rfl, apart_of_three ?_ (by decide) (Or.inl (by decide))⟩)
      ⟨.statement 0 0 rfl, apart_of_three ?_ (by decide) (Or.inl (by decide))⟩)
      ⟨.statement 1 0 rfl, apart_of_three ?_ (by decide) (Or.inl (by decide))⟩)
      ⟨.statement 0 2 rfl, apart_of_three ?_ (by decide) (Or.inl (by decide))⟩)
      ⟨.raises 0 rfl, apart_of_three ?_ (by decide) (Or.inr nofun)⟩)
      ⟨.begins 2 (.post imageBody) rfl, apart_of_three ?_ (by decide) (Or.inl (by decide))⟩)
      ⟨.statement 2 4 rfl, apart_of_three ?_ (by decide) (Or.inl (by decide))⟩)
      ⟨.statement 2 5 rfl, apart_of_three ?_ (by decide) (Or.inl (by decide))⟩)
      ⟨.statement 1 6 rfl, apart_of_three ?_ (by decide) (Or.inr ?_)⟩)
      ⟨.statement 2 7 rfl, apart_of_three ?_ (by decide) (Or.inr ?_)⟩)
      ⟨.statement 2 8 rfl, apart_of_three ?_ (by decide) (Or.inl (by decide))⟩, rfl, rfl, rfl⟩
    all_goals intro i hi
    -- The two statements that are made while a row is pending are no `INSERT`.
    any_goals
      rintro heq body checked
      cases heq
      nofun
    all_goals
      simp [RaceState.initial, RaceState.begin, RaceState.advance, RaceState.stop,
        show i ≠ 0 by omega, show i ≠ 1 by omega, show i ≠ 2 by omega]
  obtain ⟨tr, s, hrun, hraised, hcreated, hids⟩ := hrun
  exact ⟨tr, s, hrun, hraised, hcreated, hids,
    (race_is_serial Lib.fnmatch hrun).2.2.2.2 2 _ hcreated⟩

/-- Two requests delete rule 1 at the same time, and both are answered 204; one after another, the
second is answered 404. -/
theorem overlapping_deletes (fnmatch : String → String → Bool) :
    (∃ tr s, Run RaceStep (.initial twoRules) tr s ∧
      s.asked 0 = some (.delete 1) ∧ s.asked 1 = some (.delete 1) ∧
      s.point 0 = .answered .noContent ∧ s.point 1 = .answered .noContent) ∧
    (trace (RuleApi.call fnmatch) ⟨twoRules, .empty⟩ [.delete 1, .delete 1]).map Transition.label =
      [(.delete 1, .noContent), (.delete 1, .notFound "Rule 1 not found.")] := by
  refine ⟨⟨_, _, .snoc (.snoc (.snoc (.snoc (.snoc (.snoc (.snoc (.snoc .nil
    (.begins 0 (.delete 1) rfl)) (.begins 1 (.delete 1) rfl)) (.statement 0 0 rfl))
    (.statement 1 0 rfl)) (.statement 0 0 rfl)) (.statement 1 0 rfl)) (.statement 0 0 rfl))
    (.statement 1 0 rfl), rfl, rfl, rfl, rfl⟩, rfl⟩

/-- Two requests create the rules 3 and 4 at the same time, and a third lists the rules in between.
The later `INSERT` is committed first, so the list has rule 4 and not rule 3. One after another,
there is no such list: rule 4 is created on a table that has rule 3. -/
theorem overlapping_posts (fnmatch : String → String → Bool) :
    (∃ tr s rules, Run RaceStep (.initial twoRules) tr s ∧
      s.point 0 = .answered (.created (createRule imageRule 3 2)) ∧
      s.point 1 = .answered (.created (createRule imageRule 4 3)) ∧
      s.point 2 = .answered (.listed rules) ∧ rules.map Rule.id = [4, 2, 1]) ∧
    ∃ rules, (trace (RuleApi.call fnmatch) ⟨twoRules, .empty⟩
        [.create imageBody 2, .create imageBody 3, .list]).map Transition.label =
      [(.create imageBody 2, .created (createRule imageRule 3 2)),
        (.create imageBody 3, .created (createRule imageRule 4 3)), (.list, .listed rules)] ∧
      rules.map Rule.id = [4, 3, 2, 1] := by
  refine ⟨⟨_, _, _, .snoc (.snoc (.snoc (.snoc (.snoc (.snoc (.snoc (.snoc (.snoc (.snoc (.snoc
    (.snoc .nil (.begins 0 (.post imageBody) rfl)) (.begins 1 (.post imageBody) rfl))
    (.begins 2 .list rfl)) (.statement 0 0 rfl)) (.statement 1 0 rfl)) (.statement 0 2 rfl))
    (.statement 1 3 rfl)) (.statement 1 4 rfl)) (.statement 2 5 rfl)) (.statement 0 6 rfl))
    (.statement 0 7 rfl)) (.statement 1 8 rfl), rfl, rfl, rfl, by decide⟩, ⟨_, rfl, rfl⟩⟩

end RateGuardian
