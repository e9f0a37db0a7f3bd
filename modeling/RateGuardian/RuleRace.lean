import RateGuardian.RuleApi

/-!
# RateGuardian.RuleRace

**The `/rules` routes at the same time.** The routes run in worker threads, each with a session of
its own, and the statements of all sessions interleave at the database. A request finds its row
with one statement, writes it with another, and the answer reads it once more, since a commit
expires what the session has loaded. This module has the statements and the steps they make;
`RuleRaceSerial` and `RuleRaceGone` say what holds of all runs.

What decides where one step ends and the next begins:

* The `INSERT` of a `POST` and its `COMMIT` are two steps. The `INSERT` takes the id from the
  sequence, which never gives it back, while nobody sees the row before the `COMMIT`
  (`RuleDatabase`). Between the two, others read, write, and insert.
* An `UPDATE` or a `DELETE` is one step with its `COMMIT`. PostgreSQL locks the row in between: the
  writes of others wait for the `COMMIT`, their reads see the row as it was, and a transaction that
  ends without the `COMMIT` leaves nothing behind.
* A statement may raise, because the connection is lost before the database carries it out or before
  the reply to the last one is there. No route catches that, and the app answers 500.
* A process that dies answers nothing.

The cache, which none of the answers depends on, is left to `RuleCache` and `RuleStaleness`.
-/

namespace RateGuardian

open Lib RuleRepository

/-! ### Rows that nobody sees yet

The table of `RuleApi`, with the ids of the rows that are in it before their time. -/

/-- The rows of `rules` as the database keeps them. A row whose transaction has not committed is in
the table, under the id that the sequence gave it, but no query returns it. If the transaction never
commits, it stays like that. -/
structure RuleDatabase where
  table : RuleRows
  /-- The ids of the rows whose `INSERT` has not been committed. -/
  uncommitted : Finset ℕ

namespace RuleDatabase

/-- What a query of any session sees: the rows that have been committed. -/
def visible (d : RuleDatabase) : RuleRows where
  rows := d.table.rows.filter fun r => r.id ∉ d.uncommitted
  nextId := d.table.nextId
  nextId_pos := d.table.nextId_pos
  id_range r hr := d.table.id_range r (List.mem_filter.mp hr).1
  nodup := d.table.nodup.sublist (List.filter_sublist.map _)
  made r hr := d.table.made r (List.mem_filter.mp hr).1

/-- The `INSERT` of `create`, which takes the next id of the sequence. -/
def insert (d : RuleDatabase) (body : RuleCreate) (now : Time) : RuleDatabase where
  table := d.table.insert body now
  uncommitted := Insert.insert d.table.nextId d.uncommitted

/-- The `COMMIT` after that, from which on the row is seen. -/
def commit (d : RuleDatabase) (id : ℕ) : RuleDatabase :=
  { d with uncommitted := d.uncommitted.erase id }

/-- The `UPDATE` of `set_active`, with its `COMMIT`. -/
def setActive (d : RuleDatabase) (id : ℕ) (active : Bool) : RuleDatabase :=
  { d with table := d.table.setActive id active }

/-- The `DELETE` of `delete`, with its `COMMIT`. -/
def delete (d : RuleDatabase) (id : ℕ) : RuleDatabase := { d with table := d.table.delete id }

section Visible

variable (d : RuleDatabase)

@[simp] theorem visible_nextId : d.visible.nextId = d.table.nextId := rfl

@[simp] theorem nextId_insert (body : RuleCreate) (now : Time) :
    (d.insert body now).table.nextId = d.table.nextId + 1 := rfl

@[simp] theorem nextId_commit (id : ℕ) : (d.commit id).table.nextId = d.table.nextId := rfl

@[simp] theorem nextId_setActive (id : ℕ) (active : Bool) :
    (d.setActive id active).table.nextId = d.table.nextId := rfl

@[simp] theorem nextId_delete (id : ℕ) : (d.delete id).table.nextId = d.table.nextId := rfl

theorem mem_visible {r : Rule} :
    r ∈ d.visible.rows ↔ r ∈ d.table.rows ∧ r.id ∉ d.uncommitted := by
  rw [visible, List.mem_filter, decide_eq_true_iff]

/-- A new row changes nothing for the others before its `COMMIT`. -/
theorem visible_insert (body : RuleCreate) (now : Time) :
    (d.insert body now).visible.rows = d.visible.rows := by
  have hnew : (createRule body d.table.nextId now).id = d.table.nextId := rfl
  simp only [visible, insert, RuleRows.insert, Write.commit, List.filter_append, hnew,
    Finset.mem_insert, true_or, not_true_eq_false, decide_false, List.filter_cons,
    Bool.false_eq_true, if_false, List.filter_nil, List.append_nil]
  refine List.filter_congr ?_
  intro r hr
  simp [Nat.ne_of_lt (d.table.id_range r hr).2]

/-- With the `COMMIT` it is the last row of the table. -/
theorem visible_commit_insert (body : RuleCreate) (now : Time) :
    ((d.insert body now).commit d.table.nextId).visible.rows =
      d.visible.rows ++ [createRule body d.table.nextId now] := by
  have hnew : (createRule body d.table.nextId now).id = d.table.nextId := rfl
  simp only [visible, commit, insert, RuleRows.insert, Write.commit, List.filter_append, hnew,
    Finset.mem_erase, ne_eq, not_true_eq_false, false_and, not_false_eq_true, decide_true,
    List.filter_cons, if_true, List.filter_nil]
  congr 1
  refine List.filter_congr ?_
  intro r hr
  simp [Nat.ne_of_lt (d.table.id_range r hr).2]

theorem visible_setActive (id : ℕ) (active : Bool) :
    (d.setActive id active).visible.rows = (Write.setActive id active).commit d.visible.rows := by
  simp only [visible, setActive, RuleRows.setActive, Write.commit, List.filter_map]
  congr 1
  refine List.filter_congr ?_
  intro r _
  rw [Function.comp_apply]
  split_ifs
  · rfl
  · rfl

theorem visible_delete (id : ℕ) :
    (d.delete id).visible.rows = (Write.delete id).commit d.visible.rows := by
  simp only [visible, delete, RuleRows.delete, Write.commit, List.filter_filter]
  refine List.filter_congr ?_
  intro r _
  exact Bool.and_comm _ _

/-- A row that is found has been committed. -/
theorem notMem_uncommitted {id : ℕ} {rule : Rule} (h : getById d.visible.rows id = some rule) :
    id ∉ d.uncommitted := by
  obtain ⟨hmem, rfl⟩ := d.visible.getById_eq_some_iff.mp h
  exact (d.mem_visible.mp hmem).2

end Visible

end RuleDatabase

/-! ### Requests in progress

A point says what comes next for a request, with everything that its session needs for it. The
requests are those of the routes; `match` is not among them, nor is the expiry of the cache. -/

inductive RuleRequest
  | post (body : RuleBody)
  | list
  | toggle (id : ℤ)
  | delete (id : ℤ)

/-- The request that a call of a route is. -/
def ApiCall.request : ApiCall → Option RuleRequest
  | .create body _ => some (.post body)
  | .list => some .list
  | .toggle id => some (.toggle id)
  | .delete id => some (.delete id)
  | .find .. | .expire => none

/-- How far a request has come, with what its session has in hand. -/
inductive RacePoint
  | notBegun
  /-- Next: the checks of the body, without the database. -/
  | checking (body : RuleBody)
  /-- Next: the `INSERT` of the body, which has passed its checks as `checked`. -/
  | inserting (body : RuleBody) (checked : RuleCreate)
  /-- Next: the `COMMIT` of the row, which has got its id and its time of creation. -/
  | inserted (body : RuleBody) (now : Time) (id : ℕ)
  /-- Next: `db.refresh`. -/
  | created (id : ℕ)
  /-- Next: `get_all`. -/
  | listing
  /-- Next: `get_by_id`. -/
  | toggling (id : ℤ)
  /-- Next: the `UPDATE` of `set_active` with its commit. -/
  | toToggle (rule : Rule)
  /-- Next: the row is loaded again for the answer. -/
  | toggled (id : ℕ)
  /-- Next: `get_by_id`. -/
  | deleting (id : ℤ)
  /-- Next: the `DELETE` with its commit. -/
  | toDelete (rule : Rule)
  /-- Next: the answer, once the reply to the commit is there. -/
  | deleted (id : ℕ)
  | answered (answer : ApiAnswer)
  /-- A statement has raised, and the app has answered 500. -/
  | raised
  | brokenOff

/-- The point at which a request begins. -/
def RuleRequest.first : RuleRequest → RacePoint
  | .post body => .checking body
  | .list => .listing
  | .toggle id => .toggling id
  | .delete id => .deleting id

/-- The answer of a row that is loaded again; if it is gone, the session raises. -/
def reread (t : RuleRows) (id : ℕ) (answer : Rule → ApiAnswer) : ApiAnswer :=
  match getById t.rows id with
  | some rule => answer rule
  | none => .serverError

namespace RacePoint

def busy : RacePoint → Bool
  | .notBegun | .answered _ | .raised | .brokenOff => false
  | _ => true

/-- The session waits for the database at this point, so that its statement can raise. -/
def atDatabase : RacePoint → Bool
  | .checking _ => false
  | p => p.busy

/-- The request goes on to its next point. `now` is the default of `created_at`. -/
def statement (now : Time) (d : RuleDatabase) : RacePoint → RacePoint × RuleDatabase
  | .checking body =>
      match body.validate with
      | .error errors => (.answered (.invalid errors), d)
      | .ok checked => (.inserting body checked, d)
  | .inserting body checked =>
      -- The driver raises on a NUL, before anything is sent.
      if Storable checked then (.inserted body now d.table.nextId, d.insert checked now)
      else (.answered .serverError, d)
  | .inserted _ _ id => (.created id, d.commit id)
  | .created id => (.answered (reread d.visible id .created), d)
  | .listing => (.answered (.listed (listRules d.visible.rows)), d)
  | .toggling id =>
      match RuleApi.getRule d.visible id with
      | none => (.answered (.notFound (RuleApi.notFoundDetail id)), d)
      | some rule => (.toToggle rule, d)
  | .toToggle rule =>
      -- An `UPDATE` that matches no row makes the flush raise `StaleDataError`.
      match getById d.visible.rows rule.id with
      | none => (.answered .serverError, d)
      | some _ => (.toggled rule.id, d.setActive rule.id (!rule.active))
  | .toggled id => (.answered (reread d.visible id .ok), d)
  | .deleting id =>
      match RuleApi.getRule d.visible id with
      | none => (.answered (.notFound (RuleApi.notFoundDetail id)), d)
      | some rule => (.toDelete rule, d)
  -- A `DELETE` that matches no row is worth a warning only.
  | .toDelete rule => (.deleted rule.id, d.delete rule.id)
  | .deleted _ => (.answered .noContent, d)
  | p => (p, d)

/-- The rule whose row the request has found or written, and will write or load. -/
def holds : RacePoint → Option ℕ
  | .created id | .toggled id => some id
  | .toToggle rule | .toDelete rule => some rule.id
  | _ => none

/-- The id of a row that the request has inserted and not committed. -/
def pending : RacePoint → Option ℕ
  | .inserted _ _ id => some id
  | _ => none

/-- What the next statement does to the database: nothing, or one of the four writes. -/
theorem statement_database (now : Time) (d : RuleDatabase) (p : RacePoint) :
    (p.statement now d).2 = d ∨
    (∃ body checked, p = .inserting body checked ∧ Storable checked ∧
      (p.statement now d).2 = d.insert checked now) ∨
    (∃ body made id, p = .inserted body made id ∧ (p.statement now d).2 = d.commit id) ∨
    (∃ rule, p = .toToggle rule ∧ (getById d.visible.rows rule.id).isSome ∧
      (p.statement now d).2 = d.setActive rule.id (!rule.active)) ∨
    (∃ rule, p = .toDelete rule ∧ (p.statement now d).2 = d.delete rule.id) := by
  cases p with
  | checking body => rw [statement]; split <;> exact Or.inl rfl
  | inserting body checked =>
      by_cases hstorable : Storable checked
      · refine Or.inr (Or.inl ⟨body, checked, rfl, hstorable, ?_⟩)
        rw [statement, if_pos hstorable]
      · rw [statement, if_neg hstorable]
        exact Or.inl rfl
  | inserted body made id => exact Or.inr (Or.inr (Or.inl ⟨body, made, id, rfl, rfl⟩))
  | toggling id => rw [statement]; split <;> exact Or.inl rfl
  | deleting id => rw [statement]; split <;> exact Or.inl rfl
  | toToggle rule =>
      cases hget : getById d.visible.rows rule.id with
      | none =>
          rw [statement, hget]
          exact Or.inl rfl
      | some found =>
          refine Or.inr (Or.inr (Or.inr (Or.inl ⟨rule, rfl, ?_, ?_⟩)))
          · rw [hget]
            rfl
          · rw [statement, hget]
  | toDelete rule => exact Or.inr (Or.inr (Or.inr (Or.inr ⟨rule, rfl, rfl⟩)))
  | _ => exact Or.inl rfl

end RacePoint

/-! ### Steps

Any number of requests, in any order of their statements. A request may be begun by anyone at any
time, and may end at any time: by its answer, by a statement that raises, or without an answer. -/

structure RaceState where
  db : RuleDatabase
  /-- What the requests that have begun are. -/
  asked : ℕ → Option RuleRequest
  point : ℕ → RacePoint

namespace RaceState

def initial (t : RuleRows) : RaceState := ⟨⟨t, ∅⟩, fun _ => none, fun _ => .notBegun⟩

def begin (s : RaceState) (i : ℕ) (request : RuleRequest) : RaceState where
  db := s.db
  asked := Function.update s.asked i (some request)
  point := Function.update s.point i request.first

def advance (s : RaceState) (i : ℕ) (now : Time) : RaceState where
  db := ((s.point i).statement now s.db).2
  asked := s.asked
  point := Function.update s.point i ((s.point i).statement now s.db).1

/-- The request ends early; what it has not committed is never seen. -/
def stop (s : RaceState) (i : ℕ) (p : RacePoint) : RaceState :=
  { s with point := Function.update s.point i p }

end RaceState

inductive RaceEvent
  | begins (i : ℕ) (request : RuleRequest)
  | statement (i : ℕ) (now : Time)
  /-- A statement of the request raises. -/
  | raises (i : ℕ)
  /-- The process dies. -/
  | breaksOff (i : ℕ)

inductive RaceStep : RaceState → RaceEvent → RaceState → Prop
  | begins {s : RaceState} (i : ℕ) (request : RuleRequest) (hi : s.point i = .notBegun) :
      RaceStep s (.begins i request) (s.begin i request)
  | statement {s : RaceState} (i : ℕ) (now : Time) (hi : (s.point i).busy = true) :
      RaceStep s (.statement i now) (s.advance i now)
  | raises {s : RaceState} (i : ℕ) (hi : (s.point i).atDatabase = true) :
      RaceStep s (.raises i) (s.stop i .raised)
  | breaksOff {s : RaceState} (i : ℕ) (hi : (s.point i).busy = true) :
      RaceStep s (.breaksOff i) (s.stop i .brokenOff)

/-- What a step is for one request: others go on while it stands still, or it begins, makes its next
statement, or ends early. -/
theorem RaceStep.atRequest {s s' : RaceState} {e : RaceEvent} (h : RaceStep s e s') (j : ℕ) :
    (∃ now q, s'.db = (RacePoint.statement now s.db q).2 ∧ s'.asked j = s.asked j ∧
      s'.point j = s.point j) ∨
    (∃ request, s'.db = s.db ∧ s'.asked j = some request ∧ s'.point j = request.first) ∨
    (∃ now, s'.db = ((s.point j).statement now s.db).2 ∧ s'.asked j = s.asked j ∧
      s'.point j = ((s.point j).statement now s.db).1) ∨
    (s'.db = s.db ∧ (s'.point j = .raised ∨ s'.point j = .brokenOff)) := by
  cases h with
  | begins i request hi =>
      by_cases hj : j = i
      · subst hj
        exact Or.inr (Or.inl ⟨request, rfl, Function.update_self .., Function.update_self ..⟩)
      · exact Or.inl ⟨0, .notBegun, rfl, Function.update_of_ne hj .., Function.update_of_ne hj ..⟩
  | statement i now hi =>
      by_cases hj : j = i
      · subst hj
        exact Or.inr (Or.inr (Or.inl ⟨now, rfl, rfl, Function.update_self ..⟩))
      · exact Or.inl ⟨now, s.point i, rfl, rfl, Function.update_of_ne hj ..⟩
  | raises i hi =>
      by_cases hj : j = i
      · subst hj
        exact Or.inr (Or.inr (Or.inr ⟨rfl, Or.inl (Function.update_self ..)⟩))
      · exact Or.inl ⟨0, .notBegun, rfl, rfl, Function.update_of_ne hj ..⟩
  | breaksOff i hi =>
      by_cases hj : j = i
      · subst hj
        exact Or.inr (Or.inr (Or.inr ⟨rfl, Or.inr (Function.update_self ..)⟩))
      · exact Or.inl ⟨0, .notBegun, rfl, rfl, Function.update_of_ne hj ..⟩

/-- The rules 1 and 2. -/
def twoRules : RuleRows := (RuleRows.empty.insert imageRule 0).insert imageRule 1

end RateGuardian
