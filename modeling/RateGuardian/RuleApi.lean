import RateGuardian.RuleHistory
import RateGuardian.RuleList
import RateGuardian.RuleToggle

/-!
# RateGuardian.RuleApi

**The routes of the rules** (`app/controllers/rules.py`): creating, listing, switching and deleting
a rule, with the checks of `RuleCreate` (`app/views/schemas/rule.py`), the table of rules under
them, and `match` reading that table through its cache.

The model follows the source in what a client can tell apart. `validate` collects the errors of all
five fields, as pydantic does, and `RuleRows` keeps what PostgreSQL and the schema guarantee of the
table: the ids are distinct and were all given out by the sequence, and every row was made from a
body that had passed the checks. A string with a NUL passes the checks of the schema and is then
refused by the database, which the route answers with an unhandled error.

A `RuleBook` says what the routes are for: each id is unborn, names a live rule, or is gone, and no
id comes back. It knows nothing of the cache, of the order of the rows or of the sequence.

* `validate_spec`: a body is accepted exactly when no field of it is faulty, and the errors of a
  rejected one name its faulty fields in the order of the schema;
* `routes_keep_book`: over every history, the answers of the routes and of `match` are those of a
  book, by a step lemma for one call (`Books.call`);
* `deleted_for_good`: after a `DELETE` that was answered 204, no later answer says anything of the
  rule, whatever is called.
-/

namespace RateGuardian

open Lib RuleRepository

/-! ### The checks of a request body -/

/-- The body of `POST /rules`, field by field; nothing for a field that is not there. -/
structure RuleBody where
  name : Option String
  pathPattern : Option String
  limit : Option ℤ
  windowSeconds : Option ℤ
  keyType : Option String

/-- An entry of the `detail` of a 422: where in the request the error is, and which check failed. -/
structure FieldError where
  loc : List String
  type : String
  deriving DecidableEq

namespace RuleBody

/-- The check of a required string, `Field(..., min_length=1, max_length=max)`. The value that
passes carries its bounds. -/
def checkLength (field : String) (max : ℕ) :
    Option String → Except FieldError {s : String // 1 ≤ s.length ∧ s.length ≤ max}
  | none => .error ⟨["body", field], "missing"⟩
  | some s =>
      if hmin : s.length < 1 then .error ⟨["body", field], "string_too_short"⟩
      else if hmax : max < s.length then .error ⟨["body", field], "string_too_long"⟩
      else .ok ⟨s, Nat.not_lt.mp hmin, Nat.not_lt.mp hmax⟩

/-- The check of a required number, `Field(..., ge=1, le=max)`. -/
def checkRange (field : String) (max : ℤ) :
    Option ℤ → Except FieldError {z : ℤ // 1 ≤ z ∧ z ≤ max}
  | none => .error ⟨["body", field], "missing"⟩
  | some z =>
      if hmin : z < 1 then .error ⟨["body", field], "greater_than_equal"⟩
      else if hmax : max < z then .error ⟨["body", field], "less_than_equal"⟩
      else .ok ⟨z, Int.not_lt.mp hmin, Int.not_lt.mp hmax⟩

def checkName (b : RuleBody) := checkLength "name" 100 b.name

def checkPathPattern (b : RuleBody) := checkLength "path_pattern" 255 b.pathPattern

def checkLimit (b : RuleBody) := checkRange "limit" 100000 b.limit

def checkWindowSeconds (b : RuleBody) := checkRange "window_seconds" 86400 b.windowSeconds

/-- The check of `key_type: Literal["ip", "global"] = "ip"`, the only field with a default. -/
def checkKeyType (b : RuleBody) : Except FieldError KeyType :=
  match b.keyType with
  | none => .ok .ip
  | some s =>
      if s = "ip" then .ok .ip
      else if s = "global" then .ok .global
      else .error ⟨["body", "key_type"], "literal_error"⟩

/-- The error of a check as a list, which is empty if the check has passed. -/
def errorOf {α : Type} : Except FieldError α → List FieldError
  | .ok _ => []
  | .error e => [e]

/-- The errors of all checks, in the order of the fields. A failed check does not stop the
others. -/
def errors (b : RuleBody) : List FieldError :=
  errorOf b.checkName ++ errorOf b.checkPathPattern ++ errorOf b.checkLimit ++
    errorOf b.checkWindowSeconds ++ errorOf b.checkKeyType

/-- The checks of `RuleCreate`. The body is accepted only if all of them pass. -/
def validate (b : RuleBody) : Except (List FieldError) RuleCreate :=
  match b.checkName, b.checkPathPattern, b.checkLimit, b.checkWindowSeconds, b.checkKeyType with
  | .ok name, .ok pathPattern, .ok limit, .ok windowSeconds, .ok keyType => .ok
      { name := name, pathPattern := pathPattern, limit := limit, windowSeconds := windowSeconds,
        keyType := keyType, name_length := name.2, pathPattern_length := pathPattern.2,
        limit_range := limit.2, windowSeconds_range := windowSeconds.2 }
  | _, _, _, _, _ => .error b.errors

/-! What the checks are for. `faulty` and `Describes` are stated on the body alone, without the
order in which the checks are made or the values they return. -/

/-- The name of the field as a list, which is empty if the value of the field is in order. -/
def faultOf (field : String) (inOrder : Bool) : List String := if inOrder then [] else [field]

/-- The fields that are missing or out of bounds, in the order of the schema. -/
def faulty (b : RuleBody) : List String :=
  faultOf "name" (b.name.any fun s => 1 ≤ s.length ∧ s.length ≤ 100) ++
  faultOf "path_pattern" (b.pathPattern.any fun s => 1 ≤ s.length ∧ s.length ≤ 255) ++
  faultOf "limit" (b.limit.any fun z => 1 ≤ z ∧ z ≤ 100000) ++
  faultOf "window_seconds" (b.windowSeconds.any fun z => 1 ≤ z ∧ z ≤ 86400) ++
  faultOf "key_type" (b.keyType.all fun s => s = "ip" ∨ s = "global")

/-- The rule has the values that the body gives for its fields, and is active. A body that names no
`key_type` describes a rule counted by client. -/
structure Describes (b : RuleBody) (r : Rule) : Prop where
  name : b.name = some r.name
  pathPattern : b.pathPattern = some r.pathPattern
  limit : b.limit = some r.limit
  windowSeconds : b.windowSeconds = some r.windowSeconds
  keyType : b.keyType.getD "ip" = r.keyType.name
  active : r.active = true

section Checks

variable {b : RuleBody}

/-- The `loc` of an error that was found at a field of the request body. -/
def inBody (field : String) : List String := ["body", field]

theorem loc_checkLength (field : String) (max : ℕ) (v : Option String) :
    (errorOf (checkLength field max v)).map FieldError.loc =
      (faultOf field (v.any fun s => 1 ≤ s.length ∧ s.length ≤ max)).map inBody := by
  cases v with
  | none => rfl
  | some s =>
      rw [checkLength, Option.any_some]
      split_ifs with hmin hmax
      · rw [decide_eq_false (by omega)]
        rfl
      · rw [decide_eq_false (by omega)]
        rfl
      · rw [decide_eq_true (by omega)]
        rfl

theorem loc_checkRange (field : String) (max : ℤ) (v : Option ℤ) :
    (errorOf (checkRange field max v)).map FieldError.loc =
      (faultOf field (v.any fun z => 1 ≤ z ∧ z ≤ max)).map inBody := by
  cases v with
  | none => rfl
  | some z =>
      rw [checkRange, Option.any_some]
      split_ifs with hmin hmax
      · rw [decide_eq_false (by omega)]
        rfl
      · rw [decide_eq_false (by omega)]
        rfl
      · rw [decide_eq_true (by omega)]
        rfl

theorem loc_checkKeyType (b : RuleBody) :
    (errorOf b.checkKeyType).map FieldError.loc =
      (faultOf "key_type" (b.keyType.all fun s => s = "ip" ∨ s = "global")).map inBody := by
  rw [checkKeyType]
  cases b.keyType with
  | none => rfl
  | some s =>
      dsimp only
      rw [Option.all_some]
      split_ifs with hip hglobal
      · rw [decide_eq_true (Or.inl hip)]
        rfl
      · rw [decide_eq_true (Or.inr hglobal)]
        rfl
      · rw [decide_eq_false (not_or.mpr ⟨hip, hglobal⟩)]
        rfl

/-- Each faulty field is reported once, in the order of the schema, and no other field is. -/
theorem loc_errors (b : RuleBody) : b.errors.map FieldError.loc = b.faulty.map inBody := by
  simp only [errors, faulty, List.map_append, checkName, checkPathPattern, checkLimit,
    checkWindowSeconds, loc_checkLength, loc_checkRange, loc_checkKeyType]

theorem errorOf_eq_nil {α : Type} {x : Except FieldError α} (h : errorOf x = []) :
    ∃ a, x = .ok a := by
  cases x with
  | ok a => exact ⟨a, rfl⟩
  | error e => cases h

theorem eq_some_of_checkLength {field : String} {max : ℕ} {v : Option String}
    {s : {s : String // 1 ≤ s.length ∧ s.length ≤ max}} (h : checkLength field max v = .ok s) :
    v = some s.1 := by
  cases v with
  | none => cases h
  | some s' =>
      rw [checkLength] at h
      split_ifs at h
      rw [← Except.ok.inj h]

theorem eq_some_of_checkRange {field : String} {max : ℤ} {v : Option ℤ}
    {z : {z : ℤ // 1 ≤ z ∧ z ≤ max}} (h : checkRange field max v = .ok z) : v = some z.1 := by
  cases v with
  | none => cases h
  | some z' =>
      rw [checkRange] at h
      split_ifs at h
      rw [← Except.ok.inj h]

theorem name_of_checkKeyType {k : KeyType} (h : b.checkKeyType = .ok k) :
    b.keyType.getD "ip" = k.name := by
  rw [checkKeyType] at h
  cases hkey : b.keyType with
  | none =>
      rw [hkey] at h
      rw [← Except.ok.inj h]
      rfl
  | some s =>
      simp only [hkey] at h
      split_ifs at h with hip hglobal
      · rw [← Except.ok.inj h]
        exact hip
      · rw [← Except.ok.inj h]
        exact hglobal

/-- **The checks.** A body without a faulty field makes the rule that it describes; any other body
is rejected, for its faulty fields. -/
theorem validate_spec (b : RuleBody) :
    (∃ body, b.validate = .ok body ∧ b.faulty = [] ∧
      ∀ id now, b.Describes (createRule body id now)) ∨
    (b.validate = .error b.errors ∧ b.faulty ≠ []) := by
  have hloc := loc_errors b
  rw [validate]
  split
  next name pattern limit window k hname hpattern hlimit hwindow hkey =>
    refine Or.inl ⟨_, rfl, ?_, fun id now => ?_⟩
    · have hnone : b.errors = [] := by
        rw [errors, hname, hpattern, hlimit, hwindow, hkey]
        rfl
      rw [hnone] at hloc
      exact List.map_eq_nil_iff.mp hloc.symm
    · exact ⟨eq_some_of_checkLength hname, eq_some_of_checkLength hpattern,
        eq_some_of_checkRange hlimit, eq_some_of_checkRange hwindow, name_of_checkKeyType hkey, rfl⟩
  next hnot =>
    refine Or.inr ⟨rfl, ?_⟩
    intro hfine
    rw [hfine, List.map_nil, List.map_eq_nil_iff] at hloc
    simp only [errors, List.append_eq_nil_iff] at hloc
    obtain ⟨⟨⟨⟨hname, hpattern⟩, hlimit⟩, hwindow⟩, hkey⟩ := hloc
    obtain ⟨name, hname⟩ := errorOf_eq_nil hname
    obtain ⟨pattern, hpattern⟩ := errorOf_eq_nil hpattern
    obtain ⟨limit, hlimit⟩ := errorOf_eq_nil hlimit
    obtain ⟨window, hwindow⟩ := errorOf_eq_nil hwindow
    obtain ⟨k, hkey⟩ := errorOf_eq_nil hkey
    exact hnot name pattern limit window k hname hpattern hlimit hwindow hkey

end Checks

end RuleBody

/-! ### The table

The rows are those of `RuleRepository`; what is added here is the sequence of the ids, and that no
two rows share one. Each statement is an operation of the structure, so that the invariant is part
of the table and never assumed. -/

/-- `set_active` changes nothing of a row but its flag, and only the flag of the row it names. -/
theorem exists_of_mem_setActive {id : ℕ} {active : Bool} {db : RuleTable} {r : Rule}
    (h : r ∈ (Write.setActive id active).commit db) :
    ∃ r₀ ∈ db, r = { r₀ with active := if r₀.id = id then active else r₀.active } := by
  obtain ⟨r₀, hr₀, rfl⟩ := List.mem_map.mp h
  refine ⟨r₀, hr₀, ?_⟩
  split_ifs
  · rfl
  · rfl

theorem map_id_setActive (id : ℕ) (active : Bool) (db : RuleTable) :
    ((Write.setActive id active).commit db).map Rule.id = db.map Rule.id := by
  rw [Write.commit, List.map_map]
  refine List.map_congr_left ?_
  intro r _
  rw [Function.comp_apply]
  split_ifs
  · rfl
  · rfl

/-- The rule was made from a body that had passed its checks. -/
def Made (r : Rule) : Prop :=
  ∃ body : RuleCreate, { r with active := true } = createRule body r.id r.createdAt

/-- The rows of `rules`, with the sequence of their ids: the ids of the rows are distinct, and
smaller than the next one that the sequence gives. -/
structure RuleRows where
  rows : RuleTable
  nextId : ℕ
  nextId_pos : 1 ≤ nextId
  id_range : ∀ r ∈ rows, 1 ≤ r.id ∧ r.id < nextId
  nodup : (rows.map Rule.id).Nodup
  made : ∀ r ∈ rows, Made r

namespace RuleRows

def empty : RuleRows := ⟨[], 1, le_rfl, nofun, List.nodup_nil, nofun⟩

/-- The `INSERT` of `create`. The new row takes the next id of the sequence. -/
def insert (t : RuleRows) (body : RuleCreate) (now : Time) : RuleRows where
  rows := (Write.create (createRule body t.nextId now)).commit t.rows
  nextId := t.nextId + 1
  nextId_pos := Nat.le_succ_of_le t.nextId_pos
  id_range := by
    refine List.forall_mem_append.mpr
      ⟨?_, List.forall_mem_singleton.mpr ⟨t.nextId_pos, Nat.lt_succ_self _⟩⟩
    intro r hr
    exact ⟨(t.id_range r hr).1, Nat.lt_succ_of_lt (t.id_range r hr).2⟩
  nodup := by
    rw [Write.commit, List.map_append, List.map_singleton]
    refine t.nodup.append (List.nodup_singleton _) ?_
    intro id hid hnew
    obtain ⟨r, hr, rfl⟩ := List.mem_map.mp hid
    exact Nat.ne_of_lt (t.id_range r hr).2 (List.mem_singleton.mp hnew)
  made := List.forall_mem_append.mpr ⟨t.made, List.forall_mem_singleton.mpr ⟨body, rfl⟩⟩

/-- The sequence gives an id that no row gets, because the transaction that took it has failed. -/
def skipId (t : RuleRows) : RuleRows where
  rows := t.rows
  nextId := t.nextId + 1
  nextId_pos := Nat.le_succ_of_le t.nextId_pos
  id_range r hr := ⟨(t.id_range r hr).1, Nat.lt_succ_of_lt (t.id_range r hr).2⟩
  nodup := t.nodup
  made := t.made

/-- The `UPDATE` of `set_active`. The rows stay where they are. -/
def setActive (t : RuleRows) (id : ℕ) (active : Bool) : RuleRows where
  rows := (Write.setActive id active).commit t.rows
  nextId := t.nextId
  nextId_pos := t.nextId_pos
  id_range r hr := by
    obtain ⟨r₀, hr₀, rfl⟩ := exists_of_mem_setActive hr
    exact t.id_range r₀ hr₀
  nodup := by
    rw [map_id_setActive]
    exact t.nodup
  made r hr := by
    obtain ⟨r₀, hr₀, rfl⟩ := exists_of_mem_setActive hr
    exact t.made r₀ hr₀

/-- The `DELETE` of `delete`. The sequence does not go back, so the id is not given out again. -/
def delete (t : RuleRows) (id : ℕ) : RuleRows where
  rows := (Write.delete id).commit t.rows
  nextId := t.nextId
  nextId_pos := t.nextId_pos
  id_range r hr := t.id_range r (List.mem_filter.mp hr).1
  nodup := t.nodup.sublist (List.filter_sublist.map _)
  made r hr := t.made r (List.mem_filter.mp hr).1

theorem getById_eq_some_iff (t : RuleRows) {id : ℕ} {r : Rule} :
    getById t.rows id = some r ↔ r ∈ t.rows ∧ r.id = id := by
  constructor
  · intro h
    exact ⟨List.mem_of_find?_eq_some h, id_of_getById h⟩
  · rintro ⟨hmem, rfl⟩
    cases hget : getById t.rows r.id with
    | none => exact absurd rfl (of_decide_eq_false
        (Bool.eq_false_iff.mpr (List.find?_eq_none.mp hget r hmem)))
    | some r' =>
        have hr' := List.mem_of_find?_eq_some hget
        rw [List.inj_on_of_nodup_map t.nodup hr' hmem (id_of_getById hget)]

end RuleRows

/-- The bounds of the schema hold for every rule that was made. -/
theorem Made.bounds {r : Rule} (h : Made r) :
    (1 ≤ r.limit ∧ r.limit ≤ 100000) ∧ (1 ≤ r.windowSeconds ∧ r.windowSeconds ≤ 86400) ∧
      (1 ≤ r.name.length ∧ r.name.length ≤ 100) ∧
      (1 ≤ r.pathPattern.length ∧ r.pathPattern.length ≤ 255) := by
  obtain ⟨body, hbody⟩ := h
  rw [Rule.mk.injEq] at hbody
  obtain ⟨-, hname, hpattern, hlimit, hwindow, -⟩ := hbody
  rw [hname, hpattern, hlimit, hwindow]
  exact ⟨body.limit_range, body.windowSeconds_range, body.name_length, body.pathPattern_length⟩

/-! ### The routes

A call is executed whole here: the statements of one request and the invalidation after them meet no
other request. `RuleRace` takes the requests apart into their statements. -/

/-- What the routes and `match` work on: the table in PostgreSQL, and the cache of it in Redis. -/
structure RuleServer where
  table : RuleRows
  redis : Redis

/-- A call of a route or of `match`, or the expiry of the cache key, which may come between any two
calls. -/
inductive ApiCall
  /-- `POST /rules`; `now` is the default of `created_at`. -/
  | create (body : RuleBody) (now : Time)
  /-- `GET /rules`. -/
  | list
  /-- `PATCH /rules/{id}/toggle`. -/
  | toggle (id : ℤ)
  /-- `DELETE /rules/{id}`. -/
  | delete (id : ℤ)
  /-- `match`, with the clock reading of the Redis server. -/
  | find (path : String) (now : Time)
  /-- The cache key expires. -/
  | expire

inductive ApiAnswer
  | created (rule : Rule)
  | ok (rule : Rule)
  | listed (rules : List Rule)
  | noContent
  | notFound (detail : String)
  | invalid (errors : List FieldError)
  /-- An exception that the route does not catch. -/
  | serverError
  /-- What `match` returns. -/
  | matched (rule : Option Rule)
  | nothing

/-- The status of a response. -/
def ApiAnswer.status : ApiAnswer → Option ℕ
  | .created _ => some 201
  | .ok _ | .listed _ => some 200
  | .noContent => some 204
  | .notFound _ => some 404
  | .invalid _ => some 422
  | .serverError => some 500
  | .matched _ | .nothing => none

/-- PostgreSQL can store the strings of the body: it has no NUL in a `VARCHAR`, while the schema
checks only the lengths. -/
def Storable (body : RuleCreate) : Prop :=
  '\x00' ∉ body.name.toList ∧ '\x00' ∉ body.pathPattern.toList

instance : DecidablePred Storable := fun _ => inferInstanceAs (Decidable (_ ∧ _))

namespace RuleApi

/-- `get_by_id` of a path parameter. FastAPI takes any integer there, and a negative one names no
row. -/
def getRule (t : RuleRows) : ℤ → Option Rule
  | .ofNat id => getById t.rows id
  | .negSucc _ => none

/-- What `get_by_id` finds under a path parameter is the row with that id. -/
theorem getRule_eq_some {t : RuleRows} {id : ℤ} {rule : Rule} (h : getRule t id = some rule) :
    id = rule.id ∧ getById t.rows rule.id = some rule := by
  cases id with
  | negSucc n => cases h
  | ofNat n =>
      have hid : rule.id = n := id_of_getById h
      rw [hid]
      exact ⟨rfl, h⟩

theorem getRule_congr {t t' : RuleRows} (h : t.rows = t'.rows) (id : ℤ) :
    getRule t id = getRule t' id := by
  cases id with
  | negSucc n => rfl
  | ofNat n => rw [getRule, getRule, h]

def notFoundDetail (id : ℤ) : String := "Rule " ++ toString id ++ " not found."

/-- `create_rule`: a body that fails a check is answered 422, and one that the database rejects is
answered 500. Neither leaves anything behind. -/
def createRule (s : RuleServer) (body : RuleBody) (now : Time) : ApiAnswer × RuleServer :=
  match body.validate with
  | .error errors => (.invalid errors, s)
  | .ok body =>
      if Storable body then
        (.created (RateGuardian.createRule body s.table.nextId now),
          ⟨s.table.insert body now, invalidateCache s.redis⟩)
      else (.serverError, s)

/-- `list_rules`, which reads the table and not the cache. -/
def listRules (s : RuleServer) : ApiAnswer × RuleServer :=
  (.listed (RateGuardian.listRules s.table.rows), s)

/-- `toggle_rule`: the flag is negated as it was read, and the cache is dropped after the commit. -/
def toggleRule (s : RuleServer) (id : ℤ) : ApiAnswer × RuleServer :=
  match getRule s.table id with
  | none => (.notFound (notFoundDetail id), s)
  | some rule => (.ok { rule with active := !rule.active },
      ⟨s.table.setActive rule.id (!rule.active), invalidateCache s.redis⟩)

/-- `delete_rule`: the row is read first, so that an id without a row is answered 404. -/
def deleteRule (s : RuleServer) (id : ℤ) : ApiAnswer × RuleServer :=
  match getRule s.table id with
  | none => (.notFound (notFoundDetail id), s)
  | some rule => (.noContent, ⟨s.table.delete rule.id, invalidateCache s.redis⟩)

def call (fnmatch : String → String → Bool) (s : RuleServer) : ApiCall → ApiAnswer × RuleServer
  | .create body now => createRule s body now
  | .list => listRules s
  | .toggle id => toggleRule s id
  | .delete id => deleteRule s id
  | .find path now =>
      let (rule, redis) := RuleRepository.match fnmatch s.table.rows s.redis now path
      (.matched rule, { s with redis := redis })
  | .expire => (.nothing, { s with redis := invalidateCache s.redis })

end RuleApi

/-! ### What the routes are for

The book is an account of the ids, one life each. Its steps say which answers to a call are right,
and what the call does to the one id that it is about; all other lives stay as they were. -/

/-- What has become of an id: no rule had it yet, a rule has it, or the rule that had it is
deleted. -/
inductive Life
  | unborn
  | live (rule : Rule)
  | gone

/-- The lives of all ids, and the next id to be born. -/
structure RuleBook where
  next : ℕ
  life : ℕ → Life

/-- One of the two strings of the body has a NUL character in it. -/
def RuleBody.HasNul (b : RuleBody) : Prop :=
  (∃ s, b.name = some s ∧ '\x00' ∈ s.toList) ∨ ∃ s, b.pathPattern = some s ∧ '\x00' ∈ s.toList

namespace RuleBook

def empty : RuleBook := ⟨1, fun _ => .unborn⟩

def set (b : RuleBook) (id : ℕ) (l : Life) : RuleBook :=
  { b with life := Function.update b.life id l }

/-- The path parameter names a live rule. -/
def Live (b : RuleBook) (id : ℤ) : Prop := ∃ (n : ℕ) (r : Rule), id = n ∧ b.life n = .live r

/-- `rs` lists the live rules, each of them once, and the newest first. -/
structure Lists (b : RuleBook) (rs : List Rule) : Prop where
  mem_iff : ∀ r, r ∈ rs ↔ b.life r.id = .live r
  nodup : (rs.map Rule.id).Nodup
  newestFirst : rs.Pairwise fun r r' => r'.createdAt ≤ r.createdAt

/-- `answer` is the rule of the path: a live rule that covers it such that no rule created before it
does, and nothing only if no live rule covers the path. -/
structure Assigns (fnmatch : String → String → Bool) (b : RuleBook) (path : String)
    (answer : Option Rule) : Prop where
  none_iff : answer = none ↔ ∀ id r, b.life id = .live r → ¬ Covers fnmatch path r
  earliest : ∀ r, answer = some r → b.life r.id = .live r ∧ Covers fnmatch path r ∧
    ∀ id r', b.life id = .live r' → Covers fnmatch path r' → r.createdAt ≤ r'.createdAt

/-- The right answers to a call, with what each of them makes of the book. -/
inductive Step (fnmatch : String → String → Bool) :
    RuleBook → ApiCall × ApiAnswer → RuleBook → Prop
  | invalid {b : RuleBook} {body : RuleBody} {now : Time} {errors : List FieldError}
      (hfaulty : body.faulty ≠ [])
      (hloc : errors.map FieldError.loc = body.faulty.map RuleBody.inBody) :
      Step fnmatch b (.create body now, .invalid errors) b
  | unstorable {b : RuleBook} {body : RuleBody} {now : Time} (hfaulty : body.faulty = [])
      (hnul : body.HasNul) : Step fnmatch b (.create body now, .serverError) b
  | created {b : RuleBook} {body : RuleBody} {now : Time} {rule : Rule} (hfaulty : body.faulty = [])
      (hnul : ¬ body.HasNul) (hbody : body.Describes rule) (hid : rule.id = b.next)
      (hnow : rule.createdAt = now) :
      Step fnmatch b (.create body now, .created rule)
        { b.set b.next (.live rule) with next := b.next + 1 }
  | listed {b : RuleBook} {rs : List Rule} (h : b.Lists rs) : Step fnmatch b (.list, .listed rs) b
  | toggled {b : RuleBook} {id : ℕ} {rule : Rule} (h : b.life id = .live rule) :
      Step fnmatch b (.toggle id, .ok { rule with active := !rule.active })
        (b.set id (.live { rule with active := !rule.active }))
  | toggleMissing {b : RuleBook} {id : ℤ} (h : ¬ b.Live id) :
      Step fnmatch b (.toggle id, .notFound (RuleApi.notFoundDetail id)) b
  | deleted {b : RuleBook} {id : ℕ} {rule : Rule} (h : b.life id = .live rule) :
      Step fnmatch b (.delete id, .noContent) (b.set id .gone)
  | deleteMissing {b : RuleBook} {id : ℤ} (h : ¬ b.Live id) :
      Step fnmatch b (.delete id, .notFound (RuleApi.notFoundDetail id)) b
  | matched {b : RuleBook} {path : String} {now : Time} {answer : Option Rule}
      (h : b.Assigns fnmatch path answer) : Step fnmatch b (.find path now, .matched answer) b
  | expired {b : RuleBook} : Step fnmatch b (.expire, .nothing) b

end RuleBook

/-! ### The routes keep the book -/

/-- `b` is the book of the server `s`: a rule is live in it exactly if the table has its row, an id
is unborn exactly if the sequence has not given it out, and the cache is sound for the table. -/
structure Books (b : RuleBook) (s : RuleServer) : Prop where
  next : b.next = s.table.nextId
  live_iff : ∀ id r, b.life id = .live r ↔ getById s.table.rows id = some r
  unborn_iff : ∀ id, b.life id = .unborn ↔ id < 1 ∨ s.table.nextId ≤ id
  cache : CacheSound s.table.rows s.redis

section Books

variable {fnmatch : String → String → Bool} {b : RuleBook} {s : RuleServer}

theorem books_empty : Books .empty ⟨.empty, .empty⟩ :=
  ⟨rfl, fun _ _ => iff_of_false nofun nofun, fun id => iff_of_true rfl (Nat.lt_or_ge id 1),
    cacheSound_empty⟩

theorem Books.live_iff_mem (h : Books b s) {r : Rule} :
    b.life r.id = .live r ↔ r ∈ s.table.rows := by
  rw [h.live_iff, s.table.getById_eq_some_iff]
  exact and_iff_left rfl

theorem Books.id_of_live (h : Books b s) {id : ℕ} {r : Rule} (hlive : b.life id = .live r) :
    r.id = id :=
  id_of_getById ((h.live_iff id r).mp hlive)

/-- What a route finds under a path parameter: nothing exactly if the parameter names no
live rule. -/
theorem Books.getRule (h : Books b s) (id : ℤ) :
    (RuleApi.getRule s.table id = none ∧ ¬ b.Live id) ∨
      ∃ (n : ℕ) (r : Rule), id = n ∧ RuleApi.getRule s.table id = some r ∧
        b.life n = .live r := by
  cases id with
  | negSucc n =>
      refine Or.inl ⟨rfl, ?_⟩
      rintro ⟨m, r, hm, -⟩
      omega
  | ofNat n =>
      cases hget : getById s.table.rows n with
      | none =>
          refine Or.inl ⟨hget, ?_⟩
          rintro ⟨m, r, hm, hlive⟩
          obtain rfl : n = m := Int.ofNat.inj hm
          rw [h.live_iff, hget] at hlive
          cases hlive
      | some r => exact Or.inr ⟨n, r, rfl, hget, (h.live_iff n r).mpr hget⟩

/-- A write to the row of one id changes the life of that id, and of no other. -/
theorem Books.update (h : Books b s) {id : ℕ} (w : Write) (hid : w.target = id) {l : Life}
    (hlife : ∀ r, l = .live r ↔ getById (w.commit s.table.rows) id = some r) (id' : ℕ) (r : Rule) :
    Function.update b.life id l id' = .live r ↔
      getById (w.commit s.table.rows) id' = some r := by
  by_cases heq : id' = id
  · subst heq
    rw [Function.update_self]
    exact hlife r
  · rw [Function.update_of_ne heq, getById_commit_of_ne (hid.trans_ne (Ne.symm heq))]
    exact h.live_iff id' r

/-- The book after a `POST`: the next id of the sequence has come to life. -/
theorem Books.insert (h : Books b s) (body : RuleCreate) (now : Time) :
    Books { b.set b.next (.live (createRule body b.next now)) with next := b.next + 1 }
      ⟨s.table.insert body now, invalidateCache s.redis⟩ := by
  have hnone : getById s.table.rows s.table.nextId = none := by
    refine List.find?_eq_none.mpr ?_
    intro r hr
    simpa using Nat.ne_of_lt (s.table.id_range r hr).2
  have hborn : getById ((Write.create (createRule body s.table.nextId now)).commit s.table.rows)
      s.table.nextId = some (createRule body s.table.nextId now) := by
    rw [getById] at hnone
    simp [getById, Write.commit, List.find?_append, hnone, createRule]
  refine ⟨congrArg (· + 1) h.next, ?_, ?_, cacheSound_invalidateCache _ _⟩
  · refine h.update (.create (createRule body s.table.nextId now)) h.next.symm ?_
    intro r
    rw [h.next, hborn, Life.live.injEq, Option.some.injEq]
  · intro id
    simp only [RuleBook.set, RuleRows.insert]
    by_cases heq : id = b.next
    · rw [heq, Function.update_self]
      refine iff_of_false (fun hborn => Life.noConfusion hborn) ?_
      have hpos := s.table.nextId_pos
      rw [h.next]
      omega
    · rw [Function.update_of_ne heq, h.unborn_iff]
      rw [h.next] at heq
      omega

/-- The id of a live rule is not unborn, whatever becomes of it. -/
theorem Books.unborn_set (h : Books b s) {id : ℕ} {rule : Rule} (hlive : b.life id = .live rule)
    {l : Life} (hl : l ≠ .unborn) (id' : ℕ) :
    Function.update b.life id l id' = .unborn ↔ id' < 1 ∨ s.table.nextId ≤ id' := by
  by_cases heq : id' = id
  · rw [heq, Function.update_self]
    refine iff_of_false hl ?_
    rw [← h.unborn_iff, hlive]
    nofun
  · rw [Function.update_of_ne heq]
    exact h.unborn_iff id'

/-- The book after a `PATCH` of a live rule, which lives on with the other flag. -/
theorem Books.setActive (h : Books b s) {id : ℕ} {rule : Rule} (hlive : b.life id = .live rule)
    (active : Bool) :
    Books (b.set id (.live { rule with active := active }))
      ⟨s.table.setActive rule.id active, invalidateCache s.redis⟩ := by
  obtain rfl := h.id_of_live hlive
  refine ⟨h.next, ?_, h.unborn_set hlive nofun, cacheSound_invalidateCache _ _⟩
  have hget : getById ((Write.setActive rule.id active).commit s.table.rows) rule.id =
      some { rule with active := active } := by
    rw [getById_setActive, (h.live_iff _ _).mp hlive]
    simp
  refine h.update (.setActive rule.id active) rfl ?_
  intro r
  rw [Write.target, hget, Life.live.injEq, Option.some.injEq]

/-- The book after the `DELETE` of a live rule, whose id is gone from then on. -/
theorem Books.delete (h : Books b s) {id : ℕ} {rule : Rule} (hlive : b.life id = .live rule) :
    Books (b.set id .gone) ⟨s.table.delete rule.id, invalidateCache s.redis⟩ := by
  obtain rfl := h.id_of_live hlive
  refine ⟨h.next, ?_, h.unborn_set hlive nofun, cacheSound_invalidateCache _ _⟩
  have hnone : getById ((Write.delete rule.id).commit s.table.rows) rule.id = none := by
    refine List.find?_eq_none.mpr ?_
    intro r hr
    simpa using (List.mem_filter.mp hr).2
  refine h.update (.delete rule.id) rfl ?_
  intro r
  rw [Write.target, hnone]
  exact iff_of_false nofun nofun

theorem Books.lists (h : Books b s) : b.Lists (listRules s.table.rows) := by
  have hperm := latestFirst_perm Rule.createdAt s.table.rows
  refine ⟨?_, (hperm.map Rule.id).nodup_iff.mpr s.table.nodup, pairwise_le_latestFirst _ _⟩
  intro r
  rw [listRules, hperm.mem_iff, h.live_iff_mem]

/-- What `find?` returns from an ordered list comes, in that order, before everything else in the
list that it could have returned. -/
theorem rel_of_find? {α : Type} {R : α → α → Prop} (hrefl : ∀ a, R a a) {p : α → Bool}
    {l : List α} (hsorted : l.Pairwise R) {a b : α} (ha : l.find? p = some a) (hb : b ∈ l)
    (hpb : p b = true) : R a b := by
  induction l with
  | nil => cases hb
  | cons c l ih =>
      obtain ⟨hfirst, hrest⟩ := List.pairwise_cons.mp hsorted
      rw [List.find?_cons] at ha
      cases hpc : p c with
      | true =>
          rw [hpc] at ha
          obtain rfl := Option.some.inj ha
          rcases List.mem_cons.mp hb with rfl | hb
          · exact hrefl b
          · exact hfirst b hb
      | false =>
          rw [hpc] at ha
          rcases List.mem_cons.mp hb with rfl | hb
          · exact absurd hpb (Bool.eq_false_iff.mp hpc)
          · exact ih hrest ha hb

theorem Books.assigns (h : Books b s) (path : String) :
    b.Assigns fnmatch path (assigned fnmatch s.table.rows path) := by
  have hlive : ∀ id r, b.life id = .live r → r ∈ s.table.rows := by
    intro id r hr
    obtain rfl := h.id_of_live hr
    exact h.live_iff_mem.mp hr
  constructor
  · rw [assigned_eq_none]
    constructor
    · exact fun hnone id r hr => hnone r (hlive id r hr)
    · exact fun hnone r hr => hnone r.id r (h.live_iff_mem.mpr hr)
  · intro r hr
    obtain ⟨hmem, hactive⟩ := mem_activeRules.mp (List.mem_of_find?_eq_some hr)
    have hcovers := List.find?_some hr
    rw [Bool.and_eq_true] at hcovers
    refine ⟨h.live_iff_mem.mpr hmem, hcovers, ?_⟩
    intro id r' hr' hcovers'
    refine rel_of_find? (fun r : Rule => le_refl r.createdAt) (pairwise_activeRules _) hr
      (mem_activeRules.mpr ⟨hlive id r' hr', hcovers'.1⟩) ?_
    rw [hcovers'.1, hcovers'.2]
    rfl

theorem hasNul_iff_not_storable {body : RuleBody} {c : RuleCreate} {id : ℕ} {now : Time}
    (h : body.Describes (createRule c id now)) : body.HasNul ↔ ¬ Storable c := by
  have hname : body.name = some c.name := h.name
  have hpattern : body.pathPattern = some c.pathPattern := h.pathPattern
  rw [RuleBody.HasNul, Storable, hname, hpattern, not_and_or, not_not, not_not]
  simp

/-- The step lemma: whatever is called, its answer is right by the book, and the server afterwards
has the book that the step leads to. -/
theorem Books.call (h : Books b s) (c : ApiCall) :
    ∃ b', b.Step fnmatch (c, (RuleApi.call fnmatch s c).1) b' ∧
      Books b' (RuleApi.call fnmatch s c).2 := by
  cases c with
  | create body now =>
      rw [RuleApi.call, RuleApi.createRule]
      rcases body.validate_spec with ⟨c, hvalid, hfine, hbody⟩ | ⟨hvalid, hfaulty⟩
      · rw [hvalid]
        dsimp only
        split_ifs with hstorable
        · refine ⟨_, .created hfine ?_ (hbody _ _) h.next.symm rfl, ?_⟩
          · exact fun hnul => (hasNul_iff_not_storable (hbody 0 0)).mp hnul hstorable
          · rw [← h.next]
            exact h.insert c now
        · exact ⟨b, .unstorable hfine ((hasNul_iff_not_storable (hbody 0 0)).mpr hstorable), h⟩
      · rw [hvalid]
        exact ⟨b, .invalid hfaulty body.loc_errors, h⟩
  | list => exact ⟨b, .listed h.lists, h⟩
  | toggle id =>
      rw [RuleApi.call, RuleApi.toggleRule]
      rcases h.getRule id with ⟨hnone, hdead⟩ | ⟨n, rule, rfl, hrule, hlive⟩
      · rw [hnone]
        exact ⟨b, .toggleMissing hdead, h⟩
      · rw [hrule]
        exact ⟨_, .toggled hlive, h.setActive hlive _⟩
  | delete id =>
      rw [RuleApi.call, RuleApi.deleteRule]
      rcases h.getRule id with ⟨hnone, hdead⟩ | ⟨n, rule, rfl, hrule, hlive⟩
      · rw [hnone]
        exact ⟨b, .deleteMissing hdead, h⟩
      · rw [hrule]
        exact ⟨_, .deleted hlive, h.delete hlive⟩
  | find path now =>
      obtain ⟨hanswer, hsound, -⟩ := @match_spec fnmatch _ _ h.cache now path
      refine ⟨b, ?_, h.next, h.live_iff, h.unborn_iff, hsound⟩
      simp only [RuleApi.call, hanswer]
      exact .matched (h.assigns path)
  | expire => exact ⟨b, .expired, h.next, h.live_iff, h.unborn_iff, cacheSound_invalidateCache _ _⟩

end Books

/-- The run lemma for the server alone: one that began with an empty table has a book after every
history. -/
theorem exists_books (fnmatch : String → String → Bool) (calls : List ApiCall) :
    ∃ b, Books b (final (RuleApi.call fnmatch) ⟨.empty, .empty⟩ calls) := by
  induction calls using List.reverseRecOn with
  | nil => exact ⟨.empty, books_empty⟩
  | append_singleton calls c ih =>
      obtain ⟨b, hbooks⟩ := ih
      obtain ⟨b', -, hbooks'⟩ := @Books.call fnmatch _ _ hbooks c
      rw [final_concat]
      exact ⟨b', hbooks'⟩

/-- **The routes keep a book.** Over every history of requests to the routes, matches and expiries,
all answers are those of one book of rules. -/
theorem routes_keep_book (fnmatch : String → String → Bool) (calls : List ApiCall) :
    ∃ tr b, Run (RuleBook.Step fnmatch) .empty tr b ∧
      tr.map Transition.label =
        (trace (RuleApi.call fnmatch) ⟨.empty, .empty⟩ calls).map Transition.label ∧
      Books b (final (RuleApi.call fnmatch) ⟨.empty, .empty⟩ calls) := by
  induction calls using List.reverseRecOn with
  | nil => exact ⟨[], .empty, .nil, rfl, books_empty⟩
  | append_singleton calls c ih =>
      obtain ⟨tr, b, hrun, hlabels, hbooks⟩ := ih
      obtain ⟨b', hstep, hbooks'⟩ := hbooks.call c
      refine ⟨_, b', hrun.snoc hstep, ?_, ?_⟩
      · rw [trace_concat, List.map_append, List.map_append, hlabels]
        rfl
      · rw [final_concat]
        exact hbooks'

/-! ### Rules that were deleted -/

/-- The answer says nothing of a rule `id`: by it, no such rule was made, changed, listed or
matched. -/
def ApiAnswer.Without (id : ℤ) : ApiAnswer → Prop
  | .created r | .ok r => (r.id : ℤ) ≠ id
  | .listed rs => ∀ r ∈ rs, (r.id : ℤ) ≠ id
  | .matched answer => ∀ r, answer = some r → (r.id : ℤ) ≠ id
  | _ => True

section Deleted

variable {fnmatch : String → String → Bool} {b b' : RuleBook} {s : RuleServer} {id : ℕ}

/-- The step lemma: an id that is gone stays gone, no answer says anything of it, and a `PATCH` or a
`DELETE` of it is answered 404. -/
theorem gone_step {c : ApiCall} {answer : ApiAnswer} (h : Books b s) (hgone : b.life id = .gone)
    (hstep : b.Step fnmatch (c, answer) b') :
    b'.life id = .gone ∧ answer.Without id ∧
      (c = .toggle id ∨ c = .delete id → answer = .notFound (RuleApi.notFoundDetail id)) := by
  have hne : ∀ {n : ℕ} {r : Rule}, b.life n = .live r → id ≠ n := by
    rintro n r hlive rfl
    rw [hgone] at hlive
    cases hlive
  have hother : ∀ {n : ℕ} {r : Rule}, b.life n = .live r → (n : ℤ) ≠ id := by
    intro n r hlive heq
    exact hne hlive (Int.ofNat.inj heq).symm
  cases hstep with
  | invalid hfaulty hloc => exact ⟨hgone, trivial, nofun⟩
  | unstorable hfaulty hnul => exact ⟨hgone, trivial, nofun⟩
  | created hfaulty hnul hbody hid hnow =>
      -- The next id is unborn, and `id` is not.
      have hnext : id ≠ b.next := by
        rintro rfl
        have hunborn := (h.unborn_iff b.next).mpr (Or.inr h.next.ge)
        rw [hgone] at hunborn
        cases hunborn
      refine ⟨(Function.update_of_ne hnext _ _).trans hgone, ?_, nofun⟩
      · rw [ApiAnswer.Without, hid]
        exact fun heq => hnext (Int.ofNat.inj heq).symm
  | listed hlists => exact ⟨hgone, fun r hr => hother ((hlists.mem_iff r).mp hr), nofun⟩
  | toggled hlive =>
      obtain rfl := h.id_of_live hlive
      refine ⟨(Function.update_of_ne (hne hlive) _ _).trans hgone, hother hlive, ?_⟩
      rintro (heq | heq)
      · exact absurd (Int.ofNat.inj (ApiCall.toggle.inj heq)).symm (hne hlive)
      · cases heq
  | toggleMissing hdead =>
      refine ⟨hgone, trivial, ?_⟩
      rintro (heq | heq)
      · rw [ApiCall.toggle.inj heq]
      · cases heq
  | deleted hlive =>
      refine ⟨(Function.update_of_ne (hne hlive) _ _).trans hgone, trivial, ?_⟩
      rintro (heq | heq)
      · cases heq
      · exact absurd (Int.ofNat.inj (ApiCall.delete.inj heq)).symm (hne hlive)
  | deleteMissing hdead =>
      refine ⟨hgone, trivial, ?_⟩
      rintro (heq | heq)
      · cases heq
      · rw [ApiCall.delete.inj heq]
  | matched hassigns =>
      refine ⟨hgone, ?_, nofun⟩
      intro r hr
      exact hother (hassigns.earliest r hr).1
  | expired => exact ⟨hgone, trivial, nofun⟩

/-- The run lemma: what `gone_step` says of one call holds of all the calls of a history. -/
theorem gone_run (h : Books b s) (hgone : b.life id = .gone) (calls : List ApiCall) :
    (∃ b', Books b' (final (RuleApi.call fnmatch) s calls) ∧ b'.life id = .gone) ∧
      ∀ t ∈ trace (RuleApi.call fnmatch) s calls, t.label.2.Without id ∧
        (t.label.1 = .toggle id ∨ t.label.1 = .delete id →
          t.label.2 = .notFound (RuleApi.notFoundDetail id)) := by
  induction calls using List.reverseRecOn with
  | nil => exact ⟨⟨b, h, hgone⟩, fun t ht => absurd ht List.not_mem_nil⟩
  | append_singleton calls c ih =>
      obtain ⟨⟨b', hbooks, hgone'⟩, hall⟩ := ih
      obtain ⟨b'', hstep, hbooks''⟩ := @Books.call fnmatch _ _ hbooks c
      obtain ⟨hgone'', hanswer⟩ := gone_step hbooks hgone' hstep
      rw [trace_concat, final_concat]
      exact ⟨⟨b'', hbooks'', hgone''⟩,
        List.forall_mem_append.mpr ⟨hall, List.forall_mem_singleton.mpr hanswer⟩⟩

end Deleted

/-- **A deleted rule is gone for good.** Whatever is called after a `DELETE` that was answered 204,
each `PATCH` and `DELETE` of the same id is answered 404, and the id is not given to a new rule,
listed or matched again. -/
theorem deleted_for_good (fnmatch : String → String → Bool) (calls : List ApiCall) (id : ℤ)
    (h : (RuleApi.call fnmatch (final (RuleApi.call fnmatch) ⟨.empty, .empty⟩ calls)
      (.delete id)).1 = .noContent) (later : List ApiCall) :
    ∀ t ∈ trace (RuleApi.call fnmatch) (RuleApi.call fnmatch
        (final (RuleApi.call fnmatch) ⟨.empty, .empty⟩ calls) (.delete id)).2 later,
      t.label.2.Without id ∧ (t.label.1 = .toggle id ∨ t.label.1 = .delete id →
        t.label.2 = .notFound (RuleApi.notFoundDetail id)) := by
  obtain ⟨b, hbooks⟩ := exists_books fnmatch calls
  obtain ⟨b', hstep, hbooks'⟩ := @Books.call fnmatch _ _ hbooks (.delete id)
  rw [h] at hstep
  cases hstep with
  | deleted hlive => exact (gone_run hbooks' (Function.update_self _ _ _) later).2

/-- The first rule is created and deleted; it is not there any more, and the next one has id 2. -/
theorem deleted_for_good_first :
    let body : RuleBody := ⟨some "a", some "/a*", some 5, some 60, none⟩
    let s := final (RuleApi.call fun _ _ => true) ⟨.empty, .empty⟩ [.create body 0]
    (trace (RuleApi.call fun _ _ => true) (RuleApi.call (fun _ _ => true) s (.delete 1)).2
        [.toggle 1, .create body 9]).map (fun t => t.label.2.status) = [some 404, some 201] ∧
      ∀ t ∈ trace (RuleApi.call fun _ _ => true)
          (RuleApi.call (fun _ _ => true) s (.delete 1)).2 [.toggle 1, .create body 9],
        t.label.2.Without 1 ∧ (t.label.1 = .toggle 1 ∨ t.label.1 = .delete 1 →
          t.label.2 = .notFound (RuleApi.notFoundDetail 1)) :=
  ⟨by decide +kernel, deleted_for_good _ _ 1 rfl _⟩

end RateGuardian
