import RateGuardian.Lib.Json
import RateGuardian.RuleHistory
import RateGuardian.RuleList

/-!
# RateGuardian.RuleCacheText

**The cache of rules as text.** Under its key, Redis holds what `json.dumps` makes of a list of
dicts, and `match` reads that list back and looks its dicts up (`RuleRepository` of
`app/models/repositories/rule_repository.py`). `RuleRepository.match` has rules in the cache
instead; here is `match` with the text.

The payload goes through three conversions: a rule becomes a dict, the list of dicts becomes text,
and the text is parsed when it is read. The loop of `match` then works on Python values, whose
lookups and truth tests may raise. That none of them does, and that the parsed values are those that
were written, is a property of what `_load_into_cache` puts in, not of the types.

`textCall_refines`: over every history the two give the same answers, whatever characters the names
and patterns of the rules have, and the one with the text never raises. The relation between the two
(`Holds`) is that the text under the key is that of the rules, and it is kept by every call.
-/

namespace RateGuardian

open Lib RuleRepository

namespace RuleText

/-! ### The payload

The keys of a dict are those of the source, in its order. The values are read from the rows as the
query returns them. -/

/-- The dict of a rule in the payload of `_load_into_cache`; `isoformat` is that of `datetime`. -/
def ruleDict (isoformat : Time → String) (r : Rule) : JsonValue := .dict
  [("id", .int r.id), ("name", .str r.name), ("path_pattern", .str r.pathPattern),
    ("limit", .int r.limit), ("window_seconds", .int r.windowSeconds),
    ("key_type", .str r.keyType.name), ("active", .bool r.active),
    ("created_at", .str (isoformat r.createdAt))]

def payload (isoformat : Time → String) (rules : List Rule) : JsonValue :=
  .list (rules.map (ruleDict isoformat))

/-! ### Reading Python values; nothing where Python raises -/

/-- `v[k]`, for a dict `v` that has the key. -/
def getItem (v : JsonValue) (k : String) : Option JsonValue :=
  match v with
  | .dict items => (items.find? fun e => e.1 = k).map Prod.snd
  | _ => none

/-- The truth of `v`, as `if` and `and` test it. -/
def truthy : JsonValue → Bool
  | .null => false
  | .bool b => b
  | .int z => z ≠ 0
  | .str s => s ≠ ""
  | .list vs => !vs.isEmpty
  | .dict items => !items.isEmpty

/-- The values that a `for` loop goes through: the elements of a list, the keys of a dict, or the
characters of a string. -/
def iterate : JsonValue → Option (List JsonValue)
  | .list vs => some vs
  | .dict items => some (items.map fun e => .str e.1)
  | .str s => some (s.toList.map fun c => .str (String.singleton c))
  | _ => none

/-- `fnmatch.fnmatch(path, rule["path_pattern"])`. -/
def patternMatches (fnmatch : String → String → Bool) (path : String) (rule : JsonValue) :
    Option Bool :=
  match getItem rule "path_pattern" with
  | some (.str pattern) => some (fnmatch path pattern)
  | _ => none

/-- `rule["active"] and fnmatch.fnmatch(path, rule["path_pattern"])`. -/
def covers (fnmatch : String → String → Bool) (path : String) (rule : JsonValue) : Option Bool := do
  let active ← getItem rule "active"
  if truthy active then patternMatches fnmatch path rule else return false

/-- The loop of `match`, which stops at the first rule that covers the path, or where something
raises. -/
def firstMatch (fnmatch : String → String → Bool) (path : String) :
    List JsonValue → Option (Option JsonValue)
  | [] => some none
  | rule :: rules => do
      if ← covers fnmatch path rule then return some rule else firstMatch fnmatch path rules

/-! ### The store

The three functions of the source, as in `RuleRepository` but on text. -/

/-- The table, and the text under the key of the cache with its deadline. -/
structure Store where
  db : RuleTable
  cached : Slot Time String

namespace Store

def empty : Store := ⟨[], none⟩

end Store

/-- `_load_from_cache`: nothing where there is no text, and else what the text parses to. -/
def loadFromCache (s : Store) (now : Time) : Option (Option JsonValue) :=
  match Slot.read now s.cached with
  | none => some none
  | some raw =>
      if raw = "" then some none
      else (Json.loads raw).map fun v =>
        match v with
        | .null => none
        | v => some v

/-- `_load_into_cache`, which returns the payload as values and stores its text for a minute. -/
def loadIntoCache (isoformat : Time → String) (s : Store) (now : Time) : JsonValue × Store :=
  let payload := payload isoformat (activeRules s.db)
  (payload, { s with cached := Slot.putEx now cacheTtl (Json.dumps payload) })

/-- `match` at the reading `now`. The rules come from the text, or from the table on a miss. -/
def «match» (isoformat : Time → String) (fnmatch : String → String → Bool) (s : Store) (now : Time)
    (path : String) : Option (Option JsonValue) × Store :=
  match loadFromCache s now with
  | none => (none, s)
  | some none =>
      let (rules, s) := loadIntoCache isoformat s now
      ((iterate rules).bind (firstMatch fnmatch path), s)
  | some (some rules) => ((iterate rules).bind (firstMatch fnmatch path), s)

/-- One call, and the answer of a `match`; nothing for an answer where it raises. -/
def textCall (isoformat : Time → String) (fnmatch : String → String → Bool) (s : Store) :
    RuleCall → Option (Option (Option JsonValue)) × Store
  | .write w => (none, ⟨w.commit s.db, none⟩)
  | .find path now =>
      let (rule, s) := «match» isoformat fnmatch s now path
      (some rule, s)
  | .expire => (none, ⟨s.db, none⟩)

/-! ### Reading back what was written

The round trip of a payload is that of `Lib.Json`; what is added is that no lookup of the loop
raises on it. -/

section Reading

variable (isoformat : Time → String) (fnmatch : String → String → Bool) (path : String)

theorem distinctKeys_ruleDict (r : Rule) : Json.DistinctKeys (ruleDict isoformat r) := by
  have hkeys : ["id", "name", "path_pattern", "limit", "window_seconds", "key_type", "active",
      "created_at"].Nodup := by
    decide
  refine .dict hkeys ?_
  simp only [List.forall_mem_cons, List.not_mem_nil, false_imp_iff, implies_true, and_true]
  exact ⟨.int _, .str _, .str _, .int _, .int _, .str _, .bool _, .str _⟩

theorem loads_payload (rules : List Rule) :
    Json.loads (Json.dumps (payload isoformat rules)) = some (payload isoformat rules) := by
  refine Json.loads_dumps (.list ?_)
  intro v hv
  obtain ⟨r, -, rfl⟩ := List.mem_map.mp hv
  exact distinctKeys_ruleDict isoformat r

/-- The text of a payload is not empty, not even where there are no rules: an empty text would be
falsy, and read as a miss. -/
theorem dumps_payload_ne (rules : List Rule) : Json.dumps (payload isoformat rules) ≠ "" := by
  intro heq
  have hnil := congrArg String.toList heq
  rw [Json.dumps, String.toList_ofList] at hnil
  obtain ⟨c, cs, hc, -⟩ := Json.dumpsValue_head (payload isoformat rules)
  rw [hc] at hnil
  cases hnil

theorem covers_ruleDict (r : Rule) :
    covers fnmatch path (ruleDict isoformat r) = some (r.active && fnmatch path r.pathPattern) := by
  have hactive : getItem (ruleDict isoformat r) "active" = some (.bool r.active) := rfl
  have hpattern : getItem (ruleDict isoformat r) "path_pattern" = some (.str r.pathPattern) := rfl
  cases hr : r.active <;> simp [covers, hactive, truthy, patternMatches, hpattern, hr]

theorem firstMatch_map (rules : List Rule) :
    firstMatch fnmatch path (rules.map (ruleDict isoformat)) =
      some ((RuleRepository.firstMatch fnmatch rules path).map (ruleDict isoformat)) := by
  induction rules with
  | nil => rfl
  | cons r rules ih =>
      rw [List.map_cons, firstMatch, covers_ruleDict, RuleRepository.firstMatch, List.find?_cons]
      cases r.active && fnmatch path r.pathPattern with
      | true => rfl
      | false => exact ih

theorem iterate_payload (rules : List Rule) :
    (iterate (payload isoformat rules)).bind (firstMatch fnmatch path) =
      some ((RuleRepository.firstMatch fnmatch rules path).map (ruleDict isoformat)) :=
  firstMatch_map isoformat fnmatch path rules

end Reading

/-! ### The two caches

The refinement: the same table, and under the key of the one the text of what is under the key of
the other. -/

/-- The text under the key is that of the rules, at every reading. -/
structure Holds (isoformat : Time → String) (s : Store) (s' : RuleStore) : Prop where
  db : s.db = s'.db
  cached : ∀ now, Slot.read now s.cached =
    (RuleRepository.loadFromCache s'.redis now).map fun rules =>
      Json.dumps (payload isoformat rules)

section Refinement

variable {isoformat : Time → String} {fnmatch : String → String → Bool} {s : Store}
  {s' : RuleStore}

theorem Holds.loadFromCache (h : Holds isoformat s s') (now : Time) :
    loadFromCache s now =
      some ((RuleRepository.loadFromCache s'.redis now).map (payload isoformat)) := by
  rw [RuleText.loadFromCache, h.cached now]
  cases RuleRepository.loadFromCache s'.redis now with
  | none => rfl
  | some rules =>
      simp only [Option.map_some, if_neg (dumps_payload_ne isoformat rules), loads_payload]
      rfl

/-- The step lemma for `match`: it answers with the dict of the same rule, and keeps the
relation. -/
theorem Holds.match (h : Holds isoformat s s') (now : Time) (path : String) :
    («match» isoformat fnmatch s now path).1 =
        some ((RuleRepository.match fnmatch s'.db s'.redis now path).1.map (ruleDict isoformat)) ∧
      Holds isoformat («match» isoformat fnmatch s now path).2
        ⟨s'.db, (RuleRepository.match fnmatch s'.db s'.redis now path).2⟩ := by
  rw [RuleText.match, h.loadFromCache now, RuleRepository.match, load]
  cases hcached : RuleRepository.loadFromCache s'.redis now with
  | none =>
      refine ⟨?_, h.db, ?_⟩
      · rw [Option.map_none, loadIntoCache, h.db]
        exact iterate_payload isoformat fnmatch path _
      · intro now'
        simp only [Option.map_none, loadIntoCache, RuleRepository.loadIntoCache,
          loadFromCache_fillCache, h.db, Slot.putEx, Slot.read, Slot.live_some, Slot.alive]
        by_cases hlt : now' < now + cacheTtl
        · simp [hlt]
        · simp [hlt]
  | some rules => exact ⟨iterate_payload isoformat fnmatch path rules, h.db, h.cached⟩

/-- The step lemma: a call is answered alike by the two, and keeps the relation. -/
theorem Holds.call (h : Holds isoformat s s') (c : RuleCall) :
    (textCall isoformat fnmatch s c).1 =
        (ruleCall fnmatch s' c).1.map (fun rule => some (rule.map (ruleDict isoformat))) ∧
      Holds isoformat (textCall isoformat fnmatch s c).2 (ruleCall fnmatch s' c).2 := by
  cases c with
  | write w =>
      refine ⟨rfl, congrArg w.commit h.db, ?_⟩
      intro now
      rw [ruleCall, loadFromCache_invalidateCache]
      rfl
  | find path now =>
      obtain ⟨hanswer, hholds⟩ := h.match now path
      exact ⟨congrArg some hanswer, hholds⟩
  | expire =>
      refine ⟨rfl, h.db, ?_⟩
      intro now
      rw [ruleCall, loadFromCache_invalidateCache]
      rfl

end Refinement

/-- **The cache of text is the cache of rules.** Over every history of writes, matches and
expiries, `match` never raises, and answers with the dict of the rule that it answers with when the
cache holds rules. -/
theorem textCall_refines (isoformat : Time → String) (fnmatch : String → String → Bool)
    (calls : List RuleCall) :
    (trace (textCall isoformat fnmatch) .empty calls).map Transition.label =
      (trace (ruleCall fnmatch) .empty calls).map fun t =>
        (t.label.1, t.label.2.map fun rule => some (rule.map (ruleDict isoformat))) := by
  have hinit : Holds isoformat .empty .empty := ⟨rfl, fun _ => rfl⟩
  exact (labels_trace_eq_of_simulation (Holds isoformat) _ hinit
    (fun _ _ c h => h.call c) calls).1

end RuleText

end RateGuardian
