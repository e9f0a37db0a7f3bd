import RateGuardian.RenderDashboard
import RateGuardian.RuleRepository
import RateGuardian.Lib.Html
import RateGuardian.Lib.Latest
import Mathlib.Algebra.BigOperators.Group.List.Basic
import Mathlib.Algebra.Order.BigOperators.Group.List

/-!
# RateGuardian.RuleList

**What a rule's name can do to the dashboard.** `POST /rules` bounds the length of the name and of
the path pattern (`app/views/schemas/rule.py`), and the script of the dashboard writes both into the
table of rules as they are (`loadRules` in `app/views/templates/dashboard.py`).

The tags of the table are read by the tokenizer of `Lib.Html`. They are compared with the tags of
the same table with plain letters for the names and the patterns, which is what the table should
look like whatever a rule is called. A text that opens no markup leaves the tags alone whatever else
is in it, and any other text changes them (`tags_loadRules_eq_iff`).

One direction runs the tokenizer over both tables side by side: as long as nothing is opened, they
are in the same state after every piece. The other one counts. Every `<` of the fixed text opens
markup in any table, so a table with an opening `<` in a name has more markup than the plain one.
-/

namespace RateGuardian

open Lib Html TokenizerState

/-! ### The rules

`RuleCreate` carries the bounds of the schema, so a rule made from it has them too. -/

/-- `RuleCreate`: a request body that has passed its checks. -/
structure RuleCreate where
  name : String
  pathPattern : String
  limit : ℤ
  windowSeconds : ℤ
  keyType : KeyType := .ip
  name_length : 1 ≤ name.length ∧ name.length ≤ 100
  pathPattern_length : 1 ≤ pathPattern.length ∧ pathPattern.length ≤ 255
  limit_range : 1 ≤ limit ∧ limit ≤ 100000
  windowSeconds_range : 1 ≤ windowSeconds ∧ windowSeconds ≤ 86400

/-- The row that `create_rule` inserts, under the next id. -/
def createRule (body : RuleCreate) (id : ℕ) (now : Time) : Rule where
  id := id
  name := body.name
  pathPattern := body.pathPattern
  limit := body.limit
  windowSeconds := body.windowSeconds
  keyType := body.keyType
  active := true
  createdAt := now

/-- `list_rules`, that is `RuleRepository.get_all`: all rules, active or not, and the
newest first. -/
def listRules (db : RuleTable) : List Rule := latestFirst Rule.createdAt db

/-- The name and the pattern have passed the checks of `RuleCreate`. -/
def Accepted (r : Rule) : Prop :=
  ∃ body : RuleCreate, r.name = body.name ∧ r.pathPattern = body.pathPattern

/-! ### The table of rules

The template strings of the script, with the values where the script has them. The name and the
pattern of a rule each stand in a cell, between two tags of the row. -/

def KeyType.name : KeyType → String
  | .ip => "ip"
  | .global => "global"

namespace RuleRow

def beforeName : String := "
              <tr>
                <td style=\"color:var(--bright)\">"

def beforePattern : String := "</td>
                <td style=\"color:var(--dim)\">"

def beforeLimit : String := "</td>
                <td>"

/-- The row from the limit on. No text that a client chose is in it. -/
def rowEnd (r : Rule) : String := r.limit.repr ++ "</td>
                <td>" ++ r.windowSeconds.repr ++ "s</td>
                <td>" ++ r.keyType.name ++ "</td>
                <td style=\"color:" ++ (if r.active then "var(--green)" else "var(--dim)") ++
    "\">" ++ (if r.active then "ACTIVE" else "OFF") ++ "</td>
                <td style=\"display:flex;gap:6px\">
                  <button class=\"btn\" style=\"font-size:0.68rem;padding:2px 8px\"
                    onclick=\"toggleRule(" ++ r.id.repr ++ ")\">&gt; TOGGLE</button>
                  <button class=\"btn\" style=\"font-size:0.68rem;padding:2px 8px;" ++
    "border-color:var(--red);color:var(--red)\"
                    onclick=\"deleteRule(" ++ r.id.repr ++ ")\">&gt; DEL</button>
                </td>
              </tr>"

def tableStart : String := "
        <table>
          <thead><tr><th>Name</th><th>Pattern</th><th>Limit</th><th>Window</th><th>Key</th>" ++
    "<th>Status</th><th></th></tr></thead>
          <tbody>
            "

def tableEnd : String := "
          </tbody>
        </table>"

end RuleRow

open RuleRow

/-- The row for one rule, with its name and its pattern as they are. -/
def ruleRow (r : Rule) : String :=
  beforeName ++ r.name ++ beforePattern ++ r.pathPattern ++ beforeLimit ++ rowEnd r

/-- The HTML that `loadRules` assigns to the list of rules; without rules it is a sentence. -/
def loadRules (data : List Rule) : String :=
  if data = [] then "<span style=\"color:var(--dim);font-size:0.8rem\">No rules configured.</span>"
  else tableStart ++ String.join (data.map ruleRow) ++ tableEnd

/-! ### Its tags

A tag is what the tokenizer takes for markup, comments and declarations included. Texts between them
are not compared. -/

/-- The tags of an HTML text, in order, each as it is written. -/
def tags (html : String) : List String := (markup html.toList).map String.ofList

def PlainLetters (s : String) : Prop := ∀ c ∈ s.toList, c.isAlpha

/-- `plain` has the same rules as `rules`, but with names and patterns of plain letters. -/
def Relettered (rules plain : List Rule) : Prop :=
  List.Forall₂ (fun r p => p = { r with name := p.name, pathPattern := p.pathPattern } ∧
    PlainLetters p.name ∧ PlainLetters p.pathPattern) rules plain

/-- The name or the pattern has a `<` that begins markup, wherever it stands in the row. -/
def CarriesMarkup (r : Rule) : Prop :=
  OpensMarkup r.name.toList ∨ OpensMarkup r.pathPattern.toList

/-! ### The fixed text of a row

The pieces of a row between two values lead the tokenizer from one known state to another, so that
they can be passed in one step. A number or a keyword in between is `Neutral`. -/

section Fixed

variable {s t : String} {a b c : TokenizerState}

/-- A text that leads the tokenizer from one state to another, and all of whose `<` begin markup. -/
structure Fixed (s : String) (a b : TokenizerState) : Prop where
  definite : s.toList.count '<' ≤ openers s.toList
  leads : s.toList.foldl next a = b

theorem fixed_ofList (l : List Char) (h : l.count '<' ≤ openers l ∧ l.foldl next a = b) :
    Fixed (String.ofList l) a b := by
  constructor
  · rw [String.toList_ofList]
    exact h.1
  · rw [String.toList_ofList]
    exact h.2

theorem Fixed.append (hs : Fixed s a b) (ht : Fixed t b c) : Fixed (s ++ t) a c := by
  constructor
  · rw [String.toList_append, List.count_append]
    exact le_openers_append hs.definite ht.definite
  · rw [String.toList_append, List.foldl_append, hs.leads, ht.leads]

/-- Fixed text, and behind it a value that leads the tokenizer on to the state `c`. -/
theorem Fixed.cell (hs : Fixed s a b) (ht : Fixed t b b) (l : List Char)
    (h : l.count '<' ≤ openers l ∧ l.foldl next b = c) :
    Fixed (s ++ t ++ String.ofList l) a c :=
  (hs.append ht).append (fixed_ofList l h)

/-- A value without `<` and without `"`. It leaves the tokenizer in text where it was in text, and
in a quoted attribute where it was in one. -/
structure Neutral (s : String) : Prop where
  angle_notMem : '<' ∉ s.toList
  quote_notMem : '"' ∉ s.toList

theorem neutral_ofList (l : List Char) (h : '<' ∉ l ∧ '"' ∉ l) :
    Neutral (String.ofList l) := by
  constructor
  · rw [String.toList_ofList]
    exact h.1
  · rw [String.toList_ofList]
    exact h.2

theorem neutral_repr (n : ℕ) : Neutral n.repr :=
  ⟨notMem_repr (by decide) n, notMem_repr (by decide) n⟩

theorem neutral_int_repr (n : ℤ) : Neutral n.repr :=
  ⟨notMem_int_repr (by decide) (by decide) n, notMem_int_repr (by decide) (by decide) n⟩

theorem foldl_next_eq {l : List Char} (h : ∀ c ∈ l, next a c = a) : l.foldl next a = a := by
  induction l with
  | nil => rfl
  | cons c l ih =>
      rw [List.foldl_cons, h c List.mem_cons_self]
      exact ih fun d hd => h d (List.mem_cons_of_mem _ hd)

namespace Neutral

theorem definite (h : Neutral s) : s.toList.count '<' ≤ openers s.toList := by
  rw [List.count_eq_zero.mpr h.angle_notMem]
  exact Nat.zero_le _

theorem data (h : Neutral s) : Fixed s .data .data := by
  refine ⟨h.definite, foldl_next_eq fun c hc => ?_⟩
  rw [next, if_neg]
  rintro rfl
  exact h.angle_notMem hc

theorem quoted (h : Neutral s) : Fixed s .doubleQuoted .doubleQuoted := by
  refine ⟨h.definite, foldl_next_eq fun c hc => ?_⟩
  rw [next, if_neg]
  rintro rfl
  exact h.quote_notMem hc

end Neutral

theorem neutral_ite (p : Bool) (hs : Neutral s) (ht : Neutral t) :
    Neutral (if p then s else t) := by
  cases p
  · exact ht
  · exact hs

end Fixed

theorem neutral_keyType (k : KeyType) : Neutral k.name := by
  cases k <;> exact neutral_ofList _ (by decide)

theorem fixed_tableStart : Fixed tableStart .data .data :=
  (fixed_ofList (b := .data) _ (by decide +kernel)).append (fixed_ofList _ (by decide +kernel))

theorem fixed_tableEnd : Fixed tableEnd .data .data := fixed_ofList _ (by decide)

theorem fixed_beforeName : Fixed beforeName .data .data := fixed_ofList _ (by decide)

theorem fixed_beforePattern : Fixed beforePattern .data .data := fixed_ofList _ (by decide)

theorem fixed_beforeLimit : Fixed beforeLimit .data .data := fixed_ofList _ (by decide)

set_option maxRecDepth 2000 in
theorem fixed_rowEnd (r : Rule) : Fixed (rowEnd r) .data .data := by
  have hcolor : Neutral (if r.active then "var(--green)" else "var(--dim)") :=
    neutral_ite _ (neutral_ofList _ (by decide)) (neutral_ofList _ (by decide))
  have hstatus : Neutral (if r.active then "ACTIVE" else "OFF") :=
    neutral_ite _ (neutral_ofList _ (by decide)) (neutral_ofList _ (by decide))
  have hid : Fixed r.id.repr .doubleQuoted .doubleQuoted := (neutral_repr _).quoted
  unfold rowEnd
  refine Fixed.cell (.append (b := .doubleQuoted) (.cell (.cell (.cell (.cell (.cell (.append
    (neutral_int_repr _).data (fixed_ofList _ ?_)) (neutral_int_repr _).data _ ?_)
    (neutral_keyType _).data _ ?_) hcolor.quoted _ ?_) hstatus.data _ ?_) hid _ ?_)
    (fixed_ofList _ ?_)) hid _ ?_
  all_goals decide +kernel

/-! ### Rows that differ in name and pattern

For one row both directions are shown: what is read alike if nothing is opened, and how much more
markup there is if something is. -/

/-- How many `<` of the name and the pattern begin markup. -/
def injected (r : Rule) : ℕ := openers r.name.toList + openers r.pathPattern.toList

theorem injected_eq_zero_iff {r : Rule} : injected r = 0 ↔ ¬ CarriesMarkup r := by
  rw [injected, Nat.add_eq_zero_iff, openers_eq_zero_iff, openers_eq_zero_iff, CarriesMarkup,
    not_or]

theorem openers_of_plainLetters {s : String} (h : PlainLetters s) :
    s.toList.count '<' = 0 ∧ openers s.toList = 0 := by
  have hangle : '<' ∉ s.toList := fun hmem => absurd (h _ hmem) (by decide)
  have hcount := List.count_eq_zero.mpr hangle
  refine ⟨hcount, openers_eq_zero_iff.mpr ?_⟩
  rintro ⟨c, -, hc⟩
  exact hangle (hc.subset List.mem_cons_self)

theorem toList_ruleRow (r : Rule) : (ruleRow r).toList =
    beforeName.toList ++ (r.name.toList ++ beforePattern.toList) ++
      (r.pathPattern.toList ++ beforeLimit.toList) ++ (rowEnd r).toList := by
  simp only [ruleRow, String.toList_append, List.append_assoc]

theorem read_ruleRow (x : Reading) (r : Rule) : x.read (ruleRow r).toList =
    (((x.read beforeName.toList).read (r.name.toList ++ beforePattern.toList)).read
      (r.pathPattern.toList ++ beforeLimit.toList)).read (rowEnd r).toList := by
  simp only [toList_ruleRow, read_append]

section Rows

variable {r p : Rule} {x y : Reading}

/-- Two rows are read alike if the name and the pattern of neither open anything. -/
theorem alike_row (h : Alike x y) (hdata : x.state = .data) (hend : rowEnd p = rowEnd r)
    (hr : injected r = 0) (hp : injected p = 0) :
    Alike (x.read (ruleRow r).toList) (y.read (ruleRow p).toList) ∧
      (x.read (ruleRow r).toList).state = .data := by
  rw [injected, Nat.add_eq_zero_iff] at hr hp
  have hheads : beforePattern.toList.head? = some '<' ∧ beforeLimit.toList.head? = some '<' := by
    decide
  have hname : (x.read beforeName.toList).state = .data := by
    rw [state_read, hdata, fixed_beforeName.leads]
  have hpattern := (state_hole hname hr.1 hheads.1).trans fixed_beforePattern.leads
  have hlimit := (state_hole hpattern hr.2 hheads.2).trans fixed_beforeLimit.leads
  rw [read_ruleRow, read_ruleRow, hend]
  constructor
  · have hholes := ((h.read beforeName.toList).hole hname hr.1 hp.1 hheads.1).hole hpattern hr.2
      hp.2 hheads.2
    exact hholes.read _
  · rw [state_read, hlimit, (fixed_rowEnd r).leads]

/-- What a row of plain letters has in `<` opens markup in every other row, and what the name and
the pattern inject comes on top. -/
theorem count_row_le (hend : rowEnd p = rowEnd r) (hname : PlainLetters p.name)
    (hpattern : PlainLetters p.pathPattern) :
    (ruleRow p).toList.count '<' + injected r ≤ openers (ruleRow r).toList := by
  have hle := le_openers_append (le_openers_append (le_openers_append fixed_beforeName.definite
    (le_openers_append (le_refl (openers r.name.toList)) fixed_beforePattern.definite))
    (le_openers_append (le_refl (openers r.pathPattern.toList)) fixed_beforeLimit.definite))
    (fixed_rowEnd r).definite
  rw [toList_ruleRow, toList_ruleRow, hend, injected]
  simp only [List.count_append, (openers_of_plainLetters hname).1,
    (openers_of_plainLetters hpattern).1]
  omega

end Rows

/-! ### The whole table

The rows follow each other with nothing in between, and each of them ends in text. -/

section Table

variable {rules plain : List Rule} {x y : Reading}

theorem rowEnd_of_eq {r p : Rule}
    (h : p = { r with name := p.name, pathPattern := p.pathPattern }) : rowEnd p = rowEnd r := by
  rw [h]
  rfl

theorem toList_join_rows (rules : List Rule) : (String.join (rules.map ruleRow)).toList =
    rules.flatMap fun r => (ruleRow r).toList := by
  rw [String.toList_join, List.flatMap_map]

/-- The run lemma over the rows: two tables whose names and patterns open nothing are read alike. -/
theorem alike_rows (h : Relettered rules plain) (hnone : ∀ r ∈ rules, injected r = 0)
    (hxy : Alike x y) (hdata : x.state = .data) :
    Alike (x.read (String.join (rules.map ruleRow)).toList)
      (y.read (String.join (plain.map ruleRow)).toList) := by
  rw [toList_join_rows, toList_join_rows]
  induction h generalizing x y with
  | nil => exact hxy
  | @cons r p rules plain hp hrest ih =>
      obtain ⟨heq, hname, hpattern⟩ := hp
      rw [List.forall_mem_cons] at hnone
      have hplain : injected p = 0 := by
        rw [injected, (openers_of_plainLetters hname).2, (openers_of_plainLetters hpattern).2]
      obtain ⟨hrow, hstate⟩ := alike_row hxy hdata (rowEnd_of_eq heq) hnone.1 hplain
      rw [List.flatMap_cons, List.flatMap_cons, read_append, read_append]
      exact ih hnone.2 hrow hstate

theorem count_rows_le (h : Relettered rules plain) :
    (String.join (plain.map ruleRow)).toList.count '<' + (rules.map injected).sum ≤
      openers (String.join (rules.map ruleRow)).toList := by
  rw [toList_join_rows, toList_join_rows]
  induction h with
  | nil => exact le_rfl
  | @cons r p rules plain hp hrest ih =>
      obtain ⟨heq, hname, hpattern⟩ := hp
      have hle := le_openers_append (count_row_le (rowEnd_of_eq heq) hname hpattern) ih
      rw [List.flatMap_cons, List.flatMap_cons, List.count_append, List.map_cons, List.sum_cons]
      omega

theorem toList_loadRules (hne : rules ≠ []) : (loadRules rules).toList =
    tableStart.toList ++ (String.join (rules.map ruleRow)).toList ++ tableEnd.toList := by
  rw [loadRules, if_neg hne, String.toList_append, String.toList_append]

theorem markup_loadRules_eq (h : Relettered rules plain) (hnone : ∀ r ∈ rules, injected r = 0) :
    markup (loadRules rules).toList = markup (loadRules plain).toList := by
  cases h with
  | nil => rfl
  | cons hp hrest =>
      have hstart : Alike (Reading.start.read tableStart.toList)
          (Reading.start.read tableStart.toList) := ⟨rfl, rfl, rfl⟩
      have hdata : (Reading.start.read tableStart.toList).state = .data := by
        rw [state_read]
        exact fixed_tableStart.leads
      have hrows := (alike_rows (.cons hp hrest) hnone hstart hdata).read tableEnd.toList
      rw [markup, markup, tokens, tokens, toList_loadRules (List.cons_ne_nil _ _),
        toList_loadRules (List.cons_ne_nil _ _)]
      simp only [read_append]
      exact hrows.markupOf_finish

/-- Tables with the same markup have the same amount of it, so no name and no pattern of the first
has injected any. -/
theorem sum_injected_eq_zero (h : Relettered rules plain)
    (heq : markup (loadRules rules).toList = markup (loadRules plain).toList) :
    (rules.map injected).sum = 0 := by
  cases h with
  | nil => rfl
  | @cons r p rules plain hp hrest =>
      have hle := le_openers_append (le_openers_append fixed_tableStart.definite
        (count_rows_le (.cons hp hrest))) fixed_tableEnd.definite
      have hlower := openers_le_count_markup (loadRules (r :: rules)).toList
      have hupper := count_markup_le (loadRules (p :: plain)).toList
      have hplain : (loadRules (p :: plain)).toList.count '<' = tableStart.toList.count '<' +
          (String.join ((p :: plain).map ruleRow)).toList.count '<' +
            tableEnd.toList.count '<' := by
        rw [toList_loadRules (List.cons_ne_nil _ _), List.count_append, List.count_append]
      rw [heq, toList_loadRules (List.cons_ne_nil r rules)] at hlower
      omega

end Table

theorem tags_eq_iff (s t : String) : tags s = tags t ↔ markup s.toList = markup t.toList := by
  have hinj : Function.Injective String.ofList := fun _ _ => String.ofList_inj.mp
  exact (List.map_injective_iff.mpr hinj).eq_iff

/-- **When names leave the table alone.** The table has the tags that it has with names and
patterns of plain letters exactly when no name and no pattern has a `<` that begins markup. -/
theorem tags_loadRules_eq_iff {rules plain : List Rule} (h : Relettered rules plain) :
    tags (loadRules rules) = tags (loadRules plain) ↔ ∀ r ∈ rules, ¬ CarriesMarkup r := by
  simp only [tags_eq_iff, ← injected_eq_zero_iff]
  constructor
  · intro heq r hr
    exact List.sum_eq_zero_iff.mp (sum_injected_eq_zero h heq) _ (List.mem_map_of_mem hr)
  · exact markup_loadRules_eq h

/-- A name with a `<` in it that begins nothing, as in a comparison, leaves the tags alone. -/
theorem tags_loadRules_eq_comparison :
    tags (loadRules [⟨1, "a < b & c", "/proxy/*", 5, 60, .ip, true, 0⟩]) =
      tags (loadRules [⟨1, "abc", "proxy", 5, 60, .ip, true, 0⟩]) := by
  have hletters : PlainLetters "abc" ∧ PlainLetters "proxy" :=
    ⟨List.all_eq_true.mp (by decide), List.all_eq_true.mp (by decide)⟩
  refine (tags_loadRules_eq_iff (.cons ⟨rfl, hletters⟩ .nil)).mpr ?_
  intro r hr
  rw [List.mem_singleton.mp hr, ← injected_eq_zero_iff]
  decide

/-! ### A name with a tag

The shortest way in: the schema bounds the length of the name, and a tag is short. -/

def imageRule : RuleCreate where
  name := "<img src=x onerror=alert(1)>"
  pathPattern := "/proxy/*"
  limit := 5
  windowSeconds := 60
  name_length := by decide
  pathPattern_length := by decide
  limit_range := by decide
  windowSeconds_range := by decide

/-- A name that is a tag is accepted by the schema, and the table has one tag more for it. -/
theorem name_injects_tag :
    tags imageRule.name = [imageRule.name] ∧
      ¬ ∀ (db : RuleTable) (plain : List Rule), (∀ r ∈ db, Accepted r) →
        Relettered (listRules db) plain →
          tags (loadRules (listRules db)) = tags (loadRules plain) := by
  have hletters : PlainLetters "abc" ∧ PlainLetters "proxy" :=
    ⟨List.all_eq_true.mp (by decide), List.all_eq_true.mp (by decide)⟩
  have hlisted : Relettered (listRules [createRule imageRule 1 0])
      [⟨1, "abc", "proxy", 5, 60, .ip, true, 0⟩] := .cons ⟨rfl, hletters⟩ .nil
  refine ⟨by decide +kernel, ?_⟩
  intro hall
  have heq := hall _ _ (List.forall_mem_singleton.mpr ⟨imageRule, rfl, rfl⟩) hlisted
  have hsum := sum_injected_eq_zero hlisted ((tags_eq_iff _ _).mp heq)
  revert hsum
  decide

end RateGuardian
