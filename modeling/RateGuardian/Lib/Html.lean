import Mathlib.Data.List.Basic
import Mathlib.Data.List.Infix
import Mathlib.Tactic.SplitIfs

/-!
# RateGuardian.Lib.Html

**HTML as its tokenizer reads it.** `next` is the tokenizer's transition function, as far as it
decides where text ends and markup begins: markup is a tag, a comment or a declaration, in its
source text, and `tokens` are the markup and the single characters of text of a document. Markup
that is cut off by the end of the document counts as well.

The states are HTML's. A declaration ends at the next `>` as a bogus comment does, and the two share
a state. The elements whose content is read as text (`script`, `style`, `textarea`) are tags like
all others here.

What the library is for is to compare documents that differ in the text they show:

* a text in which no `<` has a character behind it that opens markup is read as text, wherever it
  comes in the data state (`read_of_not_opens`), and two documents that differ in such texts only
  have the same markup (`Alike`);
* conversely each `<` that opens markup ends up in the markup, wherever the text comes
  (`openers_le_angles`). So counting the `<` of the markup shows that a text has added some.

`tableOf` reads a document as the rows of a table, by its `</td>` and `</tr>` tags.
-/

namespace RateGuardian.Lib.Html

/-! ### The tokenizer -/

inductive TokenizerState
  | data
  /-- After `<`, which is text until a character follows that opens markup. -/
  | tagOpen
  | endTagOpen
  | tagName
  | beforeAttributeName
  | attributeName
  | afterAttributeName
  | beforeAttributeValue
  | doubleQuoted
  | singleQuoted
  | unquoted
  | afterQuoted
  | selfClosing
  | markupDeclarationOpen
  | markupDeclarationDash
  | bogusComment
  | commentStart
  | commentStartDash
  | comment
  | commentEndDash
  | commentEnd
  | commentEndBang
  deriving DecidableEq

def isSpace (c : Char) : Bool := c = ' ' || c = '\n' || c = '\t' || c = '\r' || c = '\x0c'

namespace TokenizerState

def inMarkup : TokenizerState → Bool
  | .data | .tagOpen => false
  | _ => true

/-- What ends a name or a quoted value in a tag, or else goes on. -/
def inTag (space other : TokenizerState) (c : Char) : TokenizerState :=
  if isSpace c then space else if c = '/' then .selfClosing else if c = '>' then .data else other

def next : TokenizerState → Char → TokenizerState
  | .data, c => if c = '<' then .tagOpen else .data
  | .tagOpen, c =>
      if c = '/' then .endTagOpen
      else if c = '!' then .markupDeclarationOpen
      else if c = '?' then .bogusComment
      else if c.isAlpha then .tagName
      else if c = '<' then .tagOpen
      else .data
  | .endTagOpen, c => if c.isAlpha then .tagName else if c = '>' then .data else .bogusComment
  | .tagName, c => inTag .beforeAttributeName .tagName c
  | .beforeAttributeName, c | .afterQuoted, c | .selfClosing, c =>
      inTag .beforeAttributeName .attributeName c
  | .attributeName, c | .afterAttributeName, c =>
      if c = '=' then .beforeAttributeValue else inTag .afterAttributeName .attributeName c
  | .beforeAttributeValue, c =>
      if isSpace c then .beforeAttributeValue
      else if c = '"' then .doubleQuoted
      else if c = '\'' then .singleQuoted
      else if c = '>' then .data
      else .unquoted
  | .doubleQuoted, c => if c = '"' then .afterQuoted else .doubleQuoted
  | .singleQuoted, c => if c = '\'' then .afterQuoted else .singleQuoted
  | .unquoted, c =>
      if isSpace c then .beforeAttributeName else if c = '>' then .data else .unquoted
  | .markupDeclarationOpen, c =>
      if c = '-' then .markupDeclarationDash else if c = '>' then .data else .bogusComment
  | .markupDeclarationDash, c =>
      if c = '-' then .commentStart else if c = '>' then .data else .bogusComment
  | .bogusComment, c => if c = '>' then .data else .bogusComment
  | .commentStart, c =>
      if c = '-' then .commentStartDash else if c = '>' then .data else .comment
  | .commentStartDash, c => if c = '-' then .commentEnd else if c = '>' then .data else .comment
  | .comment, c => if c = '-' then .commentEndDash else .comment
  | .commentEndDash, c => if c = '-' then .commentEnd else .comment
  | .commentEnd, c =>
      if c = '>' then .data
      else if c = '!' then .commentEndBang
      else if c = '-' then .commentEnd
      else .comment
  | .commentEndBang, c =>
      if c = '-' then .commentEndDash else if c = '>' then .data else .comment

end TokenizerState

open TokenizerState

inductive Token
  | char (c : Char)
  | markup (source : List Char)
  deriving DecidableEq

/-- How far a document has been read: the state, the tokens so far, and the markup that
has begun. -/
structure Reading where
  state : TokenizerState
  /-- The markup that has begun. -/
  current : List Char
  tokens : List Token
  deriving DecidableEq

namespace Reading

def start : Reading := ⟨.data, [], []⟩

/-- The text that a `<` before the next character is, if it opens nothing. -/
def pending : TokenizerState → List Token
  | .tagOpen => [.char '<']
  | _ => []

def step (r : Reading) (c : Char) : Reading :=
  let s := next r.state c
  if r.state.inMarkup then
    if s = .data then ⟨s, [], r.tokens ++ [.markup (r.current ++ [c])]⟩
    else ⟨s, r.current ++ [c], r.tokens⟩
  else if s.inMarkup then ⟨s, ['<', c], r.tokens⟩
  else ⟨s, [], r.tokens ++ (pending r.state ++ if s = .tagOpen then [] else [.char c])⟩

def read (r : Reading) (t : List Char) : Reading := t.foldl step r

def finish (r : Reading) : List Token :=
  r.tokens ++ if r.state.inMarkup then [.markup r.current] else pending r.state

end Reading

open Reading

def tokens (t : List Char) : List Token := (start.read t).finish

def markupOf (ts : List Token) : List (List Char) :=
  ts.filterMap fun t => match t with
    | .char _ => none
    | .markup source => some source

/-- The tags, comments and declarations of a document, in their source text. -/
def markup (t : List Char) : List (List Char) := markupOf (tokens t)

example : markup "a < b <b x='<i>'>c</b>".toList = ["<b x='<i>'>".toList, "</b>".toList] := by
  decide

/-! ### Tables -/

/-- The rows of a table as far as they have been read. -/
structure TableReading where
  rows : List (List String)
  /-- The cells of the row that has begun. -/
  row : List String
  /-- The text since the last tag. -/
  text : List Char

namespace TableReading

def start : TableReading := ⟨[], [], []⟩

def step (t : TableReading) : Token → TableReading
  | .char c => { t with text := t.text ++ [c] }
  | .markup source =>
      if source = "</td>".toList then ⟨t.rows, t.row ++ [String.ofList t.text], []⟩
      else if source = "</tr>".toList then ⟨t.rows ++ [t.row], [], []⟩
      else { t with text := [] }

end TableReading

/-- The text of the cells of each row, in the order of the document. -/
def tableOf (html : String) : List (List String) :=
  ((tokens html.toList).foldl TableReading.step .start).rows

/-! ### Text that opens markup -/

def opener (c : Char) : Bool := c = '/' || c = '!' || c = '?' || c.isAlpha

/-- A `<` with a character behind it that makes it the beginning of markup. -/
def OpensMarkup (t : List Char) : Prop := ∃ c, opener c ∧ ['<', c] <:+: t

/-- How many such `<` there are in a text. -/
def openers : List Char → ℕ
  | [] => 0
  | [_] => 0
  | c :: d :: t => (if c = '<' ∧ opener d then 1 else 0) + openers (d :: t)

/-! ### Steps -/

section Next

variable {s : TokenizerState} {c : Char}

theorem next_of_inMarkup (hs : s.inMarkup) : next s c = .data ∨ (next s c).inMarkup := by
  cases s with
  | data | tagOpen => cases hs
  | _ =>
      simp only [next, inTag]
      split_ifs <;> simp [inMarkup]

theorem ne_angle_of_opener (hc : opener c) : c ≠ '<' := by
  rintro rfl
  exact absurd hc (by decide)

theorem next_tagOpen_of_opener (hc : opener c) : (next .tagOpen c).inMarkup := by
  simp only [opener, Bool.or_eq_true, decide_eq_true_eq] at hc
  rcases hc with ((rfl | rfl) | rfl) | halpha
  · rfl
  · rfl
  · rfl
  · simp only [next, if_pos halpha]
    split_ifs <;> rfl

theorem next_tagOpen_of_not_opener (hc : ¬ opener c) :
    next .tagOpen c = if c = '<' then .tagOpen else .data := by
  simp only [opener, Bool.or_eq_true, decide_eq_true_eq, not_or] at hc
  obtain ⟨⟨⟨hslash, hbang⟩, hquestion⟩, halpha⟩ := hc
  rw [next, if_neg hslash, if_neg hbang, if_neg hquestion, if_neg halpha]

theorem next_of_text (hs : s.inMarkup = false) (hnext : (next s c).inMarkup) :
    s = .tagOpen ∧ opener c := by
  cases s with
  | data =>
      rw [next] at hnext
      split_ifs at hnext <;> cases hnext
  | tagOpen =>
      refine ⟨rfl, ?_⟩
      by_contra hc
      rw [next_tagOpen_of_not_opener hc] at hnext
      split_ifs at hnext <;> cases hnext
  | _ => cases hs

theorem next_angle (hs : s.inMarkup = false) : next s '<' = .tagOpen := by
  cases s with
  | data | tagOpen => rfl
  | _ => cases hs

theorem next_of_ne_angle (hs : s.inMarkup = false) (hc : c ≠ '<') : next s c ≠ .tagOpen := by
  cases s with
  | data => simp [next, hc]
  | tagOpen =>
      simp only [next, if_neg hc]
      split_ifs <;> nofun
  | _ => cases hs

end Next

section Reading

variable {r r' : Reading} {c : Char} {s t : List Char} {ts : List Token}

@[simp] theorem read_nil : r.read [] = r := rfl

@[simp] theorem read_cons : r.read (c :: t) = (r.step c).read t := rfl

theorem read_append : r.read (s ++ t) = (r.read s).read t := List.foldl_append

@[simp] theorem markupOf_append (ts ts' : List Token) :
    markupOf (ts ++ ts') = markupOf ts ++ markupOf ts' := List.filterMap_append

@[simp] theorem markupOf_nil : markupOf [] = [] := rfl

@[simp] theorem markupOf_char (ts : List Token) : markupOf (.char c :: ts) = markupOf ts := rfl

@[simp] theorem markupOf_markup (ts : List Token) : markupOf (.markup s :: ts) = s :: markupOf ts :=
  rfl

@[simp] theorem markupOf_pending (s : TokenizerState) : markupOf (pending s) = [] := by
  cases s <;> rfl

theorem state_step : (r.step c).state = next r.state c := by
  rw [Reading.step]
  split_ifs <;> rfl

theorem step_markup (hr : r.state.inMarkup) (hnext : next r.state c = .data) :
    r.step c = ⟨.data, [], r.tokens ++ [.markup (r.current ++ [c])]⟩ := by
  rw [step, if_pos hr, if_pos hnext, hnext]

theorem step_inMarkup (hr : r.state.inMarkup) (hnext : next r.state c ≠ .data) :
    r.step c = ⟨next r.state c, r.current ++ [c], r.tokens⟩ := by
  rw [step, if_pos hr, if_neg hnext]

theorem step_opener (hr : r.state = .tagOpen) (hc : opener c) :
    r.step c = ⟨next .tagOpen c, ['<', c], r.tokens⟩ := by
  rw [step, hr, if_neg nofun, if_pos (next_tagOpen_of_opener hc)]

theorem step_text (hr : r.state.inMarkup = false) (hnext : (next r.state c).inMarkup = false) :
    r.step c = ⟨next r.state c, [],
      r.tokens ++ (pending r.state ++ if next r.state c = .tagOpen then [] else [.char c])⟩ := by
  rw [step, if_neg (by simp [hr]), if_neg (by simp [hnext])]

/-! ### How many `<` are in the markup -/

/-- The number of `<` in the markup that has been read. -/
def Reading.angles (r : Reading) : ℕ := (markupOf r.finish).flatten.count '<'

/-- Whether the last `<` may still open markup. -/
def Reading.waiting (r : Reading) : ℕ := if r.state = .tagOpen then 1 else 0

theorem angles_of_inMarkup (hr : r.state.inMarkup) :
    r.angles = (markupOf r.tokens).flatten.count '<' + r.current.count '<' := by
  simp [Reading.angles, finish, hr]

theorem angles_of_text (hr : r.state.inMarkup = false) :
    r.angles = (markupOf r.tokens).flatten.count '<' := by
  simp [Reading.angles, finish, hr]

theorem angles_step_inMarkup (hr : r.state.inMarkup) :
    (r.step c).angles = r.angles + [c].count '<' := by
  rw [angles_of_inMarkup hr]
  by_cases hnext : next r.state c = .data
  · rw [step_markup hr hnext, angles_of_text rfl]
    simp [Nat.add_assoc]
  · have hin := (next_of_inMarkup hr).resolve_left hnext
    rw [step_inMarkup hr hnext, angles_of_inMarkup hin, List.count_append, Nat.add_assoc]

theorem angles_step_opener (hr : r.state = .tagOpen) (hc : opener c) :
    (r.step c).angles = r.angles + 1 := by
  have htext : r.state.inMarkup = false := by rw [hr]; rfl
  rw [step_opener hr hc, angles_of_inMarkup (next_tagOpen_of_opener hc), angles_of_text htext]
  simp [ne_angle_of_opener hc]

theorem angles_step_text (hr : r.state.inMarkup = false)
    (hnext : (next r.state c).inMarkup = false) : (r.step c).angles = r.angles := by
  rw [step_text hr hnext, angles_of_text hnext, angles_of_text hr]
  by_cases htag : next r.state c = .tagOpen
  · simp [htag]
  · simp [htag]

theorem angles_le_step : r.angles ≤ (r.step c).angles := by
  cases hr : r.state.inMarkup with
  | true =>
      rw [angles_step_inMarkup hr]
      exact Nat.le_add_right _ _
  | false =>
      cases hnext : (next r.state c).inMarkup with
      | true =>
          obtain ⟨htag, hc⟩ := next_of_text hr hnext
          rw [angles_step_opener htag hc]
          exact Nat.le_succ _
      | false => exact (angles_step_text hr hnext).ge

/-- One character adds at most one `<`, which may have been waiting. -/
theorem angles_step_le :
    (r.step c).angles + (r.step c).waiting ≤ r.angles + r.waiting + [c].count '<' := by
  rw [Reading.waiting, Reading.waiting, state_step]
  cases hr : r.state.inMarkup with
  | true =>
      have hnot : next r.state c ≠ .tagOpen := by
        intro htag
        rcases @next_of_inMarkup _ c hr with h | h
        · cases htag.symm.trans h
        · rw [htag] at h
          cases h
      rw [angles_step_inMarkup hr, if_neg hnot]
      omega
  | false =>
      cases hnext : (next r.state c).inMarkup with
      | true =>
          obtain ⟨htag, hc⟩ := next_of_text hr hnext
          have hnot : next r.state c ≠ .tagOpen := by
            intro h
            rw [h] at hnext
            cases hnext
          rw [angles_step_opener htag hc, if_neg hnot, if_pos htag]
          omega
      | false =>
          rw [angles_step_text hr hnext]
          by_cases hc : c = '<'
          · subst hc
            simp only [List.count_singleton_self]
            split_ifs <;> omega
          · rw [if_neg (next_of_ne_angle hr hc)]
            omega

theorem angles_read_le (t : List Char) :
    (r.read t).angles + (r.read t).waiting ≤ r.angles + r.waiting + t.count '<' := by
  induction t generalizing r with
  | nil => exact le_rfl
  | cons c t ih =>
      have hstep := @angles_step_le r c
      have hrest := @ih (r.step c)
      rw [read_cons, ← List.singleton_append, List.count_append]
      omega

/-! ### What is in the markup in any case -/

theorem openers_cons_of_ne (hc : c ≠ '<') (t : List Char) : openers (c :: t) = openers t := by
  cases t with
  | nil => rfl
  | cons d t => rw [openers, if_neg (fun h => hc h.1), Nat.zero_add]

theorem openers_angle_cons (c : Char) (t : List Char) :
    openers ('<' :: c :: t) = (if opener c then 1 else 0) + openers (c :: t) := by
  simp [openers]

theorem openers_cons_le (c : Char) (t : List Char) :
    openers (c :: t) ≤ [c].count '<' + openers t := by
  cases t with
  | nil => exact Nat.zero_le _
  | cons d t =>
      by_cases hc : c = '<'
      · subst hc
        rw [openers_angle_cons, List.count_singleton_self]
        split_ifs <;> omega
      · rw [openers_cons_of_ne hc]
        exact Nat.le_add_left _ _

/-- Each `<` that opens markup in a text is in the markup, wherever the text comes. -/
theorem openers_le_angles (t : List Char) (r : Reading) :
    r.angles + openers t ≤ (r.read t).angles ∧
      (r.state = .tagOpen → r.angles + openers ('<' :: t) ≤ (r.read t).angles) := by
  induction t generalizing r with
  | nil => exact ⟨le_rfl, fun _ => le_rfl⟩
  | cons c t ih =>
      have hfirst : r.angles + openers (c :: t) ≤ (r.read (c :: t)).angles := by
        have hmono := @angles_le_step r c
        obtain ⟨hrest, hwaiting⟩ := ih (r.step c)
        rw [read_cons]
        by_cases hc : c = '<'
        · subst hc
          cases hr : r.state.inMarkup with
          | true =>
              have hle := openers_cons_le '<' t
              rw [angles_step_inMarkup hr] at hrest
              omega
          | false =>
              -- the `<` waits for the character behind it
              have htag := hwaiting (state_step.trans (next_angle hr))
              omega
        · rw [openers_cons_of_ne hc]
          omega
      refine ⟨hfirst, ?_⟩
      intro hr
      rw [openers_angle_cons]
      by_cases hc : opener c
      · have hrest := (ih (r.step c)).1
        rw [angles_step_opener hr hc] at hrest
        rw [if_pos hc, openers_cons_of_ne (ne_angle_of_opener hc), read_cons]
        omega
      · rw [if_neg hc]
        omega

theorem openers_append (s t : List Char) : openers s + openers t ≤ openers (s ++ t) := by
  induction s with
  | nil => simp [openers]
  | cons c s ih =>
      by_cases hc : c = '<'
      · subst hc
        cases s with
        | nil =>
            cases t with
            | nil => exact le_rfl
            | cons d t =>
                rw [List.singleton_append, openers_angle_cons]
                simp [openers]
        | cons d s =>
            rw [List.cons_append, List.cons_append, openers_angle_cons, openers_angle_cons]
            rw [List.cons_append] at ih
            omega
      · rw [List.cons_append, openers_cons_of_ne hc, openers_cons_of_ne hc]
        exact ih

theorem le_openers_append {m n : ℕ} (hs : m ≤ openers s) (ht : n ≤ openers t) :
    m + n ≤ openers (s ++ t) :=
  (Nat.add_le_add hs ht).trans (openers_append s t)

theorem openers_eq_zero_iff : openers t = 0 ↔ ¬ OpensMarkup t := by
  induction t with
  | nil => simp [openers, OpensMarkup]
  | cons c t ih =>
      cases t with
      | nil =>
          refine iff_of_true rfl ?_
          rintro ⟨d, -, hd⟩
          have hlen := hd.length_le
          simp at hlen
      | cons d t =>
          have hsplit : OpensMarkup (c :: d :: t) ↔ (c = '<' ∧ opener d) ∨ OpensMarkup (d :: t) := by
            simp only [OpensMarkup, List.infix_cons_iff (a := c), List.cons_prefix_cons,
              List.nil_prefix, and_true, and_or_left, exists_or]
            refine or_congr_left ?_
            constructor
            · rintro ⟨x, hx, rfl, rfl⟩
              exact ⟨rfl, hx⟩
            · rintro ⟨rfl, hd⟩
              exact ⟨d, hd, rfl, rfl⟩
          rw [hsplit, not_or, ← ih, openers]
          by_cases hcd : c = '<' ∧ opener d
          · simp [hcd]
          · simp [hcd]

/-! ### Text -/

variable {cur : List Char}

theorem step_data (hc : c ≠ '<') :
    (⟨.data, cur, ts⟩ : Reading).step c = ⟨.data, [], ts ++ [.char c]⟩ := by
  simp [Reading.step, next, hc, inMarkup, pending]

theorem step_data_angle : (⟨.data, cur, ts⟩ : Reading).step '<' = ⟨.tagOpen, [], ts⟩ := by
  simp [Reading.step, next, inMarkup, pending]

theorem step_tagOpen (hc : c ≠ '<') (hopener : ¬ opener c) :
    (⟨.tagOpen, cur, ts⟩ : Reading).step c = ⟨.data, [], ts ++ [.char '<', .char c]⟩ := by
  simp [Reading.step, next_tagOpen_of_not_opener hopener, hc, inMarkup, pending]

theorem step_tagOpen_angle :
    (⟨.tagOpen, cur, ts⟩ : Reading).step '<' = ⟨.tagOpen, [], ts ++ [.char '<']⟩ := by
  simp [Reading.step, next, inMarkup, pending]

/-- A text that opens nothing is text, up to a `<` behind it. -/
theorem read_of_not_opens (t : List Char) (ts : List Token) (cur : List Char) :
    (openers t = 0 → (⟨.data, cur, ts⟩ : Reading).read (t ++ ['<']) =
      ⟨.tagOpen, [], ts ++ t.map .char⟩) ∧
    (openers ('<' :: t) = 0 → (⟨.tagOpen, cur, ts⟩ : Reading).read (t ++ ['<']) =
      ⟨.tagOpen, [], ts ++ ('<' :: t).map .char⟩) := by
  induction t generalizing ts cur with
  | nil =>
      constructor
      · intro _
        rw [List.nil_append, read_cons, step_data_angle, List.map_nil, List.append_nil]
        rfl
      · intro _
        rw [List.nil_append, read_cons, step_tagOpen_angle]
        rfl
  | cons c t ih =>
      constructor
      · intro ht
        rw [List.cons_append, read_cons]
        by_cases hc : c = '<'
        · subst hc
          rw [step_data_angle]
          exact (ih ts []).2 ht
        · rw [openers_cons_of_ne hc] at ht
          rw [step_data hc, (ih _ _).1 ht]
          simp
      · intro ht
        rw [openers_angle_cons, Nat.add_eq_zero_iff] at ht
        obtain ⟨hopener, ht⟩ := ht
        have hnot : ¬ opener c := fun h => by simp [h] at hopener
        rw [List.cons_append, read_cons]
        by_cases hc : c = '<'
        · subst hc
          rw [step_tagOpen_angle, (ih _ _).2 ht]
          simp
        · rw [openers_cons_of_ne hc] at ht
          rw [step_tagOpen hc hnot, (ih _ _).1 ht]
          simp

/-- A text without `<` is text, character by character. -/
theorem read_of_notMem (ht : '<' ∉ t) (ts : List Token) :
    (⟨.data, [], ts⟩ : Reading).read t = ⟨.data, [], ts ++ t.map .char⟩ := by
  induction t generalizing ts with
  | nil => simp
  | cons c t ih =>
      rw [List.mem_cons, not_or] at ht
      rw [read_cons, step_data (Ne.symm ht.1), ih ht.2]
      simp

/-- The state does not depend on what has been read before. -/
theorem state_read (r : Reading) (t : List Char) : (r.read t).state = t.foldl next r.state := by
  induction t generalizing r with
  | nil => rfl
  | cons c t ih => rw [read_cons, ih, state_step, List.foldl_cons]

/-- What was read before stays in front of what is read then. -/
theorem read_tokens (s : TokenizerState) (cur : List Char) (t : List Char) (ts ts' : List Token) :
    (⟨s, cur, ts ++ ts'⟩ : Reading).read t =
      let r := (⟨s, cur, ts'⟩ : Reading).read t
      ⟨r.state, r.current, ts ++ r.tokens⟩ := by
  induction t generalizing s cur ts' with
  | nil => rfl
  | cons c t ih =>
      have hstep : (⟨s, cur, ts ++ ts'⟩ : Reading).step c =
          ⟨((⟨s, cur, ts'⟩ : Reading).step c).state, ((⟨s, cur, ts'⟩ : Reading).step c).current,
            ts ++ ((⟨s, cur, ts'⟩ : Reading).step c).tokens⟩ := by
        simp only [Reading.step]
        split_ifs <;> simp
      rw [read_cons, read_cons, hstep, ih]

/-! ### Two documents with the same markup -/

/-- Readings of two documents that are in the same state and have met the same markup. -/
structure Alike (r r' : Reading) : Prop where
  state : r.state = r'.state
  current : r.current = r'.current
  markup : markupOf r.tokens = markupOf r'.tokens

theorem Alike.step (h : Alike r r') (c : Char) : Alike (r.step c) (r'.step c) := by
  obtain ⟨hstate, hcurrent, hmarkup⟩ := h
  rw [Reading.step, Reading.step, hstate, hcurrent]
  split_ifs <;> exact ⟨rfl, rfl, by simp [hmarkup]⟩

theorem Alike.read (h : Alike r r') (t : List Char) : Alike (r.read t) (r'.read t) := by
  induction t generalizing r r' with
  | nil => exact h
  | cons c t ih => exact ih (h.step c)

theorem Alike.markupOf_finish (h : Alike r r') : markupOf r.finish = markupOf r'.finish := by
  rw [finish, finish, markupOf_append, markupOf_append, h.markup, h.state, h.current]

/-- Texts that open nothing may differ, up to a `<` behind them. -/
theorem Alike.text (h : Alike r r') (hdata : r.state = .data) (hs : openers s = 0)
    (ht : openers t = 0) : Alike (r.read (s ++ ['<'])) (r'.read (t ++ ['<'])) := by
  obtain ⟨hstate, -, hmarkup⟩ := h
  rw [hdata] at hstate
  obtain ⟨state, cur, ts⟩ := r
  obtain ⟨state', cur', ts'⟩ := r'
  obtain rfl : state = .data := hdata
  obtain rfl : .data = state' := hstate
  rw [(read_of_not_opens s ts cur).1 hs, (read_of_not_opens t ts' cur').1 ht]
  refine ⟨rfl, rfl, ?_⟩
  have hnone : ∀ l : List Char, markupOf (l.map .char) = [] := by
    intro l
    induction l with
    | nil => rfl
    | cons c l ih => exact ih
  rw [markupOf_append, markupOf_append, hmarkup, hnone, hnone]

/-- A text in a hole of a document: what follows it begins with a `<`. -/
theorem Alike.hole (h : Alike r r') (hdata : r.state = .data) (hs : openers s = 0)
    (ht : openers t = 0) {f : List Char} (hf : f.head? = some '<') :
    Alike (r.read (s ++ f)) (r'.read (t ++ f)) := by
  obtain ⟨g, rfl⟩ := List.head?_eq_some_iff.mp hf
  rw [List.append_cons, List.append_cons t, read_append (s := s ++ ['<']),
    read_append (s := t ++ ['<'])]
  exact (h.text hdata hs ht).read g

theorem state_hole (hdata : r.state = .data) (hs : openers s = 0) {f : List Char}
    (hf : f.head? = some '<') : (r.read (s ++ f)).state = f.foldl next .data := by
  obtain ⟨g, rfl⟩ := List.head?_eq_some_iff.mp hf
  obtain ⟨state, cur, ts⟩ := r
  obtain rfl : state = .data := hdata
  rw [List.append_cons, read_append (s := s ++ ['<']), (read_of_not_opens s ts cur).1 hs,
    state_read]
  rfl

/-! ### Reading a table -/

/-- The text is read as whole tokens, and they take the table from `u` to `v`. -/
def Fills (html : String) (u v : TableReading) : Prop :=
  ∃ out, (∀ ts, (⟨.data, [], ts⟩ : Reading).read html.toList = ⟨.data, [], ts ++ out⟩) ∧
    out.foldl TableReading.step u = v

section Fills

variable {x y : String} {u v w : TableReading}

theorem Fills.append (hx : Fills x u v) (hy : Fills y v w) : Fills (x ++ y) u w := by
  obtain ⟨out, hread, hfold⟩ := hx
  obtain ⟨out', hread', hfold'⟩ := hy
  refine ⟨out ++ out', ?_, ?_⟩
  · intro ts
    rw [String.toList_append, read_append, hread, hread', List.append_assoc]
  · rw [List.foldl_append, hfold, hfold']

theorem fills_ofList (l : List Char) (out : List Token)
    (h : Reading.start.read l = ⟨.data, [], out⟩) (u : TableReading) :
    Fills (String.ofList l) u (out.foldl TableReading.step u) := by
  refine ⟨out, ?_, rfl⟩
  intro ts
  have hread := read_tokens .data [] l ts []
  rw [List.append_nil] at hread
  rw [String.toList_ofList, hread, ← start, h]

theorem foldl_step_text (l : List Char) (u : TableReading) :
    (l.map Token.char).foldl TableReading.step u = { u with text := u.text ++ l } := by
  induction l generalizing u with
  | nil => simp
  | cons c l ih =>
      rw [List.map_cons, List.foldl_cons, ih, TableReading.step]
      simp

theorem fills_text (hx : '<' ∉ x.toList) (u : TableReading) :
    Fills x u { u with text := u.text ++ x.toList } :=
  ⟨_, read_of_notMem hx, foldl_step_text _ u⟩

theorem Fills.tableOf_eq (h : Fills x .start v) : tableOf x = v.rows := by
  obtain ⟨out, hread, hfold⟩ := h
  have hfinish : (⟨.data, [], [] ++ out⟩ : Reading).finish = out := by
    simp [finish, inMarkup, pending]
  rw [tableOf, tokens, start, hread, hfinish, hfold]

end Fills

/-! ### Whole documents -/

theorem openers_le_count_markup (t : List Char) : openers t ≤ (markup t).flatten.count '<' := by
  have hstart : start.angles = 0 := rfl
  have hle := (openers_le_angles t start).1
  rwa [hstart, Nat.zero_add] at hle

theorem count_markup_le (t : List Char) : (markup t).flatten.count '<' ≤ t.count '<' := by
  have hstart : start.angles + start.waiting = 0 := rfl
  have hle := @angles_read_le start t
  rw [hstart, Nat.zero_add] at hle
  exact (Nat.le_add_right _ _).trans hle

end Reading

end RateGuardian.Lib.Html
