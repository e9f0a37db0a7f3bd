import RateGuardian.Lib.Dict
import Mathlib.Data.List.TakeDrop

/-!
# RateGuardian.Lib.Json

**JSON texts**, as Python's `json` module writes and reads them. `dumps` is `json.dumps` with its
defaults: everything but printable ASCII is escaped, characters beyond the 16-bit range as a pair of
surrogates. `loads` is `json.loads`; an object with a repeated key keeps the last value. Numbers are
integers here: a text with a floating-point number, a `NaN` or an unpaired surrogate is not read.

`loads_dumps`: every value whose dicts have distinct keys is read back from its text. The proof
follows the reader, and has a lemma for each thing that a text is made of:

* characters and strings. What is written for a character is read back as that character
  (`readChar_escapeChar`), with a case for each kind of escape;
* integers. Their digits are read up to the first character that cannot belong to a number, which is
  why the lemmas ask what the text goes on with (`EndsNumber`);
* lists and dicts, by an induction over the value (`readsBack_of_distinctKeys`), with a reader that
  has fuel for the whole text.

That the keys are distinct is needed: of a repeated key the reader keeps the last value, and in a
list of items it would stand at the place of the first.
-/

namespace RateGuardian.Lib

/-- The values of `json`, but for floating-point numbers. A dict is the list of its items. -/
inductive JsonValue
  | null
  | bool (b : Bool)
  | int (z : ℤ)
  | str (s : String)
  | list (vs : List JsonValue)
  | dict (items : List (String × JsonValue))

namespace Json

/-! ### Writing

Texts are lists of characters here, and strings at the two ends only, so that a reader can be
followed one character at a time. -/

/-- `\uXXXX`, with four hexadecimal digits in lower case. -/
def unicodeEscape (n : ℕ) : List Char :=
  ['\\', 'u', Nat.digitChar (n / 4096), Nat.digitChar (n / 256 % 16), Nat.digitChar (n / 16 % 16),
    Nat.digitChar (n % 16)]

def escapeChar (c : Char) : List Char :=
  if c = '"' then ['\\', '"']
  else if c = '\\' then ['\\', '\\']
  else if c = '\n' then ['\\', 'n']
  else if c = '\r' then ['\\', 'r']
  else if c = '\t' then ['\\', 't']
  else if c = '\x0c' then ['\\', 'f']
  else if c = '\x08' then ['\\', 'b']
  else if ' ' ≤ c ∧ c ≤ '~' then [c]
  else if c.toNat < 0x10000 then unicodeEscape c.toNat
  else unicodeEscape (0xd800 + (c.toNat - 0x10000) / 1024) ++
    unicodeEscape (0xdc00 + (c.toNat - 0x10000) % 1024)

def dumpsString (s : String) : List Char := '"' :: s.toList.flatMap escapeChar ++ ['"']

def dumpsInt : ℤ → List Char
  | .ofNat n => Nat.toDigits 10 n
  | .negSucc n => '-' :: Nat.toDigits 10 (n + 1)

mutual

def dumpsValue : JsonValue → List Char
  | .null => "null".toList
  | .bool true => "true".toList
  | .bool false => "false".toList
  | .int z => dumpsInt z
  | .str s => dumpsString s
  | .list [] => ['[', ']']
  | .list (v :: vs) => '[' :: dumpsValue v ++ dumpsItems vs
  | .dict [] => ['{', '}']
  | .dict ((k, v) :: items) =>
      '{' :: dumpsString k ++ ':' :: ' ' :: dumpsValue v ++ dumpsEntries items

/-- The rest of a list, behind its first item, with the closing bracket. -/
def dumpsItems : List JsonValue → List Char
  | [] => [']']
  | v :: vs => ',' :: ' ' :: dumpsValue v ++ dumpsItems vs

/-- The rest of a dict, behind its first item, with the closing brace. -/
def dumpsEntries : List (String × JsonValue) → List Char
  | [] => ['}']
  | (k, v) :: items =>
      ',' :: ' ' :: dumpsString k ++ ':' :: ' ' :: dumpsValue v ++ dumpsEntries items

end

/-- `json.dumps` with its defaults: a space behind each comma and colon, and ASCII only. -/
def dumps (v : JsonValue) : String := String.ofList (dumpsValue v)

/-! ### Reading

Each reader takes the characters that are left and returns what it has read with the characters
behind it, or nothing where the text is no JSON. The readers of values are recursive in a bound on
the characters, which the length of the text always is. -/

/-- The character that has to come next, or the text is no JSON. -/
def expect (c : Char) : List Char → Option (List Char)
  | d :: cs => if d = c then some cs else none
  | [] => none

@[simp] theorem expect_cons (c : Char) (cs : List Char) : expect c (c :: cs) = some cs := if_pos rfl

/-- The value of a hexadecimal digit, in either case. -/
def hexValue (c : Char) : Option ℕ :=
  if '0' ≤ c ∧ c ≤ '9' then some (c.toNat - 48)
  else if 'a' ≤ c ∧ c ≤ 'f' then some (c.toNat - 87)
  else if 'A' ≤ c ∧ c ≤ 'F' then some (c.toNat - 55)
  else none

/-- The four digits of an escape. -/
def readHex : List Char → Option (ℕ × List Char)
  | a :: b :: c :: d :: cs => do
      let a ← hexValue a
      let b ← hexValue b
      let c ← hexValue c
      let d ← hexValue d
      return (((a * 16 + b) * 16 + c) * 16 + d, cs)
  | _ => none

/-- What stands after `\u`: one escape, or the first of a pair. -/
def readUnicode (cs : List Char) : Option (Char × List Char) := do
  let (n, cs) ← readHex cs
  if 0xd800 ≤ n ∧ n ≤ 0xdbff then do
    let cs ← expect '\\' cs
    let cs ← expect 'u' cs
    let (m, cs) ← readHex cs
    if 0xdc00 ≤ m ∧ m ≤ 0xdfff then
      return (Char.ofNat (0x10000 + (n - 0xd800) * 1024 + (m - 0xdc00)), cs)
    else none
  else if 0xdc00 ≤ n ∧ n ≤ 0xdfff then none
  else return (Char.ofNat n, cs)

/-- What stands after a backslash. -/
def readEscape : List Char → Option (Char × List Char)
  | '"' :: cs => some ('"', cs)
  | '\\' :: cs => some ('\\', cs)
  | '/' :: cs => some ('/', cs)
  | 'b' :: cs => some ('\x08', cs)
  | 'f' :: cs => some ('\x0c', cs)
  | 'n' :: cs => some ('\n', cs)
  | 'r' :: cs => some ('\r', cs)
  | 't' :: cs => some ('\t', cs)
  | 'u' :: cs => readUnicode cs
  | _ => none

/-- One character of a string, which is not its closing quote. -/
def readChar : List Char → Option (Char × List Char)
  | [] => none
  | c :: cs =>
      if c = '\\' then readEscape cs
      else if c.toNat < 0x20 then none
      else some (c, cs)

/-- The rest of a string, up to its closing quote. -/
def scanString : ℕ → List Char → Option (List Char × List Char)
  | 0, _ => none
  | _, [] => none
  | n + 1, c :: cs =>
      if c = '"' then some ([], cs)
      else do
        let (c, cs) ← readChar (c :: cs)
        let (s, cs) ← scanString n cs
        return (c :: s, cs)

def scanNat : List Char → Option (ℕ × List Char)
  | [] => none
  | c :: cs =>
      if c = '0' then some (0, cs)
      else if c.isDigit then
        some (Nat.ofDigitChars 10 ((c :: cs).takeWhile Char.isDigit) 0,
          (c :: cs).dropWhile Char.isDigit)
      else none

/-- What a number goes on with if it is none of the integers. -/
def isFloat : List Char → Bool
  | c :: _ => c = '.' ∨ c = 'e' ∨ c = 'E'
  | [] => false

def scanInt (cs : List Char) : Option (ℤ × List Char) := do
  let negative := cs.head? = some '-'
  let (n, cs) ← scanNat (if negative then cs.tail else cs)
  if isFloat cs then none else return (if negative then -n else n, cs)

def isSpace (c : Char) : Bool := c = ' ' ∨ c = '\t' ∨ c = '\n' ∨ c = '\r'

def skipSpace (cs : List Char) : List Char := cs.dropWhile isSpace

/-- The name of a constant, `null`, `true` or `false`. -/
def scanConstant (cs : List Char) : Option (JsonValue × List Char) :=
  if "null".toList.isPrefixOf cs then some (.null, cs.drop 4)
  else if "true".toList.isPrefixOf cs then some (.bool true, cs.drop 4)
  else if "false".toList.isPrefixOf cs then some (.bool false, cs.drop 5)
  else none

mutual

/-- A value; `n` bounds the characters that are read. -/
def scanOnce : ℕ → List Char → Option (JsonValue × List Char)
  | 0, _ => none
  | _, [] => none
  | n + 1, c :: cs =>
      if c = '"' then do
        let (s, cs) ← scanString n cs
        return (.str (String.ofList s), cs)
      else if c = '[' then do
        let (vs, cs) ← scanList n (skipSpace cs)
        return (.list vs, cs)
      else if c = '{' then do
        let (items, cs) ← scanDict n (skipSpace cs)
        return (.dict (Dict.ofList items), cs)
      else if c = '-' ∨ c.isDigit then do
        let (z, cs) ← scanInt (c :: cs)
        return (.int z, cs)
      else scanConstant (c :: cs)

/-- The inside of a list, from behind its opening bracket. -/
def scanList : ℕ → List Char → Option (List JsonValue × List Char)
  | 0, _ => none
  | n + 1, cs =>
      if cs.head? = some ']' then some ([], cs.tail)
      else do
        let (v, cs) ← scanOnce n cs
        let (vs, cs) ← scanItems n (skipSpace cs)
        return (v :: vs, cs)

/-- The inside of a list from the end of an item on. -/
def scanItems : ℕ → List Char → Option (List JsonValue × List Char)
  | 0, _ => none
  | _, [] => none
  | n + 1, c :: cs =>
      if c = ']' then some ([], cs)
      else if c = ',' then do
        let (v, cs) ← scanOnce n (skipSpace cs)
        let (vs, cs) ← scanItems n (skipSpace cs)
        return (v :: vs, cs)
      else none

/-- The inside of a dict, from behind its opening brace. -/
def scanDict : ℕ → List Char → Option (List (String × JsonValue) × List Char)
  | 0, _ => none
  | n + 1, cs =>
      if cs.head? = some '}' then some ([], cs.tail)
      else scanItem n cs

/-- A key, its value and the items after it. -/
def scanItem : ℕ → List Char → Option (List (String × JsonValue) × List Char)
  | 0, _ => none
  | _, [] => none
  | n + 1, c :: cs =>
      if c = '"' then do
        let (k, cs) ← scanString n cs
        let cs ← expect ':' (skipSpace cs)
        let (v, cs) ← scanOnce n (skipSpace cs)
        let (items, cs) ← scanEntries n (skipSpace cs)
        return ((String.ofList k, v) :: items, cs)
      else none

/-- The inside of a dict from the end of an item on. -/
def scanEntries : ℕ → List Char → Option (List (String × JsonValue) × List Char)
  | 0, _ => none
  | _, [] => none
  | n + 1, c :: cs =>
      if c = '}' then some ([], cs)
      else if c = ',' then scanItem n (skipSpace cs)
      else none

end

/-- `json.loads`; nothing where it raises. -/
def loads (s : String) : Option JsonValue := do
  let (v, cs) ← scanOnce (s.toList.length + 1) (skipSpace s.toList)
  if skipSpace cs = [] then return v else none

/-! ### Characters and strings

From a character to a string by induction over the string: no character is written in a way that
begins like the closing quote. -/

theorem hexValue_digitChar {d : ℕ} (h : d < 16) : hexValue (Nat.digitChar d) = some d :=
  (by decide : ∀ d < 16, hexValue (Nat.digitChar d) = some d) d h

theorem readHex_digits {n : ℕ} (h : n < 0x10000) (cs : List Char) :
    readHex ((unicodeEscape n).drop 2 ++ cs) = some (n, cs) := by
  have h₁ : n / 4096 < 16 := by omega
  have h₂ : n / 256 % 16 < 16 := Nat.mod_lt _ (by decide)
  have h₃ : n / 16 % 16 < 16 := Nat.mod_lt _ (by decide)
  have h₄ : n % 16 < 16 := Nat.mod_lt _ (by decide)
  have hn : ((n / 4096 * 16 + n / 256 % 16) * 16 + n / 16 % 16) * 16 + n % 16 = n := by omega
  simp [unicodeEscape, readHex, hexValue_digitChar h₁, hexValue_digitChar h₂,
    hexValue_digitChar h₃, hexValue_digitChar h₄, hn]

/-- Escaping and reading back, in the 16-bit range. -/
theorem readUnicode_bmp {c : Char} (h : c.toNat < 0x10000) (cs : List Char) :
    readUnicode ((unicodeEscape c.toNat).drop 2 ++ cs) = some (c, cs) := by
  have hvalid : c.toNat < 0xd800 ∨ 0xdfff < c.toNat := by
    rcases c.valid with hlow | hhigh
    · exact Or.inl hlow
    · exact Or.inr hhigh.1
  rw [readUnicode, readHex_digits h]
  have hhigh : ¬ (0xd800 ≤ c.toNat ∧ c.toNat ≤ 0xdbff) := by omega
  have hlow : ¬ (0xdc00 ≤ c.toNat ∧ c.toNat ≤ 0xdfff) := by omega
  simp [hhigh, hlow]

/-- Beyond that range a character is written as a pair of surrogates, and read back from it. -/
theorem readUnicode_pair {c : Char} (h : ¬ c.toNat < 0x10000) (cs : List Char) :
    readUnicode ((unicodeEscape (0xd800 + (c.toNat - 0x10000) / 1024)).drop 2 ++
      (unicodeEscape (0xdc00 + (c.toNat - 0x10000) % 1024) ++ cs)) = some (c, cs) := by
  have hmax : c.toNat < 0x110000 := by
    rcases c.valid with hlow | hhigh
    · exact absurd (Nat.lt_of_lt_of_le hlow (by decide)) h
    · exact hhigh.2
  generalize hhi : (c.toNat - 0x10000) / 1024 = hi
  generalize hlo : (c.toNat - 0x10000) % 1024 = lo
  have hpair : 0x10000 + hi * 1024 + lo = c.toNat := by omega
  have hsecond : unicodeEscape (0xdc00 + lo) =
      '\\' :: 'u' :: (unicodeEscape (0xdc00 + lo)).drop 2 := rfl
  have hhigh : 0xd800 ≤ 0xd800 + hi ∧ 0xd800 + hi ≤ 0xdbff := by omega
  have hlow : 0xdc00 ≤ 0xdc00 + lo ∧ 0xdc00 + lo ≤ 0xdfff := by omega
  rw [readUnicode, readHex_digits (by omega), hsecond, Option.bind_eq_bind, Option.bind_some]
  dsimp only
  rw [if_pos hhigh, List.cons_append, List.cons_append, expect_cons, Option.bind_eq_bind,
    Option.bind_some, expect_cons, Option.bind_some, readHex_digits (by omega), Option.bind_some]
  dsimp only
  rw [if_pos hlow, Nat.add_sub_cancel_left, Nat.add_sub_cancel_left, hpair, Char.ofNat_toNat]
  rfl

theorem readChar_of_ne {c : Char} (hslash : c ≠ '\\') (hprint : ¬ c.toNat < 0x20)
    (cs : List Char) : readChar (c :: cs) = some (c, cs) := by
  rw [readChar, if_neg hslash, if_neg hprint]

/-- A character is read back from what is written for it. -/
theorem readChar_escapeChar (c : Char) (cs : List Char) :
    readChar (escapeChar c ++ cs) = some (c, cs) := by
  rw [escapeChar]
  split_ifs with hquote hslash hn hr ht hf hb hprint hbmp
  · rw [hquote]
    rfl
  · rw [hslash]
    rfl
  · rw [hn]
    rfl
  · rw [hr]
    rfl
  · rw [ht]
    rfl
  · rw [hf]
    rfl
  · rw [hb]
    rfl
  · exact readChar_of_ne hslash (Nat.not_lt.mpr hprint.1) cs
  · exact readUnicode_bmp hbmp cs
  · rw [List.append_assoc]
    exact readUnicode_pair hbmp cs

/-- What is written for a character does not begin like the end of the string. -/
theorem escapeChar_head (c : Char) : ∃ d ds, escapeChar c = d :: ds ∧ d ≠ '"' := by
  rw [escapeChar]
  split_ifs with hquote
  case pos => exact ⟨'\\', ['"'], rfl, by decide⟩
  all_goals first
    | exact ⟨c, [], rfl, hquote⟩
    | exact ⟨'\\', _, rfl, by decide⟩

theorem scanString_escaped (cs rest : List Char) {n : ℕ} (h : cs.length < n) :
    scanString n (cs.flatMap escapeChar ++ '"' :: rest) = some (cs, rest) := by
  induction cs generalizing n with
  | nil =>
      obtain ⟨n, rfl⟩ := Nat.exists_eq_add_one_of_ne_zero (Nat.ne_of_gt h)
      rfl
  | cons c cs ih =>
      obtain ⟨n, rfl⟩ := Nat.exists_eq_add_one_of_ne_zero (Nat.ne_of_gt (Nat.zero_lt_of_lt h))
      obtain ⟨d, ds, hd, hquote⟩ := escapeChar_head c
      have hread := readChar_escapeChar c (cs.flatMap escapeChar ++ '"' :: rest)
      rw [List.flatMap_cons, List.append_assoc]
      rw [hd, List.cons_append] at hread ⊢
      rw [scanString, if_neg hquote, hread]
      simp [ih (Nat.lt_of_succ_lt_succ h)]

/-! ### Integers -/

/-- The least significant digit aside, the digits of a number are those of its tenth. -/
theorem head_toDigits {n : ℕ} (h : n ≠ 0) : (Nat.toDigits 10 n).head? ≠ some '0' := by
  induction n using Nat.strong_induction_on with
  | _ n ih =>
      by_cases hlt : n < 10
      · rw [Nat.toDigits_of_lt_base hlt]
        exact (by decide : ∀ n < 10, n ≠ 0 → [Nat.digitChar n].head? ≠ some '0') n hlt h
      · have hlt' : n / 10 < n := Nat.div_lt_self (Nat.pos_of_ne_zero h) (by decide)
        have hne : n / 10 ≠ 0 := (Nat.div_pos (Nat.not_lt.mp hlt) (by decide)).ne'
        rw [Nat.toDigits_of_base_le (by decide) (Nat.not_lt.mp hlt),
          List.head?_append_of_ne_nil _ Nat.toDigits_ne_nil]
        exact ih _ hlt' hne

theorem exists_cons_toDigits (n : ℕ) :
    ∃ c cs, Nat.toDigits 10 n = c :: cs ∧ c.isDigit = true := by
  obtain ⟨c, cs, hc⟩ := List.exists_cons_of_ne_nil (@Nat.toDigits_ne_nil n 10)
  refine ⟨c, cs, hc, @Nat.isDigit_of_mem_toDigits 10 n c (by decide) (by decide) ?_⟩
  rw [hc]
  exact List.mem_cons_self

/-- What may come after a number: nothing that would belong to it. -/
def EndsNumber (cs : List Char) : Prop := ∀ c ∈ cs.head?, c.isDigit = false ∧ isFloat cs = false

theorem isFloat_of_endsNumber {cs : List Char} (h : EndsNumber cs) : isFloat cs = false := by
  cases cs with
  | nil => rfl
  | cons c cs => exact (h c rfl).2

theorem scanNat_toDigits (n : ℕ) {rest : List Char} (h : EndsNumber rest) :
    scanNat (Nat.toDigits 10 n ++ rest) = some (n, rest) := by
  have hdigits : ∀ c ∈ Nat.toDigits 10 n, c.isDigit = true := fun c hc =>
    Nat.isDigit_of_mem_toDigits (by decide) (by decide) hc
  obtain ⟨c, cs, hc, hdigit⟩ := exists_cons_toDigits n
  by_cases hzero : n = 0
  · subst hzero
    rfl
  · have hhead := head_toDigits hzero
    have hstop : rest.takeWhile Char.isDigit = [] ∧ rest.dropWhile Char.isDigit = rest := by
      cases rest with
      | nil => exact ⟨rfl, rfl⟩
      | cons d ds => simp [(h d rfl).1]
    have hspan : (Nat.toDigits 10 n ++ rest).takeWhile Char.isDigit = Nat.toDigits 10 n ∧
        (Nat.toDigits 10 n ++ rest).dropWhile Char.isDigit = rest := by
      rw [List.takeWhile_append_of_pos hdigits, List.dropWhile_append_of_pos hdigits, hstop.1,
        hstop.2, List.append_nil]
      exact ⟨rfl, rfl⟩
    have hfirst : c ≠ '0' := by
      rw [hc] at hhead
      exact fun heq => hhead (congrArg some heq)
    rw [hc] at hspan ⊢
    rw [List.cons_append] at hspan ⊢
    rw [scanNat, if_neg hfirst, if_pos hdigit, hspan.1, hspan.2, ← hc,
      Nat.ofDigitChars_toDigits (by decide) (by decide)]

theorem scanInt_dumpsInt (z : ℤ) {rest : List Char} (h : EndsNumber rest) :
    scanInt (dumpsInt z ++ rest) = some (z, rest) := by
  have hfloat := isFloat_of_endsNumber h
  cases z with
  | ofNat n =>
      obtain ⟨c, cs, hc, hdigit⟩ := exists_cons_toDigits n
      have hminus : c ≠ '-' := by
        rintro rfl
        exact absurd hdigit (by decide)
      have hscan := scanNat_toDigits n h
      rw [dumpsInt, scanInt]
      rw [hc, List.cons_append] at hscan ⊢
      simp [hminus, hscan, hfloat]
  | negSucc n =>
      rw [dumpsInt, scanInt]
      simp [scanNat_toDigits (n + 1) h, hfloat, Int.negSucc_eq]

/-! ### Values

`ReadsBack` says of a value that it is read back in the middle of a longer text. An item of a list
is followed by a comma or a bracket, and neither belongs to a number, so that the items can be read
one after the other. -/

/-- No dict in the value has a key twice, at any depth. -/
inductive DistinctKeys : JsonValue → Prop
  | null : DistinctKeys .null
  | bool (b : Bool) : DistinctKeys (.bool b)
  | int (z : ℤ) : DistinctKeys (.int z)
  | str (s : String) : DistinctKeys (.str s)
  | list {vs : List JsonValue} (h : ∀ v ∈ vs, DistinctKeys v) : DistinctKeys (.list vs)
  | dict {items : List (String × JsonValue)} (hkeys : (items.map Prod.fst).Nodup)
      (h : ∀ e ∈ items, DistinctKeys e.2) : DistinctKeys (.dict items)

theorem dumpsInt_head (z : ℤ) : ∃ c cs, dumpsInt z = c :: cs ∧ (c = '-' ∨ c.isDigit = true) := by
  cases z with
  | ofNat n =>
      obtain ⟨c, cs, hc, hdigit⟩ := exists_cons_toDigits n
      exact ⟨c, cs, hc, Or.inr hdigit⟩
  | negSucc n => exact ⟨'-', _, rfl, Or.inl rfl⟩

/-- A text begins with neither a space nor the end of a list. -/
theorem dumpsValue_head (v : JsonValue) :
    ∃ c cs, dumpsValue v = c :: cs ∧ isSpace c = false ∧ c ≠ ']' := by
  cases v with
  | null => exact ⟨'n', _, rfl, rfl, by decide⟩
  | bool b =>
      cases b with
      | true => exact ⟨'t', _, rfl, rfl, by decide⟩
      | false => exact ⟨'f', _, rfl, rfl, by decide⟩
  | int z =>
      obtain ⟨c, cs, hc, hfirst⟩ := dumpsInt_head z
      have hne : ∀ d, d ≠ '-' → d.isDigit = false → c ≠ d := by
        rintro d hminus hdigit rfl
        rcases hfirst with rfl | hc
        · exact hminus rfl
        · exact absurd hc (Bool.eq_false_iff.mp hdigit)
      refine ⟨c, cs, hc, ?_, hne ']' (by decide) rfl⟩
      simp only [isSpace, hne ' ' (by decide) rfl, hne '\t' (by decide) rfl,
        hne '\n' (by decide) rfl, hne '\r' (by decide) rfl, or_self, decide_false]
  | str s => exact ⟨'"', _, rfl, rfl, by decide⟩
  | list vs =>
      cases vs with
      | nil => exact ⟨'[', _, rfl, rfl, by decide⟩
      | cons v vs => exact ⟨'[', _, rfl, rfl, by decide⟩
  | dict items =>
      cases items with
      | nil => exact ⟨'{', _, rfl, rfl, by decide⟩
      | cons e items => exact ⟨'{', _, rfl, rfl, by decide⟩

theorem length_dumpsValue_pos (v : JsonValue) : 0 < (dumpsValue v).length := by
  obtain ⟨c, cs, hc, -⟩ := dumpsValue_head v
  rw [hc]
  exact Nat.succ_pos _

theorem skipSpace_of_not_space {c : Char} (h : isSpace c = false) (cs : List Char) :
    skipSpace (c :: cs) = c :: cs :=
  List.dropWhile_cons_of_neg (by simp [h])

theorem skipSpace_dumpsValue (v : JsonValue) (rest : List Char) :
    skipSpace (dumpsValue v ++ rest) = dumpsValue v ++ rest := by
  obtain ⟨c, cs, hc, hspace, -⟩ := dumpsValue_head v
  rw [hc]
  exact skipSpace_of_not_space hspace _

theorem skipSpace_space (cs : List Char) : skipSpace (' ' :: cs) = skipSpace cs := rfl

/-- `v` is read back, from a text that is long enough and goes on with something else. -/
def ReadsBack (v : JsonValue) : Prop :=
  ∀ n rest, (dumpsValue v).length ≤ n → EndsNumber rest →
    scanOnce n (dumpsValue v ++ rest) = some (v, rest)

theorem endsNumber_cons {c : Char} {cs : List Char} (hdigit : c.isDigit = false)
    (hfloat : isFloat (c :: cs) = false) : EndsNumber (c :: cs) := by
  intro d hd
  obtain rfl := Option.some.inj hd
  exact ⟨hdigit, hfloat⟩

theorem dumpsItems_head (vs : List JsonValue) (rest : List Char) :
    EndsNumber (dumpsItems vs ++ rest) ∧
      skipSpace (dumpsItems vs ++ rest) = dumpsItems vs ++ rest := by
  cases vs with
  | nil => exact ⟨endsNumber_cons rfl rfl, rfl⟩
  | cons v vs => exact ⟨endsNumber_cons rfl rfl, rfl⟩

theorem dumpsEntries_head (items : List (String × JsonValue)) (rest : List Char) :
    EndsNumber (dumpsEntries items ++ rest) ∧
      skipSpace (dumpsEntries items ++ rest) = dumpsEntries items ++ rest := by
  cases items with
  | nil => exact ⟨endsNumber_cons rfl rfl, rfl⟩
  | cons e items => exact ⟨endsNumber_cons rfl rfl, rfl⟩

theorem length_dumpsItems_pos (vs : List JsonValue) : 0 < (dumpsItems vs).length := by
  cases vs with
  | nil => exact Nat.zero_lt_one
  | cons v vs => exact Nat.succ_pos _

theorem length_dumpsEntries_pos (items : List (String × JsonValue)) :
    0 < (dumpsEntries items).length := by
  cases items with
  | nil => exact Nat.zero_lt_one
  | cons e items => exact Nat.succ_pos _

theorem scanItems_dumpsItems {vs : List JsonValue} (h : ∀ v ∈ vs, ReadsBack v) {n : ℕ}
    (hn : (dumpsItems vs).length ≤ n) (rest : List Char) :
    scanItems n (dumpsItems vs ++ rest) = some (vs, rest) := by
  induction vs generalizing n with
  | nil =>
      obtain ⟨n, rfl⟩ := Nat.exists_eq_add_one_of_ne_zero (Nat.ne_of_gt hn)
      rfl
  | cons v vs ih =>
      obtain ⟨hv, hvs⟩ := List.forall_mem_cons.mp h
      simp only [dumpsItems, List.length_cons, List.length_append] at hn
      obtain ⟨n, rfl⟩ := Nat.exists_eq_add_one_of_ne_zero (show n ≠ 0 by omega)
      obtain ⟨hends, hskip⟩ := dumpsItems_head vs rest
      have hvalue := hv n (dumpsItems vs ++ rest) (by omega) hends
      have hrest := @ih hvs n (by omega)
      simp [dumpsItems, scanItems, skipSpace_space, skipSpace_dumpsValue, hvalue, hskip, hrest]

theorem length_le_flatMap_escapeChar (cs : List Char) :
    cs.length ≤ (cs.flatMap escapeChar).length := by
  induction cs with
  | nil => exact Nat.zero_le _
  | cons c cs ih =>
      obtain ⟨d, ds, hd, -⟩ := escapeChar_head c
      rw [List.flatMap_cons, List.length_append, hd, List.length_cons, List.length_cons]
      omega

theorem scanString_dumpsString (s : String) (rest : List Char) {n : ℕ}
    (hn : (dumpsString s).length ≤ n + 2) :
    scanString (n + 1) (s.toList.flatMap escapeChar ++ '"' :: rest) = some (s.toList, rest) := by
  refine scanString_escaped _ _ ?_
  have hle := length_le_flatMap_escapeChar s.toList
  simp only [dumpsString, List.length_append, List.length_cons, List.length_nil] at hn
  omega

theorem skipSpace_dumpsString (s : String) (cs : List Char) :
    skipSpace (dumpsString s ++ cs) = dumpsString s ++ cs := rfl

/-- An item whose value is read back, and those after it. -/
theorem scanItem_dumpsString {k : String} {v : JsonValue} {items : List (String × JsonValue)}
    (hv : ReadsBack v) {n : ℕ} {rest : List Char}
    (hn : (dumpsString k).length + (dumpsValue v).length ≤ n + 1)
    (hitems : scanEntries n (dumpsEntries items ++ rest) = some (items, rest)) :
    scanItem (n + 1) (dumpsString k ++ ':' :: ' ' :: dumpsValue v ++
      (dumpsEntries items ++ rest)) = some ((k, v) :: items, rest) := by
  have hpos := length_dumpsValue_pos v
  have hstring : 2 ≤ (dumpsString k).length := by
    simp only [dumpsString, List.length_append, List.length_cons, List.length_nil]
    omega
  obtain ⟨n, rfl⟩ := Nat.exists_eq_add_one_of_ne_zero (show n ≠ 0 by omega)
  obtain ⟨hends, hskip⟩ := dumpsEntries_head items rest
  have hkey := @scanString_dumpsString k (':' :: ' ' :: (dumpsValue v ++
    (dumpsEntries items ++ rest))) n (by omega)
  have hvalue := hv (n + 1) (dumpsEntries items ++ rest) (by omega) hends
  have hcolon : isSpace ':' = false := rfl
  simp [dumpsString, scanItem, hkey, skipSpace_of_not_space hcolon, skipSpace_space,
    skipSpace_dumpsValue, hvalue, hskip, hitems]

theorem scanEntries_dumpsEntries {items : List (String × JsonValue)}
    (h : ∀ e ∈ items, ReadsBack e.2) {n : ℕ} (hn : (dumpsEntries items).length ≤ n)
    (rest : List Char) : scanEntries n (dumpsEntries items ++ rest) = some (items, rest) := by
  induction items generalizing n with
  | nil =>
      obtain ⟨n, rfl⟩ := Nat.exists_eq_add_one_of_ne_zero (Nat.ne_of_gt hn)
      rfl
  | cons e items ih =>
      obtain ⟨k, v⟩ := e
      obtain ⟨hv, hitems⟩ := List.forall_mem_cons.mp h
      simp only [dumpsEntries, List.length_cons, List.length_append] at hn
      obtain ⟨n, rfl⟩ := Nat.exists_eq_add_of_le' (show 2 ≤ n by omega)
      have hrest := @ih hitems n (by omega)
      have hitem := @scanItem_dumpsString k v items hv n rest (by omega) hrest
      simp only [dumpsEntries, List.cons_append, List.append_assoc] at hitem ⊢
      rw [scanEntries, if_neg (by decide), if_pos rfl, skipSpace_space, skipSpace_dumpsString]
      exact hitem

theorem ReadsBack.of_succ {v : JsonValue} (h : ∀ n rest, (dumpsValue v).length ≤ n + 1 →
    EndsNumber rest → scanOnce (n + 1) (dumpsValue v ++ rest) = some (v, rest)) :
    ReadsBack v := by
  intro n rest hn hends
  have hpos := length_dumpsValue_pos v
  obtain ⟨n, rfl⟩ := Nat.exists_eq_add_one_of_ne_zero (show n ≠ 0 by omega)
  exact h n rest hn hends

theorem readsBack_int (z : ℤ) : ReadsBack (.int z) := by
  refine .of_succ fun n rest _ hends => ?_
  have hscan := scanInt_dumpsInt z hends
  obtain ⟨c, cs, hc, hfirst⟩ := dumpsInt_head z
  have hne : c ≠ '"' ∧ c ≠ '[' ∧ c ≠ '{' := by
    refine ⟨?_, ?_, ?_⟩
    all_goals
      rintro rfl
      revert hfirst
      decide
  rw [dumpsValue, hc, List.cons_append]
  rw [hc, List.cons_append] at hscan
  rw [scanOnce, if_neg hne.1, if_neg hne.2.1, if_neg hne.2.2, if_pos hfirst, hscan]
  rfl

theorem readsBack_str (s : String) : ReadsBack (.str s) := by
  refine .of_succ fun n rest hn _ => ?_
  rw [dumpsValue] at hn ⊢
  have htwo : 2 ≤ (dumpsString s).length := by
    simp only [dumpsString, List.length_append, List.length_cons, List.length_nil]
    omega
  obtain ⟨n, rfl⟩ := Nat.exists_eq_add_one_of_ne_zero (show n ≠ 0 by omega)
  simp [dumpsString, scanOnce, scanString_dumpsString s rest hn]

theorem readsBack_list {vs : List JsonValue} (h : ∀ v ∈ vs, ReadsBack v) :
    ReadsBack (.list vs) := by
  refine .of_succ fun n rest hn _ => ?_
  cases vs with
  | nil =>
      have htwo : 2 ≤ n + 1 := hn
      obtain ⟨n, rfl⟩ := Nat.exists_eq_add_one_of_ne_zero (show n ≠ 0 by omega)
      rfl
  | cons v vs =>
      obtain ⟨hv, hvs⟩ := List.forall_mem_cons.mp h
      have hpos := length_dumpsValue_pos v
      have hpos' := length_dumpsItems_pos vs
      simp only [dumpsValue, List.length_cons, List.length_append] at hn
      obtain ⟨n, rfl⟩ := Nat.exists_eq_add_one_of_ne_zero (show n ≠ 0 by omega)
      obtain ⟨hends, hskip⟩ := dumpsItems_head vs rest
      have hvalue := hv n (dumpsItems vs ++ rest) (by omega) hends
      have hrest := @scanItems_dumpsItems vs hvs n (by omega) rest
      obtain ⟨c, cs, hc, -, hne⟩ := dumpsValue_head v
      have hhead : (dumpsValue v ++ (dumpsItems vs ++ rest)).head? ≠ some ']' := by
        rw [hc]
        exact fun heq => hne (Option.some.inj heq)
      have htext : dumpsValue (.list (v :: vs)) ++ rest =
          '[' :: (dumpsValue v ++ (dumpsItems vs ++ rest)) := by
        simp [dumpsValue]
      rw [htext, scanOnce, if_neg (by decide), if_pos rfl, skipSpace_dumpsValue, scanList,
        if_neg hhead, hvalue]
      simp [hskip, hrest]

theorem readsBack_dict {items : List (String × JsonValue)} (hkeys : (items.map Prod.fst).Nodup)
    (h : ∀ e ∈ items, ReadsBack e.2) : ReadsBack (.dict items) := by
  refine .of_succ fun n rest hn _ => ?_
  cases items with
  | nil =>
      have htwo : 2 ≤ n + 1 := hn
      obtain ⟨n, rfl⟩ := Nat.exists_eq_add_one_of_ne_zero (show n ≠ 0 by omega)
      rfl
  | cons e items =>
      obtain ⟨k, v⟩ := e
      obtain ⟨hv, hitems⟩ := List.forall_mem_cons.mp h
      have hpos := length_dumpsValue_pos v
      have hpos' := length_dumpsEntries_pos items
      simp only [dumpsValue, List.length_cons, List.length_append] at hn
      obtain ⟨n, rfl⟩ := Nat.exists_eq_add_of_le' (show 2 ≤ n by omega)
      have hrest := @scanEntries_dumpsEntries items hitems n (by omega) rest
      have hitem := @scanItem_dumpsString k v items hv n rest (by omega) hrest
      have hhead : (dumpsString k ++ ':' :: ' ' :: dumpsValue v ++
          (dumpsEntries items ++ rest)).head? ≠ some '}' := by
        rw [dumpsString]
        exact fun heq => absurd (Option.some.inj heq) (by decide)
      have htext : dumpsValue (.dict ((k, v) :: items)) ++ rest = '{' :: (dumpsString k ++
          ':' :: ' ' :: dumpsValue v ++ (dumpsEntries items ++ rest)) := by
        simp [dumpsValue]
      rw [htext, scanOnce, if_neg (by decide), if_neg (by decide), if_pos rfl, List.append_assoc,
        skipSpace_dumpsString, ← List.append_assoc, scanDict, if_neg hhead, hitem]
      simp [Dict.ofList_of_nodup hkeys]

/-- The induction over a value, by the ways it can have distinct keys. -/
theorem readsBack_of_distinctKeys {v : JsonValue} (h : DistinctKeys v) : ReadsBack v := by
  induction h with
  | null => exact .of_succ fun _ _ _ _ => rfl
  | bool b =>
      cases b with
      | true => exact .of_succ fun _ _ _ _ => rfl
      | false => exact .of_succ fun _ _ _ _ => rfl
  | int z => exact readsBack_int z
  | str s => exact readsBack_str s
  | list _ ih => exact readsBack_list ih
  | dict hkeys _ ih => exact readsBack_dict hkeys ih

/-- **Round trip.** A value is read back from its text. -/
theorem loads_dumps {v : JsonValue} (h : DistinctKeys v) : loads (dumps v) = some v := by
  have hread := readsBack_of_distinctKeys h ((dumpsValue v).length + 1) [] (Nat.le_succ _) nofun
  have hskip := skipSpace_dumpsValue v []
  rw [List.append_nil] at hread hskip
  rw [loads, dumps, String.toList_ofList, hskip, hread]
  rfl

end Json

end RateGuardian.Lib
