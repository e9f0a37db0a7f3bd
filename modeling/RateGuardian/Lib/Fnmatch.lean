import Mathlib.Data.List.TakeDrop

/-!
# RateGuardian.Lib.Fnmatch

**Shell-style patterns**, as the standard library's `fnmatch.translate` reads them: `*`, `?`,
bracket expressions, and everything else literally. A pattern is parsed into tokens (`parse`), and
`matchTokens` runs them over the characters of a name.

A bracket without a closing `]` is literal. Inside one, the hyphens that form ranges are found from
the left; a range whose ends are in the wrong order is taken out. What is left is the text of a set
of the regular expression, and is read as one, so a `!` that comes to the front only then still
negates it.

Matching is structural on the tokens, and parsing on fuel, of which one for each character is enough
(`parse_eq_of_le`).
-/

namespace RateGuardian.Lib.Fnmatch

inductive Token
  | star
  | any
  /-- An empty set, which no character is in. -/
  | never
  | lit (c : Char)
  | set (negated : Bool) (chars : List Char) (ranges : List (Char × Char))
  deriving Repr, DecidableEq

/-- The text of a bracket expression and what follows its `]`, from the characters after `[`.
A `]` in first place, or after a first `!`, is part of the text. -/
def splitBracket (rest : List Char) : Option (List Char × List Char) :=
  let bang := if rest.head? = some '!' then 1 else 0
  let start := if (rest.drop bang).head? = some ']' then bang + 1 else bang
  match (rest.drop start).span (· ≠ ']') with
  | (body, _ :: tail) => some (rest.take start ++ body, tail)
  | (_, []) => none

/-- Split the text at the hyphens that form ranges: those with at least `least` characters
since the last one. -/
def chunks (least : ℕ) (chunk : List Char) : List Char → List (List Char)
  | [] => [chunk]
  | c :: cs =>
      if c = '-' ∧ least ≤ chunk.length then chunk :: chunks 2 [] cs
      else chunks least (chunk ++ [c]) cs

/-- A hyphen at the end is a character of the chunk before it. -/
def closeLast : List (List Char) → List (List Char)
  | [chunk, []] => [chunk ++ ['-']]
  | chunk :: rest => chunk :: closeLast rest
  | [] => []

/-- Take out the ranges whose ends are in the wrong order, joining the chunks around each. -/
def dropEmptyRanges (cs : List (List Char)) : List (List Char) :=
  cs.foldr (fun chunk rest => match chunk.getLast?, rest with
    | some lo, (hi :: more) :: rest =>
        if hi < lo then (chunk.dropLast ++ more) :: rest else chunk :: (hi :: more) :: rest
    | _, rest => chunk :: rest) []

/-- The ranges between consecutive chunks, from the last character of one to the first of
the next. -/
def rangesOf (cs : List (List Char)) : List (Char × Char) :=
  (cs.zip cs.tail).filterMap fun p => do return (← p.1.getLast?, ← p.2.head?)

/-- The text between the brackets, read as a set. A hyphen right after the `!` of the finished text
stands for itself; there is one when the empty ranges that were taken out leave only a `!` of what
was in front of a hyphen. -/
def bracketToken (text : List Char) : Token :=
  let least := if text.head? = some '!' then 2 else 1
  match dropEmptyRanges (closeLast (chunks least [] text)) with
  | [[]] => .never
  | [['!']] => .any
  | ['!'] :: rest => .set true ('-' :: rest.flatten) (rangesOf rest)
  | ('!' :: chunk) :: rest => .set true (chunk :: rest).flatten (rangesOf (chunk :: rest))
  | cs => .set false cs.flatten (rangesOf cs)

/-- The tokens of a pattern, at most `fuel` of them. -/
def parse : ℕ → List Char → List Token
  | 0, _ => []
  | _, [] => []
  | fuel + 1, '*' :: cs => .star :: parse fuel cs
  | fuel + 1, '?' :: cs => .any :: parse fuel cs
  | fuel + 1, '[' :: cs =>
      match splitBracket cs with
      | some (text, rest) => bracketToken text :: parse fuel rest
      | none => .lit '[' :: parse fuel cs
  | fuel + 1, c :: cs => .lit c :: parse fuel cs

theorem length_of_splitBracket {cs text rest : List Char}
    (h : splitBracket cs = some (text, rest)) : rest.length < cs.length := by
  have hspan : ∀ (xs body tail : List Char) (c : Char), xs.span (· ≠ ']') = (body, c :: tail) →
      tail.length < xs.length := by
    intro xs body tail c hxs
    rw [List.span_eq_takeWhile_dropWhile] at hxs
    have hle := (List.dropWhile_suffix (l := xs) (· ≠ ']')).length_le
    rw [(Prod.mk.inj hxs).2, List.length_cons] at hle
    omega
  unfold splitBracket at h
  simp only at h
  split at h
  next body c tail hxs =>
    have hlt := hspan _ _ _ _ hxs
    obtain ⟨-, rfl⟩ := Prod.mk.inj (Option.some.inj h)
    rw [List.length_drop] at hlt
    omega
  next => cases h

theorem exists_succ_of_length_le {c : Char} {cs : List Char} {fuel : ℕ}
    (h : (c :: cs).length ≤ fuel) : ∃ n, fuel = n + 1 ∧ cs.length ≤ n := by
  rw [List.length_cons] at h
  exact ⟨fuel - 1, by omega, by omega⟩

/-- Fuel for every character is enough: more of it changes nothing. -/
theorem parse_eq_of_le {fuel fuel' : ℕ} {cs : List Char} (h : cs.length ≤ fuel)
    (h' : cs.length ≤ fuel') : parse fuel cs = parse fuel' cs := by
  fun_induction parse fuel cs generalizing fuel' with
  | case1 cs =>
      obtain rfl := List.length_eq_zero_iff.mp (Nat.le_zero.mp h)
      cases fuel' <;> rfl
  | case2 => cases fuel' <;> rfl
  | case3 fuel cs ih | case4 fuel cs ih =>
      obtain ⟨fuel', rfl, hle⟩ := exists_succ_of_length_le h'
      rw [parse, ih (Nat.le_of_succ_le_succ h) hle]
  | case5 fuel cs text rest hsplit ih =>
      obtain ⟨fuel', rfl, hle⟩ := exists_succ_of_length_le h'
      have hlt := length_of_splitBracket hsplit
      have hle' := Nat.le_of_succ_le_succ h
      simp only [parse, hsplit]
      rw [@ih fuel' (by omega) (by omega)]
  | case6 fuel cs hnone ih =>
      obtain ⟨fuel', rfl, hle⟩ := exists_succ_of_length_le h'
      simp only [parse, hnone]
      rw [ih (Nat.le_of_succ_le_succ h) hle]
  | case7 fuel c cs hstar hany hbracket ih =>
      obtain ⟨fuel', rfl, hle⟩ := exists_succ_of_length_le h'
      rw [parse, ih (Nat.le_of_succ_le_succ h) hle]
      all_goals assumption

def Token.matchChar (c : Char) : Token → Bool
  | .star | .never => false
  | .any => true
  | .lit d => c = d
  | .set negated chars ranges =>
      (chars.contains c || ranges.any fun r => r.1 ≤ c && c ≤ r.2) != negated

def matchTokens : List Token → List Char → Bool
  | [], name => name.isEmpty
  | .star :: tokens, name => name.tails.any (matchTokens tokens)
  | _ :: _, [] => false
  | token :: tokens, c :: name => token.matchChar c && matchTokens tokens name

end Fnmatch

/-- `fnmatch.fnmatch(name, pattern)`, on a system whose file names have one case. -/
def fnmatch (name pattern : String) : Bool :=
  Fnmatch.matchTokens (Fnmatch.parse pattern.length pattern.toList) name.toList

example : fnmatch "/proxy/api.test/users" "/proxy/api.test/*" = true := by decide +kernel
example : fnmatch "/v1/a" "/v[!0-9]/?" = false := by decide +kernel
example : fnmatch "/v-/a" "/v[b-a0-]/?" = true := by decide +kernel
example : fnmatch "/vb/a" "/v[b-a!-c]/?" = true := by decide +kernel

end RateGuardian.Lib
