import Mathlib.Data.List.Infix

/-!
# RateGuardian.Lib.Replacement

**Replacing every occurrence of a text by another**, from left to right and without overlap.

What is inserted is not read again. `replaceAll_eq_self_iff` says when a text is left alone, and
`infix_append_cons` cuts the search for an occurrence at a symbol that the sought text has not.

The scan goes symbol by symbol and is structural on the text: while it is inside of an occurrence it
counts down the symbols that are still to be dropped (`replaceFrom`). Proofs do not follow this
count. They use `scan_induction`, which steps over an occurrence at once, and the two lemmas that
cut a text where nothing sought can lie across the cut.
-/

namespace RateGuardian.Lib

variable {α : Type*}

/-! ### Where a text occurs -/

section Occurrences

variable {h a b s : List α} {c : α}

theorem not_infix_of_notMem (hc : c ∈ h) (hs : c ∉ s) : ¬ h <:+: s :=
  fun hocc => hs (hocc.subset hc)

theorem eq_nil_of_prefix_cons (hc : c ∉ h) (hstart : h <+: c :: s) : h = [] := by
  cases h with
  | nil => rfl
  | cons d h =>
      have heq : d = c := (List.cons_prefix_cons.mp hstart).1
      exact absurd (heq ▸ List.mem_cons_self) hc

theorem prefix_append_cons (hc : c ∉ h) (a : List α) : h <+: a ++ c :: b ↔ h <+: a := by
  induction a generalizing h with
  | nil =>
      rw [List.nil_append, List.prefix_nil]
      exact ⟨eq_nil_of_prefix_cons hc, fun hnil => hnil ▸ List.nil_prefix⟩
  | cons d a ih =>
      cases h with
      | nil => exact iff_of_true List.nil_prefix List.nil_prefix
      | cons x h =>
          rw [List.cons_append, List.cons_prefix_cons, List.cons_prefix_cons,
            ih fun hmem => hc (List.mem_cons_of_mem _ hmem)]

theorem infix_cons_of_notMem (hc : c ∉ h) : h <:+: c :: s ↔ h <:+: s := by
  rw [List.infix_cons_iff]
  constructor
  · intro hcases
    rcases hcases with hstart | hlater
    · rw [eq_nil_of_prefix_cons hc hstart]
      exact List.nil_infix
    · exact hlater
  · exact Or.inr

/-- An occurrence lies on one side of a symbol that it has not. -/
theorem infix_append_cons (hc : c ∉ h) : h <:+: a ++ c :: b ↔ h <:+: a ∨ h <:+: b := by
  constructor
  · intro hocc
    rcases List.infix_append_iff.mp hocc with hleft | hright | ⟨l₁, l₂, rfl, hl₁, hl₂⟩
    · exact Or.inl hleft
    · exact Or.inr ((infix_cons_of_notMem hc).mp hright)
    · -- the part behind the cut starts with `c`, so it is empty
      have hcut : c ∉ l₂ := fun hmem => hc (List.mem_append_right l₁ hmem)
      rw [eq_nil_of_prefix_cons hcut hl₂, List.append_nil]
      exact Or.inl hl₁.isInfix
  · intro hcases
    rcases hcases with hleft | hright
    · exact hleft.trans List.infix_append_left
    · exact (hright.trans (List.suffix_cons c b).isInfix).trans List.infix_append_right

theorem infix_literal_append {lit : List α} (hlit : ∀ c ∈ lit, c ∉ h) :
    h <:+: lit ++ b ↔ h <:+: b := by
  induction lit with
  | nil => rfl
  | cons c lit ih =>
      rw [List.cons_append, infix_cons_of_notMem (hlit c List.mem_cons_self)]
      exact ih fun d hd => hlit d (List.mem_cons_of_mem _ hd)

/-- A piece of text with none of the symbols of `h` stands between two places for it. -/
theorem infix_append_literal {lit : List α} (hne : lit ≠ []) (hlit : ∀ c ∈ lit, c ∉ h) :
    h <:+: a ++ (lit ++ b) ↔ h <:+: a ∨ h <:+: b := by
  cases lit with
  | nil => exact absurd rfl hne
  | cons c lit =>
      rw [List.cons_append, infix_append_cons (hlit c List.mem_cons_self),
        infix_literal_append fun d hd => hlit d (List.mem_cons_of_mem _ hd)]

/-- Encoding symbols that `h` has not by others that it has not neither makes nor hides an
occurrence. -/
theorem infix_append_flatMap {f : α → List α}
    (hf : ∀ c, f c = [c] ∨ (c ∉ h ∧ f c ≠ [] ∧ ∀ d ∈ f c, d ∉ h)) :
    h <:+: a ++ s.flatMap f ↔ h <:+: a ++ s := by
  induction s generalizing a with
  | nil => rfl
  | cons c s ih =>
      rw [List.flatMap_cons]
      rcases hf c with hsame | ⟨hc, hne, hcode⟩
      · rw [hsame, ← List.append_assoc, ih, List.append_assoc]
        rfl
      · have hrest : h <:+: s.flatMap f ↔ h <:+: s := ih (a := [])
        rw [infix_append_literal hne hcode, infix_append_cons hc, hrest]

theorem infix_flatMap {f : α → List α}
    (hf : ∀ c, f c = [c] ∨ (c ∉ h ∧ f c ≠ [] ∧ ∀ d ∈ f c, d ∉ h)) :
    h <:+: s.flatMap f ↔ h <:+: s :=
  infix_append_flatMap (a := []) hf

end Occurrences

/-! ### The replacement -/

variable [DecidableEq α] {old new : List α}

/-- `replaceAll`, while `k` more symbols belong to the occurrence that was replaced last. -/
def replaceFrom (old new : List α) : ℕ → List α → List α
  | _, [] => []
  | k + 1, _ :: s => replaceFrom old new k s
  | 0, c :: s =>
      if old <+: c :: s then new ++ replaceFrom old new (old.length - 1) s
      else c :: replaceFrom old new 0 s

/-- `new` for every occurrence of `old`, which is not empty. -/
def replaceAll (old new s : List α) : List α := replaceFrom old new 0 s

@[simp] theorem replaceAll_nil : replaceAll old new [] = [] := rfl

theorem replaceFrom_eq_drop (k : ℕ) (s : List α) :
    replaceFrom old new k s = replaceAll old new (s.drop k) := by
  induction s generalizing k with
  | nil => cases k <;> simp [replaceFrom]
  | cons c s ih =>
      cases k with
      | zero => rfl
      | succ k => exact ih k

theorem replaceAll_cons_of_not {c : α} {s : List α} (h : ¬ old <+: c :: s) :
    replaceAll old new (c :: s) = c :: replaceAll old new s := by
  simp [replaceAll, replaceFrom, h]

/-- An occurrence at the front is replaced, and the scan goes on behind it. -/
theorem replaceAll_append (hold : old ≠ []) (s : List α) :
    replaceAll old new (old ++ s) = new ++ replaceAll old new s := by
  cases old with
  | nil => exact absurd rfl hold
  | cons c old =>
      rw [List.cons_append, replaceAll, replaceFrom,
        if_pos (List.cons_prefix_cons.mpr ⟨rfl, List.prefix_append old s⟩), replaceFrom_eq_drop]
      simp

theorem replaceAll_of_no_occurrence {s : List α} (h : ¬ old <:+: s) :
    replaceAll old new s = s := by
  induction s with
  | nil => rfl
  | cons c s ih =>
      rw [replaceAll_cons_of_not fun hstart => h hstart.isInfix,
        ih fun hlater => h (List.infix_cons hlater)]

/-- Induction along the scan: over an occurrence at once, else over one symbol. -/
theorem scan_induction {P : List α → Prop} (hold : old ≠ []) (nil : P [])
    (found : ∀ s, P s → P (old ++ s)) (other : ∀ c s, ¬ old <+: c :: s → P s → P (c :: s))
    (s : List α) : P s := by
  induction hn : s.length using Nat.strong_induction_on generalizing s with
  | _ n ih =>
      subst hn
      cases s with
      | nil => exact nil
      | cons c s =>
          by_cases hstart : old <+: c :: s
          · obtain ⟨rest, hrest⟩ := hstart
            have hshort : rest.length < (c :: s).length := by
              rw [← hrest, List.length_append]
              exact Nat.lt_add_of_pos_left (List.length_pos_iff.mpr hold)
            rw [← hrest]
            exact found rest (ih _ hshort rest rfl)
          · exact other c s hstart (ih s.length (Nat.lt_succ_self _) s rfl)

/-- A symbol that `old` has not separates what is before it from what is behind it. -/
theorem replaceAll_append_cons {c : α} (hold : old ≠ []) (hc : c ∉ old) (a s : List α) :
    replaceAll old new (a ++ c :: s) = replaceAll old new a ++ c :: replaceAll old new s := by
  induction a using scan_induction hold with
  | nil =>
      have hnot : ¬ old <+: c :: s := fun hstart => hold (eq_nil_of_prefix_cons hc hstart)
      exact replaceAll_cons_of_not hnot
  | found a ih =>
      rw [List.append_assoc, replaceAll_append hold, replaceAll_append hold, ih, List.append_assoc]
  | other d a hstart ih =>
      -- an occurrence that starts at `d` would have to run over `c`
      have hnot : ¬ old <+: d :: (a ++ c :: s) := fun hlong =>
        hstart ((prefix_append_cons hc (d :: a)).mp hlong)
      rw [List.cons_append, replaceAll_cons_of_not hnot, replaceAll_cons_of_not hstart, ih]
      rfl

theorem length_le_replaceAll (hold : old ≠ []) (hlen : old.length ≤ new.length) (s : List α) :
    s.length ≤ (replaceAll old new s).length := by
  induction s using scan_induction hold with
  | nil => exact le_rfl
  | found s ih =>
      rw [replaceAll_append hold, List.length_append, List.length_append]
      exact Nat.add_le_add hlen ih
  | other c s hstart ih =>
      rw [replaceAll_cons_of_not hstart]
      exact Nat.succ_le_succ ih

theorem length_lt_replaceAll (hold : old ≠ []) (hlen : old.length < new.length) {s : List α}
    (h : old <:+: s) : s.length < (replaceAll old new s).length := by
  induction s using scan_induction hold with
  | nil => exact absurd (List.infix_nil.mp h) hold
  | found s _ =>
      rw [replaceAll_append hold, List.length_append, List.length_append]
      exact Nat.add_lt_add_of_lt_of_le hlen (length_le_replaceAll hold hlen.le s)
  | other c s hstart ih =>
      rw [replaceAll_cons_of_not hstart]
      exact Nat.succ_lt_succ (ih ((List.infix_cons_iff.mp h).resolve_left hstart))

/-- A text is left alone exactly when nothing in it is replaced, if the new text is longer. -/
theorem replaceAll_eq_self_iff (hold : old ≠ []) (hlen : old.length < new.length) {s : List α} :
    replaceAll old new s = s ↔ ¬ old <:+: s := by
  constructor
  · intro hsame hocc
    have hlonger := length_lt_replaceAll hold hlen hocc
    rw [hsame] at hlonger
    exact lt_irrefl _ hlonger
  · exact replaceAll_of_no_occurrence

end RateGuardian.Lib
