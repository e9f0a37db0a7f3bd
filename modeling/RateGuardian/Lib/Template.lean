import RateGuardian.Lib.Replacement
import Mathlib.Logic.Function.Basic

/-!
# RateGuardian.Lib.Template

**Templates that are filled by one replacement after the other.** A template is fixed text with
marked holes, and `inTurn` replaces the mark of each hole in the whole document. A replacement
also finds the marks in what was filled in before it: `inTurn_source` says that the result is the
simultaneous substitution (`fill`) of values that have gone through the replacements after their
own.

That a replacement finds the marks of the template and no others needs two things. The fixed text is
`quiet`: it has no two opening delimiters in a row, so no mark begins in it. And a mark is letters
between doubled delimiters (`Marks`), so no mark is part of another. Then a replacement in the whole
document is one in each of its pieces (`replaceAll_source`), and all of them are done piece by piece
(`inTurn_source_eq`).
-/

namespace RateGuardian.Lib

variable {ι α : Type*}

/-! ### Texts without the beginning of a mark -/

section Quiet

variable [DecidableEq α] {b : α}

/-- No two `b` stand side by side, and none at the end. -/
def quiet (b : α) : List α → Bool
  | [] => true
  | [c] => c ≠ b
  | c :: d :: s => !(c = b && d = b) && quiet b (d :: s)

theorem quiet_of_notMem {s : List α} (h : b ∉ s) : quiet b s = true := by
  induction s with
  | nil => rfl
  | cons c s ih =>
      simp only [List.mem_cons, not_or] at h
      cases s with
      | nil => simpa [quiet] using Ne.symm h.1
      | cons d s => simp [quiet, Ne.symm h.1, ih h.2]

theorem quiet_append {s t : List α} (hs : quiet b s = true) (ht : quiet b t = true) :
    quiet b (s ++ t) = true := by
  induction s with
  | nil => exact ht
  | cons c s ih =>
      cases s with
      | nil =>
          cases t with
          | nil => exact hs
          | cons d t =>
              have hc : c ≠ b := by simpa [quiet] using hs
              simp [quiet, hc, ht]
      | cons d s =>
          simp only [quiet, Bool.and_eq_true, List.cons_append] at hs ⊢
          exact ⟨hs.1, ih hs.2⟩

theorem quiet_flatMap {β : Type*} {f : β → List α} {l : List β}
    (h : ∀ x ∈ l, quiet b (f x) = true) : quiet b (l.flatMap f) = true := by
  induction l with
  | nil => rfl
  | cons x l ih =>
      rw [List.flatMap_cons]
      exact quiet_append (h x List.mem_cons_self) (ih fun y hy => h y (List.mem_cons_of_mem _ hy))

/-- Nothing that starts with two `b` starts in a quiet text, whatever follows it. -/
theorem replaceAll_append_of_quiet {w v s : List α} (hs : quiet b s = true) (t : List α) :
    replaceAll (b :: b :: w) v (s ++ t) = s ++ replaceAll (b :: b :: w) v t := by
  induction s with
  | nil => rfl
  | cons c s ih =>
      have hnot : ¬ b :: b :: w <+: c :: (s ++ t) := by
        intro hstart
        obtain ⟨rfl, htail⟩ := List.cons_prefix_cons.mp hstart
        cases s with
        | nil => simp [quiet] at hs
        | cons d s =>
            obtain ⟨rfl, -⟩ := List.cons_prefix_cons.mp htail
            simp [quiet] at hs
      have hrest : quiet b s = true := by
        cases s with
        | nil => rfl
        | cons d s =>
            simp only [quiet, Bool.and_eq_true] at hs
            exact hs.2
      rw [List.cons_append, replaceAll_cons_of_not hnot, ih hrest]
      rfl

theorem replaceAll_of_quiet {w v s : List α} (hs : quiet b s = true) :
    replaceAll (b :: b :: w) v s = s := by
  simpa using replaceAll_append_of_quiet (w := w) (v := v) hs []

end Quiet

/-! ### Marks and pieces -/

/-- The marks of the holes: a name of letters between two doubled delimiters. -/
structure Marks (ι α : Type*) where
  opening : α
  closing : α
  letter : α → Bool
  name : ι → List α
  opening_ne_closing : opening ≠ closing
  letter_opening : letter opening = false
  letter_closing : letter closing = false
  letter_name : ∀ i, ∀ c ∈ name i, letter c = true
  name_injective : Function.Injective name

inductive Piece (ι α : Type*)
  | text (s : List α)
  | hole (i : ι)

variable {m : Marks ι α} {i j : ι}

namespace Marks

variable (m) in
def mark (i : ι) : List α := m.opening :: m.opening :: (m.name i ++ [m.closing, m.closing])

variable (m) in
/-- A symbol that stands in no mark, neither in a name nor as a delimiter. -/
def Separator (c : α) : Prop := m.letter c = false ∧ c ≠ m.opening ∧ c ≠ m.closing

instance [DecidableEq α] : DecidablePred m.Separator :=
  fun _ => inferInstanceAs (Decidable (_ ∧ _ ∧ _))

theorem mark_ne_nil : m.mark i ≠ [] := List.cons_ne_nil _ _

theorem Separator.notMem {c : α} (h : m.Separator c) (i : ι) : c ∉ m.mark i := by
  obtain ⟨hletter, hopening, hclosing⟩ := h
  have hname : c ∉ m.name i := fun hmem => by simp [m.letter_name i c hmem] at hletter
  simp [mark, hopening, hclosing, hname]

theorem opening_notMem_name (i : ι) : m.opening ∉ m.name i := fun hmem => by
  simpa [m.letter_opening] using m.letter_name i _ hmem

/-- Letters up to a closing delimiter determine the name, whatever follows it. -/
theorem eq_of_starts {p q : List α} (hp : ∀ c ∈ p, m.letter c = true)
    (hq : ∀ c ∈ q, m.letter c = true) {s t : List α}
    (h : p ++ m.closing :: s <+: q ++ m.closing :: t) : p = q := by
  induction p generalizing q with
  | nil =>
      cases q with
      | nil => rfl
      | cons d q =>
          have heq : m.closing = d := (List.cons_prefix_cons.mp h).1
          exact absurd (hq d List.mem_cons_self) (by simp [← heq, m.letter_closing])
  | cons c p ih =>
      cases q with
      | nil =>
          have heq : c = m.closing := (List.cons_prefix_cons.mp h).1
          exact absurd (hp c List.mem_cons_self) (by simp [heq, m.letter_closing])
      | cons d q =>
          obtain ⟨rfl, htail⟩ := List.cons_prefix_cons.mp h
          rw [ih (fun x hx => hp x (List.mem_cons_of_mem _ hx))
            (fun x hx => hq x (List.mem_cons_of_mem _ hx)) htail]

theorem eq_of_mark_starts {t : List α} (h : m.mark i <+: m.mark j ++ t) : i = j := by
  simp only [mark, List.cons_append, List.cons_prefix_cons, true_and, List.append_assoc] at h
  exact m.name_injective (eq_of_starts (m.letter_name i) (m.letter_name j) h)

end Marks

namespace Piece

variable (m) in
def source : Piece ι α → List α
  | text s => s
  | hole i => m.mark i

/-- The piece with its hole filled, if it is one. -/
def fill (v : ι → List α) : Piece ι α → List α
  | text s => s
  | hole i => v i

end Piece

variable (m) in
/-- The template as it is written, with the mark of each hole in its place. -/
def source (t : List (Piece ι α)) : List α := t.flatMap (Piece.source m)

/-- Every hole filled with its value, all at once. -/
def fill (v : ι → List α) (t : List (Piece ι α)) : List α := t.flatMap (Piece.fill v)

section Cons

variable (s : List α) (i : ι) (v : ι → List α) (t : List (Piece ι α))

@[simp] theorem source_nil : source m [] = [] := rfl

@[simp] theorem source_text : source m (.text s :: t) = s ++ source m t := by
  rw [source, List.flatMap_cons, Piece.source, ← source]

@[simp] theorem source_hole : source m (.hole i :: t) = m.mark i ++ source m t := by
  rw [source, List.flatMap_cons, Piece.source, ← source]

@[simp] theorem fill_nil : fill v [] = [] := rfl

@[simp] theorem fill_text : fill v (.text s :: t) = s ++ fill v t := by
  rw [fill, List.flatMap_cons, Piece.fill, ← fill]

@[simp] theorem fill_hole : fill v (.hole i :: t) = v i ++ fill v t := by
  rw [fill, List.flatMap_cons, Piece.fill, ← fill]

end Cons

/-! ### One replacement -/

variable [DecidableEq α] {s v : List α}

variable (m) in
/-- No mark that starts in the text ends behind it, whatever follows. -/
def Settled (s : List α) : Prop :=
  quiet m.opening s = true ∨ ∃ s' c, s = s' ++ [c] ∧ m.Separator c

theorem replaceAll_mark_of_quiet (hs : quiet m.opening s = true) :
    replaceAll (m.mark i) v s = s :=
  replaceAll_of_quiet hs

namespace Settled

theorem replaceAll_append (hs : Settled m s) (t : List α) :
    Lib.replaceAll (m.mark i) v (s ++ t) =
      Lib.replaceAll (m.mark i) v s ++ Lib.replaceAll (m.mark i) v t := by
  rcases hs with hquiet | ⟨s', c, rfl, hc⟩
  · rw [replaceAll_mark_of_quiet hquiet]
    exact replaceAll_append_of_quiet hquiet t
  · have hlast : Lib.replaceAll (m.mark i) v (s' ++ [c]) = Lib.replaceAll (m.mark i) v s' ++ [c] :=
      replaceAll_append_cons Marks.mark_ne_nil (hc.notMem i) s' []
    rw [List.append_assoc, List.singleton_append,
      replaceAll_append_cons Marks.mark_ne_nil (hc.notMem i), hlast]
    simp

theorem replaceAll (hs : Settled m s) : Settled m (Lib.replaceAll (m.mark i) v s) := by
  rcases hs with hquiet | ⟨s', c, rfl, hc⟩
  · rw [replaceAll_mark_of_quiet hquiet]
    exact Or.inl hquiet
  · rw [replaceAll_append_cons Marks.mark_ne_nil (hc.notMem i)]
    exact Or.inr ⟨_, c, rfl, hc⟩

end Settled

/-- The mark of another hole is passed over by a replacement. -/
theorem replaceAll_mark_of_ne (h : j ≠ i) (t : List α) :
    replaceAll (m.mark i) v (m.mark j ++ t) = m.mark j ++ replaceAll (m.mark i) v t := by
  have hrest : quiet m.opening (m.name j ++ [m.closing, m.closing]) = true :=
    quiet_of_notMem (by simp [m.opening_notMem_name j, m.opening_ne_closing])
  -- the second delimiter is not followed by a third
  have htail : quiet m.opening (m.opening :: (m.name j ++ [m.closing, m.closing])) = true := by
    cases hname : m.name j with
    | nil => simp [quiet, m.opening_ne_closing.symm]
    | cons c w =>
        have hc : c ≠ m.opening := fun heq =>
          m.opening_notMem_name j (by rw [hname, ← heq]; exact List.mem_cons_self)
        rw [hname] at hrest
        simpa [quiet, hc] using hrest
  have hfirst : ¬ m.mark i <+: m.mark j ++ t :=
    fun hstart => h (Marks.eq_of_mark_starts hstart).symm
  rw [Marks.mark.eq_def m j, List.cons_append] at hfirst ⊢
  rw [replaceAll_cons_of_not hfirst, List.cons_append]
  exact congrArg _ (replaceAll_append_of_quiet htail t)

variable (m) in
/-- The marks replaced one after the other, in the whole document. -/
def inTurn (v : ι → List α) (order : List ι) (doc : List α) : List α :=
  order.foldl (fun doc i => replaceAll (m.mark i) (v i) doc) doc

@[simp] theorem inTurn_nil (v : ι → List α) (doc : List α) : inTurn m v [] doc = doc := by
  rw [inTurn, List.foldl_nil]

@[simp] theorem inTurn_cons (v : ι → List α) (i : ι) (order : List ι) (doc : List α) :
    inTurn m v (i :: order) doc = inTurn m v order (replaceAll (m.mark i) (v i) doc) := by
  rw [inTurn, List.foldl_cons, ← inTurn]

theorem inTurn_of_quiet {values : ι → List α} (hs : quiet m.opening s = true) (order : List ι) :
    inTurn m values order s = s := by
  induction order with
  | nil => rfl
  | cons i order ih =>
      rw [inTurn_cons, replaceAll_mark_of_quiet hs, ih]

variable [DecidableEq ι]

/-- What replacing the mark of `i` makes of a piece. -/
def Piece.replace (m : Marks ι α) (i : ι) (v : List α) : Piece ι α → Piece ι α
  | .text s => .text (replaceAll (m.mark i) v s)
  | .hole j => if j = i then .text v else .hole j

variable (m) in
/-- Every fixed text of the template is settled. -/
def WellFormed (t : List (Piece ι α)) : Prop := ∀ s, Piece.text s ∈ t → Settled m s

/-- One replacement in the whole document is one in each of its pieces. -/
theorem replaceAll_source {t : List (Piece ι α)} (ht : WellFormed m t) :
    replaceAll (m.mark i) v (source m t) = source m (t.map (Piece.replace m i v)) := by
  induction t with
  | nil => rfl
  | cons p t ih =>
      have hrest := ih fun s hs => ht s (List.mem_cons_of_mem _ hs)
      rw [List.map_cons]
      cases p with
      | text s =>
          rw [source_text, (ht s List.mem_cons_self).replaceAll_append, hrest, Piece.replace,
            source_text]
      | hole j =>
          by_cases hj : j = i
          · subst hj
            rw [source_hole, replaceAll_append Marks.mark_ne_nil, hrest, Piece.replace,
              if_pos rfl, source_text]
          · rw [source_hole, replaceAll_mark_of_ne hj, hrest, Piece.replace, if_neg hj, source_hole]

theorem WellFormed.map_replace {t : List (Piece ι α)} (ht : WellFormed m t) (hv : Settled m v) :
    WellFormed m (t.map (Piece.replace m i v)) := by
  intro s hs
  obtain ⟨p, hp, heq⟩ := List.mem_map.mp hs
  cases p with
  | text s' =>
      cases heq
      exact (ht s' hp).replaceAll
  | hole j =>
      by_cases hj : j = i
      · rw [Piece.replace, if_pos hj] at heq
        cases heq
        exact hv
      · rw [Piece.replace, if_neg hj] at heq
        cases heq

/-! ### All replacements -/

/-- The replacements that come after the one of `i`. -/
def after (i : ι) : List ι → List ι
  | [] => []
  | j :: order => if j = i then order else after i order

/-- Each piece of the document goes through the replacements on its own. -/
theorem inTurn_source_eq {values : ι → List α} {order : List ι}
    (hvalues : ∀ i ∈ order, Settled m (values i)) {t : List (Piece ι α)} (ht : WellFormed m t) :
    inTurn m values order (source m t) =
      source m (t.map fun p => order.foldl (fun p i => p.replace m i (values i)) p) := by
  induction order generalizing t with
  | nil => simp [inTurn]
  | cons i order ih =>
      have hi := hvalues i List.mem_cons_self
      have hrest := fun j hj => hvalues j (List.mem_cons_of_mem _ hj)
      rw [inTurn_cons, replaceAll_source ht, ih hrest (ht.map_replace hi), List.map_map]
      rfl

theorem foldl_replace_text {values : ι → List α} (order : List ι) (s : List α) :
    order.foldl (fun p i => p.replace m i (values i)) (Piece.text s) =
      Piece.text (inTurn m values order s) := by
  induction order generalizing s with
  | nil => rfl
  | cons i order ih => exact ih _

theorem foldl_replace_hole {values : ι → List α} {order : List ι} (hi : i ∈ order) :
    order.foldl (fun p j => p.replace m j (values j)) (Piece.hole i) =
      Piece.text (inTurn m values (after i order) (values i)) := by
  induction order with
  | nil => cases hi
  | cons j order ih =>
      by_cases hj : j = i
      · subst hj
        rw [List.foldl_cons, Piece.replace, if_pos rfl, after, if_pos rfl, foldl_replace_text]
      · have hlater : i ∈ order := (List.mem_cons.mp hi).resolve_left fun heq => hj heq.symm
        rw [List.foldl_cons, Piece.replace, if_neg (Ne.symm hj), after, if_neg hj, ih hlater]

/-- Replacing the marks in turn substitutes, all at once, values that have themselves gone through
the replacements after their own. -/
theorem inTurn_source {values : ι → List α} {order : List ι}
    (hvalues : ∀ i ∈ order, Settled m (values i)) {t : List (Piece ι α)}
    (ht : ∀ s, Piece.text s ∈ t → quiet m.opening s = true)
    (hholes : ∀ i, Piece.hole i ∈ t → i ∈ order) :
    inTurn m values order (source m t) =
      fill (fun i => inTurn m values (after i order) (values i)) t := by
  rw [inTurn_source_eq hvalues fun s hs => Or.inl (ht s hs), source, fill, List.flatMap_map]
  refine List.flatMap_congr fun p hp => ?_
  cases p with
  | text s =>
      rw [foldl_replace_text, inTurn_of_quiet (ht s hp)]
      rfl
  | hole i =>
      rw [foldl_replace_hole (hholes i hp)]
      rfl

end RateGuardian.Lib
