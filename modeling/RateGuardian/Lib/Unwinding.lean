import RateGuardian.Lib.Run

/-!
# RateGuardian.Lib.Unwinding

**Inputs that leave no trace.** A machine answers a list of inputs, of which some are
`hidden` from an observer. `Unwinding` names the local facts about one step, and its rules
say what follows for two runs of which one is the other with hidden inputs left out:
the observer cannot tell the states apart (`Unwinding.final`), and every other input is
answered alike (`Unwinding.answers`).

`Erasure hidden is js` is the relation between the two input lists. Any hidden inputs may be
left out, not necessarily all of them; `erasure_filter` is the case of all.
-/

namespace RateGuardian.Lib

variable {σ ι ο : Type*}

/-- `js` is `is` with some of its hidden inputs left out. -/
inductive Erasure (hidden : ι → Prop) : List ι → List ι → Prop
  | nil : Erasure hidden [] []
  | keep {is js : List ι} (i : ι) : Erasure hidden is js → Erasure hidden (is ++ [i]) (js ++ [i])
  | erase {is js : List ι} {i : ι} : hidden i → Erasure hidden is js →
      Erasure hidden (is ++ [i]) js

theorem erasure_filter (visible : ι → Bool) (is : List ι) :
    Erasure (fun i => visible i = false) is (is.filter visible) := by
  induction is using List.reverseRecOn with
  | nil => exact .nil
  | append_singleton is i ih =>
      rw [List.filter_append, List.filter_singleton]
      cases hi : visible i with
      | false => simpa using .erase hi ih
      | true => exact .keep i ih

theorem Erasure.mono {hidden hidden' : ι → Prop} {is js : List ι} (h : Erasure hidden is js)
    (himp : ∀ i ∈ is, hidden i → hidden' i) : Erasure hidden' is js := by
  induction h with
  | nil => exact .nil
  | keep i _ ih => exact .keep i (ih fun j hj => himp j (List.mem_append_left _ hj))
  | erase hi _ ih =>
      exact .erase (himp _ (by simp) hi) (ih fun j hj => himp j (List.mem_append_left _ hj))

theorem erasure_singleton {hidden : ι → Prop} {i : ι} (hi : hidden i) : Erasure hidden [i] [] :=
  .erase hi .nil

theorem Erasure.append {hidden : ι → Prop} {is js : List ι} (h : Erasure hidden is js)
    (ks : List ι) : Erasure hidden (is ++ ks) (js ++ ks) := by
  induction ks using List.reverseRecOn with
  | nil => simpa using h
  | append_singleton ks k ih =>
      rw [← List.append_assoc, ← List.append_assoc]
      exact .keep k ih

/-- The observer's view: `agree` relates the states it cannot tell apart. The facts about a step
are needed in the states that satisfy `inv` only. -/
structure Unwinding (f : σ → ι → ο × σ) (inv : σ → Prop) (hidden : ι → Prop)
    (agree : σ → σ → Prop) : Prop where
  equivalence : Equivalence agree
  keeps : ∀ {s i}, inv s → inv (f s i).2
  /-- An input that is not hidden is answered by what the observer can see. -/
  output : ∀ {s t i}, inv s → inv t → ¬ hidden i → agree s t → (f s i).1 = (f t i).1
  step : ∀ {s t i}, inv s → inv t → ¬ hidden i → agree s t → agree (f s i).2 (f t i).2
  /-- A hidden input changes nothing the observer can see. -/
  hides : ∀ {s i}, inv s → hidden i → agree (f s i).2 s

/-- The inputs that `visible` selects, each with its answer. -/
def answersTo (visible : ι → Bool) (f : σ → ι → ο × σ) (s : σ) (is : List ι) : List (ι × ο) :=
  ((trace f s is).map Transition.label).filter fun l => visible l.1

theorem answersTo_concat (visible : ι → Bool) (f : σ → ι → ο × σ) (s : σ) (is : List ι) (i : ι) :
    answersTo visible f s (is ++ [i]) =
      answersTo visible f s is ++
        if visible i then [(i, (f (final f s is) i).1)] else [] := by
  rw [answersTo, trace_concat, List.map_append, List.filter_append, answersTo]
  simp [List.filter_singleton]

namespace Unwinding

variable {f : σ → ι → ο × σ} {inv : σ → Prop} {hidden : ι → Prop} {agree : σ → σ → Prop}
  {s t : σ} {is js : List ι}

/-- Taken from states that agree, any input leads to states that agree. -/
theorem step_any (u : Unwinding f inv hidden agree) (hs : inv s) (ht : inv t) (h : agree s t)
    (i : ι) : agree (f s i).2 (f t i).2 := by
  by_cases hi : hidden i
  · exact u.equivalence.trans (u.equivalence.trans (u.hides hs hi) h)
      (u.equivalence.symm (u.hides ht hi))
  · exact u.step hs ht hi h

theorem inv_final (u : Unwinding f inv hidden agree) (hs : inv s) (is : List ι) :
    inv (Lib.final f s is) := by
  induction is using List.reverseRecOn with
  | nil => exact hs
  | append_singleton is i ih =>
      rw [final_concat]
      exact u.keeps ih

section Runs

variable (u : Unwinding f inv hidden agree) (he : Erasure hidden is js) (hs : inv s) (ht : inv t)
  (h : agree s t)
include u he hs ht h

theorem final : agree (Lib.final f s is) (Lib.final f t js) := by
  induction he with
  | nil => exact h
  | keep i _ ih =>
      rw [final_concat, final_concat]
      exact u.step_any (u.inv_final hs _) (u.inv_final ht _) ih i
  | erase hi _ ih =>
      rw [final_concat]
      exact u.equivalence.trans (u.hides (u.inv_final hs _) hi) ih

/-- The next input that is not hidden is answered as if the hidden ones had not been there. -/
theorem next {i : ι} (hi : ¬ hidden i) :
    (f (Lib.final f s is) i).1 = (f (Lib.final f t js) i).1 :=
  u.output (u.inv_final hs is) (u.inv_final ht js) hi (u.final he hs ht h)

theorem answers {visible : ι → Bool} (hv : ∀ i, visible i = true → ¬ hidden i) :
    answersTo visible f s is = answersTo visible f t js := by
  induction he with
  | nil => rfl
  | keep i he ih =>
      rw [answersTo_concat, answersTo_concat, ih]
      cases hi : visible i with
      | false => rfl
      | true => rw [u.next he hs ht h (hv i hi)]
  | @erase is js i hi _ ih =>
      have hnot : visible i = false := by
        by_contra hvi
        exact hv i (Bool.not_eq_false _ ▸ hvi) hi
      rw [answersTo_concat, ih, hnot]
      simp

end Runs

end Unwinding

end RateGuardian.Lib
