import Mathlib.Data.List.Basic
import Mathlib.Data.List.DropRight
import Mathlib.Data.List.Forall2

/-!
# RateGuardian.Lib.Run

**Recorded runs of a labelled transition system.** A run carries the list of
transitions it took, each with the state before, the label and the state after,
so that a property of a whole history is a property of a list.

Two presentations are connected here:

* `Run step s₀ tr s` — the relational one, for systems whose scheduler is free;
* `trace f s₀ is` / `final f s₀ is` — the functional one, for a machine that
  answers each input. `trace_run` makes every functional run a relational run of
  `Answers f`, so one induction principle (`Run.invariant`) serves both.

A run grows at its end, so an invariant is shown step by step in the order of time, and
may speak of the history as well as of the state. `Run.simulate` matches every step of a
run by a block of steps of another system; the blocks are kept apart, so that a statement
about one step can be carried over to its block.
-/

namespace RateGuardian.Lib

variable {σ ℓ ι ο : Type*}

/-- One recorded step: the state before, the label, the state after. -/
structure Transition (σ ℓ : Type*) where
  pre : σ
  label : ℓ
  post : σ

/-- `Run step s₀ tr s`: from `s₀` the steps recorded in `tr`, in order, end in `s`. -/
inductive Run (step : σ → ℓ → σ → Prop) (s₀ : σ) : List (Transition σ ℓ) → σ → Prop
  | nil : Run step s₀ [] s₀
  | snoc {tr : List (Transition σ ℓ)} {s s' : σ} {l : ℓ} :
      Run step s₀ tr s → step s l s' → Run step s₀ (tr ++ [⟨s, l, s'⟩]) s'

/-- The steps of `step` whose label is admissible in the state it is taken from. -/
def Guarded (step : σ → ℓ → σ → Prop) (guard : σ → ℓ → Prop) (s : σ) (l : ℓ) (s' : σ) : Prop :=
  step s l s' ∧ guard s l

namespace Run

variable {step step' : σ → ℓ → σ → Prop} {s₀ s s' : σ} {tr tr₁ tr₂ : List (Transition σ ℓ)}

/-- **Invariant induction over a recorded run.** What holds of the empty history
and is kept by each step taken from a reached state holds of every run. -/
theorem invariant {I : List (Transition σ ℓ) → σ → Prop} (h : Run step s₀ tr s)
    (init : I [] s₀)
    (keep : ∀ tr s l s', Run step s₀ tr s → I tr s → step s l s' → I (tr ++ [⟨s, l, s'⟩]) s') :
    I tr s := by
  induction h with
  | nil => exact init
  | snoc hrun hstep ih => exact keep _ _ _ _ hrun ih hstep

theorem mono (himp : ∀ s l s', step s l s' → step' s l s') (h : Run step s₀ tr s) :
    Run step' s₀ tr s := by
  induction h with
  | nil => exact .nil
  | snoc _ hstep ih => exact .snoc ih (himp _ _ _ hstep)

theorem of_guarded {guard : σ → ℓ → Prop} (h : Run (Guarded step guard) s₀ tr s) :
    Run step s₀ tr s :=
  h.mono (fun _ _ _ hg => hg.1)

theorem single {l : ℓ} (h : step s l s') : Run step s [⟨s, l, s'⟩] s' :=
  .snoc .nil h

theorem append (h₁ : Run step s₀ tr₁ s) (h₂ : Run step s tr₂ s') :
    Run step s₀ (tr₁ ++ tr₂) s' := by
  induction h₂ with
  | nil => rwa [List.append_nil]
  | snoc _ hstep ih =>
      rw [← List.append_assoc]
      exact .snoc ih hstep

theorem eq_of_nil (h : Run step s₀ [] s) : s = s₀ := by
  generalize htr : ([] : List (Transition σ ℓ)) = tr at h
  cases h with
  | nil => rfl
  | snoc => simp at htr

theorem snoc_inv {t : Transition σ ℓ} (h : Run step s₀ (tr ++ [t]) s) :
    Run step s₀ tr t.pre ∧ step t.pre t.label t.post ∧ t.post = s := by
  generalize htr : tr ++ [t] = tr' at h
  cases h with
  | nil => simp at htr
  | snoc hrun hstep =>
      obtain ⟨rfl, rfl⟩ := List.append_inj' htr rfl |>.imp_right (List.cons.inj · |>.1)
      exact ⟨hrun, hstep, rfl⟩

/-- A run splits wherever its history does, at some state in between. -/
theorem split (h : Run step s₀ (tr₁ ++ tr₂) s) :
    ∃ m, Run step s₀ tr₁ m ∧ Run step m tr₂ s := by
  induction tr₂ using List.reverseRecOn generalizing s with
  | nil => exact ⟨s, by simpa using h, .nil⟩
  | append_singleton tr₂ t ih =>
      rw [← List.append_assoc] at h
      obtain ⟨hrun, hstep, rfl⟩ := snoc_inv h
      obtain ⟨m, h₁, h₂⟩ := ih hrun
      exact ⟨m, h₁, .snoc h₂ hstep⟩

theorem cons_inv {t : Transition σ ℓ} (h : Run step s₀ (t :: tr) s) :
    t.pre = s₀ ∧ step t.pre t.label t.post ∧ Run step t.post tr s := by
  rw [← List.singleton_append] at h
  obtain ⟨m, h₁, h₂⟩ := split h
  rw [← List.nil_append [t]] at h₁
  obtain ⟨hnil, hstep, rfl⟩ := snoc_inv h₁
  exact ⟨eq_of_nil hnil, hstep, h₂⟩

/-- Split a run around one of its steps. -/
theorem split_at {t : Transition σ ℓ} (h : Run step s₀ (tr₁ ++ t :: tr₂) s) :
    Run step s₀ tr₁ t.pre ∧ step t.pre t.label t.post ∧ Run step t.post tr₂ s := by
  obtain ⟨m, h₁, h₂⟩ := split h
  obtain ⟨rfl, hstep, h₃⟩ := cons_inv h₂
  exact ⟨h₁, hstep, h₃⟩

end Run

/-! ### Forward simulation -/

/-- **Simulation.** If every step from related states is matched by some steps, the states after
them are related again, and the steps are those that `Q` asks for, then every run is matched by a
run, block by block. -/
theorem Run.simulate {τ ℓ' : Type*} {step : σ → ℓ → σ → Prop} {step' : τ → ℓ' → τ → Prop}
    {R : σ → τ → Prop} {Q : Transition σ ℓ → List (Transition τ ℓ') → Prop} {s₀ s : σ} {t₀ : τ}
    {tr : List (Transition σ ℓ)}
    (hstep : ∀ s l s' t, R s t → step s l s' →
      ∃ us t', Run step' t us t' ∧ R s' t' ∧ Q ⟨s, l, s'⟩ us)
    (hinit : R s₀ t₀) (h : Run step s₀ tr s) :
    ∃ blocks t, Run step' t₀ blocks.flatten t ∧ R s t ∧ List.Forall₂ Q tr blocks := by
  induction h with
  | nil => exact ⟨[], t₀, .nil, hinit, .nil⟩
  | snoc _ hlast ih =>
      obtain ⟨blocks, t, hrun, hrel, hblocks⟩ := ih
      obtain ⟨us, t', hus, hrel', hQ⟩ := hstep _ _ _ t hrel hlast
      refine ⟨blocks ++ [us], t', ?_, hrel', List.rel_append hblocks (.cons hQ .nil)⟩
      rw [List.flatten_append, List.flatten_singleton]
      exact hrun.append hus

/-- Where a step of the run stands, its block stands, with the blocks of the steps before it in
front of it. -/
theorem forall₂_split {α β : Type*} {Q : α → β → Prop} {xs₁ xs₂ : List α} {x : α} {ys : List β}
    (h : List.Forall₂ Q (xs₁ ++ x :: xs₂) ys) :
    ∃ ys₁ y ys₂, ys = ys₁ ++ y :: ys₂ ∧ List.Forall₂ Q xs₁ ys₁ ∧ Q x y := by
  induction xs₁ generalizing ys with
  | nil =>
      cases h with
      | cons hQ htail => exact ⟨[], _, _, rfl, .nil, hQ⟩
  | cons x₁ xs₁ ih =>
      cases h with
      | cons hQ htail =>
          obtain ⟨ys₁, y, ys₂, rfl, hbefore, hy⟩ := ih htail
          exact ⟨_ :: ys₁, y, ys₂, rfl, .cons hQ hbefore, hy⟩

theorem exists_of_mem_block {α β : Type*} {Q : α → List β → Prop} {xs : List α}
    {blocks : List (List β)} (h : List.Forall₂ Q xs blocks) {b : β} (hb : b ∈ blocks.flatten) :
    ∃ x ∈ xs, ∃ block, Q x block ∧ b ∈ block := by
  induction h with
  | nil => cases hb
  | cons hQ _ ih =>
      rw [List.flatten_cons, List.mem_append] at hb
      rcases hb with hb | hb
      · exact ⟨_, List.mem_cons_self, _, hQ, hb⟩
      · obtain ⟨x, hx, block, hblock, hmem⟩ := ih hb
        exact ⟨x, List.mem_cons_of_mem _ hx, block, hblock, hmem⟩

/-! ### Machines that answer their inputs -/

/-- One step of a machine given as a function from state and input to answer and state. -/
def Answers (f : σ → ι → ο × σ) (s : σ) (l : ι × ο) (s' : σ) : Prop :=
  f s l.1 = (l.2, s')

/-- Feed a list of inputs to a machine, recording every transition. -/
def exec (f : σ → ι → ο × σ) (s₀ : σ) (is : List ι) : List (Transition σ (ι × ο)) × σ :=
  is.foldl (fun acc i => (acc.1 ++ [⟨acc.2, (i, (f acc.2 i).1), (f acc.2 i).2⟩], (f acc.2 i).2))
    ([], s₀)

def trace (f : σ → ι → ο × σ) (s₀ : σ) (is : List ι) : List (Transition σ (ι × ο)) :=
  (exec f s₀ is).1

def final (f : σ → ι → ο × σ) (s₀ : σ) (is : List ι) : σ := (exec f s₀ is).2

section Machine

variable (f : σ → ι → ο × σ) (s₀ : σ)

@[simp] theorem trace_nil : trace f s₀ [] = [] := rfl

@[simp] theorem final_nil : final f s₀ [] = s₀ := rfl

theorem trace_concat (is : List ι) (i : ι) :
    trace f s₀ (is ++ [i]) =
      trace f s₀ is ++
        [⟨final f s₀ is, (i, (f (final f s₀ is) i).1), (f (final f s₀ is) i).2⟩] := by
  simp [trace, final, exec]

theorem final_concat (is : List ι) (i : ι) :
    final f s₀ (is ++ [i]) = (f (final f s₀ is) i).2 := by
  simp [final, exec]

theorem trace_run (is : List ι) : Run (Answers f) s₀ (trace f s₀ is) (final f s₀ is) := by
  induction is using List.reverseRecOn with
  | nil => exact .nil
  | append_singleton is i ih => rw [trace_concat, final_concat]; exact .snoc ih rfl

theorem trace_inputs (is : List ι) : (trace f s₀ is).map (fun t => t.label.1) = is := by
  induction is using List.reverseRecOn with
  | nil => rfl
  | append_singleton is i ih => rw [trace_concat, List.map_append, ih]; rfl

/-- Where a transition stands in the trace: it is what the machine does at one of the inputs, from
the state after those before it. -/
theorem exists_of_mem_trace {is : List ι} {t : Transition σ (ι × ο)} (h : t ∈ trace f s₀ is) :
    ∃ is₁ i is₂, is = is₁ ++ i :: is₂ ∧
      t = ⟨final f s₀ is₁, (i, (f (final f s₀ is₁) i).1), (f (final f s₀ is₁) i).2⟩ := by
  induction is using List.reverseRecOn with
  | nil => cases h
  | append_singleton is i ih =>
      rw [trace_concat, List.mem_append, List.mem_singleton] at h
      rcases h with h | h
      · obtain ⟨is₁, j, is₂, his, ht⟩ := ih h
        exact ⟨is₁, j, is₂ ++ [i], by rw [his, List.append_assoc, List.cons_append], ht⟩
      · exact ⟨is, i, [], rfl, h⟩

end Machine

/-- **Simulation.** Two machines that start related, answer related states alike up to `φ` and stay
related give the same answers to the same inputs, up to `φ`. -/
theorem labels_trace_eq_of_simulation {σ' ο' : Type*} {f : σ → ι → ο × σ} {g : σ' → ι → ο' × σ'}
    (R : σ → σ' → Prop) (φ : ο' → ο) {s₀ : σ} {s₀' : σ'} (hinit : R s₀ s₀')
    (hstep : ∀ s s' i, R s s' → (f s i).1 = φ (g s' i).1 ∧ R (f s i).2 (g s' i).2) (is : List ι) :
    (trace f s₀ is).map Transition.label =
        (trace g s₀' is).map (fun t => (t.label.1, φ t.label.2)) ∧
      R (final f s₀ is) (final g s₀' is) := by
  induction is using List.reverseRecOn with
  | nil => exact ⟨rfl, hinit⟩
  | append_singleton is i ih =>
      obtain ⟨hlabels, hrel⟩ := ih
      obtain ⟨hanswer, hrel'⟩ := hstep _ _ i hrel
      rw [trace_concat, trace_concat, final_concat, final_concat, List.map_append, List.map_append,
        hlabels, List.map_singleton, List.map_singleton, hanswer]
      exact ⟨rfl, hrel'⟩

end RateGuardian.Lib
