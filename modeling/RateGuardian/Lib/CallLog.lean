import RateGuardian.Lib.Imperative

/-!
# RateGuardian.Lib.CallLog

**The calls that a program makes.** `noted` writes a call down, with its outcome, when it has
returned or raised. A program over noted services does what it does over the plain ones
(`Erases`), and `Makes P x` says what it writes down, whatever the services do. The rules for
`Makes` work backwards through a program, one for each construct of `Imp`: what is to be shown of a
program becomes what is to be shown of its first call, for every outcome, and of the rest after it
(`Rest`). A proof about a program then
has the shape of the program.
-/

namespace RateGuardian.Lib

universe u

namespace Imp

variable {σ ε α β κ : Type u}

/-- A call that is written down behind the others, with its outcome, once it has ended. -/
def noted (note : Except ε α → κ) (x : Imp σ ε α) : Imp (σ × List κ) ε α :=
  fun s => ((x s.1).1, ((x s.1).2, s.2 ++ [note (x s.1).1]))

/-- `y` does what `x` does, apart from what it writes down. -/
def Erases (x : Imp σ ε α) (y : Imp (σ × List κ) ε α) : Prop :=
  ∀ s, (on y s).1 = (on x s.1).1 ∧ (on y s).2.1 = (on x s.1).2

/-- What the program writes down goes with its outcome as `P` says. -/
def Makes (P : List κ → Except ε α → Prop) (x : Imp (σ × List κ) ε α) : Prop :=
  ∀ s, ∃ calls, (on x s).2.2 = s.2 ++ calls ∧ P calls (on x s).1

/-- What is left to be shown of a program after a part of it, which has made the calls `calls` and
ended with an outcome. -/
def Rest (P : List κ → Except ε β → Prop) (f : α → Imp (σ × List κ) ε β) (calls : List κ) :
    Except ε α → Prop
  | .ok a => Makes (fun more => P (calls ++ more)) (f a)
  | .error e => P calls (.error e)

@[simp] theorem on_noted (note : Except ε α → κ) (x : Imp σ ε α) (s : σ × List κ) :
    on (noted note x) s = ((on x s.1).1, ((on x s.1).2, s.2 ++ [note (on x s.1).1])) := rfl

section Erases

theorem Erases.bind {x : Imp σ ε α} {y : Imp (σ × List κ) ε α} {f : α → Imp σ ε β}
    {g : α → Imp (σ × List κ) ε β} (h : Erases x y) (hrest : ∀ a, Erases (f a) (g a)) :
    Erases (x >>= f) (y >>= g) := by
  intro s
  obtain ⟨hout, hstate⟩ := h s
  rw [on_bind, on_bind]
  rcases hx : on x s.1 with ⟨e | a, s₁⟩ <;> rcases hy : on y s with ⟨e' | a', s₂⟩ <;>
    rw [hx, hy] at hout hstate <;> cases hout <;> cases hstate
  · exact ⟨rfl, rfl⟩
  · exact hrest a s₂

theorem Erases.handle {x : Imp σ ε α} {y : Imp (σ × List κ) ε α} {k : ε → Imp σ ε α}
    {k' : ε → Imp (σ × List κ) ε α} (h : Erases x y) (hrest : ∀ e, Erases (k e) (k' e)) :
    Erases (Imp.handle x k) (Imp.handle y k') := by
  intro s
  obtain ⟨hout, hstate⟩ := h s
  rw [on_handle, on_handle]
  rcases hx : on x s.1 with ⟨e | a, s₁⟩ <;> rcases hy : on y s with ⟨e' | a', s₂⟩ <;>
    rw [hx, hy] at hout hstate <;> cases hout <;> cases hstate
  · exact hrest e s₂
  · exact ⟨rfl, rfl⟩

end Erases

section Makes

variable {P Q : List κ → Except ε α → Prop} {R : List κ → Except ε β → Prop}

theorem Makes.mono {x : Imp (σ × List κ) ε α} (h : Makes P x)
    (himp : ∀ calls r, P calls r → Q calls r) : Makes Q x := by
  intro s
  obtain ⟨calls, hcalls, hP⟩ := h s
  exact ⟨calls, hcalls, himp _ _ hP⟩

theorem Makes.bind {x : Imp (σ × List κ) ε α} {f : α → Imp (σ × List κ) ε β}
    (h : Makes (Rest R f) x) : Makes R (x >>= f) := by
  intro s
  obtain ⟨calls, hcalls, hrest⟩ := h s
  rw [on_bind]
  rcases hx : on x s with ⟨e | a, s₁⟩ <;> rw [hx] at hcalls hrest
  · exact ⟨calls, hcalls, hrest⟩
  · obtain ⟨more, hmore, hR⟩ := hrest s₁
    refine ⟨calls ++ more, ?_, hR⟩
    rw [hmore, hcalls, List.append_assoc]

/-- The handler goes on from the calls of the body. -/
theorem Makes.handle {x : Imp (σ × List κ) ε α} {k : ε → Imp (σ × List κ) ε α}
    (h : Makes (fun calls r => match r with
      | .ok a => P calls (.ok a)
      | .error e => Makes (fun more => P (calls ++ more)) (k e)) x) :
    Makes P (Imp.handle x k) := by
  intro s
  obtain ⟨calls, hcalls, hrest⟩ := h s
  rw [on_handle]
  rcases hx : on x s with ⟨e | a, s₁⟩ <;> rw [hx] at hcalls hrest
  · obtain ⟨more, hmore, hP⟩ := hrest s₁
    refine ⟨calls ++ more, ?_, hP⟩
    rw [hmore, hcalls, List.append_assoc]
  · exact ⟨calls, hcalls, hrest⟩

end Makes

end Imp

end RateGuardian.Lib
