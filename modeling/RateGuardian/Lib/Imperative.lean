import Mathlib.Order.Defs.Unbundled

/-!
# RateGuardian.Lib.Imperative

**Imperative code with exceptions.** `Imp σ ε α` is a computation that changes a state `σ`
and returns a value or raises `ε`. An exception does not undo what was done before it, so a
handler runs in the state at which the exception was raised.

`x.on s` is the outcome and the state after running `x` from `s`. The simp lemmas below say
what each construct does to them, so that straight-line code is run by `simp`.
-/

namespace RateGuardian.Lib

universe u

abbrev Imp (σ ε : Type u) (α : Type u) := ExceptT ε (StateM σ) α

namespace Imp

variable {σ ε α β : Type u}

/-- The outcome of a computation, and the state it leaves. -/
def on (x : Imp σ ε α) (s : σ) : Except ε α × σ := x s

/-- An effect that returns a value and does not raise. -/
def act (f : σ → α × σ) : Imp σ ε α := fun s => (.ok (f s).1, (f s).2)

/-- An effect that returns nothing and does not raise. -/
def exec (f : σ → σ) : Imp σ ε PUnit := fun s => (.ok ⟨⟩, f s)

/-- A value computed without an effect, or an exception. -/
def lift (x : Except ε α) : Imp σ ε α := fun s => (x, s)

/-- A program on a part of the state, which leaves the rest of it alone. -/
def focus {τ : Type u} (part : σ → τ) (put : τ → σ → σ) (x : Imp τ ε α) : Imp σ ε α :=
  fun s => ((x (part s)).1, put (x (part s)).2 s)

/-- `try x except e: h e`; the handler runs in the state in which `x` raised. -/
def handle (x : Imp σ ε α) (h : ε → Imp σ ε α) : Imp σ ε α := tryCatch x h

@[simp] theorem on_pure (a : α) (s : σ) : on (pure a : Imp σ ε α) s = (.ok a, s) := rfl

@[simp] theorem on_act (f : σ → α × σ) (s : σ) :
    on (act f : Imp σ ε α) s = (.ok (f s).1, (f s).2) := rfl

@[simp] theorem on_exec (f : σ → σ) (s : σ) : on (exec f : Imp σ ε PUnit) s = (.ok ⟨⟩, f s) := rfl

@[simp] theorem on_lift (x : Except ε α) (s : σ) : on (lift x : Imp σ ε α) s = (x, s) := rfl

@[simp] theorem on_focus {τ : Type u} (part : σ → τ) (put : τ → σ → σ) (x : Imp τ ε α) (s : σ) :
    on (focus part put x) s = ((on x (part s)).1, put (on x (part s)).2 s) := rfl

theorem on_bind (x : Imp σ ε α) (f : α → Imp σ ε β) (s : σ) :
    on (x >>= f) s = match on x s with
      | (.ok a, s') => on (f a) s'
      | (.error e, s') => (.error e, s') := by
  show StateT.bind x (ExceptT.bindCont f) s = _
  rcases h : on x s with ⟨_ | _, _⟩ <;>
    · simp only [StateT.bind, show x s = on x s from rfl, h]
      rfl

theorem on_map (f : α → β) (x : Imp σ ε α) (s : σ) :
    on (f <$> x) s = match on x s with
      | (.ok a, s') => (.ok (f a), s')
      | (.error e, s') => (.error e, s') := by
  rw [← bind_pure_comp, on_bind]
  rcases on x s with ⟨_ | _, _⟩ <;> rfl

theorem on_handle (x : Imp σ ε α) (h : ε → Imp σ ε α) (s : σ) :
    on (handle x h) s = match on x s with
      | (.ok a, s') => (.ok a, s')
      | (.error e, s') => on (h e) s' := by
  show ExceptT.tryCatch x h s = _
  rcases hx : on x s with ⟨_ | _, _⟩ <;>
    · simp only [ExceptT.tryCatch, ExceptT.mk, bind, StateT.bind, show x s = on x s from rfl, hx]
      rfl

section Outcome

variable {x : Imp σ ε α} {s s' : σ}

@[simp] theorem on_bind_ok {a : α} (h : on x s = (.ok a, s')) (f : α → Imp σ ε β) :
    on (x >>= f) s = on (f a) s' := by
  rw [on_bind, h]

theorem on_bind_error {e : ε} (h : on x s = (.error e, s')) (f : α → Imp σ ε β) :
    on (x >>= f) s = (.error e, s') := by
  rw [on_bind, h]

theorem on_handle_error {e : ε} (h : on x s = (.error e, s')) (k : ε → Imp σ ε α) :
    on (handle x k) s = on (k e) s' := by
  rw [on_handle, h]

end Outcome

/-! ### What a computation does to the state, whatever its outcome -/

/-- `x` leads from any state to one related to it by `R`, whether it returns or raises. -/
def Keeps (R : σ → σ → Prop) (x : Imp σ ε α) : Prop := ∀ s, R s (on x s).2

section Keeps

variable {R : σ → σ → Prop}

variable [IsPreorder σ R]

theorem Keeps.bind {x : Imp σ ε α} {f : α → Imp σ ε β} (hx : Keeps R x)
    (hf : ∀ a, Keeps R (f a)) : Keeps R (x >>= f) := by
  intro s
  have hfirst := hx s
  rw [on_bind]
  rcases h : on x s with ⟨e | a, s'⟩ <;> rw [h] at hfirst
  · exact hfirst
  · exact trans_of R hfirst (hf a s')

theorem Keeps.handle {x : Imp σ ε α} {k : ε → Imp σ ε α} (hx : Keeps R x)
    (hk : ∀ e, Keeps R (k e)) : Keeps R (Imp.handle x k) := by
  intro s
  have hfirst := hx s
  rw [on_handle]
  rcases h : on x s with ⟨e | a, s'⟩ <;> rw [h] at hfirst
  · exact trans_of R hfirst (hk e s')
  · exact hfirst

end Keeps

end Imp

end RateGuardian.Lib
