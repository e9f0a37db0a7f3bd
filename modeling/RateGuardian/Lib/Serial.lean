import RateGuardian.Lib.Run

/-!
# RateGuardian.Lib.Serial

**Concurrent requests that could have come one after another.** A step of a concurrent system may be
the one at which a request takes effect. `replay f t₀ l` is what a sequential machine `f` answers
the requests of `l`, in order. `Run.serial`: where the steps that take effect do to the state what
the machine does, and the other steps do nothing, every run is a replay.

What has to be found for an application is the step at which each kind of request takes effect, and
the relation `I` between the concurrent system and the sequential machine. It also has the answers
so far, because a request may be answered long after it took effect.
-/

namespace RateGuardian.Lib

variable {σ ℓ τ ι κ α : Type*}

/-- The calls, each with what the machine answers it after the calls before. -/
def replay (f : τ → κ → α × τ) : τ → List (ι × κ) → List (ι × κ × α)
  | _, [] => []
  | t, (i, c) :: calls => (i, c, (f t c).1) :: replay f (f t c).2 calls

section Replay

variable (f : τ → κ → α × τ) (t : τ)

theorem final_cons (c : κ) (cs : List κ) : final f t (c :: cs) = final f (f t c).2 cs := by
  induction cs using List.reverseRecOn with
  | nil => rfl
  | append_singleton cs c' ih => rw [← List.cons_append, final_concat, final_concat, ih]

variable (calls : List (ι × κ))

theorem map_replay : (replay f t calls).map (fun e => (e.1, e.2.1)) = calls := by
  induction calls generalizing t with
  | nil => rfl
  | cons call calls ih => rw [replay, List.map_cons, ih]

theorem replay_concat (i : ι) (c : κ) :
    replay f t (calls ++ [(i, c)]) =
      replay f t calls ++ [(i, c, (f (final f t (calls.map Prod.snd)) c).1)] := by
  induction calls generalizing t with
  | nil => rfl
  | cons call calls ih =>
      rw [List.cons_append, replay, ih, List.map_cons, final_cons]
      rfl

end Replay

/-- **Effects in order.** `I` relates the answers so far, the state of the sequential machine and
that of the concurrent system. -/
theorem Run.serial {step : σ → ℓ → σ → Prop} {f : τ → κ → α × τ}
    {effect : Transition σ ℓ → Option (ι × κ)} {I : List (ι × κ × α) → τ → σ → Prop} {t₀ : τ}
    {s₀ s : σ} {tr : List (Transition σ ℓ)} (h : Run step s₀ tr s) (init : I [] t₀ s₀)
    (silent : ∀ hist t s l s', I hist t s → step s l s' → effect ⟨s, l, s'⟩ = none →
      I hist t s')
    (effective : ∀ hist t s l s' i c, I hist t s → step s l s' →
      effect ⟨s, l, s'⟩ = some (i, c) → I (hist ++ [(i, c, (f t c).1)]) (f t c).2 s') :
    I (replay f t₀ (tr.filterMap effect)) (final f t₀ ((tr.filterMap effect).map Prod.snd)) s := by
  refine h.invariant (I := fun tr s => I (replay f t₀ (tr.filterMap effect))
    (final f t₀ ((tr.filterMap effect).map Prod.snd)) s) init ?_
  intro tr s l s' _ ih hstep
  cases heffect : effect ⟨s, l, s'⟩ with
  | none =>
      rw [List.filterMap_append, List.filterMap_cons_none heffect, List.filterMap_nil,
        List.append_nil]
      exact silent _ _ _ _ _ ih hstep heffect
  | some call =>
      obtain ⟨i, c⟩ := call
      rw [List.filterMap_append, List.filterMap_cons_some heffect, List.filterMap_nil,
        replay_concat, List.map_append, List.map_singleton, final_concat]
      exact effective _ _ _ _ _ _ _ ih hstep heffect

end RateGuardian.Lib
