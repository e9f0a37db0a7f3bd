import RateGuardian.Pipeline
import Mathlib.Logic.Function.Basic

/-!
# RateGuardian.EventManager

`EventManager` of `app/core/event_manager.py`: the handlers subscribed to each type of event, called
one after another when an event of exactly that type is emitted.

Event types are any type `κ`, and `typeOf` is `type(event)`. A handler is a program on the state of
its subscribers.
-/

namespace RateGuardian

open Lib Imp

/-- `_handlers`, a dictionary of lists that is empty for a type nobody subscribed to. -/
abbrev Handlers (κ ε σ : Type) := κ → List (ε → Imp σ PyException Unit)

namespace Handlers

variable {κ ε σ : Type} [DecidableEq κ]

def empty : Handlers κ ε σ := fun _ => []

def subscribe (hs : Handlers κ ε σ) (type : κ) (handler : ε → Imp σ PyException Unit) :
    Handlers κ ε σ :=
  Function.update hs type (hs type ++ [handler])

/-- The loop of `emit`, which an exception of a handler leaves. -/
def callAll : List (ε → Imp σ PyException Unit) → ε → Imp σ PyException Unit
  | [], _ => return ()
  | handler :: handlers, event => do
      handler event
      callAll handlers event

def emit (hs : Handlers κ ε σ) (typeOf : ε → κ) (event : ε) : Imp σ PyException Unit :=
  callAll (hs (typeOf event)) event

end Handlers

end RateGuardian
