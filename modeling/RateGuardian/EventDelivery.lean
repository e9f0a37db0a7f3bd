import RateGuardian.RequestLogging

/-!
# RateGuardian.EventDelivery

**Which handlers an event reaches.** `emit` calls the handlers of an event's type one after the
other, and what a handler raises leaves the loop. A `Bus` is an event manager with its calls of
`emit` in progress: a handler may emit events of its own, return or raise, as it likes, but it does
not subscribe. `programs_subscribe` and `emit_run` connect it to the `subscribe` and the `emit` of
programs.

The `Ledger` of a run says which handlers each event is due to, from the subscriptions alone: those
subscribed to exactly its type when it is emitted, once for each subscription. It knows nothing of
loops, and `Booked` says how it follows a bus.

`everyEventDelivered_iff`: every event reaches all of them exactly when no handler raises while its
loop has handlers left. The loop has no `try`, so an exception takes the remaining handlers with it,
and with them, if a handler emitted the event, the rest of the loop that called that handler.
-/

namespace RateGuardian

open Lib Imp

/-! ### Calls of `emit` in progress -/

/-- The loop of a call of `emit`, with the event it is about. -/
structure Dispatch (ε η : Type) where
  event : ε
  /-- The handlers that were called, in order, whether or not they have returned. -/
  called : List η
  /-- The handlers that the loop has not come to. -/
  rest : List η
  /-- Whether the handler that was called last is still running. -/
  running : Bool

structure Bus (κ ε η : Type) where
  /-- `_handlers`, the handlers of each type in the order of their subscription. -/
  handlers : κ → List η
  /-- The calls of `emit` that have not returned, the innermost first. -/
  dispatches : List (Dispatch ε η)

inductive BusEvent (κ ε η : Type)
  | subscribe (type : κ) (handler : η)
  | emit (event : ε)
  /-- The loop calls its next handler. -/
  | call (handler : η)
  | returned
  | raised
  /-- The loop is at its end, and `emit` returns. -/
  | finished

variable {κ ε η σ : Type}

namespace Bus

def initial : Bus κ ε η := ⟨fun _ => [], []⟩

/-- `emit` can be called: by the handler that is running, if there is one. -/
def Ready (b : Bus κ ε η) : Prop := ∀ d ∈ b.dispatches.head?, d.running = true

end Bus

section Delivery

variable [DecidableEq κ] {typeOf : ε → κ}

inductive BusStep (typeOf : ε → κ) : Bus κ ε η → BusEvent κ ε η → Bus κ ε η → Prop
  | subscribe {hs : κ → List η} (type : κ) (handler : η) :
      BusStep typeOf ⟨hs, []⟩ (.subscribe type handler)
        ⟨Function.update hs type (hs type ++ [handler]), []⟩
  | emit {b : Bus κ ε η} (event : ε) (hready : b.Ready) :
      BusStep typeOf b (.emit event)
        ⟨b.handlers, ⟨event, [], b.handlers (typeOf event), false⟩ :: b.dispatches⟩
  | call {hs : κ → List η} {event : ε} {called rest : List η} {outer : List (Dispatch ε η)}
      (handler : η) :
      BusStep typeOf ⟨hs, ⟨event, called, handler :: rest, false⟩ :: outer⟩ (.call handler)
        ⟨hs, ⟨event, called ++ [handler], rest, true⟩ :: outer⟩
  | returned {hs : κ → List η} {event : ε} {called rest : List η}
      {outer : List (Dispatch ε η)} :
      BusStep typeOf ⟨hs, ⟨event, called, rest, true⟩ :: outer⟩ .returned
        ⟨hs, ⟨event, called, rest, false⟩ :: outer⟩
  /-- Nothing catches the exception: the loop ends, and `emit` raises it. -/
  | raised {hs : κ → List η} {event : ε} {called rest : List η} {outer : List (Dispatch ε η)} :
      BusStep typeOf ⟨hs, ⟨event, called, rest, true⟩ :: outer⟩ .raised ⟨hs, outer⟩
  | finished {hs : κ → List η} {event : ε} {called : List η} {outer : List (Dispatch ε η)} :
      BusStep typeOf ⟨hs, ⟨event, called, [], false⟩ :: outer⟩ .finished ⟨hs, outer⟩

/-! ### What each event is due -/

/-- An event with the handlers that are to receive it and those that did. -/
structure Receipt (ε η : Type) where
  event : ε
  due : List η
  received : List η

/-- What a run looks like from outside: who subscribed, and who received which event. -/
structure Ledger (κ ε η : Type) where
  /-- The calls of `subscribe`, in order. -/
  subscriptions : List (κ × η)
  /-- The events whose `emit` has not returned, the last one first. -/
  pending : List (Receipt ε η)
  settled : List (Receipt ε η)

namespace Ledger

def empty : Ledger κ ε η := ⟨[], [], []⟩

/-- The handlers subscribed to exactly this type, once per subscription. -/
def subscribedTo (l : Ledger κ ε η) (type : κ) : List η :=
  (l.subscriptions.filter fun s => s.1 = type).map Prod.snd

/-- A handler receives the event that was emitted last, among those that are pending. -/
def deliver (handler : η) : List (Receipt ε η) → List (Receipt ε η)
  | [] => []
  | r :: rs => { r with received := r.received ++ [handler] } :: rs

def observe (typeOf : ε → κ) (l : Ledger κ ε η) : BusEvent κ ε η → Ledger κ ε η
  | .subscribe type handler => { l with subscriptions := l.subscriptions ++ [(type, handler)] }
  | .emit event =>
      { l with pending := ⟨event, l.subscribedTo (typeOf event), []⟩ :: l.pending }
  | .call handler => { l with pending := deliver handler l.pending }
  | .returned => l
  | .raised | .finished =>
      { l with pending := l.pending.tail, settled := l.settled ++ l.pending.head?.toList }

end Ledger

def ledger (typeOf : ε → κ) (tr : List (Transition (Bus κ ε η) (BusEvent κ ε η))) :
    Ledger κ ε η :=
  tr.foldl (fun l t => l.observe typeOf t.label) .empty

/-- Each event whose `emit` has ended was received by the handlers it was due to, in their order,
and by no other. -/
def EveryEventDelivered (typeOf : ε → κ)
    (tr : List (Transition (Bus κ ε η) (BusEvent κ ε η))) : Prop :=
  ∀ r ∈ (ledger typeOf tr).settled, r.received = r.due

/-- A handler raises while the loop that called it has handlers left. -/
def CutsShort (t : Transition (Bus κ ε η) (BusEvent κ ε η)) : Prop :=
  t.label = .raised ∧ ∃ d ∈ t.pre.dispatches.head?, d.rest ≠ []

/-! ### The ledger follows the bus -/

/-- What is on record of the bus and of its loops: the handlers called so far are those that
received the event, and with the rest they are those it is due to. -/
structure Booked (l : Ledger κ ε η) (b : Bus κ ε η) : Prop where
  handlers : ∀ type, b.handlers type = l.subscribedTo type
  dispatches : List.Forall₂ (fun r d => r.received = d.called ∧ r.due = d.called ++ d.rest)
    l.pending b.dispatches

section Steps

variable {l : Ledger κ ε η} {b b' : Bus κ ε η} {e : BusEvent κ ε η}
  {tr : List (Transition (Bus κ ε η) (BusEvent κ ε η))}

theorem ledger_concat (t : Transition (Bus κ ε η) (BusEvent κ ε η)) :
    ledger typeOf (tr ++ [t]) = (ledger typeOf tr).observe typeOf t.label := by
  rw [ledger, List.foldl_append, ← ledger, List.foldl_cons, List.foldl_nil]

theorem subscribedTo_subscribe (l : Ledger κ ε η) (type type' : κ) (handler : η) :
    (l.observe typeOf (.subscribe type handler)).subscribedTo type' =
      l.subscribedTo type' ++ if type = type' then [handler] else [] := by
  rw [Ledger.observe, Ledger.subscribedTo, List.filter_append, List.map_append,
    ← Ledger.subscribedTo]
  by_cases htype : type = type'
  · simp [htype]
  · simp [htype]

/-- Every step of the bus keeps the books: the ledger that has observed it is booked again. -/
theorem Booked.step (h : Booked l b) (hstep : BusStep typeOf b e b') :
    Booked (l.observe typeOf e) b' := by
  cases hstep with
  | subscribe type handler =>
      refine ⟨?_, h.dispatches⟩
      intro type'
      rw [subscribedTo_subscribe, ← h.handlers type']
      by_cases htype : type = type'
      · subst htype
        rw [if_pos rfl]
        exact Function.update_self _ _ _
      · rw [if_neg htype, List.append_nil]
        exact Function.update_of_ne (Ne.symm htype) _ _
  | emit event hready =>
      exact ⟨h.handlers, .cons ⟨rfl, (h.handlers _).symm⟩ h.dispatches⟩
  | call handler =>
      obtain ⟨hhandlers, hdispatches⟩ := h
      obtain ⟨r, rs, ⟨hreceived, hdue⟩, hrest, hpending⟩ :=
        List.forall₂_cons_right_iff.mp hdispatches
      refine ⟨hhandlers, ?_⟩
      rw [Ledger.observe, hpending]
      refine .cons ⟨?_, ?_⟩ hrest
      · exact congrArg (· ++ [handler]) hreceived
      · rw [List.append_assoc]
        exact hdue
  | returned =>
      obtain ⟨hhandlers, hdispatches⟩ := h
      obtain ⟨r, rs, hr, hrest, hpending⟩ := List.forall₂_cons_right_iff.mp hdispatches
      refine ⟨hhandlers, ?_⟩
      rw [Ledger.observe, hpending]
      exact .cons hr hrest
  | raised | finished =>
      obtain ⟨hhandlers, hdispatches⟩ := h
      obtain ⟨r, rs, -, hrest, hpending⟩ := List.forall₂_cons_right_iff.mp hdispatches
      refine ⟨hhandlers, ?_⟩
      rw [Ledger.observe, hpending]
      exact hrest

theorem Booked.received_prefix (h : Booked l b) : ∀ r ∈ l.pending, r.received <+: r.due := by
  have hdispatches := h.dispatches
  generalize l.pending = rs, b.dispatches = ds at hdispatches
  induction hdispatches with
  | nil => nofun
  | cons hr _ ih =>
      refine List.forall_mem_cons.mpr ⟨?_, ih⟩
      rw [hr.1, hr.2]
      exact List.prefix_append _ _

/-- What a step settles was pending before it, or was settled already. -/
theorem mem_settled_observe {r : Receipt ε η} (hr : r ∈ (l.observe typeOf e).settled) :
    r ∈ l.settled ∨ r ∈ l.pending := by
  cases e with
  | raised | finished =>
      rw [Ledger.observe, List.mem_append, Option.mem_toList] at hr
      exact hr.imp_right List.mem_of_mem_head?
  | _ => exact Or.inl hr

/-- After every run from an empty bus, the ledger of the run is booked. -/
theorem booked_run (h : Run (BusStep typeOf) .initial tr b) :
    Booked (ledger typeOf tr) b ∧ ∀ r ∈ (ledger typeOf tr).settled, r.received <+: r.due := by
  induction h with
  | nil => exact ⟨⟨fun _ => rfl, .nil⟩, nofun⟩
  | snoc _ hstep ih =>
      obtain ⟨hbooked, hsettled⟩ := ih
      rw [ledger_concat]
      refine ⟨hbooked.step hstep, ?_⟩
      intro r hr
      rcases mem_settled_observe hr with hr | hr
      · exact hsettled r hr
      · exact hbooked.received_prefix r hr

/-- An event that is settled in a step was delivered if the step does not cut its loop short. -/
theorem Booked.settles_iff (h : Booked l b) (hstep : BusStep typeOf b e b') :
    (∀ r ∈ (l.observe typeOf e).settled, r.received = r.due) ↔
      (∀ r ∈ l.settled, r.received = r.due) ∧ ¬ CutsShort ⟨b, e, b'⟩ := by
  cases hstep with
  | raised =>
      obtain ⟨r, rs, ⟨hreceived, hdue⟩, -, hpending⟩ :=
        List.forall₂_cons_right_iff.mp h.dispatches
      rw [Ledger.observe, hpending, List.forall_mem_append]
      refine and_congr_right fun _ => ?_
      simp [CutsShort, hreceived, hdue]
  | finished =>
      obtain ⟨r, rs, ⟨hreceived, hdue⟩, -, hpending⟩ :=
        List.forall₂_cons_right_iff.mp h.dispatches
      rw [Ledger.observe, hpending, List.forall_mem_append]
      refine and_congr_right fun _ => ?_
      simp [CutsShort, hreceived, hdue]
  | _ => simp [CutsShort, Ledger.observe]

end Steps

/-- **Who receives an event.** An event reaches no handler that it is not due to, and those it is
due to in their order. It reaches all of them in every call of `emit` exactly when no handler
raises while its loop has handlers left. -/
theorem everyEventDelivered_iff {tr : List (Transition (Bus κ ε η) (BusEvent κ ε η))}
    {b : Bus κ ε η} (h : Run (BusStep typeOf) .initial tr b) :
    (∀ r ∈ (ledger typeOf tr).pending ++ (ledger typeOf tr).settled, r.received <+: r.due) ∧
    (EveryEventDelivered typeOf tr ↔ ∀ t ∈ tr, ¬ CutsShort t) := by
  refine ⟨?_, ?_⟩
  · obtain ⟨hbooked, hsettled⟩ := booked_run h
    exact List.forall_mem_append.mpr ⟨hbooked.received_prefix, hsettled⟩
  · induction h with
    | nil => exact iff_of_true nofun nofun
    | snoc hrun hstep ih =>
        rw [EveryEventDelivered, ledger_concat, (booked_run hrun).1.settles_iff hstep,
          List.forall_mem_append, List.forall_mem_singleton]
        exact and_congr_left fun _ => ih

/-! ### Handlers that are programs -/

section Programs

variable (body : η → ε → Imp σ PyException Unit)

/-- The handlers of each type with what they do. -/
def programs (hs : κ → List η) : Handlers κ ε σ := fun type => (hs type).map body

/-- What the bus keeps for a type is what `subscribe` makes of it: the new handler is the
last one. -/
theorem programs_subscribe (hs : κ → List η) (type : κ) (handler : η) :
    programs body (Function.update hs type (hs type ++ [handler])) =
      (programs body hs).subscribe type (body handler) := by
  funext type'
  by_cases htype : type' = type
  · subst htype
    simp [programs, Handlers.subscribe]
  · simp [programs, Handlers.subscribe, Function.update_of_ne htype]

/-- What happens in the loop of `emit`, as events of the bus. -/
def loopEvents (event : ε) : List η → σ → List (BusEvent κ ε η)
  | [], _ => [.finished]
  | handler :: handlers, s =>
      match on (body handler event) s with
      | (.ok _, s') => .call handler :: .returned :: loopEvents event handlers s'
      | (.error _, _) => [.call handler, .raised]

variable {body} {event : ε}

omit [DecidableEq κ] in
theorem raised_mem_loopEvents (handlers : List η) (s : σ) :
    (.raised : BusEvent κ ε η) ∈ loopEvents body event handlers s ↔
      ∃ exc, (on (Handlers.callAll (handlers.map body) event) s).1 = .error exc := by
  induction handlers generalizing s with
  | nil => simp [loopEvents, Handlers.callAll]
  | cons handler handlers ih =>
      rw [List.map_cons, Handlers.callAll, on_bind, loopEvents]
      rcases on (body handler event) s with ⟨_ | _, s'⟩
      · simp
      · simpa using ih s'

/-- The loop is a run of the bus, inside of the loops that are in progress. -/
theorem callAll_run (hs : κ → List η) (called : List η) (outer : List (Dispatch ε η))
    (handlers : List η) (s : σ) :
    ∃ tr, Run (BusStep typeOf) ⟨hs, ⟨event, called, handlers, false⟩ :: outer⟩ tr ⟨hs, outer⟩ ∧
      tr.map Transition.label = loopEvents body event handlers s := by
  induction handlers generalizing called s with
  | nil => exact ⟨_, .single .finished, rfl⟩
  | cons handler handlers ih =>
      rw [loopEvents]
      rcases on (body handler event) s with ⟨_ | _, s'⟩
      · exact ⟨_, .snoc (.single (.call handler)) .raised, rfl⟩
      · obtain ⟨tr, hrun, hlabels⟩ := ih (called ++ [handler]) s'
        refine ⟨_, (Run.snoc (.single (.call handler)) .returned).append hrun, ?_⟩
        rw [List.map_append, hlabels]
        rfl

/-- **`emit` is a run of the bus**, whatever is in progress, and it raises what the last handler
called raised. -/
theorem emit_run {b : Bus κ ε η} (hready : b.Ready) (event : ε) (s : σ) :
    ∃ tr, Run (BusStep typeOf) b tr b ∧
      tr.map Transition.label = .emit event :: loopEvents body event (b.handlers (typeOf event)) s ∧
      (.raised ∈ tr.map Transition.label ↔
        ∃ exc, (on ((programs body b.handlers).emit typeOf event) s).1 = .error exc) := by
  obtain ⟨tr, hrun, hall⟩ : ∃ tr, Run (BusStep typeOf) b tr b ∧ tr.map Transition.label =
      .emit event :: loopEvents body event (b.handlers (typeOf event)) s := by
    obtain ⟨tr, hrun, hlabels⟩ := @callAll_run κ ε η σ _ typeOf body event b.handlers []
      b.dispatches (b.handlers (typeOf event)) s
    refine ⟨_, (Run.single (.emit event hready)).append hrun, ?_⟩
    rw [List.map_append, hlabels]
    rfl
  refine ⟨tr, hrun, hall, ?_⟩
  rw [hall, List.mem_cons, or_iff_right nofun, raised_mem_loopEvents]
  rfl

end Programs

end Delivery

/-! ### Handlers that raise -/

def refusal : Event := .blocked ⟨"1.1.1.1", "GET", "/x", "api.test", 429, 1, "rate_limit"⟩

/-- Handlers that write their number down; the first one then raises. -/
def numbered : ℕ → Event → Imp (List ℕ) PyException Unit
  | 1, _ => do
      exec fun log => log ++ [1]
      lift (.error ⟨"handler failed"⟩)
  | n, _ => exec fun log => log ++ [n]

/-- Two handlers of one type, of which the last one raises. -/
theorem everyEventDelivered_iff_last_raises :
    ∃ (tr : List (Transition (Bus EventType Event ℕ) (BusEvent EventType Event ℕ)))
      (b : Bus EventType Event ℕ), Run (BusStep Event.type) .initial tr b ∧
        (∃ t ∈ tr, t.label = .raised) ∧ EveryEventDelivered Event.type tr := by
  have hrun := Run.snoc (.snoc (.snoc (.snoc (.snoc (.snoc (.single
    (@BusStep.subscribe EventType Event ℕ _ Event.type (fun _ => []) .requestBlocked 1))
    (.subscribe .requestBlocked 2))
    (.emit refusal nofun)) (.call 1)) .returned) (.call 2)) .raised
  refine ⟨_, _, hrun, ⟨_, List.mem_append_right _ (List.mem_singleton_self _), rfl⟩,
    (everyEventDelivered_iff hrun).2.mpr ?_⟩
  simp [CutsShort]

/-- The second handler of the event is not called, because the first one raises. -/
theorem second_handler_left_out :
    on ((programs numbered fun _ => [1, 2]).emit Event.type refusal) [] =
        (.error ⟨"handler failed"⟩, [1]) ∧
      ¬ ∀ (tr : List (Transition (Bus EventType Event ℕ) (BusEvent EventType Event ℕ)))
        (b : Bus EventType Event ℕ), Run (BusStep Event.type) .initial tr b →
          EveryEventDelivered Event.type tr := by
  refine ⟨rfl, ?_⟩
  intro hall
  have hrun := Run.snoc (.snoc (.snoc (.snoc (.single
    (@BusStep.subscribe EventType Event ℕ _ Event.type (fun _ => []) .requestBlocked 1))
    (.subscribe .requestBlocked 2))
    (.emit refusal nofun)) (.call 1)) .raised
  have hone := hall _ _ hrun ⟨refusal, [1, 2], [1]⟩ (List.mem_singleton_self _)
  cases hone

end RateGuardian
