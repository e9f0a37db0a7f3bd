import RateGuardian.CircuitBreakerSound
import Mathlib.Logic.Function.Iterate

/-!
# RateGuardian.SharedBreaker

**Several gateway processes, one circuit.** The operations of `RedisCircuitBreaker` are up to
five Redis commands each, and nothing makes them one step. `BreakerPoint.command` is the next
command of a call from where it stands; a run interleaves the commands of any number of
processes.

The commands are given twice, on the database and on `CircuitState`, and the first refines
the second (`command_refines`). The commands of one process with nothing in between are one
call (`call_steps`), so that the operations of `CircuitBreaker` are a special case of these.

While calls are in progress the three keys of a circuit may contradict each other: a counter at the
threshold under CLOSED, a deadline under CLOSED, OPEN without a deadline. The invariant therefore
gives each such contradiction to a call that is in progress and that will mend it, or that will at
least still write the state key (`AnsweredFor`, `OpenInv`). Where no call is in progress, nobody is
left to answer, and the keys agree. One kind of step breaks this for an OPEN circuit: the success of
one process deletes the deadline that the failure of another has just set
(`open_without_deadline`). `ClearsSafely` excludes that step and no other.

* `poolInv_run`: the invariant holds after every interleaving;
* `consistent_when_quiet`: what follows from it for the states in which no call is in progress.
-/

namespace RateGuardian

open Lib Redis RedisCircuitBreaker

/-! ### Calls in progress

The points name what is about to happen, so a process at `opening` has not written OPEN yet. Clock
readings are steps of their own where the source reads the clock between two commands. -/

/-- Where a process stands in a call: which command of it, or which clock reading, comes next. -/
inductive BreakerPoint
  /-- No call is in progress; the answer of the last one. -/
  | done (answer : Option Bool)
  -- `can_request`
  | asking
  | readingDeadline
  | comparing (opensAt : Time)
  | probing
  -- `record_success`
  | succeeding
  | closing
  | clearingFailures
  | clearingDeadline
  -- `record_failure`
  | failing
  | counting (state : State)
  | tripping
  | settingDeadline (opensAt : Time)
  | opening
  deriving DecidableEq

namespace BreakerPoint

def busy : BreakerPoint → Bool
  | .done _ => false
  | _ => true

/-- Where a call begins: the first command of the operation is still to come. -/
def entry : Op → BreakerPoint
  | .canRequest => .asking
  | .recordSuccess => .succeeding
  | .recordFailure => .failing

/-- The next command of a call, or its clock reading: what it makes of the database, and where the
call stands then. -/
def command (cb : RedisCircuitBreaker) (up : String) (now : Time) (r : Redis) :
    BreakerPoint → BreakerPoint × Redis
  | .done answer => (.done answer, r)
  | .asking =>
      match stateOf (r.get now (stateKey up)) with
      | .closed => (.done (some true), r)
      | .«open» => (.readingDeadline, r)
      | .halfOpen => (.done (some true), r)
  | .readingDeadline => (.comparing ((timeOf (r.get now (opensAtKey up))).getD 0), r)
  | .comparing opensAt => (if opensAt ≤ now then .probing else .done (some false), r)
  | .probing => (.done (some true), r.set (stateKey up) (.state .halfOpen))
  | .succeeding =>
      let state := stateOf (r.get now (stateKey up))
      (if state = .halfOpen ∨ state = .«open» then .closing else .done none, r)
  | .closing => (.clearingFailures, r.set (stateKey up) (.state .closed))
  | .clearingFailures => (.clearingDeadline, r.delete (failuresKey up))
  | .clearingDeadline => (.done none, r.delete (opensAtKey up))
  | .failing => (.counting (stateOf (r.get now (stateKey up))), r)
  | .counting state =>
      let (failures, r) := r.incr now (failuresKey up)
      (if state = .halfOpen ∨ cb.threshold ≤ failures then .tripping else .done none, r)
  | .tripping => (.settingDeadline (now + cb.recovery), r)
  | .settingDeadline opensAt => (.opening, r.set (opensAtKey up) (.time opensAt))
  | .opening => (.done none, r.set (stateKey up) (.state .«open»))

/-- The same command on the circuit that the three keys hold, without the database around it. -/
def commandOn (cb : RedisCircuitBreaker) (now : Time) (c : CircuitState) :
    BreakerPoint → BreakerPoint × CircuitState
  | .done answer => (.done answer, c)
  | .asking =>
      match c.state with
      | .closed => (.done (some true), c)
      | .«open» => (.readingDeadline, c)
      | .halfOpen => (.done (some true), c)
  | .readingDeadline => (.comparing (c.opensAt.getD 0), c)
  | .comparing opensAt => (if opensAt ≤ now then .probing else .done (some false), c)
  | .probing => (.done (some true), { c with state := .halfOpen })
  | .succeeding =>
      (if c.state = .halfOpen ∨ c.state = .«open» then .closing else .done none, c)
  | .closing => (.clearingFailures, { c with state := .closed })
  | .clearingFailures => (.clearingDeadline, { c with failures := 0 })
  | .clearingDeadline => (.done none, { c with opensAt := none })
  | .failing => (.counting c.state, c)
  | .counting state =>
      (if state = .halfOpen ∨ cb.threshold ≤ c.failures + 1 then .tripping else .done none,
        { c with failures := c.failures + 1 })
  | .tripping => (.settingDeadline (now + cb.recovery), c)
  | .settingDeadline opensAt => (.opening, { c with opensAt := some opensAt })
  | .opening => (.done none, { c with state := .«open» })

section CommandOn

variable {cb : RedisCircuitBreaker} {now : Time} {c : CircuitState} {p : BreakerPoint}

theorem commandOn_asking : (commandOn cb now c .asking).2 = c := by
  rw [commandOn]
  cases c.state <;> rfl

@[simp] theorem commandOn_upstream : (p.commandOn cb now c).2.upstream = c.upstream := by
  cases p with
  | asking => rw [commandOn_asking]
  | _ => rfl

/-- The state key says OPEN after a command only if it did before, or if the command was the last
one of `record_failure`. -/
theorem commandOn_opens (hopen : (p.commandOn cb now c).2.state = .«open») :
    c.state = .«open» ∨ p = .opening := by
  cases p with
  | asking =>
      rw [commandOn_asking] at hopen
      exact Or.inl hopen
  | opening => exact Or.inr rfl
  | probing | closing => cases hopen
  | _ => exact Or.inl hopen

/-- Only the last command of `_transition` takes a deadline away; every other one keeps it or sets a
new one. -/
theorem commandOn_opensAt (hp : p ≠ .clearingDeadline)
    (habsent : (p.commandOn cb now c).2.opensAt = none) :
    c.opensAt = none ∧ (p.commandOn cb now c).1 ≠ .opening := by
  cases p with
  | asking =>
      rw [commandOn_asking] at habsent
      refine ⟨habsent, ?_⟩
      rw [commandOn]
      cases c.state <;> nofun
  | clearingDeadline => exact absurd rfl hp
  | settingDeadline => cases habsent
  | comparing opensAt =>
      refine ⟨habsent, ?_⟩
      rw [commandOn]
      split <;> nofun
  | succeeding =>
      refine ⟨habsent, ?_⟩
      rw [commandOn]
      split <;> nofun
  | counting state =>
      refine ⟨habsent, ?_⟩
      rw [commandOn]
      split <;> nofun
  | _ => exact ⟨habsent, nofun⟩

end CommandOn

/-- A call whose commands meet no other process is the call of `RedisCircuitBreaker`: five
commands finish it. -/
theorem call_steps (cb : RedisCircuitBreaker) (up : String) (now : Time) (r : Redis) (op : Op) :
    (fun q => command cb up now q.2 q.1)^[5] (entry op, r) =
      (.done (call cb up r ⟨op, now⟩).1, (call cb up r ⟨op, now⟩).2) := by
  simp only [Function.iterate_succ, Function.iterate_zero, Function.comp_apply, id]
  cases op with
  | canRequest =>
      rcases hs : stateOf (r.get now (stateKey up)) with _ | _ | _
      · simp [entry, command, call, canRequest, hs]
      · by_cases hle : (timeOf (r.get now (opensAtKey up))).getD 0 ≤ now
        · simp [entry, command, call, canRequest, transition, hs, hle]
        · simp [entry, command, call, canRequest, hs, hle]
      · simp [entry, command, call, canRequest, hs]
  | recordSuccess =>
      by_cases hs : stateOf (r.get now (stateKey up)) = .halfOpen ∨
          stateOf (r.get now (stateKey up)) = .«open»
      · simp only [entry, command, call, recordSuccess, transition, if_pos hs]
        rfl
      · simp only [entry, command, call, recordSuccess, if_neg hs]
  | recordFailure =>
      have hfirst : command cb up now r (entry .recordFailure) =
          (.counting (stateOf (r.get now (stateKey up))), r) := rfl
      by_cases htrip : stateOf (r.get now (stateKey up)) = .halfOpen ∨
          cb.threshold ≤ (r.incr now (failuresKey up)).1
      · have hcount : command cb up now r (.counting (stateOf (r.get now (stateKey up)))) =
            (.tripping, (r.incr now (failuresKey up)).2) := by
          simp only [command, if_pos htrip]
        simp only [hfirst, hcount, call, recordFailure, transition, if_pos htrip]
        rfl
      · have hcount : command cb up now r (.counting (stateOf (r.get now (stateKey up)))) =
            (.done none, (r.incr now (failuresKey up)).2) := by
          simp only [command, if_neg htrip]
        simp only [hfirst, hcount, call, recordFailure, if_neg htrip]
        rfl

end BreakerPoint

/-! ### The commands refine their counterparts

From here on the database is out of sight: a step of the processes is a step on the circuit that the
keys hold, and the invariants are invariants of circuits. -/

namespace RedisCircuitBreaker

section Refinement

variable {r : Redis} {c : CircuitState} (h : Stored r c)
include h

theorem Stored.setState (state : State) :
    Stored (r.set (stateKey c.upstream) (.state state)) { c with state := state } := by
  refine ⟨Or.inr (by simp [Slot.put]), ?_, ?_⟩
  · simpa using h.failures
  · simpa using h.opensAt

theorem Stored.deleteFailures :
    Stored (r.delete (failuresKey c.upstream)) { c with failures := 0 } := by
  refine ⟨?_, Or.inl ⟨by simp, rfl⟩, ?_⟩
  · simpa using h.state
  · simpa using h.opensAt

theorem Stored.deleteOpensAt :
    Stored (r.delete (opensAtKey c.upstream)) { c with opensAt := none } := by
  refine ⟨?_, ?_, by simp⟩
  · simpa using h.state
  · simpa using h.failures

theorem Stored.setOpensAt (t : Time) :
    Stored (r.set (opensAtKey c.upstream) (.time t)) { c with opensAt := some t } := by
  refine ⟨?_, ?_, by simp [Slot.put]⟩
  · simpa using h.state
  · simpa using h.failures

/-- **One command.** Where the keys hold the circuit `c`, a command moves the call to the same point
as its counterpart on `c`, and the keys hold afterwards what that makes of `c`. -/
theorem command_refines (cb : RedisCircuitBreaker) (now : Time) (p : BreakerPoint) :
    (p.command cb c.upstream now r).1 = (p.commandOn cb now c).1 ∧
      Stored (p.command cb c.upstream now r).2 (p.commandOn cb now c).2 := by
  cases p with
  | done answer => exact ⟨rfl, h⟩
  | asking =>
      rw [BreakerPoint.command, BreakerPoint.commandOn, h.stateOf_get]
      cases c.state <;> exact ⟨rfl, h⟩
  | readingDeadline =>
      rw [BreakerPoint.command, BreakerPoint.commandOn, h.timeOf_get]
      exact ⟨rfl, h⟩
  | comparing opensAt => exact ⟨rfl, h⟩
  | probing => exact ⟨rfl, h.setState _⟩
  | succeeding =>
      rw [BreakerPoint.command, BreakerPoint.commandOn, h.stateOf_get]
      exact ⟨rfl, h⟩
  | closing => exact ⟨rfl, h.setState _⟩
  | clearingFailures => exact ⟨rfl, h.deleteFailures⟩
  | clearingDeadline => exact ⟨rfl, h.deleteOpensAt⟩
  | failing =>
      rw [BreakerPoint.command, BreakerPoint.commandOn, h.stateOf_get]
      exact ⟨rfl, h⟩
  | counting state =>
      obtain ⟨hcount, hincr⟩ := h.incr now
      refine ⟨?_, hincr⟩
      simp only [BreakerPoint.command, BreakerPoint.commandOn, hcount]
  | tripping => exact ⟨rfl, h⟩
  | settingDeadline opensAt => exact ⟨rfl, h.setOpensAt _⟩
  | opening => exact ⟨rfl, h.setState _⟩

end Refinement

end RedisCircuitBreaker

/-! ### The processes -/

structure BreakerPool (n : ℕ) where
  clock : Time
  redis : Redis
  point : Fin n → BreakerPoint

namespace BreakerPool

variable {n : ℕ}

def initial (n : ℕ) (t₀ : Time) : BreakerPool n := ⟨t₀, .empty, fun _ => .done none⟩

/-- Process `i` executes its next command at the current time, and all other processes stay where
they are. -/
def advance (cb : RedisCircuitBreaker) (up : String) (s : BreakerPool n) (i : Fin n) :
    BreakerPool n :=
  let (p, r) := (s.point i).command cb up s.clock s.redis
  { s with redis := r, point := Function.update s.point i p }

/-- No call is in progress in any of the processes. -/
def Quiet (s : BreakerPool n) : Prop := ∀ i, (s.point i).busy = false

instance (s : BreakerPool n) : Decidable s.Quiet :=
  inferInstanceAs (Decidable (∀ i, (s.point i).busy = false))

/-- The circuit of the upstream as `get_state` would report it at the current time. -/
def circuit (s : BreakerPool n) (up : String) : CircuitState := getState s.redis s.clock up

end BreakerPool

inductive BreakerEvent (n : ℕ)
  | tick (now : Time)
  | call (i : Fin n) (op : Op)
  | command (i : Fin n)
  deriving DecidableEq

inductive BreakerStep {n : ℕ} (cb : RedisCircuitBreaker) (up : String) :
    BreakerPool n → BreakerEvent n → BreakerPool n → Prop
  | tick {s : BreakerPool n} (now : Time) (hle : s.clock ≤ now) :
      BreakerStep cb up s (.tick now) { s with clock := now }
  | call {s : BreakerPool n} (i : Fin n) (op : Op) (hi : (s.point i).busy = false) :
      BreakerStep cb up s (.call i op)
        { s with point := Function.update s.point i (.entry op) }
  | command {s : BreakerPool n} (i : Fin n) (hi : (s.point i).busy = true) :
      BreakerStep cb up s (.command i) (s.advance cb up i)

section Runs

variable {n : ℕ} {cb : RedisCircuitBreaker} {up : String} {s s' : BreakerPool n}
  {e : BreakerEvent n} {c : CircuitState}

/-- **One step, on the circuit.** Time passes, or one process moves on: it starts a call, or it
executes the command it stands at. -/
theorem BreakerStep.cases_on_circuit (h : BreakerStep cb up s e s') (hs : Stored s.redis c)
    (hup : c.upstream = up) : ∃ c', Stored s'.redis c' ∧ c'.upstream = up ∧
      ((s'.point = s.point ∧ c' = c) ∨
        ∃ i p, s'.point = Function.update s.point i p ∧
          ((∃ op, (s.point i).busy = false ∧ p = .entry op ∧ c' = c) ∨
            e = .command i ∧ (s.point i).commandOn cb s.clock c = (p, c'))) := by
  cases h with
  | tick now hle => exact ⟨c, hs, hup, Or.inl ⟨rfl, rfl⟩⟩
  | call i op hi => exact ⟨c, hs, hup, Or.inr ⟨i, _, rfl, Or.inl ⟨op, hi, rfl, rfl⟩⟩⟩
  | command i hi =>
      subst hup
      obtain ⟨hpoint, hredis⟩ := command_refines hs cb s.clock (s.point i)
      refine ⟨((s.point i).commandOn cb s.clock c).2, hredis, BreakerPoint.commandOn_upstream,
        Or.inr ⟨i, ((s.point i).commandOn cb s.clock c).1, ?_, Or.inr ⟨rfl, rfl⟩⟩⟩
      show Function.update s.point i ((s.point i).command cb c.upstream s.clock s.redis).1 = _
      rw [hpoint]

end Runs

/-! ### What a quiet state owes to the calls in progress

There are two debts. A call can owe the end of a row of failures, because it has seen the threshold
reached and has not opened the circuit yet, or has closed the circuit and not deleted the counter
yet. And it can owe the end of a deadline, which it set before writing OPEN or which it has to
delete after writing CLOSED. -/

/-- The call will still write OPEN, or delete the failures of a circuit it closed. -/
def BreakerPoint.answersForFailures : BreakerPoint → Bool
  | .tripping | .settingDeadline _ | .opening | .clearingFailures => true
  | _ => false

/-- The call will still write OPEN over the deadline it set, or delete the deadline. -/
def BreakerPoint.answersForDeadline : BreakerPoint → Bool
  | .opening | .clearingFailures | .clearingDeadline => true
  | _ => false

/-- While the state key says CLOSED, a counter at the threshold is the business of the call at
`p` or of the `others`, and so is a deadline. -/
structure AnsweredFor (cb : RedisCircuitBreaker) (forFailures forDeadline : Prop)
    (p : BreakerPoint) (c : CircuitState) : Prop where
  failures : c.state = .closed →
    c.failures < cb.threshold ∨ p.answersForFailures = true ∨ forFailures
  opensAt : c.state = .closed → c.opensAt = none ∨ p.answersForDeadline = true ∨ forDeadline

section AnsweredFor

variable {cb : RedisCircuitBreaker} {forFailures forDeadline : Prop} {p p' : BreakerPoint}
  {c : CircuitState}

theorem AnsweredFor.of_resting (h : AnsweredFor cb forFailures forDeadline p c)
    (hf : p.answersForFailures = false) (hd : p.answersForDeadline = false) :
    AnsweredFor cb forFailures forDeadline p' c := by
  constructor
  · intro hclosed
    have hkept := h.failures hclosed
    rw [hf] at hkept
    exact hkept.imp_right fun hother => Or.inr (hother.resolve_left Bool.false_ne_true)
  · intro hclosed
    have hkept := h.opensAt hclosed
    rw [hd] at hkept
    exact hkept.imp_right fun hother => Or.inr (hother.resolve_left Bool.false_ne_true)

/-- **One command.** A command that makes the counter or the deadline untrue to CLOSED belongs
to a call that answers for it, until a later command of that call mends it. -/
theorem AnsweredFor.command (h : AnsweredFor cb forFailures forDeadline p c)
    (hth : 1 ≤ cb.threshold) (now : Time) :
    AnsweredFor cb forFailures forDeadline (p.commandOn cb now c).1 (p.commandOn cb now c).2 := by
  cases p with
  | done answer => exact h
  | asking =>
      have hkept : ∀ p', AnsweredFor cb forFailures forDeadline p' c :=
        fun _ => h.of_resting rfl rfl
      rw [BreakerPoint.commandOn]
      cases c.state <;> exact hkept _
  | readingDeadline => exact h.of_resting rfl rfl
  | comparing opensAt => exact h.of_resting rfl rfl
  | probing => exact ⟨nofun, nofun⟩
  | succeeding => exact h.of_resting rfl rfl
  | closing => exact ⟨fun _ => Or.inr (Or.inl rfl), fun _ => Or.inr (Or.inl rfl)⟩
  | clearingFailures => exact ⟨fun _ => Or.inl hth, fun _ => Or.inr (Or.inl rfl)⟩
  | clearingDeadline => exact ⟨h.failures, fun _ => Or.inl rfl⟩
  | failing => exact h.of_resting rfl rfl
  | counting state =>
      by_cases htrip : state = .halfOpen ∨ cb.threshold ≤ c.failures + 1
      · rw [BreakerPoint.commandOn, if_pos htrip]
        exact ⟨fun _ => Or.inr (Or.inl rfl), h.opensAt⟩
      · rw [BreakerPoint.commandOn, if_neg htrip]
        have hlt : c.failures + 1 < cb.threshold := not_le.mp (not_or.mp htrip).2
        exact ⟨fun _ => Or.inl hlt, h.opensAt⟩
  | tripping => exact ⟨fun _ => Or.inr (Or.inl rfl), h.opensAt⟩
  | settingDeadline opensAt => exact ⟨fun _ => Or.inr (Or.inl rfl), fun _ => Or.inr (Or.inl rfl)⟩
  | opening => exact ⟨nofun, nofun⟩

end AnsweredFor

/-- Every process answers for what CLOSED does not say of the other two keys. -/
structure ClosedInv {n : ℕ} (cb : RedisCircuitBreaker) (point : Fin n → BreakerPoint)
    (c : CircuitState) : Prop where
  failures : c.state = .closed →
    c.failures < cb.threshold ∨ ∃ i, (point i).answersForFailures = true
  opensAt : c.state = .closed → c.opensAt = none ∨ ∃ i, (point i).answersForDeadline = true

/-- No deadline is deleted under an OPEN circuit, or under a call that has set the deadline of
one and not written OPEN yet. -/
def ClearsSafely {n : ℕ} (up : String) (s : BreakerPool n) (e : BreakerEvent n) : Prop :=
  ∀ i, e = .command i → s.point i = .clearingDeadline →
    (s.circuit up).state ≠ .«open» ∧ ∀ j, s.point j ≠ .opening

instance {n : ℕ} (up : String) (s : BreakerPool n) (e : BreakerEvent n) :
    Decidable (ClearsSafely up s e) :=
  inferInstanceAs (Decidable (∀ i, e = .command i → s.point i = .clearingDeadline →
    (s.circuit up).state ≠ .«open» ∧ ∀ j, s.point j ≠ .opening))

/-- An open circuit has its deadline, and so has one that a call is about to open. -/
structure OpenInv {n : ℕ} (point : Fin n → BreakerPoint) (c : CircuitState) : Prop where
  «open» : c.state = .«open» → c.opensAt ≠ none
  opening : ∀ i, point i = .opening → c.opensAt ≠ none

section Invariants

variable {n : ℕ} {cb : RedisCircuitBreaker} {up : String} {s s' : BreakerPool n}
  {e : BreakerEvent n} {c c' : CircuitState} {point : Fin n → BreakerPoint} {p : BreakerPoint}

/-- The invariant seen from process `i`: its own point is one side, and what some other process
answers for is the other. -/
theorem closedInv_update {i : Fin n} : ClosedInv cb (Function.update point i p) c ↔
    AnsweredFor cb (∃ j ≠ i, (point j).answersForFailures = true)
      (∃ j ≠ i, (point j).answersForDeadline = true) p c := by
  have hupdate : ∀ f : BreakerPoint → Bool,
      (∃ j, f (Function.update point i p j) = true) ↔
        f p = true ∨ ∃ j ≠ i, f (point j) = true :=
    fun f => Function.exists_update_iff point (fun _ q => f q = true)
  constructor
  · intro h
    exact ⟨fun hclosed => (h.failures hclosed).imp_right (hupdate _).mp,
      fun hclosed => (h.opensAt hclosed).imp_right (hupdate _).mp⟩
  · intro h
    exact ⟨fun hclosed => (h.failures hclosed).imp_right (hupdate _).mpr,
      fun hclosed => (h.opensAt hclosed).imp_right (hupdate _).mpr⟩

theorem ClosedInv.from (h : ClosedInv cb s.point c) (i : Fin n) :
    AnsweredFor cb (∃ j ≠ i, (s.point j).answersForFailures = true)
      (∃ j ≠ i, (s.point j).answersForDeadline = true) (s.point i) c :=
  closedInv_update.mp (by rwa [Function.update_eq_self])

theorem ClosedInv.call (h : ClosedInv cb s.point c) {i : Fin n} (hi : (s.point i).busy = false)
    (op : Op) : ClosedInv cb (Function.update s.point i (.entry op)) c := by
  have hi' := h.from i
  refine closedInv_update.mpr ?_
  rcases hp : s.point i with answer | _ <;> rw [hp] at hi hi'
  all_goals first | exact hi'.of_resting rfl rfl | cases hi

theorem ClosedInv.command (h : ClosedInv cb s.point c) (hth : 1 ≤ cb.threshold) {i : Fin n}
    (hcmd : (s.point i).commandOn cb s.clock c = (p, c')) :
    ClosedInv cb (Function.update s.point i p) c' := by
  have hkept := (h.from i).command hth s.clock
  rw [hcmd] at hkept
  exact closedInv_update.mpr hkept

/-- Nobody answers for anything in a quiet state, so the keys agree with CLOSED there. -/
theorem ClosedInv.of_quiet (h : ClosedInv cb s.point c) (hq : s.Quiet)
    (hclosed : c.state = .closed) : c.failures < cb.threshold ∧ c.opensAt = none := by
  have hnone : ∀ i, (s.point i).answersForFailures = false ∧
      (s.point i).answersForDeadline = false := by
    intro i
    have hi := hq i
    cases hp : s.point i with
    | done => exact ⟨rfl, rfl⟩
    | _ => rw [hp] at hi; cases hi
  refine ⟨(h.failures hclosed).resolve_right ?_, (h.opensAt hclosed).resolve_right ?_⟩
  · rintro ⟨i, hi⟩
    rw [(hnone i).1] at hi
    cases hi
  · rintro ⟨i, hi⟩
    rw [(hnone i).2] at hi
    cases hi

/-- The invariant is kept when a process moves on without touching the circuit, as long as it does
not come to stand before the opening command. -/
theorem OpenInv.moveOn (h : OpenInv s.point c) (i : Fin n) (hp : p ≠ .opening) :
    OpenInv (Function.update s.point i p) c := by
  refine ⟨h.open, ?_⟩
  refine (Function.forall_update_iff s.point (p := fun _ q => q = .opening → _)).mpr ⟨?_, ?_⟩
  · intro hopening
    exact absurd hopening hp
  · intro j _
    exact h.opening j

theorem OpenInv.command (h : OpenInv s.point c) {i : Fin n}
    (hcmd : (s.point i).commandOn cb s.clock c = (p, c'))
    (hsafe : s.point i = .clearingDeadline → c.state ≠ .«open» ∧ ∀ j, s.point j ≠ .opening) :
    OpenInv (Function.update s.point i p) c' := by
  by_cases hclears : s.point i = .clearingDeadline
  · -- the deadline goes, and nobody needed it
    obtain ⟨hstate, hothers⟩ := hsafe hclears
    rw [hclears] at hcmd
    obtain ⟨rfl, rfl⟩ := Prod.mk.inj hcmd
    refine ⟨fun hopen => absurd hopen hstate, ?_⟩
    refine (Function.forall_update_iff s.point (p := fun _ q => q = .opening → _)).mpr ⟨nofun, ?_⟩
    intro j _ hj
    exact absurd hj (hothers j)
  · have hkept := @BreakerPoint.commandOn_opensAt cb s.clock c _ hclears
    have hopens := @BreakerPoint.commandOn_opens cb s.clock c (s.point i)
    rw [hcmd] at hkept hopens
    refine ⟨?_, ?_⟩
    · intro hopen habsent
      rcases hopens hopen with hwas | hi
      · exact h.open hwas (hkept habsent).1
      · exact h.opening i hi (hkept habsent).1
    · refine (Function.forall_update_iff s.point (p := fun _ q => q = .opening → _)).mpr ⟨?_, ?_⟩
      · intro hopening habsent
        exact (hkept habsent).2 hopening
      · intro j _ hj habsent
        exact h.opening j hj (hkept habsent).1

/-- What holds at every point of a run: the keys hold some circuit, the debts to CLOSED are
accounted for, and, if all steps so far were `safe`, so are those to OPEN. -/
structure PoolInv (cb : RedisCircuitBreaker) (up : String) (s : BreakerPool n)
    (safe : Prop) : Prop where
  stored : Stored s.redis (s.circuit up)
  closed : ClosedInv cb s.point (s.circuit up)
  «open» : safe → OpenInv s.point (s.circuit up)

theorem poolInv_of {safe : Prop} (hs : Stored s.redis c) (hup : c.upstream = up)
    (hclosed : ClosedInv cb s.point c) (hopen : safe → OpenInv s.point c) :
    PoolInv cb up s safe := by
  subst hup
  have hget : s.circuit c.upstream = c := getState_eq hs s.clock
  constructor <;> rw [hget]
  · exact hs
  · exact hclosed
  · exact hopen

theorem PoolInv.imp {safe safe' : Prop} (h : PoolInv cb up s safe) (himp : safe' → safe) :
    PoolInv cb up s safe' :=
  ⟨h.stored, h.closed, fun hsafe => h.open (himp hsafe)⟩

theorem poolInv_initial (hth : 1 ≤ cb.threshold) (t₀ : Time) :
    PoolInv cb up (.initial n t₀) True :=
  poolInv_of (stored_empty up) rfl ⟨fun _ => Or.inl hth, fun _ => Or.inl rfl⟩
    fun _ => ⟨nofun, nofun⟩

/-- The step lemma: whatever process moves, and at whatever point it stands, the invariant is kept.
That the deadlines stay in order needs the step to clear none unsafely. -/
theorem PoolInv.step {safe : Prop} (h : PoolInv cb up s safe) (hth : 1 ≤ cb.threshold)
    (hstep : BreakerStep cb up s e s') : PoolInv cb up s' (safe ∧ ClearsSafely up s e) := by
  obtain ⟨c', hs', hup, ⟨hpoint, rfl⟩ | ⟨i, p, hpoint, hmove⟩⟩ :=
    hstep.cases_on_circuit h.stored rfl
  · refine poolInv_of hs' hup ?_ ?_
    · rw [hpoint]
      exact h.closed
    · rintro ⟨hsafe, -⟩
      rw [hpoint]
      exact h.open hsafe
  · rcases hmove with ⟨op, hi, rfl, rfl⟩ | ⟨rfl, hcmd⟩
    · refine poolInv_of hs' hup ?_ ?_
      · rw [hpoint]
        exact h.closed.call hi op
      · rintro ⟨hsafe, -⟩
        rw [hpoint]
        refine (h.open hsafe).moveOn i ?_
        cases op <;> nofun
    · refine poolInv_of hs' hup ?_ ?_
      · rw [hpoint]
        exact h.closed.command hth hcmd
      · rintro ⟨hsafe, hclears⟩
        rw [hpoint]
        exact (h.open hsafe).command hcmd (hclears i rfl)

end Invariants

abbrev BreakerPoolTransition (n : ℕ) := Transition (BreakerPool n) (BreakerEvent n)

/-- The run lemma: the invariant holds in every state that the processes reach from the empty
database, with its OPEN half where every step of the run cleared deadlines safely. -/
theorem poolInv_run {n : ℕ} {cb : RedisCircuitBreaker} (hth : 1 ≤ cb.threshold) {up : String}
    {t₀ : Time} {tr : List (BreakerPoolTransition n)} {s : BreakerPool n}
    (h : Run (BreakerStep cb up) (.initial n t₀) tr s) :
    PoolInv cb up s (∀ t ∈ tr, ClearsSafely up t.pre t.label) := by
  induction h with
  | nil => exact (poolInv_initial hth t₀).imp fun _ => trivial
  | snoc _ hstep ih =>
      refine (ih.step hth hstep).imp ?_
      intro hsafe
      obtain ⟨hbefore, hlast⟩ := List.forall_mem_append.mp hsafe
      exact ⟨hbefore, hlast _ (List.mem_singleton_self _)⟩

/-! ### The state at rest -/

/-- What the state key says of the other two: CLOSED stands for fewer failures than the threshold
and no deadline, and OPEN for a deadline. -/
structure Consistent (cb : RedisCircuitBreaker) (c : CircuitState) : Prop where
  «open» : c.state = .«open» → c.opensAt ≠ none
  closed : c.state = .closed → c.failures < cb.threshold ∧ c.opensAt = none

/-- A success reads OPEN; a failure sets its deadline; the success closes the circuit and
deletes the deadline; the failure writes OPEN. -/
theorem open_without_deadline : ∃ tr s,
    Run (BreakerStep ⟨1, 30⟩ "svc") (.initial 2 0) tr s ∧ s.Quiet ∧
      ¬ Consistent ⟨1, 30⟩ (s.circuit "svc") := by
  have hnot : ∀ c : CircuitState, c.state = .«open» → c.opensAt = none →
      ¬ Consistent ⟨1, 30⟩ c := fun c hopen habsent hc => hc.open hopen habsent
  refine ⟨_, _, .snoc (.snoc (.snoc (.snoc (.snoc (.snoc (.snoc (.snoc (.snoc (.snoc (.snoc (.snoc
    (.snoc (.snoc (.snoc (.snoc (.snoc .nil
    (.call 0 .recordFailure ?_)) (.command 0 ?_)) (.command 0 ?_)) (.command 0 ?_))
    (.command 0 ?_)) (.command 0 ?_))
    (.call 1 .recordSuccess ?_)) (.command 1 ?_))
    (.call 0 .recordFailure ?_)) (.command 0 ?_)) (.command 0 ?_)) (.command 0 ?_))
    (.command 0 ?_))
    (.command 1 ?_)) (.command 1 ?_)) (.command 1 ?_))
    (.command 0 ?_), ?_, hnot _ ?_ ?_⟩
  all_goals decide +kernel

/-- **The state at rest.** When no call is in progress a CLOSED circuit has fewer failures than
the threshold and no deadline. An OPEN one has its deadline unless a success deleted it from
under a failure that was opening the circuit. -/
theorem consistent_when_quiet {n : ℕ} (cb : RedisCircuitBreaker) (hth : 1 ≤ cb.threshold)
    (up : String) {t₀ : Time} {tr : List (BreakerPoolTransition n)} {s : BreakerPool n}
    (h : Run (BreakerStep cb up) (.initial n t₀) tr s) (hq : s.Quiet) :
    ((s.circuit up).state = .closed →
      (s.circuit up).failures < cb.threshold ∧ (s.circuit up).opensAt = none) ∧
    ((∀ t ∈ tr, ClearsSafely up t.pre t.label) → Consistent cb (s.circuit up)) := by
  have hinv := poolInv_run hth h
  have hclosed := hinv.closed.of_quiet hq
  exact ⟨hclosed, fun hsafe => ⟨(hinv.open hsafe).open, hclosed⟩⟩

/-- A failure opens the circuit, and a success that starts after it closes the circuit. -/
theorem consistent_when_quiet_in_turn : ∃ s : BreakerPool 2, s.Quiet ∧
    (s.circuit "svc").state = .closed ∧ (s.circuit "svc").failures < 1 ∧
    Consistent ⟨1, 30⟩ (s.circuit "svc") := by
  have hrun : ∃ tr s, Run (BreakerStep ⟨1, 30⟩ "svc") (.initial 2 0) tr s ∧ s.Quiet ∧
      (s.circuit "svc").state = .closed ∧ ∀ t ∈ tr, ClearsSafely "svc" t.pre t.label := by
    refine ⟨_, _, .snoc (.snoc (.snoc (.snoc (.snoc (.snoc (.snoc (.snoc (.snoc (.snoc (.snoc .nil
      (.call 0 .recordFailure ?_)) (.command 0 ?_)) (.command 0 ?_)) (.command 0 ?_))
      (.command 0 ?_)) (.command 0 ?_))
      (.call 1 .recordSuccess ?_)) (.command 1 ?_)) (.command 1 ?_)) (.command 1 ?_))
      (.command 1 ?_), ?_, ?_, ?_⟩
    all_goals decide +kernel
  obtain ⟨tr, s, hrun, hq, hclosed, hsafe⟩ := hrun
  have hrest := consistent_when_quiet ⟨1, 30⟩ (le_refl 1) "svc" hrun hq
  exact ⟨s, hq, hclosed, (hrest.1 hclosed).1, hrest.2 hsafe⟩

end RateGuardian
