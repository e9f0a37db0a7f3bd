import RateGuardian.EventManager
import RateGuardian.Gateway
import RateGuardian.LogRepository
import RateGuardian.Lib.Run

/-!
# RateGuardian.RequestLogging

**From an event to its row**: `LogListener` (`app/models/services/log_listener.py`) and `LogService`
(`app/models/services/log_service.py`). The listener schedules a task for each event of the
pipeline, and the task inserts the row. An exception of the insert is logged and goes no further.

Columns are bounded and what a client sends is not; nor is it free of the one character that the
database does not store. `logged_iff` says for which events each leaves its row, in whatever order
the tasks run: those whose strings all fit and have no NUL. Where one does not, the task catches the
exception of the insert, writes a line to the program's log and ends, and the request has no row.
-/

namespace RateGuardian

open Lib Imp LogRepository

/-! ### The services

The state of the two services is the table, the tasks that are waiting, and the lines that the
program's log has got. A task holds the values of its row, not the event. -/

structure LogWorld where
  table : LogTable
  /-- The tasks that have been created and have not run. -/
  tasks : List LogEntry
  /-- The failures that were logged. -/
  errors : List PyException

namespace LogWorld

def initial (t : LogTable) : LogWorld := ⟨t, [], []⟩

end LogWorld

namespace LogService

/-- `record_async`: the task runs later. -/
def recordAsync (clientIp method path upstream : String) (statusCode : ℕ) (latencyMs : Time)
    (blocked : Bool := false) (blockedBy : Option String := none) : Imp LogWorld PyException Unit :=
  exec fun s => { s with
    tasks := s.tasks ++ [⟨clientIp, method, path, upstream, statusCode, latencyMs, blocked,
      blockedBy⟩] }

/-- `_write`, the body of a task: the insert, and the handler around it that logs any exception. -/
def write (now : Time) (log : LogEntry) : Imp LogWorld PyException Unit :=
  Imp.handle
    (do
      let table ← act fun s => (s.table, s)
      let table ← lift (create table log now)
      exec fun s => { s with table := table })
    (fun exc => exec fun s => { s with errors := s.errors ++ [exc] })

end LogService

/-- The class of an event, by which the bus finds its handlers. -/
inductive EventType
  | requestBlocked
  | requestForwarded
  deriving DecidableEq

def Event.type : Event → EventType
  | .blocked _ => .requestBlocked
  | .forwarded _ => .requestForwarded

namespace LogListener

/-- `_on_blocked`; it is subscribed to `RequestBlocked` only. -/
def onBlocked : Event → Imp LogWorld PyException Unit
  | .blocked e => LogService.recordAsync e.clientIp e.method e.path e.upstream e.statusCode
      e.latencyMs true (some e.reason)
  | .forwarded _ => return ()

/-- `_on_forwarded`; it is subscribed to `RequestForwarded` only. -/
def onForwarded : Event → Imp LogWorld PyException Unit
  | .forwarded e => LogService.recordAsync e.clientIp e.method e.path e.upstream e.statusCode
      e.latencyMs
  | .blocked _ => return ()

/-- `__init__` of the listener, which subscribes one handler to each class. -/
def subscribed (events : Handlers EventType Event LogWorld) : Handlers EventType Event LogWorld :=
  (events.subscribe .requestBlocked onBlocked).subscribe .requestForwarded onForwarded

end LogListener

/-- The event bus of the running application, with the handlers of the listener and no others. -/
def events : EventManager LogWorld where
  emit := (LogListener.subscribed .empty).emit Event.type

/-! ### The rows

What one `emit` and one task do, each in terms of the row that belongs to the event. -/

/-- The row that an event should leave, with the values that the listener takes out of it. -/
def rowOf : Event → LogEntry
  | .blocked e => ⟨e.clientIp, e.method, e.path, e.upstream, e.statusCode, e.latencyMs, true,
      some e.reason⟩
  | .forwarded e => ⟨e.clientIp, e.method, e.path, e.upstream, e.statusCode, e.latencyMs, false,
      none⟩

/-- The rows of `t'` are those of `t` and the rows of the events, each of these once and in any
order. -/
def OneRowEach (t : LogTable) (es : List Event) (t' : LogTable) : Prop :=
  ∃ new, t'.rows = t.rows ++ new ∧ (new.map RequestLog.toLogEntry).Perm (es.map rowOf)

/-- An `emit` schedules the task of the event's row, and does nothing else. -/
theorem on_emit (e : Event) (s : LogWorld) :
    on (events.emit e) s = (.ok (), { s with tasks := s.tasks ++ [rowOf e] }) := by
  cases e with
  | blocked e => rfl
  | forwarded e => rfl

section Write

variable {log : LogEntry} (s : LogWorld) (now : Time)

theorem on_write_of_storable (h : log.Storable) :
    on (LogService.write now log) s = (.ok (), { s with table := s.table.insert log now }) := by
  simp [LogService.write, on_handle, on_bind, create_of_storable h]

/-- A task whose row cannot be stored leaves the table as it was, and a line in the log. -/
theorem on_write_of_not_storable (h : ¬ log.Storable) :
    ∃ exc, on (LogService.write now log) s = (.ok (), { s with errors := s.errors ++ [exc] }) := by
  obtain ⟨exc, hexc⟩ := @create_of_not_storable s.table log h now
  exact ⟨exc, by simp [LogService.write, on_handle, on_bind, hexc]⟩

end Write

/-! ### Events and tasks in any order

Events are emitted as requests end, and a task may run at any time after its event, before or after
other tasks. -/

inductive LogEvent
  | emit (e : Event)
  /-- A pending task runs, at the reading `now`. -/
  | run (now : Time)
  deriving DecidableEq

inductive LogStep : LogWorld → LogEvent → LogWorld → Prop
  | emit {s : LogWorld} (e : Event) : LogStep s (.emit e) (on (events.emit e) s).2
  | run {s : LogWorld} (now : Time) (before after : List LogEntry) (log : LogEntry)
      (htasks : s.tasks = before ++ log :: after) :
      LogStep s (.run now) (on (LogService.write now log) { s with tasks := before ++ after }).2

/-- The events that were emitted in a run, in order. -/
def emitted (tr : List (Transition LogWorld LogEvent)) : List Event :=
  tr.filterMap fun t => match t.label with
    | .emit e => some e
    | .run _ => none

/-- The rows that were inserted and those still to come are the rows of the events that can be
stored. -/
def Accounted (t : LogTable) (tr : List (Transition LogWorld LogEvent)) (s : LogWorld) : Prop :=
  ∃ new, s.table.rows = t.rows ++ new ∧
    (new.map RequestLog.toLogEntry ++ s.tasks.filter (·.Storable)).Perm
      (((emitted tr).map rowOf).filter (·.Storable))

section Steps

variable {t : LogTable} {s s' : LogWorld} {e : LogEvent}
  {tr : List (Transition LogWorld LogEvent)}

theorem emitted_concat_emit (event : Event) :
    emitted (tr ++ [⟨s, .emit event, s'⟩]) = emitted tr ++ [event] := by
  simp [emitted]

theorem emitted_concat_run (now : Time) : emitted (tr ++ [⟨s, .run now, s'⟩]) = emitted tr := by
  simp [emitted]

/-- The step lemma: an event adds its row to those still to come, and a task moves its row into the
table or drops it. -/
theorem Accounted.step (h : Accounted t tr s) (hstep : LogStep s e s') :
    Accounted t (tr ++ [⟨s, e, s'⟩]) s' := by
  obtain ⟨new, hrows, hperm⟩ := h
  cases hstep with
  | emit event =>
      rw [on_emit]
      refine ⟨new, hrows, ?_⟩
      rw [emitted_concat_emit, List.map_append, List.filter_append, List.filter_append,
        ← List.append_assoc]
      exact hperm.append_right _
  | run now before after log htasks =>
      rw [htasks, List.filter_append, List.filter_cons] at hperm
      by_cases hstorable : log.Storable
      · -- the row moves from the tasks to the table
        rw [on_write_of_storable _ _ hstorable]
        refine ⟨new ++ [⟨log, s.table.nextId, now⟩], ?_, ?_⟩
        · rw [← List.append_assoc, ← hrows]
          rfl
        · rw [emitted_concat_run]
          refine List.Perm.trans ?_ hperm
          simp only [hstorable, decide_true, if_true, List.map_append, List.map_singleton,
            List.append_assoc, List.singleton_append, List.filter_append]
          refine List.Perm.append_left _ ?_
          exact List.perm_middle.symm
      · obtain ⟨exc, hexc⟩ :=
          on_write_of_not_storable { s with tasks := before ++ after } now hstorable
        rw [hexc]
        refine ⟨new, hrows, ?_⟩
        rw [emitted_concat_run, List.filter_append]
        simpa [hstorable] using hperm

end Steps

/-- The run lemma: in every state that is reached, the rows of the events so far are
accounted for. -/
theorem accounted_run {t : LogTable} {tr : List (Transition LogWorld LogEvent)} {s : LogWorld}
    (h : Run LogStep (.initial t) tr s) : Accounted t tr s := by
  refine h.invariant ⟨[], (List.append_nil _).symm, List.Perm.refl _⟩ ?_
  intro tr s e s' _ hinv hstep
  exact hinv.step hstep

/-! ### Which events leave their row

All of them, unless a string is too long or has a NUL. One such string is enough: the row is
inserted whole or not at all. -/

/-- A request with a client address of 51 characters. -/
def longAddress : ClientRequest :=
  ⟨⟨"GET", [("x-forwarded-for", String.ofList (List.replicate 51 '1'))], []⟩,
    "/proxy/https://a.test/x", .ok "/proxy/https://a.test/x", "", "10.0.0.1"⟩

/-- The context that the gateway builds for that request. -/
def longAddressContext : PipelineContext where
  request := longAddress.request
  upstreamUrl := "https://a.test/x"
  clientIp := String.ofList (List.replicate 51 '1')
  path := "/proxy/https://a.test/x"
  upstreamHost := "a.test"
  startTime := 0
  response := none

/-- What the pipeline emits when it has forwarded the request. -/
def longAddressForwarded : Event := forwardedEvent longAddressContext 200 1

/-- The request is forwarded, its task runs, and there is no row. -/
theorem row_dropped :
    GatewayController.context urlparse "https://a.test/x" longAddress 0 = .ok longAddressContext ∧
    ∃ tr, ∃ s : LogWorld, Run LogStep (.initial .empty) tr s ∧ s.tasks = [] ∧
      emitted tr = [longAddressForwarded] ∧ ¬ OneRowEach .empty (emitted tr) s.table := by
  have hrun : ∃ tr, ∃ s : LogWorld, Run LogStep (.initial .empty) tr s ∧ s.tasks = [] ∧
      emitted tr = [longAddressForwarded] ∧ s.table.rows = [] := by
    refine ⟨_, _, .snoc (.single (.emit longAddressForwarded))
      (.run 1 [] [] (rowOf longAddressForwarded) ?_), ?_, ?_, ?_⟩
    all_goals decide +kernel
  obtain ⟨tr, s, h, hdone, hemitted, hempty⟩ := hrun
  refine ⟨by decide +kernel, tr, s, h, hdone, hemitted, ?_⟩
  intro hone
  obtain ⟨new, hrows, hperm⟩ := hone
  have hnew : new = [] := (List.append_eq_nil_iff.mp (hrows.symm.trans hempty)).2
  rw [hnew, hemitted] at hperm
  exact absurd hperm.length_eq (by decide)

/-- **Which events leave their row.** When every task has run, the new rows are those of the
events, each once, exactly if the strings of every event fit their columns and have no NUL. -/
theorem logged_iff (t : LogTable) {tr : List (Transition LogWorld LogEvent)} {s : LogWorld}
    (h : Run LogStep (.initial t) tr s) (hdone : s.tasks = []) :
    OneRowEach t (emitted tr) s.table ↔ ∀ e ∈ emitted tr, (rowOf e).Storable := by
  obtain ⟨new, hrows, hperm⟩ := accounted_run h
  rw [hdone, List.filter_nil, List.append_nil] at hperm
  constructor
  · intro hone
    obtain ⟨new', hrows', hperm'⟩ := hone
    -- the new rows are as many as the events, and as many as the events that can be stored
    obtain rfl : new = new' := List.append_cancel_left (hrows.symm.trans hrows')
    have hall : ∀ row ∈ (emitted tr).map rowOf, decide row.Storable = true :=
      List.length_filter_eq_length_iff.mp (hperm.symm.trans hperm').length_eq
    intro e he
    exact of_decide_eq_true (hall _ (List.mem_map_of_mem he))
  · intro hstorable
    refine ⟨new, hrows, ?_⟩
    rw [List.filter_eq_self.mpr] at hperm
    · exact hperm
    · intro row hrow
      obtain ⟨e, he, rfl⟩ := List.mem_map.mp hrow
      exact decide_eq_true (hstorable e he)

/-- A blocked and a forwarded request, whose tasks run in the other order. -/
theorem logged_iff_swapped : ∃ tr, ∃ s : LogWorld, (emitted tr).length = 2 ∧
    OneRowEach .empty (emitted tr) s.table := by
  have hrun : ∃ tr, ∃ s : LogWorld, Run LogStep (.initial .empty) tr s ∧ s.tasks = [] ∧
      (emitted tr).length = 2 ∧ ∀ e ∈ emitted tr, (rowOf e).Storable := by
    refine ⟨_, _, .snoc (.snoc (.snoc (.single
      (.emit (.blocked ⟨"10.0.0.1", "GET", "/proxy/a", "a", 429, 1, "rate_limit"⟩)))
      (.emit (.forwarded ⟨"10.0.0.2", "GET", "/proxy/a", "a", 200, 30⟩)))
      (.run 1 [_] [] (rowOf (.forwarded ⟨"10.0.0.2", "GET", "/proxy/a", "a", 200, 30⟩)) rfl))
      (.run 2 [] [] _ rfl), ?_, ?_, ?_⟩
    all_goals decide +kernel
  obtain ⟨tr, s, h, hdone, htwo, hstorable⟩ := hrun
  exact ⟨tr, s, htwo, (logged_iff .empty h hdone).mpr hstorable⟩

end RateGuardian
