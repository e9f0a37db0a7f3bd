import RateGuardian.ServerBreaker
import Mathlib.Algebra.Order.BigOperators.Group.List

/-!
# RateGuardian.ServerLog

**The log and what clients were answered.** Events, listeners and tasks stand between an answer of
the application and its row in `request_logs`. `answerRow` leaves them out: it is the row that an
answer deserves, written down from the request and the response alone.

The answers that deserve a row are those of the three steps of the pipeline. A request whose context
cannot be built is answered with a 500 by the framework, outside of the pipeline. No event is
emitted for it, and the log knows nothing of it.

`log_matches_answers_iff` says that when the tasks of a run are done, the log has one such row for
each answer exactly if every response of an upstream could be passed on and every row could be
stored: its strings fit their columns and have no NUL character, which a client can put into the
path.
-/

namespace RateGuardian

open Lib Imp ProxyStep

/-! ### The row of an answer -/

/-- The row for an answer with this status, which took until the reading `now`. -/
def answerRow (ctx : PipelineContext) (status : ℕ) (now : Time) (blockedBy : Option String) :
    LogEntry where
  clientIp := ctx.clientIp
  method := ctx.request.method
  path := ctx.path
  upstream := ctx.upstreamHost
  statusCode := status
  latencyMs := latencyMs ctx now
  blocked := blockedBy.isSome
  blockedBy := blockedBy

namespace ServerEvent

/-- The row that an event of the application deserves, if it is an answer of the pipeline. -/
def row : ServerEvent → Option LogEntry
  | .arrive _ (.raised _) | .arrive _ (.forwarded _) | .task _ | .others => none
  | .arrive a (.answered ctx response) =>
      if response.statusCode = 429 then
        some (answerRow ctx response.statusCode a.limited (some "rate_limit"))
      else some (answerRow ctx response.statusCode a.refused (some "circuit_breaker"))
  | .complete f c response =>
      match c.outcome with
      | .ok _ => some (answerRow f.ctx response.statusCode c.done none)
      | .error _ => some (answerRow f.ctx response.statusCode c.failed (some "upstream_error"))

end ServerEvent

/-- The rows that the answers of a run deserve. -/
def answerRows (tr : ServerTrace) : List LogEntry := tr.filterMap fun t => t.label.row

/-- The new rows of the log are those of the answers, each once. -/
def LogMatchesAnswers (t : LogTable) (tr : ServerTrace) (t' : LogTable) : Prop :=
  ∃ new, t'.rows = t.rows ++ new ∧ (new.map RequestLog.toLogEntry).Perm (answerRows tr)

/-! ### The rows that are scheduled -/

namespace ServerEvent

/-- The tasks that an event of the application schedules: one for its answer, and two for a
response that cannot be passed on. -/
def tasks : ServerEvent → List LogEntry
  | .complete f c response =>
      match c.outcome with
      | .ok up =>
          if Encodable up then (complete f c response).row.toList
          else [answerRow f.ctx up.statusCode c.done none,
            answerRow f.ctx 502 c.failed (some "upstream_error")]
      | .error _ => (complete f c response).row.toList
  | e => e.row.toList

variable {e : ServerEvent}

theorem tasks_of_passesOn (h : e.PassesOn) : e.tasks = e.row.toList := by
  cases e with
  | complete f c response =>
      rw [tasks]
      cases hout : c.outcome with
      | ok up => exact if_pos (h up hout)
      | error exc => rfl
  | _ => rfl

/-- A response that cannot be passed on is there twice. -/
theorem length_tasks_of_not_passesOn (h : ¬ e.PassesOn) :
    e.tasks.length = e.row.toList.length + 1 := by
  cases e with
  | complete f c response =>
      rw [PassesOn, not_forall] at h
      obtain ⟨up, h⟩ := h
      rw [Classical.not_imp] at h
      obtain ⟨hout, hnot⟩ := h
      simp only [tasks, row, hout, if_neg hnot, Option.toList_some, List.length_cons,
        List.length_nil]
  | _ => exact absurd trivial h

/-- Whether the row of an answer can be stored is a matter of its request. Status and latency are
numbers, and the reasons of the pipeline are short and have no NUL. -/
theorem storable_answerRow_congr {ctx : PipelineContext} {status status' : ℕ} {now now' : Time}
    {blockedBy blockedBy' : Option String}
    (hreason : ∀ r ∈ blockedBy', '\x00' ∉ r.toList ∧ r.length ≤ 50)
    (h : (answerRow ctx status now blockedBy).Storable) :
    (answerRow ctx status' now' blockedBy').Storable := by
  simp only [LogEntry.Storable, LogEntry.NulFree, LogEntry.Fits, LogEntry.columns, answerRow,
    List.forall_mem_append] at h ⊢
  refine ⟨⟨h.1.1, ?_⟩, h.2.1, ?_⟩
  · intro c hc
    obtain ⟨r, hr, rfl⟩ := List.mem_map.mp hc
    exact (hreason r (Option.mem_toList.mp hr)).1
  · intro c hc
    obtain ⟨r, hr, rfl⟩ := List.mem_map.mp hc
    exact (hreason r (Option.mem_toList.mp hr)).2

theorem upstreamError_storable :
    ∀ r ∈ some "upstream_error", '\x00' ∉ r.toList ∧ r.length ≤ 50 := by
  rintro r ⟨⟩
  decide

/-- What an event schedules can be stored if the row of its answer can. -/
theorem storable_of_mem_tasks {log : LogEntry} (hlog : log ∈ e.tasks)
    (hrow : ∀ r ∈ e.row, r.Storable) : log.Storable := by
  cases e with
  | complete f c response =>
      simp only [tasks, row] at hlog hrow
      cases hout : c.outcome with
      | error exc =>
          simp only [hout, Option.toList_some, List.mem_singleton] at hlog hrow
          exact hlog ▸ hrow _ rfl
      | ok up =>
          simp only [hout] at hlog hrow
          split at hlog
          · rw [Option.toList_some, List.mem_singleton] at hlog
            exact hlog ▸ hrow _ rfl
          · rcases List.mem_pair.mp hlog with rfl | rfl
            · exact storable_answerRow_congr nofun (hrow _ rfl)
            · exact storable_answerRow_congr upstreamError_storable (hrow _ rfl)
  | arrive a result => exact hrow log (Option.mem_toList.mp hlog)
  | task now => exact absurd hlog List.not_mem_nil
  | others => exact absurd hlog List.not_mem_nil

end ServerEvent

/-! ### The log of a run -/

/-- The readings at which tasks ran. -/
def ran (tr : List (Transition LogWorld LogEvent)) : List Time :=
  tr.filterMap fun t => match t.label with
    | .emit _ => none
    | .run now => some now

def ServerEvent.ranAt : ServerEvent → Option Time
  | .task now => some now
  | _ => none

/-- The readings at which the tasks of a run of the application ran. -/
def taskTimes (tr : ServerTrace) : List Time := tr.filterMap fun t => t.label.ranAt

theorem answerRows_eq_flatMap (tr : ServerTrace) :
    answerRows tr = tr.flatMap fun t => t.label.row.toList :=
  List.filterMap_eq_flatMap_toList _ _

theorem answerRows_append (tr tr' : ServerTrace) :
    answerRows (tr ++ tr') = answerRows tr ++ answerRows tr' :=
  List.filterMap_append

/-- If there are as many tasks as answers, no response was there twice. -/
theorem passesOn_of_length_eq {tr : ServerTrace}
    (h : (tr.flatMap fun t => t.label.tasks).length = (answerRows tr).length) :
    ∀ t ∈ tr, t.label.PassesOn := by
  have hle : ∀ e : ServerEvent, e.row.toList.length ≤ e.tasks.length := by
    intro e
    by_cases hpasses : e.PassesOn
    · rw [ServerEvent.tasks_of_passesOn hpasses]
    · rw [ServerEvent.length_tasks_of_not_passesOn hpasses]
      exact Nat.le_succ _
  rw [answerRows_eq_flatMap, List.length_flatMap, List.length_flatMap] at h
  intro t ht
  by_contra hnot
  refine absurd h (Nat.ne_of_gt ?_)
  refine List.sum_lt_sum _ _ (fun t _ => hle t.label) ⟨t, ht, ?_⟩
  rw [ServerEvent.length_tasks_of_not_passesOn hnot]
  exact Nat.lt_succ_self _

section Runs

variable {urlparse : String → Except String String} {http : Starlette}
  {fnmatch : String → String → Bool} {cb : RedisCircuitBreaker}
  {s s' : ServerState} {e : ServerEvent}

theorem schedule_step (event : Event) (log : LogWorld) :
    LogStep log (.emit event) (Server.schedule event log) := by
  have hstep := @LogStep.emit log event
  rw [RateGuardian.on_emit] at hstep
  exact hstep

/-- The log's run for two events that are emitted one after the other. -/
theorem schedule_schedule_run (e₁ e₂ : Event) (log : LogWorld) :
    ∃ tr, Run LogStep log tr (Server.schedule e₂ (Server.schedule e₁ log)) ∧
      (emitted tr).map rowOf = [rowOf e₁, rowOf e₂] ∧ ran tr = [] :=
  ⟨_, (Run.single (schedule_step e₁ log)).snoc (schedule_step e₂ _), rfl, rfl⟩

/-- An arrival schedules the row of its answer, if there is one. -/
theorem log_arrive (hhttp : http.Lawful) {a : Arrival} {result : Reception}
    (h : ServerStep urlparse http fnmatch cb s (.arrive a result) s') :
    ∃ tr, Run LogStep s.world.log tr s'.world.log ∧
      (emitted tr).map rowOf = (ServerEvent.arrive a result).tasks ∧ ran tr = [] := by
  cases hctx : a.context urlparse with
  | error exc =>
      obtain ⟨rfl, rfl⟩ := h.raise_cases hctx
      exact ⟨[], .nil, rfl, rfl⟩
  | ok ctx =>
      obtain ⟨-, ⟨verdict, -, -, rfl, rfl⟩ | ⟨-, -, rfl, rfl⟩ | ⟨-, -, rfl, rfl⟩⟩ :=
        h.arrive_cases hctx
      · refine ⟨_, .single (schedule_step _ _), ?_, rfl⟩
        simp [ServerEvent.tasks, ServerEvent.row, Server.tooManyRequests, hhttp.json_statusCode,
          emitted, rowOf, blockedEvent, answerRow]
      · refine ⟨_, .single (schedule_step _ _), ?_, rfl⟩
        simp [ServerEvent.tasks, ServerEvent.row, Server.circuitOpen, hhttp.json_statusCode,
          emitted, rowOf, blockedEvent, answerRow]
      · exact ⟨[], .nil, rfl, rfl⟩

/-- The step lemma: the log takes the steps of the tasks that the event schedules. -/
theorem log_step (hhttp : http.Lawful) (h : ServerStep urlparse http fnmatch cb s e s') :
    ∃ tr, Run LogStep s.world.log tr s'.world.log ∧ (emitted tr).map rowOf = e.tasks ∧
      ran tr = e.ranAt.toList := by
  cases e with
  | arrive a result => exact log_arrive hhttp h
  | complete f c response =>
      cases h with
      | complete f c response w hclock hin hon =>
          rcases @Server.complete_cases http cb hhttp f.ctx c s.world with
            ⟨exc, hout, hon'⟩ | ⟨up, response', hout, henc, hstatus, hon'⟩ |
            ⟨up, exc, hout, hnot, hon'⟩
          · cases hon.symm.trans hon'
            refine ⟨_, .single (schedule_step _ _), ?_, rfl⟩
            simp [ServerEvent.tasks, ServerEvent.row, hout, badGateway, hhttp.json_statusCode,
              emitted, rowOf, blockedEvent, answerRow]
          · cases hon.symm.trans hon'
            refine ⟨_, .single (schedule_step _ _), ?_, rfl⟩
            simp [ServerEvent.tasks, ServerEvent.row, hout, henc, hstatus, emitted, rowOf,
              forwardedEvent, answerRow]
          · -- Two events of one request: the response had been announced when it raised.
            cases hon.symm.trans hon'
            obtain ⟨tr, htr, hrows, hran⟩ := schedule_schedule_run _ _ s.world.log
            refine ⟨tr, htr, hrows.trans ?_, hran⟩
            simp [ServerEvent.tasks, hout, hnot, rowOf, forwardedEvent, blockedEvent, answerRow]
  | task now =>
      cases h with
      | task now log hlog => exact ⟨_, .single hlog, rfl, rfl⟩
  | others =>
      cases h
      exact ⟨[], .nil, rfl, rfl⟩

/-- The run lemma: along a run of the application the log makes a run of its own, with the tasks
that the events schedule and the readings at which tasks ran. -/
theorem log_run (hhttp : http.Lawful) {t₀ : Time} {rules : RuleTable} {log : LogTable}
    {tr : ServerTrace}
    (h : Run (ServerStep urlparse http fnmatch cb) (.initial t₀ rules log) tr s) :
    ∃ ltr, Run LogStep (.initial log) ltr s.world.log ∧
      (emitted ltr).map rowOf = (tr.flatMap fun t => t.label.tasks) ∧ ran ltr = taskTimes tr := by
  induction h with
  | nil => exact ⟨[], .nil, rfl, rfl⟩
  | snoc _ hstep ih =>
      obtain ⟨ltr, hrun, hrows, hran⟩ := ih
      obtain ⟨ltr', hrun', hrows', hran'⟩ := log_step hhttp hstep
      refine ⟨ltr ++ ltr', hrun.append hrun', ?_, ?_⟩
      · rw [emitted, List.filterMap_append, List.map_append, List.flatMap_append,
          List.flatMap_singleton, ← hrows', ← hrows]
        rfl
      · rw [ran, List.filterMap_append, ← ran, hran, ← ran, hran', taskTimes, taskTimes,
          List.filterMap_append, List.filterMap_eq_flatMap_toList _ [_], List.flatMap_singleton]

/-- **The log is right about the answers exactly when they can be passed on and stored.** In every
run of the application whose tasks are done, the new rows of the log are those of the answers, each
once, if and only if no response of an upstream was one that cannot be passed on, and no client
address, method, path or upstream of an answered request has a NUL or is longer than its column. -/
theorem log_matches_answers_iff (hhttp : http.Lawful) {t₀ : Time} {rules : RuleTable}
    {log : LogTable} {tr : ServerTrace}
    (h : Run (ServerStep urlparse http fnmatch cb) (.initial t₀ rules log) tr s)
    (hdone : s.world.log.tasks = []) :
    LogMatchesAnswers log tr s.world.log.table ↔
      (∀ t ∈ tr, t.label.PassesOn) ∧ ∀ row ∈ answerRows tr, row.Storable := by
  obtain ⟨ltr, hrun, hrows, -⟩ := log_run hhttp h
  obtain ⟨new, hnew, hperm⟩ := accounted_run hrun
  rw [hdone, List.filter_nil, List.append_nil, hrows] at hperm
  have hall : (∀ row ∈ answerRows tr, row.Storable) →
      (new.map RequestLog.toLogEntry).Perm (tr.flatMap fun t => t.label.tasks) := by
    intro hstorable
    refine hperm.trans (List.Perm.of_eq (List.filter_eq_self.mpr ?_))
    intro row hrow
    obtain ⟨t, ht, hrow⟩ := List.mem_flatMap.mp hrow
    refine decide_eq_true (ServerEvent.storable_of_mem_tasks hrow ?_)
    intro r hr
    exact hstorable r (List.mem_filterMap.mpr ⟨t, ht, hr⟩)
  constructor
  · rintro ⟨new', hnew', hanswers⟩
    obtain rfl : new = new' := List.append_cancel_left (hnew.symm.trans hnew')
    -- What is in the table could be stored, and so what is scheduled can be.
    have hstorable : ∀ row ∈ answerRows tr, row.Storable := by
      intro row hrow
      have hmem := hperm.mem_iff.mp (hanswers.mem_iff.mpr hrow)
      exact of_decide_eq_true (List.mem_filter.mp hmem).2
    exact ⟨passesOn_of_length_eq ((hall hstorable).symm.trans hanswers).length_eq, hstorable⟩
  · rintro ⟨hpasses, hstorable⟩
    refine ⟨new, hnew, (hall hstorable).trans (List.Perm.of_eq ?_)⟩
    rw [answerRows_eq_flatMap]
    refine List.flatMap_congr ?_
    intro t ht
    exact ServerEvent.tasks_of_passesOn (hpasses t ht)

/-! ### Until the tasks are done -/

theorem tasks_write (now : Time) (log : LogEntry) (w : LogWorld) :
    (on (LogService.write now log) w).2.tasks = w.tasks := by
  by_cases hstorable : log.Storable
  · rw [on_write_of_storable _ _ hstorable]
  · obtain ⟨exc, hexc⟩ := on_write_of_not_storable w now hstorable
    rw [hexc]

/-- From every state the tasks can be done, and then only they have run. -/
theorem tasks_can_be_done (now : Time) (s : ServerState) :
    ∃ tr s', Run (ServerStep urlparse http fnmatch cb) s tr s' ∧ s'.world.log.tasks = [] ∧
      s'.clock = s.clock ∧ ∀ t ∈ tr, t.label = .task now := by
  induction htasks : s.world.log.tasks generalizing s with
  | nil => exact ⟨[], s, .nil, htasks, rfl, fun t ht => absurd ht List.not_mem_nil⟩
  | cons log rest ih =>
      have hstep := @ServerStep.task urlparse http fnmatch cb s now _ (.run now [] rest log htasks)
      obtain ⟨tr, s', hrun, hdone, hclock, hlabels⟩ := ih
        { s with world := { s.world with
          log := (on (LogService.write now log) { s.world.log with tasks := [] ++ rest }).2 } }
        (tasks_write now log _)
      refine ⟨_, s', (Run.single hstep).append hrun, hdone, hclock, ?_⟩
      exact List.forall_mem_append.mpr ⟨List.forall_mem_singleton.mpr rfl, hlabels⟩

/-- A request times out, and its task runs at 6. -/
theorem run_to_logged_timeout : ∃ tr s, Run smallStep (.initial 0 [] .empty) tr s ∧
      s.world.log.tasks = [] ∧ (answerRows tr).length = 1 ∧ (∀ t ∈ tr, t.label.PassesOn) ∧
      (∀ row ∈ answerRows tr, row.Storable) ∧ (∀ now ∈ taskTimes tr, now = 6) ∧
      s.clock = 5 ∧ failureCounter ⟨1, 30⟩ "a.test" tr = ⟨1, some 5⟩ := by
  obtain ⟨s₁, response, s₂, hrun, hclock, -⟩ := run_to_timeout
  obtain ⟨tr, s, hrun', hdone, hclock', hlabels⟩ :=
    @tasks_can_be_done urlparse .documented (fun _ _ => false) ⟨1, 30⟩ 6 s₂
  have hnone : answerRows tr = [] := by
    refine List.filterMap_eq_nil_iff.mpr ?_
    intro t ht
    rw [hlabels t ht]
    rfl
  have hsilent : outcomes "a.test" tr = [] := by
    refine List.flatMap_eq_nil_iff.mpr ?_
    intro t ht
    rw [hlabels t ht]
    rfl
  refine ⟨_, s, hrun.append hrun', hdone, ?_, ?_, ?_, ?_, hclock'.trans hclock, ?_⟩
  · rw [answerRows_append, hnone]
    rfl
  · refine List.forall_mem_append.mpr ⟨by simp [ServerEvent.PassesOn, timeoutAt], ?_⟩
    intro t ht
    rw [hlabels t ht]
    trivial
  · rw [answerRows_append, hnone]
    refine List.forall_mem_singleton.mpr ?_
    have hstorable : (answerRow (callContext 0) 0 0 none).Storable := by decide +kernel
    exact ServerEvent.storable_answerRow_congr ServerEvent.upstreamError_storable hstorable
  · intro now hnow
    obtain ⟨t, ht, hlabel⟩ := List.mem_filterMap.mp hnow
    rcases List.mem_append.mp ht with ht | ht
    · simp only [List.mem_cons, List.not_mem_nil, or_false] at ht
      rcases ht with rfl | rfl <;> cases hlabel
    · rw [hlabels t ht] at hlabel
      exact (Option.some.inj hlabel).symm
  · rw [failureCounter, outcomes, List.flatMap_append, ← outcomes, ← outcomes, hsilent,
      List.append_nil]
    rfl

theorem log_matches_answers_timeout : ∃ tr, ∃ s : ServerState, (answerRows tr).length = 1 ∧
    LogMatchesAnswers .empty tr s.world.log.table := by
  obtain ⟨tr, s, hrun, hdone, hone, hpasses, hstorable, -⟩ := run_to_logged_timeout
  exact ⟨tr, s, hone,
    (log_matches_answers_iff Starlette.documented_lawful hrun hdone).mpr ⟨hpasses, hstorable⟩⟩

end Runs

end RateGuardian
