import RateGuardian.ServerLog
import RateGuardian.LogRetention

/-!
# RateGuardian.ServerDashboard

**What the dashboard shows of the answers.** The figures of `GET /dashboard` come from
`request_logs`, and its rows from the tasks that the events of the pipeline schedule. Between an
answer of the application and the figure that counts it stand five components.

End to end the dashboard lags behind by the tasks that have not run, and is otherwise right
(`dashboard_reports_answers`). The route runs in a worker thread, so that the application goes on
while its four statements are executed, and each of them sees the table of its own moment. What the
first one counts is right whatever happens meanwhile. All the figures together are right when no
task happens to run between the first statement and the last; `DashboardStats` says what becomes of
them when one does.

The answers are those of the pipeline. A request without a context, which the framework answers with
a 500, has no row and is not counted.
-/

namespace RateGuardian

open Lib Imp LogRepository ProxyStep

/-! ### When rows are created -/

/-- Each task that ran has inserted its row, and each pending one is of an event. -/
structure Inserted (t : LogTable) (tr : List (Transition LogWorld LogEvent)) (s : LogWorld) :
    Prop where
  rows : ∃ new, s.table.rows = t.rows ++ new ∧ new.map RequestLog.createdAt = ran tr
  tasks : ∀ log ∈ s.tasks, log ∈ (emitted tr).map rowOf

section Inserted

variable {t : LogTable} {s s' : LogWorld} {e : LogEvent}
  {tr : List (Transition LogWorld LogEvent)}

/-- The step lemma: an event adds a task, and a task that runs moves its row into the table. -/
theorem Inserted.step (h : Inserted t tr s) (hstorable : ∀ e ∈ emitted tr, (rowOf e).Storable)
    (hstep : LogStep s e s') : Inserted t (tr ++ [⟨s, e, s'⟩]) s' := by
  obtain ⟨⟨new, hrows, htimes⟩, htasks⟩ := h
  cases hstep with
  | emit event =>
      rw [on_emit]
      refine ⟨⟨new, hrows, ?_⟩, ?_⟩
      · rw [htimes, ran, ran, List.filterMap_append]
        exact (List.append_nil _).symm
      · rw [emitted_concat_emit, List.map_append]
        refine List.forall_mem_append.mpr ⟨?_, ?_⟩
        · intro log hlog
          exact List.mem_append_left _ (htasks log hlog)
        · intro log hlog
          exact List.mem_append_right _ hlog
  | run now before after log hpending =>
      have hlog : log.Storable := by
        obtain ⟨event, hevent, rfl⟩ := List.mem_map.mp (htasks log (by simp [hpending]))
        exact hstorable event hevent
      rw [on_write_of_storable _ _ hlog]
      refine ⟨⟨new ++ [⟨log, s.table.nextId, now⟩], ?_, ?_⟩, ?_⟩
      · rw [← List.append_assoc, ← hrows]
        rfl
      · rw [List.map_append, htimes, ran, ran, List.filterMap_append]
        rfl
      · intro other hother
        rw [emitted_concat_run]
        refine htasks other ?_
        rw [hpending]
        rcases List.mem_append.mp hother with hmem | hmem
        · exact List.mem_append_left _ hmem
        · exact List.mem_append_right _ (List.mem_cons_of_mem _ hmem)

/-- The run lemma: in every state that is reached, the rows are those of the tasks that have run. -/
theorem inserted_run (h : Run LogStep (.initial t) tr s)
    (hstorable : ∀ e ∈ emitted tr, (rowOf e).Storable) : Inserted t tr s := by
  revert hstorable
  refine h.invariant
    (I := fun tr s => (∀ e ∈ emitted tr, (rowOf e).Storable) → Inserted t tr s) ?_ ?_
  · intro _
    exact ⟨⟨[], (List.append_nil _).symm, rfl⟩, fun log hlog => absurd hlog List.not_mem_nil⟩
  · intro tr s e s' _ hinv hstep hstorable
    have hbefore : ∀ event ∈ emitted tr, (rowOf event).Storable := by
      intro event hevent
      refine hstorable event ?_
      rw [emitted, List.filterMap_append]
      exact List.mem_append_left _ hevent
    exact (hinv hbefore).step hbefore hstep

/-- Events alone leave the table as it is. -/
theorem table_eq_of_ran_eq_nil (h : Run LogStep s tr s') (hran : ran tr = []) :
    s'.table = s.table := by
  induction h with
  | nil => rfl
  | @snoc tr s₁ s₂ e hrun hstep ih =>
      rw [ran, List.filterMap_append, List.append_eq_nil_iff] at hran
      rw [← ih hran.1]
      cases hstep with
      | emit event => rw [on_emit]
      | run now before after log hpending => cases hran.2

end Inserted

section Runs

variable {urlparse : String → Except String String} {http : Starlette}
  {fnmatch : String → String → Bool} {cb : RedisCircuitBreaker}
  {s : ServerState} {t₀ : Time} {rules : RuleTable} {log : LogTable} {tr : ServerTrace}

/-- The new rows and the pending tasks are those of the answers, and a row is created when its
task runs. -/
theorem rows_of_answers (hhttp : http.Lawful)
    (h : Run (ServerStep urlparse http fnmatch cb) (.initial t₀ rules log) tr s)
    (hpasses : ∀ t ∈ tr, t.label.PassesOn) (hstorable : ∀ row ∈ answerRows tr, row.Storable) :
    ∃ new, s.world.log.table.rows = log.rows ++ new ∧
      new.map RequestLog.createdAt = taskTimes tr ∧
      (new.map RequestLog.toLogEntry ++ s.world.log.tasks).Perm (answerRows tr) := by
  obtain ⟨ltr, hrun, hrows, hran⟩ := log_run hhttp h
  have hanswers : (emitted ltr).map rowOf = answerRows tr := by
    rw [hrows, answerRows_eq_flatMap]
    refine List.flatMap_congr ?_
    intro t ht
    exact ServerEvent.tasks_of_passesOn (hpasses t ht)
  have hall : ∀ e ∈ emitted ltr, (rowOf e).Storable := by
    intro e he
    exact hstorable _ (hanswers ▸ List.mem_map_of_mem he)
  obtain ⟨⟨new, hnew, htimes⟩, htasks⟩ := inserted_run hrun hall
  -- The same new rows: by their times, and by their contents up to order.
  obtain ⟨new', hnew', hperm⟩ := accounted_run hrun
  obtain rfl : new = new' := List.append_cancel_left (hnew.symm.trans hnew')
  refine ⟨new, hnew, htimes.trans hran, ?_⟩
  rw [hanswers, List.filter_eq_self.mpr, List.filter_eq_self.mpr] at hperm
  · exact hperm
  · intro row hrow
    exact decide_eq_true (hstorable row hrow)
  · intro row hrow
    exact decide_eq_true (hstorable row (hanswers ▸ htasks row hrow))

/-- While no task runs, the table does not change. -/
theorem table_eq_of_no_task (hhttp : http.Lawful) {s s' : ServerState} {tr : ServerTrace}
    (h : Run (ServerStep urlparse http fnmatch cb) s tr s') (hnone : taskTimes tr = []) :
    s'.world.log.table = s.world.log.table := by
  induction h with
  | nil => rfl
  | @snoc tr s₁ s₂ e hrun hstep ih =>
      rw [taskTimes, List.filterMap_append, List.append_eq_nil_iff] at hnone
      obtain ⟨ltr, hlog, -, hran⟩ := log_step hhttp hstep
      rw [List.filterMap_eq_flatMap_toList _ [_], List.flatMap_singleton, ← hran] at hnone
      rw [table_eq_of_ran_eq_nil hlog hnone.2]
      exact ih hnone.1

end Runs

/-! ### The figures -/

/-- The figures of a dashboard are those of the answers. -/
structure ReportsAnswers (answers : List LogEntry) (r : DashboardResponse) : Prop where
  total : r.stats.totalRequests = answers.length
  blocked : r.stats.blockedRequests = answers.countP fun row => row.blocked
  allowed : r.stats.allowedRequests = answers.countP fun row => !row.blocked
  avgLatency : r.stats.avgLatencyMs = roundedAvg (avg (answers.map fun row => row.latencyMs))
  saturation : r.saturationPct = saturation r.stats
  count : ∀ e ∈ r.topIps, e.count = answers.countP fun row => row.clientIp = e.ip
  length : r.topIps.length = min 10 (answers.map fun row => row.clientIp).dedup.length
  busiest : ∀ ip, ip ∉ r.topIps.map TopIp.ip → ∀ e ∈ r.topIps,
    (answers.countP fun row => row.clientIp = ip) ≤ e.count

section Figures

variable {old new : List RequestLog} {answers : List LogEntry} {t : LogTable} {since : Time}

/-- Rows of before the window do not count. -/
theorem filter_inWindow (hrows : t.rows = old ++ new) (hold : ∀ row ∈ old, row.createdAt < since) :
    t.rows.filter (inWindow since) = new.filter (inWindow since) := by
  have hnone : old.filter (inWindow since) = [] := by
    refine List.filter_eq_nil_iff.mpr ?_
    intro row hrow hin
    exact absurd (of_decide_eq_true hin) (not_le.mpr (hold row hrow))
  rw [hrows, List.filter_append, hnone, List.nil_append]

theorem countP_toLogEntry (p : LogEntry → Bool)
    (hperm : (new.map RequestLog.toLogEntry).Perm answers) :
    (new.countP fun row => p row.toLogEntry) = answers.countP p := by
  rw [← hperm.countP_eq, List.countP_map]
  rfl

theorem map_toLogEntry_perm {β : Type} (f : LogEntry → β)
    (hperm : (new.map RequestLog.toLogEntry).Perm answers) :
    (new.map fun row => f row.toLogEntry).Perm (answers.map f) := by
  have hmap := hperm.map f
  rwa [List.map_map] at hmap

theorem avg_perm {xs ys : List ℚ} (h : xs.Perm ys) : avg xs = avg ys := by
  have hnil : xs = [] ↔ ys = [] := by
    rw [← List.length_eq_zero_iff, h.length_eq, List.length_eq_zero_iff]
  simp only [avg, hnil, h.sum_eq, h.length_eq]

/-- How many rows of the window there are depends on when the tasks ran. -/
theorem countP_inWindow_add (since : Time) (new : List RequestLog) :
    new.countP (inWindow since) +
      ((new.map RequestLog.createdAt).countP fun runAt => runAt < since) = new.length := by
  rw [List.countP_map, List.length_eq_countP_add_countP (inWindow since)]
  refine congrArg _ (List.countP_congr fun row _ => ?_)
  simp [inWindow]

/-- All answers are in the table and in the window. -/
theorem reportsAnswers_of_perm {order : ByCount String} {now now' : Time} {window : ℤ}
    (hrows : t.rows = old ++ new) (hperm : (new.map RequestLog.toLogEntry).Perm answers)
    (hold : ∀ row ∈ old, row.createdAt < now' - 60 * (window * 12 : ℤ))
    (hnow : now' - 60 * (window * 12 : ℤ) ≤ now - 60 * window)
    (hnew : ∀ row ∈ new, now - 60 * window ≤ row.createdAt) {r : DashboardResponse}
    (hr : dashboardResponse order now now' window t t t t = some r) :
    ReportsAnswers answers r := by
  -- Both windows show the new rows, all of them and no others.
  have hin : ∀ since, now' - 60 * (window * 12 : ℤ) ≤ since → since ≤ now - 60 * window →
      t.rows.filter (inWindow since) = new := by
    intro since hle hge
    rw [filter_inWindow hrows fun row hrow => (hold row hrow).trans_le hle,
      List.filter_eq_self.mpr]
    intro row hrow
    exact decide_eq_true (hge.trans (hnew row hrow))
  have hstats := hin (now - 60 * window) hnow le_rfl
  have htop := hin (now' - 60 * (window * 12 : ℤ)) le_rfl hnow
  rw [dashboardResponse] at hr
  split at hr
  · cases hr
    have htotal : (stats now window t t t).totalRequests = answers.length := by
      show t.rows.countP (inWindow _) = _
      rw [List.countP_eq_length_filter, hstats, ← List.length_map RequestLog.toLogEntry,
        hperm.length_eq]
    have hblocked : (stats now window t t t).blockedRequests =
        answers.countP fun row => row.blocked := by
      have hcount := countP_toLogEntry (fun row => row.blocked) hperm
      show (t.rows.countP fun row => inWindow _ row && row.blocked) = _
      rw [← hcount, ← hstats, List.countP_filter]
      exact List.countP_congr fun row _ => by simp [and_comm]
    have hhits : ∀ ip, hits (now' - 60 * (window * 12 : ℤ)) t ip =
        answers.countP fun row => row.clientIp = ip := by
      intro ip
      have hcount := countP_toLogEntry (fun row => decide (row.clientIp = ip)) hperm
      rw [← hcount, ← htop, hits, List.countP_filter]
      exact List.countP_congr fun row _ => by simp [and_comm]
    have hshown := busiestShown_topIps order now' 10 (window * 12) t
    refine ⟨htotal, hblocked, ?_, ?_, rfl, ?_, ?_, ?_⟩
    · have hsplit := answers.length_eq_countP_add_countP fun row => row.blocked
      show ((stats now window t t t).totalRequests : ℤ) -
        (stats now window t t t).blockedRequests = _
      rw [htotal, hblocked, hsplit]
      push_cast
      simp
    · show roundedAvg (avg ((t.rows.filter (inWindow _)).map _)) = _
      rw [hstats, avg_perm (map_toLogEntry_perm (fun row => row.latencyMs) hperm)]
    · intro e he
      rw [← hhits]
      exact (hshown.count e he).2
    · have hips : (clientIps (now' - 60 * (window * 12 : ℤ)) t).Perm
          (answers.map fun row => row.clientIp) := by
        rw [clientIps, htop]
        exact map_toLogEntry_perm (fun row => row.clientIp) hperm
      rw [← hips.dedup.length_eq]
      exact hshown.length
    · intro ip hout e he
      rw [← hhits]
      rcases Nat.eq_zero_or_pos (hits (now' - 60 * (window * 12 : ℤ)) t ip) with hzero | hpos
      · -- An address without requests is not in the table at all.
        rw [hzero]
        exact Nat.zero_le _
      · exact hshown.least ip hpos hout e he
  · cases hr

end Figures

section Runs

variable {urlparse : String → Except String String} {http : Starlette}
  {fnmatch : String → String → Bool} {cb : RedisCircuitBreaker}
  {s : ServerState} {t₀ : Time} {rules : RuleTable} {log : LogTable} {tr : ServerTrace}

/-- **The dashboard reports the answers.** In every run of the application in which the upstream
responses can be passed on and the rows of the answers can be stored, on a log without rows of the
last `12 * window` minutes, `GET /dashboard` counts every answer once, but for those whose tasks
have not run and those whose tasks ran before the window. This is so wherever the later statements
of the route find the application. When there are none of these, and no task runs between the first
statement and the last, all its figures are those of the answers that the clients were given. -/
theorem dashboard_reports_answers (hhttp : http.Lawful)
    (h : Run (ServerStep urlparse http fnmatch cb) (.initial t₀ rules log) tr s)
    (hpasses : ∀ t ∈ tr, t.label.PassesOn) (hstorable : ∀ row ∈ answerRows tr, row.Storable)
    {s₂ s₃ s₄ : ServerState} {tr₂ tr₃ tr₄ : ServerTrace}
    (h₂ : Run (ServerStep urlparse http fnmatch cb) s tr₂ s₂)
    (h₃ : Run (ServerStep urlparse http fnmatch cb) s₂ tr₃ s₃)
    (h₄ : Run (ServerStep urlparse http fnmatch cb) s₃ tr₄ s₄)
    (order : ByCount String) {now now' : Time} {window : ℤ} (hwindow : 1 ≤ window ∧ window ≤ 60)
    (hnow : now' ≤ now + 660)
    (hold : ∀ row ∈ log.rows, row.createdAt < now' - 60 * (window * 12 : ℤ)) :
    ∃ r, dashboardResponse order now now' window s.world.log.table s₂.world.log.table
        s₃.world.log.table s₄.world.log.table = some r ∧
      r.stats.totalRequests + ((taskTimes tr).countP fun runAt => runAt < now - 60 * window) +
        s.world.log.tasks.length = (answerRows tr).length ∧
      (s.world.log.tasks = [] → (∀ runAt ∈ taskTimes tr, now - 60 * window ≤ runAt) →
        taskTimes (tr₂ ++ tr₃ ++ tr₄) = [] → ReportsAnswers (answerRows tr) r) := by
  obtain ⟨new, hrows, htimes, hperm⟩ := rows_of_answers hhttp h hpasses hstorable
  have hwide : now' - 60 * (window * 12 : ℤ) ≤ now - 60 * window := by
    have hpos : (1 : Time) ≤ window := by exact_mod_cast hwindow.1
    push_cast
    linarith
  refine ⟨_, if_pos hwindow, ?_, ?_⟩
  · have hcount : s.world.log.table.rows.countP (inWindow (now - 60 * window)) =
        new.countP (inWindow (now - 60 * window)) := by
      rw [List.countP_eq_length_filter, List.countP_eq_length_filter,
        filter_inWindow hrows fun row hrow => (hold row hrow).trans_le hwide]
    show s.world.log.table.rows.countP (inWindow _) + _ + _ = _
    rw [hcount, ← htimes, countP_inWindow_add, ← hperm.length_eq, List.length_append,
      List.length_map]
  · intro hdone hran hquiet
    rw [hdone, List.append_nil] at hperm
    -- without a task in between, the four statements see one table
    rw [taskTimes, List.filterMap_append, List.filterMap_append, List.append_eq_nil_iff,
      List.append_eq_nil_iff] at hquiet
    have hsecond := table_eq_of_no_task hhttp h₂ hquiet.1.1
    have hthird := (table_eq_of_no_task hhttp h₃ hquiet.1.2).trans hsecond
    have hfourth := (table_eq_of_no_task hhttp h₄ hquiet.2).trans hthird
    rw [hsecond, hthird, hfourth]
    refine reportsAnswers_of_perm hrows hperm hold hwide ?_ (if_pos hwindow)
    intro row hrow
    exact hran _ (htimes ▸ List.mem_map_of_mem hrow)

/-- A request times out, and the dashboard is asked after its task has run. While the statements are
executed, another request arrives, and is answered 503. -/
theorem dashboard_reports_answers_timeout :
    ∃ (tr tr₂ : ServerTrace) (t t₂ : LogTable) (r : DashboardResponse),
      dashboardResponse .stable 10 10 5 t t₂ t₂ t₂ = some r ∧ (answerRows tr).length = 1 ∧
      (answerRows tr₂).length = 1 ∧ ReportsAnswers (answerRows tr) r := by
  obtain ⟨tr, s, hrun, hdone, hone, hpasses, hstorable, htimes, hclock, hcounter⟩ :=
    run_to_logged_timeout
  have hshut : (⟨1, some 5⟩ : FailureCounter).Refuses ⟨1, 30⟩ 10 := ⟨le_rfl, 5, rfl, by norm_num⟩
  have hten : s.clock ≤ 10 := hclock.trans_le (by norm_num)
  obtain ⟨response, w, hrefused, hstatus⟩ := small_refused hrun hten (hcounter.symm ▸ hshut)
  obtain ⟨r, hr, -, hreports⟩ := @dashboard_reports_answers _ _ _ _ _ _ _ _ _
    Starlette.documented_lawful hrun hpasses hstorable _ _ _ _ _ _ (.single hrefused) .nil .nil
    .stable 10 10 5 (by decide) (by norm_num) fun row hrow => absurd hrow List.not_mem_nil
  refine ⟨tr, [⟨s, .arrive (callAt 10) (.answered (callContext 10) response), s.turnAway w 10⟩], _,
    _, r, hr, hone, ?_, hreports hdone ?_ rfl⟩
  · rw [answerRows, List.filterMap_cons]
    simp [ServerEvent.row, hstatus]
  · intro runAt hrunAt
    rw [htimes runAt hrunAt]
    norm_num

end Runs

end RateGuardian
