import RateGuardian.LogRepository

/-!
# RateGuardian.DashboardStats

**The counts on the dashboard while requests are logged.** `LogRepository.stats` counts all rows of
the window in one statement and the blocked ones in the next, and each statement sees the rows that
are committed when it runs. Rows are inserted and purged in between (`StatsRun`).

The two counts fit together exactly when the blocked rows that arrived between them are no more than
the rows of the first count that the second one does not find (`coherent_iff`). In particular they
do when no blocked row is inserted in between (`coherent_of_no_blocked`). The condition is about the
rows that are written between two statements, not about the numbers that come out.

The two routes differ in one point that matters here. `dashboard_json` is a plain function, which
the framework runs in a worker thread, so the log tasks of the same process run meanwhile; `_root`
is asynchronous and lets none of them in, and only other processes and the purge job write between
its statements. The results are about any writes, wherever they come from.
-/

namespace RateGuardian

open Lib LogRepository

/-! ### The routes -/

/-- `saturation`, the same expression in both routes: the quotient and the product are doubles, and
`round` sees the exact value of the second. -/
def saturation (stats : LogStats) : ℚ :=
  if 0 < stats.totalRequests then
    roundTo 1 (binary64 (binary64 ((stats.blockedRequests : ℚ) / stats.totalRequests) * 100))
  else 0

/-- `dashboard_json`, with its `window` parameter. -/
def dashboardJson (now : Time) (window : ℤ) (t₁ t₂ t₃ : LogTable) : LogStats × ℚ :=
  (stats now window t₁ t₂ t₃, saturation (stats now window t₁ t₂ t₃))

/-- `_root`, which always looks at the last five minutes. -/
def root (now : Time) (t₁ t₂ t₃ : LogTable) : LogStats × ℚ :=
  (stats now 5 t₁ t₂ t₃, saturation (stats now 5 t₁ t₂ t₃))

/-- Blocked requests are requests, and the saturation is a percentage. -/
structure Coherent (stats : LogStats) (saturationPct : ℚ) : Prop where
  blocked_le : stats.blockedRequests ≤ stats.totalRequests
  allowed_nonneg : 0 ≤ stats.allowedRequests
  saturation_nonneg : 0 ≤ saturationPct
  saturation_le : saturationPct ≤ 100

/-! ### Writes between the statements -/

inductive LogWrite
  /-- A log task commits its row, which was created at `createdAt`. -/
  | insert (e : LogEntry) (createdAt : Time)
  /-- The purge job deletes the rows that are older than `days` days at `now`. -/
  | purge (now : Time) (days : ℤ)
  deriving DecidableEq

namespace LogTable

/-- A write commits, or the database rejects it and the table stays as it is. -/
def write (t : LogTable) : LogWrite → LogTable
  | .insert e createdAt =>
      match create t e createdAt with
      | .ok t' => t'
      | .error _ => t
  | .purge now days => (deleteOlderThan t now days).2

def writes (t : LogTable) (ws : List LogWrite) : LogTable := ws.foldl write t

end LogTable

/-- The writes before, between and after the two counts, from an empty table. -/
structure StatsRun where
  before : List LogWrite
  between : List LogWrite
  after : List LogWrite

namespace StatsRun

variable (run : StatsRun)

/-- The tables that the three statements see, each with the writes before it. -/
def atTotal : LogTable := LogTable.empty.writes run.before
def atBlocked : LogTable := run.atTotal.writes run.between
def atAvg : LogTable := run.atBlocked.writes run.after

/-- The blocked rows of the window that came between the two counts. -/
def arrived (since : Time) : List RequestLog :=
  run.atBlocked.rows.filter fun row =>
    inWindow since row && row.blocked && row ∉ run.atTotal.rows

/-- The rows of the first count that are not in the second: allowed ones, and blocked ones that were
purged in between. -/
def uncounted (since : Time) : List RequestLog :=
  run.atTotal.rows.filter fun row =>
    inWindow since row && !(row.blocked && row ∈ run.atBlocked.rows)

end StatsRun

/-! ### What a write adds -/

section Writes

variable {t : LogTable} {row : RequestLog}

theorem mem_write {w : LogWrite} (h : row ∈ (t.write w).rows) :
    row ∈ t.rows ∨ ∃ e createdAt, w = .insert e createdAt ∧ row.toLogEntry = e := by
  cases w with
  | insert e createdAt =>
      by_cases hstorable : e.Storable
      · rw [LogTable.write, create_of_storable hstorable] at h
        rcases List.mem_append.mp h with hold | hnew
        · exact Or.inl hold
        · exact Or.inr ⟨e, createdAt, rfl, by rw [List.mem_singleton.mp hnew]⟩
      · obtain ⟨exc, hexc⟩ := create_of_not_storable hstorable createdAt
        rw [LogTable.write, hexc] at h
        exact Or.inl h
  | purge now days => exact Or.inl (List.mem_filter.mp h).1

/-- A row that is there after some writes was there before them, or has what one of the inserts
among them wrote. The induction is on the writes. -/
theorem mem_writes (ws : List LogWrite) (h : row ∈ (t.writes ws).rows) :
    row ∈ t.rows ∨ ∃ e createdAt, .insert e createdAt ∈ ws ∧ row.toLogEntry = e := by
  induction ws generalizing t with
  | nil => exact Or.inl h
  | cons w ws ih =>
      rcases ih h with hold | ⟨e, createdAt, hin, heq⟩
      · rcases mem_write hold with hold | ⟨e, createdAt, rfl, heq⟩
        · exact Or.inl hold
        · exact Or.inr ⟨e, createdAt, List.mem_cons_self, heq⟩
      · exact Or.inr ⟨e, createdAt, List.mem_cons_of_mem _ hin, heq⟩

end Writes

/-! ### The two counts -/

section Counts

variable {t₁ t₂ t₃ : LogTable}

/-- Rows that are in both tables are as many in the one as in the other, since an id names
one row. -/
theorem countP_common (p : RequestLog → Bool) :
    (t₂.rows.countP fun row => p row && row ∈ t₁.rows) =
      t₁.rows.countP fun row => p row && row ∈ t₂.rows := by
  rw [List.countP_eq_length_filter, List.countP_eq_length_filter]
  refine List.Perm.length_eq ?_
  refine (List.perm_ext_iff_of_nodup (t₂.rows_nodup.filter _) (t₁.rows_nodup.filter _)).mpr ?_
  intro row
  simp only [List.mem_filter, Bool.and_eq_true, decide_eq_true_eq]
  tauto

theorem countP_split (p q : RequestLog → Bool) (rows : List RequestLog) :
    rows.countP p = (rows.countP fun row => p row && q row) +
      rows.countP fun row => p row && !q row := by
  rw [List.countP_eq_countP_filter_add rows p q, List.countP_filter, List.countP_filter]

/-- When blocked requests are requests, the saturation is a percentage. Neither the doubles on the
way nor the rounding to one decimal leave the interval. -/
theorem saturation_le_of_le {stats : LogStats}
    (h : stats.blockedRequests ≤ stats.totalRequests) : saturation stats ≤ 100 := by
  rw [saturation]
  split
  next hpos =>
    have hpos' : (0 : ℚ) < stats.totalRequests := by exact_mod_cast hpos
    have hle : (stats.blockedRequests : ℚ) ≤ stats.totalRequests := by exact_mod_cast h
    have hratio : (stats.blockedRequests : ℚ) / stats.totalRequests ≤ (1 : ℤ) := by
      rw [Int.cast_one]
      exact (div_le_one hpos').mpr hle
    have hnonneg : (0 : ℚ) ≤ (stats.blockedRequests : ℚ) / stats.totalRequests := by positivity
    -- each of the two doubles stays on its side of an integer, and so does the rounded percentage
    have hquotient := binary64_le (by norm_num) hnonneg hratio
    have hproduct : binary64 ((stats.blockedRequests : ℚ) / stats.totalRequests) * 100 ≤
        (100 : ℤ) := by
      push_cast at hquotient ⊢
      linarith
    have hpercent := binary64_le (by norm_num)
      (mul_nonneg (binary64_nonneg hnonneg) (by norm_num)) hproduct
    exact_mod_cast roundTo_le 1 hpercent
  next => norm_num

theorem saturation_nonneg (stats : LogStats) : 0 ≤ saturation stats := by
  rw [saturation]
  split
  next =>
    have hnonneg : (0 : ℚ) ≤ (stats.blockedRequests : ℚ) / stats.totalRequests := by positivity
    have hpercent := binary64_nonneg
      (mul_nonneg (binary64_nonneg hnonneg) (by norm_num : (0 : ℚ) ≤ 100))
    have hround := le_roundTo (K := ℚ) (n := 0) 1 (Int.cast_zero.trans_le hpercent)
    rwa [Int.cast_zero] at hround
  next => exact le_rfl

-- 1 of 2000: the double next to 0.05 lies above it, so that the rounding does not see a tie
example : saturation ⟨2000, 1, 1999, 0, 5⟩ = 1 / 10 := by decide +kernel

theorem coherent_iff_le {now : Time} {sinceMinutes : ℤ} :
    Coherent (stats now sinceMinutes t₁ t₂ t₃) (saturation (stats now sinceMinutes t₁ t₂ t₃)) ↔
      (stats now sinceMinutes t₁ t₂ t₃).blockedRequests ≤
        (stats now sinceMinutes t₁ t₂ t₃).totalRequests := by
  constructor
  · intro h
    exact h.blocked_le
  · intro h
    have hallowed : (0 : ℤ) ≤ (stats now sinceMinutes t₁ t₂ t₃).totalRequests -
        (stats now sinceMinutes t₁ t₂ t₃).blockedRequests := by omega
    exact ⟨h, hallowed, saturation_nonneg _, saturation_le_of_le h⟩

end Counts

/-- The blocked rows that arrive and the rows that are not counted again make the difference. -/
theorem blocked_le_total_iff (run : StatsRun) (now : Time) (sinceMinutes : ℤ) :
    (stats now sinceMinutes run.atTotal run.atBlocked run.atAvg).blockedRequests ≤
        (stats now sinceMinutes run.atTotal run.atBlocked run.atAvg).totalRequests ↔
      (run.arrived (now - 60 * sinceMinutes)).length ≤
        (run.uncounted (now - 60 * sinceMinutes)).length := by
  have hblocked := countP_split (fun row => inWindow (now - 60 * sinceMinutes) row && row.blocked)
    (fun row => row ∈ run.atTotal.rows) run.atBlocked.rows
  have htotal := countP_split (inWindow (now - 60 * sinceMinutes))
    (fun row => row.blocked && row ∈ run.atBlocked.rows) run.atTotal.rows
  have hcommon := @countP_common run.atTotal run.atBlocked
    (fun row => inWindow (now - 60 * sinceMinutes) row && row.blocked)
  simp only [Bool.and_assoc] at hblocked htotal hcommon
  simp only [stats, StatsRun.arrived, StatsRun.uncounted, ← List.countP_eq_length_filter,
    Bool.and_assoc, decide_not]
  omega

/-! ### Coherence -/

/-- One blocked row is there for the first count, and one more for the second. -/
def overtaken : StatsRun where
  before := [.insert ⟨"10.0.0.1", "GET", "/a", "a.test", 429, 1, true, some "rate_limit"⟩ 60]
  between := [.insert ⟨"10.0.0.1", "GET", "/a", "a.test", 429, 1, true, some "rate_limit"⟩ 61]
  after := []

example : dashboardJson 62 5 overtaken.atTotal overtaken.atBlocked overtaken.atAvg =
    (⟨1, 2, -1, 1, 5⟩, 200) := by decide +kernel

/-- One request in total, two of them blocked: a saturation of 200 percent. The route is
`dashboard_json`, which runs in a worker thread, so that a log task of the same process can insert
its row between the two statements. -/
theorem stats_incoherent :
    ¬ Coherent (dashboardJson 62 5 overtaken.atTotal overtaken.atBlocked overtaken.atAvg).1
      (dashboardJson 62 5 overtaken.atTotal overtaken.atBlocked overtaken.atAvg).2 := by
  intro h
  have hblocked := h.blocked_le
  revert hblocked
  decide +kernel

/-- **When the counts are coherent.** For every interleaving of writes with the statements of
`stats`, and on both routes: exactly when the blocked rows that came between the two counts are no
more than the rows of the first count that the second does not find. -/
theorem coherent_iff (run : StatsRun) (now : Time) :
    (∀ window : ℤ, Coherent (dashboardJson now window run.atTotal run.atBlocked run.atAvg).1
        (dashboardJson now window run.atTotal run.atBlocked run.atAvg).2 ↔
      (run.arrived (now - 60 * window)).length ≤ (run.uncounted (now - 60 * window)).length) ∧
    (Coherent (root now run.atTotal run.atBlocked run.atAvg).1
        (root now run.atTotal run.atBlocked run.atAvg).2 ↔
      (run.arrived (now - 60 * 5)).length ≤ (run.uncounted (now - 60 * 5)).length) := by
  have hroute : ∀ window : ℤ, _ := fun window =>
    (@coherent_iff_le run.atTotal run.atBlocked run.atAvg now window).trans
      (blocked_le_total_iff run now window)
  exact ⟨hroute, by exact_mod_cast hroute 5⟩

/-- Without a blocked row in between, the counts are coherent. -/
theorem coherent_of_no_blocked (run : StatsRun)
    (h : ∀ e createdAt, .insert e createdAt ∈ run.between → e.blocked = false) (now : Time)
    (window : ℤ) : Coherent (dashboardJson now window run.atTotal run.atBlocked run.atAvg).1
      (dashboardJson now window run.atTotal run.atBlocked run.atAvg).2 := by
  have harrived : run.arrived (now - 60 * window) = [] := by
    refine List.filter_eq_nil_iff.mpr ?_
    intro row hrow hnew
    simp only [Bool.and_eq_true, decide_eq_true_eq] at hnew
    obtain ⟨⟨-, hblocked⟩, hnot⟩ := hnew
    rcases mem_writes run.between hrow with hold | ⟨e, createdAt, hin, heq⟩
    · exact hnot hold
    · rw [heq, h e createdAt hin] at hblocked
      cases hblocked
  refine coherent_iff_le.mpr ((blocked_le_total_iff run now window).mpr ?_)
  rw [harrived]
  exact Nat.zero_le _

end RateGuardian
