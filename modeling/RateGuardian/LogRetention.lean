import RateGuardian.DashboardStats
import RateGuardian.DashboardSubstitution
import RateGuardian.Lib.TopCounts

/-!
# RateGuardian.LogRetention

**The dashboard and the purge of old logs.** `top_ips` of `LogRepository`, the two routes that show
it (`app/controllers/dashboard.py`, `app/main.py`), and the job that deletes the rows that are older
than `LOG_RETENTION_DAYS`.

A history is a list of inserts and purges from an empty table. It is compared with the same history
without its purges, by a relation that says on which rows the two tables agree (`SameOn`): a purge
keeps it for every set of rows that are younger than the cutoff, and an insert for any set. Rows
take the next id in both tables alike, since a purge does not move the sequence back.

* `topIps_shows_busiest`: what `top_ips` shows of a table, in whichever order the database leaves
  addresses with equal counts;
* `rows_of_purged`: what purging does to the table and to the two lists made from it, over whole
  histories in which no row is created before the cutoff of an earlier purge;
* `dashboard_of_purged`: the figures on the dashboard are about the last twelve hours at most, so
  purges of rows that are days old do not change them. The routes answer as if nothing had ever been
  purged, also where their statements run at different points of a history.
-/

namespace RateGuardian

open Lib LogRepository

/-! ### The routes

The statements of a route are executed one after the other, and rows may be inserted or purged in
between. Each statement therefore has a table of its own as its argument. -/

namespace LogRepository

/-- The addresses of the rows that were created since `since`, one for each row. -/
def clientIps (since : Time) (t : LogTable) : List String :=
  (t.rows.filter (inWindow since)).map fun row => row.clientIp

/-- `top_ips`. The query orders by the count only, and `order` says in which order the database
leaves addresses with equal counts. -/
def topIps (order : ByCount String) (now : Time) (limit : ℕ) (sinceMinutes : ℤ) (t : LogTable) :
    List TopIp :=
  (topCounts order limit (clientIps (now - 60 * sinceMinutes) t)).map fun e => ⟨e.1, e.2⟩

end LogRepository

structure CircuitStateResponse where
  upstream : String
  state : String
  failures : ℕ
  deriving DecidableEq

structure DashboardResponse where
  stats : LogStats
  saturationPct : ℚ
  topIps : List TopIp
  circuitBreakers : List CircuitStateResponse

/-- `GET /dashboard`; `none` is the validation error for a `window` that is out of range. The
statements of `stats` see `t₁`, `t₂` and `t₃`, and that of `top_ips`, at the reading `now'`,
sees `t₄`. -/
def dashboardResponse (order : ByCount String) (now now' : Time) (window : ℤ)
    (t₁ t₂ t₃ t₄ : LogTable) : Option DashboardResponse :=
  if 1 ≤ window ∧ window ≤ 60 then
    some {
      stats := (dashboardJson now window t₁ t₂ t₃).1
      saturationPct := (dashboardJson now window t₁ t₂ t₃).2
      topIps := topIps order now' 10 (window * 12) t₄
      circuitBreakers := [] }
  else none

/-- `GET /`, the page. The statements of `stats`, `top_ips` and `get_recent` see the tables `t₁` to
`t₅`, in this order. -/
def rootPage (py : Python) (order : ByCount String) (now now' : Time)
    (t₁ t₂ t₃ t₄ t₅ : LogTable) : String :=
  renderDashboard py (root now t₁ t₂ t₃).1 (topIps order now' 5 60 t₄) (getRecent t₅ 10 false)
    (root now t₁ t₂ t₃).2

/-! ### What `top_ips` shows

The general facts are those of `Lib.TopCounts`, about the most frequent elements of a list. -/

/-- The number of requests that an address has made since `since`. -/
def hits (since : Time) (t : LogTable) (ip : String) : ℕ :=
  t.rows.countP fun row => inWindow since row && row.clientIp = ip

/-- `shown` lists the requests of the `limit` busiest addresses of a window, or of all, from the
busiest on. -/
structure BusiestShown (since : Time) (limit : ℕ) (t : LogTable) (shown : List TopIp) : Prop where
  count : ∀ e ∈ shown, 0 < e.count ∧ e.count = hits since t e.ip
  nodup : (shown.map TopIp.ip).Nodup
  length : shown.length = min limit (clientIps since t).dedup.length
  sorted : shown.Pairwise fun a b => b.count ≤ a.count
  least : ∀ ip, 0 < hits since t ip → ip ∉ shown.map TopIp.ip →
    ∀ e ∈ shown, hits since t ip ≤ e.count

section TopIps

variable {order : ByCount String} {now since : Time} {limit : ℕ} {sinceMinutes : ℤ} {t : LogTable}

theorem count_clientIps (since : Time) (t : LogTable) (ip : String) :
    (clientIps since t).count ip = hits since t ip := by
  rw [clientIps, List.count, List.countP_map, List.countP_filter, hits]
  refine List.countP_congr fun row _ => ?_
  simp [and_comm]

theorem length_clientIps (since : Time) (t : LogTable) :
    (clientIps since t).length = t.rows.countP (inWindow since) := by
  rw [clientIps, List.length_map, List.countP_eq_length_filter]

theorem hits_pos_iff {ip : String} : 0 < hits since t ip ↔ ip ∈ clientIps since t := by
  rw [← count_clientIps, List.count_pos_iff]

theorem map_ip_topIps : (topIps order now limit sinceMinutes t).map TopIp.ip =
    (topCounts order limit (clientIps (now - 60 * sinceMinutes) t)).map Prod.fst := by
  rw [topIps, List.map_map]
  rfl

theorem map_count_topIps : (topIps order now limit sinceMinutes t).map TopIp.count =
    (topCounts order limit (clientIps (now - 60 * sinceMinutes) t)).map Prod.snd := by
  rw [topIps, List.map_map]
  rfl

theorem busiestShown_topIps (order : ByCount String) (now : Time) (limit : ℕ) (sinceMinutes : ℤ)
    (t : LogTable) :
    BusiestShown (now - 60 * sinceMinutes) limit t (topIps order now limit sinceMinutes t) := by
  have hspec := topCounts_spec order limit (clientIps (now - 60 * sinceMinutes) t)
  have hof : ∀ e ∈ topIps order now limit sinceMinutes t,
      (e.ip, e.count) ∈ topCounts order limit (clientIps (now - 60 * sinceMinutes) t) := by
    intro e he
    obtain ⟨c, hc, rfl⟩ := List.mem_map.mp he
    exact hc
  constructor
  · intro e he
    obtain ⟨hmem, hcount⟩ := hspec.count _ (hof e he)
    have hhits : e.count = hits (now - 60 * sinceMinutes) t e.ip :=
      hcount.trans (count_clientIps _ _ _)
    exact ⟨hhits ▸ hits_pos_iff.mpr hmem, hhits⟩
  · rw [map_ip_topIps]
    exact hspec.nodup
  · rw [topIps, List.length_map]
    exact hspec.length
  · exact List.pairwise_map.mpr hspec.sorted
  · intro ip hpos hout e he
    rw [map_ip_topIps] at hout
    rw [← count_clientIps]
    exact hspec.least ip (hits_pos_iff.mp hpos) hout _ (hof e he)

/-- **The busiest addresses.** Whatever the database does with equal counts: `top_ips` shows the
busiest addresses of the window with all their requests there, the counts add up to the requests of
the window exactly when there are no more addresses than `limit`, and an address that made more
than one in `limit + 1` of the requests is always shown. -/
theorem topIps_shows_busiest (order : ByCount String) (now : Time) (limit : ℕ) (sinceMinutes : ℤ)
    (t : LogTable) :
    BusiestShown (now - 60 * sinceMinutes) limit t (topIps order now limit sinceMinutes t) ∧
    (((topIps order now limit sinceMinutes t).map TopIp.count).sum =
        t.rows.countP (inWindow (now - 60 * sinceMinutes)) ↔
      (clientIps (now - 60 * sinceMinutes) t).dedup.length ≤ limit) ∧
    (∀ ip, t.rows.countP (inWindow (now - 60 * sinceMinutes)) <
        (limit + 1) * hits (now - 60 * sinceMinutes) t ip →
      ip ∈ (topIps order now limit sinceMinutes t).map TopIp.ip) := by
  have hspec := topCounts_spec order limit (clientIps (now - 60 * sinceMinutes) t)
  refine ⟨busiestShown_topIps order now limit sinceMinutes t, ?_, ?_⟩
  · rw [map_count_topIps, ← length_clientIps]
    exact hspec.sum_eq_iff
  · intro ip hfrequent
    rw [map_ip_topIps]
    rw [← length_clientIps, ← count_clientIps] at hfrequent
    exact hspec.mem_of_frequent hfrequent

end TopIps

/-! ### Histories with and without purges

An insert that the database rejects leaves the table as it is, with purges and without, so rejected
rows need no case of their own in what follows. -/

def LogWrite.isInsert : LogWrite → Bool
  | .insert _ _ => true
  | .purge _ _ => false

/-- The table after a history that began with an empty one. -/
def logOf (ws : List LogWrite) : LogTable := LogTable.empty.writes ws

/-- The table as it would be if no purge of the history had run. -/
def unpurged (ws : List LogWrite) : LogTable := logOf (ws.filter LogWrite.isInsert)

/-- What the purges of a history report in turn, which is the number of rows that
`purge_old` logs. -/
def reports (t : LogTable) : List LogWrite → List ℕ
  | [] => []
  | .insert e createdAt :: ws => reports (t.write (.insert e createdAt)) ws
  | .purge now days :: ws =>
      (deleteOlderThan t now days).1 :: reports (t.write (.purge now days)) ws

/-- The row is younger than the cutoff of every purge of the history, earlier or later. -/
def survives (ws : List LogWrite) (row : RequestLog) : Bool :=
  ws.all fun
    | .insert _ _ => true
    | .purge now days => now - 86400 * (days : Time) ≤ row.createdAt

/-- No row of the history is created before the cutoff of an earlier purge. -/
def Fresh (ws : List LogWrite) : Prop :=
  ws.Pairwise fun w w' => ∀ (now : Time) (days : ℤ) (e : LogEntry) (createdAt : Time),
    w = .purge now days → w' = .insert e createdAt → now - 86400 * days ≤ createdAt

/-- The tables hold the same of the rows that satisfy `q`, and go on with the same id. -/
structure SameOn (q : RequestLog → Bool) (t t' : LogTable) : Prop where
  rows : t.rows.filter q = t'.rows.filter q
  nextId : t.nextId = t'.nextId

section Purges

variable {q : RequestLog → Bool} {t t' : LogTable} {ws : List LogWrite} {row : RequestLog}

theorem survives_iff : survives ws row = true ↔
    ∀ (now : Time) (days : ℤ), .purge now days ∈ ws → now - 86400 * days ≤ row.createdAt := by
  rw [survives, List.all_eq_true]
  constructor
  · intro h now days hmem
    exact of_decide_eq_true (h _ hmem)
  · intro h w hmem
    cases w with
    | insert e createdAt => rfl
    | purge now days => exact decide_eq_true (h now days hmem)

theorem write_insert (t : LogTable) (e : LogEntry) (createdAt : Time) :
    t.write (.insert e createdAt) = if e.Storable then t.insert e createdAt else t := by
  by_cases hstorable : e.Storable
  · rw [LogTable.write, create_of_storable hstorable, if_pos hstorable]
  · obtain ⟨exc, hexc⟩ := create_of_not_storable hstorable createdAt
    rw [LogTable.write, hexc, if_neg hstorable]

theorem SameOn.insert (h : SameOn q t t') (e : LogEntry) (createdAt : Time) :
    SameOn q (t.write (.insert e createdAt)) (t'.write (.insert e createdAt)) := by
  rw [write_insert, write_insert]
  split
  · refine ⟨?_, congrArg (· + 1) h.nextId⟩
    show (t.rows ++ [_]).filter q = (t'.rows ++ [_]).filter q
    rw [List.filter_append, List.filter_append, h.rows, h.nextId]
  · exact h

/-- A purge of one table keeps the relation, if none of the rows that `q` speaks of is old
enough. -/
theorem SameOn.purge (h : SameOn q t t') {now : Time} {days : ℤ}
    (hkeeps : ∀ row, q row = true → now - 86400 * days ≤ row.createdAt) :
    SameOn q (t.write (.purge now days)) t' := by
  refine ⟨?_, h.nextId⟩
  show (t.rows.filter _).filter q = _
  rw [List.filter_filter, ← h.rows]
  refine List.filter_congr fun row _ => ?_
  cases hq : q row with
  | false => rfl
  | true => simpa using hkeeps row hq

/-- **Rows that no purge is about** are there as if there had been no purge. -/
theorem sameOn_writes (hkeeps : ∀ (now : Time) (days : ℤ), .purge now days ∈ ws →
    ∀ row, q row = true → now - 86400 * days ≤ row.createdAt) (h : SameOn q t t') :
    SameOn q (t.writes ws) (t'.writes (ws.filter LogWrite.isInsert)) := by
  induction ws generalizing t t' with
  | nil => exact h
  | cons w ws ih =>
      have hrest : ∀ (now : Time) (days : ℤ), .purge now days ∈ ws →
          ∀ row, q row = true → now - 86400 * days ≤ row.createdAt :=
        fun now days hmem => hkeeps now days (List.mem_cons_of_mem _ hmem)
      cases w with
      | insert e createdAt => exact ih hrest (h.insert e createdAt)
      | purge now days => exact ih hrest (h.purge (hkeeps now days List.mem_cons_self))

theorem writes_concat (t : LogTable) (ws : List LogWrite) (w : LogWrite) :
    t.writes (ws ++ [w]) = (t.writes ws).write w := by
  rw [LogTable.writes, List.foldl_append]
  rfl

/-- Only rows that survive are left: a row meets the purges after it, and was created after the
cutoff of those before it. -/
theorem survives_of_mem (hfresh : Fresh ws) (hrow : row ∈ (logOf ws).rows) :
    survives ws row = true := by
  induction ws using List.reverseRecOn generalizing row with
  | nil => rfl
  | append_singleton ws w ih =>
      obtain ⟨hbefore, -, hlast⟩ : Fresh ws ∧ _ := List.pairwise_append.mp hfresh
      rw [logOf, writes_concat] at hrow
      rw [survives_iff]
      intro now days hmem
      cases w with
      | insert e createdAt =>
          have hpurge : .purge now days ∈ ws := by simpa using hmem
          rw [write_insert] at hrow
          split at hrow
          · rcases List.mem_append.mp hrow with hold | hnew
            · exact survives_iff.mp (ih hbefore hold) now days hpurge
            · -- A row is not created before the cutoff of an earlier purge.
              rw [List.mem_singleton.mp hnew]
              exact hlast _ hpurge _ List.mem_cons_self now days e createdAt rfl rfl
          · exact survives_iff.mp (ih hbefore hrow) now days hpurge
      | purge now' days' =>
          obtain ⟨hold, hlate⟩ := List.mem_filter.mp hrow
          rcases List.mem_append.mp hmem with hpurge | hpurge
          · exact survives_iff.mp (ih hbefore hold) now days hpurge
          · cases List.mem_singleton.mp hpurge
            simpa using hlate

/-- Every inserted row is still there, or was counted in the report of one purge. -/
theorem length_writes (ws : List LogWrite) (k : ℕ) (h : t'.rows.length = t.rows.length + k) :
    (t'.writes (ws.filter LogWrite.isInsert)).rows.length =
      (t.writes ws).rows.length + (reports t ws).sum + k := by
  induction ws generalizing t t' k with
  | nil =>
      show t'.rows.length = t.rows.length + ([] : List ℕ).sum + k
      rwa [List.sum_nil, Nat.add_zero]
  | cons w ws ih =>
      cases w with
      | insert e createdAt =>
          refine ih k ?_
          rw [write_insert, write_insert]
          split
          · show (t'.rows ++ [_]).length = (t.rows ++ [_]).length + k
            rw [List.length_append, List.length_append, h]
            simp only [List.length_singleton]
            omega
          · exact h
      | purge now days =>
          -- The rows that go are the rows that are reported.
          have hsplit : t.rows.length = (t.write (.purge now days)).rows.length +
              (deleteOlderThan t now days).1 := by
            show _ = (t.rows.filter _).length + t.rows.countP _
            rw [← List.countP_eq_length_filter, Nat.add_comm,
              List.length_eq_countP_add_countP fun row => row.createdAt < now - 86400 * days]
            simp only [decide_not, Bool.decide_eq_true]
          have hrest := @ih (t.write (.purge now days)) t'
            (k + (deleteOlderThan t now days).1) (by omega)
          show (t'.writes (ws.filter LogWrite.isInsert)).rows.length =
            ((t.write (.purge now days)).writes ws).rows.length +
              ((deleteOlderThan t now days).1 :: reports (t.write (.purge now days)) ws).sum + k
          rw [hrest, List.sum_cons]
          omega

/-- A history with its purges and without them agrees on the rows that `q` speaks of, if no purge is
about any of these. -/
theorem sameOn_logOf (hkeeps : ∀ (now : Time) (days : ℤ), .purge now days ∈ ws →
    ∀ row, q row = true → now - 86400 * days ≤ row.createdAt) :
    SameOn q (logOf ws) (unpurged ws) :=
  sameOn_writes hkeeps ⟨rfl, rfl⟩

theorem rows_of_fresh (hfresh : Fresh ws) :
    (logOf ws).rows = (unpurged ws).rows.filter (survives ws) := by
  have hsame : SameOn (survives ws) (logOf ws) (unpurged ws) :=
    sameOn_logOf fun now days hmem row hrow => survives_iff.mp hrow now days hmem
  rw [← hsame.rows, List.filter_eq_self.mpr]
  exact fun row hrow => survives_of_mem hfresh hrow

theorem getRecent_of_fresh (hfresh : Fresh ws)
    (hdistinct : ((unpurged ws).rows.map RequestLog.createdAt).Nodup) (limit : ℕ)
    (blockedOnly : Bool) : getRecent (logOf ws) limit blockedOnly =
      (getRecent (unpurged ws) limit blockedOnly).filter (survives ws) := by
  have hup : ∀ a b : RequestLog, a.createdAt ≤ b.createdAt → survives ws a = true →
      survives ws b = true := by
    intro a b hab ha
    rw [survives_iff] at ha ⊢
    intro now days hmem
    exact (ha now days hmem).trans hab
  have hrows := rows_of_fresh hfresh
  cases blockedOnly with
  | false =>
      have htake := take_latestFirst_filter hdistinct hup limit
      rw [← hrows] at htake
      exact htake
  | true =>
      have hblocked := hdistinct.sublist (List.filter_sublist (p := fun row : RequestLog =>
        row.blocked) |>.map RequestLog.createdAt)
      have htake := take_latestFirst_filter hblocked hup limit
      rw [List.filter_comm, ← hrows] at htake
      exact htake

/-- **What purging does.** Over every history of inserts and purges in which no row is created
before the cutoff of an earlier purge: the table holds the rows that were inserted less those that
some purge was to delete; every inserted row is there or was counted in one report; and `/logs` and
`/` list what they would without purges, less the deleted rows. -/
theorem rows_of_purged (hfresh : Fresh ws) :
    (logOf ws).rows = (unpurged ws).rows.filter (survives ws) ∧
    (unpurged ws).rows.length = (logOf ws).rows.length + (reports .empty ws).sum ∧
    (((unpurged ws).rows.map RequestLog.createdAt).Nodup → ∀ limit blockedOnly,
      getRecent (logOf ws) limit blockedOnly =
        (getRecent (unpurged ws) limit blockedOnly).filter (survives ws)) :=
  ⟨rows_of_fresh hfresh, length_writes ws 0 rfl, getRecent_of_fresh hfresh⟩

end Purges

/-- One request before a purge of seven days at 700000, and one after it. -/
def aroundPurge (before after : Time) : List LogWrite :=
  [.insert ⟨"10.0.0.1", "GET", "/a", "a.test", 200, 5, false, none⟩ before, .purge 700000 7,
    .insert ⟨"10.0.0.2", "GET", "/a", "a.test", 200, 5, false, none⟩ after]

theorem fresh_aroundPurge (before : Time) {after : Time} (h : 95200 ≤ after) :
    Fresh (aroundPurge before after) := by
  refine .cons ?_ (.cons ?_ (.cons ?_ .nil))
  · intro w' _ now days e createdAt heq
    cases heq
  · intro w' hw' now days e createdAt heq heq'
    rw [List.mem_singleton.mp hw'] at heq'
    cases heq
    cases heq'
    push_cast
    linarith
  · intro w' hw'
    cases hw'

theorem rows_of_purged_week :
    let ws := aroundPurge 0 700010
    (logOf ws).rows.length = 1 ∧ (logOf ws).rows = (unpurged ws).rows.filter (survives ws) ∧
      (unpurged ws).rows.length = (logOf ws).rows.length + (reports .empty ws).sum ∧
      getRecent (logOf ws) 50 false =
        (getRecent (unpurged ws) 50 false).filter (survives ws) := by
  intro ws
  have hafter : (95200 : Time) ≤ 700010 := by norm_num
  obtain ⟨hrows, hlength, hrecent⟩ := rows_of_purged (fresh_aroundPurge 0 hafter)
  exact ⟨by decide +kernel, hrows, hlength, hrecent (by decide +kernel) 50 false⟩

/-! ### The dashboard

The widest window of `GET /dashboard` is 60 minutes for `stats` and twelve times that for `top_ips`.
`GET /` looks back five minutes and an hour, and shows the ten newest rows whatever their age. -/

section Dashboard

variable {since now now' : Time} {t₁ t₂ t₃ t₁' t₂' t₃' t t' : LogTable}

/-- The figures of `stats` are the same for tables that agree on the rows of the window. -/
theorem stats_congr {sinceMinutes : ℤ} (h₁ : SameOn (inWindow (now - 60 * sinceMinutes)) t₁ t₁')
    (h₂ : SameOn (inWindow (now - 60 * sinceMinutes)) t₂ t₂')
    (h₃ : SameOn (inWindow (now - 60 * sinceMinutes)) t₃ t₃') :
    stats now sinceMinutes t₁ t₂ t₃ = stats now sinceMinutes t₁' t₂' t₃' := by
  have hblocked : ∀ t : LogTable,
      (t.rows.countP fun row => inWindow (now - 60 * sinceMinutes) row && row.blocked) =
        (t.rows.filter (inWindow (now - 60 * sinceMinutes))).countP fun row => row.blocked := by
    intro t
    rw [List.countP_filter]
    exact List.countP_congr fun row _ => by simp [and_comm]
  simp only [stats, hblocked, List.countP_eq_length_filter (p := inWindow _), h₁.rows, h₂.rows,
    h₃.rows]

theorem topIps_congr {order : ByCount String} {limit : ℕ} {sinceMinutes : ℤ}
    (h : SameOn (inWindow (now - 60 * sinceMinutes)) t t') :
    topIps order now limit sinceMinutes t = topIps order now limit sinceMinutes t' := by
  rw [topIps, topIps, clientIps, clientIps, h.rows]

/-- Each purge of the history deletes rows of at least a day's age only, and runs at most twelve
hours after the reading `now`. -/
def PurgesOld (now : Time) (ws : List LogWrite) : Prop :=
  ∀ (purgedAt : Time) (days : ℤ), .purge purgedAt days ∈ ws → 1 ≤ days ∧ purgedAt ≤ now + 43200

theorem PurgesOld.sameOn {ws : List LogWrite} (h : PurgesOld now ws) (hle : now ≤ now')
    {sinceMinutes : ℤ} (hwindow : sinceMinutes ≤ 720) :
    SameOn (inWindow (now' - 60 * sinceMinutes)) (logOf ws) (unpurged ws) := by
  refine sameOn_logOf ?_
  intro purgedAt days hmem row hrow
  obtain ⟨hdays, hat⟩ := h purgedAt days hmem
  have hdays' : (1 : Time) ≤ days := by exact_mod_cast hdays
  have hwindow' : (sinceMinutes : Time) ≤ 720 := by exact_mod_cast hwindow
  have hsince : now' - 60 * sinceMinutes ≤ row.createdAt := of_decide_eq_true hrow
  linarith

/-- **The dashboard does not see purges.** For histories whose purges delete rows of at least a
day's age, `GET /dashboard` answers, for every `window`, as if there had been none, and so does
`GET /` as long as its newest rows are younger than twelve hours; the statements of a route may run
at different points of the history. -/
theorem dashboard_of_purged (py : Python) (order : ByCount String) (hle : now ≤ now')
    {ws₁ ws₂ ws₃ ws₄ ws₅ : List LogWrite}
    (h : ∀ ws ∈ [ws₁, ws₂, ws₃, ws₄, ws₅], PurgesOld now ws) :
    (∀ window, dashboardResponse order now now' window (logOf ws₁) (logOf ws₂) (logOf ws₃)
        (logOf ws₄) =
      dashboardResponse order now now' window (unpurged ws₁) (unpurged ws₂) (unpurged ws₃)
        (unpurged ws₄)) ∧
    (Fresh ws₅ → ((unpurged ws₅).rows.map RequestLog.createdAt).Nodup →
      (∀ row ∈ getRecent (unpurged ws₅) 10 false, now - 43200 ≤ row.createdAt) →
      rootPage py order now now' (logOf ws₁) (logOf ws₂) (logOf ws₃) (logOf ws₄)
          (logOf ws₅) =
        rootPage py order now now' (unpurged ws₁) (unpurged ws₂) (unpurged ws₃) (unpurged ws₄)
          (unpurged ws₅)) := by
  have hstats : ∀ sinceMinutes : ℤ, sinceMinutes ≤ 720 →
      stats now sinceMinutes (logOf ws₁) (logOf ws₂) (logOf ws₃) =
        stats now sinceMinutes (unpurged ws₁) (unpurged ws₂) (unpurged ws₃) := by
    intro sinceMinutes hwindow
    exact stats_congr ((h ws₁ (by simp)).sameOn le_rfl hwindow)
      ((h ws₂ (by simp)).sameOn le_rfl hwindow) ((h ws₃ (by simp)).sameOn le_rfl hwindow)
  have htop : ∀ limit (sinceMinutes : ℤ), sinceMinutes ≤ 720 →
      topIps order now' limit sinceMinutes (logOf ws₄) =
        topIps order now' limit sinceMinutes (unpurged ws₄) :=
    fun limit sinceMinutes hwindow => topIps_congr ((h ws₄ (by simp)).sameOn hle hwindow)
  constructor
  · intro window
    rw [dashboardResponse, dashboardResponse]
    by_cases hvalid : 1 ≤ window ∧ window ≤ 60
    · rw [if_pos hvalid, if_pos hvalid, dashboardJson, dashboardJson,
        hstats window (by omega), htop 10 (window * 12) (by omega)]
    · rw [if_neg hvalid, if_neg hvalid]
  · intro hfresh hdistinct hyoung
    -- The ten newest rows are younger than any cutoff, so none of them is deleted.
    have hrecent : getRecent (logOf ws₅) 10 false = getRecent (unpurged ws₅) 10 false := by
      rw [getRecent_of_fresh hfresh hdistinct, List.filter_eq_self]
      intro row hrow
      refine survives_iff.mpr ?_
      intro purgedAt days hmem
      obtain ⟨hdays, hat⟩ := h ws₅ (by simp) purgedAt days hmem
      have hdays' : (1 : Time) ≤ days := by exact_mod_cast hdays
      have hrow' := hyoung row hrow
      linarith
    rw [rootPage, rootPage, root, root, hstats 5 (by omega), htop 5 60 (by omega), hrecent]

end Dashboard

theorem purgesOld_aroundPurge (before after : Time) :
    PurgesOld 700020 (aroundPurge before after) := by
  intro purgedAt days hmem
  have heq : LogWrite.purge purgedAt days = .purge 700000 7 := by simpa [aroundPurge] using hmem
  cases heq
  exact ⟨by decide, by norm_num⟩

/-- The purge deletes the first row of the histories that the figures are from. -/
theorem dashboard_of_purged_week :
    let ws := aroundPurge 0 700010
    let ws₅ := aroundPurge 699000 700010
    (dashboardResponse .stable 700020 700020 5 (logOf ws) (logOf ws) (logOf ws) (logOf ws) =
      dashboardResponse .stable 700020 700020 5 (unpurged ws) (unpurged ws) (unpurged ws)
        (unpurged ws)) ∧
    rootPage seriesPython .stable 700020 700020 (logOf ws) (logOf ws) (logOf ws) (logOf ws)
        (logOf ws₅) =
      rootPage seriesPython .stable 700020 700020 (unpurged ws) (unpurged ws) (unpurged ws)
        (unpurged ws) (unpurged ws₅) := by
  intro ws ws₅
  have hpurges : ∀ ws' ∈ [ws, ws, ws, ws, ws₅], PurgesOld 700020 ws' := by
    intro ws' hws'
    have hcases : ws' = ws ∨ ws' = ws₅ := by simpa using hws'
    rcases hcases with rfl | rfl
    · exact purgesOld_aroundPurge _ _
    · exact purgesOld_aroundPurge _ _
  obtain ⟨hjson, hpage⟩ := dashboard_of_purged seriesPython .stable (le_refl 700020) hpurges
  refine ⟨hjson 5, hpage (fresh_aroundPurge _ (by norm_num)) (by decide +kernel) ?_⟩
  decide +kernel

end RateGuardian
