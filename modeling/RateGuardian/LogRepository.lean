import RateGuardian.Pipeline
import RateGuardian.Lib.Rounding
import RateGuardian.Lib.Latest

/-!
# RateGuardian.LogRepository

**The log of handled requests**: `RequestLog` of `app/models/request_log.py` and `LogRepository` of
`app/models/repositories/log_repository.py`.

A row can be refused on its way in, for its strings alone (`LogEntry.Storable`): the driver does not
send a string with a NUL character, and PostgreSQL rejects one that is longer than its column. What
a client sends is bounded by neither. A `LogTable` carries that its ids are those it has handed out,
each once.

The methods are functions of the table. `stats` makes three statements, between which rows can be
inserted and purged, so it takes a table for each of them. The averages are rational numbers, and
rounded only where the source rounds.
-/

namespace RateGuardian

open Lib

/-- What a writer fills in of a row; the database adds the id and the time of creation. -/
structure LogEntry where
  clientIp : String
  method : String
  path : String
  upstream : String
  statusCode : ℕ
  latencyMs : Time
  blocked : Bool
  blockedBy : Option String
  deriving DecidableEq

/-- A row of `request_logs`, which is not changed after it has been inserted. -/
structure RequestLog extends LogEntry where
  id : ℕ
  createdAt : Time
  deriving DecidableEq

namespace LogEntry

/-- The strings of a row, each with the length of its column, in the order of the columns. -/
def columns (e : LogEntry) : List (String × ℕ) :=
  [(e.clientIp, 50), (e.method, 10), (e.path, 500), (e.upstream, 500)] ++
    e.blockedBy.toList.map fun reason => (reason, 50)

/-- Every string fits its column. PostgreSQL counts characters there, not bytes. -/
def Fits (e : LogEntry) : Prop := ∀ c ∈ e.columns, c.1.length ≤ c.2

/-- No string has a NUL character, which cannot be sent to PostgreSQL. -/
def NulFree (e : LogEntry) : Prop := ∀ c ∈ e.columns, '\x00' ∉ c.1.toList

/-- The row can be inserted: the driver sends all its strings, and the database takes them. -/
def Storable (e : LogEntry) : Prop := e.NulFree ∧ e.Fits

instance : DecidablePred Fits := fun e => List.decidableBAll _ e.columns

instance : DecidablePred NulFree := fun e => List.decidableBAll _ e.columns

instance : DecidablePred Storable := fun _ => inferInstanceAs (Decidable (_ ∧ _))

/-- What an insert raises: the driver, for a NUL character anywhere in the row, before the database
sees it; then the database, for the first column that is too short. -/
def dataError (e : LogEntry) : Option PyException :=
  if e.NulFree then
    (e.columns.find? fun c => c.2 < c.1.length).map fun c =>
      ⟨"value too long for type character varying(" ++ c.2.repr ++ ")"⟩
  else some ⟨"A string literal cannot contain NUL (0x00) characters."⟩

theorem dataError_eq_none {e : LogEntry} : e.dataError = none ↔ e.Storable := by
  rw [dataError]
  split
  next hnul => simp [Storable, Fits, hnul]
  next hnul => simp [Storable, hnul]

end LogEntry

/-! ### The table

Rows are inserted at the end and deleted anywhere, and the sequence of the ids only grows. -/

structure LogTable where
  rows : List RequestLog
  nextId : ℕ
  id_lt : ∀ row ∈ rows, row.id < nextId
  nodup : (rows.map RequestLog.id).Nodup

namespace LogTable

def empty : LogTable := ⟨[], 0, nofun, List.nodup_nil⟩

def insert (t : LogTable) (e : LogEntry) (createdAt : Time) : LogTable where
  rows := t.rows ++ [⟨e, t.nextId, createdAt⟩]
  nextId := t.nextId + 1
  id_lt := by
    intro row hrow
    rcases List.mem_append.mp hrow with hrow | hrow
    · exact Nat.lt_succ_of_lt (t.id_lt row hrow)
    · rw [List.mem_singleton.mp hrow]
      exact Nat.lt_succ_self _
  nodup := by
    rw [List.map_append, List.map_singleton]
    refine t.nodup.append (List.nodup_singleton _) ?_
    intro id hid hnew
    obtain ⟨row, hrow, rfl⟩ := List.mem_map.mp hid
    exact Nat.ne_of_lt (t.id_lt row hrow) (List.mem_singleton.mp hnew)

/-- `DELETE` of the rows that satisfy `p`. The sequence does not go back. -/
def delete (t : LogTable) (p : RequestLog → Bool) : LogTable where
  rows := t.rows.filter fun row => !p row
  nextId := t.nextId
  id_lt row hrow := t.id_lt row (List.mem_filter.mp hrow).1
  nodup := t.nodup.sublist (List.filter_sublist.map _)

theorem rows_nodup (t : LogTable) : t.rows.Nodup := t.nodup.of_map _

end LogTable

/-! ### The repository

Times are seconds, so a `timedelta` of minutes or of days is a product. -/

/-- The dict that `stats` returns, with its four figures. -/
structure LogStats where
  totalRequests : ℕ
  blockedRequests : ℕ
  allowedRequests : ℤ
  avgLatencyMs : ℚ
  windowMinutes : ℤ
  deriving DecidableEq

namespace LogRepository

/-- `create`; `now` is the default of `created_at`. A row that cannot be inserted raises. -/
def create (t : LogTable) (e : LogEntry) (now : Time) : Except PyException LogTable :=
  match e.dataError with
  | some exc => .error exc
  | none => .ok (t.insert e now)

/-- `get_recent`: the newest rows up to the limit, or the newest of the blocked ones. -/
def getRecent (t : LogTable) (limit : ℕ) (blockedOnly : Bool) : List RequestLog :=
  let q := if blockedOnly then t.rows.filter fun row => row.blocked else t.rows
  (latestFirst RequestLog.createdAt q).take limit

/-- `delete_older_than`: the number of rows deleted, and the table. -/
def deleteOlderThan (t : LogTable) (now : Time) (days : ℤ) : ℕ × LogTable :=
  let cutoff := now - 86400 * days
  (t.rows.countP fun row => row.createdAt < cutoff, t.delete fun row => row.createdAt < cutoff)

/-- The filter of `stats` and of `top_ips`: the row was created since the beginning of the
window. -/
def inWindow (since : Time) (row : RequestLog) : Bool := since ≤ row.createdAt

/-- `func.avg`, which is `NULL` over no rows. -/
def avg (xs : List ℚ) : Option ℚ := if xs = [] then none else some (xs.sum / xs.length)

/-- `round(avg_lat, 2) if avg_lat else 0.0`, which shows no rows and an average of zero alike. -/
def roundedAvg : Option ℚ → ℚ
  | some x => if x = 0 then 0 else roundTo 2 x
  | none => 0

/-- `stats`, whose three statements see the tables `t₁`, `t₂` and `t₃`. -/
def stats (now : Time) (sinceMinutes : ℤ) (t₁ t₂ t₃ : LogTable) : LogStats :=
  let since := now - 60 * sinceMinutes
  let total := t₁.rows.countP (inWindow since)
  let blocked := t₂.rows.countP fun row => inWindow since row && row.blocked
  let avgLat := avg ((t₃.rows.filter (inWindow since)).map fun row => row.latencyMs)
  { totalRequests := total
    blockedRequests := blocked
    allowedRequests := total - blocked
    avgLatencyMs := roundedAvg avgLat
    windowMinutes := sinceMinutes }

section Create

variable {t : LogTable} {e : LogEntry}

theorem create_of_storable (h : e.Storable) (now : Time) :
    create t e now = .ok (t.insert e now) := by
  rw [create, LogEntry.dataError_eq_none.mpr h]

/-- A row that cannot be stored raises, and the table is as it was. -/
theorem create_of_not_storable (h : ¬ e.Storable) (now : Time) :
    ∃ exc, create t e now = .error exc := by
  cases hexc : e.dataError with
  | none => exact absurd (LogEntry.dataError_eq_none.mp hexc) h
  | some exc =>
      rw [create, hexc]
      exact ⟨exc, rfl⟩

end Create

end LogRepository

end RateGuardian
