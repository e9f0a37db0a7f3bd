import RateGuardian.LogRepository

/-!
# RateGuardian.LogFilter

**The filter of `/logs`** (`app/controllers/dashboard.py`). The query parameter `blocked` is
absent, true or false, and the repository is asked with `blocked or False`, a flag that is on or
off. `getLogs_iff` says when the answer is still the newest rows that the parameter asks for: always
when it is absent or true, and for `blocked=false` exactly when no blocked row is among the newest
rows of the whole table.

What the parameter asks for is stated with `Latest` of the library, as the newest rows of a filtered
table, and the creation times are taken to differ, since only then is there one answer.
-/

namespace RateGuardian

open Lib LogRepository

/-- `get_logs`; `none` is the validation error for a limit that is out of range. -/
def getLogs (t : LogTable) (blocked : Option Bool) (limit : ℤ) : Option (List RequestLog) :=
  if 1 ≤ limit ∧ limit ≤ 500 then some (getRecent t limit.toNat (blocked.getD false)) else none

/-- The rows that the parameter asks for: all of them, the blocked ones, or the others. -/
def asked (blocked : Option Bool) (rows : List RequestLog) : List RequestLog :=
  match blocked with
  | some flag => rows.filter fun row => row.blocked = flag
  | none => rows

/-- The answer holds, newest first, the newest of the rows asked for, up to the limit. -/
def MeansWhatItSays (t : LogTable) (blocked : Option Bool) (limit : ℤ) : Prop :=
  ∃ rows, getLogs t blocked limit = some rows ∧
    Latest RequestLog.createdAt limit.toNat (asked blocked t.rows) rows

section Filter

variable {t : LogTable} {limit : ℤ}

theorem getLogs_of_valid (hlimit : 1 ≤ limit ∧ limit ≤ 500) (blocked : Option Bool) :
    getLogs t blocked limit = some (getRecent t limit.toNat (blocked.getD false)) :=
  if_pos hlimit

theorem latest_of_asked (hdistinct : (t.rows.map RequestLog.createdAt).Nodup)
    (blocked : Option Bool) (n : ℕ) :
    Latest RequestLog.createdAt n (asked blocked t.rows)
      ((latestFirst RequestLog.createdAt (asked blocked t.rows)).take n) := by
  apply latest_take
  cases blocked with
  | none => exact hdistinct
  | some flag => exact hdistinct.sublist (List.filter_sublist.map _)

/-- A row is among the newest of the table if fewer than `limit` rows are newer. -/
theorem mem_getRecent_false (hdistinct : (t.rows.map RequestLog.createdAt).Nodup)
    {row : RequestLog} (hrow : row ∈ t.rows) (n : ℕ) :
    row ∈ getRecent t n false ↔ t.rows.countP (fun r => row.createdAt < r.createdAt) < n :=
  mem_take_latestFirst_iff hdistinct n hrow

/-- For `blocked=false` the whole table is asked for: that is right as long as what it yields
holds no blocked row. -/
theorem latest_unblocked_iff (hdistinct : (t.rows.map RequestLog.createdAt).Nodup) (n : ℕ) :
    Latest RequestLog.createdAt n (asked (some false) t.rows) (getRecent t n false) ↔
      ∀ row ∈ getRecent t n false, row.blocked = false := by
  constructor
  · intro h row hrow
    simpa [asked] using (List.mem_filter.mp (h.mem row hrow)).2
  · intro hnone
    have hall : Latest RequestLog.createdAt n t.rows (getRecent t n false) :=
      latest_take hdistinct n
    have hmem : ∀ row ∈ getRecent t n false, row ∈ asked (some false) t.rows := by
      intro row hrow
      exact List.mem_filter.mpr ⟨hall.mem row hrow, by simp [hnone row hrow]⟩
    have hless : (asked (some false) t.rows).length ≤ t.rows.length := List.length_filter_le _ _
    have hmost : (getRecent t n false).length ≤ (asked (some false) t.rows).length := by
      have hnodup : (getRecent t n false).Nodup :=
        hall.sorted.imp fun hlt heq => absurd (heq ▸ hlt) (lt_irrefl _)
      exact (hnodup.subperm hmem).length_le
    have hlength := hall.length
    refine ⟨hmem, by omega, hall.sorted, ?_⟩
    intro row hrow hout
    exact hall.latest row (List.mem_filter.mp hrow).1 hout

/-- **What the filter means.** For creation times that differ and a limit in range, `/logs` answers
with the newest of the rows that the parameter asks for, if and only if it does not ask for those
that were not blocked or every blocked row has at least `limit` newer rows. -/
theorem getLogs_iff (t : LogTable) (hdistinct : (t.rows.map RequestLog.createdAt).Nodup)
    (blocked : Option Bool) (hlimit : 1 ≤ limit ∧ limit ≤ 500) :
    MeansWhatItSays t blocked limit ↔
      (blocked = some false → ∀ row ∈ t.rows, row.blocked = true →
        limit ≤ t.rows.countP fun r => row.createdAt < r.createdAt) := by
  have hanswer : MeansWhatItSays t blocked limit ↔ Latest RequestLog.createdAt limit.toNat
      (asked blocked t.rows) (getRecent t limit.toNat (blocked.getD false)) := by
    simp [MeansWhatItSays, getLogs_of_valid hlimit]
  rw [hanswer]
  cases blocked with
  | none => exact iff_of_true (latest_of_asked hdistinct none _) nofun
  | some flag =>
      cases flag with
      | true =>
          have hsame : getRecent t limit.toNat true =
              (latestFirst RequestLog.createdAt (asked (some true) t.rows)).take limit.toNat := by
            simp [getRecent, asked]
          refine iff_of_true ?_ nofun
          rw [Option.getD_some, hsame]
          exact latest_of_asked hdistinct (some true) _
      | false =>
          rw [Option.getD_some, latest_unblocked_iff hdistinct]
          constructor
          · intro h _ row hrow hblocked
            by_contra hfew
            have hin := (mem_getRecent_false hdistinct hrow limit.toNat).mpr (by omega)
            rw [h row hin] at hblocked
            cases hblocked
          · intro h row hin
            have hrow := (latest_take hdistinct limit.toNat).mem row hin
            have hfew := (mem_getRecent_false hdistinct hrow limit.toNat).mp hin
            by_contra hblocked
            have hmany := h rfl row hrow (by simpa using hblocked)
            omega

end Filter

/-- One request that was let through at 1, and one that was blocked at 2. -/
def oneOfEach : LogTable :=
  (LogTable.empty.insert ⟨"10.0.0.1", "GET", "/a", "a.test", 200, 5, false, none⟩ 1).insert
    ⟨"10.0.0.1", "GET", "/a", "a.test", 429, 1, true, some "rate_limit"⟩ 2

/-- `/logs?blocked=false&limit=1` answers with the blocked one. -/
theorem getLogs_unblocked :
    ¬ MeansWhatItSays oneOfEach (some false) 1 ∧
      (getLogs oneOfEach (some false) 1).map (fun rows => rows.map fun row => row.blocked) =
        some [true] := by
  refine ⟨?_, by decide +kernel⟩
  intro h
  obtain ⟨rows, hrows, hlatest⟩ := h
  have hblocked : ∃ row ∈ (getLogs oneOfEach (some false) 1).getD [], row.blocked = true := by
    decide +kernel
  rw [hrows] at hblocked
  obtain ⟨row, hrow, hrowBlocked⟩ := hblocked
  have hfilter := (List.mem_filter.mp (hlatest.mem row hrow)).2
  rw [hrowBlocked] at hfilter
  cases hfilter

/-- `/logs?blocked=true` answers with the blocked one, and rightly so. -/
theorem getLogs_blocked : MeansWhatItSays oneOfEach (some true) 1 :=
  (getLogs_iff oneOfEach (by decide +kernel) (some true) (by decide)).mpr nofun

end RateGuardian
