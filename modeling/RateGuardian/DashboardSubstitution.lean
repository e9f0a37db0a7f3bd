import RateGuardian.RenderDashboard
import Mathlib.Data.Bool.AllAny
import Mathlib.Data.Nat.Factorial.Basic

/-!
# RateGuardian.DashboardSubstitution

**Whether `render_dashboard` substitutes simultaneously.** It replaces the eight placeholders one
after the other, each by `str.replace` on the whole page, so a value that has a placeholder in it is
filled in like the page itself.

The gauge and the numbers are written without a brace, and nothing is replaced after the table of
top clients. So what came in with a value is read again in one place only: in the log rows, by the
replacement of `TOP_IP_ROWS` (`renderDashboard_eq`). Escaping does not touch braces, and the page is
the simultaneous substitution exactly when no log carries that placeholder
(`renderDashboard_eq_iff`).

What a log carries is a matter of its fields: the placeholder stands in one of the texts of its row,
as the row shows it, with long paths and hosts cut off. That none can arise across two fields or at
the edge of one is because the markup between them has a character that no placeholder has.
-/

namespace RateGuardian

open Lib

/-! ### Texts without a brace -/

def Plain (s : String) : Prop := '\x7b' ∉ s.toList

section Plain

variable {s t : String}

/-- A literal is checked by its characters, which an evaluation does faster than on the string. -/
theorem plain_ofList (l : List Char) (h : '\x7b' ∉ l) : Plain (String.ofList l) := by
  rwa [Plain, String.toList_ofList]

@[simp] theorem plain_append : Plain (s ++ t) ↔ Plain s ∧ Plain t := by
  simp [Plain]

theorem Plain.quiet (h : Plain s) : quiet marks.opening s.toList = true := quiet_of_notMem h

theorem plain_repr (n : ℕ) : Plain n.repr := notMem_repr (by decide) n

theorem plain_int_repr (n : ℤ) : Plain n.repr := notMem_int_repr (by decide) (by decide) n

theorem plain_fixed (digits : ℕ) (x : ℚ) : Plain (fixed digits x) :=
  notMem_fixed (by decide) (by decide) (by decide) digits x

theorem plain_clock (t : Time) : Plain (clock t) := notMem_clock (by decide) (by decide) t

variable (py : Python)

theorem plain_needleColor (pct : ℚ) : Plain (needleColor pct) := by
  rw [needleColor]
  split
  · exact plain_ofList _ (by decide)
  · split <;> exact plain_ofList _ (by decide)

theorem plain_arcPath (startPct endPct : ℚ) {color : String} (h : Plain color) :
    Plain (arcPath py startPct endPct color) := by
  unfold arcPath
  extract_lets r sa ea x1 y1 x2 y2 large
  simp only [plain_append, plain_fixed, plain_repr, h, and_true]
  and_intros <;> exact plain_ofList _ (by decide)

set_option maxRecDepth 4000 in
theorem plain_gaugeSvg (saturationPct : ℚ) : Plain (gaugeSvg py saturationPct) := by
  have hgreen : Plain "#0a8f00" := plain_ofList _ (by decide)
  have hyellow : Plain "#806600" := plain_ofList _ (by decide)
  have hred : Plain "#802222" := plain_ofList _ (by decide)
  unfold gaugeSvg
  extract_lets pct angle rad nx ny
  simp only [plain_append, plain_fixed, plain_needleColor, plain_arcPath, hgreen, hyellow, hred,
    and_true]
  and_intros <;> exact plain_ofList _ (by decide +kernel)

end Plain

/-! ### Texts that end in a tag -/

section Closed

/-- The text ends in the end of a tag, after which a new placeholder may begin. -/
def Closed (s : String) : Prop := ∃ t, s = t ++ ">"

theorem Closed.append {s : String} (h : Closed s) (t : String) : Closed (t ++ s) := by
  obtain ⟨s', rfl⟩ := h
  exact ⟨t ++ s', by rw [String.append_assoc]⟩

theorem Closed.settled {s : String} (h : Closed s) : Settled marks s.toList := by
  obtain ⟨t, rfl⟩ := h
  rw [String.toList_append]
  exact Or.inr ⟨t.toList, '>', rfl, by decide⟩

theorem closed_join {rows : List String} (hne : rows ≠ []) (h : ∀ row ∈ rows, Closed row) :
    Closed (String.join rows) := by
  induction rows with
  | nil => exact absurd rfl hne
  | cons row rows ih =>
      rw [String.join_cons]
      by_cases hnil : rows = []
      · rw [hnil, String.join_nil, String.append_empty]
        exact h row List.mem_cons_self
      · exact (ih hnil fun r hr => h r (List.mem_cons_of_mem _ hr)).append row

theorem closed_logRow (py : Python) (r : RequestLog) : Closed (logRow py r) :=
  Closed.append ⟨"</tr", rfl⟩ _

theorem closed_topIpRow (entry : TopIp) : Closed (topIpRow entry) :=
  Closed.append ⟨"</tr", rfl⟩ _

theorem closed_logRows (py : Python) (recent : List RequestLog) : Closed (logRows py recent) := by
  rw [logRows]
  split
  · exact ⟨"<tr><td colspan=\"6\" style=\"color:var(--dim)\">NO REQUESTS YET</td></tr", rfl⟩
  · exact closed_join (by simpa) (List.forall_mem_map.mpr fun r _ => closed_logRow py r)

theorem closed_topIpRows (topIps : List TopIp) : Closed (topIpRows topIps) := by
  rw [topIpRows]
  split
  · exact ⟨"<tr><td colspan=\"2\" style=\"color:var(--dim)\">NO DATA</td></tr", rfl⟩
  · exact closed_join (by simpa) (List.forall_mem_map.mpr fun entry _ => closed_topIpRow entry)

end Closed

/-! ### Where a placeholder can come in -/

section Occurrences

variable {p : Placeholder} {s t : String}

theorem not_strIn_of_plain (h : Plain s) : ¬ StrIn p.mark s := by
  have hbrace : '\x7b' ∈ p.mark.toList := by
    rw [toList_mark]
    exact List.mem_cons_self
  exact not_infix_of_notMem hbrace h

/-- A literal of the renderers, in characters that no placeholder has. -/
theorem strIn_literal_append {lit : List Char} (hlit : lit.all fun c => marks.Separator c) :
    StrIn p.mark (String.ofList lit ++ t) ↔ StrIn p.mark t := by
  simp only [StrIn, String.toList_append, String.toList_ofList, toList_mark]
  exact infix_literal_append fun c hc => (List.all_iff_forall_prop.mp hlit c hc).notMem p

theorem strIn_append_literal {lit : List Char} (hne : lit ≠ [])
    (hlit : lit.all fun c => marks.Separator c) :
    StrIn p.mark (s ++ (String.ofList lit ++ t)) ↔ StrIn p.mark s ∨ StrIn p.mark t := by
  simp only [StrIn, String.toList_append, String.toList_ofList, toList_mark]
  exact infix_append_literal hne fun c hc => (List.all_iff_forall_prop.mp hlit c hc).notMem p

/-- No placeholder has a character that is escaped, or one of those it becomes. -/
theorem strIn_escape : StrIn p.mark (escape s) ↔ StrIn p.mark s := by
  have hcode : ∀ (c : Char) (code : List Char),
      (marks.Separator c ∧ code ≠ [] ∧ code.all fun d => marks.Separator d) →
      (String.ofList code).toList = [c] ∨
        (c ∉ p.mark.toList ∧ (String.ofList code).toList ≠ [] ∧
          ∀ d ∈ (String.ofList code).toList, d ∉ p.mark.toList) := by
    intro c code ⟨hc, hne, hsep⟩
    rw [toList_mark, String.toList_ofList]
    exact Or.inr ⟨hc.notMem p, hne, fun d hd => (List.all_iff_forall_prop.mp hsep d hd).notMem p⟩
  rw [StrIn, escape, String.toList_join, List.flatMap_map]
  refine infix_flatMap fun c => ?_
  unfold escapeChar
  split_ifs with hamp hlt hgt hquot hapos
  case neg => exact Or.inl (String.toList_singleton c)
  all_goals
    subst c
    exact hcode _ _ (by decide)

/-- A text between two literals has a placeholder only inside. -/
theorem strIn_cell {pre post : List Char} (hpre : pre.all fun c => marks.Separator c)
    (hne : post ≠ []) (hpost : post.all fun c => marks.Separator c) :
    StrIn p.mark (String.ofList pre ++ (s ++ (String.ofList post ++ t))) ↔
      StrIn p.mark s ∨ StrIn p.mark t := by
  rw [strIn_literal_append hpre, strIn_append_literal hne hpost]

/-- No placeholder runs over the end of a tag, so two texts have only those of each. -/
theorem Closed.strIn_append (h : Closed s) :
    StrIn p.mark (s ++ t) ↔ StrIn p.mark s ∨ StrIn p.mark t := by
  obtain ⟨u, rfl⟩ := h
  have hnone : ¬ StrIn p.mark "" := not_strIn_of_plain (plain_ofList _ (by decide))
  have hself : StrIn p.mark (u ++ (">" ++ "")) ↔ StrIn p.mark u ∨ StrIn p.mark "" :=
    strIn_append_literal (by decide) (by decide)
  rw [String.append_empty, or_iff_left hnone] at hself
  rw [hself, String.append_assoc, strIn_append_literal]
  all_goals decide

/-- The log carries the placeholder into its row: one of the texts that the row shows has it. -/
def Carries (py : Python) (p : Placeholder) (r : RequestLog) : Prop :=
  StrIn p.mark r.method ∨ StrIn p.mark (strUpTo 60 r.path) ∨
    ∃ reason ∈ r.blockedBy, reason ≠ "" ∧ StrIn p.mark (py.upper reason)

theorem strIn_blockedLabel (py : Python) (r : RequestLog) : StrIn p.mark (blockedLabel py r) ↔
    ∃ reason ∈ r.blockedBy, reason ≠ "" ∧ StrIn p.mark (py.upper reason) := by
  have hok : ¬ StrIn p.mark "[OK]" := not_strIn_of_plain (plain_ofList _ (by decide))
  have hend : ¬ StrIn p.mark "" := not_strIn_of_plain (plain_ofList _ (by decide))
  unfold blockedLabel
  cases r.blockedBy with
  | none => simp [hok]
  | some reason =>
      by_cases hempty : reason = ""
      · simp [hempty, hok]
      · have hlabel : "[" ++ py.upper reason ++ "]" = "[" ++ (py.upper reason ++ ("]" ++ "")) := by
          rw [String.append_empty, String.append_assoc]
        simp only [if_false, hlabel, Option.mem_some_iff, exists_eq_left', hempty, ne_eq,
          not_false_eq_true, true_and]
        rw [strIn_cell, or_iff_left hend]
        all_goals decide

theorem strIn_logRow (py : Python) (r : RequestLog) :
    StrIn p.mark (logRow py r) ↔ Carries py p r := by
  unfold logRow
  extract_lets blockedStyle
  have hstyle : ¬ StrIn p.mark blockedStyle := by
    refine not_strIn_of_plain ?_
    unfold blockedStyle
    split <;> exact plain_ofList _ (by decide)
  have hclock : ¬ StrIn p.mark (clock r.createdAt) := not_strIn_of_plain (plain_clock _)
  have hstatus : ¬ StrIn p.mark r.statusCode.repr := not_strIn_of_plain (plain_repr _)
  have hlatency : ¬ StrIn p.mark (fixed 0 r.latencyMs) := not_strIn_of_plain (plain_fixed _ _)
  have hend : ¬ StrIn p.mark "</tr>" := not_strIn_of_plain (plain_ofList _ (by decide))
  simp only [String.append_assoc]
  rw [strIn_literal_append, strIn_cell, strIn_cell, strIn_cell, strIn_cell, strIn_cell, strIn_cell,
    strIn_append_literal]
  · simp only [hclock, strIn_escape, hstatus, hlatency, hstyle, strIn_blockedLabel, hend, Carries,
      false_or, or_false]
  all_goals decide

theorem strIn_join {rows : List String} (h : ∀ row ∈ rows, Closed row) :
    StrIn p.mark (String.join rows) ↔ ∃ row ∈ rows, StrIn p.mark row := by
  induction rows with
  | nil =>
      have hnone : ¬ StrIn p.mark "" := not_strIn_of_plain (plain_ofList _ (by decide))
      simp [hnone]
  | cons row rows ih =>
      rw [String.join_cons, (h row List.mem_cons_self).strIn_append,
        ih fun r hr => h r (List.mem_cons_of_mem _ hr), List.exists_mem_cons_iff]

theorem strIn_logRows (py : Python) (recent : List RequestLog) :
    StrIn p.mark (logRows py recent) ↔ ∃ r ∈ recent, Carries py p r := by
  by_cases hempty : recent = []
  · have hnone : Plain (logRows py []) := plain_ofList _ (by decide)
    simp [hempty, not_strIn_of_plain hnone]
  · have hclosed : ∀ row ∈ recent.map (logRow py), Closed row :=
      List.forall_mem_map.mpr fun r _ => closed_logRow py r
    rw [logRows, if_neg hempty, strIn_join hclosed]
    simp only [List.mem_map, exists_exists_and_eq_and, strIn_logRow]

end Occurrences

/-! ### The replacements -/

section Replacements

variable (py : Python) (stats : LogStats) (topIps : List TopIp) (recent : List RequestLog)
  (saturationPct : ℚ)

/-- The placeholders in the order in which they are replaced. -/
def replacementOrder : List Placeholder :=
  [.gaugeSvg, .total, .allowed, .blocked, .avgLat, .satPct, .logRows, .topIpRows]

theorem plain_values {p : Placeholder} (hlogs : p ≠ .logRows) (hips : p ≠ .topIpRows) :
    Plain (renderedValues py stats topIps recent saturationPct p) := by
  cases p with
  | gaugeSvg => exact plain_gaugeSvg py saturationPct
  | total => exact plain_repr _
  | allowed => exact plain_int_repr _
  | blocked => exact plain_repr _
  | avgLat => exact py.brace_notMem_str _
  | satPct => exact py.brace_notMem_str _
  | logRows => exact absurd rfl hlogs
  | topIpRows => exact absurd rfl hips

theorem settled_values (p : Placeholder) :
    Settled marks (renderedValues py stats topIps recent saturationPct p).toList := by
  by_cases hlogs : p = .logRows
  · subst hlogs
    exact (closed_logRows py recent).settled
  · by_cases hips : p = .topIpRows
    · subst hips
      exact (closed_topIpRows topIps).settled
    · exact Or.inl (plain_values py stats topIps recent saturationPct hlogs hips).quiet

theorem toList_renderDashboard :
    (renderDashboard py stats topIps recent saturationPct).toList =
      inTurn marks (fun p => (renderedValues py stats topIps recent saturationPct p).toList)
        replacementOrder (source marks dashboardTemplate) := by
  rw [← toList_dashboardHtml, renderDashboard]
  generalize dashboardHtml = page
  rw [replacementOrder]
  simp only [strReplace, String.toList_ofList, toList_mark, inTurn_cons, inTurn_nil, renderedValues]

open DashboardHtml in
theorem toList_pageWith (v : Placeholder → String) :
    (pageWith v).toList = fill (fun p => (v p).toList) dashboardTemplate := by
  simp only [pageWith, String.toList_append, List.append_assoc, dashboardTemplate, fill_text,
    fill_hole, fill_nil, List.append_nil]

/-- Only the log rows are replaced in once more. Everything else is as in a simultaneous
substitution. -/
theorem renderDashboard_eq : renderDashboard py stats topIps recent saturationPct =
    pageWith (Function.update (renderedValues py stats topIps recent saturationPct) .logRows
      (strReplace (logRows py recent) Placeholder.topIpRows.mark (topIpRows topIps))) := by
  have hholes : ∀ p, Piece.hole p ∈ dashboardTemplate → p ∈ replacementOrder := by
    intro p _
    cases p <;> simp [replacementOrder]
  rw [← String.toList_inj, toList_renderDashboard, toList_pageWith,
    inTurn_source (fun p _ => settled_values py stats topIps recent saturationPct p)
      quiet_of_text hholes]
  congr 1
  funext p
  by_cases hlogs : p = .logRows
  · subst hlogs
    have hlater : after Placeholder.logRows replacementOrder = [.topIpRows] := rfl
    rw [hlater, inTurn_cons, inTurn_nil, Function.update_self, strReplace, String.toList_ofList,
      toList_mark]
    rfl
  · rw [Function.update_of_ne hlogs]
    by_cases hips : p = .topIpRows
    · subst hips
      rfl
    · exact inTurn_of_quiet (plain_values py stats topIps recent saturationPct hlogs hips).quiet _

/-- The page shows the log rows it is given, so pages with other rows differ. -/
theorem pageWith_update_eq_iff {v : Placeholder → String} {rows : String} :
    pageWith (Function.update v .logRows rows) = pageWith v ↔ rows = v .logRows := by
  rw [← String.toList_inj, toList_pageWith, toList_pageWith, ← String.toList_inj]
  simp only [dashboardTemplate, fill_text, fill_hole, fill_nil, ne_eq, reduceCtorEq,
    not_false_eq_true, Function.update_of_ne, Function.update_self, List.append_right_inj,
    List.append_left_inj]

/-- The table of top clients is longer than its placeholder, so replacing it changes a text that has
it. -/
theorem length_lt_topIpRows :
    (marks.mark .topIpRows).length < (topIpRows topIps).toList.length := by
  have hmark : (marks.mark .topIpRows).length = 15 := by decide
  have hlit : ∀ l : List Char, 15 < l.length → 15 < (String.ofList l).toList.length := by
    intro l hl
    rwa [String.toList_ofList]
  rw [hmark]
  cases topIps with
  | nil => exact hlit _ (by decide)
  | cons entry topIps =>
      have hcell : 15 < "<td style=\"color:var(--bright)\">".toList.length := hlit _ (by decide)
      rw [topIpRows, if_neg (List.cons_ne_nil _ _), List.map_cons, String.join_cons, topIpRow]
      simp only [String.toList_append, List.length_append]
      omega

theorem renderDashboard_eq_iff_logRows :
    renderDashboard py stats topIps recent saturationPct =
        pageWith (renderedValues py stats topIps recent saturationPct) ↔
      ¬ StrIn Placeholder.topIpRows.mark (logRows py recent) := by
  rw [renderDashboard_eq, pageWith_update_eq_iff, ← String.toList_inj, strReplace,
    String.toList_ofList, StrIn, toList_mark]
  exact replaceAll_eq_self_iff Marks.mark_ne_nil (length_lt_topIpRows topIps)

/-- `render_dashboard` substitutes simultaneously exactly when no log carries the placeholder that
is replaced after the log rows. -/
theorem renderDashboard_eq_iff :
    renderDashboard py stats topIps recent saturationPct =
        pageWith (renderedValues py stats topIps recent saturationPct) ↔
      ∀ r ∈ recent, ¬ Carries py .topIpRows r := by
  rw [renderDashboard_eq_iff_logRows, strIn_logRows]
  simp only [not_exists, not_and]

end Replacements

/-! ### A path with a placeholder -/

/-- `math` by series, up to the decimals that are printed, and floats of one decimal. -/
def seriesPython : Python where
  radians x := x * (355 / 113) / 180
  cos x := ((List.range 12).map fun k => (-1) ^ k * x ^ (2 * k) / (2 * k).factorial).sum
  sin x := ((List.range 12).map fun k => (-1) ^ k * x ^ (2 * k + 1) / (2 * k + 1).factorial).sum
  upper := String.toUpper
  str := fixed 1
  brace_notMem_str := plain_fixed 1

def bracedLog : RequestLog where
  clientIp := "203.0.113.9"
  method := "GET"
  path := "/proxy/https://a.example/\x7b\x7bTOP_IP_ROWS\x7d\x7d"
  upstream := "https://a.example"
  statusCode := 404
  latencyMs := 25 / 2
  blocked := false
  blockedBy := none
  id := 1
  createdAt := 0

def bracedStats : LogStats where
  totalRequests := 1
  blockedRequests := 0
  allowedRequests := 1
  avgLatencyMs := 25 / 2
  windowMinutes := 5

/-- The table of top clients is written into the path of the log: the page is not the simultaneous
substitution. -/
theorem path_substituted :
    renderDashboard seriesPython bracedStats [⟨"203.0.113.9", 1⟩] [bracedLog] 0 ≠
      pageWith (renderedValues seriesPython bracedStats [⟨"203.0.113.9", 1⟩] [bracedLog] 0) := by
  have hpath : StrIn Placeholder.topIpRows.mark (strUpTo 60 bracedLog.path) := by decide +kernel
  rw [Ne, renderDashboard_eq_iff_logRows, strIn_logRows, not_not]
  exact ⟨bracedLog, List.mem_singleton_self _, Or.inr (Or.inl hpath)⟩

end RateGuardian
