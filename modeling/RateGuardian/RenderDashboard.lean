import RateGuardian.DashboardHtml
import RateGuardian.LogRepository

/-!
# RateGuardian.RenderDashboard

**The renderers** of `app/views/templates/dashboard.py`: the gauge, the tables of logs and of
clients, and the page that they are put into.

`render_dashboard` replaces the placeholders one after the other, each in the whole page, so a
placeholder that came in with a value is replaced as well when its turn comes later. What the page
is to be is `pageWith`: the fixed segments of the template with a text between each two of them, and
no replacing at all.

The page is built from Python's own functions for strings and numbers. Those whose behaviour the
results depend on are defined here: `str.replace`, slicing, `html.escape` and the number formats.
The others are the fields of `Python`, about which no more is known than is said there.
-/

namespace RateGuardian

open Lib

/-! ### Python's strings

A string is its list of characters, as in Python, where a position counts code points and not bytes.
The numbers come with lemmas about the characters that they are not written with. -/

/-- `s.replace(old, new)`, for an `old` that is not empty: the occurrences are found from the left
and do not overlap. -/
def strReplace (s old new : String) : String :=
  String.ofList (replaceAll old.toList new.toList s.toList)

/-- `sub in s`, for strings: the characters of `sub` stand in `s`, next to each other. -/
def StrIn (sub s : String) : Prop := sub.toList <:+: s.toList

instance (sub s : String) : Decidable (StrIn sub s) :=
  inferInstanceAs (Decidable (sub.toList <:+: s.toList))

/-- `s[:n]`, the first `n` characters, or all if there are fewer. -/
def strUpTo (n : ℕ) (s : String) : String := String.ofList (s.toList.take n)

def zfill (width : ℕ) (s : String) : String :=
  String.ofList (List.replicate (width - s.length) '0') ++ s

/-- A number in the format `.{digits}f`, rounded to the nearest, and to the even digit in
between. -/
def fixed (digits : ℕ) (x : ℚ) : String :=
  let n := (roundHalfEven (|x| * 10 ^ digits)).toNat
  (if x < 0 then "-" else "") ++ (n / 10 ^ digits).repr ++
    if digits = 0 then "" else "." ++ zfill digits (n % 10 ^ digits).repr

/-- `strftime("%H:%M:%S")` of a time in UTC. The fraction of a second is dropped. -/
def clock (t : Time) : String :=
  let s := (⌊t⌋ % 86400).toNat
  zfill 2 (s / 3600).repr ++ ":" ++ zfill 2 (s / 60 % 60).repr ++ ":" ++ zfill 2 (s % 60).repr

def escapeChar (c : Char) : String :=
  if c = '&' then "&amp;"
  else if c = '<' then "&lt;"
  else if c = '>' then "&gt;"
  else if c = '"' then "&quot;"
  else if c = '\'' then "&#x27;"
  else String.singleton c

/-- `html.escape` with its default `quote=True`, which also replaces both quotation marks. -/
def escape (s : String) : String := String.join (s.toList.map escapeChar)

section Printed

variable {c : Char}

/-- A natural number is written in digits only. -/
theorem notMem_repr (hc : c.isDigit = false) (n : ℕ) : c ∉ n.repr.toList := by
  intro hmem
  rw [Nat.toList_repr] at hmem
  have hdigit : c.isDigit = true := Nat.isDigit_of_mem_toDigits (by decide) (by decide) hmem
  exact Bool.false_ne_true (hc.symm.trans hdigit)

theorem notMem_int_repr (hc : c.isDigit = false) (hminus : c ≠ '-') (n : ℤ) :
    c ∉ n.repr.toList := by
  rw [Int.repr_eq_if]
  split
  · exact notMem_repr hc _
  · rw [String.toList_append, List.mem_append, not_or]
    exact ⟨List.not_mem_cons_of_ne_of_not_mem hminus List.not_mem_nil, notMem_repr hc _⟩

theorem notMem_zfill (hc : c.isDigit = false) (width : ℕ) {s : String} (hs : c ∉ s.toList) :
    c ∉ (zfill width s).toList := by
  rw [zfill, String.toList_append, String.toList_ofList, List.mem_append, not_or]
  refine ⟨fun hmem => ?_, hs⟩
  rw [List.eq_of_mem_replicate hmem] at hc
  exact absurd hc (by decide)

theorem notMem_fixed (hc : c.isDigit = false) (hminus : c ≠ '-') (hpoint : c ≠ '.') (digits : ℕ)
    (x : ℚ) : c ∉ (fixed digits x).toList := by
  have hsign : c ∉ (if x < 0 then "-" else "").toList := by
    split
    · exact List.not_mem_cons_of_ne_of_not_mem hminus List.not_mem_nil
    · exact List.not_mem_nil
  have hdot : c ∉ ".".toList := List.not_mem_cons_of_ne_of_not_mem hpoint List.not_mem_nil
  rw [fixed]
  simp only [String.toList_append, List.mem_append, not_or]
  refine ⟨⟨hsign, notMem_repr hc _⟩, ?_⟩
  split
  · exact List.not_mem_nil
  · rw [String.toList_append, List.mem_append, not_or]
    exact ⟨hdot, notMem_zfill hc _ (notMem_repr hc _)⟩

theorem notMem_clock (hc : c.isDigit = false) (hcolon : c ≠ ':') (t : Time) :
    c ∉ (clock t).toList := by
  have hsep : c ∉ ":".toList := List.not_mem_cons_of_ne_of_not_mem hcolon List.not_mem_nil
  have htwo : ∀ n : ℕ, c ∉ (zfill 2 n.repr).toList := fun n => notMem_zfill hc 2 (notMem_repr hc n)
  simp only [clock, String.toList_append, List.mem_append, not_or]
  exact ⟨⟨⟨⟨htwo _, hsep⟩, htwo _⟩, hsep⟩, htwo _⟩

end Printed

/-- The rest of Python's library that the page is rendered with: `math`, `str.upper`, and `str` of
a float, which writes no brace. -/
structure Python where
  radians : ℚ → ℚ
  cos : ℚ → ℚ
  sin : ℚ → ℚ
  upper : String → String
  str : ℚ → String
  brace_notMem_str : ∀ x, '\x7b' ∉ (str x).toList

section Renderers

variable (py : Python)

/-! ### The gauge

The `svg` that shows the saturation. It is the same text for any percentage but for the numbers and
the colour of the needle. -/

/-- `arc_path`: the arc of one coloured zone, from a percentage to another. -/
def arcPath (startPct endPct : ℚ) (color : String) : String :=
  let r : ℕ := 80
  let sa := py.radians (-180 + startPct * 1.8)
  let ea := py.radians (-180 + endPct * 1.8)
  let x1 := 120 + r * py.cos sa
  let y1 := 110 + r * py.sin sa
  let x2 := 120 + r * py.cos ea
  let y2 := 110 + r * py.sin ea
  let large : ℕ := if 50 < endPct - startPct then 1 else 0
  "<path d=\"M " ++ fixed 1 x1 ++ " " ++ fixed 1 y1 ++ " A " ++ r.repr ++ " " ++ r.repr ++ " 0 " ++
    large.repr ++ " 1 " ++ fixed 1 x2 ++ " " ++ fixed 1 y2 ++ "\"" ++
    " stroke=\"" ++ color ++ "\" stroke-width=\"10\" fill=\"none\" stroke-linecap=\"round\"/>"

def needleColor (pct : ℚ) : String :=
  if pct < 50 then "#15ff00" else if pct < 80 then "#ffcc00" else "#ff4444"

/-- `_gauge_svg`. The needle stays between 0 and 100, also for a percentage that does not. -/
def gaugeSvg (saturationPct : ℚ) : String :=
  let pct := max 0 (min 100 saturationPct)
  let angle := -180 + pct / 100 * 180
  let rad := py.radians angle
  let nx := 120 + 80 * py.cos rad
  let ny := 110 + 80 * py.sin rad
  "
<svg width=\"240\" height=\"130\" viewBox=\"0 0 240 130\" xmlns=\"http://www.w3.org/2000/svg\"
     style=\"display:block;margin:0 auto;\">
  <!-- Track background -->
  <path d=\"M 40 110 A 80 80 0 0 1 200 110\"
        stroke=\"#0a2200\" stroke-width=\"12\" fill=\"none\" stroke-linecap=\"round\"/>
  <!-- Colored zones -->
  " ++ arcPath py 0 50 "#0a8f00" ++ "
  " ++ arcPath py 50 80 "#806600" ++ "
  " ++ arcPath py 80 100 "#802222" ++ "
  <!-- Needle -->
  <line x1=\"120\" y1=\"110\"
        x2=\"" ++ fixed 1 nx ++ "\" y2=\"" ++ fixed 1 ny ++ "\"
        stroke=\"" ++ needleColor pct ++ "\" stroke-width=\"2.5\" stroke-linecap=\"round\"
        style=\"filter:drop-shadow(0 0 4px " ++ needleColor pct ++ ")\"/>
  <!-- Pivot -->
  <circle cx=\"120\" cy=\"110\" r=\"5\" fill=\"" ++ needleColor pct ++ "\"
          style=\"filter:drop-shadow(0 0 6px " ++ needleColor pct ++ ")\"/>
  <!-- Labels -->
  <text x=\"32\"  y=\"126\" fill=\"#0a8f00\" font-family=\"monospace\" font-size=\"9\">0%</text>
  <text x=\"108\" y=\"24\"  fill=\"#0a8f00\" font-family=\"monospace\" font-size=\"9\">50%</text>
  <text x=\"196\" y=\"126\" fill=\"#802222\" font-family=\"monospace\" font-size=\"9\">100%</text>
  <!-- Value -->
  <text x=\"120\" y=\"108\" fill=\"" ++ needleColor pct ++ "\" font-family=\"monospace\" " ++
    "font-size=\"13\"
        text-anchor=\"middle\" style=\"filter:drop-shadow(0 0 4px " ++ needleColor pct ++ ")\">
    " ++ fixed 1 pct ++ "%
  </text>
</svg>"

/-! ### The tables

A row escapes the texts that come from a request, and writes the label of the reason as it is. -/

/-- The text of the last column: `[OK]`, or the reason in upper case. An empty reason is falsy in
Python, so it counts as none. -/
def blockedLabel (r : RequestLog) : String :=
  match r.blockedBy with
  | some reason => if reason = "" then "[OK]" else "[" ++ py.upper reason ++ "]"
  | none => "[OK]"

/-- The row of `_log_rows` for one log. The path is cut to sixty characters before it is escaped. -/
def logRow (r : RequestLog) : String :=
  let blockedStyle := if r.blocked then "color:var(--red)" else "color:var(--green)"
  "<tr>" ++
  "<td style=\"color:var(--dim)\">" ++ clock r.createdAt ++ "</td>" ++
  "<td style=\"color:var(--bright)\">" ++ escape r.method ++ "</td>" ++
  "<td class=\"mono-overflow\">" ++ escape (strUpTo 60 r.path) ++ "</td>" ++
  "<td>" ++ r.statusCode.repr ++ "</td>" ++
  "<td style=\"color:var(--dim)\">" ++ fixed 0 r.latencyMs ++ "ms</td>" ++
  "<td style=\"" ++ blockedStyle ++ "\">" ++ blockedLabel py r ++ "</td>" ++
  "</tr>"

/-- `_log_rows`, with one row to say so where there are no logs. -/
def logRows (recent : List RequestLog) : String :=
  if recent = [] then "<tr><td colspan=\"6\" style=\"color:var(--dim)\">NO REQUESTS YET</td></tr>"
  else String.join (recent.map (logRow py))

/-- An entry of what `top_ips` returns: an address, and the number of its requests. -/
structure TopIp where
  ip : String
  count : ℕ

/-- The row of `_top_ip_rows` for one entry. -/
def topIpRow (entry : TopIp) : String :=
  "<tr>" ++
  "<td style=\"color:var(--bright)\">" ++ escape entry.ip ++ "</td>" ++
  "<td style=\"color:var(--green)\">" ++ entry.count.repr ++ " req</td>" ++
  "</tr>"

/-- `_top_ip_rows`, with one row to say so where there are no entries. -/
def topIpRows (topIps : List TopIp) : String :=
  if topIps = [] then "<tr><td colspan=\"2\" style=\"color:var(--dim)\">NO DATA</td></tr>"
  else String.join (topIps.map topIpRow)

/-! ### The page

The template is in `DashboardHtml`. A placeholder is its name between two pairs of braces, and is
replaced wherever it stands. -/

/-- `render_dashboard`, with the placeholders in the order in which the source replaces them. -/
def renderDashboard (stats : LogStats) (topIps : List TopIp) (recent : List RequestLog)
    (saturationPct : ℚ) : String :=
  let page := strReplace dashboardHtml Placeholder.gaugeSvg.mark (gaugeSvg py saturationPct)
  let page := strReplace page Placeholder.total.mark stats.totalRequests.repr
  let page := strReplace page Placeholder.allowed.mark stats.allowedRequests.repr
  let page := strReplace page Placeholder.blocked.mark stats.blockedRequests.repr
  let page := strReplace page Placeholder.avgLat.mark (py.str stats.avgLatencyMs)
  let page := strReplace page Placeholder.satPct.mark (py.str saturationPct)
  let page := strReplace page Placeholder.logRows.mark (logRows py recent)
  strReplace page Placeholder.topIpRows.mark (topIpRows topIps)

/-! ### What the page is to be -/

/-- The text that each placeholder stands for. -/
def renderedValues (stats : LogStats) (topIps : List TopIp) (recent : List RequestLog)
    (saturationPct : ℚ) : Placeholder → String
  | .gaugeSvg => gaugeSvg py saturationPct
  | .total => stats.totalRequests.repr
  | .allowed => stats.allowedRequests.repr
  | .blocked => stats.blockedRequests.repr
  | .avgLat => py.str stats.avgLatencyMs
  | .satPct => py.str saturationPct
  | .logRows => logRows py recent
  | .topIpRows => topIpRows topIps

end Renderers

open DashboardHtml in
/-- The fixed segments of the page, with a text for each placeholder where that stands in the
template. -/
def pageWith (v : Placeholder → String) : String :=
  beforeGauge ++ v .gaugeSvg ++ beforeTotal ++ v .total ++ beforeAllowed ++ v .allowed ++
  beforeBlocked ++ v .blocked ++ beforeAvgLat ++ v .avgLat ++ beforeSatPct ++ v .satPct ++
  beforeLogRows ++ v .logRows ++ beforeTopIpRows ++ v .topIpRows ++ pageEnd

end RateGuardian
