import RateGuardian.Lib.Template

/-!
# RateGuardian.DashboardHtml

`DASHBOARD_HTML` of `app/views/templates/dashboard.py`: the text of the page, with the marks of
eight placeholders in it.

Between the marks the text has single opening braces, of the style sheet and of the script, but
never two of them, and none right before a mark (`quiet_of_text`). So a search for a mark finds the
marks of the page and nothing else in it, which is what `Lib.Template` asks of a template.

The text is copied from the source segment by segment, one segment between each two placeholders, so
that it can be compared with the source line by line. `renderDashboard` and the results about it use
it through `dashboardTemplate` and never look at a character of it; the check of the segments is one
evaluation for each of them.
-/

namespace RateGuardian

open Lib

namespace DashboardHtml

/-! ### From the start of the page to the gauge -/

def documentHead : String :=
"<!DOCTYPE html>
<html lang=\"en\">
<head>
  <meta charset=\"UTF-8\">
  <meta name=\"viewport\" content=\"width=device-width, initial-scale=1.0\">
  <meta http-equiv=\"refresh\" content=\"5\">
  <title>RATE GUARDIAN // DASHBOARD</title>
  <link href=\"https://fonts.googleapis.com/css2?family=VT323&family=Share+Tech+Mono&display=swap\" rel=\"stylesheet\">
"

def baseStyle : String :=
"  <style>
    :root \x7b
      --green: #15ff00; --dim: #0a8f00; --bright: #39ff14;
      --red: #ff4444;   --yellow: #ffcc00;
      --bg: #080808;    --glow: 0 0 8px #15ff00, 0 0 2px #15ff00;
    \x7d
    * \x7b box-sizing: border-box; margin: 0; padding: 0; \x7d
    html, body \x7b background: var(--bg); color: var(--green); font-family: 'Share Tech Mono', monospace; min-height: 100vh; \x7d
    .terminal  \x7b max-width: 1000px; margin: 0 auto; padding: 32px 24px 60px; \x7d
    .title     \x7b font-family: 'VT323', monospace; font-size: clamp(2rem,6vw,3rem); color: var(--bright); text-shadow: var(--glow); letter-spacing: 4px; \x7d
    .subtitle  \x7b font-size: 0.72rem; color: var(--dim); letter-spacing: 2px; margin-top: 4px; margin-bottom: 24px; \x7d
    hr  \x7b border: none; border-top: 1px solid var(--dim); margin: 18px 0; \x7d
    .line \x7b margin: 4px 0; font-size: 0.88rem; \x7d
    .label \x7b color: var(--dim); \x7d
    .value \x7b color: var(--bright); \x7d
    .ok .value::before \x7b content: \"[OK] \"; color: var(--green); \x7d

    .section-title \x7b font-family: 'VT323', monospace; font-size: 1.35rem; color: var(--bright); letter-spacing: 2px; margin-bottom: 10px; \x7d
    .box  \x7b border: 1px solid var(--dim); background: rgba(21,255,0,0.02); padding: 14px 18px; margin: 16px 0; \x7d

"

def tableStyle : String :=
"    /* Grid layout */
    .grid-2 \x7b display: grid; grid-template-columns: 1fr 1fr; gap: 16px; \x7d
    @media (max-width: 640px) \x7b .grid-2 \x7b grid-template-columns: 1fr; \x7d \x7d

    /* Tables */
    table  \x7b width: 100%; border-collapse: collapse; font-size: 0.82rem; \x7d
    th     \x7b color: var(--dim); text-transform: uppercase; font-size: 0.68rem; letter-spacing: 1px; padding: 3px 6px; border-bottom: 1px solid var(--dim); text-align: left; \x7d
    td     \x7b padding: 4px 6px; border-bottom: 1px solid rgba(21,255,0,0.06); \x7d
    .mono-overflow \x7b max-width: 240px; overflow: hidden; text-overflow: ellipsis; white-space: nowrap; \x7d

    /* Stat cards */
    .stats-row \x7b display: flex; gap: 12px; flex-wrap: wrap; margin-bottom: 4px; \x7d
    .stat-card \x7b border: 1px solid var(--dim); padding: 10px 16px; flex: 1; min-width: 110px; \x7d
    .stat-num  \x7b font-family: 'VT323', monospace; font-size: 2.2rem; color: var(--bright); line-height: 1; text-shadow: var(--glow); \x7d
    .stat-lbl  \x7b font-size: 0.65rem; color: var(--dim); letter-spacing: 1px; text-transform: uppercase; margin-top: 2px; \x7d
    .stat-card.danger .stat-num \x7b color: var(--red); text-shadow: 0 0 8px var(--red); \x7d

    /* Gauge */
    .gauge-box  \x7b text-align: center; padding: 10px; \x7d
    .gauge-lbl  \x7b font-size: 0.7rem; color: var(--dim); letter-spacing: 2px; text-transform: uppercase; margin-top: 4px; \x7d

"

def buttonStyle : String :=
"    /* Buttons */
    .btn \x7b border: 1px solid var(--green); color: var(--green); background: transparent; padding: 6px 16px; font-family: 'Share Tech Mono', monospace; font-size: 0.8rem; cursor: pointer; text-decoration: none; letter-spacing: 1px; text-transform: uppercase; \x7d
    .btn:hover \x7b background: rgba(21,255,0,0.1); color: var(--bright); \x7d
    .actions \x7b display: flex; gap: 12px; flex-wrap: wrap; margin-top: 16px; \x7d

    /* Refresh indicator */
    .refresh \x7b font-size: 0.68rem; color: var(--dim); float: right; \x7d
    .cursor  \x7b display: inline-block; width: 9px; height: 1em; background: var(--green); animation: blink 1s step-end infinite; vertical-align: text-bottom; margin-left: 3px; \x7d
    @keyframes blink \x7b 0%,100%\x7bopacity:1\x7d 50%\x7bopacity:0\x7d \x7d
    .footer  \x7b margin-top: 36px; font-size: 0.68rem; color: var(--dim); \x7d

"

def formStyle : String :=
"    /* Form */
    .form-row \x7b display: flex; align-items: center; gap: 10px; margin: 7px 0; flex-wrap: wrap; \x7d
    .form-row label \x7b color: var(--dim); font-size: 0.74rem; min-width: 120px; text-transform: uppercase; letter-spacing: 1px; \x7d
    .form-row input, .form-row select \x7b
      background: rgba(21,255,0,0.04); border: 1px solid var(--dim);
      color: var(--green); font-family: 'Share Tech Mono', monospace;
      font-size: 0.82rem; padding: 4px 10px; outline: none; flex: 1; min-width: 150px;
    \x7d
    .form-row input:focus, .form-row select:focus \x7b border-color: var(--bright); \x7d
    .form-row select option \x7b background: #080808; \x7d
    .msg \x7b font-size: 0.78rem; margin-top: 6px; padding: 4px 10px; min-height: 1.2em; \x7d
    .msg.ok  \x7b color: var(--bright); border-left: 2px solid var(--bright); \x7d
    .msg.err \x7b color: var(--red);    border-left: 2px solid var(--red); \x7d
  </style>
"

def titleLines : String :=
"</head>
<body>
<div class=\"terminal\">

  <span class=\"refresh\">AUTO-REFRESH: 5s</span>
  <div class=\"title\">RATE GUARDIAN</div>
  <div class=\"subtitle\">API GATEWAY &mdash; LIVE DASHBOARD &mdash; LAST 5 MIN</div>

  <div class=\"line ok\"><span class=\"label\">SYSTEM &nbsp;&nbsp;&nbsp;</span><span class=\"value\">ONLINE</span></div>
  <div class=\"line ok\"><span class=\"label\">GATEWAY &nbsp;&nbsp;</span><span class=\"value\">ACTIVE</span></div>
  <div class=\"line\"><span class=\"label\">UPTIME &nbsp;&nbsp;&nbsp;</span><span class=\"value\" id=\"uptime\">00:00:00</span></div>

  <hr>

  <!-- ── SATURATION GAUGE + STATS ─────────────────────────────────────────── -->
  <div class=\"grid-2\">

    <div class=\"box gauge-box\">
      <div class=\"section-title\">&gt; API SATURATION</div>
      "

def beforeGauge : String :=
  String.join
    [documentHead, baseStyle, tableStyle, buttonStyle, formStyle, titleLines]

/-! ### Between the placeholders -/

def beforeTotal : String :=
"
      <div class=\"gauge-lbl\">blocked / total requests</div>
    </div>

    <div class=\"box\">
      <div class=\"section-title\">&gt; STATS</div>
      <div class=\"stats-row\">
        <div class=\"stat-card\">
          <div class=\"stat-num\">"

def beforeAllowed : String :=
"</div>
          <div class=\"stat-lbl\">Total req</div>
        </div>
        <div class=\"stat-card\">
          <div class=\"stat-num\">"

def beforeBlocked : String :=
"</div>
          <div class=\"stat-lbl\">Allowed</div>
        </div>
        <div class=\"stat-card danger\">
          <div class=\"stat-num\">"

def beforeAvgLat : String :=
"</div>
          <div class=\"stat-lbl\">Blocked</div>
        </div>
      </div>
      <div class=\"stats-row\" style=\"margin-top:8px\">
        <div class=\"stat-card\">
          <div class=\"stat-num\">"

def beforeSatPct : String :=
"<span style=\"font-size:1rem\">ms</span></div>
          <div class=\"stat-lbl\">Avg latency</div>
        </div>
        <div class=\"stat-card\">
          <div class=\"stat-num\">"

def beforeLogRows : String :=
"<span style=\"font-size:1rem\">%</span></div>
          <div class=\"stat-lbl\">Sat. rate</div>
        </div>
      </div>
    </div>

  </div>

  <!-- ── LOGS + TOP IPs ────────────────────────────────────────────────────── -->
  <div class=\"grid-2\">

    <div class=\"box\">
      <div class=\"section-title\">&gt; RECENT REQUESTS</div>
      <table>
        <thead><tr><th>Time</th><th>Method</th><th>Path</th><th>Status</th><th>Lat</th><th>Result</th></tr></thead>
        <tbody>"

def beforeTopIpRows : String :=
"</tbody>
      </table>
    </div>

    <div class=\"box\">
      <div class=\"section-title\">&gt; TOP IPs (1h)</div>
      <table>
        <thead><tr><th>IP</th><th>Requests</th></tr></thead>
        <tbody>"

/-! ### From the top clients to the end of the page -/

def ruleForm : String :=
"</tbody>
      </table>
    </div>

  </div>

  <!-- ── ADD RULE FORM ─────────────────────────────────────────────────────── -->
  <div class=\"box\">
    <div class=\"section-title\">&gt; ADD RATE LIMIT RULE</div>
    <form id=\"rule-form\" onsubmit=\"submitRule(event)\">
      <div class=\"form-row\">
        <label>NAME</label>
        <input type=\"text\" id=\"r-name\" placeholder=\"e.g. Limit /api/posts\" required>
      </div>
      <div class=\"form-row\">
        <label>PATH PATTERN</label>
        <input type=\"text\" id=\"r-path\" placeholder=\"e.g. /proxy/*/posts*\" required>
      </div>
      <div class=\"form-row\">
        <label>LIMIT</label>
        <input type=\"number\" id=\"r-limit\" placeholder=\"e.g. 10\" min=\"1\" required>
        <span style=\"color:var(--dim);font-size:0.75rem\">requests per window</span>
      </div>
      <div class=\"form-row\">
        <label>WINDOW (sec)</label>
        <input type=\"number\" id=\"r-window\" placeholder=\"e.g. 60\" min=\"1\" required>
      </div>
      <div class=\"form-row\">
        <label>KEY TYPE</label>
        <select id=\"r-key\">
          <option value=\"ip\">Per IP</option>
          <option value=\"global\">Global</option>
        </select>
      </div>
      <div class=\"form-row\" style=\"margin-top:8px\">
        <button class=\"btn\" type=\"submit\">&gt; CREATE RULE</button>
      </div>
      <div id=\"rule-msg\" class=\"msg\"></div>
    </form>
  </div>

"

def rulesPanel : String :=
"  <!-- ── ACTIVE RULES ──────────────────────────────────────────────────────── -->
  <div class=\"box\">
    <div class=\"section-title\">&gt; ACTIVE RULES</div>
    <div id=\"rules-list\"><span style=\"color:var(--dim);font-size:0.8rem\">Loading...</span></div>
  </div>

  <div class=\"actions\">
    <a class=\"btn\" href=\"/docs\">&gt; API DOCS</a>
    <a class=\"btn\" href=\"/logs\">&gt; ALL LOGS (JSON)</a>
    <a class=\"btn\" href=\"/dashboard\">&gt; STATS JSON</a>
  </div>

  <hr>
  <div class=\"line\"><span style=\"color:var(--dim)\">&gt; MONITORING ACTIVE</span><span class=\"cursor\"></span></div>
  <div class=\"footer\">RATE GUARDIAN &mdash; BUILT BY FEDERICO MOROZ</div>
</div>

"

def uptimeScript : String :=
"<script>
  // Uptime
  const t0 = Date.now();
  setInterval(() => \x7b
    const s = Math.floor((Date.now()-t0)/1000);
    const p = n => String(n).padStart(2,'0');
    document.getElementById('uptime').textContent =
      p(Math.floor(s/3600))+':'+p(Math.floor((s%3600)/60))+':'+p(s%60);
  \x7d, 1000);

"

def loadRulesScript : String :=
"  // Rules
  async function loadRules() \x7b
    const el = document.getElementById('rules-list');
    try \x7b
      const data = await fetch('/rules').then(r => r.json());
      if (!data.length) \x7b el.innerHTML='<span style=\"color:var(--dim);font-size:0.8rem\">No rules configured.</span>'; return; \x7d
      el.innerHTML = `
        <table>
          <thead><tr><th>Name</th><th>Pattern</th><th>Limit</th><th>Window</th><th>Key</th><th>Status</th><th></th></tr></thead>
          <tbody>
            $\x7bdata.map(r => `
              <tr>
                <td style=\"color:var(--bright)\">$\x7br.name\x7d</td>
                <td style=\"color:var(--dim)\">$\x7br.path_pattern\x7d</td>
                <td>$\x7br.limit\x7d</td>
                <td>$\x7br.window_seconds\x7ds</td>
                <td>$\x7br.key_type\x7d</td>
                <td style=\"color:$\x7br.active ? 'var(--green)':'var(--dim)'\x7d\">$\x7br.active ? 'ACTIVE':'OFF'\x7d</td>
                <td style=\"display:flex;gap:6px\">
                  <button class=\"btn\" style=\"font-size:0.68rem;padding:2px 8px\"
                    onclick=\"toggleRule($\x7br.id\x7d)\">&gt; TOGGLE</button>
                  <button class=\"btn\" style=\"font-size:0.68rem;padding:2px 8px;border-color:var(--red);color:var(--red)\"
                    onclick=\"deleteRule($\x7br.id\x7d)\">&gt; DEL</button>
                </td>
              </tr>`).join('')\x7d
          </tbody>
        </table>`;
    \x7d catch \x7b el.innerHTML='<span style=\"color:var(--red)\">Error loading rules.</span>'; \x7d
  \x7d

"

def submitRuleScript : String :=
"  async function submitRule(e) \x7b
    e.preventDefault();
    const msg = document.getElementById('rule-msg');
    try \x7b
      const res = await fetch('/rules', \x7b
        method: 'POST',
        headers: \x7b'Content-Type':'application/json'\x7d,
        body: JSON.stringify(\x7b
          name:           document.getElementById('r-name').value,
          path_pattern:   document.getElementById('r-path').value,
          limit:          parseInt(document.getElementById('r-limit').value),
          window_seconds: parseInt(document.getElementById('r-window').value),
          key_type:       document.getElementById('r-key').value,
        \x7d)
      \x7d);
      if (res.ok) \x7b
        msg.className='msg ok'; msg.textContent='[OK] Rule created.';
        e.target.reset(); loadRules();
        setTimeout(()=>\x7b msg.textContent=''; msg.className='msg'; \x7d, 4000);
      \x7d else \x7b
        const err = await res.json();
        msg.className='msg err'; msg.textContent='[ERR] '+(err.detail||'Error.');
      \x7d
    \x7d catch \x7b msg.className='msg err'; msg.textContent='[ERR] Network error.'; \x7d
  \x7d

  async function toggleRule(id) \x7b
    await fetch(`/rules/$\x7bid\x7d/toggle`, \x7bmethod:'PATCH'\x7d);
    loadRules();
  \x7d

  async function deleteRule(id) \x7b
    await fetch(`/rules/$\x7bid\x7d`, \x7bmethod:'DELETE'\x7d);
    loadRules();
  \x7d

  loadRules();
</script>
</body>
</html>"

def pageEnd : String :=
  String.join [ruleForm, rulesPanel, uptimeScript, loadRulesScript, submitRuleScript]

end DashboardHtml

/-! ### The placeholders -/

inductive Placeholder
  | gaugeSvg
  | total
  | allowed
  | blocked
  | avgLat
  | satPct
  | logRows
  | topIpRows
  deriving DecidableEq

open DashboardHtml Placeholder

def Placeholder.name : Placeholder → String
  | gaugeSvg => "GAUGE_SVG"
  | total => "TOTAL"
  | allowed => "ALLOWED"
  | blocked => "BLOCKED"
  | avgLat => "AVG_LAT"
  | satPct => "SAT_PCT"
  | logRows => "LOG_ROWS"
  | topIpRows => "TOP_IP_ROWS"

/-- The placeholder as it is written in the page, between two pairs of braces. -/
def Placeholder.mark (p : Placeholder) : String := "\x7b\x7b" ++ p.name ++ "\x7d\x7d"

/-- `DASHBOARD_HTML`, put together of its segments and its placeholders. -/
def dashboardHtml : String :=
  beforeGauge ++ gaugeSvg.mark ++
  beforeTotal ++ total.mark ++
  beforeAllowed ++ allowed.mark ++
  beforeBlocked ++ blocked.mark ++
  beforeAvgLat ++ avgLat.mark ++
  beforeSatPct ++ satPct.mark ++
  beforeLogRows ++ logRows.mark ++
  beforeTopIpRows ++ topIpRows.mark ++
  pageEnd

def marks : Marks Placeholder Char where
  opening := '\x7b'
  closing := '\x7d'
  letter c := c.isUpper || c = '_'
  name p := p.name.toList
  opening_ne_closing := by decide
  letter_opening := by decide
  letter_closing := by decide
  letter_name p := by cases p <;> exact List.all_eq_true.mp (by decide)
  name_injective p q := by cases p <;> cases q <;> decide

@[simp] theorem toList_mark (p : Placeholder) : p.mark.toList = marks.mark p := by
  cases p <;> decide

/-- The page by its pieces, as a template in the sense of `Lib.Template`. -/
def dashboardTemplate : List (Piece Placeholder Char) :=
  [.text beforeGauge.toList, .hole gaugeSvg,
   .text beforeTotal.toList, .hole total,
   .text beforeAllowed.toList, .hole allowed,
   .text beforeBlocked.toList, .hole blocked,
   .text beforeAvgLat.toList, .hole avgLat,
   .text beforeSatPct.toList, .hole satPct,
   .text beforeLogRows.toList, .hole logRows,
   .text beforeTopIpRows.toList, .hole topIpRows,
   .text pageEnd.toList]

theorem toList_dashboardHtml : dashboardHtml.toList = source marks dashboardTemplate := by
  simp only [dashboardHtml, String.toList_append, toList_mark, List.append_assoc,
    dashboardTemplate, source_text, source_hole, source_nil, List.append_nil]

/-! ### No segment reaches into a mark -/

/-- A literal is checked by its characters, which an evaluation does faster than on the string. -/
theorem quiet_ofList {b : Char} (s : List Char) (h : quiet b s = true) :
    quiet b (String.ofList s).toList = true := by
  rwa [String.toList_ofList]

def pageTexts : List String :=
  [documentHead, baseStyle, tableStyle, buttonStyle, formStyle, titleLines,
   beforeTotal, beforeAllowed, beforeBlocked, beforeAvgLat, beforeSatPct,
   beforeLogRows, beforeTopIpRows,
   ruleForm, rulesPanel, uptimeScript, loadRulesScript, submitRuleScript]

set_option maxRecDepth 20000 in
theorem quiet_pageTexts : ∀ s ∈ pageTexts, quiet '\x7b' s.toList = true := by
  simp only [pageTexts, List.forall_mem_cons, List.not_mem_nil, false_implies,
    implies_true, and_true]
  and_intros <;> exact quiet_ofList _ (by decide +kernel)

theorem quiet_join {parts : List String} (h : parts ⊆ pageTexts) :
    quiet '\x7b' (String.join parts).toList = true := by
  rw [String.toList_join]
  exact quiet_flatMap fun s hs => quiet_pageTexts s (h hs)

theorem quiet_of_text : ∀ s, Piece.text s ∈ dashboardTemplate → quiet '\x7b' s = true := by
  have hgauge : quiet '\x7b' beforeGauge.toList = true := quiet_join (by simp [pageTexts])
  have hend : quiet '\x7b' pageEnd.toList = true := quiet_join (by simp [pageTexts])
  have htexts := quiet_pageTexts
  simp only [pageTexts, List.forall_mem_cons, List.not_mem_nil, false_implies, implies_true,
    and_true] at htexts
  simp [dashboardTemplate, hgauge, hend, htexts]

end RateGuardian
