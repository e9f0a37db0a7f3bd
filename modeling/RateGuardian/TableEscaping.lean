import RateGuardian.DashboardSubstitution
import RateGuardian.Lib.Html

/-!
# RateGuardian.TableEscaping

**The tables of logs and of clients are injection-free.** `_log_rows` and `_top_ip_rows` escape what
a client chose: the method, the path and the address. So the characters of markup in the tables do
not depend on them, and a tokenizer finds each of them in its cell, as a whole
(`tables_injection_free`). The path is cut before it is escaped, so no reference is cut in two.

What is written into a cell is a number or a time, one of four labels, or a text that has been
through `html.escape`. None of them has a `<`, so a cell ends where the row says. A tokenizer
that reads the table (`Lib.Html`) therefore finds exactly the tags of the rows, and each cell as one
text; undoing the escaping in it gives the value back.

The labels are the names of the reasons in upper case, so the result rests on what `str.upper` does
to the three reasons (`UppercasesReasons`), and on the logs having no other reason (`Reasoned`).
-/

namespace RateGuardian

open Lib Html

/-! ### Escaping

`unescape` undoes what `html.escape` does, and nothing more: it knows the five references that
`escape` writes, and leaves any other `&` alone. -/

/-- Reads the five references that `html.escape` writes, and copies everything else. -/
def unescapeChars : List Char → List Char
  | [] => []
  | '&' :: 'a' :: 'm' :: 'p' :: ';' :: s => '&' :: unescapeChars s
  | '&' :: 'l' :: 't' :: ';' :: s => '<' :: unescapeChars s
  | '&' :: 'g' :: 't' :: ';' :: s => '>' :: unescapeChars s
  | '&' :: 'q' :: 'u' :: 'o' :: 't' :: ';' :: s => '"' :: unescapeChars s
  | '&' :: '#' :: 'x' :: '2' :: '7' :: ';' :: s => '\'' :: unescapeChars s
  | c :: s => c :: unescapeChars s

def unescape (s : String) : String := String.ofList (unescapeChars s.toList)

/-- The characters that begin or end a tag or an attribute of the tables. -/
def special (c : Char) : Bool := c = '<' || c = '>' || c = '"'

def specials (s : String) : List Char := s.toList.filter special

section Escape

variable {s t : String} {c : Char}

theorem toList_escape (s : String) :
    (escape s).toList = s.toList.flatMap fun c => (escapeChar c).toList := by
  rw [escape, String.toList_join, List.flatMap_map]

theorem unescapeChars_cons (hc : c ≠ '&') (l : List Char) :
    unescapeChars (c :: l) = c :: unescapeChars l := by
  conv_lhs => unfold unescapeChars
  split <;> simp_all

theorem unescapeChars_escapeChar (c : Char) (l : List Char) :
    unescapeChars ((escapeChar c).toList ++ l) = c :: unescapeChars l := by
  unfold escapeChar
  split_ifs with hamp hlt hgt hquot hapos
  · subst hamp
    rfl
  · subst hlt
    rfl
  · subst hgt
    rfl
  · subst hquot
    rfl
  · subst hapos
    rfl
  · rw [String.toList_singleton, List.singleton_append, unescapeChars_cons hamp]

theorem unescape_escape (s : String) : unescape (escape s) = s := by
  have hchars : ∀ l : List Char,
      unescapeChars (l.flatMap fun c => (escapeChar c).toList) = l := by
    intro l
    induction l with
    | nil => rfl
    | cons c l ih => rw [List.flatMap_cons, unescapeChars_escapeChar, ih]
  rw [unescape, toList_escape, hchars, String.ofList_toList]

theorem unescape_of_notMem (hs : '&' ∉ s.toList) : unescape s = s := by
  have hchars : ∀ l : List Char, '&' ∉ l → unescapeChars l = l := by
    intro l hl
    induction l with
    | nil => rfl
    | cons c l ih =>
        rw [List.mem_cons, not_or] at hl
        rw [unescapeChars_cons (Ne.symm hl.1), ih hl.2]
  rw [unescape, hchars _ hs, String.ofList_toList]

@[simp] theorem specials_append (s t : String) : specials (s ++ t) = specials s ++ specials t := by
  rw [specials, String.toList_append, List.filter_append, ← specials, ← specials]

theorem specials_join (l : List String) : specials (String.join l) = l.flatMap specials := by
  rw [specials, String.toList_join, List.filter_flatMap]
  rfl

theorem specials_escapeChar (c : Char) : specials (escapeChar c) = [] := by
  unfold escapeChar
  split_ifs with hamp hlt hgt hquot hapos
  case neg => simp [specials, special, hlt, hgt, hquot]
  all_goals rfl

/-- No character of markup is left in a text that has been escaped. -/
theorem specials_escape (s : String) : specials (escape s) = [] := by
  rw [escape, specials_join, List.flatMap_map, List.flatMap_eq_nil_iff]
  exact fun c _ => specials_escapeChar c

theorem angle_notMem_escape (s : String) : '<' ∉ (escape s).toList := by
  have hnone := List.filter_eq_nil_iff.mp (specials_escape s)
  exact fun hmem => hnone _ hmem rfl

end Escape

/-! ### Two tables

The first half of the result compares two tables, as an observer of the markup would who does not
read the texts. -/

/-- The logs agree in all that a client does not choose. -/
structure Agree (r r' : RequestLog) : Prop where
  blocked : r.blocked = r'.blocked
  blockedBy : r.blockedBy = r'.blockedBy
  statusCode : r.statusCode = r'.statusCode
  latencyMs : r.latencyMs = r'.latencyMs
  createdAt : r.createdAt = r'.createdAt

section TwoTables

variable (py : Python)

theorem specials_logRow {r r' : RequestLog} (h : Agree r r') :
    specials (logRow py r) = specials (logRow py r') := by
  obtain ⟨hblocked, hblockedBy, hstatus, hlatency, hcreated⟩ := h
  unfold logRow blockedLabel
  simp only [specials_append, specials_escape, hblocked, hblockedBy, hstatus, hlatency, hcreated]

theorem specials_topIpRow {entry entry' : TopIp} (h : entry.count = entry'.count) :
    specials (topIpRow entry) = specials (topIpRow entry') := by
  unfold topIpRow
  simp only [specials_append, specials_escape, h]

/-- Tables have the same characters of markup if their rows have, one by one. -/
theorem specials_join_rows {α : Type} {R : α → α → Prop} {row : α → String}
    (hrow : ∀ a b, R a b → specials (row a) = specials (row b)) {l l' : List α}
    (h : List.Forall₂ R l l') :
    specials (String.join (l.map row)) = specials (String.join (l'.map row)) := by
  rw [specials_join, specials_join]
  induction h with
  | nil => rfl
  | cons hab _ ih => rw [List.map_cons, List.map_cons, List.flatMap_cons, List.flatMap_cons,
      hrow _ _ hab, ih]

theorem specials_logRows {recent recent' : List RequestLog}
    (h : List.Forall₂ Agree recent recent') :
    specials (logRows py recent) = specials (logRows py recent') := by
  cases h with
  | nil => rfl
  | cons hr hrest =>
      rw [logRows, logRows, if_neg (List.cons_ne_nil _ _), if_neg (List.cons_ne_nil _ _)]
      exact @specials_join_rows _ Agree (logRow py) (fun _ _ => specials_logRow py) _ _
        (.cons hr hrest)

theorem specials_topIpRows {topIps topIps' : List TopIp}
    (h : List.Forall₂ (fun entry entry' => entry.count = entry'.count) topIps topIps') :
    specials (topIpRows topIps) = specials (topIpRows topIps') := by
  cases h with
  | nil => rfl
  | cons hentry hrest =>
      rw [topIpRows, topIpRows, if_neg (List.cons_ne_nil _ _), if_neg (List.cons_ne_nil _ _)]
      exact @specials_join_rows _ _ topIpRow (fun _ _ => specials_topIpRow) _ _
        (.cons hentry hrest)

end TwoTables

/-! ### The cells of a table

The second half reads one table. Its rows are put in the form that `Lib.Html` has a tokenizer for:
an opening tag, a text without `<`, and a closing tag, for each cell. -/

section Cells

variable {opening text : String}

/-- A cell as the rows write it, with its opening tag and its text. -/
def cell (opening text : String) : String := opening ++ text ++ "</td>"

/-- The text is one tag, and a tag that ends neither a cell nor a row. -/
def Opening (s : String) : Prop :=
  Reading.start.read s.toList = ⟨.data, [], [.markup s.toList]⟩ ∧
    s.toList ≠ "</td>".toList ∧ s.toList ≠ "</tr>".toList

instance (s : String) : Decidable (Opening s) := inferInstanceAs (Decidable (_ ∧ _ ∧ _))

theorem fills_cell (hopening : Opening opening) (htext : '<' ∉ text.toList)
    (rows : List (List String)) (row : List String) (before : List Char) :
    Fills (cell opening text) ⟨rows, row, before⟩ ⟨rows, row ++ [text], []⟩ := by
  obtain ⟨hread, hcell, hrow⟩ := hopening
  have hopen := fills_ofList opening.toList _ hread ⟨rows, row, before⟩
  have hclose := fills_ofList "</td>".toList [.markup "</td>".toList] (by decide)
    ⟨rows, row, text.toList⟩
  rw [String.ofList_toList] at hopen hclose
  simp only [List.foldl_cons, List.foldl_nil, TableReading.step, if_neg hcell, if_neg hrow]
    at hopen
  have hall := (hopen.append (fills_text htext _)).append hclose
  rw [List.foldl_cons, List.foldl_nil, TableReading.step, if_pos rfl, String.ofList_toList] at hall
  exact hall

/-- A row of the table, from the opening tags and the texts of its cells. -/
def tableRow (cells : List (String × String)) : String :=
  "<tr>" ++ String.join (cells.map fun c => cell c.1 c.2) ++ "</tr>"

theorem fills_tableRow {cells : List (String × String)}
    (h : ∀ c ∈ cells, Opening c.1 ∧ '<' ∉ c.2.toList) (rows : List (List String)) :
    Fills (tableRow cells) ⟨rows, [], []⟩ ⟨rows ++ [cells.map Prod.snd], [], []⟩ := by
  have hcells : ∀ row, Fills (String.join (cells.map fun c => cell c.1 c.2)) ⟨rows, row, []⟩
      ⟨rows, row ++ cells.map Prod.snd, []⟩ := by
    induction cells with
    | nil =>
        intro row
        rw [List.map_nil, List.map_nil, List.append_nil]
        exact fills_ofList [] [] rfl _
    | cons c cells ih =>
        intro row
        rw [List.forall_mem_cons] at h
        rw [List.map_cons, String.join_cons, List.map_cons, List.append_cons]
        exact (fills_cell h.1.1 h.1.2 rows row []).append (ih h.2 _)
  have hstart := fills_ofList "<tr>".toList [.markup "<tr>".toList] (by decide) ⟨rows, [], []⟩
  have hend := fills_ofList "</tr>".toList [.markup "</tr>".toList] (by decide)
    ⟨rows, cells.map Prod.snd, []⟩
  rw [String.ofList_toList] at hstart hend
  exact (hstart.append (hcells [])).append hend

/-- Rows that are made of readable cells make a table in which these cells are found. -/
theorem tableOf_rows {α : Type} {row : α → String} {cells : α → List (String × String)}
    {l : List α}
    (hrow : ∀ a ∈ l, row a = tableRow (cells a) ∧
      ∀ c ∈ cells a, Opening c.1 ∧ '<' ∉ c.2.toList) :
    tableOf (String.join (l.map row)) = l.map fun a => (cells a).map Prod.snd := by
  have hrows : ∀ rows, Fills (String.join (l.map row)) ⟨rows, [], []⟩
      ⟨rows ++ l.map fun a => (cells a).map Prod.snd, [], []⟩ := by
    induction l with
    | nil =>
        intro rows
        rw [List.map_nil, List.map_nil, List.append_nil]
        exact fills_ofList [] [] rfl _
    | cons a l ih =>
        intro rows
        rw [List.forall_mem_cons] at hrow
        rw [List.map_cons, String.join_cons, List.map_cons, List.append_cons, hrow.1.1]
        exact (fills_tableRow hrow.1.2 rows).append (ih hrow.2 _)
  exact (hrows []).tableOf_eq

end Cells

/-! ### What the tables show

The columns of the two tables, once as they are to be read and once as they are written. -/

/-- The reasons that a `RequestBlocked` can have. -/
def reasons : List String := ["rate_limit", "circuit_breaker", "upstream_error"]

/-- What the tables rely on of `str.upper`: its values on the three reasons. -/
def UppercasesReasons (py : Python) : Prop :=
  reasons.map py.upper = ["RATE_LIMIT", "CIRCUIT_BREAKER", "UPSTREAM_ERROR"]

/-- The labels that the last column can then have. -/
def labels : List String := ["[OK]", "[RATE_LIMIT]", "[CIRCUIT_BREAKER]", "[UPSTREAM_ERROR]"]

/-- The request was let through, or rejected for one of the reasons. -/
def Reasoned (r : RequestLog) : Prop := ∀ reason ∈ r.blockedBy, reason ∈ reasons

instance : DecidablePred Reasoned :=
  fun r => inferInstanceAs (Decidable (∀ reason ∈ r.blockedBy, reason ∈ reasons))

/-- The cells of a log as they are to be read, with the first sixty characters of the path. -/
def shownLog (py : Python) (r : RequestLog) : List String :=
  [clock r.createdAt, r.method, strUpTo 60 r.path, r.statusCode.repr, fixed 0 r.latencyMs ++ "ms",
    blockedLabel py r]

def shownIp (entry : TopIp) : List String := [entry.ip, entry.count.repr ++ " req"]

/-- The cells of a log, each with its opening tag, as they are written. -/
def logCells (py : Python) (r : RequestLog) : List (String × String) :=
  [("<td style=\"color:var(--dim)\">", clock r.createdAt),
    ("<td style=\"color:var(--bright)\">", escape r.method),
    ("<td class=\"mono-overflow\">", escape (strUpTo 60 r.path)),
    ("<td>", r.statusCode.repr),
    ("<td style=\"color:var(--dim)\">", fixed 0 r.latencyMs ++ "ms"),
    ("<td style=\"" ++ (if r.blocked then "color:var(--red)" else "color:var(--green)") ++ "\">",
      blockedLabel py r)]

def topIpCells (entry : TopIp) : List (String × String) :=
  [("<td style=\"color:var(--bright)\">", escape entry.ip),
    ("<td style=\"color:var(--green)\">", entry.count.repr ++ " req")]

section Shown

variable {py : Python} (r : RequestLog) (entry : TopIp)

theorem logRow_eq : logRow py r = tableRow (logCells py r) := by
  have hms : "ms</td>" = "ms" ++ "</td>" := by decide
  unfold logRow tableRow logCells cell
  rw [hms]
  simp only [List.map_cons, List.map_nil, String.join_cons, String.join_nil, String.append_empty,
    String.append_assoc]

theorem topIpRow_eq : topIpRow entry = tableRow (topIpCells entry) := by
  have hreq : " req</td>" = " req" ++ "</td>" := by decide
  unfold topIpRow tableRow topIpCells cell
  rw [hreq]
  simp only [List.map_cons, List.map_nil, String.join_cons, String.join_nil, String.append_empty,
    String.append_assoc]

theorem notMem_ms {c : Char} (hc : c.isDigit = false) (hminus : c ≠ '-') (hpoint : c ≠ '.')
    (hms : c ∉ "ms".toList) (x : ℚ) : c ∉ (fixed 0 x ++ "ms").toList := by
  rw [String.toList_append, List.mem_append, not_or]
  exact ⟨notMem_fixed hc hminus hpoint 0 x, hms⟩

theorem notMem_req {c : Char} (hc : c.isDigit = false) (hreq : c ∉ " req".toList) (n : ℕ) :
    c ∉ (n.repr ++ " req").toList := by
  rw [String.toList_append, List.mem_append, not_or]
  exact ⟨notMem_repr hc n, hreq⟩

theorem blockedLabel_mem {r : RequestLog} (hupper : UppercasesReasons py) (hr : Reasoned r) :
    blockedLabel py r ∈ labels := by
  simp only [UppercasesReasons, reasons, List.map_cons, List.map_nil, List.cons.injEq,
    and_true] at hupper
  obtain ⟨hlimit, hbreaker, herror⟩ := hupper
  unfold blockedLabel
  cases hreason : r.blockedBy with
  | none => exact List.mem_cons_self
  | some reason =>
      have hmem := hr reason hreason
      simp only [reasons, List.mem_cons, List.not_mem_nil, or_false] at hmem
      rcases hmem with rfl | rfl | rfl
      · simp only [hlimit]
        decide
      · simp only [hbreaker]
        decide
      · simp only [herror]
        decide

theorem notMem_blockedLabel {c : Char} {r : RequestLog} (hupper : UppercasesReasons py)
    (hr : Reasoned r) (hc : ∀ label ∈ labels, c ∉ label.toList) :
    c ∉ (blockedLabel py r).toList :=
  hc _ (blockedLabel_mem hupper hr)

theorem logCells_readable {r : RequestLog} (hupper : UppercasesReasons py) (hr : Reasoned r) :
    ∀ c ∈ logCells py r, Opening c.1 ∧ '<' ∉ c.2.toList := by
  have hstyle : Opening ("<td style=\"" ++ (if r.blocked then "color:var(--red)"
      else "color:var(--green)") ++ "\">") := by
    cases r.blocked <;> decide +kernel
  simp only [logCells, List.forall_mem_cons]
  refine ⟨⟨by decide, notMem_clock (by decide) (by decide) _⟩,
    ⟨by decide, angle_notMem_escape _⟩, ⟨by decide, angle_notMem_escape _⟩,
    ⟨by decide, notMem_repr (by decide) _⟩,
    ⟨by decide, notMem_ms (by decide) (by decide) (by decide) (by decide) _⟩,
    ⟨hstyle, notMem_blockedLabel hupper hr (by decide)⟩, nofun⟩

theorem topIpCells_readable : ∀ c ∈ topIpCells entry, Opening c.1 ∧ '<' ∉ c.2.toList := by
  simp only [topIpCells, List.forall_mem_cons]
  exact ⟨⟨by decide, angle_notMem_escape _⟩,
    ⟨by decide, notMem_req (by decide) (by decide) _⟩, nofun⟩

/-- The cells of a log are read as its values, once the escaping is undone. -/
theorem unescape_logCells {r : RequestLog} (hupper : UppercasesReasons py) (hr : Reasoned r) :
    ((logCells py r).map Prod.snd).map unescape = shownLog py r := by
  have hclock := unescape_of_notMem (notMem_clock (c := '&') (by decide) (by decide) r.createdAt)
  have hstatus := unescape_of_notMem (notMem_repr (c := '&') (by decide) r.statusCode)
  have hlatency := unescape_of_notMem
    (notMem_ms (c := '&') (by decide) (by decide) (by decide) (by decide) r.latencyMs)
  have hlabel := unescape_of_notMem (notMem_blockedLabel (c := '&') hupper hr (by decide))
  simp only [logCells, List.map_cons, List.map_nil, unescape_escape, hclock, hstatus, hlatency,
    hlabel, shownLog]

theorem unescape_topIpCells :
    ((topIpCells entry).map Prod.snd).map unescape = shownIp entry := by
  have hcount := unescape_of_notMem (notMem_req (c := '&') (by decide) (by decide) entry.count)
  simp only [topIpCells, List.map_cons, List.map_nil, unescape_escape, hcount, shownIp]

end Shown

/-- **The tables are injection-free.** Two lists of logs that agree in what no client chooses make
tables with the same characters of markup, and so do two lists of clients with the same counts.
The cells of each table, with the escaping undone, are the values. -/
theorem tables_injection_free (py : Python) (hupper : UppercasesReasons py) :
    (∀ recent recent' : List RequestLog, List.Forall₂ Agree recent recent' →
      specials (logRows py recent) = specials (logRows py recent')) ∧
    (∀ recent : List RequestLog, recent ≠ [] → (∀ r ∈ recent, Reasoned r) →
      (tableOf (logRows py recent)).map (List.map unescape) = recent.map (shownLog py)) ∧
    (∀ topIps topIps' : List TopIp,
      List.Forall₂ (fun entry entry' => entry.count = entry'.count) topIps topIps' →
        specials (topIpRows topIps) = specials (topIpRows topIps')) ∧
    ∀ topIps : List TopIp, topIps ≠ [] →
      (tableOf (topIpRows topIps)).map (List.map unescape) = topIps.map shownIp := by
  refine ⟨fun _ _ h => specials_logRows py h, ?_, fun _ _ h => specials_topIpRows h, ?_⟩
  · intro recent hne hreasoned
    have htable := @tableOf_rows _ (logRow py) (logCells py) recent fun r hr =>
      ⟨logRow_eq r, logCells_readable hupper (hreasoned r hr)⟩
    rw [logRows, if_neg hne, htable, List.map_map]
    exact List.map_congr_left fun r hr => unescape_logCells hupper (hreasoned r hr)
  · intro topIps hne
    have htable := @tableOf_rows _ topIpRow topIpCells topIps fun entry _ =>
      ⟨topIpRow_eq entry, topIpCells_readable entry⟩
    rw [topIpRows, if_neg hne, htable, List.map_map]
    exact List.map_congr_left fun entry _ => unescape_topIpCells entry

/-- A log whose method and path look like tags and references. -/
def taggedLog : RequestLog where
  clientIp := "203.0.113.9"
  method := "<b>"
  path := "/proxy/https://a.example/&lt;\"'</td>"
  upstream := "https://a.example"
  statusCode := 429
  latencyMs := 3 / 2
  blocked := true
  blockedBy := some "rate_limit"
  id := 1
  createdAt := 3600

theorem tables_injection_free_tagged :
    (tableOf (logRows seriesPython [taggedLog])).map (List.map unescape) =
      [["01:00:00", "<b>", "/proxy/https://a.example/&lt;\"'</td>", "429", "2ms",
        "[RATE_LIMIT]"]] := by
  have hupper : UppercasesReasons seriesPython := by
    rw [UppercasesReasons]
    decide +kernel
  have h := (tables_injection_free seriesPython hupper).2.1 [taggedLog] nofun (by decide)
  rw [h]
  decide +kernel

end RateGuardian
