import RateGuardian.GatewayEffects
import Mathlib

/-!
# RateGuardian.BreakerKey

**Which upstream a URL names, and which breaker it asks.** `_upstream_host` takes the key of the
breaker from the text of the URL, and the connection is made to what the text denotes. The two agree
on a pair of URLs exactly when their authorities are spelled alike (`answersForBoth_iff`): the case
of the host, a default port that is written out and user information all lead to the same upstream,
past another breaker.

What is not the code's to decide is when two URLs denote the same upstream. `SameUpstream` says it
in terms of the parts: equal hosts but for the case of ASCII letters, and equal ports, where a port
that is not written is the default one of the scheme. `AnswersForBoth` is what one expects of the
breaker then, and it is stated of whole requests: while the circuit is open for the one, a request
for the other is answered 503.

A URL is given here by its parts (`HttpUrl`), and its text is put together of them. That the parser
finds the same authority in the text again is `netloc_text`; that it accepts the two URLs is assumed
of them, since a URL that it rejects asks no breaker at all.
-/

namespace RateGuardian

open Lib Imp Redis

/-! ### Letters -/

/-- Letters come after the control characters, the blanks and the delimiters of a URL, so none of
these is part of a scheme. -/
theorem lt_toNat_of_isAlpha {c : Char} (h : c.isAlpha = true) : 64 < c.toNat := by
  simp only [Char.isAlpha, Char.isUpper, Char.isLower, Bool.or_eq_true, Bool.and_eq_true,
    decide_eq_true_eq, ge_iff_le, UInt32.le_iff_toNat_le] at h
  have hA : 'A'.val.toNat = 65 := rfl
  have ha : 'a'.val.toNat = 97 := rfl
  show 64 < c.val.toNat
  omega

theorem ne_of_isAlpha {c d : Char} (h : c.isAlpha = true) (hd : d.toNat ≤ 64) : c ≠ d := by
  rintro rfl
  have := lt_toNat_of_isAlpha h
  omega

/-! ### URLs by their parts -/

/-- A character of the text between `//` and the next `/`, `?` or `#`, other than those that
`urlsplit` ignores. -/
def isAuthorityChar (c : Char) : Bool := c ∉ ['/', '?', '#', '\t', '\r', '\n']

/-- An absolute `http` or `https` URL, in the parts it is written in. -/
structure HttpUrl where
  scheme : List Char
  userinfo : Option (List Char)
  host : List Char
  port : Option (List Char)
  /-- Path, query and fragment, with the delimiter they begin with, or nothing. -/
  tail : List Char
  scheme_http : scheme.map Char.toLower ∈ ["http".toList, "https".toList]
  userinfo_chars : ∀ u ∈ userinfo, ∀ c ∈ u, isAuthorityChar c
  host_chars : ∀ c ∈ host, isAuthorityChar c ∧ c ≠ '@'
  host_ne_nil : host ≠ []
  port_digits : ∀ p ∈ port, ∀ c ∈ p, c.isDigit
  tail_delimited : ∀ c ∈ tail.head?, c ∈ ['/', '?', '#']

namespace HttpUrl

variable (u v : HttpUrl)

/-- The user information with its delimiter, or nothing where the URL has none. -/
def userPart : List Char := (u.userinfo.map (· ++ ['@'])).getD []

/-- The host, and the port with its delimiter if it is written. -/
def hostPart : List Char := u.host ++ (u.port.map (':' :: ·)).getD []

def authority : List Char := u.userPart ++ u.hostPart

/-- The URL as it is written. -/
def text : String := String.ofList (u.scheme ++ "://".toList ++ u.authority ++ u.tail)

/-- The port the URL denotes: the one that is written, or the default one of the scheme. -/
def portNumber : ℕ :=
  match u.port with
  | some (d :: ds) => Nat.ofDigitChars 10 (d :: ds) 0
  | _ => if u.scheme.map Char.toLower = "http".toList then 80 else 443

/-- Both URLs denote the same host and port, so that a client connects to the same server. -/
structure SameUpstream : Prop where
  host : u.host.map Char.toLower = v.host.map Char.toLower
  port : u.portNumber = v.portNumber

/-- Both URLs write user information, host and port alike, character for character. -/
structure SpelledAlike : Prop where
  userinfo : u.userinfo = v.userinfo
  host : u.host = v.host
  port : u.port = v.port

variable {u v}

theorem isAlpha_of_mem_scheme {c : Char} (hc : c ∈ u.scheme) : c.isAlpha = true := by
  have hletters : ∀ s ∈ ["http".toList, "https".toList], s.all Char.isAlpha = true := by decide
  have hlower := List.all_eq_true.mp (hletters _ u.scheme_http) _ (List.mem_map_of_mem hc)
  rwa [Char.isAlpha_toLower_eq_isAlpha] at hlower

theorem scheme_ne_nil : u.scheme ≠ [] := by
  intro hnil
  have hscheme := u.scheme_http
  rw [hnil] at hscheme
  revert hscheme
  decide

theorem isAuthorityChar_of_isDigit {c : Char} (h : c.isDigit = true) :
    isAuthorityChar c ∧ c ≠ '@' := by
  have hnot : ∀ d ∈ ['@', '/', '?', '#', '\t', '\r', '\n'], c ≠ d := by
    rintro d hd rfl
    have hdigit : ∀ d ∈ ['@', '/', '?', '#', '\t', '\r', '\n'], d.isDigit = false :=
      List.all_iff_forall_prop.mp (by decide)
    rw [hdigit c hd] at h
    cases h
  obtain ⟨hat, hrest⟩ := List.forall_mem_cons.mp hnot
  refine ⟨?_, hat⟩
  simp only [isAuthorityChar, decide_eq_true_eq]
  exact fun hc => hrest c hc rfl

theorem mem_hostPart {c : Char} (hc : c ∈ u.hostPart) : isAuthorityChar c ∧ c ≠ '@' := by
  rcases List.mem_append.mp hc with hc | hc
  · exact u.host_chars c hc
  · cases hport : u.port with
    | none => simp [hport] at hc
    | some p =>
        simp only [hport, Option.map_some, Option.getD_some, List.mem_cons] at hc
        rcases hc with rfl | hc
        · decide
        · exact isAuthorityChar_of_isDigit (u.port_digits p hport c hc)

theorem isAuthorityChar_of_mem {c : Char} (hc : c ∈ u.authority) : isAuthorityChar c := by
  rcases List.mem_append.mp hc with hc | hc
  · cases huser : u.userinfo with
    | none => simp [userPart, huser] at hc
    | some user =>
        simp only [userPart, huser, Option.map_some, Option.getD_some, List.mem_append,
          List.mem_singleton] at hc
        rcases hc with hc | rfl
        · exact u.userinfo_chars user huser c hc
        · decide
  · exact (mem_hostPart hc).1

/-- What `urlsplit` takes apart: the text, less the leading blanks and the tabs and line ends that
it ignores. The text of an `HttpUrl` has none of these before its tail. -/
theorem filter_text : (u.text.toList.dropWhile fun c => c.toNat ≤ 32).filter
      (· ∉ ['\t', '\r', '\n']) =
    u.scheme ++ ':' :: '/' :: '/' ::
      (u.authority ++ u.tail.filter (· ∉ ['\t', '\r', '\n'])) := by
  have hscheme : u.scheme.filter (· ∉ ['\t', '\r', '\n']) = u.scheme := by
    refine List.filter_eq_self.mpr fun c hc => decide_eq_true fun hmem => ?_
    have hlow : ∀ d ∈ ['\t', '\r', '\n'], d.toNat ≤ 64 :=
      List.all_iff_forall_prop.mp (by decide)
    exact ne_of_isAlpha (isAlpha_of_mem_scheme hc) (hlow c hmem) rfl
  have hauthority : u.authority.filter (· ∉ ['\t', '\r', '\n']) = u.authority := by
    refine List.filter_eq_self.mpr fun c hc => decide_eq_true fun hmem => ?_
    have hchar := isAuthorityChar_of_mem hc
    simp only [isAuthorityChar, decide_eq_true_eq] at hchar
    exact hchar (List.mem_append_right ['/', '?', '#'] hmem)
  have hstart : (u.text.toList.dropWhile fun c => c.toNat ≤ 32) = u.text.toList := by
    rw [text, String.toList_ofList, List.append_assoc, List.append_assoc]
    cases hs : u.scheme with
    | nil => exact absurd hs scheme_ne_nil
    | cons c rest =>
        have hmem : c ∈ u.scheme := hs ▸ List.mem_cons_self
        have hletter := lt_toNat_of_isAlpha (isAlpha_of_mem_scheme hmem)
        rw [List.cons_append, List.dropWhile_cons_of_neg]
        simp only [decide_eq_true_eq]
        omega
  rw [hstart, text, String.toList_ofList, List.filter_append, List.filter_append,
    List.filter_append, hscheme, hauthority, List.append_assoc, List.append_assoc]
  rfl

/-- `urlsplit` finds the scheme, and passes on what follows its colon. -/
theorem afterScheme_text : afterScheme u.text =
    '/' :: '/' :: (u.authority ++ u.tail.filter (· ∉ ['\t', '\r', '\n'])) := by
  have hletters : ∀ c ∈ u.scheme, decide (c ≠ ':') = true := fun c hc =>
    decide_eq_true (ne_of_isAlpha (isAlpha_of_mem_scheme hc) (by decide))
  have hhead : u.scheme.head?.any Char.isAlpha = true := by
    cases hs : u.scheme with
    | nil => exact absurd hs scheme_ne_nil
    | cons c rest => exact isAlpha_of_mem_scheme (u := u) (hs ▸ List.mem_cons_self)
  have hall : (u.scheme.all fun c => c.isAlphanum || c ∈ ['+', '-', '.']) = true := by
    refine List.all_eq_true.mpr fun c hc => ?_
    simp [Char.isAlphanum, isAlpha_of_mem_scheme hc]
  have hshort : u.scheme.length < (u.scheme ++ ':' :: '/' :: '/' ::
      (u.authority ++ u.tail.filter (· ∉ ['\t', '\r', '\n']))).length := by
    simp
  have hbefore : (u.scheme ++ ':' :: '/' :: '/' :: (u.authority ++
      u.tail.filter (· ∉ ['\t', '\r', '\n']))).takeWhile (· ≠ ':') = u.scheme := by
    rw [List.takeWhile_append_of_pos hletters, List.takeWhile_cons_of_neg (by decide),
      List.append_nil]
  rw [afterScheme, filter_text]
  simp only [hbefore, hhead, hall, hshort, decide_true, Bool.and_self, if_true]
  rw [List.drop_append]
  simp

/-- The network location is the authority, as it is spelled: `urlsplit` lowers the case of the
scheme and of nothing else. -/
theorem netloc_text : netloc u.text = String.ofList u.authority := by
  have hauthority : ∀ c ∈ u.authority, decide (c ∉ ['/', '?', '#']) = true := by
    intro c hc
    have hchar := isAuthorityChar_of_mem hc
    simp only [isAuthorityChar, decide_eq_true_eq] at hchar ⊢
    exact fun hmem => hchar (List.mem_append_left ['\t', '\r', '\n'] hmem)
  have hstop : (u.tail.filter (· ∉ ['\t', '\r', '\n'])).takeWhile (· ∉ ['/', '?', '#']) = [] := by
    cases htail : u.tail with
    | nil => rfl
    | cons c rest =>
        have hdelim : c ∈ ['/', '?', '#'] := u.tail_delimited c (by simp [htail])
        have hkept : ∀ d ∈ ['/', '?', '#'], decide (d ∉ ['\t', '\r', '\n']) = true :=
          List.all_eq_true.mp (by decide)
        have hfirst : (c :: rest).filter (· ∉ ['\t', '\r', '\n']) =
            c :: rest.filter (· ∉ ['\t', '\r', '\n']) := List.filter_cons_of_pos (hkept c hdelim)
        rw [hfirst, List.takeWhile_cons_of_neg (by simpa only [decide_eq_true_eq, not_not])]
  rw [netloc, afterScheme_text]
  simp only
  rw [List.takeWhile_append_of_pos hauthority, hstop, List.append_nil]

/-- Where the parser accepts a URL, the key of its breaker is the authority as it is spelled. -/
theorem upstreamHost_text {urlparse : String → Except String String}
    (h : urlparse u.text = .ok (netloc u.text)) :
    upstreamHost urlparse u.text = .ok (String.ofList u.authority) := by
  have hne : u.authority ≠ [] := by
    simp [authority, hostPart, u.host_ne_nil]
  rw [upstreamHost, h, netloc_text]
  simp only
  rw [if_neg]
  simpa using hne

/-! ### The spelling can be read off the authority -/

theorem takeWhile_until {a b : List Char} (ha : '@' ∉ a) :
    (a ++ '@' :: b).takeWhile (· ≠ '@') = a := by
  have hall : ∀ c ∈ a, decide (c ≠ '@') = true := by
    intro c hc
    have hne : c ≠ '@' := by
      rintro rfl
      exact ha hc
    exact decide_eq_true hne
  rw [List.takeWhile_append_of_pos hall, List.takeWhile_cons_of_neg (by decide), List.append_nil]

/-- The last `@` ends the user information, since no host has one. So the parts can be found again
in the authority. -/
theorem parts_of_authority (h : u.authority = v.authority) :
    u.userinfo = v.userinfo ∧ u.hostPart = v.hostPart := by
  have hat : ∀ w : HttpUrl, '@' ∉ w.hostPart := fun w hmem => (mem_hostPart hmem).2 rfl
  have hsplit : ∀ (a b : List Char) (w w' : HttpUrl),
      a ++ '@' :: w.hostPart = b ++ '@' :: w'.hostPart → a = b ∧ w.hostPart = w'.hostPart := by
    intro a b w w' heq
    have hrev : w.hostPart.reverse ++ '@' :: a.reverse =
        w'.hostPart.reverse ++ '@' :: b.reverse := by
      simpa using congrArg List.reverse heq
    have hhost : w.hostPart = w'.hostPart := by
      have htake := congrArg (List.takeWhile (· ≠ '@')) hrev
      rw [takeWhile_until (by simpa using hat w), takeWhile_until (by simpa using hat w')] at htake
      exact List.reverse_inj.mp htake
    rw [hhost] at heq
    exact ⟨List.append_cancel_right heq, hhost⟩
  have hnone : ∀ (a : List Char) (w w' : HttpUrl), w.hostPart ≠ a ++ '@' :: w'.hostPart := by
    intro a w w' heq
    exact hat w (heq ▸ by simp)
  unfold authority userPart at h
  cases hu : u.userinfo with
  | none =>
      cases hv : v.userinfo with
      | none => simpa [hu, hv] using h
      | some b => exact absurd (by simpa [hu, hv] using h) (hnone b u v)
  | some a =>
      cases hv : v.userinfo with
      | none => exact absurd (by simpa [hu, hv] using h.symm) (hnone a v u)
      | some b =>
          obtain ⟨rfl, hhost⟩ := hsplit a b u v (by simpa [hu, hv] using h)
          exact ⟨rfl, hhost⟩

/-- URLs of one upstream with one authority spell it alike. With a different split of the same text
they would not denote one host. -/
theorem SameUpstream.spelledAlike (hsame : SameUpstream u v) (h : u.authority = v.authority) :
    SpelledAlike u v := by
  obtain ⟨huser, hpart⟩ := parts_of_authority h
  have hlength : u.host.length = v.host.length := by
    simpa using congrArg List.length hsame.host
  obtain ⟨hhost, hport⟩ := List.append_inj hpart hlength
  refine ⟨huser, hhost, ?_⟩
  cases hu : u.port <;> cases hv : v.port <;> simp_all

theorem SpelledAlike.authority_eq (h : SpelledAlike u v) : u.authority = v.authority := by
  rw [authority, authority, userPart, userPart, hostPart, hostPart, h.userinfo, h.host, h.port]

end HttpUrl

/-! ### The breaker between them -/

/-- The breaker that refuses requests for `u` refuses those for `v`: both have one key, and a
request for `v` that the rate limit lets through is answered with 503 whenever `can_request` is
false for that of `u`. -/
structure AnswersForBoth (urlparse : String → Except String String) (u v : HttpUrl) : Prop where
  key : upstreamHost urlparse u.text = upstreamHost urlparse v.text
  refused : ∀ (p : Passage) (ctx : PipelineContext) (s s₁ : EffectWorld), p.urlparse = urlparse →
    p.http.Lawful → p.upstreamUrl = v.text → p.context = .ok ctx →
    on (p.limitStep ctx) s = (.ok none, s₁) →
    ∀ host, upstreamHost urlparse u.text = .ok host →
    (RedisCircuitBreaker.canRequest s₁.redis p.askedAt host).1 = false →
    ∃ response s₂, on p.handle s = (.ok response, s₂) ∧ response.statusCode = 503

theorem answersForBoth_of_key {urlparse : String → Except String String} {u v : HttpUrl}
    (h : upstreamHost urlparse u.text = upstreamHost urlparse v.text) :
    AnswersForBoth urlparse u v := by
  refine ⟨h, ?_⟩
  rintro p ctx s s₁ rfl hhttp hurl hctx hpassed host hhost hrefused
  have hkey : ctx.upstreamHost = host := by
    have hof := (GatewayController.contextOf_context hctx).upstreamHost
    rw [hurl, ← h, hhost] at hof
    exact (Except.ok.inj hof).symm
  have hstep := @on_breakerStep_of_refused p ctx s₁ (hkey ▸ hrefused)
  exact ⟨_, _, Passage.handle_of_refused hctx hpassed hstep, hhttp.json_statusCode _ _ _⟩

/-- **Who shares a breaker.** Of two URLs that denote the same host and port, the breaker of the
one answers for the other if and only if they write user information, host and port alike. The
network location of either is the text between `//` and the next delimiter. -/
theorem answersForBoth_iff {urlparse : String → Except String String} {u v : HttpUrl}
    (hu : urlparse u.text = .ok (netloc u.text)) (hv : urlparse v.text = .ok (netloc v.text))
    (hsame : u.SameUpstream v) : AnswersForBoth urlparse u v ↔ u.SpelledAlike v := by
  constructor
  · intro h
    have hkey := h.key
    rw [HttpUrl.upstreamHost_text hu, HttpUrl.upstreamHost_text hv] at hkey
    exact hsame.spelledAlike (String.ofList_injective (Except.ok.inj hkey))
  · intro h
    apply answersForBoth_of_key
    rw [HttpUrl.upstreamHost_text hu, HttpUrl.upstreamHost_text hv, h.authority_eq]

/-- `https://a.test/x`, the URL whose circuit is open in what follows. -/
def aTest : HttpUrl where
  scheme := "https".toList
  userinfo := none
  host := "a.test".toList
  port := none
  tail := "/x".toList
  scheme_http := by decide
  userinfo_chars := nofun
  host_chars := List.all_iff_forall_prop.mp (by decide)
  host_ne_nil := by decide
  port_digits := nofun
  tail_delimited := by
    intro c hc
    obtain rfl : '/' = c := Option.some.inj hc
    decide

/-- `https://A.test/x`, which a client connects to the same server for. -/
def capitalTest : HttpUrl :=
  { aTest with
    host := "A.test".toList
    host_chars := List.all_iff_forall_prop.mp (by decide)
    host_ne_nil := by decide }

/-- `https://a.test?y#z`, another resource of that server. -/
def otherResource : HttpUrl :=
  { aTest with
    tail := "?y#z".toList
    tail_delimited := by
      intro c hc
      obtain rfl : '?' = c := Option.some.inj hc
      decide }

/-- Path, query and fragment do not matter: the one circuit answers for both URLs. -/
theorem answersForBoth_resources : AnswersForBoth urlparse aTest otherResource :=
  (@answersForBoth_iff urlparse aTest otherResource (by decide +kernel) (by decide +kernel)
    ⟨rfl, rfl⟩).mpr ⟨rfl, rfl, rfl⟩

/-- The request of `turnedAway`, with the host in other letters. -/
def getsThrough : Passage :=
  { turnedAway with
    upstreamUrl := capitalTest.text
    req := ⟨⟨"GET", [], []⟩, "/proxy/https://A.test/x", .ok "/proxy/https://A.test/x", "",
      "10.0.0.1"⟩ }

/-- The context of that request, with the breaker key `A.test`. -/
def getsThroughContext : PipelineContext :=
  { turnedAwayContext with
    upstreamUrl := capitalTest.text
    path := "/proxy/https://A.test/x"
    upstreamHost := "A.test" }

/-- The case of the host does: the breaker has opened, and the request for the same host in
other letters is forwarded to the upstream, which answers it. -/
theorem answersForBoth_capital :
    aTest.SameUpstream capitalTest ∧ ¬ AnswersForBoth urlparse aTest capitalTest ∧
      let r := final (perform turnedAway.cb) .empty [(.breaker "a.test" .recordFailure, 0)]
      upstreamHost urlparse aTest.text = .ok "a.test" ∧
      getsThrough.context = .ok getsThroughContext ∧
      (RedisCircuitBreaker.canRequest
        (on (getsThrough.limitStep getsThroughContext) (.arrival r)).2.redis
          getsThrough.askedAt "a.test").1 = false ∧
        (on getsThrough.handle (.arrival r)).1.toOption.map Response.statusCode = some 200 := by
  refine ⟨⟨by decide, rfl⟩, ?_, by decide +kernel, by decide +kernel, by decide +kernel,
    by decide +kernel⟩
  intro h
  have hkey := h.key
  revert hkey
  decide +kernel

end RateGuardian
