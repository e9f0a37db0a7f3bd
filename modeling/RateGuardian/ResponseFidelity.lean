import RateGuardian.Gateway
import RateGuardian.ProxySound

/-!
# RateGuardian.ResponseFidelity

**Which header fields of the upstream reach the client.** On the way back `ProxyStep` turns the
fields into a dictionary, which has one entry a name, and removes three names from it, of which
two are hop-by-hop. On the way out the proxy drops nine. `fieldsKept_iff` says for which
responses of an upstream the difference does not show.

The fields of a message are compared as a collection, by a permutation of lists: their order across
names does not matter, but how often each occurs does. The fields that describe the body are left
out of the comparison, because the body is decoded on its way and its length and coding change; they
are the subject of `framed_iff`.

Two things can go wrong with a field. It can be lost in the dictionary, where the values of one name
are joined to a single field, which is not what the upstream sent even where it means the same. And
it can be left in the dictionary though it is hop-by-hop. `PassedOnWhole` excludes both, and nothing
else.
-/

namespace RateGuardian

open Lib Imp

/-! ### The dictionary of a header list

`httpx` makes a dictionary of the fields of a response: names in lower case, one entry for each
name, and the values of a name joined by commas. -/

/-- The fields under their lower-cased names, in their order, and none of them joined. -/
def lowered (headers : Headers) : Headers := headers.map fun h => (h.1.toLower, h.2)

def names (headers : Headers) : List String := headers.map fun h => h.1.toLower

theorem names_eq (headers : Headers) : names headers = (lowered headers).map Prod.fst := by
  simp [names, lowered]

theorem map_fst_headerDict (headers : Headers) :
    (headerDict headers).map Prod.fst = (names headers).eraseDups := by
  rw [headerDict, List.map_map]
  exact List.map_id _

theorem nodup_headerDict (headers : Headers) : ((headerDict headers).map Prod.fst).Nodup := by
  rw [map_fst_headerDict]
  exact nodup_eraseDups _

/-- An entry of the dictionary has a name that occurs, and the values given under it, joined. -/
theorem mem_headerDict {headers : Headers} {h : String × String} : h ∈ headerDict headers ↔
    h.1 ∈ names headers ∧
      h.2 = ", ".intercalate ((headers.filter fun f => f.1.toLower = h.1).map Prod.snd) := by
  obtain ⟨n, v⟩ := h
  simp only [headerDict, List.mem_map, List.mem_eraseDups, Prod.mk.injEq]
  constructor
  · rintro ⟨name, hname, rfl, rfl⟩
    exact ⟨by simpa [names] using hname, rfl⟩
  · rintro ⟨hname, hv⟩
    exact ⟨n, by simpa [names] using hname, rfl, hv.symm⟩

/-- What is given under a name that occurs once is passed on as it is. -/
theorem mem_headerDict_of_unique {headers : Headers} {n v : String}
    (hunique : (names headers).count n ≤ 1) :
    (n, v) ∈ headerDict headers ↔ (n, v) ∈ lowered headers := by
  have hlength : (headers.filter fun f => f.1.toLower = n).length ≤ 1 := by
    rwa [names, List.count, List.countP_map, List.countP_eq_length_filter] at hunique
  have hvalue : ∀ f ∈ headers, f.1.toLower = n →
      ", ".intercalate ((headers.filter fun f => f.1.toLower = n).map Prod.snd) = f.2 := by
    intro f hf hfn
    have hmem : f ∈ headers.filter fun f => f.1.toLower = n := by simp [hf, hfn]
    obtain ⟨g, hg⟩ := List.length_eq_one_iff.mp
      (le_antisymm hlength (List.length_pos_of_mem hmem))
    rw [hg] at hmem ⊢
    rw [List.mem_singleton.mp hmem]
    rfl
  rw [mem_headerDict]
  simp only [names, lowered, List.mem_map, Prod.mk.injEq]
  constructor
  · rintro ⟨⟨f, hf, hfn⟩, hv⟩
    exact ⟨f, hf, hfn, by rw [hv, hvalue f hf hfn]⟩
  · rintro ⟨f, hf, hfn, rfl⟩
    exact ⟨⟨f, hf, hfn⟩, (hvalue f hf hfn).symm⟩

/-! ### What of it is to reach the client

Which names are hop-by-hop is taken from the list that the proxy drops on the way out. -/

/-- The names of the fields that describe the body as it was transferred. -/
def bodyFields : List String := ["content-length", "content-encoding"]

/-- The names `ProxyStep` removes from the dictionary. -/
def removedNames : List String := ["content-encoding", "transfer-encoding", "connection"]

/-- The end-to-end fields of the upstream, other than those of the body. -/
def endToEndFields (headers : Headers) : Headers :=
  (lowered headers).filter fun h => h.1 ∉ hopByHop ∧ h.1 ∉ bodyFields

/-- No field of the upstream has a hop-by-hop name that is passed on, and no two of those to be
passed on have one name. -/
structure PassedOnWhole (headers : Headers) : Prop where
  removed : ∀ n ∈ names headers, n ∈ hopByHop → n ∈ removedNames
  distinct : ((names headers).filter fun n => n ∉ hopByHop ∧ n ∉ bodyFields).Nodup

theorem map_fst_endToEndFields (headers : Headers) : (endToEndFields headers).map Prod.fst =
    (names headers).filter fun n => n ∉ hopByHop ∧ n ∉ bodyFields := by
  rw [endToEndFields, names_eq, List.filter_map]
  rfl

/-- What the client gets of the dictionary, less the fields of the body. -/
theorem mem_keptHeaders {headers : Headers} {h : String × String} :
    h ∈ (keptHeaders headers).filter (fun h => h.1 ∉ bodyFields) ↔
      h ∈ headerDict headers ∧ h.1 ∉ removedNames ∧ h.1 ∉ bodyFields := by
  simp only [keptHeaders, List.mem_filter, decide_eq_true_eq, and_assoc]
  rfl

theorem nodup_keptHeaders (headers : Headers) :
    (((keptHeaders headers).filter fun h => h.1 ∉ bodyFields).map Prod.fst).Nodup :=
  (nodup_headerDict headers).sublist
    ((List.filter_sublist.trans List.filter_sublist).map Prod.fst)

theorem mem_endToEndFields {headers : Headers} {h : String × String} :
    h ∈ endToEndFields headers ↔
      h ∈ lowered headers ∧ h.1 ∉ hopByHop ∧ h.1 ∉ bodyFields := by
  simp only [endToEndFields, List.mem_filter, decide_eq_true_eq]

/-- Where the fields are passed on whole, a field that is to reach the client is the only one of its
name. -/
theorem PassedOnWhole.count_le_one {headers : Headers} (h : PassedOnWhole headers) {n : String}
    (hhop : n ∉ hopByHop) (hbody : n ∉ bodyFields) : (names headers).count n ≤ 1 := by
  have hcount := List.nodup_iff_count_le_one.mp h.distinct n
  rwa [List.count_filter (by simp [hhop, hbody])] at hcount

theorem PassedOnWhole.mem_iff {headers : Headers} (hwhole : PassedOnWhole headers)
    {h : String × String} :
    h ∈ (keptHeaders headers).filter (fun h => h.1 ∉ bodyFields) ↔
      h ∈ endToEndFields headers := by
  have hremoved : ∀ n ∈ removedNames, n ∈ hopByHop ∨ n ∈ bodyFields := by decide
  rw [mem_keptHeaders, mem_endToEndFields]
  constructor
  · intro hkept
    obtain ⟨hmem, hleft, hbody⟩ := hkept
    have hhop : h.1 ∉ hopByHop := fun hhop =>
      hleft (hwhole.removed h.1 (mem_headerDict.mp hmem).1 hhop)
    exact ⟨(mem_headerDict_of_unique (hwhole.count_le_one hhop hbody)).mp hmem, hhop, hbody⟩
  · intro hfield
    obtain ⟨hmem, hhop, hbody⟩ := hfield
    refine ⟨(mem_headerDict_of_unique (hwhole.count_le_one hhop hbody)).mpr hmem, ?_, hbody⟩
    intro hleft
    exact (hremoved h.1 hleft).elim hhop hbody

/-- If the dictionary holds the end-to-end fields, every hop-by-hop name that occurs is removed from
it, since one that was not would be left. -/
theorem removed_of_perm {headers : Headers}
    (hperm : ((keptHeaders headers).filter fun h => h.1 ∉ bodyFields).Perm
      (endToEndFields headers)) :
    ∀ n ∈ names headers, n ∈ hopByHop → n ∈ removedNames := by
  have hbody : ∀ n ∈ hopByHop, n ∉ bodyFields := by decide
  intro n hn hhop
  by_contra hleft
  obtain ⟨h, hh, rfl⟩ : ∃ h ∈ headerDict headers, h.1 = n := by
    rw [← List.mem_eraseDups, ← map_fst_headerDict, List.mem_map] at hn
    exact hn
  have hmem := hperm.subset (mem_keptHeaders.mpr ⟨hh, hleft, hbody h.1 hhop⟩)
  exact (mem_endToEndFields.mp hmem).2.1 hhop

/-- The dictionary holds the end-to-end fields exactly where none is lost in it and no other
field is left in it. -/
theorem keptHeaders_perm_iff (headers : Headers) :
    ((keptHeaders headers).filter fun h => h.1 ∉ bodyFields).Perm (endToEndFields headers) ↔
      PassedOnWhole headers := by
  constructor
  · intro hperm
    refine ⟨removed_of_perm hperm, ?_⟩
    rw [← map_fst_endToEndFields]
    exact (hperm.map Prod.fst).nodup_iff.mp (nodup_keptHeaders headers)
  · intro hwhole
    have hdistinct := hwhole.distinct
    rw [← map_fst_endToEndFields] at hdistinct
    rw [List.perm_ext_iff_of_nodup (nodup_keptHeaders headers).of_map hdistinct.of_map]
    exact fun h => hwhole.mem_iff

/-! ### The response that is built

The step builds a response of the status, the body and the dictionary. What Starlette does with the
fields that it is given is the one thing assumed of it here. -/

/-- The response holds, besides the computed `content-length`, the fields that it is given under
lower-cased names. -/
def Starlette.KeepsFields (http : Starlette) : Prop :=
  ∀ content status headers r, http.response content status headers = .ok r →
    (∀ h ∈ headers, ∃ name : String, h.1 = name.toLower) →
      r.headers.filter (fun h => h.1 ≠ "content-length") =
        headers.filter fun h => h.1 ≠ "content-length"

theorem Starlette.documented_keepsFields : Starlette.documented.KeepsFields := by
  intro content status headers r h _
  have hlength : ∀ body, (contentLengthField status body).filter
      (fun h => h.1 ≠ "content-length") = [] := by
    intro body
    rw [contentLengthField]
    split <;> rfl
  rw [(response_documented_ok h).2]
  simp only [responseHeaders, List.filter_append]
  split
  · simp
  · rw [hlength, List.append_nil]

namespace ProxyStep

section Execute

variable {σ : Type} {http : Starlette} {events : EventManager σ} {proxy : ProxyBase σ}
  {circuitBreaker : CircuitBreakerBase σ} {done failed : Time} {ctx ctx' : PipelineContext}
  {s s₁ s' : σ} {up : UpstreamResponse}

/-- The handler of an upstream error answers the request itself, whatever the exception was. -/
theorem handler_answers {exc : PyException} : on (do
      circuitBreaker.recordFailure ctx.upstreamHost
      events.emit (blockedEvent ctx 502 (latencyMs ctx failed) "upstream_error")
      return (some (badGateway http exc), ctx)) s ≠ (.ok (none, ctx'), s') := by
  rw [on_bind]
  rcases on (circuitBreaker.recordFailure ctx.upstreamHost) s with ⟨_ | _, s₂⟩
  · simp
  · simp only
    rw [on_bind]
    rcases on (events.emit (blockedEvent ctx 502 (latencyMs ctx failed) "upstream_error")) s₂
      with ⟨_ | _, s₃⟩
    · simp
    · simp

/-- The step answers through the context with the response it builds of the upstream's. -/
theorem response_of_execute
    (hforward : on (proxy.forward ctx.request ctx.upstreamUrl) s = (.ok up, s₁))
    (h : on (execute http events proxy circuitBreaker done failed ctx) s =
      (.ok (none, ctx'), s')) :
    ∃ r, http.response up.content up.statusCode (keptHeaders up.headers) = .ok r ∧
      ctx'.response = some r := by
  rw [execute, on_handle, on_bind_ok hforward, on_bind] at h
  rcases hrecord : on (circuitBreaker.recordSuccess ctx.upstreamHost) s₁ with ⟨_ | _, s₂⟩
  · rw [hrecord] at h
    exact absurd h handler_answers
  · rw [hrecord] at h
    simp only at h
    rw [on_bind] at h
    rcases hemit : on (events.emit (forwardedEvent ctx up.statusCode (latencyMs ctx done))) s₂
      with ⟨_ | _, s₃⟩
    · rw [hemit] at h
      exact absurd h handler_answers
    · rw [hemit] at h
      simp only at h
      rw [on_bind, on_lift] at h
      cases hresponse : http.response up.content up.statusCode (keptHeaders up.headers) with
      | error exc =>
          rw [hresponse] at h
          exact absurd h handler_answers
      | ok r =>
          rw [hresponse] at h
          simp only [on_pure, Prod.mk.injEq, Except.ok.injEq, true_and] at h
          exact ⟨r, rfl, by rw [← h.1]⟩

/-- The header fields of the response are those of the upstream, apart from the hop-by-hop ones
and those that describe the transferred body. -/
def FieldsKept (headers : Headers) (response : Response) : Prop :=
  (response.headers.filter fun h => h.1 ∉ bodyFields).Perm (endToEndFields headers)

theorem filter_of_response (hhttp : http.KeepsFields) {content : Bytes} {status : ℕ}
    {headers : Headers} {r : Response}
    (h : http.response content status (keptHeaders headers) = .ok r) :
    r.headers.filter (fun h => h.1 ∉ bodyFields) =
      (keptHeaders headers).filter fun h => h.1 ∉ bodyFields := by
  have hlower : ∀ h ∈ keptHeaders headers, ∃ name : String, h.1 = name.toLower := by
    intro h hh
    obtain ⟨f, -, hf⟩ := List.mem_map.mp (mem_headerDict.mp (List.mem_filter.mp hh).1).1
    exact ⟨f.1, hf.symm⟩
  have hkeeps := congrArg (List.filter fun h => h.1 ∉ bodyFields)
    (hhttp _ _ _ _ h hlower)
  have hweaker : ∀ h : String × String,
      (decide (h.1 ∉ bodyFields) && decide (h.1 ≠ "content-length")) =
        decide (h.1 ∉ bodyFields) := by
    intro h
    by_cases hname : h.1 = "content-length" <;> simp [bodyFields, hname]
  simpa only [List.filter_filter, hweaker] using hkeeps

/-- **Which responses keep their fields.** The response that the step builds of an upstream's has
exactly the fields of the upstream that are not hop-by-hop, if and only if no hop-by-hop name but
those that the step removes occurs, and no two of the other fields have one name. -/
theorem fieldsKept_iff {σ : Type} {http : Starlette} {events : EventManager σ}
    {proxy : ProxyBase σ} {circuitBreaker : CircuitBreakerBase σ} {done failed : Time}
    {ctx ctx' : PipelineContext} {s s₁ s' : σ} {up : UpstreamResponse} {response : Response}
    (hhttp : http.KeepsFields)
    (hforward : on (proxy.forward ctx.request ctx.upstreamUrl) s = (.ok up, s₁))
    (hrun : on (execute http events proxy circuitBreaker done failed ctx) s =
      (.ok (none, ctx'), s'))
    (hbuilt : ctx'.response = some response) :
    FieldsKept up.headers response ↔ PassedOnWhole up.headers := by
  obtain ⟨r, hresponse, hctx⟩ := response_of_execute hforward hrun
  obtain rfl : r = response := Option.some.inj (hctx.symm.trans hbuilt)
  rw [FieldsKept, filter_of_response hhttp hresponse, keptHeaders_perm_iff]

end Execute

/-- The response of an upstream that sets two cookies. -/
def twoCookies : UpstreamResponse :=
  ⟨200, [("Content-Type", "text/plain"), ("Set-Cookie", "a=1"), ("Set-Cookie", "b=2")], []⟩

/-- The response of an upstream with one field of each kind, and none that goes wrong. -/
def plainFields : UpstreamResponse :=
  ⟨200, [("Content-Type", "text/plain"), ("Connection", "close"), ("ETag", "x")], []⟩

/-- The two cookies become one field, which a client does not read as two. -/
theorem fieldsKept_twoCookies :
    let ctx' := { exampleContext with
      response := some ⟨200, [("content-type", "text/plain"), ("set-cookie", "a=1, b=2"),
        ("content-length", "0")], []⟩ }
    on (recorded Starlette.documented 1 1 (.ok twoCookies) exampleContext) [] =
        (.ok (none, ctx'), successCalls exampleContext 1 twoCookies) ∧
      ∀ response, ctx'.response = some response → ¬ FieldsKept twoCookies.headers response := by
  intro ctx'
  refine ⟨execute_of_ok exampleContext 1 1 [] (by decide +kernel), ?_⟩
  rintro response hbuilt hkept
  obtain rfl := Option.some.inj hbuilt
  have hlength := hkept.length_eq
  revert hlength
  decide +kernel

theorem fieldsKept_plainFields :
    FieldsKept plainFields.headers ⟨200, [("content-type", "text/plain"), ("etag", "x"),
      ("content-length", "0")], []⟩ :=
  (fieldsKept_iff Starlette.documented_keepsFields rfl
    (execute_of_ok exampleContext 1 1 [] (by decide +kernel)) rfl).mpr
    ⟨by decide +kernel, by decide +kernel⟩

end ProxyStep

end RateGuardian
