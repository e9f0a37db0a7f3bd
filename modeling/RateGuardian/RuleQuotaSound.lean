import RateGuardian.RuleQuota
import RateGuardian.ProxySound
import RateGuardian.Lib.Fnmatch
import Mathlib.Tactic.Linarith

/-!
# RateGuardian.RuleQuotaSound

**When a rule's limit holds.** Any two rules that apply to some path can meet on one limiter
key (the address `global` is one a client can claim), and then each prunes and expires the
other's entries. A rule is safe from another one, `Sheltered`, if the other's window is not
shorter; a rule with limit 1 is also safe from some shorter windows, because whatever removes
its entry leaves a younger one.

`enforced_iff` is exact: a rule is enforced in every run if and only if it is sheltered from
every rule that applies to some path.

* Sufficiency keeps an invariant of the sorted set at every later reading: every admission
  that counts is in it (`Shows`), or, for limit 1, something at least as young is (`Blocks`).
  `KeptView` says what such an invariant has to satisfy, and both are instances of it, so that
  the induction over the run is made once (`KeptView.windowBounded`).
* Necessity is three runs, one for each way not to be sheltered. They have the same shape: the
  rule's own requests use its limit up, a request for the other rule makes room, and one more
  request of its own is let through (`breakable_of_intrusion`).

The clients of a run are arbitrary strings, so a rule counted by client and a global rule can
share a key. The condition is on the rules alone, not on the requests: any two rules that apply to
some path are made to meet by some run.
-/

namespace RateGuardian

open Lib Redis RuleRepository SlidingWindowRateLimiter

/-! ### The quota of a rule

A limit is a statement about a run as a whole: the requests that were let through for the rule,
with the readings at which they came, and no half-open window with more than `limit` of them. -/

abbrev QuotaStep := Transition GatewayWorld (LimitedRequest × Bool)

/-- The request counts for the quota that `rule` grants to `client`. -/
def Rule.counts (rule : Rule) (client : String) (req : LimitedRequest) : Bool :=
  match rule.keyType with
  | .ip => req.ctx.clientIp = client
  | .global => true

theorem Rule.counts_iff {rule : Rule} {client : String} {req : LimitedRequest} :
    rule.counts client req = true ↔
      rateLimitKey rule req.ctx.clientIp = rateLimitKey rule client := by
  unfold Rule.counts rateLimitKey
  cases rule.keyType <;> simp

section Quota

variable (http : Starlette) (fnmatch : String → String → Bool) (db : RuleTable)

/-- When the requests were made that `match` assigned to `rule` and `RateLimitStep` let
through, of those that count for `client`. -/
def passedTimes (rule : Rule) (client : String) (tr : List QuotaStep) : List Time :=
  (tr.filter fun t =>
    (RuleRepository.match fnmatch db t.pre.redis t.label.1.now t.label.1.ctx.path).1 = some rule ∧
      t.label.2 = true ∧ rule.counts client t.label.1 = true).map fun t => t.label.1.now

/-- The limit of `rule` holds in `tr`, for each client by itself or for all of them together, as the
key type says. -/
def Enforced (rule : Rule) (tr : List QuotaStep) : Prop :=
  ∀ client, WindowBounded (rule.windowSeconds : Time) rule.limit.toNat
    (passedTimes fnmatch db rule client tr)

/-- The rule applies to some path: it is the rule that `match` finds for it. -/
def Applies (rule : Rule) : Prop := ∃ path, assigned fnmatch db path = some rule

/-- What `other` does to a shared key cannot make room for `rule`. -/
def Sheltered (rule other : Rule) : Prop :=
  rule.windowSeconds ≤ other.windowSeconds ∨
    (rule.limit = 1 ∧ (rule.windowSeconds ≤ other.windowSeconds + 1 ∨
      (other.limit = 1 ∧ rule.windowSeconds ≤ 2 * other.windowSeconds + 1)))

/-- The state after the requests, from an empty database. -/
def afterRequests (reqs : List LimitedRequest) : GatewayWorld :=
  final (rateLimit http fnmatch db) .initial reqs

/-- The readings at which requests of the run passed that count for `client` under `rule`. -/
def passed (rule : Rule) (client : String) (reqs : List LimitedRequest) : List Time :=
  passedTimes fnmatch db rule client (trace (rateLimit http fnmatch db) .initial reqs)

variable {http fnmatch db}

theorem mem_of_assigned {path : String} {rule : Rule} (h : assigned fnmatch db path = some rule) :
    rule ∈ db := by
  have hmem : rule ∈ activeRules db := List.mem_of_find?_eq_some h
  rw [activeRules, List.mem_insertionSort] at hmem
  exact (List.mem_filter.mp hmem).1

/-- The run lemma for the database: the cache is sound, and the limiter keys hold sorted sets. -/
theorem afterRequests_sound (reqs : List LimitedRequest) :
    CacheSound db (afterRequests http fnmatch db reqs).redis ∧
      ∀ key, IsZset ((afterRequests http fnmatch db reqs).slot key) := by
  induction reqs using List.reverseRecOn with
  | nil => exact ⟨cacheSound_empty, fun _ => isZset_none⟩
  | append_singleton reqs req ih =>
      obtain ⟨hsound, hzset⟩ := ih
      rw [afterRequests, final_concat]
      refine ⟨(rateLimit_slot hsound req "" (hzset "")).1, ?_⟩
      intro key
      rcases (@rateLimit_slot http fnmatch db _ hsound req key (hzset key)).2 with
        ⟨-, hslot⟩ | ⟨rule, -, -, hchecked⟩
      · rw [show final (rateLimit http fnmatch db) .initial reqs =
          afterRequests http fnmatch db reqs from rfl, hslot]
        exact hzset key
      · exact hchecked.isZset

theorem passed_concat (rule : Rule) (client : String) (reqs : List LimitedRequest)
    (req : LimitedRequest) : passed http fnmatch db rule client (reqs ++ [req]) =
      passed http fnmatch db rule client reqs ++
        if assigned fnmatch db req.ctx.path = some rule ∧
            (rateLimit http fnmatch db (afterRequests http fnmatch db reqs) req).1 = true ∧
            rule.counts client req = true then [req.now] else [] := by
  have hsound := (@afterRequests_sound http fnmatch db reqs).1
  have hmatch := (@match_spec fnmatch db _ hsound req.now req.ctx.path).1
  rw [passed, passedTimes, trace_concat, List.filter_append, List.map_append, List.filter_singleton]
  show _ ++ List.map _ (bif decide ((RuleRepository.match fnmatch db
    (afterRequests http fnmatch db reqs).redis req.now req.ctx.path).1 = some rule ∧
      (rateLimit http fnmatch db (afterRequests http fnmatch db reqs) req).1 = true ∧ _) then _
      else _) = _
  simp only [hmatch]
  split
  next h => simp only [h, and_self, decide_true, cond_true]; rfl
  next h => simp only [h, decide_false, cond_false]; rfl

/-- A request either leaves the key of a quota alone, and is none of that quota's, or is
checked against it. -/
theorem quota_step (rule : Rule) (client : String) (reqs : List LimitedRequest)
    (req : LimitedRequest) :
    ((∀ other, assigned fnmatch db req.ctx.path = some other →
        rateLimitKey other req.ctx.clientIp ≠ rateLimitKey rule client) ∧
      (afterRequests http fnmatch db (reqs ++ [req])).slot (rateLimitKey rule client) =
        (afterRequests http fnmatch db reqs).slot (rateLimitKey rule client) ∧
      passed http fnmatch db rule client (reqs ++ [req]) =
        passed http fnmatch db rule client reqs) ∨
    ∃ other ans, assigned fnmatch db req.ctx.path = some other ∧
      Checked req.now other.limit other.windowSeconds
        ((afterRequests http fnmatch db reqs).slot (rateLimitKey rule client)) ans
        ((afterRequests http fnmatch db (reqs ++ [req])).slot (rateLimitKey rule client)) ∧
      passed http fnmatch db rule client (reqs ++ [req]) =
        passed http fnmatch db rule client reqs ++
          if other = rule ∧ ans = true then [req.now] else [] := by
  obtain ⟨hsound, hzset⟩ := @afterRequests_sound http fnmatch db reqs
  have hafter : afterRequests http fnmatch db (reqs ++ [req]) =
      (rateLimit http fnmatch db (afterRequests http fnmatch db reqs) req).2 :=
    final_concat _ _ _ _
  rw [hafter, passed_concat]
  rcases (@rateLimit_slot http fnmatch db _ hsound req (rateLimitKey rule client)
    (hzset _)).2 with ⟨hother, hslot⟩ | ⟨other, hassigned, hkey, hchecked⟩
  · left
    refine ⟨hother, hslot, ?_⟩
    rw [if_neg, List.append_nil]
    intro h
    exact hother rule h.1 (Rule.counts_iff.mp h.2.2)
  · right
    refine ⟨other, _, hassigned, hchecked, ?_⟩
    congr 1
    by_cases heq : other = rule
    · subst heq
      have hcounts := Rule.counts_iff.mpr hkey
      simp [hassigned, hcounts]
    · simp [hassigned, heq]

theorem passed_sublist (rule : Rule) (client : String) (reqs : List LimitedRequest) :
    (passed http fnmatch db rule client reqs).Sublist (reqs.map LimitedRequest.now) := by
  induction reqs using List.reverseRecOn with
  | nil => exact List.Sublist.slnil
  | append_singleton reqs req ih =>
      rw [passed_concat, List.map_append]
      refine ih.append ?_
      split
      · exact List.Sublist.refl _
      · exact List.nil_sublist _

end Quota

/-! ### What a check leaves of another rule's admissions

Two views of the sorted set, each of which bounds the admissions that count. The first loses
admissions to a shorter window; the second survives it as long as whatever removed an admission is
at least as young. -/

/-- Every admission of `A` that counts at `now` is in the set. -/
def Shows (w : ℤ) (A : List Time) (now : Time) (s : Slot Time Value) : Prop :=
  ∀ t ∈ counted now w A, (t, t) ∈ (zview now s).entries

/-- For every admission of `A` that counts at `now`, an entry at least as young is in the set. -/
def Blocks (w : ℤ) (A : List Time) (now : Time) (s : Slot Time Value) : Prop :=
  ∀ t ∈ counted now w A, ∃ e ∈ (zview now s).entries, t ≤ e.2

section View

variable {limit w w' : ℤ} {A : List Time} {now now' : Time} {s s' : Slot Time Value}

/-- What is visible at a later reading was visible before: between two commands entries only
expire. -/
theorem mem_zview_anti {e : Time × Time} (hle : now ≤ now') (he : e ∈ (zview now' s).entries) :
    zview now s = zview now' s := by
  cases hlive : Slot.live now' s with
  | none =>
      rw [zview_of_live_none hlive] at he
      cases he
  | some entry => rw [zview, zview, Slot.read, Slot.read, hlive, Slot.live_anti hle hlive]

/-- Before the deadline that an admission sets, the set is what that admission stored. -/
theorem Checked.zview_eq (h : Checked now limit w' s true s') (hlt : now' < now + (w' + 1)) :
    zview now' s' = (window now w' s).add now now := by
  rw [h.of_allowed rfl, if_pos hlt]

theorem Checked.zview_expired (h : Checked now limit w' s true s') (hle : now + (w' + 1) ≤ now') :
    zview now' s' = .empty := by
  rw [h.of_allowed rfl, if_neg (not_lt.mpr hle)]

theorem Shows.mono {A' : List Time} (h : Shows w A' now s) (hsub : A ⊆ A') : Shows w A now s := by
  intro t ht
  obtain ⟨hmem, hcounts⟩ := mem_counted.mp ht
  exact h t (mem_counted.mpr ⟨hsub hmem, hcounts⟩)

theorem Shows.allowed (h : Shows w A now s) (hchecked : Checked now limit w' s true s')
    (hw : w ≤ w') (hA : ∀ t ∈ A, t < now) (hlt : now < now') : Shows w (A ++ [now]) now' s' := by
  have hw : (w : Time) ≤ w' := by exact_mod_cast hw
  intro t ht
  obtain ⟨hmem, hcounts⟩ := mem_counted.mp ht
  have hle : t ≤ now := by
    rcases List.mem_append.mp hmem with hmem | hmem
    · exact (hA t hmem).le
    · exact (List.mem_singleton.mp hmem).le
  -- what counts at `now'` is younger than `now' - w`, so the deadline is still ahead
  rw [hchecked.zview_eq (by linarith), SortedSet.mem_add, mem_window]
  rcases List.mem_append.mp hmem with hmem | hmem
  · right
    have hold : (t, t) ∈ (zview now s).entries := h t (mem_counted.mpr ⟨hmem, by linarith⟩)
    exact ⟨⟨hold, show now - w' < t by linarith⟩, (hA t hmem).ne⟩
  · left
    rw [List.mem_singleton.mp hmem]

theorem Shows.rejected (h : Shows w A now' s) (hchecked : Checked now limit w' s false s')
    (hw : w ≤ w') (hlt : now < now') : Shows w A now' s' := by
  have hw : (w : Time) ≤ w' := by exact_mod_cast hw
  intro t ht
  rw [hchecked.of_rejected rfl now' hlt.le, SortedSet.mem_removeUpTo]
  have hcounts := (mem_counted.mp ht).2
  exact ⟨h t ht, show now - w' < t by linarith⟩

theorem Shows.length_le (h : Shows w A now s) (hnd : A.Nodup) :
    (counted now w A).length ≤ (window now w s).card := by
  have hinj : Function.Injective fun t : Time => (t, t) := fun _ _ heq => congrArg Prod.fst heq
  rw [← List.length_map fun t : Time => (t, t)]
  refine SortedSet.length_le_card ((hnd.sublist List.filter_sublist).map hinj) ?_
  intro e he
  obtain ⟨t, ht, rfl⟩ := List.mem_map.mp he
  exact mem_window.mpr ⟨h t ht, (mem_counted.mp ht).2⟩

/-- After an admission its own entry is young enough to stand for all others, until the key's
deadline. -/
theorem Checked.blocks (hchecked : Checked now limit w' s true s') (hw : w ≤ w' + 1)
    (hA : ∀ t ∈ A, t ≤ now) : Blocks w A now' s' := by
  have hw : (w : Time) ≤ w' + 1 := by exact_mod_cast hw
  intro t ht
  obtain ⟨hmem, hcounts⟩ := mem_counted.mp ht
  have hle := hA t hmem
  refine ⟨(now, now), ?_, hle⟩
  rw [hchecked.zview_eq (by linarith), SortedSet.mem_add]
  exact Or.inl rfl

/-- With limit 1 an admission finds the window empty, so what it blocks is older than that. -/
theorem Blocks.allowed (h : Blocks w A now s) (hchecked : Checked now 1 w' s true s')
    (hw : w ≤ 2 * w' + 1) (hA : ∀ t ∈ A, t < now) (hlt : now < now') : Blocks w A now' s' := by
  have hw : (w : Time) ≤ 2 * w' + 1 := by exact_mod_cast hw
  intro t ht
  obtain ⟨hmem, hcounts⟩ := mem_counted.mp ht
  obtain ⟨e, he, hle⟩ := h t (mem_counted.mpr ⟨hmem, by linarith⟩)
  -- an entry above the bound of the prune would have made the count
  have hold : e.2 ≤ now - w' := by
    refine not_lt.mp fun hyoung => ?_
    have hcard := hchecked.allowed_iff.mp rfl
    have hpos : 0 < (window now w' s).card :=
      List.length_pos_of_mem (mem_window.mpr ⟨he, hyoung⟩)
    omega
  refine ⟨(now, now), ?_, (hA t hmem).le⟩
  rw [hchecked.zview_eq (by linarith), SortedSet.mem_add]
  exact Or.inl rfl

/-- A rejection leaves an entry that is younger than everything it prunes. -/
theorem Blocks.rejected (h : Blocks w A now' s) (hchecked : Checked now limit w' s false s')
    (hlimit : 0 < limit) (hlt : now < now') : Blocks w A now' s' := by
  intro t ht
  obtain ⟨e, he, hle⟩ := h t ht
  rw [hchecked.of_rejected rfl now' hlt.le]
  by_cases hyoung : now - w' < e.2
  · exact ⟨e, SortedSet.mem_removeUpTo.mpr ⟨he, hyoung⟩, hle⟩
  · -- it is pruned, and one of the entries that made the count takes its place
    have hcard : ¬ ((window now w' s).card : ℤ) < limit := by
      rw [← hchecked.allowed_iff]
      decide
    obtain ⟨e', he'⟩ : ∃ e', e' ∈ (window now w' s).entries :=
      List.exists_mem_of_length_pos (show 0 < (window now w' s).card by omega)
    obtain ⟨hmem, hyoung'⟩ := mem_window.mp he'
    rw [mem_zview_anti hlt.le he] at hmem
    exact ⟨e', SortedSet.mem_removeUpTo.mpr ⟨hmem, hyoung'⟩, by linarith⟩

theorem Blocks.counted_eq_nil (h : Blocks w A now s) (hcard : (window now w s).card = 0) :
    counted now w A = [] := by
  refine List.eq_nil_iff_forall_not_mem.mpr fun t ht => ?_
  obtain ⟨e, he, hle⟩ := h t ht
  have hmem : e ∈ (window now w s).entries :=
    mem_window.mpr ⟨he, (mem_counted.mp ht).2.trans_le hle⟩
  rw [SortedSet.card_eq_zero.mp hcard] at hmem
  cases hmem

end View

/-! ### Sheltered rules are enforced

The induction over a run is on the requests so far, and its hypothesis speaks of every later
reading, since the next request may come whenever it will. -/

/-- A view of the set at a reading that bounds what counts for `rule`, and that the checks for
the rules in `others` keep. -/
structure KeptView (rule : Rule) (others : Rule → Prop)
    (V : List Time → Time → Slot Time Value → Prop) : Prop where
  start : ∀ now s, V [] now s
  allowed : ∀ {other A now now' s s'}, others other → (∀ t ∈ A, t < now) → now < now' →
    V A now s → Checked now other.limit other.windowSeconds s true s' →
    V (A ++ if other = rule then [now] else []) now' s'
  rejected : ∀ {other A now now' s s'}, others other → now < now' →
    V A now' s → Checked now other.limit other.windowSeconds s false s' → V A now' s'
  fewer : ∀ {A now s}, A.Nodup → V A now s →
    ((window now rule.windowSeconds s).card : ℤ) < rule.limit →
    (counted now (rule.windowSeconds : Time) A).length < rule.limit.toNat

theorem keptView_shows {rule : Rule} {others : Rule → Prop}
    (h : ∀ other, others other → rule.windowSeconds ≤ other.windowSeconds) :
    KeptView rule others (Shows rule.windowSeconds) where
  start _ _ := nofun
  allowed := by
    intro other A now now' s s' hother hA hlt hview hchecked
    refine (hview.allowed hchecked (h other hother) hA hlt).mono ?_
    split <;> simp
  rejected hother hlt hview hchecked := hview.rejected hchecked (h _ hother) hlt
  fewer hnd hview hcard := by
    have hle := hview.length_le hnd
    omega

theorem keptView_blocks {rule : Rule} {others : Rule → Prop} (hone : rule.limit = 1)
    (hlimit : ∀ other, others other → 0 < other.limit)
    (h : ∀ other, others other → rule.windowSeconds ≤ other.windowSeconds + 1 ∨
      (other.limit = 1 ∧ rule.windowSeconds ≤ 2 * other.windowSeconds + 1)) :
    KeptView rule others (Blocks rule.windowSeconds) where
  start _ _ := nofun
  allowed := by
    intro other A now now' s s' hother hA hlt hview hchecked
    by_cases hnear : rule.windowSeconds ≤ other.windowSeconds + 1
    · refine hchecked.blocks hnear ?_
      intro t ht
      rcases List.mem_append.mp ht with ht | ht
      · exact (hA t ht).le
      · split at ht
        · exact (List.mem_singleton.mp ht).le
        · cases ht
    · -- the rule's own window is not that far, so this is another rule
      obtain ⟨hother1, hfar⟩ := (h other hother).resolve_left hnear
      have hne : other ≠ rule := by
        intro heq
        subst heq
        omega
      rw [if_neg hne, List.append_nil]
      rw [hother1] at hchecked
      exact hview.allowed hchecked hfar hA hlt
  rejected hother hlt hview hchecked := hview.rejected hchecked (hlimit _ hother) hlt
  fewer _ hview hcard := by
    rw [hview.counted_eq_nil (by omega), hone]
    decide

section Enforced

variable {http : Starlette} {fnmatch : String → String → Bool} {db : RuleTable}

/-- The run lemma: a kept view holds at every later reading, and the limit holds so far. -/
theorem KeptView.windowBounded {rule : Rule} {V : List Time → Time → Slot Time Value → Prop}
    (h : KeptView rule (Applies fnmatch db) V) (client : String) (reqs : List LimitedRequest)
    (hinc : (reqs.map LimitedRequest.now).Pairwise (· < ·)) :
    (∀ now, (∀ req ∈ reqs, req.now < now) → V (passed http fnmatch db rule client reqs) now
      ((afterRequests http fnmatch db reqs).slot (rateLimitKey rule client))) ∧
    WindowBounded (rule.windowSeconds : Time) rule.limit.toNat
      (passed http fnmatch db rule client reqs) := by
  induction reqs using List.reverseRecOn with
  | nil => exact ⟨fun now _ => h.start now _, windowBounded_nil _ _⟩
  | append_singleton reqs req ih =>
      rw [List.map_append, List.pairwise_append] at hinc
      obtain ⟨hinc, -, hlast⟩ := hinc
      have hreq : ∀ r ∈ reqs, r.now < req.now := fun r hr =>
        hlast _ (List.mem_map_of_mem hr) _ (by simp)
      obtain ⟨hview, hbound⟩ := ih hinc
      have hsub := @passed_sublist http fnmatch db rule client reqs
      have hpast : ∀ t ∈ passed http fnmatch db rule client reqs, t < req.now := fun t ht =>
        hlast t (hsub.subset ht) _ (by simp)
      rcases quota_step rule client reqs req with
        ⟨-, hslot, hpassed⟩ | ⟨other, ans, hassigned, hchecked, hpassed⟩
      · rw [hslot, hpassed]
        exact ⟨fun now hnow => hview now fun r hr => hnow r (List.mem_append_left _ hr), hbound⟩
      · have happlies : Applies fnmatch db other := ⟨_, hassigned⟩
        rw [hpassed]
        -- an admission reads the view at its own time, a rejection keeps the later one
        cases ans with
        | true =>
            simp only [and_true]
            constructor
            · intro now hnow
              exact h.allowed happlies hpast (hnow req (by simp)) (hview _ hreq) hchecked
            · split
              next heq =>
                subst heq
                have hnd := (hinc.sublist hsub).imp ne_of_lt
                exact hbound.concat (h.fewer hnd (hview _ hreq) (hchecked.allowed_iff.mp rfl))
              next => simpa using hbound
        | false =>
            simp only [Bool.false_eq_true, and_false, if_false, List.append_nil]
            refine ⟨fun now hnow => ?_, hbound⟩
            exact h.rejected happlies (hnow req (by simp))
              (hview now fun r hr => hnow r (List.mem_append_left _ hr)) hchecked

theorem enforced_of_sheltered {rule : Rule} (hpos : ∀ r ∈ db, 1 ≤ r.limit)
    (hshelter : ∀ other, Applies fnmatch db other → Sheltered rule other)
    (reqs : List LimitedRequest) (hinc : (reqs.map LimitedRequest.now).Pairwise (· < ·)) :
    Enforced fnmatch db rule (trace (rateLimit http fnmatch db) .initial reqs) := by
  intro client
  by_cases hone : rule.limit = 1
  · have hkept : KeptView rule (Applies fnmatch db) (Blocks rule.windowSeconds) := by
      refine keptView_blocks hone ?_ ?_
      · intro other hother
        obtain ⟨path, hassigned⟩ := hother
        exact hpos other (mem_of_assigned hassigned)
      · intro other hother
        rcases hshelter other hother with hle | ⟨-, hle⟩
        · exact Or.inl (by omega)
        · exact hle
    exact (hkept.windowBounded client reqs hinc).2
  · have hkept : KeptView rule (Applies fnmatch db) (Shows rule.windowSeconds) := by
      refine keptView_shows ?_
      intro other hother
      exact (hshelter other hother).resolve_right fun hone' => hone hone'.1
    exact (hkept.windowBounded client reqs hinc).2

/-- A rule that applies to no path is enforced, as it has no requests to bound. -/
theorem enforced_of_not_applies {rule : Rule} (h : ¬ Applies fnmatch db rule)
    (reqs : List LimitedRequest) :
    Enforced fnmatch db rule (trace (rateLimit http fnmatch db) .initial reqs) := by
  intro client
  have hnone : passed http fnmatch db rule client reqs = [] := by
    induction reqs using List.reverseRecOn with
    | nil => rfl
    | append_singleton reqs req ih =>
        rw [passed_concat, ih, if_neg fun hreq => h ⟨_, hreq.1⟩]
        rfl
  rw [passed] at hnone
  rw [hnone]
  exact windowBounded_nil _ _

end Enforced

/-! ### A rule that is not sheltered

The runs are made of visits, requests without headers whose address is the client's. Their readings
are chosen so that the limiter decides each of them as wanted. -/

/-- The set holds admissions at `A` and nothing else. -/
def OnlyIn (A : List Time) (z : SortedSet Time Time) : Prop :=
  ∀ e ∈ z.entries, e ∈ A.map fun t => (t, t)

theorem OnlyIn.card_lt {A : List Time} {z : SortedSet Time Time} {k : ℤ} (h : OnlyIn A z)
    (hk : (A.length : ℤ) < k) : (z.card : ℤ) < k := by
  have hle := (z.nodup_entries.subperm h).length_le
  rw [List.length_map] at hle
  have hcard : z.card ≤ A.length := hle
  omega

theorem OnlyIn.window {A : List Time} {now : Time} {w : ℤ} {s : Slot Time Value}
    (h : OnlyIn A (zview now s)) : OnlyIn A (window now w s) :=
  fun e he => h e (mem_window.mp he).1

/-- A window that none of the admissions falls into is empty after the prune. -/
theorem OnlyIn.pruned {A : List Time} {now : Time} {w : ℤ} {s : Slot Time Value}
    (h : OnlyIn A (zview now s)) (hA : ∀ t ∈ A, t ≤ now - w) :
    OnlyIn [] (SlidingWindowRateLimiter.window now w s) := by
  intro e he
  obtain ⟨hmem, hyoung⟩ := mem_window.mp he
  obtain ⟨t, ht, rfl⟩ := List.mem_map.mp (h e hmem)
  exact absurd hyoung (not_lt.mpr (hA t ht))

theorem Checked.onlyIn {A : List Time} {now now' : Time} {limit w' : ℤ} {s s' : Slot Time Value}
    (hchecked : Checked now limit w' s true s') (h : OnlyIn A (window now w' s)) :
    OnlyIn (A ++ [now]) (zview now' s') := by
  intro e he
  rw [hchecked.of_allowed rfl] at he
  rw [List.map_append, List.mem_append]
  split at he
  · rcases SortedSet.mem_add.mp he with rfl | ⟨he, -⟩
    · exact Or.inr (List.mem_singleton.mpr rfl)
    · exact Or.inl (h e he)
  · cases he

/-- A `GET` for `path`. -/
def visit (client path : String) (now : Time) : LimitedRequest where
  ctx :=
    { request := ⟨"GET", [], []⟩, upstreamUrl := "https://test", clientIp := client,
      path := path, upstreamHost := "test", startTime := 0, response := none }
  now := now
  monotonic := 0

theorem rateLimitKey_global (rule : Rule) : rateLimitKey rule "global" = "global" := by
  unfold rateLimitKey
  cases rule.keyType <;> rfl

/-- Some run of requests at increasing readings exceeds the limit of the rule. -/
def Breakable (http : Starlette) (fnmatch : String → String → Bool) (db : RuleTable)
    (rule : Rule) : Prop :=
  ∃ reqs : List LimitedRequest, (reqs.map LimitedRequest.now).Pairwise (· < ·) ∧
    ¬ Enforced fnmatch db rule (trace (rateLimit http fnmatch db) .initial reqs)

section Intrusion

variable {http : Starlette} {fnmatch : String → String → Bool} {db : RuleTable} {rule other : Rule}

/-- A visit that finds room is let through. -/
theorem visit_allowed {path : String} (hassigned : assigned fnmatch db path = some other)
    (rule : Rule) (reqs : List LimitedRequest) (now : Time)
    (hroom : ((window now other.windowSeconds
      ((afterRequests http fnmatch db reqs).slot "global")).card : ℤ) < other.limit) :
    Checked now other.limit other.windowSeconds
      ((afterRequests http fnmatch db reqs).slot "global") true
      ((afterRequests http fnmatch db (reqs ++ [visit "global" path now])).slot "global") ∧
    passed http fnmatch db rule "global" (reqs ++ [visit "global" path now]) =
      passed http fnmatch db rule "global" reqs ++ if other = rule then [now] else [] := by
  have hstep := @quota_step http fnmatch db rule "global" reqs (visit "global" path now)
  rw [rateLimitKey_global] at hstep
  rcases hstep with ⟨hother, -⟩ | ⟨other', ans, hassigned', hchecked, hpassed⟩
  · exact absurd (rateLimitKey_global other) (hother other hassigned)
  · obtain rfl : other = other' := Option.some.inj (hassigned.symm.trans hassigned')
    obtain rfl : ans = true := hchecked.allowed_iff.mpr hroom
    refine ⟨hchecked, ?_⟩
    rw [hpassed]
    simp only [and_true]
    rfl

/-- Visits to a rule's path are let through as long as there are no more of them than its limit. -/
theorem passed_visits {path : String} (hassigned : assigned fnmatch db path = some rule)
    (ts : List Time) (hlen : (ts.length : ℤ) ≤ rule.limit) :
    passed http fnmatch db rule "global" (ts.map (visit "global" path)) = ts ∧
      ∀ now, OnlyIn ts (zview now
        ((afterRequests http fnmatch db (ts.map (visit "global" path))).slot "global")) := by
  induction ts using List.reverseRecOn with
  | nil => exact ⟨rfl, fun _ _ => nofun⟩
  | append_singleton ts t ih =>
      simp only [List.length_append, List.length_singleton, Nat.cast_add, Nat.cast_one] at hlen
      obtain ⟨hpassed, honly⟩ := ih (by omega)
      rw [List.map_append]
      obtain ⟨hchecked, hnew⟩ := @visit_allowed http fnmatch db rule path hassigned rule
        (ts.map (visit "global" path)) t ((honly t).window.card_lt (by omega))
      refine ⟨?_, fun now => hchecked.onlyIn (honly t).window⟩
      rw [List.map_singleton, hnew, hpassed, if_pos rfl]

/-- **How a limit breaks.** The rule's own visits at `ts` use the limit up, a visit for another
rule at `y` makes room, and one more at `z` is let through. -/
theorem breakable_of_intrusion {path path' : String}
    (hassigned : assigned fnmatch db path = some rule)
    (hassigned' : assigned fnmatch db path' = some other) (hne : other ≠ rule)
    (ts : List Time) (hlen : (ts.length : ℤ) = rule.limit) (y z : Time)
    (hinc : (ts ++ [y] ++ [z]).Pairwise (· < ·))
    (hspan : ∀ t ∈ ts ++ [z], 0 ≤ t ∧ t < 0 + (rule.windowSeconds : Time))
    (hroom : ∀ s, OnlyIn ts (zview y s) →
      ((window y other.windowSeconds s).card : ℤ) < other.limit)
    (hroom' : ∀ s s', OnlyIn ts (zview y s) →
      Checked y other.limit other.windowSeconds s true s' →
      ((window z rule.windowSeconds s').card : ℤ) < rule.limit) :
    Breakable http fnmatch db rule := by
  refine ⟨ts.map (visit "global" path) ++ [visit "global" path' y] ++ [visit "global" path z],
    ?_, ?_⟩
  · have hnow : LimitedRequest.now ∘ visit "global" path = id := rfl
    rw [List.map_append, List.map_append, List.map_map, hnow, List.map_id]
    exact hinc
  · intro henforced
    obtain ⟨hpassed, honly⟩ := @passed_visits http fnmatch db rule path hassigned ts hlen.le
    obtain ⟨hchecked, hpassed'⟩ := @visit_allowed http fnmatch db other path' hassigned' rule
      (ts.map (visit "global" path)) y (hroom _ (honly y))
    obtain ⟨-, hpassed''⟩ := @visit_allowed http fnmatch db rule path hassigned rule
      (ts.map (visit "global" path) ++ [visit "global" path' y]) z (hroom' _ _ (honly y) hchecked)
    rw [if_neg hne, List.append_nil, hpassed] at hpassed'
    rw [if_pos rfl, hpassed'] at hpassed''
    have hbound : WindowBounded (rule.windowSeconds : Time) rule.limit.toNat (ts ++ [z]) := by
      rw [← hpassed'']
      exact henforced "global"
    have hle := hbound.length_le 0 hspan
    rw [List.length_append, List.length_singleton] at hle
    omega

/-- With limit 1: the deadline that the other rule sets is reached while the visit at 0 counts. -/
theorem breakable_of_expiry {path path' : String}
    (hassigned : assigned fnmatch db path = some rule)
    (hassigned' : assigned fnmatch db path' = some other) (hone : rule.limit = 1)
    (hpos' : 1 ≤ other.windowSeconds) (y : Time) (hy : 0 < y)
    (hlt : y + (other.windowSeconds + 1) < rule.windowSeconds)
    (hroom : ∀ s, OnlyIn [0] (zview y s) →
      ((window y other.windowSeconds s).card : ℤ) < other.limit) :
    Breakable http fnmatch db rule := by
  have hpos : (1 : Time) ≤ other.windowSeconds := by exact_mod_cast hpos'
  have hne : other ≠ rule := by
    intro heq
    subst heq
    linarith
  refine breakable_of_intrusion hassigned hassigned' hne [0] (by rw [hone]; rfl) y
    (y + (other.windowSeconds + 1)) ?_ ?_ hroom ?_
  · simp only [List.cons_append, List.nil_append, List.pairwise_cons, List.mem_cons,
      List.not_mem_nil, or_false, forall_eq_or_imp, forall_eq, List.Pairwise.nil, and_true]
    refine ⟨⟨hy, ?_⟩, ?_, nofun⟩ <;> linarith
  · simp only [List.cons_append, List.nil_append, List.mem_cons, List.not_mem_nil, or_false,
      forall_eq_or_imp, forall_eq]
    refine ⟨⟨?_, ?_⟩, ?_, ?_⟩ <;> linarith
  · intro s s' _ hchecked
    have hnone : OnlyIn [] (zview (y + (other.windowSeconds + 1)) s') := by
      rw [hchecked.zview_expired le_rfl]
      exact fun _ => nofun
    exact hnone.window.card_lt (by rw [hone]; decide)

/-- As many readings as wanted fit into a second, with room after the last. -/
theorem exists_readings (n : ℕ) : ∃ (ts : List Time) (m : Time), ts.length = n ∧
    ts.Pairwise (· < ·) ∧ (∀ t ∈ ts, 0 ≤ t ∧ t ≤ m) ∧ 0 ≤ m ∧ m < 1 := by
  induction n with
  | zero => exact ⟨[], 0, rfl, .nil, nofun, le_rfl, zero_lt_one⟩
  | succ n ih =>
      obtain ⟨ts, m, hlen, hinc, hts, hm, hm1⟩ := ih
      refine ⟨ts ++ [(m + 1) / 2], (m + 1) / 2, by simp [hlen], ?_, ?_, by linarith, by linarith⟩
      · refine List.pairwise_append.mpr ⟨hinc, List.pairwise_singleton _ _, ?_⟩
        intro t ht u hu
        rw [List.mem_singleton.mp hu]
        have hle := (hts t ht).2
        linarith
      · intro t ht
        rcases List.mem_append.mp ht with ht | ht
        · obtain ⟨h0, hle⟩ := hts t ht
          exact ⟨h0, by linarith⟩
        · rw [List.mem_singleton.mp ht]
          exact ⟨by linarith, le_rfl⟩

/-- With a greater limit: the other rule prunes all that the first second admitted. -/
theorem breakable_of_prune {path path' : String}
    (hassigned : assigned fnmatch db path = some rule)
    (hassigned' : assigned fnmatch db path' = some other) (htwo : 2 ≤ rule.limit)
    (hpos : 1 ≤ other.limit) (hpos' : 1 ≤ other.windowSeconds)
    (hlt : other.windowSeconds < rule.windowSeconds) :
    Breakable http fnmatch db rule := by
  have hne : other ≠ rule := by
    intro heq
    subst heq
    exact lt_irrefl _ hlt
  have hw : (other.windowSeconds : Time) + 1 ≤ rule.windowSeconds := by exact_mod_cast hlt
  have hw' : (1 : Time) ≤ other.windowSeconds := by exact_mod_cast hpos'
  obtain ⟨ts, m, hlen, hinc, hts, hm, hm1⟩ := exists_readings rule.limit.toNat
  have hpruned : ∀ s, OnlyIn ts (zview (other.windowSeconds + m) s) →
      OnlyIn [] (window (other.windowSeconds + m) other.windowSeconds s) := by
    intro s honly
    refine honly.pruned ?_
    intro t ht
    have hle := (hts t ht).2
    linarith
  refine breakable_of_intrusion hassigned hassigned' hne ts (by omega) (other.windowSeconds + m)
    (other.windowSeconds + (m + 1) / 2) ?_ ?_ ?_ ?_
  · -- `m` is the end of the first second, so the three parts follow each other
    have hend : ∀ t ∈ ts, t < other.windowSeconds + m := by
      intro t ht
      have hle := (hts t ht).2
      linarith
    rw [List.append_assoc, List.pairwise_append]
    refine ⟨hinc, ?_, ?_⟩
    · exact List.pairwise_pair.mpr (by linarith)
    · intro t ht u hu
      have hlt := hend t ht
      rcases List.mem_pair.mp hu with rfl | rfl
      · exact hlt
      · linarith
  · intro t ht
    rcases List.mem_append.mp ht with ht | ht
    · obtain ⟨h0, hle⟩ := hts t ht
      exact ⟨h0, by linarith⟩
    · rw [List.mem_singleton.mp ht]
      constructor <;> linarith
  · intro s honly
    exact (hpruned s honly).card_lt hpos
  · intro s s' honly hchecked
    exact (hchecked.onlyIn (hpruned s honly)).window.card_lt htwo

/-- A rule that applies to some path and is not sheltered from another such rule is broken by some
run. -/
theorem breakable_of_not_sheltered (happlies : Applies fnmatch db rule)
    (happlies' : Applies fnmatch db other) (hlimit : 1 ≤ rule.limit) (hlimit' : 1 ≤ other.limit)
    (hwindow' : 1 ≤ other.windowSeconds) (hnot : ¬ Sheltered rule other) :
    Breakable http fnmatch db rule := by
  obtain ⟨path, hassigned⟩ := happlies
  obtain ⟨path', hassigned'⟩ := happlies'
  obtain ⟨hlt, hnot⟩ := not_or.mp hnot
  -- one run for each way not to be sheltered
  rcases hlimit.eq_or_lt with hone | htwo
  · obtain ⟨hlt', hnot⟩ := not_or.mp fun h => hnot ⟨hone.symm, h⟩
    have hfar : (other.windowSeconds : Time) + 2 ≤ rule.windowSeconds := by
      exact_mod_cast (show other.windowSeconds + 2 ≤ rule.windowSeconds by omega)
    rcases hlimit'.eq_or_lt with hone' | htwo'
    · -- the other rule's visit finds an empty window and postpones the deadline
      have hfar' : 2 * (other.windowSeconds : Time) + 2 ≤ rule.windowSeconds := by
        have hlt'' := not_le.mp fun h => hnot ⟨hone'.symm, h⟩
        exact_mod_cast (show 2 * other.windowSeconds + 2 ≤ rule.windowSeconds by omega)
      have hpos : (1 : Time) ≤ other.windowSeconds := by exact_mod_cast hwindow'
      refine breakable_of_expiry hassigned hassigned' hone.symm hwindow' other.windowSeconds
        (by linarith) (by linarith) ?_
      intro s honly
      have hpruned : OnlyIn [] (window other.windowSeconds other.windowSeconds s) := by
        refine honly.pruned ?_
        intro t ht
        rw [List.mem_singleton.mp ht, sub_self]
      exact hpruned.card_lt hlimit'
    · -- the other rule's visit is let through beside the entry it will take with it
      refine breakable_of_expiry hassigned hassigned' hone.symm hwindow' (1 / 2)
        (by norm_num) (by linarith) ?_
      intro s honly
      exact honly.window.card_lt htwo'
  · exact breakable_of_prune hassigned hassigned' htwo hlimit' hwindow' (not_le.mp hlt)

/-- **Which rules are enforced.** The limit of a rule holds in every run of requests at
increasing readings if and only if the rule is sheltered from every rule that applies to some
path, or applies to none itself. -/
theorem enforced_iff (http : Starlette) (fnmatch : String → String → Bool) (db : RuleTable)
    (hpos : ∀ r ∈ db, 1 ≤ r.limit ∧ 1 ≤ r.windowSeconds) (rule : Rule) :
    (∀ reqs : List LimitedRequest, (reqs.map LimitedRequest.now).Pairwise (· < ·) →
      Enforced fnmatch db rule (trace (rateLimit http fnmatch db) .initial reqs)) ↔
    (Applies fnmatch db rule → ∀ other, Applies fnmatch db other → Sheltered rule other) := by
  constructor
  · intro henforced happlies other happlies'
    by_contra hnot
    obtain ⟨path, hassigned⟩ := id happlies
    obtain ⟨path', hassigned'⟩ := id happlies'
    obtain ⟨hlimit, -⟩ := hpos rule (mem_of_assigned hassigned)
    obtain ⟨hlimit', hwindow'⟩ := hpos other (mem_of_assigned hassigned')
    obtain ⟨reqs, hinc, hbroken⟩ := @breakable_of_not_sheltered http fnmatch db rule other
      happlies happlies' hlimit hlimit' hwindow' hnot
    exact hbroken (henforced reqs hinc)
  · intro hshelter reqs hinc
    by_cases happlies : Applies fnmatch db rule
    · exact enforced_of_sheltered (fun r hr => (hpos r hr).1) (hshelter happlies) reqs hinc
    · -- no request is ever assigned to the rule
      exact enforced_of_not_applies happlies reqs

end Intrusion

/-! ### One table that breaks and one that does not

Each table has two rules that count by client, for the paths of two upstreams. A client that visits
both is counted under one key by the two. -/

def minuteRule : Rule := ⟨1, "a", "/proxy/https://a.test/*", 1, 60, .ip, true, 0⟩

def secondRule : Rule := ⟨2, "b", "/proxy/https://b.test/*", 1, 1, .ip, true, 1⟩

def quotaTable : RuleTable := [minuteRule, secondRule]

def calmTable : RuleTable := [minuteRule, { secondRule with limit := 5, windowSeconds := 60 }]

/-- With equal windows the limit holds, though the rules share a key and their limits differ. -/
theorem equal_windows_enforced :
    (∀ r ∈ calmTable, 1 ≤ r.limit ∧ 1 ≤ r.windowSeconds) ∧
    ∀ reqs : List LimitedRequest, (reqs.map LimitedRequest.now).Pairwise (· < ·) →
      Enforced Lib.fnmatch calmTable minuteRule
        (trace (rateLimit Starlette.documented Lib.fnmatch calmTable) .initial reqs) := by
  refine ⟨by decide, (enforced_iff _ _ calmTable (by decide) minuteRule).mpr ?_⟩
  intro _ other hother
  obtain ⟨path, hassigned⟩ := hother
  have hwindows : ∀ r ∈ calmTable, 60 ≤ r.windowSeconds := by decide
  exact Or.inl (hwindows other (mem_of_assigned hassigned))

/-- At 0 the first rule lets its one request a minute pass. At 10 the second rule's check
prunes it and moves the deadline to 12, so that at 13 one more passes. -/
def crossVisits : List LimitedRequest :=
  [visit "10.0.0.1" "/proxy/https://a.test/x" 0, visit "10.0.0.1" "/proxy/https://b.test/x" 10,
    visit "10.0.0.1" "/proxy/https://a.test/x" 13]

theorem other_rule_breaks_limit :
    (∀ r ∈ quotaTable, 1 ≤ r.limit ∧ 1 ≤ r.windowSeconds) ∧ minuteRule ∈ quotaTable ∧
    (crossVisits.map LimitedRequest.now).Pairwise (· < ·) ∧
    ¬ Enforced Lib.fnmatch quotaTable minuteRule
      (trace (rateLimit Starlette.documented Lib.fnmatch quotaTable) .initial crossVisits) := by
  refine ⟨by decide, by decide, by decide +kernel, ?_⟩
  intro henforced
  have hpassed : passedTimes Lib.fnmatch quotaTable minuteRule "10.0.0.1"
      (trace (rateLimit Starlette.documented Lib.fnmatch quotaTable) .initial crossVisits) =
        [0, 13] := by
    decide +kernel
  have hbound := henforced "10.0.0.1"
  rw [hpassed] at hbound
  have hle := hbound.length_le 0 (by decide +kernel)
  exact absurd hle (by decide)

end RateGuardian
