import RateGuardian.RuleQuotaSound
import RateGuardian.Gateway
import RateGuardian.Lib.Unwinding

/-!
# RateGuardian.QuotaBuckets

**Whose requests count against whose.** A request belongs to the bucket of the rule that applies
to it, and of its client where that rule counts clients apart. Requests of other buckets should
not decide over it.

They do not, as long as their limiter key is another one (`decision_of_erasure`): the step reads
and writes the sorted set of its own key only. But the key names the client and not the rule, so
two rules that apply to anything meet on the key of some client, and one visit for the one rule
uses up a place of the other (`not_independent_of_two`). `bucketsIndependent_iff`: the buckets
are independent exactly when no two rules apply.

The first half is an instance of the unwinding theorem of `Lib.Unwinding`. What an observer of a
key sees of the database is the sorted set under it, at any later reading, together with a sound
cache; a request under another key changes none of that, and requests under the key keep two
databases that look alike alike.
-/

namespace RateGuardian

open Lib Redis RuleRepository SlidingWindowRateLimiter

section Buckets

variable (http : Starlette) (fnmatch : String → String → Bool) (db : RuleTable)

/-- What a request counts against: the rule that applies to it, and its client where the rule counts
clients apart. A request that no rule applies to counts against nothing. -/
def bucket (req : LimitedRequest) : Option (Rule × Option String) :=
  (assigned fnmatch db req.ctx.path).map fun rule =>
    (rule, match rule.keyType with
      | .ip => some req.ctx.clientIp
      | .global => none)

/-- The limiter key of a request, if a rule applies to it. -/
def limiterKey (req : LimitedRequest) : Option String :=
  (assigned fnmatch db req.ctx.path).map fun rule => rateLimitKey rule req.ctx.clientIp

/-- `X-Forwarded-For` yields the address of the client, so that a client can name any address. -/
def ViaForwardedFor (req : LimitedRequest) : Prop :=
  ∃ forwarded, forwarded ≠ "" ∧ req.ctx.clientIp = firstForwarded forwarded

/-- Leaving out earlier requests of other buckets does not change whether a request is let
through. -/
def BucketsIndependent : Prop :=
  ∀ (reqs kept : List LimitedRequest) (probe : LimitedRequest),
    ((reqs ++ [probe]).map LimitedRequest.now).Pairwise (· < ·) →
    (∀ req ∈ reqs ++ [probe], ViaForwardedFor req) →
    Erasure (fun req => bucket fnmatch db req ≠ bucket fnmatch db probe) reqs kept →
    (rateLimit http fnmatch db (afterRequests http fnmatch db reqs) probe).1 =
      (rateLimit http fnmatch db (afterRequests http fnmatch db kept) probe).1

variable {http fnmatch db}

/-! ### A request sees its own key

The sufficient half, for whole histories: requests with another limiter key can be left out. -/

theorem cacheSound_rateLimit {s : GatewayWorld} (h : CacheSound db s.redis)
    (req : LimitedRequest) : CacheSound db (rateLimit http fnmatch db s req).2.redis := by
  obtain ⟨hrule, hsound, -⟩ := @match_spec fnmatch db s.redis h req.now req.ctx.path
  cases hassigned : assigned fnmatch db req.ctx.path with
  | none =>
      rw [rateLimit_of_none (hrule.trans hassigned)]
      exact hsound
  | some rule =>
      rw [(@rateLimit_of_some http fnmatch db s req rule (hrule.trans hassigned)).2]
      exact cacheSound_check hsound _ _ _ _

theorem slot_rateLimit_of_ne {s : GatewayWorld} (h : CacheSound db s.redis) {req : LimitedRequest}
    {key : String} (hkey : limiterKey fnmatch db req ≠ some key) :
    (rateLimit http fnmatch db s req).2.slot key = s.slot key := by
  obtain ⟨hrule, -, hslot⟩ := @match_spec fnmatch db s.redis h req.now req.ctx.path
  cases hassigned : assigned fnmatch db req.ctx.path with
  | none =>
      rw [rateLimit_of_none (hrule.trans hassigned)]
      exact hslot key
  | some rule =>
      have hne : redisKey key ≠ redisKey (rateLimitKey rule req.ctx.clientIp) := by
        intro heq
        rw [limiterKey, hassigned, redisKey_inj.mp heq] at hkey
        exact hkey rfl
      rw [GatewayWorld.slot, (@rateLimit_of_some http fnmatch db s req rule
        (hrule.trans hassigned)).2, slot_check_of_ne hne, hslot key]
      rfl

/-- Two databases with the same sorted set under the key of a request decide alike. -/
theorem rateLimit_congr {s t : GatewayWorld} (hs : CacheSound db s.redis)
    (ht : CacheSound db t.redis) {req : LimitedRequest} {key : String}
    (hkey : limiterKey fnmatch db req = some key) (h : s.slot key = t.slot key) :
    (rateLimit http fnmatch db s req).1 = (rateLimit http fnmatch db t req).1 ∧
      (rateLimit http fnmatch db s req).2.slot key =
        (rateLimit http fnmatch db t req).2.slot key := by
  obtain ⟨hrule, -, hslot⟩ := @match_spec fnmatch db s.redis hs req.now req.ctx.path
  obtain ⟨hrule', -, hslot'⟩ := @match_spec fnmatch db t.redis ht req.now req.ctx.path
  obtain ⟨rule, hassigned, rfl⟩ := Option.map_eq_some_iff.mp hkey
  obtain ⟨hans, hafter⟩ := @rateLimit_of_some http fnmatch db s req rule (hrule.trans hassigned)
  obtain ⟨hans', hafter'⟩ := @rateLimit_of_some http fnmatch db t req rule (hrule'.trans hassigned)
  have hagree : AgreeOn {redisKey (rateLimitKey rule req.ctx.clientIp)}
      (RuleRepository.match fnmatch db s.redis req.now req.ctx.path).2
      (RuleRepository.match fnmatch db t.redis req.now req.ctx.path).2 := by
    intro k hk
    rw [Set.mem_singleton_iff.mp hk, hslot, hslot']
    exact h
  have hcheck := @check_agreeOn req.now (rateLimitKey rule req.ctx.clientIp) rule.limit
    rule.windowSeconds _ _ _ hagree rfl
  refine ⟨by rw [hans, hans', hcheck.1], ?_⟩
  rw [GatewayWorld.slot, GatewayWorld.slot, hafter, hafter']
  exact hcheck.2 rfl

/-- A request with another key is hidden from whoever watches `key`. -/
theorem rateLimit_unwinding (key : String) :
    Unwinding (rateLimit http fnmatch db) (fun s => CacheSound db s.redis)
      (fun req => limiterKey fnmatch db req ≠ some key) (fun s t => s.slot key = t.slot key) where
  equivalence := ⟨fun _ => rfl, Eq.symm, Eq.trans⟩
  keeps h := cacheSound_rateLimit h _
  output hs ht hkey h := (rateLimit_congr hs ht (not_not.mp hkey) h).1
  step hs ht hkey h := (rateLimit_congr hs ht (not_not.mp hkey) h).2
  hides h hkey := slot_rateLimit_of_ne h hkey

/-- A request that no rule applies to is let through. -/
theorem rateLimit_of_no_key {s : GatewayWorld} (h : CacheSound db s.redis) {req : LimitedRequest}
    (hkey : limiterKey fnmatch db req = none) : (rateLimit http fnmatch db s req).1 = true := by
  have hassigned : assigned fnmatch db req.ctx.path = none := Option.map_eq_none_iff.mp hkey
  have hrule := (@match_spec fnmatch db s.redis h req.now req.ctx.path).1
  rw [rateLimit_of_none (hrule.trans hassigned)]

/-- **Requests with another limiter key do not matter**, to any request. -/
theorem decision_of_erasure {reqs kept : List LimitedRequest} {probe : LimitedRequest}
    (he : Erasure (fun req => limiterKey fnmatch db req ≠ limiterKey fnmatch db probe) reqs kept) :
    (rateLimit http fnmatch db (afterRequests http fnmatch db reqs) probe).1 =
      (rateLimit http fnmatch db (afterRequests http fnmatch db kept) probe).1 := by
  cases hkey : limiterKey fnmatch db probe with
  | none =>
      rw [rateLimit_of_no_key (afterRequests_sound _).1 hkey,
        rateLimit_of_no_key (afterRequests_sound _).1 hkey]
  | some key =>
      rw [hkey] at he
      exact (rateLimit_unwinding key).next he cacheSound_empty cacheSound_empty rfl
        (not_not.mpr hkey)

/-! ### One rule

Where a single rule applies, the bucket is as fine as the key. -/

/-- With one rule, requests of different buckets have different keys. -/
theorem limiterKey_ne_of_bucket_ne
    (hone : ∀ rule rule', Applies fnmatch db rule → Applies fnmatch db rule' → rule = rule')
    {req probe : LimitedRequest} {key : String} (hprobe : limiterKey fnmatch db probe = some key)
    (hne : bucket fnmatch db req ≠ bucket fnmatch db probe) :
    limiterKey fnmatch db req ≠ limiterKey fnmatch db probe := by
  obtain ⟨rule, hassigned, rfl⟩ := Option.map_eq_some_iff.mp hprobe
  intro heq
  rw [hprobe] at heq
  obtain ⟨rule', hassigned', hkey⟩ := Option.map_eq_some_iff.mp heq
  obtain rfl : rule' = rule := hone _ _ ⟨_, hassigned'⟩ ⟨_, hassigned⟩
  refine hne ?_
  rw [bucket, bucket, hassigned, hassigned']
  unfold rateLimitKey at hkey
  cases htype : rule'.keyType with
  | ip =>
      rw [htype] at hkey
      simp only [Option.map_some, htype, hkey]
  | global => simp only [Option.map_some, htype]

theorem bucketsIndependent_of_one
    (hone : ∀ rule rule', Applies fnmatch db rule → Applies fnmatch db rule' → rule = rule') :
    BucketsIndependent http fnmatch db := by
  intro reqs kept probe _ _ he
  cases hprobe : limiterKey fnmatch db probe with
  | none =>
      rw [rateLimit_of_no_key (afterRequests_sound _).1 hprobe,
        rateLimit_of_no_key (afterRequests_sound _).1 hprobe]
  | some key =>
      exact decision_of_erasure (he.mono fun _ _ => limiterKey_ne_of_bucket_ne hone hprobe)

/-! ### Two rules

Where two rules apply to some paths, the run is given outright: one visit for the one rule, and then
as many for the other as its limit would let through. -/

/-- A visit is let through exactly while the window of its rule has room. -/
theorem visit_passes_iff {path : String} {rule : Rule}
    (hassigned : assigned fnmatch db path = some rule) (reqs : List LimitedRequest) (now : Time) :
    (rateLimit http fnmatch db (afterRequests http fnmatch db reqs)
      (visit "global" path now)).1 = true ↔
    ((window now rule.windowSeconds
      ((afterRequests http fnmatch db reqs).slot "global")).card : ℤ) < rule.limit := by
  obtain ⟨hsound, hzset⟩ := @afterRequests_sound http fnmatch db reqs
  rcases (@rateLimit_slot http fnmatch db _ hsound (visit "global" path now) "global"
    (hzset _)).2 with ⟨hother, -⟩ | ⟨rule', hassigned', -, hchecked⟩
  · exact absurd (rateLimitKey_global rule) (hother rule hassigned)
  · obtain rfl : rule = rule' := Option.some.inj (hassigned.symm.trans hassigned')
    exact hchecked.allowed_iff

/-- A visit for another rule and then visits for `rule`: within a second all of them are in the
set, as long as the limit of `rule` allows it. -/
theorem visits_fill {path path' : String} {rule other : Rule}
    (hassigned : assigned fnmatch db path = some rule)
    (hassigned' : assigned fnmatch db path' = some other)
    (hpos : 1 ≤ rule.windowSeconds) (hpos' : 1 ≤ other.limit ∧ 1 ≤ other.windowSeconds)
    (t₀ : Time) (ts : List Time) (hlen : (ts.length : ℤ) < rule.limit)
    (hinc : (t₀ :: ts).Pairwise (· < ·)) :
    (∀ now, OnlyIn (t₀ :: ts) (zview now ((afterRequests http fnmatch db
      (visit "global" path' t₀ :: ts.map (visit "global" path))).slot "global"))) ∧
    ∀ now, (∀ t ∈ t₀ :: ts, t < now) → Shows 1 (t₀ :: ts) now ((afterRequests http fnmatch db
      (visit "global" path' t₀ :: ts.map (visit "global" path))).slot "global") := by
  induction ts using List.reverseRecOn with
  | nil =>
      have hempty : ∀ now, OnlyIn [] (zview now
          ((afterRequests http fnmatch db []).slot "global")) := fun _ _ => nofun
      have hlimit : (([] : List Time).length : ℤ) < other.limit := by
        rw [List.length_nil]
        omega
      have hchecked := (@visit_allowed http fnmatch db other path' hassigned' rule [] t₀
        ((hempty t₀).window.card_lt hlimit)).1
      refine ⟨fun now => hchecked.onlyIn (hempty t₀).window, ?_⟩
      intro now hnow
      have hnone : Shows 1 [] t₀ ((afterRequests http fnmatch db []).slot "global") := nofun
      exact hnone.allowed hchecked hpos'.2 nofun (hnow t₀ (by simp))
  | append_singleton ts t ih =>
      rw [← List.cons_append] at hinc
      obtain ⟨hinc, -, hlast⟩ := List.pairwise_append.mp hinc
      have hbefore : ∀ u ∈ t₀ :: ts, u < t := fun u hu => hlast u hu t (by simp)
      rw [List.length_append, List.length_singleton] at hlen
      obtain ⟨honly, hshows⟩ := ih (by omega) hinc
      have hlimit : ((t₀ :: ts).length : ℤ) < rule.limit := by
        rw [List.length_cons]
        omega
      have hchecked := (@visit_allowed http fnmatch db rule path hassigned rule _ t
        ((honly t).window.card_lt hlimit)).1
      rw [List.map_append, List.map_singleton, ← List.cons_append, ← List.cons_append]
      refine ⟨fun now => hchecked.onlyIn (honly t).window, ?_⟩
      intro now hnow
      exact (hshows t hbefore).allowed hchecked hpos hbefore (hnow t (by simp))

/-- Entries that are all of one second count for any rule, whose window is no shorter. -/
theorem length_le_window {A : List Time} {now : Time} {w : ℤ} {s : Slot Time Value} (hw : 1 ≤ w)
    (hinc : A.Pairwise (· < ·)) (hA : ∀ t ∈ A, now - 1 < t) (h : Shows 1 A now s) :
    A.length ≤ (window now w s).card := by
  have hw : (1 : Time) ≤ w := by exact_mod_cast hw
  have hall : ∀ v : Time, 1 ≤ v → counted now v A = A := by
    intro v hv
    refine List.filter_eq_self.mpr fun t ht => decide_eq_true ?_
    have hlt := hA t ht
    linarith
  have hshows : Shows w A now s := by
    intro t ht
    rw [hall _ hw] at ht
    refine h t ?_
    rw [Int.cast_one, hall 1 le_rfl]
    exact ht
  have hle := hshows.length_le (hinc.imp ne_of_lt)
  rwa [hall _ hw] at hle

theorem viaForwardedFor_visit {ip : String} (hip : ip ≠ "") (hfirst : firstForwarded ip = ip)
    (path : String) (now : Time) : ViaForwardedFor (visit ip path now) :=
  ⟨ip, hip, hfirst.symm⟩

theorem map_now_visits (ip path : String) (ts : List Time) :
    (ts.map (visit ip path)).map LimitedRequest.now = ts := by
  have hid : LimitedRequest.now ∘ visit ip path = id := rfl
  rw [List.map_map, hid, List.map_id]

theorem bucket_visit_ne {path path' : String} {rule other : Rule}
    (hassigned : assigned fnmatch db path = some rule)
    (hassigned' : assigned fnmatch db path' = some other) (hne : other ≠ rule)
    (ip : String) (now now' : Time) :
    bucket fnmatch db (visit ip path' now') ≠ bucket fnmatch db (visit ip path now) := by
  intro heq
  rw [bucket, bucket, show (visit ip path' now').ctx.path = path' from rfl,
    show (visit ip path now).ctx.path = path from rfl, hassigned, hassigned'] at heq
  exact hne (congrArg Prod.fst (Option.some.inj heq))

/-- **How two buckets meet.** With one visit for the other rule before them, the visits that a
rule would let through within a second are one too many. -/
theorem not_independent_of_two {rule other : Rule} (happlies : Applies fnmatch db rule)
    (happlies' : Applies fnmatch db other) (hne : other ≠ rule)
    (hpos : 1 ≤ rule.limit ∧ 1 ≤ rule.windowSeconds)
    (hpos' : 1 ≤ other.limit ∧ 1 ≤ other.windowSeconds) :
    ¬ BucketsIndependent http fnmatch db := by
  intro hind
  obtain ⟨path, hassigned⟩ := happlies
  obtain ⟨path', hassigned'⟩ := happlies'
  obtain ⟨A, m, hlen, hinc, hA, hm, hm1⟩ := exists_readings rule.limit.toNat
  obtain ⟨t₀, ts, rfl⟩ : ∃ t₀ ts, A = t₀ :: ts := by
    refine List.exists_cons_of_length_pos ?_
    omega
  rw [List.length_cons] at hlen
  have hlimit : (ts.length : ℤ) < rule.limit := by omega
  have hnow : ∀ t ∈ t₀ :: ts, t < (m + 1) / 2 ∧ (m + 1) / 2 - 1 < t := by
    intro t ht
    obtain ⟨h0, hle⟩ := hA t ht
    constructor <;> linarith
  have hkept : (rateLimit http fnmatch db (afterRequests http fnmatch db
      (ts.map (visit "global" path))) (visit "global" path ((m + 1) / 2))).1 = true := by
    refine (visit_passes_iff hassigned _ _).mpr ?_
    have honly := (@passed_visits http fnmatch db rule path hassigned ts hlimit.le).2
    exact (honly _).window.card_lt hlimit
  have hfull : ¬ (rateLimit http fnmatch db (afterRequests http fnmatch db
      (visit "global" path' t₀ :: ts.map (visit "global" path)))
      (visit "global" path ((m + 1) / 2))).1 = true := by
    rw [visit_passes_iff hassigned]
    have hshows := (@visits_fill http fnmatch db path path' rule other hassigned hassigned' hpos.2
      hpos' t₀ ts hlimit hinc).2 _ fun t ht => (hnow t ht).1
    have hle := length_le_window hpos.2 hinc (fun t ht => (hnow t ht).2) hshows
    rw [List.length_cons] at hle
    omega
  have hsame := hind (visit "global" path' t₀ :: ts.map (visit "global" path))
    (ts.map (visit "global" path)) (visit "global" path ((m + 1) / 2)) ?_ ?_ ?_
  · exact hfull (hsame.trans hkept)
  · have hnows : (visit "global" path' t₀ :: ts.map (visit "global" path)).map LimitedRequest.now =
        t₀ :: ts := congrArg (t₀ :: ·) (map_now_visits "global" path ts)
    rw [List.map_append, hnows]
    refine List.pairwise_append.mpr ⟨hinc, List.pairwise_singleton _ _, ?_⟩
    intro t ht u hu
    rw [List.mem_singleton.mp hu]
    exact (hnow t ht).1
  · have hvia := @viaForwardedFor_visit "global" (by decide) (by decide)
    intro req hreq
    simp only [List.cons_append, List.mem_cons, List.mem_append, List.mem_map, List.not_mem_nil,
      or_false] at hreq
    rcases hreq with rfl | ⟨t, -, rfl⟩ | rfl
    · exact hvia _ _
    · exact hvia _ _
    · exact hvia _ _
  · have hfirst : Erasure (fun req => bucket fnmatch db req ≠
        bucket fnmatch db (visit "global" path ((m + 1) / 2)))
        [visit "global" path' t₀] [] :=
      erasure_singleton (bucket_visit_ne hassigned hassigned' hne _ _ _)
    exact hfirst.append _

/-! ### When buckets are independent

Both halves together, and a table on either side of the line. -/

/-- At 0 a visit for the second rule takes the one place of the first rule. -/
theorem buckets_meet :
    (∀ r ∈ quotaTable, 1 ≤ r.limit ∧ 1 ≤ r.windowSeconds) ∧
    ¬ BucketsIndependent Starlette.documented Lib.fnmatch quotaTable := by
  refine ⟨by decide, ?_⟩
  intro hind
  have hsame := hind [visit "10.0.0.1" "/proxy/https://b.test/x" 0] []
    (visit "10.0.0.1" "/proxy/https://a.test/x" 1) (by decide +kernel) ?_ ?_
  · revert hsame
    decide +kernel
  · have hvia := @viaForwardedFor_visit "10.0.0.1" (by decide) (by decide)
    intro req hreq
    simp only [List.cons_append, List.nil_append, List.mem_cons, List.not_mem_nil,
      or_false] at hreq
    rcases hreq with rfl | rfl
    · exact hvia _ _
    · exact hvia _ _
  · have hother : bucket Lib.fnmatch quotaTable (visit "10.0.0.1" "/proxy/https://b.test/x" 0) ≠
        bucket Lib.fnmatch quotaTable (visit "10.0.0.1" "/proxy/https://a.test/x" 1) := by
      decide +kernel
    exact erasure_singleton hother

/-- **Which buckets are independent.** Earlier requests with another limiter key never matter.
All other buckets do not matter in every run exactly when no two rules apply to any paths. -/
theorem bucketsIndependent_iff (http : Starlette) (fnmatch : String → String → Bool)
    (db : RuleTable) (hpos : ∀ r ∈ db, 1 ≤ r.limit ∧ 1 ≤ r.windowSeconds) :
    (∀ (reqs kept : List LimitedRequest) (probe : LimitedRequest),
      Erasure (fun req => limiterKey fnmatch db req ≠ limiterKey fnmatch db probe) reqs kept →
      (rateLimit http fnmatch db (afterRequests http fnmatch db reqs) probe).1 =
        (rateLimit http fnmatch db (afterRequests http fnmatch db kept) probe).1) ∧
    (BucketsIndependent http fnmatch db ↔
      ∀ rule rule', Applies fnmatch db rule → Applies fnmatch db rule' → rule = rule') := by
  refine ⟨fun _ _ _ he => decision_of_erasure he, ?_, bucketsIndependent_of_one⟩
  intro hind rule rule' happlies happlies'
  by_contra hne
  obtain ⟨path, hassigned⟩ := id happlies
  obtain ⟨path', hassigned'⟩ := id happlies'
  exact not_independent_of_two happlies happlies' (Ne.symm hne)
    (hpos rule (mem_of_assigned hassigned)) (hpos rule' (mem_of_assigned hassigned')) hind

/-- A table of one rule. -/
theorem bucketsIndependent_iff_single :
    (∀ r ∈ [minuteRule], 1 ≤ r.limit ∧ 1 ≤ r.windowSeconds) ∧
    BucketsIndependent Starlette.documented Lib.fnmatch [minuteRule] := by
  refine ⟨by decide, (bucketsIndependent_iff _ _ [minuteRule] (by decide)).2.mpr ?_⟩
  have honly : ∀ rule, Applies Lib.fnmatch [minuteRule] rule → rule = minuteRule := by
    intro rule happlies
    obtain ⟨path, hassigned⟩ := happlies
    exact List.mem_singleton.mp (mem_of_assigned hassigned)
  intro rule rule' happlies happlies'
  rw [honly rule happlies, honly rule' happlies']

end Buckets

end RateGuardian
