import RateGuardian.RateLimiter
import RateGuardian.Lib.Unwinding

/-!
# RateGuardian.RateLimiterErasure

**Rejected calls are unobservable.** A rejected check does change the store: it prunes the
sorted set, and with the last entry the key and its deadline go. None of it can be seen from a
later reading, as what is pruned would not have been counted then anyway. So two runs of which
one leaves out some rejected calls of the other stay in a simulation (`AgreeAfter`): at every
reading from the last call on they see the same window, whatever the two slots look like.

The limits may differ from call to call, as they do when two rules share a key; the window is the
same in all calls. A call with a shorter window would prune entries that still count for the others.
-/

namespace RateGuardian

open Lib Redis

namespace SlidingWindowRateLimiter

/-- A check of the key at hand: the limit it is given, and the reading it is made at. -/
structure LimitedCall where
  limit : ℤ
  now : Time
  deriving DecidableEq

def checkCall (key : String) (w : ℤ) (r : Redis) (c : LimitedCall) : RateLimitResult × Redis :=
  check r c.now key c.limit w

/-- The calls of a run, each with the answer that it was given. -/
def answered (key : String) (w : ℤ) (r : Redis) (calls : List LimitedCall) :
    List (LimitedCall × RateLimitResult) :=
  (trace (checkCall key w) r calls).map Transition.label

section Step

variable {key : String} {w : ℤ} {r r' : Redis} {c : LimitedCall}

theorem answered_concat (calls : List LimitedCall) : answered key w r (calls ++ [c]) =
    answered key w r calls ++
      [(c, (checkCall key w (final (checkCall key w) r calls) c).1)] := by
  rw [answered, trace_concat, List.map_append]
  rfl

/-- A call is answered from the window that it sees: where two slots show the same window, it gets
the same answer. -/
theorem checkCall_congr (hs : IsZset (r.slot (redisKey key)))
    (hs' : IsZset (r'.slot (redisKey key)))
    (heq : window c.now w (r.slot (redisKey key)) = window c.now w (r'.slot (redisKey key))) :
    (checkCall key w r c).1 = (checkCall key w r' c).1 := by
  unfold checkCall
  by_cases hroom : ((window c.now w (r.slot (redisKey key))).card : ℤ) < c.limit
  · rw [check_of_lt hs hroom, check_of_lt hs' (heq ▸ hroom), heq]
  · rw [check_of_not_lt hs hroom, check_of_not_lt hs' (heq ▸ hroom), heq]

/-- A rejection changes no window at its own reading or a later one. -/
theorem window_checkCall_of_rejected (hs : IsZset (r.slot (redisKey key)))
    (hrej : (checkCall key w r c).1.allowed = false) {now : Time} (hle : c.now ≤ now) :
    window now w ((checkCall key w r c).2.slot (redisKey key)) =
      window now w (r.slot (redisKey key)) := by
  have hfull : ¬ ((window c.now w (r.slot (redisKey key))).card : ℤ) < c.limit := by
    intro hroom
    rw [checkCall, check_of_lt hs hroom] at hrej
    cases hrej
  rw [window, checkCall, zview_check_of_not_lt hs hfull hle]
  exact SortedSet.ext (SortedSet.removeUpTo_removeUpTo (by linarith))

/-- An admission decides every later window by the one it saw. -/
theorem window_checkCall_of_allowed (hs : IsZset (r.slot (redisKey key)))
    (hs' : IsZset (r'.slot (redisKey key)))
    (heq : window c.now w (r.slot (redisKey key)) = window c.now w (r'.slot (redisKey key)))
    (hallowed : (checkCall key w r c).1.allowed = true) (now : Time) :
    window now w ((checkCall key w r c).2.slot (redisKey key)) =
      window now w ((checkCall key w r' c).2.slot (redisKey key)) := by
  have hroom := (check_allowed_iff hs).mp hallowed
  rw [window, window, checkCall, checkCall, zview_check_of_lt hs hroom,
    zview_check_of_lt hs' (heq ▸ hroom), heq]

end Step

/-- The two slots show the same window at every reading from the last of `calls` on. -/
structure AgreeAfter (w : ℤ) (calls : List LimitedCall) (s s' : Slot Time Value) : Prop where
  isZset : IsZset s
  isZset' : IsZset s'
  window_eq : ∀ now, (∀ c ∈ calls, c.now ≤ now) → window now w s = window now w s'

section Simulation

variable {key : String} {w : ℤ} {r r' : Redis} {calls : List LimitedCall} {c : LimitedCall}
  (h : AgreeAfter w calls (r.slot (redisKey key)) (r'.slot (redisKey key)))
  (hlast : ∀ c' ∈ calls, c'.now ≤ c.now)
include h hlast

theorem AgreeAfter.answer : (checkCall key w r c).1 = (checkCall key w r' c).1 :=
  checkCall_congr h.isZset h.isZset' (h.window_eq c.now hlast)

/-- The agreement is kept where both runs make the call. -/
theorem AgreeAfter.keep : AgreeAfter w (calls ++ [c])
    ((checkCall key w r c).2.slot (redisKey key))
    ((checkCall key w r' c).2.slot (redisKey key)) := by
  refine ⟨isZset_check h.isZset, isZset_check h.isZset', ?_⟩
  intro now hnow
  have heq := h.window_eq c.now hlast
  cases hres : (checkCall key w r c).1.allowed with
  | true => exact window_checkCall_of_allowed h.isZset h.isZset' heq hres now
  | false =>
      have hle : c.now ≤ now := hnow c (by simp)
      have hres' : (checkCall key w r' c).1.allowed = false := h.answer hlast ▸ hres
      rw [window_checkCall_of_rejected h.isZset hres hle,
        window_checkCall_of_rejected h.isZset' hres' hle]
      exact h.window_eq now fun c' hc' => hnow c' (List.mem_append_left _ hc')

omit hlast in
/-- The agreement is kept where the first run makes the call and is rejected, and the second leaves
it out. -/
theorem AgreeAfter.erase (hrej : (checkCall key w r c).1.allowed = false) :
    AgreeAfter w (calls ++ [c]) ((checkCall key w r c).2.slot (redisKey key))
      (r'.slot (redisKey key)) := by
  refine ⟨isZset_check h.isZset, h.isZset', ?_⟩
  intro now hnow
  rw [window_checkCall_of_rejected h.isZset hrej (hnow c (by simp))]
  exact h.window_eq now fun c' hc' => hnow c' (List.mem_append_left _ hc')

end Simulation

/-- The simulation over a run: what is kept of the answers is what the run of the kept calls
answers, and the two runs end in agreement. -/
theorem answered_of_erasure {key : String} {w : ℤ} {r : Redis}
    (hr : IsZset (r.slot (redisKey key))) {calls : List LimitedCall}
    (hmono : calls.Pairwise (fun c c' => c.now ≤ c'.now))
    {ls kept : List (LimitedCall × RateLimitResult)}
    (h : Erasure (fun l => l.2.allowed = false) ls kept) (hls : answered key w r calls = ls) :
    answered key w r (kept.map Prod.fst) = kept ∧
      AgreeAfter w calls ((final (checkCall key w) r calls).slot (redisKey key))
        ((final (checkCall key w) r (kept.map Prod.fst)).slot (redisKey key)) := by
  induction h generalizing calls with
  | nil =>
      cases calls using List.reverseRecOn with
      | nil => exact ⟨rfl, hr, hr, fun _ _ => rfl⟩
      | append_singleton calls c => simp [answered_concat] at hls
  | keep l _ ih =>
      cases calls using List.reverseRecOn with
      | nil => simp [answered] at hls
      | append_singleton calls c =>
          obtain ⟨hpre, -, hle⟩ := List.pairwise_append.mp hmono
          rw [answered_concat] at hls
          obtain ⟨hbefore, hl⟩ := List.append_inj' hls rfl
          obtain rfl := (List.cons.inj hl).1
          obtain ⟨hkept, hagree⟩ := ih hpre hbefore
          have hlast : ∀ c' ∈ calls, c'.now ≤ c.now := fun c' hc' => hle c' hc' c (by simp)
          rw [List.map_append, List.map_singleton, answered_concat, final_concat, final_concat,
            hkept, hagree.answer hlast]
          exact ⟨rfl, hagree.keep hlast⟩
  | erase hrej _ ih =>
      cases calls using List.reverseRecOn with
      | nil => simp [answered] at hls
      | append_singleton calls c =>
          rw [answered_concat] at hls
          obtain ⟨hbefore, hl⟩ := List.append_inj' hls rfl
          obtain rfl := (List.cons.inj hl).1
          obtain ⟨hkept, hagree⟩ := ih (List.pairwise_append.mp hmono).1 hbefore
          rw [final_concat]
          exact ⟨hkept, hagree.erase hrej⟩

/-- **Rejected calls are unobservable.** Leave out any of the rejected calls of a run with one
window and arbitrary limits: every other call is answered as before. -/
theorem answered_without_rejected (key : String) (w : ℤ) {r : Redis}
    (hr : IsZset (r.slot (redisKey key))) {calls : List LimitedCall}
    (hmono : calls.Pairwise (fun c c' => c.now ≤ c'.now))
    {kept : List (LimitedCall × RateLimitResult)}
    (h : Erasure (fun l => l.2.allowed = false) (answered key w r calls) kept) :
    answered key w r (kept.map Prod.fst) = kept :=
  (answered_of_erasure hr hmono h rfl).1

/-- One call in ten seconds: the rejected call at 5 finds the set full, and the one at 11, with
a limit of 0, deletes the key. The other two are answered alike without them. -/
theorem answered_without_rejected_two :
    let calls : List LimitedCall := [⟨1, 0⟩, ⟨1, 5⟩, ⟨0, 11⟩, ⟨1, 12⟩]
    let answers := answered "10.0.0.1" 10 .empty calls
    (answers.map fun l => l.2.allowed) = [true, false, false, true] ∧
      answered "10.0.0.1" 10 .empty ((answers.filter fun l => l.2.allowed).map Prod.fst) =
        answers.filter fun l => l.2.allowed :=
  ⟨by decide +kernel,
    @answered_without_rejected "10.0.0.1" 10 .empty isZset_none
      [⟨1, 0⟩, ⟨1, 5⟩, ⟨0, 11⟩, ⟨1, 12⟩] (by decide +kernel) _
      (erasure_filter (fun l : LimitedCall × RateLimitResult => l.2.allowed) _)⟩

end SlidingWindowRateLimiter

end RateGuardian
