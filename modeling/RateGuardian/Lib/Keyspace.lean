import Mathlib.Logic.Function.Basic
import Mathlib.Data.Set.Function
import Mathlib.Algebra.Group.Defs
import Mathlib.Order.Defs.LinearOrder
import Mathlib.Data.Option.Basic

/-!
# RateGuardian.Lib.Keyspace

**Slots with deadlines.** A `Slot` is what a key of an expiring store holds: no
entry, or a value with an optional deadline. Every access names the clock reading
it happens at; an entry whose deadline has been reached is invisible from then on,
whether or not anything has removed it.

A `Keyspace` is a total function from keys to slots, and every command touches one
key: `Keyspace.modify` lifts an operation on slots, and the two `modify` lemmas are
the frame rule. All results about a single key can therefore be proved on slots.
-/

namespace RateGuardian.Lib

variable {κ τ ν : Type*}

structure Entry (τ ν : Type*) where
  value : ν
  expireAt : Option τ

abbrev Slot (τ ν : Type*) := Option (Entry τ ν)

namespace Slot

section Access

variable [LT τ] [DecidableLT τ] (now : τ)

def alive : Option τ → Bool
  | none => true
  | some deadline => decide (now < deadline)

/-- The entry a command sees at clock reading `now`. -/
def live (s : Slot τ ν) : Slot τ ν := s.filter (fun e => alive now e.expireAt)

def read (s : Slot τ ν) : Option ν := (live now s).map Entry.value

def put (v : ν) : Slot τ ν := some ⟨v, none⟩

def putEx [Add τ] (ttl : τ) (v : ν) : Slot τ ν := some ⟨v, some (now + ttl)⟩

/-- Change the visible value in place, keeping its deadline; a result of `none`
removes the key together with its deadline. -/
def update (f : Option ν → Option ν) (s : Slot τ ν) : Slot τ ν :=
  match live now s with
  | none => (f none).map (⟨·, none⟩)
  | some e => (f (some e.value)).map (⟨·, e.expireAt⟩)

def expire [Add τ] (ttl : τ) (s : Slot τ ν) : Slot τ ν :=
  (live now s).map (fun e => { e with expireAt := some (now + ttl) })

variable {now}

@[simp] theorem live_none : live now (none : Slot τ ν) = none := rfl

@[simp] theorem read_none : read now (none : Slot τ ν) = none := rfl

@[simp] theorem live_persistent (v : ν) : live now (some ⟨v, none⟩) = some ⟨v, none⟩ := rfl

theorem alive_some {d : τ} : alive now (some d) = true ↔ now < d := by
  simp [alive]

theorem live_some (e : Entry τ ν) :
    live now (some e) = if alive now e.expireAt then some e else none := rfl

theorem live_of_alive {e : Entry τ ν} (h : alive now e.expireAt = true) :
    live now (some e) = some e := by
  rw [live_some, if_pos h]

/-- A visible entry is the stored one, seen before its deadline. -/
theorem live_eq_some {s : Slot τ ν} {e : Entry τ ν} :
    live now s = some e ↔ s = some e ∧ alive now e.expireAt = true :=
  Option.filter_eq_some_iff

/-- Visibility depends on the deadline alone, not on the value. -/
theorem live_with {s : Slot τ ν} {e : Entry τ ν} (h : live now s = some e) (v : ν) :
    live now (some ⟨v, e.expireAt⟩) = some ⟨v, e.expireAt⟩ :=
  live_of_alive (live_eq_some.mp h).2

theorem update_eq_of_live_none {f : Option ν → Option ν} {s : Slot τ ν} (h : live now s = none) :
    update now f s = (f none).map (⟨·, none⟩) := by
  rw [update, h]

theorem update_eq_of_live_some {f : Option ν → Option ν} {s : Slot τ ν} {e : Entry τ ν}
    (h : live now s = some e) :
    update now f s = (f (some e.value)).map (⟨·, e.expireAt⟩) := by
  rw [update, h]

end Access

section Order

variable [Preorder τ] [DecidableLT τ] {now now' : τ}

theorem alive_anti {d : Option τ} (hle : now ≤ now') (h : alive now' d = true) :
    alive now d = true := by
  cases d with
  | none => rfl
  | some d => exact alive_some.mpr (lt_of_le_of_lt hle (alive_some.mp h))

theorem live_anti {s : Slot τ ν} {e : Entry τ ν} (hle : now ≤ now') (h : live now' s = some e) :
    live now s = some e :=
  live_eq_some.mpr ⟨(live_eq_some.mp h).1, alive_anti hle (live_eq_some.mp h).2⟩

theorem read_update_self (f : Option ν → Option ν) (s : Slot τ ν) :
    read now (update now f s) = f (read now s) := by
  cases h : live now s with
  | none =>
      rw [update_eq_of_live_none h, read, read, h]
      cases hf : f none with
      | none => simp [hf]
      | some v => simp [hf]
  | some e =>
      rw [update_eq_of_live_some h, read, read, h]
      cases hf : f (some e.value) with
      | none => simp [hf]
      | some v => simp [hf, live_with h v]

/-! ### Deadlines far enough away -/

/-- The entry visible at `now`, if any, has no deadline before `d`. -/
def LastsUntil (now d : τ) (s : Slot τ ν) : Prop :=
  ∀ e deadline, live now s = some e → e.expireAt = some deadline → d ≤ deadline

theorem LastsUntil.later {d : τ} {s : Slot τ ν} (h : LastsUntil now d s) (hle : now ≤ now') :
    LastsUntil now' d s :=
  fun e deadline he hd => h e deadline (live_anti hle he) hd

/-- Until then the same entry is visible at every reading. -/
theorem LastsUntil.live_eq {d : τ} {s : Slot τ ν} (h : LastsUntil now d s) (hle : now ≤ now')
    (hlt : now' < d) : live now' s = live now s := by
  cases hlive : live now s with
  | none =>
      cases hlive' : live now' s with
      | none => rfl
      | some e => rw [live_anti hle hlive'] at hlive; cases hlive
  | some e =>
      obtain ⟨rfl, -⟩ := live_eq_some.mp hlive
      refine live_of_alive ?_
      cases hd : e.expireAt with
      | none => rfl
      | some deadline => exact alive_some.mpr (lt_of_lt_of_le hlt (h e deadline hlive hd))

/-- Changing a value in place keeps its deadline, so it lasts as long as before. -/
theorem LastsUntil.update {d : τ} {s : Slot τ ν} (h : LastsUntil now d s)
    (f : Option ν → Option ν) : LastsUntil now d (update now f s) := by
  intro e deadline he hd
  have hstored := (live_eq_some.mp he).1
  cases hlive : live now s with
  | none =>
      rw [update_eq_of_live_none hlive] at hstored
      obtain ⟨v, -, rfl⟩ := Option.map_eq_some_iff.mp hstored
      cases hd
  | some e₀ =>
      rw [update_eq_of_live_some hlive] at hstored
      obtain ⟨v, -, rfl⟩ := Option.map_eq_some_iff.mp hstored
      exact h e₀ deadline hlive hd

theorem lastsUntil_expire [Add τ] {d ttl : τ} (s : Slot τ ν) (h : d ≤ now + ttl) :
    LastsUntil now d (expire now ttl s) := by
  intro e deadline he hd
  obtain ⟨e₀, -, rfl⟩ := Option.map_eq_some_iff.mp (live_eq_some.mp he).1
  cases hd
  exact h

end Order

end Slot

abbrev Keyspace (κ τ ν : Type*) := κ → Slot τ ν

namespace Keyspace

variable [DecidableEq κ]

def modify (ks : Keyspace κ τ ν) (k : κ) (f : Slot τ ν → Slot τ ν) : Keyspace κ τ ν :=
  Function.update ks k (f (ks k))

@[simp] theorem modify_self (ks : Keyspace κ τ ν) (k : κ) (f : Slot τ ν → Slot τ ν) :
    ks.modify k f k = f (ks k) := by
  simp [modify]

@[simp] theorem modify_of_ne (ks : Keyspace κ τ ν) {k k' : κ} (f : Slot τ ν → Slot τ ν)
    (h : k' ≠ k) : ks.modify k f k' = ks k' := by
  simp [modify, h]

/-! Two keyspaces that agree on a set of keys, `Set.EqOn`. -/

theorem modify_eqOn {ks ks' : Keyspace κ τ ν} {K : Set κ} (h : Set.EqOn ks ks' K) (k : κ)
    (f : Slot τ ν → Slot τ ν) : Set.EqOn (ks.modify k f) (ks'.modify k f) K := by
  intro k' hk'
  by_cases heq : k' = k
  · subst heq
    rw [modify_self, modify_self, h hk']
  · rw [modify_of_ne _ _ heq, modify_of_ne _ _ heq]
    exact h hk'

end Keyspace

end RateGuardian.Lib
