import RateGuardian.RuleRepository
import RateGuardian.Lib.Run
import Mathlib.Algebra.Group.Nat.Even

/-!
# RateGuardian.RuleToggle

**Toggling a rule under concurrency.** `PATCH /rules/{id}/toggle` reads the row and commits the
negation of what it read. The route runs in worker threads, so the two statements of one toggle
interleave with those of others, and with writes to other rules.

A toggle that commits after the flag has changed under it writes the value that is there already.
`toggle_parity_iff` counts these: the flag has the parity of the toggles exactly when an even
number of them went that way.

The invariant is a sum: the flag now is the flag at the start, flipped once for each toggle that
found what it had read (`ToggleInv`). Writes to other rules keep it, since they leave the row alone.
-/

namespace RateGuardian

open Lib

/-! ### The route -/

namespace RuleRepository

/-- `get_by_id`: the row with the id, if there is one. -/
def getById (db : RuleTable) (id : ℕ) : Option Rule := db.find? fun r => r.id = id

end RuleRepository

/-- The id of the rule that a write is about. -/
def Write.target : Write → ℕ
  | .create rule => rule.id
  | .setActive id _ => id
  | .delete id => id

open RuleRepository

/-- The flag of a rule in the table, if the rule is there. -/
def activeOf (id : ℕ) (db : RuleTable) : Option Bool := (getById db id).map Rule.active

/-- `toggle_rule` on a table that nobody else uses; `none` is the 404. -/
def toggleRule (id : ℕ) (db : RuleTable) : Option RuleTable :=
  (getById db id).map fun rule => (Write.setActive id (!rule.active)).commit db

section Table

variable {id : ℕ} {db : RuleTable}

theorem id_of_getById {rule : Rule} (h : getById db id = some rule) : rule.id = id := by
  simpa using List.find?_some h

/-- What `get_by_id` finds after a `set_active`: the same row, with the new flag if it is the one
that was set. -/
theorem getById_setActive (other : ℕ) (active : Bool) :
    getById ((Write.setActive other active).commit db) id =
      (getById db id).map fun r => if r.id = other then { r with active := active } else r := by
  rw [getById, Write.commit, List.find?_map, getById]
  congr 2
  funext r
  rw [Function.comp_apply]
  split <;> rfl

theorem activeOf_setActive (active : Bool) (h : (activeOf id db).isSome = true) :
    activeOf id ((Write.setActive id active).commit db) = some active := by
  rw [activeOf, Option.isSome_map, Option.isSome_iff_exists] at h
  obtain ⟨rule, hrule⟩ := h
  rw [activeOf, getById_setActive, hrule]
  simp [id_of_getById hrule]

/-- A write about another rule leaves the row alone. -/
theorem getById_commit_of_ne {w : Write} (h : w.target ≠ id) :
    getById (w.commit db) id = getById db id := by
  cases w with
  | create rule =>
      have hne : rule.id ≠ id := h
      simp [getById, Write.commit, List.find?_append, hne]
  | setActive other active =>
      have hne : other ≠ id := h
      rw [getById_setActive]
      cases hrule : getById db id with
      | none => rfl
      | some rule => simp [id_of_getById hrule, hne.symm]
  | delete other =>
      have hne : other ≠ id := h
      rw [getById, Write.commit, List.find?_filter, getById]
      congr 1
      funext r
      by_cases hid : r.id = id
      · simp [hid, hne.symm]
      · simp [hid]

end Table

/-! ### Toggles in progress

A toggle stands before its read, between its read and its commit, or has returned. Any number of
them may be in progress at once, each in a thread of its own. -/

inductive TogglePoint
  | idle
  | read (active : Bool)
  /-- The toggle has returned 200. -/
  | returned
  deriving DecidableEq

structure ToggleState where
  db : RuleTable
  point : ℕ → TogglePoint

namespace ToggleState

def initial (db : RuleTable) : ToggleState := ⟨db, fun _ => .idle⟩

def moveTo (s : ToggleState) (i : ℕ) (p : TogglePoint) : ToggleState :=
  { s with point := Function.update s.point i p }

end ToggleState

inductive ToggleEvent
  | read (i : ℕ)
  | commit (i : ℕ)
  /-- A write about another rule. -/
  | other (w : Write)
  deriving DecidableEq

/-- The steps of the toggles of rule `id`, and of the writes to other rules. -/
inductive ToggleStep (id : ℕ) : ToggleState → ToggleEvent → ToggleState → Prop
  | read {s : ToggleState} (i : ℕ) (active : Bool) (hi : s.point i = .idle)
      (hget : activeOf id s.db = some active) :
      ToggleStep id s (.read i) (s.moveTo i (.read active))
  | commit {s : ToggleState} (i : ℕ) (active : Bool) (hi : s.point i = .read active) :
      ToggleStep id s (.commit i)
        { s.moveTo i .returned with db := (Write.setActive id (!active)).commit s.db }
  | other {s : ToggleState} (w : Write) (hw : w.target ≠ id) :
      ToggleStep id s (.other w) { s with db := w.commit s.db }

/-- The two steps of a toggle, taken in a row, are `toggle_rule`. -/
theorem toggle_steps {id : ℕ} (s : ToggleState) {db : RuleTable} (i : ℕ) (hi : s.point i = .idle)
    (hdb : toggleRule id s.db = some db) :
    ∃ tr s', Run (ToggleStep id) s tr s' ∧ s'.point i = .returned ∧ s'.db = db := by
  obtain ⟨rule, hrule, rfl⟩ := Option.map_eq_some_iff.mp hdb
  have hget : activeOf id s.db = some rule.active := by
    rw [activeOf, hrule]
    rfl
  have hread : (s.moveTo i (.read rule.active)).point i = .read rule.active := by
    simp [ToggleState.moveTo]
  exact ⟨_, _, .snoc (.single (.read i rule.active hi hget)) (.commit i rule.active hread),
    by simp [ToggleState.moveTo], rfl⟩

/-! ### Counting

Two numbers of a run are counted: the toggles that have returned, and those of them that were stale
when they committed. -/

abbrev ToggleTrace := List (Transition ToggleState ToggleEvent)

def isToggle (t : Transition ToggleState ToggleEvent) : Bool :=
  match t.label with
  | .commit _ => true
  | _ => false

/-- A toggle commits, and the flag is not what it read. -/
def isStale (id : ℕ) (t : Transition ToggleState ToggleEvent) : Bool :=
  match t.label with
  | .commit i =>
      match t.pre.point i with
      | .read active => activeOf id t.pre.db ≠ some active
      | _ => false
  | _ => false

/-- The toggles that have returned 200. -/
def toggles (tr : ToggleTrace) : ℕ := tr.countP isToggle

def staleToggles (id : ℕ) (tr : ToggleTrace) : ℕ := tr.countP (isStale id)

/-- The flag is what it was at the start exactly when an even number of toggles has returned. -/
def ToggleParity (id : ℕ) (db : RuleTable) (tr : ToggleTrace) (s : ToggleState) : Prop :=
  activeOf id s.db = activeOf id db ↔ Even (toggles tr)

instance (id : ℕ) (db : RuleTable) (tr : ToggleTrace) (s : ToggleState) :
    Decidable (ToggleParity id db tr s) :=
  inferInstanceAs (Decidable (_ ↔ _))

/-- The invariant: each toggle that finds what it read flips the flag, and no other does. -/
structure ToggleInv (id : ℕ) (db : RuleTable) (tr : ToggleTrace) (s : ToggleState) : Prop where
  present : (activeOf id s.db).isSome = true
  flips : activeOf id s.db = activeOf id db ↔ Even (toggles tr + staleToggles id tr)

section Steps

variable {id : ℕ} {db : RuleTable} {tr : ToggleTrace} {s s' : ToggleState} {e : ToggleEvent}

theorem toggles_concat (t : Transition ToggleState ToggleEvent) :
    toggles (tr ++ [t]) = toggles tr + if isToggle t then 1 else 0 := by
  rw [toggles, List.countP_append, List.countP_singleton, toggles]

theorem staleToggles_concat (t : Transition ToggleState ToggleEvent) :
    staleToggles id (tr ++ [t]) = staleToggles id tr + if isStale id t then 1 else 0 := by
  rw [staleToggles, List.countP_append, List.countP_singleton, staleToggles]

theorem ToggleInv.of_eq (h : ToggleInv id db tr s) (hactive : activeOf id s'.db = activeOf id s.db)
    (htoggle : isToggle ⟨s, e, s'⟩ = false) (hstale : isStale id ⟨s, e, s'⟩ = false) :
    ToggleInv id db (tr ++ [⟨s, e, s'⟩]) s' := by
  refine ⟨hactive ▸ h.present, ?_⟩
  rw [hactive, h.flips, toggles_concat, staleToggles_concat, htoggle, hstale]
  rfl

/-- The step lemma: a read changes nothing, a commit that finds what was read flips the flag, and a
stale one leaves it. -/
theorem ToggleInv.step (hpresent : (activeOf id db).isSome = true) (h : ToggleInv id db tr s)
    (hstep : ToggleStep id s e s') : ToggleInv id db (tr ++ [⟨s, e, s'⟩]) s' := by
  cases hstep with
  | read i active hi hget => exact h.of_eq rfl rfl rfl
  | other w hw =>
      refine h.of_eq ?_ rfl rfl
      rw [activeOf, getById_commit_of_ne hw, activeOf]
  | commit i active hi =>
      obtain ⟨v, hv⟩ := Option.isSome_iff_exists.mp h.present
      obtain ⟨v₀, hv₀⟩ := Option.isSome_iff_exists.mp hpresent
      have hafter := @activeOf_setActive id s.db (!active) h.present
      refine ⟨by rw [hafter]; rfl, ?_⟩
      have hstale : isStale id ⟨s, .commit i, { s.moveTo i .returned with
          db := (Write.setActive id (!active)).commit s.db }⟩ = decide (v ≠ active) := by
        simp [isStale, hi, hv]
      have hflips := h.flips
      rw [hv, hv₀, Option.some_inj] at hflips
      rw [toggles_concat, staleToggles_concat, hstale, hafter, hv₀, Option.some_inj, isToggle,
        if_pos rfl]
      by_cases hfresh : v = active
      · -- the flag was `active`, and is flipped
        have hnot : (!active) = v₀ ↔ ¬ v = v₀ := by
          rw [hfresh, Bool.not_eq]
        rw [hnot, hflips, if_neg (by simp [hfresh]), Nat.add_right_comm,
          Nat.even_add_one, Nat.add_zero]
      · -- the flag was `!active`, and is written again
        have hsame : (!active) = v := by
          rw [Bool.not_eq]
          exact Ne.symm hfresh
        rw [hsame, hflips, if_pos (by simp [hfresh]), Nat.add_add_add_comm]
        exact (Nat.even_add.trans (iff_true_right even_two)).symm

end Steps

/-- The run lemma: the invariant holds in every state that the toggles of a rule reach. -/
theorem toggleInv_run {id : ℕ} {db : RuleTable} (hpresent : (activeOf id db).isSome = true)
    {tr : ToggleTrace} {s : ToggleState} (h : Run (ToggleStep id) (.initial db) tr s) :
    ToggleInv id db tr s := by
  refine h.invariant ⟨hpresent, by simp [ToggleState.initial, toggles, staleToggles]⟩ ?_
  intro tr s e s' _ hinv hstep
  exact hinv.step hpresent hstep

/-! ### Parity -/

/-- Two toggles read the flag before either commits. Both return 200, and the rule has been switched
off. -/
theorem toggle_lost : ∃ tr, ∃ s : ToggleState,
    Run (ToggleStep 1) (.initial [⟨1, "all", "*", 10, 60, .ip, true, 0⟩]) tr s ∧
      (∀ i active, s.point i ≠ .read active) ∧
      ¬ ToggleParity 1 [⟨1, "all", "*", 10, 60, .ip, true, 0⟩] tr s := by
  refine ⟨_, _, .snoc (.snoc (.snoc (.snoc .nil
    (.read 1 true ?_ ?_)) (.read 2 true ?_ ?_)) (.commit 1 true ?_)) (.commit 2 true ?_), ?_, ?_⟩
  rotate_right 2
  · intro i active
    by_cases h₂ : i = 2
    · simp [h₂, ToggleState.moveTo]
    · by_cases h₁ : i = 1
      · simp [h₁, ToggleState.moveTo]
      · simp [h₁, h₂, ToggleState.moveTo, ToggleState.initial]
  all_goals decide +kernel

/-- **When toggles are not lost.** In every run of the toggles of a rule, the flag is what it was
exactly when an even number of them has returned, if and only if an even number of them found the
flag changed after reading it. -/
theorem toggle_parity_iff (id : ℕ) (db : RuleTable) (hpresent : (activeOf id db).isSome = true)
    {tr : ToggleTrace} {s : ToggleState} (h : Run (ToggleStep id) (.initial db) tr s) :
    ToggleParity id db tr s ↔ Even (staleToggles id tr) := by
  rw [ToggleParity, (toggleInv_run hpresent h).flips, Nat.even_add]
  tauto

/-- Two toggles, one after the other, bring the flag back. -/
theorem toggle_parity_iff_in_turn : ∃ tr, ∃ s : ToggleState, toggles tr = 2 ∧
    ToggleParity 1 [⟨1, "all", "*", 10, 60, .ip, true, 0⟩] tr s := by
  have hrun : ∃ tr, ∃ s : ToggleState,
      Run (ToggleStep 1) (.initial [⟨1, "all", "*", 10, 60, .ip, true, 0⟩]) tr s ∧
        toggles tr = 2 ∧ Even (staleToggles 1 tr) := by
    refine ⟨_, _, .snoc (.snoc (.snoc (.snoc .nil
      (.read 1 true ?_ ?_)) (.commit 1 true ?_)) (.read 2 false ?_ ?_)) (.commit 2 false ?_),
      ?_, ?_⟩
    all_goals decide +kernel
  obtain ⟨tr, s, h, htwo, hfresh⟩ := hrun
  exact ⟨tr, s, htwo, (toggle_parity_iff 1 _ (by decide +kernel) h).mpr hfresh⟩

end RateGuardian
