import Mathlib.Data.List.Basic
import Mathlib.Data.List.DropRight
import Mathlib.Data.List.Nodup

/-!
# RateGuardian.Lib.Dict

**Dictionaries that remember their insertion order**, as lists of entries. Assigning to a key
that is there changes its value in place; a new key goes to the end.

A dictionary built from a list of pairs keeps all of them, up to order, exactly when no key
occurs twice (`ofList_perm_iff`). This is what code relies on that collects pairs in a dictionary
only to list them again.
-/

namespace RateGuardian.Lib

variable {κ ν : Type*} [DecidableEq κ]

namespace Dict

/-- `d[k] = v`, which replaces the value of a key that is there, in its place. -/
def set (d : List (κ × ν)) (k : κ) (v : ν) : List (κ × ν) :=
  if k ∈ d.map Prod.fst then d.map fun e => if e.1 = k then (k, v) else e else d ++ [(k, v)]

/-- `{k: v for k, v in l}`, where a later value of a key replaces an earlier one. -/
def ofList (l : List (κ × ν)) : List (κ × ν) := l.foldl (fun d e => set d e.1 e.2) []

theorem ofList_concat (l : List (κ × ν)) (e : κ × ν) :
    ofList (l ++ [e]) = set (ofList l) e.1 e.2 := by
  simp [ofList]

theorem keys_set_of_mem {d : List (κ × ν)} {k : κ} (h : k ∈ d.map Prod.fst) (v : ν) :
    (set d k v).map Prod.fst = d.map Prod.fst := by
  rw [set, if_pos h, List.map_map]
  refine List.map_congr_left ?_
  intro e _
  by_cases he : e.1 = k
  · simp [he]
  · simp [he]

theorem set_of_notMem {d : List (κ × ν)} {k : κ} (h : k ∉ d.map Prod.fst) (v : ν) :
    set d k v = d ++ [(k, v)] :=
  if_neg h

theorem mem_keys_ofList {l : List (κ × ν)} {k : κ} :
    k ∈ (ofList l).map Prod.fst ↔ k ∈ l.map Prod.fst := by
  induction l using List.reverseRecOn with
  | nil => rfl
  | append_singleton l e ih =>
      rw [ofList_concat, List.map_append, List.mem_append, ← ih]
      by_cases he : e.1 ∈ (ofList l).map Prod.fst
      · rw [keys_set_of_mem he]
        constructor
        · exact Or.inl
        · rintro (hk | hk)
          · exact hk
          · rw [List.map_singleton, List.mem_singleton] at hk
            rwa [hk]
      · rw [set_of_notMem he, List.map_append, List.mem_append]

/-- A dictionary has one entry for each key, whatever list it is built from. -/
theorem nodup_keys_ofList (l : List (κ × ν)) : ((ofList l).map Prod.fst).Nodup := by
  induction l using List.reverseRecOn with
  | nil => exact List.nodup_nil
  | append_singleton l e ih =>
      rw [ofList_concat]
      by_cases he : e.1 ∈ (ofList l).map Prod.fst
      · rw [keys_set_of_mem he]
        exact ih
      · rw [set_of_notMem he, List.map_append, List.map_singleton]
        exact List.nodup_append.mpr ⟨ih, List.nodup_singleton _, by
          rintro k hk _ hk' rfl
          rw [List.mem_singleton.mp hk'] at hk
          exact he hk⟩

theorem ofList_of_nodup {l : List (κ × ν)} (h : (l.map Prod.fst).Nodup) : ofList l = l := by
  induction l using List.reverseRecOn with
  | nil => rfl
  | append_singleton l e ih =>
      rw [List.map_append, List.nodup_append] at h
      obtain ⟨hl, -, hdisj⟩ := h
      have hnew : e.1 ∉ (ofList l).map Prod.fst := by
        rw [mem_keys_ofList]
        intro he
        exact hdisj _ he _ (by simp) rfl
      rw [ofList_concat, set_of_notMem hnew, ih hl]

/-- Nothing is lost exactly when no key is repeated. -/
theorem ofList_perm_iff {l : List (κ × ν)} :
    (ofList l).Perm l ↔ (l.map Prod.fst).Nodup := by
  constructor
  · intro h
    exact (h.map Prod.fst).nodup_iff.mp (nodup_keys_ofList l)
  · intro h
    rw [ofList_of_nodup h]

end Dict

theorem nodup_eraseDups (l : List κ) : l.eraseDups.Nodup := by
  induction l using List.reverseRecOn with
  | nil => exact List.nodup_nil
  | append_singleton l k ih =>
      rw [List.eraseDups_append]
      by_cases hk : k ∈ l
      · have hnone : [k].removeAll l = [] := by simp [List.removeAll, hk]
        rw [hnone]
        simpa using ih
      · have hnew : [k].removeAll l = [k] := by simp [List.removeAll, hk]
        have hone : [k].eraseDups = [k] := by simp [List.eraseDups_cons]
        rw [hnew, hone]
        refine List.nodup_append.mpr ⟨ih, List.nodup_singleton k, ?_⟩
        rintro a ha b hb rfl
        obtain rfl : a = k := List.mem_singleton.mp hb
        exact hk (List.mem_eraseDups.mp ha)

end RateGuardian.Lib
