import Mathlib.Data.List.Basic
import Mathlib.Data.List.Nodup
import Mathlib.Tactic.Common

/-!
# Tables with a key

A table is a list of rows, and a key column is a function of a row.  The operations
are those of a relational store, read on the list: a lookup by key, an update of the
row with a key, and an insert that updates the row in its way instead when there is
one.  What is said of one key is said through `find`, so that two updates of
different keys are seen not to meet.
-/

namespace Table

open List

variable {α κ : Type} [DecidableEq κ] {key : α → κ} {k k' : κ} {f : α → α} {x r : α} {t : List α}

/-- The row with the key. -/
def find (key : α → κ) (k : κ) (t : List α) : Option α := t.find? fun r => key r = k

/-- `UPDATE … WHERE`. -/
def modify (key : α → κ) (k : κ) (f : α → α) (t : List α) : List α :=
  t.map fun r => if key r = k then f r else r

/-- `INSERT … ON CONFLICT DO UPDATE`. -/
def upsert (key : α → κ) (f : α → α) (x : α) (t : List α) : List α :=
  if (find key (key x) t).isSome then modify key (key x) f t else t ++ [x]

/-- `DELETE … WHERE`. -/
def delete (key : α → κ) (k : κ) (t : List α) : List α := t.filter fun r => key r ≠ k

theorem find_eq_none : find key k t = none ↔ ∀ r ∈ t, key r ≠ k := by
  simp [find]

theorem mem_of_find (h : find key k t = some r) : r ∈ t := mem_of_find?_eq_some h

theorem key_of_find (h : find key k t = some r) : key r = k := by
  have := find?_some h
  simpa using this

theorem find_of_mem (hn : (t.map key).Nodup) (h : r ∈ t) : find key (key r) t = some r := by
  induction t with
  | nil => simp at h
  | cons y t ih => ?_
  rw [map_cons, nodup_cons] at hn
  rcases mem_cons.mp h with rfl | h
  · simp [find]
  have hne : key y ≠ key r := fun he => hn.1 (he ▸ mem_map_of_mem h)
  have := ih hn.2 h
  simpa [find, hne] using this

theorem find_append : find key k (t ++ [x]) = (find key k t).or (if key x = k then some x else none)
    := by
  by_cases hx : key x = k <;> simp [find, hx]

theorem find_map (hf : ∀ r, key (f r) = key r) : find key k (t.map f) = (find key k t).map f := by
  rw [find, find, find?_map]
  simp [Function.comp_def, hf]

theorem find_modify (hf : ∀ r, key r = k → key (f r) = k) :
    find key k' (modify key k f t) = if k' = k then (find key k t).map f else find key k' t := by
  induction t with
  | nil => simp [find, modify]
  | cons y t ih => ?_
  simp only [find, modify, map_cons, find?_cons] at ih ⊢
  by_cases hy : key y = k
  · have hfy := hf y hy
    by_cases hk : k' = k
    · subst hk
      simp [hy, hfy]
    · simp only [hy, if_true, hfy, Ne.symm hk, decide_false, hk, if_false] at ih ⊢
      exact ih
  by_cases hk : key y = k'
  · subst hk
    simp [hy]
  · simp only [hy, if_false, hk, decide_false] at ih ⊢
    exact ih

theorem find_upsert (hf : ∀ r, key r = key x → key (f r) = key x) :
    find key k (upsert key f x t) =
      if k = key x then some (((find key k t).map f).getD x) else find key k t := by
  unfold upsert
  split
  · next hs =>
    rw [find_modify hf]
    obtain ⟨r, hr⟩ := Option.isSome_iff_exists.mp hs
    by_cases hk : k = key x
    · simp [hk, hr]
    · simp [hk]
  next hs =>
  rw [find_append]
  have hnone : find key (key x) t = none := by simpa using hs
  by_cases hk : k = key x
  · subst hk
    simp [hnone]
  · simp [hk, Ne.symm hk]

theorem map_modify_eq {β : Type} {g : α → β} (hf : ∀ r, key r = k → g (f r) = g r) :
    (modify key k f t).map g = t.map g := by
  rw [modify, map_map]
  refine map_congr_left fun r _ => ?_
  by_cases hr : key r = k
  · simp [hr, hf r hr]
  · simp [hr]

theorem map_modify (hf : ∀ r, key r = k → key (f r) = k) : (modify key k f t).map key = t.map key :=
  map_modify_eq fun r hr => (hf r hr).trans hr.symm

theorem nodup_modify (hf : ∀ r, key r = k → key (f r) = k) (hn : (t.map key).Nodup) :
    ((modify key k f t).map key).Nodup := by
  rwa [map_modify hf]

theorem nodup_append_row (hn : (t.map key).Nodup) (hx : find key (key x) t = none) :
    ((t ++ [x]).map key).Nodup := by
  rw [map_append, nodup_append]
  refine ⟨hn, by simp, fun a ha b hb => ?_⟩
  obtain ⟨r, hr, rfl⟩ := mem_map.mp ha
  rw [map_singleton, mem_singleton] at hb
  rw [hb]
  exact find_eq_none.mp hx r hr

theorem nodup_upsert (hf : ∀ r, key r = key x → key (f r) = key x) (hn : (t.map key).Nodup) :
    ((upsert key f x t).map key).Nodup := by
  unfold upsert
  split
  · exact nodup_modify hf hn
  · next hs => exact nodup_append_row hn (by simpa using hs)

theorem find_delete : find key k' (delete key k t) = if k' = k then none else find key k' t := by
  induction t with
  | nil => simp [find, delete]
  | cons y t ih => ?_
  simp only [find, delete, filter_cons, find?_cons] at ih ⊢
  by_cases hy : key y = k
  · -- the row goes, and it is not the one looked for unless the keys agree
    by_cases hk : k' = k
    · simp [hy, hk]
    · simpa [hy, hk, Ne.symm hk] using ih
  by_cases hk : key y = k'
  · subst hk
    simp [hy]
  · simpa [hy, hk] using ih

theorem nodup_delete (hn : (t.map key).Nodup) : ((delete key k t).map key).Nodup :=
  hn.sublist (filter_sublist.map key)

end Table

/-! ### Rows that are a key and a value -/

namespace Table

section

variable {κ β : Type} [DecidableEq κ] [BEq κ] [LawfulBEq κ] {k : κ} {v : β} {l : List (κ × β)}

theorem lookup_cons (k : κ) (v : β) (l : List (κ × β)) (k' : κ) :
    List.lookup k' ((k, v) :: l) = if k' = k then some v else l.lookup k' := by
  by_cases hk : k' = k
  · rw [if_pos hk, hk, List.lookup_cons_self]
  · rw [if_neg hk, List.lookup_cons, beq_eq_false_iff_ne.mpr hk]

theorem lookup_filter (l : List (κ × β)) (P : κ → Bool) (k' : κ) :
    (l.filter fun r => P r.1).lookup k' = if P k' then l.lookup k' else none := by
  induction l with
  | nil => simp
  | cons r l ih => ?_
  obtain ⟨k, v⟩ := r
  rw [List.filter_cons, lookup_cons]
  by_cases hP : P k = true
  · rw [if_pos hP, lookup_cons, ih]
    by_cases hk : k' = k
    · rw [if_pos hk, hk, if_pos hP, if_pos rfl]
    · rw [if_neg hk, if_neg hk]
  rw [if_neg hP, ih]
  by_cases hk : k' = k
  · rw [hk, if_neg hP, if_neg hP]
  · rw [if_neg hk]

/-- An assignment to a map. -/
def put (k : κ) (v : β) (l : List (κ × β)) : List (κ × β) := (k, v) :: l.filter fun r => r.1 ≠ k

theorem lookup_put (k : κ) (v : β) (l : List (κ × β)) (k' : κ) :
    (put k v l).lookup k' = if k' = k then some v else l.lookup k' := by
  rw [put, lookup_cons, lookup_filter l (fun a => a ≠ k)]
  by_cases hk : k' = k
  · rw [if_pos hk, if_pos hk]
  · rw [if_neg hk, if_neg hk, if_pos (decide_eq_true hk)]

omit [DecidableEq κ]

theorem mem_of_lookup (h : l.lookup k = some v) : (k, v) ∈ l := by
  obtain ⟨front, rest, rfl, -⟩ := List.lookup_eq_some_iff.mp h
  exact List.mem_append_right _ List.mem_cons_self

end

end Table
