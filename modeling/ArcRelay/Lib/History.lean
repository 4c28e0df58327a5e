import Mathlib.Data.List.Basic
import Mathlib.Tactic.Common

/-!
# Histories

A history is a list of entries, the newest first, that grows at its head while programs
run.  Every entry has an owner, and what an owner has done is seen from its own entries
alone: they do not change as long as only others act.  Conditions on a history are often
recursive, saying of each entry something about what came before it; such a condition holds
of every older history as well.
-/

namespace History

open List

variable {ε ι : Type} [DecidableEq ι] {owner : ε → ι} {i : ι} {e : ε} {log log' front : List ε}
  {A : ε → List ε → Prop}

def own (owner : ε → ι) (i : ι) (log : List ε) : List ε := log.filter fun e => owner e = i

theorem mem_own : e ∈ own owner i log ↔ e ∈ log ∧ owner e = i := by
  simp [own]

theorem mem_congr (h : own owner i log' = own owner i log) (he : owner e = i) :
    e ∈ log' ↔ e ∈ log := by
  have hmem : e ∈ own owner i log' ↔ e ∈ own owner i log := by rw [h]
  simpa [mem_own, he] using hmem

theorem own_append : own owner i (front ++ log) = own owner i log ↔ ∀ e ∈ front, owner e ≠ i := by
  rw [own, own, filter_append, append_left_eq_self, filter_eq_nil_iff]
  simp

theorem own_cons (he : owner e ≠ i) : own owner i (e :: log) = own owner i log := by
  refine (own_append : own owner i ([e] ++ log) = _ ↔ _).mpr fun e' he' => ?_
  rw [mem_singleton.mp he']
  exact he

theorem suffix_of_tail {P : List ε → Prop} (htail : ∀ e log, P (e :: log) → P log) (h : P log')
    (hl : log <:+ log') : P log := by
  obtain ⟨front, rfl⟩ := hl
  induction front with
  | nil => exact h
  | cons e front ih => exact ih (htail e _ h)

/-- Each entry meets a condition on what came before it. -/
def Always (A : ε → List ε → Prop) : List ε → Prop
  | [] => True
  | e :: log => A e log ∧ Always A log

theorem Always.suffix (h : Always A log') (hl : log <:+ log') : Always A log :=
  suffix_of_tail (fun _ _ h => h.2) h hl

theorem Always.mem (h : Always A log) (he : e ∈ log) : ∃ older, e :: older <:+ log ∧ A e older := by
  obtain ⟨front, older, rfl⟩ := append_of_mem he
  have hsuffix : e :: older <:+ front ++ e :: older := suffix_append front _
  exact ⟨older, hsuffix, (h.suffix hsuffix).1⟩

theorem Always.append (h : Always A log) (hfront : ∀ e ∈ front, ∀ log, A e log) :
    Always A (front ++ log) := by
  induction front with
  | nil => exact h
  | cons e front ih =>
    exact ⟨hfront e mem_cons_self _, ih fun e' he' => hfront e' (mem_cons_of_mem e he')⟩

end History
