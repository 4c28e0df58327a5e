import Mathlib.Data.List.Basic
import Mathlib.Data.List.Infix
import Mathlib.Tactic.Common

/-!
# Lists cut at a separator

A list of symbols with a separator `c` is a sequence of records, each ended by
`c`, and perhaps an unfinished record.  This file has the vocabulary for walking
such a list from the front: the first and last separator, the offsets that lie
between two records, the slice found at an offset, and the list of the finished
records with the offset each starts at.  Everything that is said of an offset is
kept when the list grows at its end.
-/

namespace Lines

open List Option

variable {α : Type} {c : α} {l l' u : List α} {n off i : ℕ}

/-! ### The first and the last separator -/

section

variable [DecidableEq α]

def firstIdx (c : α) : List α → Option ℕ
  | [] => none
  | x :: l => if x = c then some 0 else (firstIdx c l).map (· + 1)

def lastIdx (c : α) : List α → Option ℕ
  | [] => none
  | x :: l =>
    match lastIdx c l with
    | some i => some (i + 1)
    | none => if x = c then some 0 else none

/-- The offset at which `u` first stands in the list. -/
def index : List α → List α → Option ℕ
  | [], u => if u.isEmpty then some 0 else none
  | x :: l, u => if u.isPrefixOf (x :: l) then some 0 else (index l u).map (· + 1)

theorem index_eq_find (l u : List α) :
    index l u = (range (l.length + 1)).find? fun i => u.isPrefixOf (l.drop i) := by
  induction l with
  | nil => cases u <;> rfl
  | cons x l ih => ?_
  rw [index, ih, length_cons, @range_succ_eq_map (l.length + 1), find?_cons, find?_map]
  cases hu : u.isPrefixOf (x :: l) with
  | true | false => simp [hu, Function.comp_def]

theorem firstIdx_eq_none : firstIdx c l = none ↔ c ∉ l := by
  induction l with
  | nil => simp [firstIdx]
  | cons x l ih => ?_
  by_cases hx : x = c
  · simp [firstIdx, hx]
  · simp [firstIdx, hx, ih, Ne.symm hx]

variable (h : firstIdx c l = some i)

include h

theorem split_of_firstIdx :
    ∃ before after, l = before ++ c :: after ∧ c ∉ before ∧ before.length = i := by
  induction l generalizing i with
  | nil => simp [firstIdx] at h
  | cons x l ih => ?_
  by_cases hx : x = c
  · simp only [firstIdx, hx, if_true, some.injEq] at h
    exact ⟨[], l, by rw [hx]; rfl, not_mem_nil, h⟩
  simp only [firstIdx, hx, if_false, map_eq_some_iff] at h
  obtain ⟨j, hj, rfl⟩ := h
  obtain ⟨before, after, rfl, hnot, rfl⟩ := ih hj
  exact ⟨x :: before, after, rfl, not_mem_cons_of_ne_of_not_mem (Ne.symm hx) hnot, rfl⟩

theorem getElem?_of_firstIdx : l[i]? = some c := by
  obtain ⟨before, after, rfl, -, rfl⟩ := split_of_firstIdx h
  simp

theorem notMem_take_firstIdx : c ∉ l.take i := by
  obtain ⟨before, after, rfl, hnot, rfl⟩ := split_of_firstIdx h
  rwa [take_left]

theorem count_take_firstIdx : (l.take (i + 1)).count c = 1 := by
  rw [take_add_one, count_append, count_eq_zero_of_not_mem (notMem_take_firstIdx h),
    getElem?_of_firstIdx h]
  simp

theorem firstIdx_lt_of_count (hcount : 1 < l.count c) : i + 1 < l.length := by
  obtain ⟨before, after, rfl, hnot, rfl⟩ := split_of_firstIdx h
  rw [count_append, count_eq_zero_of_not_mem hnot, count_cons_self] at hcount
  have hafter : after.count c ≤ after.length := count_le_length
  rw [length_append, length_cons]
  omega

omit h

theorem lastIdx_eq_none : lastIdx c l = none ↔ c ∉ l := by
  induction l with
  | nil => simp [lastIdx]
  | cons x l ih => ?_
  cases hl : lastIdx c l with
  | some i =>
    have hc : c ∈ l := by
      by_contra hc
      rw [ih.mpr hc] at hl
      simp at hl
    simp [lastIdx, hl, hc]
  | none =>
    have hc : c ∉ l := ih.mp hl
    by_cases hx : x = c
    · simp [lastIdx, hl, hx]
    · simp [lastIdx, hl, hx, hc, Ne.symm hx]

theorem getElem?_of_lastIdx (h : lastIdx c l = some i) : l[i]? = some c := by
  induction l generalizing i with
  | nil => simp [lastIdx] at h
  | cons x l ih => ?_
  cases hl : lastIdx c l with
  | some j =>
    simp only [lastIdx, hl, some.injEq] at h
    subst h
    simpa using ih hl
  | none =>
    by_cases hx : x = c
    · simp only [lastIdx, hl, hx, if_true, some.injEq] at h
      subst h
      simp [hx]
    · simp [lastIdx, hl, hx] at h

end

theorem lt_length_of_getElem? (h : l[i]? = some c) : i < l.length :=
  (List.getElem?_eq_some_iff.mp h).1

/-! ### Ending in a separator -/

def Ends (c : α) (l : List α) : Prop := l.getLast? = some c

instance [DecidableEq α] : Decidable (Ends c l) := inferInstanceAs (Decidable (_ = _))

theorem Ends.ne_nil (h : Ends c l) : l ≠ [] := by
  rintro rfl
  simp [Ends] at h

theorem Ends.length_pos (h : Ends c l) : 0 < l.length :=
  length_pos_iff.mpr h.ne_nil

theorem ends_iff : Ends c l ↔ ∃ k, l.length = k + 1 ∧ l[k]? = some c := by
  unfold Ends
  rw [getLast?_eq_getElem?]
  constructor
  · intro h
    have := lt_length_of_getElem? h
    exact ⟨l.length - 1, by omega, h⟩
  rintro ⟨k, hk, h⟩
  rw [hk]
  simpa using h

theorem Ends.mem (h : Ends c l) : c ∈ l := by
  obtain ⟨k, -, hk⟩ := ends_iff.mp h
  exact mem_of_getElem? hk

theorem ends_take (h : l[i]? = some c) : Ends c (l.take (i + 1)) := by
  have hi := lt_length_of_getElem? h
  refine ends_iff.mpr ⟨i, by rw [length_take]; omega, ?_⟩
  rw [getElem?_take_of_lt (by omega)]
  exact h

theorem Ends.drop (h : Ends c l) (hi : n < l.length) : Ends c (l.drop n) := by
  obtain ⟨k, hk, hc⟩ := ends_iff.mp h
  refine ends_iff.mpr ⟨k - n, by rw [length_drop]; omega, ?_⟩
  rw [getElem?_drop, show n + (k - n) = k by omega]
  exact hc

/-! ### Offsets between two records -/

/-- Offset `n` is zero or just past a separator. -/
def Aligned (c : α) (l : List α) (n : ℕ) : Prop := n = 0 ∨ ∃ k, n = k + 1 ∧ l[k]? = some c

theorem aligned_zero : Aligned c l 0 := .inl rfl

theorem Aligned.le_length (h : Aligned c l n) : n ≤ l.length := by
  rcases h with rfl | ⟨k, rfl, hk⟩
  · exact Nat.zero_le _
  · exact lt_length_of_getElem? hk

theorem Aligned.mono (h : Aligned c l n) (hl : l <+: l') : Aligned c l' n := by
  rcases h with rfl | ⟨k, rfl, hk⟩
  · exact .inl rfl
  refine .inr ⟨k, rfl, ?_⟩
  obtain ⟨t, rfl⟩ := hl
  rw [getElem?_append_left (lt_length_of_getElem? hk)]
  exact hk

def At (l : List α) (off : ℕ) (u : List α) : Prop := u <+: l.drop off

theorem At.mono (h : At l off u) (hl : l <+: l') : At l' off u :=
  List.IsPrefix.trans h (hl.drop off)

theorem at_take_drop : At l off ((l.drop off).take n) := take_prefix _ _

theorem At.take (h : At l off u) (n : ℕ) : At l off (u.take n) :=
  (List.take_prefix n u).trans h

theorem At.drop (h : At l off u) (n : ℕ) : At l (off + n) (u.drop n) := by
  have := List.IsPrefix.drop h n
  rwa [drop_drop] at this

theorem At.getElem? (h : At l off u) {x : α} (hi : u[i]? = some x) : l[off + i]? = some x := by
  obtain ⟨t, ht⟩ := h
  rw [← List.getElem?_drop, ← ht, List.getElem?_append_left (List.getElem?_eq_some_iff.mp hi).1]
  exact hi

theorem At.eq_take (h : At l off u) : (l.drop off).take u.length = u :=
  (prefix_iff_eq_take.mp h).symm

theorem At.aligned_end (h : At l off u) (hu : Ends c u) : Aligned c l (off + u.length) := by
  obtain ⟨k, hk, hc⟩ := ends_iff.mp hu
  exact .inr ⟨off + k, by omega, h.getElem? hc⟩

/-! ### The finished records -/

variable [DecidableEq α] {p : ℕ × List α}

/-- The finished records of `l`, without their separators, each with the offset
it starts at when `l` itself starts at `off`. -/
def linesAt (c : α) : ℕ → List α → List (ℕ × List α)
  | _, [] => []
  | off, x :: l =>
    if x = c then (off, []) :: linesAt c (off + 1) l
    else
      match linesAt c (off + 1) l with
      | [] => []
      | (_, y) :: r => (off, x :: y) :: r

@[simp] theorem linesAt_nil : linesAt c off [] = [] := rfl

theorem linesAt_cons_self : linesAt c off (c :: l) = (off, []) :: linesAt c (off + 1) l := by
  simp [linesAt]

theorem linesAt_ne_nil (h : c ∈ l) : linesAt c off l ≠ [] := by
  induction l generalizing off with
  | nil => simp at h
  | cons x l ih => ?_
  by_cases hx : x = c
  · simp [linesAt, hx]
  have hc : c ∈ l := by
    rcases mem_cons.mp h with rfl | h
    · exact absurd rfl hx
    · exact h
  cases hl : linesAt c (off + 1) l with
  | nil => exact absurd hl (ih hc)
  | cons y r => simp [linesAt, hx, hl]

/-- **The records of two lists one after the other**, when the first ends in a
separator. -/
theorem linesAt_append (h : Ends c l) (l' : List α) :
    linesAt c off (l ++ l') = linesAt c off l ++ linesAt c (off + l.length) l' := by
  induction l generalizing off with
  | nil => exact absurd rfl h.ne_nil
  | cons x l ih => ?_
  cases l with
  | nil =>
    have hx : x = c := by simpa [Ends] using h
    subst hx
    simp [linesAt]
  | cons y l => ?_
  have hrest : Ends c (y :: l) := by simpa [Ends] using h
  have hih : linesAt c (off + 1) (y :: l ++ l') = _ := ih hrest
  have hlen : off + 1 + (y :: l).length = off + (x :: y :: l).length := by
    simp only [length_cons]
    omega
  rw [hlen] at hih
  by_cases hx : x = c
  · subst hx
    rw [cons_append, linesAt_cons_self, hih, linesAt_cons_self, cons_append]
  cases hr : linesAt c (off + 1) (y :: l) with
  | nil => exact absurd hr (linesAt_ne_nil hrest.mem)
  | cons p r => ?_
  rw [hr] at hih
  rw [cons_append, linesAt, if_neg hx, hih, linesAt, if_neg hx, hr]
  simp

theorem length_linesAt : (linesAt c off l).length = l.count c := by
  induction l generalizing off with
  | nil => rfl
  | cons x l ih => ?_
  have hih : (linesAt c (off + 1) l).length = l.count c := ih
  rw [linesAt]
  by_cases hx : x = c
  · simp [hx, hih]
  rw [if_neg hx, count_cons_of_ne hx, ← hih]
  cases linesAt c (off + 1) l <;> rfl

theorem fst_of_linesAt_cons {r : List (ℕ × List α)} (h : linesAt c off l = p :: r) : p.1 = off := by
  cases l with
  | nil => simp at h
  | cons x l => ?_
  rw [linesAt] at h
  split at h
  · rw [← (cons.inj h).1]
  split at h
  · simp at h
  · rw [← (cons.inj h).1]

theorem fst_of_mem_linesAt (hone : l.count c = 1) (h : p ∈ linesAt c off l) : p.1 = off := by
  have hlen : (linesAt c off l).length = 1 := by rw [length_linesAt, hone]
  obtain ⟨q, hq⟩ := length_eq_one_iff.mp hlen
  rw [hq, mem_singleton] at h
  rw [h]
  exact fst_of_linesAt_cons hq

theorem linesAt_range (h : p ∈ linesAt c off l) :
    off ≤ p.1 ∧ p.1 + p.2.length < off + l.length := by
  induction l generalizing off p with
  | nil => simp at h
  | cons x l ih => ?_
  rw [linesAt] at h
  split at h
  · rcases mem_cons.mp h with rfl | h
    · simp
    have := ih h
    simp only [length_cons]
    omega
  split at h
  · simp at h
  next hr =>
  have hih := fun q (hq : q ∈ linesAt c (off + 1) l) => ih hq
  rw [hr] at hih
  rcases mem_cons.mp h with rfl | h
  · have := hih _ mem_cons_self
    simp only [length_cons] at this ⊢
    omega
  have := hih p (mem_cons_of_mem _ h)
  simp only [length_cons]
  omega

theorem linesAt_sorted : (linesAt c off l).Pairwise fun p q => p.1 + p.2.length < q.1 := by
  induction l generalizing off with
  | nil => simp
  | cons x l ih => ?_
  rw [linesAt]
  split
  · refine pairwise_cons.mpr ⟨fun q hq => ?_, ih⟩
    have := (linesAt_range hq).1
    simp only [length_nil]
    omega
  split
  · exact List.Pairwise.nil
  next n y r hr =>
  have hih : (linesAt c (off + 1) l).Pairwise _ := ih
  have hmem : (n, y) ∈ linesAt c (off + 1) l := by simp [hr]
  have hn := (linesAt_range hmem).1
  rw [hr, pairwise_cons] at hih
  refine pairwise_cons.mpr ⟨fun q hq => ?_, hih.2⟩
  have := hih.1 q hq
  simp only [length_cons] at this ⊢
  omega

theorem linesAt_grow (l' : List α) : linesAt c off l <+: linesAt c off (l ++ l') := by
  induction l generalizing off with
  | nil => exact nil_prefix
  | cons x l ih => ?_
  rw [cons_append, linesAt, linesAt]
  split
  · exact prefix_cons_inj _ |>.mpr ih
  have hih : linesAt c (off + 1) l <+: linesAt c (off + 1) (l ++ l') := ih
  split
  · exact nil_prefix
  next n y r hr =>
  rw [hr] at hih
  obtain ⟨t, ht⟩ := hih
  rw [← ht]
  exact prefix_append _ _

theorem lt_of_new_line {q : ℕ × List α} (hp : p ∈ linesAt c off (l ++ l'))
    (hnew : p ∉ linesAt c off l) (hq : q ∈ linesAt c off l) : q.1 < p.1 := by
  have hsorted : (linesAt c off (l ++ l')).Pairwise _ := linesAt_sorted
  obtain ⟨t, ht⟩ : linesAt c off l <+: linesAt c off (l ++ l') := linesAt_grow l'
  rw [← ht] at hp hsorted
  have hpt : p ∈ t := (mem_append.mp hp).resolve_left hnew
  have := (pairwise_append.mp hsorted).2.2 q hq p hpt
  omega

theorem linesAt_take_drop (h : Aligned c l n) :
    linesAt c off l = linesAt c off (l.take n) ++ linesAt c (off + n) (l.drop n) := by
  have hlen : (l.take n).length = n := by
    rw [length_take, min_eq_left h.le_length]
  rcases h with rfl | ⟨k, rfl, hk⟩
  · simp
  have happ : linesAt c off (l.take (k + 1) ++ l.drop (k + 1)) = _ :=
    linesAt_append (ends_take hk) _
  rw [take_append_drop, hlen] at happ
  exact happ

theorem mem_linesAt_of_at (hstart : Aligned c l off) (hat : At l off u) (hends : Ends c u)
    (hp : p ∈ linesAt c 0 l) (hle : off ≤ p.1) (hlt : p.1 < off + u.length) :
    p ∈ linesAt c off u := by
  rw [linesAt_take_drop hstart, mem_append, Nat.zero_add] at hp
  rcases hp with hp | hp
  · have hrange := (linesAt_range hp).2
    rw [length_take] at hrange
    omega
  obtain ⟨t, ht⟩ := hat
  rw [← ht, linesAt_append hends, mem_append] at hp
  rcases hp with hp | hp
  · exact hp
  have := (linesAt_range hp).1
  omega

theorem linesAt_of_at (hstart : Aligned c l off) (hat : At l off u) (hends : Ends c u)
    (hp : p ∈ linesAt c off u) : p ∈ linesAt c 0 l := by
  rw [linesAt_take_drop hstart, mem_append, Nat.zero_add]
  refine .inr ?_
  obtain ⟨t, ht⟩ := hat
  rw [← ht, linesAt_append hends, mem_append]
  exact .inl hp

/-! ### The pieces between the separators -/

theorem splitOn_cons (x : α) :
    (x :: l).splitOn c =
      if x = c then [] :: l.splitOn c else (l.splitOn c).modifyHead (x :: ·) := by
  rw [splitOn_eq_splitOnP, splitOnP_cons_eq_if_modifyHead, ← splitOn_eq_splitOnP]
  simp

theorem mem_splitOn {piece : List α} (h : piece ∈ l.splitOn c) {x : α} (hx : x ∈ piece) :
    x ∈ l ∧ x ≠ c := by
  induction l generalizing piece with
  | nil =>
    rw [splitOn_nil, mem_singleton] at h
    rw [h] at hx
    cases hx
  | cons y l ih => ?_
  rw [splitOn_cons] at h
  split at h
  · rcases mem_cons.mp h with rfl | h
    · cases hx
    · exact ⟨mem_cons_of_mem y (ih h hx).1, (ih h hx).2⟩
  next hy =>
  cases hl : l.splitOn c with
  | nil => exact absurd hl (splitOn_ne_nil _ _)
  | cons first rest => ?_
  rw [hl] at h ih
  rcases mem_cons.mp h with rfl | h
  · rcases mem_cons.mp hx with rfl | hx
    · exact ⟨mem_cons_self, hy⟩
    have hin := ih mem_cons_self hx
    exact ⟨mem_cons_of_mem y hin.1, hin.2⟩
  · have hin := ih (mem_cons_of_mem first h) hx
    exact ⟨mem_cons_of_mem y hin.1, hin.2⟩

theorem splitOn_append (h : Ends c l) (l' : List α) :
    (l ++ l').splitOn c = (linesAt c off l).map (·.2) ++ l'.splitOn c := by
  induction l generalizing off with
  | nil => exact absurd rfl h.ne_nil
  | cons x l ih => ?_
  rw [cons_append, splitOn_eq_splitOnP, splitOnP_cons_eq_if_modifyHead, ← splitOn_eq_splitOnP]
  cases l with
  | nil =>
    have hx : x = c := by simpa [Ends] using h
    subst hx
    simp [linesAt]
  | cons y l => ?_
  have hrest : Ends c (y :: l) := by simpa [Ends] using h
  have hih : (y :: l ++ l').splitOn c =
      (linesAt c (off + 1) (y :: l)).map (·.2) ++ l'.splitOn c := ih hrest
  rw [linesAt, hih]
  by_cases hx : x = c
  · simp [hx]
  cases hr : linesAt c (off + 1) (y :: l) with
  | nil => exact absurd hr (linesAt_ne_nil hrest.mem)
  | cons p r => simp [hx]

theorem splitOn_of_ends (h : Ends c l) : l.splitOn c = (linesAt c off l).map (·.2) ++ [[]] := by
  have hsplit : (l ++ []).splitOn c = (linesAt c off l).map (·.2) ++ List.splitOn c [] :=
    splitOn_append h []
  rw [append_nil] at hsplit
  exact hsplit

end Lines
