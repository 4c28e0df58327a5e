import ArcRelay.Lib.Lines

/-!
# Paths as texts

A path is a text cut at the slashes.  Cleaning it drops empty parts and dots, and lets a double
dot take away the part before it; what is left are the names, with double dots in front of them
if the path leads out of where it starts.  Joining a path to a directory cleans the two together.
-/

namespace FilePath

open List

/-! ### Definitions -/

/-- The text cut at the slashes. -/
def parts (s : String) : List String := (s.toList.splitOn '/').map String.ofList

/-- One part more, on a stack with the last part on top.  There is nothing above the root. -/
def push (rooted : Bool) (stack : List String) (part : String) : List String :=
  if part = "" ∨ part = "." then stack
  else if part = ".." then
    match stack with
    | [] => if rooted then [] else [".."]
    | top :: rest => if top = ".." then ".." :: top :: rest else rest
  else part :: stack

def isAbs (s : String) : Bool := s.toList.head? == some '/'

/-- What `filepath.Clean` leaves of the parts. -/
def cleanParts (s : String) : List String := ((parts s).foldl (push (isAbs s)) []).reverse

def clean (s : String) : String :=
  if isAbs s then "/" ++ "/".intercalate (cleanParts s)
  else if cleanParts s = [] then "."
  else "/".intercalate (cleanParts s)

def join (dir : List String) (s : String) : List String :=
  ((parts s).foldl (push true) dir.reverse).reverse

/-- A part that cleaning does not change. -/
structure Plain (name : String) : Prop where
  slash : '/' ∉ name.toList
  ne_empty : name ≠ ""
  ne_dot : name ≠ "."
  ne_dotdot : name ≠ ".."

/-! ### Parts -/

variable {c : Char} {x s part : String} {ps stack : List String} {rooted : Bool}

theorem mem_of_mem_parts (h : part ∈ parts s) (hc : c ∈ part.toList) : c ∈ s.toList ∧ c ≠ '/' := by
  obtain ⟨l, hl, rfl⟩ := mem_map.mp h
  rw [String.toList_ofList] at hc
  exact Lines.mem_splitOn hl hc

theorem parts_intercalate (hne : ps ≠ []) (hslash : ∀ p ∈ ps, '/' ∉ p.toList) :
    parts ("/".intercalate ps) = ps := by
  have hsplit : (['/'].intercalate (ps.map String.toList)).splitOn '/' = ps.map String.toList := by
    refine splitOn_intercalate '/' (fun l hl => ?_) (by simpa using hne)
    obtain ⟨p, hp, rfl⟩ := mem_map.mp hl
    exact hslash p hp
  have htext : ("/".intercalate ps).toList = ['/'].intercalate (ps.map String.toList) :=
    String.toList_intercalate
  rw [parts, htext, hsplit, map_map]
  exact (map_congr_left fun p _ => String.ofList_toList).trans (map_id ps)

/-! ### The stack -/

theorem mem_push (h : x ∈ push rooted stack part) : x ∈ stack ∨ x = part := by
  unfold push at h
  split at h
  · exact .inl h
  split at h
  · next hdots =>
    split at h
    · split at h
      · cases h
      · exact .inr ((mem_singleton.mp h).trans hdots.symm)
    next top rest =>
    split at h
    · rcases mem_cons.mp h with rfl | h
      · exact .inr hdots.symm
      · exact .inl h
    · exact .inl (mem_cons_of_mem top h)
  · exact (mem_cons.mp h).symm

theorem mem_foldl_push (h : x ∈ ps.foldl (push rooted) stack) : x ∈ stack ∨ x ∈ ps := by
  induction ps generalizing stack with
  | nil => exact .inl h
  | cons p ps ih => ?_
  rcases ih h with hstack | hps
  · rcases mem_push hstack with hold | rfl
    · exact .inl hold
    · exact .inr mem_cons_self
  · exact .inr (mem_cons_of_mem p hps)

theorem ne_dot_of_mem_push (hstack : ∀ x ∈ stack, x ≠ "" ∧ x ≠ ".") :
    ∀ x ∈ push rooted stack part, x ≠ "" ∧ x ≠ "." := by
  intro x hx
  rcases mem_push hx with hold | rfl
  · exact hstack x hold
  by_cases hdot : x = "" ∨ x = "."
  · unfold push at hx
    rw [if_pos hdot] at hx
    exact hstack x hx
  · exact not_or.mp hdot

/-- A double dot is left only if there is one at the bottom. -/
def DotsLow (stack : List String) : Prop := ".." ∈ stack → stack.getLast? = some ".."

theorem dotsLow_push (h : DotsLow stack) (part : String) : DotsLow (push false stack part) := by
  unfold push
  split
  · exact h
  split
  · cases stack with
    | nil => exact fun _ => rfl
    | cons top rest => ?_
    dsimp only
    split
    · next htop =>
      intro _
      exact h (htop ▸ mem_cons_self)
    next htop =>
    -- what is taken away was no double dot, so one that is left is below it
    intro hmem
    have hlast := h (mem_cons_of_mem top hmem)
    cases rest with
    | nil => cases hmem
    | cons next rest => rwa [getLast?_cons_cons] at hlast
  · next hdots =>
    intro hmem
    rcases mem_cons.mp hmem with heq | hmem
    · exact absurd heq.symm hdots
    have hlast := h hmem
    cases stack with
    | nil => cases hmem
    | cons top rest => rwa [getLast?_cons_cons]

theorem foldl_push_plain (h : ∀ p ∈ ps, Plain p) (rooted : Bool) :
    ps.foldl (push rooted) stack = ps.reverse ++ stack := by
  induction ps generalizing stack with
  | nil => rfl
  | cons p ps ih => ?_
  have hp := h p mem_cons_self
  have hpush : push rooted stack p = p :: stack := by
    unfold push
    rw [if_neg (not_or.mpr ⟨hp.ne_empty, hp.ne_dot⟩), if_neg hp.ne_dotdot]
  rw [foldl_cons, hpush, ih fun q hq => h q (mem_cons_of_mem p hq), reverse_cons, append_assoc]
  rfl

/-! ### Clean paths -/

section

theorem mem_cleanParts (h : part ∈ cleanParts s) : part ∈ parts s ∧ part ≠ "" ∧ part ≠ "." := by
  rw [cleanParts, mem_reverse] at h
  refine ⟨(mem_foldl_push h).resolve_left not_mem_nil, ?_⟩
  have hall : ∀ x ∈ (parts s).foldl (push (isAbs s)) [], x ≠ "" ∧ x ≠ "." :=
    List.foldlRecOn (motive := fun stack => ∀ x ∈ stack, x ≠ "" ∧ x ≠ ".") _ _ nofun
      fun _ hstack _ _ => ne_dot_of_mem_push hstack
  exact hall part h

theorem head_of_dotdot_mem (habs : isAbs s = false) (h : ".." ∈ cleanParts s) :
    (cleanParts s).head? = some ".." := by
  have hlow : DotsLow ((parts s).foldl (push false) []) :=
    List.foldlRecOn (motive := DotsLow) _ _ nofun fun _ hstack part _ => dotsLow_push hstack part
  rw [cleanParts, habs] at h ⊢
  rw [head?_reverse]
  exact hlow (mem_reverse.mp h)

theorem slash_not_mem_cleanParts (h : part ∈ cleanParts s) : '/' ∉ part.toList :=
  fun hmem => (mem_of_mem_parts (mem_cleanParts h).1 hmem).2 rfl

theorem plain_of_mem_cleanParts (habs : isAbs s = false)
    (hhead : (cleanParts s).head? ≠ some "..") (h : part ∈ cleanParts s) : Plain part := by
  have hdot := (mem_cleanParts h).2
  refine ⟨slash_not_mem_cleanParts h, hdot.1, hdot.2, ?_⟩
  rintro rfl
  exact hhead (head_of_dotdot_mem habs h)

section

variable (habs : isAbs s = false) (hne : cleanParts s ≠ [])

include habs hne

theorem clean_eq : clean s = "/".intercalate (cleanParts s) := by
  rw [clean, habs, if_neg nofun, if_neg hne]

theorem parts_clean : parts (clean s) = cleanParts s := by
  rw [clean_eq habs hne]
  exact parts_intercalate hne fun _ => slash_not_mem_cleanParts

/-- **A clean path that does not lead out is joined below the directory.** -/
theorem join_clean (hhead : (cleanParts s).head? ≠ some "..") (dir : List String) :
    join dir (clean s) = dir ++ cleanParts s := by
  rw [join, parts_clean habs hne,
    foldl_push_plain (fun _ => plain_of_mem_cleanParts habs hhead) true, reverse_append,
    reverse_reverse, reverse_reverse]

end

theorem clean_of_head (habs : isAbs s = false) (hhead : (cleanParts s).head? = some "..") :
    clean s = ".." ∨ "../".toList <+: (clean s).toList := by
  obtain ⟨rest, hrest⟩ := head?_eq_some_iff.mp hhead
  rw [clean_eq habs (by rw [hrest]; exact nofun), hrest]
  cases rest with
  | nil => exact .inl rfl
  | cons next rest => ?_
  right
  rw [String.toList_intercalate, map_cons, map_cons, intercalate_cons_cons]
  exact prefix_append _ _

end

end FilePath
