import Mathlib.Data.List.Basic

/-!
# Detection of drift

`Detect` (`internal/skills/checker/detect.go`) compares the subpath of an upstream with what was
seen last, in stages: has the branch moved, has a commit on the way touched the subpath
(`git log last..new -- subpath`), is the hash of the subpath another one.

With a path, `git log` simplifies the history: it passes over a commit that has the contents of a
parent, and goes on with that parent only.  So an empty log says that this walk has come into the
history of the commit seen last, but not that it came in where the contents are those seen last.

* `Commits`, `logPath`, `detect`: the commit graph, `git log` and `Detect` with its errors.
* `Enters`: where a walk without a listed commit ends.
* `detect_sound_iff`: when a result other than drift means equal contents.
* `detect_ok_iff`: when there is a result at all.
-/

namespace ArcRelay.Skills.Drift

open List

/-- `Result` of `Detect`. -/
inductive Result where
  | noMovement
  | noPathTouch
  | revertedToSame
  | drift
  deriving DecidableEq

structure Detection where
  result : Result
  newSHA : String
  newHash : String := ""
  commitsAhead : ℕ := 0
  changedFiles : List String := []
  diffSummary : String := ""
  deriving DecidableEq

/-- The commits of all repositories by their SHAs, with what the subpath holds in each. -/
structure Commits (κ : Type) where
  parents : String → List String
  age : String → ℕ
  older : ∀ c, ∀ p ∈ parents c, age p < age c
  contents : String → κ
  /-- What a subpath holds that is not there. -/
  absent : κ

/-- What a check works with beside the commits: the objects of the clone, whether there is a
subpath, what `MkdirTemp` answers, `subhash.Hash` and the output of `git diff`. -/
structure Clone (κ : Type) where
  objects : List String
  subpath : Bool
  mkdtemp : Option String := none
  hash : κ → Except String String
  diffNames : String → String → List String := fun _ _ => []
  diffStat : String → String → String := fun _ _ => ""

namespace Commits

variable {κ : Type} (r : Commits κ)

/-- The commits that can be reached in fewer steps. -/
def ancestors : ℕ → String → List String
  | 0, _ => []
  | n + 1, c => c :: (r.parents c).flatMap (ancestors n)

/-- What is left out of a log; without a commit nothing is. -/
def history (last : String) : List String :=
  if last = "" then [] else r.ancestors (r.age last + 1) last

variable [DecidableEq κ]

/-- The parent that is followed alone, with a subpath: it has the same contents. -/
def sameParent (subpath : Bool) (c : String) : Option String :=
  (r.parents c).find? fun p => subpath ∧ r.contents p = r.contents c

/-- `git log`. -/
def logPath (subpath : Bool) (without : List String) : ℕ → String → List String
  | 0, _ => []
  | n + 1, c =>
    if c ∈ without then []
    else
      match r.sameParent subpath c with
      | some p => logPath subpath without n p
      | none =>
        if subpath ∧ r.parents c = [] ∧ r.contents c = r.absent then []
        else c :: (r.parents c).flatMap (logPath subpath without n)

/-- `Detect` from the resolved commit on.  Of git it is assumed that `log` fails if the commit seen
last is no object of the clone, and that the checkout and the diffs succeed otherwise. -/
def detect (clone : Clone κ) (lastSeenSHA lastSeenHash new : String) : Except String Detection :=
  if lastSeenSHA ≠ "" ∧ new = lastSeenSHA then .ok { result := .noMovement, newSHA := new }
  else if lastSeenSHA ≠ "" ∧ lastSeenSHA ∉ clone.objects then
    .error ("Detect: log " ++ lastSeenSHA ++ ".." ++ new)
  else
    let commits := r.logPath clone.subpath (r.history lastSeenSHA) (r.age new + 1) new
    if commits = [] then .ok { result := .noPathTouch, newSHA := new }
    else
      match clone.mkdtemp, clone.hash (r.contents new) with
      | some err, _ => .error ("Detect: mkdtemp: " ++ err)
      | none, .error err => .error ("Detect: subhash: " ++ err)
      | none, .ok newHash =>
        if lastSeenHash ≠ "" ∧ newHash = lastSeenHash then
          .ok { result := .revertedToSame, newSHA := new, newHash }
        else
          .ok { result := .drift
                newSHA := new
                newHash
                commitsAhead := commits.dedup.length
                changedFiles := clone.diffNames lastSeenSHA new
                diffSummary := clone.diffStat lastSeenSHA new }

/-! ### The walk -/

/-- The walk passes from one commit to another, always to a parent with the same contents and
outside of what is left out. -/
inductive Passes (subpath : Bool) (without : List String) : String → String → Prop
  | refl (c : String) : Passes subpath without c c
  | step {c p d : String} (hout : c ∉ without) (hsame : r.sameParent subpath c = some p)
      (hrest : Passes subpath without p d) : Passes subpath without c d

/-- The walk from `new` ends at `c` with nothing listed: `c` is in the history of the commit seen
last, or a root that does not have the subpath. -/
def Enters (subpath : Bool) (lastSeenSHA new c : String) : Prop :=
  r.Passes subpath (r.history lastSeenSHA) new c ∧ (c ∈ r.history lastSeenSHA ∨
    (subpath = true ∧ r.parents c = [] ∧ r.contents c = r.absent))

variable {r} {subpath : Bool} {without : List String} {c d new last : String} {n : ℕ}

theorem sameParent_eq_some {p : String} (h : r.sameParent subpath c = some p) :
    r.age p < r.age c ∧ r.contents p = r.contents c :=
  ⟨r.older c p (mem_of_find?_eq_some h), (of_decide_eq_true (find?_eq_some_iff_append.mp h).1).2⟩

theorem Passes.contents_eq (h : r.Passes subpath without c d) : r.contents d = r.contents c := by
  induction h with
  | refl c => rfl
  | step hout hsame hrest ih => exact ih.trans (sameParent_eq_some hsame).2

/-- The log is empty exactly if the walk ends with nothing listed.  There are as many steps as the
walk can take, since parents are older. -/
theorem logPath_eq_nil (hn : r.age c < n) :
    r.logPath subpath without n c = [] ↔ ∃ d, r.Passes subpath without c d ∧
      (d ∈ without ∨ (subpath = true ∧ r.parents d = [] ∧ r.contents d = r.absent)) := by
  induction n generalizing c with
  | zero => omega
  | succ n ih => ?_
  rw [logPath]
  by_cases hout : c ∈ without
  · rw [if_pos hout]
    exact iff_of_true rfl ⟨c, .refl c, .inl hout⟩
  rw [if_neg hout]
  cases hsame : r.sameParent subpath c with
  | some p =>
    dsimp only
    rw [ih (by have := (sameParent_eq_some hsame).1; omega)]
    constructor
    · rintro ⟨d, hd, hend⟩
      exact ⟨d, .step hout hsame hd, hend⟩
    · rintro ⟨d, hd, hend⟩
      cases hd with
      | refl => ?_
      | step _ hsame' hrest =>
        obtain rfl := Option.some.inj (hsame.symm.trans hsame')
        exact ⟨d, hrest, hend⟩
      -- a root has no parent to go on with
      obtain ⟨-, hroot, -⟩ := hend.resolve_left hout
      rw [sameParent, hroot] at hsame
      cases hsame
  | none =>
    dsimp only
    constructor
    · intro h
      split at h
      · next hroot => exact ⟨c, .refl c, .inr hroot⟩
      · cases h
    · rintro ⟨d, hd, hend⟩
      cases hd with
      | refl => exact if_pos (hend.resolve_left hout)
      | step _ hsame' _ => cases hsame.symm.trans hsame'

theorem logPath_eq_nil_iff :
    r.logPath subpath (r.history last) (r.age new + 1) new = [] ↔
      ∃ c, r.Enters subpath last new c :=
  logPath_eq_nil (Nat.lt_succ_self _)

end Commits

variable {κ : Type} [DecidableEq κ]

/-- **Without drift nothing has changed** if and only if the walk from the new commit does not come
into the history of the commit seen last, or to a root without the subpath, with contents other
than those seen last. -/
theorem detect_sound_iff (r : Commits κ) (clone : Clone κ)
    (hhash : ∀ a b h, clone.hash a = .ok h → clone.hash b = .ok h → a = b)
    (last lastSeenHash new : String) (hlast : last ∈ clone.objects)
    (hseen : clone.hash (r.contents last) = .ok lastSeenHash) :
    (∀ det, r.detect clone last lastSeenHash new = .ok det → det.result ≠ .drift →
      r.contents new = r.contents last) ↔
    ∀ c, r.Enters clone.subpath last new c → r.contents c = r.contents last := by
  have hknown : ¬ (last ≠ "" ∧ last ∉ clone.objects) := fun h => h.2 hlast
  constructor
  · intro h c hc
    rw [hc.1.contents_eq]
    by_cases hmoved : new = last
    · rw [hmoved]
    have hnil := Commits.logPath_eq_nil_iff.mpr ⟨c, hc⟩
    refine h { result := .noPathTouch, newSHA := new } ?_ (by simp)
    simp only [Commits.detect, hmoved, and_false, if_false, if_neg hknown, hnil, if_true]
  · intro h det hdet hresult
    unfold Commits.detect at hdet
    split at hdet
    · next heq => rw [heq.2]
    dsimp only at hdet
    split at hdet
    · next hnil =>
      obtain ⟨c, hc⟩ := Commits.logPath_eq_nil_iff.mp hnil
      rw [← hc.1.contents_eq, h c hc]
    split at hdet
    · cases hdet
    · cases hdet
    next newHash _ hnew =>
    split at hdet
    · next hsame => exact hhash _ _ lastSeenHash (hsame.2 ▸ hnew) hseen
    · cases hdet
      exact absurd rfl hresult

/-- Commit `b` changes the subpath, `c` beside it does not, and `d` merges them. -/
def merged : Commits String where
  parents sha := if sha = "d" then ["b", "c"] else if sha = "b" ∨ sha = "c" then ["a"] else []
  age sha := if sha = "d" then 2 else if sha = "b" ∨ sha = "c" then 1 else 0
  older c p hp := by
    split at hp
    · simp at hp
      rcases hp with rfl | rfl <;> simp_all
    split at hp <;> simp_all
  contents sha := if sha = "b" ∨ sha = "d" then "new" else "old"
  absent := ""

def wholeClone : Clone String where
  objects := ["a", "b", "c", "d"]
  subpath := true
  hash := .ok

theorem detect_sound_iff_merged :
    merged.detect wholeClone "b" "new" "d" = .ok { result := .noPathTouch, newSHA := "d" } ∧
      merged.contents "d" = merged.contents "b" := by
  have hdet : merged.detect wholeClone "b" "new" "d" =
      .ok { result := .noPathTouch, newSHA := "d" } := by rfl
  refine ⟨hdet, (detect_sound_iff merged wholeClone (fun a b h ha hb => ?_) "b" "new" "d"
    (by decide) rfl).mpr (fun c hc => hc.1.contents_eq) _ hdet (by decide)⟩
  exact Except.ok.inj (ha.trans hb.symm)

/-- **The branch is set back, and no change is found.** -/
theorem detect_misses_rewind :
    merged.detect wholeClone "b" "new" "a" = .ok { result := .noPathTouch, newSHA := "a" } ∧
      merged.contents "a" ≠ merged.contents "b" :=
  ⟨rfl, by decide⟩

/-- **There is a result** if and only if the commit seen last is the new one or an object of the
clone (or there is none), and, unless the walk ends with nothing listed, a temporary directory can
be made and the subpath can be hashed. -/
theorem detect_ok_iff (r : Commits κ) (clone : Clone κ) (lastSeenSHA lastSeenHash new : String) :
    (∃ det, r.detect clone lastSeenSHA lastSeenHash new = .ok det) ↔
      (lastSeenSHA ≠ "" → lastSeenSHA = new ∨ lastSeenSHA ∈ clone.objects) ∧
      (¬ (lastSeenSHA ≠ "" ∧ new = lastSeenSHA) →
        (¬ ∃ c, r.Enters clone.subpath lastSeenSHA new c) →
        clone.mkdtemp = none ∧ ∃ h, clone.hash (r.contents new) = .ok h) := by
  unfold Commits.detect
  split
  · next hmoved =>
    exact iff_of_true ⟨_, rfl⟩ ⟨fun _ => .inl hmoved.2.symm, fun hne => absurd hmoved hne⟩
  next hmoved =>
  split
  · next hunknown =>
    refine iff_of_false nofun fun h => ?_
    rcases h.1 hunknown.1 with heq | hmem
    · exact hmoved ⟨hunknown.1, heq.symm⟩
    · exact hunknown.2 hmem
  next hknown =>
  have hobjects : lastSeenSHA ≠ "" → lastSeenSHA = new ∨ lastSeenSHA ∈ clone.objects :=
    fun hne => .inr (not_not.mp fun hout => hknown ⟨hne, hout⟩)
  rw [← Commits.logPath_eq_nil_iff]
  dsimp only
  split
  · next hnil => exact iff_of_true ⟨_, rfl⟩ ⟨hobjects, fun _ hne => absurd hnil hne⟩
  next hlisted =>
  simp only [hlisted, not_false_eq_true, hmoved, true_imp_iff]
  split
  · next hmk => exact iff_of_false nofun fun h => by cases hmk.symm.trans h.2.1
  · next hfails =>
    refine iff_of_false nofun fun h => ?_
    obtain ⟨-, -, newHash, hhash⟩ := h
    cases hfails.symm.trans hhash
  next newHash hmk hhash =>
  refine iff_of_true ?_ ⟨hobjects, hmk, newHash, hhash⟩
  split <;> exact ⟨_, rfl⟩

/-- **The upstream is cloned anew without the commit seen last**, and there is no result; nor is
there one for a tree that cannot be hashed. -/
theorem detect_stuck :
    merged.detect { wholeClone with objects := ["a"] } "b" "new" "a" =
        .error "Detect: log b..a" ∧
      merged.detect { wholeClone with hash := fun _ => .error ".gitignore" } "a" "old" "b" =
        .error "Detect: subhash: .gitignore" :=
  ⟨rfl, rfl⟩

end ArcRelay.Skills.Drift
