import ArcRelay.Lib.Lines

/-!
# The hash of a subtree

`internal/skills/subhash/hash.go` hashes a record for each file of a directory: the path, the
mode and the content, with a newline behind each.  Nothing says how long a content is, so one
with newlines can pass for the records of several files.

* `walk`, `record`, `hash`: the files that are met, what is written for one, and the digest.
* `SameCuts`: two trees that write one text cut it in the same places.
* `hash_inj_iff`: then, and only then, equal hashes mean equal files.  Trees in which no line of
  a content or target is a mode are always told apart (`ModeFree`).
-/

namespace ArcRelay.Skills.Subhash

open List

inductive Leaf where
  | file (executable : Bool) (content : List Char)
  | link (target : List Char)
  deriving DecidableEq

/-- What is in a directory, in the order of the names. -/
inductive Dir where
  | empty
  | leaf (name : String) (l : Leaf) (rest : Dir)
  | sub (name : String) (d rest : Dir)

def Dir.names : Dir → List String
  | .empty => []
  | .leaf name _ rest => name :: rest.names
  | .sub name d rest => name :: (d.names ++ rest.names)

def join (relDir name : String) : String := if relDir = "" then name else relDir ++ "/" ++ name

/-- The files that are met; what is skipped depends on the name and the path. -/
def walk (skip : String → String → Bool) (relDir : String) : Dir → List (String × Leaf)
  | .empty => []
  | .leaf name l rest =>
    let relPath := join relDir name
    (if skip name relPath then [] else [(relPath, l)]) ++ walk skip relDir rest
  | .sub name d rest =>
    let relPath := join relDir name
    (if skip name relPath then [] else walk skip relPath d) ++ walk skip relDir rest

def Leaf.mode : Leaf → String
  | .file false _ => "100644"
  | .file true _ => "100755"
  | .link _ => "120000"

def Leaf.text : Leaf → List Char
  | .file _ text | .link text => text

def record (f : String × Leaf) : List Char :=
  f.1.toList ++ '\n' :: (f.2.mode.toList ++ '\n' :: (f.2.text ++ ['\n']))

/-- What is left out; `ignored` is `matchAny` on the lines of the `.gitignore`. -/
def skipped (ignored : String → Bool) (name relPath : String) : Bool :=
  name = ".git" || name = ".DS_Store" || ignored relPath

def hash (sha256 : List Char → String) (ignored : String → Bool) (d : Dir) : String :=
  sha256 ((walk (skipped ignored) "" d).flatMap record)

def files (d : Dir) : List (String × Leaf) := walk (fun _ _ => false) "" d

variable {f f' : String × Leaf} {fs fs' : List (String × Leaf)} {d : Dir}

/-- What is hashed for a tree of which nothing is left out. -/
def text (d : Dir) : List Char := (files d).flatMap record

/-- The lengths of a path and of a content or target. -/
def cut (f : String × Leaf) : ℕ × ℕ := (f.1.toList.length, f.2.text.length)

/-- If the two trees write one text, they cut it in the same places. -/
def SameCuts (d d' : Dir) : Prop := text d = text d' → (files d).map cut = (files d').map cut

def modes : List (List Char) := ["100644".toList, "100755".toList, "120000".toList]

/-- No path has a newline, and no line of a content or target is a mode. -/
def ModeFree (d : Dir) : Prop :=
  ∀ f ∈ files d, '\n' ∉ f.1.toList ∧ ∀ line ∈ f.2.text.splitOn '\n', line ∉ modes

instance (d : Dir) : Decidable (ModeFree d) := List.decidableBAll _ _

theorem Leaf.ext {l l' : Leaf} (hmode : l.mode = l'.mode) (htext : l.text = l'.text) : l = l' := by
  rcases l with ⟨_ | _, t⟩ | t <;> rcases l' with ⟨_ | _, t'⟩ | t'
  all_goals first | exact congrArg _ htext | exact absurd hmode (by simp [Leaf.mode])

theorem Leaf.mode_mem (l : Leaf) : l.mode.toList ∈ modes := by
  rcases l with ⟨_ | _, _⟩ | _ <;> simp [Leaf.mode, modes]

theorem walk_skipped (h : ∀ name ∈ d.names, name ≠ ".git" ∧ name ≠ ".DS_Store") (relDir : String) :
    walk (skipped fun _ => false) relDir d = walk (fun _ _ => false) relDir d := by
  induction d generalizing relDir with
  | empty => rfl
  | leaf name l rest ih => simp_all [walk, skipped, Dir.names]
  | sub name d rest ih ih' => simp_all [walk, skipped, Dir.names]

/-! ### Cut in the same places -/

theorem record_inj {r r' : List Char} (hcut : cut f = cut f')
    (h : record f ++ r = record f' ++ r') : f = f' ∧ r = r' := by
  obtain ⟨hpath, htext⟩ := Prod.mk.inj hcut
  have hmode : ∀ l : Leaf, l.mode.toList.length = 6 := by
    rintro (⟨_ | _, _⟩ | _) <;> simp [Leaf.mode]
  simp only [record, append_assoc, cons_append, nil_append] at h
  obtain ⟨hp, h1⟩ := append_inj h hpath
  obtain ⟨hm, h2⟩ := append_inj (cons.inj h1).2 ((hmode _).trans (hmode _).symm)
  obtain ⟨ht, h3⟩ := append_inj (cons.inj h2).2 htext
  exact ⟨Prod.ext (String.toList_inj.mp hp) (Leaf.ext (String.toList_inj.mp hm) ht),
    (cons.inj h3).2⟩

theorem records_inj (hcut : fs.map cut = fs'.map cut)
    (h : fs.flatMap record = fs'.flatMap record) : fs = fs' := by
  induction fs generalizing fs' with
  | nil => exact (map_eq_nil_iff.mp hcut.symm).symm
  | cons f fs ih => ?_
  cases fs' with
  | nil => cases hcut
  | cons f' fs' => ?_
  obtain ⟨hf, hfs⟩ := cons.inj hcut
  rw [flatMap_cons, flatMap_cons] at h
  obtain ⟨rfl, hrest⟩ := record_inj hf h
  rw [ih hfs hrest]

/-! ### Without modes among the lines -/

/-- The lines of a record. -/
def lines (f : String × Leaf) : List (List Char) :=
  f.1.toList :: f.2.mode.toList :: f.2.text.splitOn '\n'

theorem flatMap_splitOn (t : List Char) :
    (t.splitOn '\n').flatMap (· ++ ['\n']) = t ++ ['\n'] := by
  induction t with
  | nil => rfl
  | cons c t ih => ?_
  rw [Lines.splitOn_cons]
  split
  · next hc =>
    subst hc
    rw [flatMap_cons, ih]
    rfl
  · cases hsplit : t.splitOn '\n' with
    | nil =>
      rw [hsplit] at ih
      simp at ih
    | cons first rest =>
      rw [hsplit] at ih
      rw [modifyHead_cons, flatMap_cons, cons_append, cons_append, cons_append, ← ih, flatMap_cons]

theorem record_eq (f : String × Leaf) : record f = (lines f).flatMap (· ++ ['\n']) := by
  simp [record, lines, flatMap_cons, flatMap_splitOn]

theorem newline_inj {a a' b b' : List Char} (ha : '\n' ∉ a) (ha' : '\n' ∉ a')
    (h : a ++ '\n' :: b = a' ++ '\n' :: b') : a = a' ∧ b = b' := by
  rcases append_eq_append_iff.mp h with ⟨t, rfl, ht⟩ | ⟨t, rfl, ht⟩
  all_goals cases t <;> simp_all

theorem lines_inj {ls ls' : List (List Char)} (h : ∀ l ∈ ls, '\n' ∉ l) (h' : ∀ l ∈ ls', '\n' ∉ l)
    (heq : ls.flatMap (· ++ ['\n']) = ls'.flatMap (· ++ ['\n'])) : ls = ls' := by
  induction ls generalizing ls' with
  | nil => cases ls' <;> simp_all
  | cons l ls ih => ?_
  cases ls' with
  | nil => simp at heq
  | cons l' ls' => ?_
  obtain ⟨hl, hls⟩ := forall_mem_cons.mp h
  obtain ⟨hl', hls'⟩ := forall_mem_cons.mp h'
  simp only [flatMap_cons, append_assoc, singleton_append] at heq
  obtain ⟨rfl, hrest⟩ := newline_inj hl hl' heq
  rw [ih hls hls' hrest]

/-- The last mode among the lines is that of the last record. -/
theorem last_mode_inj {ls ls' cs cs' : List (List Char)} {m m' : List Char} (hm : m ∈ modes)
    (hm' : m' ∈ modes) (hcs : ∀ c ∈ cs, c ∉ modes) (hcs' : ∀ c ∈ cs', c ∉ modes)
    (h : ls ++ m :: cs = ls' ++ m' :: cs') : ls = ls' ∧ m = m' ∧ cs = cs' := by
  rcases append_eq_append_iff.mp h with ⟨t, rfl, ht⟩ | ⟨t, rfl, ht⟩
  all_goals
    cases t with
    | nil => simp_all
    | cons x t =>
      obtain ⟨rfl, rfl⟩ := cons.inj ht
      simp_all

theorem linesOf_inj (h : ∀ f ∈ fs, ∀ line ∈ f.2.text.splitOn '\n', line ∉ modes)
    (h' : ∀ f ∈ fs', ∀ line ∈ f.2.text.splitOn '\n', line ∉ modes)
    (heq : fs.flatMap lines = fs'.flatMap lines) : fs = fs' := by
  induction fs using List.reverseRecOn generalizing fs' with
  | nil =>
    cases fs' with
    | nil => rfl
    | cons f' fs' => simp [lines] at heq
  | append_singleton fs f ih => ?_
  rcases eq_nil_or_concat' fs' with rfl | ⟨fs', f', rfl⟩
  · simp [lines] at heq
  simp only [flatMap_append, flatMap_singleton, lines] at heq
  have hf := h f (mem_append_right _ mem_cons_self)
  have hf' := h' f' (mem_append_right _ mem_cons_self)
  -- from the end: the lines behind the last mode, the mode, and the path in front of it
  have hlast : (fs.flatMap lines ++ [f.1.toList]) ++ f.2.mode.toList :: f.2.text.splitOn '\n' =
      (fs'.flatMap lines ++ [f'.1.toList]) ++ f'.2.mode.toList :: f'.2.text.splitOn '\n' := by
    simpa using heq
  obtain ⟨hfront, hmode, hlines⟩ := last_mode_inj f.2.mode_mem f'.2.mode_mem hf hf' hlast
  obtain ⟨hrest, hpath⟩ := append_inj' hfront rfl
  have htext : f.2.text = f'.2.text := by
    have hjoin := congrArg (['\n'].intercalate) hlines
    rwa [intercalate_splitOn, intercalate_splitOn] at hjoin
  have hsame : f = f' := Prod.ext (String.toList_inj.mp (cons.inj hpath).1)
    (Leaf.ext (String.toList_inj.mp hmode) htext)
  rw [ih (fun g hg => h g (mem_append_left _ hg)) (fun g hg => h' g (mem_append_left _ hg)) hrest,
    hsame]

theorem ModeFree.files_eq (h : ModeFree d) {d' : Dir} (h' : ModeFree d') (heq : text d = text d') :
    files d = files d' := by
  have hlines : ∀ {d : Dir}, ModeFree d → ∀ l ∈ (files d).flatMap lines, '\n' ∉ l := by
    intro d h l hl
    obtain ⟨f, hf, hl⟩ := mem_flatMap.mp hl
    rcases mem_cons.mp hl with rfl | hl
    · exact (h f hf).1
    rcases mem_cons.mp hl with rfl | hl
    · exact (by decide : ∀ m ∈ modes, '\n' ∉ m) _ f.2.mode_mem
    · exact fun hmem => (Lines.mem_splitOn hl hmem).2 rfl
  have htext : ∀ d : Dir, text d = ((files d).flatMap lines).flatMap (· ++ ['\n']) := by
    intro d
    rw [text, flatMap_assoc]
    exact congrArg (fun r => (files d).flatMap r) (funext record_eq)
  rw [htext, htext] at heq
  exact linesOf_inj (fun f hf => (h f hf).2) (fun f hf => (h' f hf).2)
    (lines_inj (hlines h) (hlines h') heq)

/-- **The hash determines the files** if and only if two trees that write one text cut it in the
same places; and they do if no path has a newline and no line of a content or target is a mode. -/
theorem hash_inj_iff (sha256 : List Char → String) (hsha : Function.Injective sha256) (d d' : Dir)
    (hd : ∀ name ∈ d.names, name ≠ ".git" ∧ name ≠ ".DS_Store")
    (hd' : ∀ name ∈ d'.names, name ≠ ".git" ∧ name ≠ ".DS_Store") :
    ((hash sha256 (fun _ => false) d = hash sha256 (fun _ => false) d' → files d = files d') ↔
      SameCuts d d') ∧
    (ModeFree d → ModeFree d' → SameCuts d d') := by
  have hhash : hash sha256 (fun _ => false) d = hash sha256 (fun _ => false) d' ↔
      text d = text d' := by
    rw [hash, hash, walk_skipped hd, walk_skipped hd']
    exact hsha.eq_iff
  refine ⟨⟨fun h heq => ?_, fun h heq => ?_⟩, fun h h' heq => ?_⟩
  · rw [h (hhash.mpr heq)]
  · exact records_inj (h (hhash.mp heq)) (hhash.mp heq)
  · rw [h.files_eq h' heq]

/-- Two trees with a file of two lines each, which differ in one of them. -/
theorem hash_inj_iff_lines :
    let d (line : String) : Dir :=
      .leaf "SKILL.md" (.file false ("# demo\n" ++ line).toList) (.leaf "run" (.link ['x']) .empty)
    hash String.ofList (fun _ => false) (d "a") ≠ hash String.ofList (fun _ => false) (d "b") := by
  intro d heq
  have hsame := (hash_inj_iff String.ofList (fun _ _ => String.ofList_injective) (d "a") (d "b")
    (by decide) (by decide))
  have hfiles := hsame.1.mpr (hsame.2 (by decide) (by decide)) heq
  exact absurd hfiles (by decide)

/-- **One file passes for two.** -/
theorem hash_collides :
    let one : Dir := .leaf "a" (.file false "x\nb\n100644\ny".toList) .empty
    let two : Dir := .leaf "a" (.file false ['x']) (.leaf "b" (.file false ['y']) .empty)
    let hash := hash String.ofList fun _ => false
    hash one = hash two ∧ files one ≠ files two :=
  ⟨rfl, by simp [files, walk]⟩

end ArcRelay.Skills.Subhash
