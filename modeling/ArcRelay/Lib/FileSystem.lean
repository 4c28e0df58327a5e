import ArcRelay.Lib.Table
import Mathlib.Data.List.Infix

/-!
# A file system

A file system is a tree of directories, files and symbolic links, as a table from paths to what
lies there.  A path is looked up name by name: what is on the way has to be a directory that may
be searched, and a link on the way leads to another path.  Making a directory does not follow a
link at the end of the path; opening a file does.

Modes are those of the owner, who is the one that works here.

* `mkdirAll`, `create`, `write`: the operations.
* `Real`: there is no link on the way.
* `Grown`, `Created`, `mkdirAll_grown`, `create_created`: what they change then.
-/

namespace FileSystem

open List Option Nat Except

abbrev Path := List String

inductive Node where
  | dir (mode : ℕ)
  | file (mode : ℕ) (data : List UInt8)
  | link (target : Path)
  deriving DecidableEq

inductive Errno where
  | noEntry
  | notDirectory
  | isDirectory
  | exist
  | accessDenied
  | nameTooLong
  | tooManyLinks
  | invalid
  | io (err : String)
  deriving DecidableEq

abbrev FS := List (Path × Node)

/-! ### The table -/

namespace FS

def put (fs : FS) (p : Path) (node : Node) : FS := (p, node) :: fs.filter fun f => f.1 ≠ p

/-- Takes away what lies at a path or below it, but for what is kept. -/
def cut (fs : FS) (p : Path) (keep : Path → Bool) : FS :=
  fs.filter fun f => ¬ p <+: f.1 ∨ keep f.1

end FS

section

variable {fs : FS} {p q : Path}

theorem lookup_put (fs : FS) (p : Path) (node : Node) (q : Path) :
    (fs.put p node).lookup q = if q = p then some node else fs.lookup q := by
  rw [FS.put, Table.lookup_cons]
  by_cases hq : q = p
  · rw [if_pos hq, if_pos hq]
  · rw [if_neg hq, if_neg hq, Table.lookup_filter fs (fun r => r ≠ p), if_pos (by simpa using hq)]

theorem lookup_cut (fs : FS) (p : Path) (keep : Path → Bool) (q : Path) :
    (fs.cut p keep).lookup q = if ¬ p <+: q ∨ keep q then fs.lookup q else none := by
  rw [FS.cut, Table.lookup_filter fs fun r => ¬ p <+: r ∨ keep r]
  simp only [decide_eq_true_eq]

end

/-! ### Looking up a path -/

def writable (mode : ℕ) : Bool := mode.testBit 7

def searchable (mode : ℕ) : Bool := mode.testBit 6

/-- Goes on from a directory; `expand` is where a link leads. -/
def walk (expand : Path → Except Errno Path) (fs : FS) : Path → Path → Except Errno Path
  | cur, [] => .ok cur
  | cur, name :: rest =>
    match fs.lookup cur with
    | some (.dir mode) =>
      if ¬ searchable mode then .error .accessDenied
      else
        match fs.lookup (cur ++ [name]) with
        | some (.link target) => expand (target ++ rest)
        | _ => walk expand fs (cur ++ [name]) rest
    | some _ => .error .notDirectory
    | none => .error .noEntry

def follow (fs : FS) : ℕ → Path → Except Errno Path
  | 0, p => walk (fun _ => .error .tooManyLinks) fs [] p
  | n + 1, p => walk (follow fs n) fs [] p

def maxLinks : ℕ := 40

section

-- the paths that are not too long
variable (fits : Path → Bool)

def resolve (fs : FS) (p : Path) : Except Errno Path :=
  if fits p then follow fs maxLinks p else .error .nameTooLong

def entry (fs : FS) (p : Path) : Except Errno Path :=
  match p.getLast? with
  | none => .ok []
  | some name =>
    if ¬ fits p then .error .nameTooLong
    else
      match follow fs maxLinks p.dropLast with
      | .error err => .error err
      | .ok dir =>
        match fs.lookup dir with
        | some (.dir mode) => if searchable mode then .ok (dir ++ [name]) else .error .accessDenied
        | some _ => .error .notDirectory
        | none => .error .noEntry

def stat (fs : FS) (p : Path) : Except Errno Node :=
  match resolve fits fs p with
  | .error err => .error err
  | .ok q =>
    match fs.lookup q with
    | none => .error .noEntry
    | some node => .ok node

def lstat (fs : FS) (p : Path) : Except Errno Node :=
  match entry fits fs p with
  | .error err => .error err
  | .ok q =>
    match fs.lookup q with
    | none => .error .noEntry
    | some node => .ok node

def mayAdd (fs : FS) (q : Path) : Bool :=
  match fs.lookup q.dropLast with
  | some (.dir mode) => writable mode
  | _ => false

/-- A new directory is empty. -/
def mkdir (mode : ℕ) (fs : FS) (p : Path) : Except Errno FS :=
  match entry fits fs p with
  | .error err => .error err
  | .ok q =>
    if (fs.lookup q).isSome then .error .exist
    else if ¬ mayAdd fs q then .error .accessDenied
    else .ok ((fs.cut q fun _ => false).put q (.dir mode))

/-- The first names of a path, and what leads to them. -/
def mkdirAllUpTo (mode : ℕ) (p : Path) : ℕ → FS → FS × Except Errno Unit
  | 0, fs => (fs, .ok ())
  | n + 1, fs =>
    match stat fits fs (p.take (n + 1)) with
    | .ok (.dir _) => (fs, .ok ())
    | .ok _ => (fs, .error .notDirectory)
    | .error _ =>
      match mkdirAllUpTo mode p n fs with
      | (fs, .error err) => (fs, .error err)
      | (fs, .ok ()) =>
        match mkdir fits mode fs (p.take (n + 1)) with
        | .ok fs => (fs, .ok ())
        | .error err =>
          match lstat fits fs (p.take (n + 1)) with
          | .ok (.dir _) => (fs, .ok ())
          | _ => (fs, .error err)

/-- `os.MkdirAll`. -/
def mkdirAll (mode : ℕ) (fs : FS) (p : Path) : FS × Except Errno Unit :=
  mkdirAllUpTo fits mode p p.length fs

/-- Opens a file for writing and empties it, or makes a new one; says where it is. -/
def create (mode : ℕ) (fs : FS) (p : Path) : Except Errno (FS × Path) :=
  match resolve fits fs p with
  | .error err => .error err
  | .ok q =>
    match fs.lookup q with
    | some (.file old _) =>
      if writable old then .ok (fs.put q (.file old []), q) else .error .accessDenied
    | some (.dir _) => .error .isDirectory
    | some (.link _) => .error .tooManyLinks
    | none => if mayAdd fs q then .ok (fs.put q (.file mode []), q) else .error .accessDenied

def write (fs : FS) (q : Path) (data : List UInt8) : FS :=
  match fs.lookup q with
  | some (.file mode _) => fs.put q (.file mode data)
  | _ => fs

end

/-! ### Paths without links -/

theorem prefix_comparable {p q r : Path} (hq : q <+: p) (hr : r <+: p) : q <+: r ∨ r <+: q :=
  prefix_or_prefix_of_prefix hq hr

namespace FS

/-- There is no link on the way to a path, nor at its end. -/
def Real (fs : FS) (p : Path) : Prop := ∀ q, q <+: p → ∀ target, fs.lookup q ≠ some (.link target)

variable {fs : FS} {p : Path}

theorem Real.shorten {q : Path} (h : fs.Real p) (hq : q <+: p) : fs.Real q :=
  fun r hr => h r (hr.trans hq)

end FS

section

variable {fits : Path → Bool} {fs fs' : FS} {p q : Path} {n mode : ℕ}

theorem walk_real {expand : Path → Except Errno Path} {cur rest : Path}
    (h : ∀ r, r <+: rest → r ≠ [] → ∀ target, fs.lookup (cur ++ r) ≠ some (.link target))
    (hw : walk expand fs cur rest = .ok q) : q = cur ++ rest := by
  induction rest generalizing cur with
  | nil =>
    rw [append_nil]
    exact (ok.inj hw).symm
  | cons name rest ih => ?_
  rw [walk] at hw
  split at hw
  · split at hw
    · cases hw
    split at hw
    · next target hlink => exact absurd hlink (h [name] ⟨rest, rfl⟩ nofun target)
    rw [ih (fun r hr hne target => ?_) hw, append_assoc]
    · rfl
    have hlonger := h (name :: r) (cons_prefix_cons.mpr ⟨rfl, hr⟩) nofun target
    rwa [append_assoc]
  · cases hw
  · cases hw

theorem follow_real (h : fs.Real p) (hf : follow fs n p = .ok q) : q = p := by
  have hreal : ∀ r, r <+: p → r ≠ [] → ∀ target, fs.lookup ([] ++ r) ≠ some (.link target) :=
    fun r hr _ target => h r hr target
  cases n with
  | zero | succ _ => exact walk_real hreal hf

theorem resolve_real (h : fs.Real p) (hr : resolve fits fs p = .ok q) : q = p := by
  rw [resolve] at hr
  split at hr
  · exact follow_real h hr
  · cases hr

theorem entry_real (h : fs.Real p.dropLast) (he : entry fits fs p = .ok q) : q = p := by
  rw [entry] at he
  split at he
  · next hlast =>
    rw [getLast?_eq_none_iff.mp hlast]
    exact (ok.inj he).symm
  next name hlast =>
  split at he
  · cases he
  split at he
  · cases he
  next dir hdir =>
  split at he
  · split at he
    · rw [follow_real h hdir, dropLast_append_getLast? name hlast] at he
      exact (ok.inj he).symm
    · cases he
  · cases he
  · cases he

/-! ### What operations leave alone -/

/-- One directory is made, and nothing else changes. -/
structure Made (mode : ℕ) (p : Path) (fs fs' : FS) : Prop where
  fresh : fs.lookup p = none
  parent : ∃ m, fs.lookup p.dropLast = some (.dir m)
  made : fs'.lookup p = some (.dir mode)
  empty : ∀ q, p <+: q → q ≠ p → fs'.lookup q = none
  elsewhere : ∀ q, ¬ p <+: q → fs'.lookup q = fs.lookup q

theorem mkdir_made (h : fs.Real p.dropLast) (hm : mkdir fits mode fs p = .ok fs') :
    Made mode p fs fs' := by
  rw [mkdir] at hm
  split at hm
  · cases hm
  next q hq =>
  obtain rfl := entry_real h hq
  split at hm
  · cases hm
  next hnone =>
  split at hm
  · cases hm
  next hadd =>
  cases hm
  have hparent : ∃ m, fs.lookup q.dropLast = some (.dir m) := by
    rw [not_not, mayAdd] at hadd
    split at hadd
    · next m hdir => exact ⟨m, hdir⟩
    · cases hadd
  refine ⟨not_isSome_iff_eq_none.mp hnone, hparent, ?_, fun r hr hne => ?_, fun r hr => ?_⟩
  · rw [lookup_put, if_pos rfl]
  · rw [lookup_put, if_neg hne, lookup_cut, if_neg (by simpa using hr)]
  have hne : r ≠ q := fun heq => hr (heq ▸ prefix_refl q)
  rw [lookup_put, if_neg hne, lookup_cut, if_pos (.inl hr)]

/-- Directories are made on the way to a path, where there was nothing. -/
structure Grown (mode : ℕ) (p : Path) (fs fs' : FS) : Prop where
  kept : ∀ q, (∀ r, r <+: p → r <+: q → (fs.lookup r).isSome) → fs'.lookup q = fs.lookup q
  added : ∀ q node, fs'.lookup q = some node → fs.lookup q = some node ∨ q <+: p ∧ node = .dir mode

theorem Grown.refl (mode : ℕ) (p : Path) (fs : FS) : Grown mode p fs fs :=
  ⟨fun _ _ => rfl, fun _ _ h => .inl h⟩

theorem Grown.mono {p' : Path} (h : Grown mode p fs fs') (hp : p <+: p') :
    Grown mode p' fs fs' where
  kept q hq := h.kept q fun r hr => hq r (hr.trans hp)
  added q node hnode := (h.added q node hnode).imp_right fun hnew => ⟨hnew.1.trans hp, hnew.2⟩

theorem Grown.real (h : Grown mode p fs fs') (hreal : fs.Real q) : fs'.Real q := by
  intro r hr target hlink
  rcases h.added r _ hlink with hold | ⟨-, hdir⟩
  · exact hreal r hr target hold
  · cases hdir

theorem Grown.made {fs1 fs2 : FS} (hq : q <+: p) (h : Grown mode p fs fs1)
    (hm : Made mode q fs1 fs2) : Grown mode p fs fs2 := by
  refine ⟨fun r hr => ?_, fun r node hnode => ?_⟩
  · have hnot : ¬ q <+: r := by
      intro hqr
      -- what is on the way to `q` is on the way to `r`, and there already
      have hsame := h.kept q fun x hx hxq => hr x hx (hxq.trans hqr)
      have hsome := hr q hq hqr
      rw [← hsame, hm.fresh] at hsome
      cases hsome
    rw [hm.elsewhere r hnot, h.kept r hr]
  · by_cases hqr : q <+: r
    · by_cases heq : r = q
      · subst heq
        exact .inr ⟨hq, (some.inj (hm.made.symm.trans hnode)).symm⟩
      · rw [hm.empty r hqr heq] at hnode
        cases hnode
    · rw [hm.elsewhere r hqr] at hnode
      exact h.added r node hnode

theorem take_succ_dropLast (h : n < p.length) : (p.take (n + 1)).dropLast = p.take n := by
  rw [dropLast_eq_take, take_take, length_take]
  congr 1
  omega

theorem mkdirAllUpTo_grown (h : fs.Real p) (hn : n ≤ p.length) :
    Grown mode (p.take n) fs (mkdirAllUpTo fits mode p n fs).1 := by
  induction n with
  | zero => exact .refl mode _ fs
  | succ n ih => ?_
  have hih := (ih (le_of_succ_le hn)).mono (take_prefix_take_left (le_succ n))
  rw [mkdirAllUpTo]
  split
  · exact .refl mode _ fs
  · exact .refl mode _ fs
  split
  · next fs1 err heq => rwa [heq] at hih
  next fs1 heq =>
  rw [heq] at hih
  split
  · next fs2 hmk =>
    refine hih.made (prefix_refl _) (mkdir_made ?_ hmk)
    rw [take_succ_dropLast hn]
    exact (hih.real h).shorten (List.take_prefix _ _)
  · split
    · exact hih
    · exact hih

theorem mkdirAll_grown (h : fs.Real p) : Grown mode p fs (mkdirAll fits mode fs p).1 := by
  have hgrown : Grown mode (p.take p.length) fs (mkdirAllUpTo fits mode p p.length fs).1 :=
    mkdirAllUpTo_grown h le_rfl
  rwa [take_length] at hgrown

/-- A file is made or emptied, and nothing else changes. -/
structure Created (mode : ℕ) (p : Path) (fs fs' : FS) : Prop where
  was : fs.lookup p = none ∨ ∃ old data, fs.lookup p = some (.file old data)
  file : fs'.lookup p = some (.file mode []) ∨
    ∃ old data, fs.lookup p = some (.file old data) ∧ fs'.lookup p = some (.file old [])
  elsewhere : ∀ q, q ≠ p → fs'.lookup q = fs.lookup q

theorem create_created (h : fs.Real p) (hc : create fits mode fs p = .ok (fs', q)) :
    q = p ∧ Created mode p fs fs' := by
  rw [create] at hc
  split at hc
  · cases hc
  next r hr =>
  obtain rfl := resolve_real h hr
  split at hc
  · next old data hfile =>
    split at hc
    · obtain ⟨rfl, rfl⟩ := Prod.mk.inj (ok.inj hc)
      refine ⟨rfl, .inr ⟨old, data, hfile⟩, .inr ⟨old, data, hfile, ?_⟩, fun x hx => ?_⟩
      · rw [lookup_put, if_pos rfl]
      · rw [lookup_put, if_neg hx]
    · cases hc
  · cases hc
  · cases hc
  · next hnone =>
    split at hc
    · obtain ⟨rfl, rfl⟩ := Prod.mk.inj (ok.inj hc)
      refine ⟨rfl, .inl hnone, .inl ?_, fun x hx => ?_⟩
      · rw [lookup_put, if_pos rfl]
      · rw [lookup_put, if_neg hx]
    · cases hc

theorem lookup_write (fs : FS) (q : Path) (data : List UInt8) (x : Path) :
    (write fs q data).lookup x = fs.lookup x ∨
      x = q ∧ ∃ mode old, fs.lookup x = some (.file mode old) ∧
        (write fs q data).lookup x = some (.file mode data) := by
  rw [write]
  split
  · next mode old hfile =>
    rw [lookup_put]
    by_cases hx : x = q
    · subst hx
      exact .inr ⟨rfl, mode, old, hfile, by rw [if_pos rfl]⟩
    · exact .inl (if_neg hx)
  · exact .inl rfl

end

end FileSystem
