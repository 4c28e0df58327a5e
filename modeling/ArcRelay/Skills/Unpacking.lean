import ArcRelay.Lib.FilePath
import ArcRelay.Lib.FileSystem
import ArcRelay.Skills.Api

/-!
# Unpacking an archive

The client unpacks the archive of a skill into a new directory (`extractTarGz` in
`internal/cli/sync/skills.go`).  Names that lead out of the directory are refused
(`safeRelPath`), and links are never made.

Gzip and tar are parameters: an archive has a sequence of entries, and what follows an entry does
not depend on how much of it was read.  A name is a sequence of bytes, each written as the
character of its number.

* `extractTarGz`: the entries one after the other, with the faults of the file system.
* `Below`: nothing but what is below a directory has changed.
* `unpacking_stays_below`: no archive leads out of its directory.
-/

namespace ArcRelay.Skills.Bundle

open Interleave Prog Json FileSystem FilePath Api List Option Except

/-! ### Archives -/

inductive TypeFlag where
  | dir
  | reg
  | other
  deriving DecidableEq

structure Entry where
  name : String
  typeflag : TypeFlag := .reg
  mode : ℤ := 0o644
  /-- What can be read, and the error that follows if any. -/
  content : Bytes := []
  contentErr : Option String := none

/-- The entries, and the error that ends them if it is not their end. -/
structure Stream where
  entries : List Entry
  err : Option String := none

/-- Gzip and tar. -/
abbrev Decoder := Bytes → Except String Stream

/-- The content up to a limit; an error behind it is not met. -/
def Entry.readLimited (e : Entry) (limit : ℕ) : Bytes × Option String :=
  if limit ≤ e.content.length then (e.content.take limit, none) else (e.content, e.contentErr)

/-! ### Names -/

/-- `strings.HasPrefix` and `strings.Contains`. -/
def hasPrefix (s pre : String) : Bool := pre.toList.isPrefixOf s.toList

def contains (s sub : String) : Bool := s.toList.tails.any sub.toList.isPrefixOf

/-- The path leads out of where it starts, at some point. -/
def climbs (s : String) : Bool := s = ".." || hasPrefix s "../" || contains s "/../"

/-- Backslashes are separators here. -/
def toSlash (s : String) : String :=
  String.ofList (s.toList.map fun c => if c = '\\' then '/' else c)

def safeRelPath (p : String) : Bool :=
  if p = "" ∨ p = "." then false
  else if isAbs p then false
  else if hasPrefix (toSlash p) "/" then false
  else !climbs (toSlash p)

/-! ### The client -/

/-- What one step meets outside: a fault, and how far the step gets then. -/
structure Env where
  fault : Option String := none
  done : ℕ := 0

abbrev Run := Prog FS Env

inductive ExtractError where
  | notGzip (err : String)
  | tarRead (err : String)
  | unsafePath (name : String)
  | mkdir (target : Path) (err : Errno)
  | mkdirParent (target : Path) (err : Errno)
  | openFile (target : Path) (err : Errno)
  | write (target : Path) (err : Errno)
  | close (target : Path) (err : Errno)
  deriving DecidableEq

/-- The mode of what is made; only the permissions count. -/
def mode (headerMode : ℤ) (fallback : ℕ) : ℕ :=
  if headerMode = 0 then fallback
  else if headerMode % 0o1000 = 0 then fallback
  else (headerMode % 0o1000).toNat

section

variable (fits : Path → Bool)

/-- Some directories may have been made when it fails. -/
def mkdirs (mode : ℕ) (p : Path) : Run (Except Errno Unit) :=
  act fun fs e =>
    match e.fault with
    | none => mkdirAll fits mode fs p
    | some err => ((mkdirAllUpTo fits mode p (min e.done p.length) fs).1, .error (.io err))

def openFile (mode : ℕ) (p : Path) : Run (Except Errno Path) :=
  act fun fs e =>
    match e.fault with
    | some err => (fs, .error (.io err))
    | none =>
      match create fits mode fs p with
      | .error err => (fs, .error err)
      | .ok (fs, q) => (fs, .ok q)

/-- `io.Copy`; some of the content may have been written when it fails. -/
def copy (q : Path) (content : Bytes × Option String) : Run (Except Errno Unit) :=
  act fun fs e =>
    match e.fault, content.2 with
    | some err, _ => (write fs q (content.1.take e.done), .error (.io err))
    | none, some err => (write fs q content.1, .error (.io err))
    | none, none => (write fs q content.1, .ok ())

def closeFile : Run (Except Errno Unit) :=
  act fun fs e =>
    match e.fault with
    | some err => (fs, .error (.io err))
    | none => (fs, .ok ())

def extractFile (target : Path) (e : Entry) : Run (Except ExtractError Unit) := do
  match ← mkdirs fits 0o755 target.dropLast with
  | .error err => pure (.error (.mkdirParent target err))
  | .ok () =>
    match ← openFile fits (mode e.mode 0o644) target with
    | .error err => pure (.error (.openFile target err))
    | .ok q =>
      match ← copy q (e.readLimited maxArchiveSize) with
      | .error err =>
        let _ ← closeFile
        pure (.error (.write target err))
      | .ok () =>
        match ← closeFile with
        | .error err => pure (.error (.close target err))
        | .ok () => pure (.ok ())

def extractEntry (dest : Path) (e : Entry) : Run (Except ExtractError Unit) := do
  let clean := clean (trimPrefix "./" e.name)
  if ¬ safeRelPath clean then pure (.error (.unsafePath e.name))
  else
    let target := join dest clean
    match e.typeflag with
    | .dir =>
      match ← mkdirs fits (mode e.mode 0o755) target with
      | .error err => pure (.error (.mkdir target err))
      | .ok () => pure (.ok ())
    | .reg => extractFile fits target e
    | .other => pure (.ok ())

def extractEntries (dest : Path) : List Entry → Run (Except ExtractError Unit)
  | [] => pure (.ok ())
  | e :: rest => do
    match ← extractEntry fits dest e with
    | .error err => pure (.error err)
    | .ok () => extractEntries dest rest

def extractTarGz (decode : Decoder) (archive : Bytes) (dest : Path) :
    Run (Except ExtractError Unit) :=
  match decode archive with
  | .error err => pure (.error (.notGzip err))
  | .ok stream => do
    match ← extractEntries fits dest stream.entries with
    | .error err => pure (.error err)
    | .ok () =>
      match stream.err with
      | some err => pure (.error (.tarRead err))
      | none => pure (.ok ())

end

variable {s : String}

theorem hasPrefix_iff {pre : String} : hasPrefix s pre = true ↔ pre.toList <+: s.toList :=
  isPrefixOf_iff_prefix

theorem head_ne_dotdot (habs : isAbs s = false) (hdots : clean s ≠ "..")
    (hpre : ¬ "../".toList <+: (clean s).toList) :
    (cleanParts s).head? ≠ some ".." := by
  intro hhead
  rcases clean_of_head habs hhead with heq | hstart
  · exact hdots heq
  · exact hpre hstart

theorem climbs_eq_false (h : climbs s = false) : s ≠ ".." ∧ ¬ "../".toList <+: s.toList := by
  rw [climbs, Bool.or_eq_false_iff, Bool.or_eq_false_iff] at h
  refine ⟨by simpa using h.1.1, fun hpre => ?_⟩
  have htrue := hasPrefix_iff.mpr hpre
  rw [h.1.2] at htrue
  cases htrue

theorem join_of_safeRelPath (h : safeRelPath (clean s) = true) :
    ∃ r, r ≠ [] ∧ ∀ dest, join dest (clean s) = dest ++ r := by
  rw [safeRelPath] at h
  split at h
  · cases h
  next hne =>
  split at h
  · cases h
  next hrel =>
  split at h
  · cases h
  have habs : isAbs s = false := by
    by_contra htrue
    rw [Bool.not_eq_false] at htrue
    refine hrel ?_
    rw [clean, if_pos htrue]
    simp [isAbs]
  have hparts : cleanParts s ≠ [] := by
    refine fun hnil => hne (.inr ?_)
    rw [clean, habs, if_neg Bool.false_ne_true, if_pos hnil]
  obtain ⟨hdots, hpre⟩ := climbs_eq_false (by simpa using h)
  refine ⟨cleanParts s, hparts,
    join_clean habs hparts (head_ne_dotdot habs (fun heq => ?_) fun hstart => ?_)⟩
  · rw [heq] at hdots
    exact hdots (by decide)
  have htext : (toSlash (clean s)).toList =
      (clean s).toList.map fun c => if c = '\\' then '/' else c := String.toList_ofList
  -- dots and slashes stay what they are
  have hdotdot : ("../".toList.map fun c => if c = '\\' then '/' else c) = "../".toList := by
    decide
  rw [htext, ← hdotdot] at hpre
  exact hpre (hstart.map _)

/-- A new directory that can be used, with nothing in it. -/
structure Fresh (dest : Path) (fs : FS) : Prop where
  way : ∀ q, q <+: dest → ∃ m, fs.lookup q = some (.dir m) ∧ searchable m = true
  root : ∃ m, fs.lookup dest = some (.dir m) ∧ searchable m = true ∧ writable m = true
  empty : ∀ r, r ≠ [] → fs.lookup (dest ++ r) = none

/-- A new directory in a file system with nothing else. -/
def newDir : FS := [([], .dir 0o755), (["tmp"], .dir 0o700)]

theorem newDir_fresh : Fresh ["tmp"] newDir where
  way q hq := by
    rcases prefix_cons_iff.mp hq with rfl | ⟨t, rfl, ht⟩
    · exact ⟨0o755, by decide, by decide⟩
    rw [prefix_nil.mp ht]
    exact ⟨0o700, by decide, by decide⟩
  root := ⟨0o700, by decide, by decide, by decide⟩
  empty r hr := by simp [newDir, hr]

/-! ### What is below the directory -/

/-- Nothing but what is below a directory has changed, and there is no link in it. -/
structure Below (p : Path) (fs₁ fs : FS) : Prop where
  same : ∀ q, ¬ p <+: q → fs.lookup q = fs₁.lookup q
  plain : ∀ q, p <+: q → ∀ target, fs.lookup q ≠ some (.link target)

section

variable {fits : Path → Bool} {p q r : Path} {fs₁ fs fs' : FS}

theorem not_prefix_of_ne (h : q <+: r) (hne : q ≠ r) : ¬ r <+: q :=
  fun hr => hne (h.eq_of_length_le hr.length_le)

variable (hway : ∀ q, q <+: p → q ≠ p → ∃ mode, fs₁.lookup q = some (.dir mode))

include hway

theorem Below.dir_above (h : Below p fs₁ fs) (hq : q <+: p) (hne : q ≠ p) :
    ∃ mode, fs.lookup q = some (.dir mode) := by
  rw [h.same q (not_prefix_of_ne hq hne)]
  exact hway q hq hne

theorem Below.real (h : Below p fs₁ fs) (r : Path) : fs.Real (p ++ r) := by
  intro q hq target hlink
  by_cases hbelow : p <+: q
  · exact h.plain q hbelow target hlink
  have hqp : q <+: p :=
    (prefix_comparable hq (prefix_append p r)).resolve_right hbelow
  obtain ⟨mode, hdir⟩ := h.dir_above hway hqp fun heq => hbelow (heq ▸ prefix_refl p)
  rw [hdir] at hlink
  cases hlink

theorem Below.grown {mode : ℕ} (h : Below p fs₁ fs) (hq : q <+: p ++ r) (hg : Grown mode q fs fs') :
    Below p fs₁ fs' := by
  refine ⟨fun x hx => ?_, fun x hx target hlink => ?_⟩
  · rw [← h.same x hx]
    refine hg.kept x fun y hy hyx => ?_
    -- what is on the way to both is above `p`
    have hyp : y <+: p :=
      (prefix_comparable (hy.trans hq) (prefix_append p r)).resolve_right
        fun hpy => hx (hpy.trans hyx)
    obtain ⟨m, hdir⟩ := h.dir_above hway hyp fun heq => hx (heq ▸ hyx)
    rw [hdir]
    rfl
  · rcases hg.added x _ hlink with hold | ⟨-, hdir⟩
    · exact h.plain x hx target hold
    · cases hdir

theorem mkdirs_below (mode : ℕ) (r : Path) :
    (mkdirs fits mode (p ++ r)).Preserves (Below p fs₁) := by
  refine fun fs h => keeps_act.mpr fun e => ⟨?_, trivial⟩
  cases e.fault with
  | none => exact h.grown hway (prefix_refl _) (mkdirAll_grown (h.real hway r))
  | some err =>
    exact h.grown hway (List.take_prefix _ _)
      (mkdirAllUpTo_grown (h.real hway r) (Nat.min_le_right _ _))

theorem openFile_below (mode : ℕ) (r : Path) :
    (openFile fits mode (p ++ r)).Holds (Below p fs₁) fun res =>
      ∀ q, res = .ok q → p <+: q := by
  refine fun fs h => keeps_act.mpr fun e => ?_
  cases e.fault with
  | some err => exact ⟨h, nofun⟩
  | none => ?_
  dsimp only
  split
  · exact ⟨h, nofun⟩
  next fs' q hc =>
  obtain ⟨rfl, hcreated⟩ := create_created (h.real hway r) hc
  refine ⟨⟨fun x hx => ?_, fun x hx target hlink => ?_⟩, fun q hq => ?_⟩
  · rw [hcreated.elsewhere x fun heq => hx (heq ▸ prefix_append p r), h.same x hx]
  · by_cases heq : x = p ++ r
    · subst heq
      rcases hcreated.file with hnew | ⟨old, data, -, hnew⟩
      · rw [hnew] at hlink
        cases hlink
      · rw [hnew] at hlink
        cases hlink
    · rw [hcreated.elsewhere x heq] at hlink
      exact h.plain x hx target hlink
  · rw [← ok.inj hq]
    exact prefix_append p r

omit hway

theorem copy_below (hq : p <+: q) (content : Bytes × Option String) :
    (copy q content).Preserves (Below p fs₁) := by
  intro fs h
  have hwrite : ∀ data, Below p fs₁ (write fs q data) := by
    refine fun data => ⟨fun x hx => ?_, fun x hx target hlink => ?_⟩
    · rcases lookup_write fs q data x with hsame | ⟨rfl, -⟩
      · rw [hsame, h.same x hx]
      · exact absurd hq hx
    rcases lookup_write fs q data x with hsame | ⟨-, mode, old, -, hnew⟩
    · rw [hsame] at hlink
      exact h.plain x hx target hlink
    · rw [hnew] at hlink
      cases hlink
  refine keeps_act.mpr fun e => ⟨?_, trivial⟩
  cases e.fault with
  | some err => exact hwrite _
  | none =>
    cases content.2 with
    | some _ | none => exact hwrite _

theorem closeFile_below : closeFile.Preserves (Below p fs₁) := by
  refine fun fs h => keeps_act.mpr fun e => ⟨?_, trivial⟩
  cases e.fault with
  | some _ | none => exact h

include hway

theorem extractFile_below (e : Entry) (hr : r ≠ []) :
    (extractFile fits (p ++ r) e).Preserves (Below p fs₁) := by
  rw [extractFile, dropLast_append_of_ne_nil hr]
  refine (mkdirs_below hway _ _).bindOk (fun _ => holds_any _) fun _ _ => ?_
  refine (openFile_below hway _ _).bindOk (fun _ => holds_any _) fun q hopen => ?_
  refine (copy_below (hopen q rfl) _).bindOk (fun _ => ?_) fun _ _ => ?_
  · exact closeFile_below.bind fun _ _ => holds_any _
  · exact closeFile_below.bindOk (fun _ => holds_any _) fun _ _ => holds_any _

theorem extractEntry_below (e : Entry) :
    (extractEntry fits p e).Preserves (Below p fs₁) := by
  unfold extractEntry
  dsimp only
  split
  · exact holds_any _
  next hsafe =>
  obtain ⟨r, hr, hjoin⟩ := join_of_safeRelPath (not_not.mp hsafe)
  rw [hjoin p]
  split
  · exact (mkdirs_below hway _ _).bindOk (fun _ => holds_any _) fun _ _ => holds_any _
  · exact extractFile_below hway e hr
  · exact holds_any _

theorem extractEntries_below (es : List Entry) :
    (extractEntries fits p es).Preserves (Below p fs₁) := by
  induction es with
  | nil => exact holds_any _
  | cons e es ih => exact (extractEntry_below hway e).bindOk (fun _ => holds_any _) fun _ _ => ih

/-- **An unpacking changes nothing but below its directory.** -/
theorem extractTarGz_below (decode : Decoder) (archive : Bytes) :
    (extractTarGz fits decode archive p).Preserves (Below p fs₁) := by
  unfold extractTarGz
  split
  · exact holds_any _
  next stream _ =>
  refine (extractEntries_below hway _).bindOk (fun _ => holds_any _) fun _ _ => ?_
  cases stream.err with
  | none | some _ => exact holds_any _

end

/-- **No archive leads out of its directory**: while one is unpacked into a new directory, and
whatever fails, nothing changes elsewhere and no link appears in it. -/
theorem unpacking_stays_below (fits : Path → Bool) (decode : Decoder) (archive : Bytes)
    {p : Path} {fs : FS} (hfresh : Fresh p fs) :
    (extractTarGz fits decode archive p).Keeps (Below p fs) (fun _ _ => True) fs := by
  refine extractTarGz_below (fun q hq _ => ?_) decode archive fs ⟨fun _ _ => rfl, ?_⟩
  · obtain ⟨mode, hdir, -⟩ := hfresh.way q hq
    exact ⟨mode, hdir⟩
  · rintro _ ⟨r, rfl⟩ target hlink
    by_cases hr : r = []
    · obtain ⟨mode, hdir, -⟩ := hfresh.root
      rw [hr, append_nil, hdir] at hlink
      cases hlink
    · rw [hfresh.empty r hr] at hlink
      cases hlink

/-- An archive with these entries. -/
def entriesOf (es : List Entry) : Decoder := fun _ => .ok { entries := es }

/-- The second entry would lead out, and is refused. -/
theorem unpacking_stays_below_escape :
    (extractTarGz (fun _ => true) (entriesOf [{ name := "SKILL.md" }, { name := "../x" }]) []
      ["tmp"]).Keeps (Below ["tmp"] newDir) (fun _ _ => True) newDir :=
  unpacking_stays_below _ _ _ newDir_fresh

end ArcRelay.Skills.Bundle
