import ArcRelay.Skills.Api

/-!
# The cached clone of an upstream

The checker keeps a clone of each upstream (`internal/skills/checker/git.go`).  A check brings
it up to date with `git fetch`, or clones anew if there is none or the fetch has failed, and
resolves the ref of the upstream with `git rev-parse`.

Of `git` it is assumed that a clone has the branches of the upstream under
`refs/remotes/origin`, its default branch also under `refs/heads`, and `HEAD` on that branch;
that a fetch changes `refs/remotes/origin` only; and that a name stands for the first of `HEAD`
itself, `refs/NAME`, `refs/tags/NAME`, `refs/heads/NAME`, `refs/remotes/NAME` and
`refs/remotes/NAME/HEAD` that exists.

So a fetch moves nothing that `HEAD` or the name of a branch is resolved to.  What is found is
the tip at the time of the last clone, and other branches than the default one are not found.

* `ensureCache`, `resolveSHA`: the two steps of a check.
* `resolveSHA_current`, `resolveSHA_stale`: a ref that stays where it is, and one that has moved.
* `validateGitURL_transport_iff`: the transports of the URLs that are accepted.
-/

namespace ArcRelay.Skills.Git

open List

open Api (validateGitURL scheme hasDoubleColon lowerChar allowedGitProtocols)
open Memory (isUnicodeSpace)

/-! ### Repositories -/

/-- A reference, cut at the slashes. -/
abbrev RefName := List String

/-- The parts of a reference. -/
def segments (ref : String) : RefName := (ref.toList.splitOn '/').map String.ofList

/-- What `HEAD` is. -/
inductive Head where
  | branch (b : RefName)
  | detached (sha : String)
  deriving DecidableEq

/-- The upstream, as far as it is fetched. -/
structure Repository where
  branches : List (RefName × String)
  head : Head

/-- The commit a `HEAD` is at, if it has one. -/
def Head.commit (branches : List (RefName × String)) : Head → Option String
  | .branch b => branches.lookup b
  | .detached sha => some sha

/-- The tip of `HEAD` or of a branch. -/
def Repository.tip (up : Repository) (name : RefName) : Option String :=
  if name = ["HEAD"] then up.head.commit up.branches else up.branches.lookup name

/-- The cache. -/
structure Clone where
  head : Head
  heads : List (RefName × String)
  /-- The branches below `refs/remotes/origin`. -/
  remotes : List (RefName × String)
  /-- What `refs/remotes/origin/HEAD` refers to. -/
  remoteHead : Option RefName

/-- `git clone`. -/
def clone (up : Repository) : Clone where
  head := up.head
  heads :=
    match up.head with
    | .branch b => ((up.branches.lookup b).map fun sha => (b, sha)).toList
    | .detached _ => []
  remotes := up.branches
  remoteHead :=
    match up.head with
    | .branch b => some b
    | .detached _ => none

/-- `git fetch origin --prune`. -/
def Clone.fetch (c : Clone) (up : Repository) : Clone := { c with remotes := up.branches }

/-- The commit of a full reference. -/
def Clone.ref (c : Clone) : RefName → Option String
  | ["HEAD"] => c.head.commit c.heads
  | "refs" :: "heads" :: b => c.heads.lookup b
  | ["refs", "remotes", "origin", "HEAD"] => c.remoteHead.bind fun b => c.remotes.lookup b
  | "refs" :: "remotes" :: "origin" :: b => c.remotes.lookup b
  | _ => none

/-- Where `git rev-parse` looks for a name, in this order. -/
def candidates (name : RefName) : List RefName :=
  [name, "refs" :: name, "refs" :: "tags" :: name, "refs" :: "heads" :: name,
    "refs" :: "remotes" :: name, "refs" :: "remotes" :: (name ++ ["HEAD"])]

/-- `git rev-parse --verify`; a name that is no ref may still be an object. -/
def revParse (objects : RefName → Option String) (c : Clone) (name : RefName) : Option String :=
  ((candidates name).findSome? c.ref).or (objects name)

/-! ### The cache -/

/-- What is in the directory of the cache. -/
inductive Cache where
  | absent
  /-- Something that is no repository. -/
  | junk
  | repo (c : Clone)

/-- The errors a check meets. -/
structure Env where
  ctxErr : Option String := none
  fetchErr : Option String := none
  wipeErr : Option String := none
  mkdirErr : Option String := none
  cloneErr : Option String := none
  /-- What is left of the directory when it could not be removed, or when `git clone` was
  killed. -/
  leftover : Cache := .absent

/-- The upstream, the cache, and for the specification the upstream as it was when the cache was
cloned. -/
structure State where
  upstream : Repository
  cache : Cache := .absent
  cloned : Option Repository := none

/-- The cache is made anew. -/
def wipeAndClone (e : Env) (cacheDir gitURL : String) (s : State) : State × Option String :=
  match e.wipeErr with
  | some err =>
    ({ s with cache := e.leftover, cloned := none },
      some ("EnsureCache: wipe " ++ cacheDir ++ ": " ++ err))
  | none =>
    match e.mkdirErr with
    | some err =>
      ({ s with cache := .absent, cloned := none },
        some ("EnsureCache: mkdir parent of " ++ cacheDir ++ ": " ++ err))
    | none =>
      match e.cloneErr with
      | some err =>
        ({ s with cache := e.leftover, cloned := none },
          some ("EnsureCache: git clone " ++ gitURL ++ ": " ++ err))
      | none => ({ s with cache := .repo (clone s.upstream), cloned := some s.upstream }, none)

/-- `EnsureCache`. -/
def ensureCache (e : Env) (cacheDir gitURL : String) (s : State) : State × Option String :=
  if cacheDir = "" then (s, some "EnsureCache: cacheDir must not be empty")
  else if gitURL = "" then (s, some "EnsureCache: gitURL must not be empty")
  else
    match validateGitURL gitURL with
    | .error _ => (s, some "EnsureCache: unsupported git URL")
    | .ok () =>
      match e.ctxErr with
      | some err => (s, some ("EnsureCache: " ++ err))
      | none =>
        match s.cache with
        | .repo c =>
          match e.fetchErr with
          | none => ({ s with cache := .repo (c.fetch s.upstream) }, none)
          | some _ => wipeAndClone e cacheDir gitURL s
        | _ => wipeAndClone e cacheDir gitURL s

/-- `ResolveSHA`. -/
def resolveSHA (objects : RefName → Option String) (cacheDir ref : String) (cache : Cache) :
    Except String String :=
  if cacheDir = "" then .error "ResolveSHA: cacheDir must not be empty"
  else
    let ref := if ref = "" then "HEAD" else ref
    if ref.toList.head? = some '-' then
      .error ("ResolveSHA: ref " ++ ref ++ " must not start with '-'")
    else
      match cache with
      | .repo c =>
        match revParse objects c (segments ref) with
        | some sha => .ok sha
        | none => .error "git rev-parse: fatal: Needed a single revision"
      | _ => .error "git rev-parse: fatal: not a git repository"

/-! ### Runs -/

/-- What can happen next. -/
inductive Event where
  /-- The upstream is changed, in whatever way. -/
  | push (up : Repository)
  | check (e : Env)

/-- One event. -/
def apply (cacheDir gitURL : String) (s : State) : Event → State
  | .push up => { s with upstream := up }
  | .check e => (ensureCache e cacheDir gitURL s).1

/-- A sequence of events. -/
def run (cacheDir gitURL : String) (s : State) (events : List Event) : State :=
  events.foldl (apply cacheDir gitURL) s

/-- What `HEAD` and the branches are resolved to is still as it was cloned. -/
def Frozen (s : State) : Prop :=
  ∀ up, s.cloned = some up → ∃ c, s.cache = .repo c ∧ c.head = up.head ∧ c.heads = (clone up).heads

/-- The reference that is asked for, `HEAD` by default. -/
def refName (ref : String) : RefName := segments (if ref = "" then "HEAD" else ref)

/-- The ref is `HEAD` or the default branch, under a name that is not the full name of another
ref. -/
def Followed (up : Repository) (ref : String) : Prop :=
  ref = "" ∨ ref = "HEAD" ∨
    up.head = .branch (refName ref) ∧ (refName ref).head? ≠ some "refs" ∧
      (refName ref).head? ≠ some "remotes" ∧ ref.toList.head? ≠ some '-'

variable {cacheDir gitURL : String} {s : State} {e : Env}

theorem frozen_wipeAndClone : Frozen (wipeAndClone e cacheDir gitURL s).1 := by
  unfold wipeAndClone
  split
  · exact nofun
  split
  · exact nofun
  split
  · exact nofun
  intro up hup
  cases hup
  exact ⟨_, rfl, rfl, rfl⟩

/-- **A check leaves what was cloned**: a fetch changes the remote branches only. -/
theorem frozen_ensureCache (h : Frozen s) : Frozen (ensureCache e cacheDir gitURL s).1 := by
  unfold ensureCache
  split
  · exact h
  split
  · exact h
  split
  · exact h
  split
  · exact h
  split
  · next c hcache =>
    split
    · intro up hup
      obtain ⟨c', hc', hhead, hheads⟩ := h up hup
      rw [hcache] at hc'
      cases hc'
      exact ⟨_, rfl, hhead, hheads⟩
    · exact frozen_wipeAndClone
  · exact frozen_wipeAndClone

theorem frozen_run (h : Frozen s) (events : List Event) :
    Frozen (run cacheDir gitURL s events) := by
  induction events generalizing s with
  | nil => exact h
  | cons ev events ih => ?_
  refine ih ?_
  cases ev with
  | push up => exact h
  | check e => exact frozen_ensureCache h

/-! ### What is resolved -/

theorem refName_empty : refName "" = ["HEAD"] := by decide +kernel

theorem refName_head : refName "HEAD" = ["HEAD"] := by decide +kernel

variable {up : Repository} {c : Clone} {objects : RefName → Option String} {sha : String}

theorem commit_clone (hhead : c.head = up.head) (hheads : c.heads = (clone up).heads) :
    c.head.commit c.heads = up.head.commit up.branches := by
  rw [hhead, hheads, clone]
  cases up.head with
  | detached sha => rfl
  | branch b =>
    cases hb : up.branches.lookup b with
    | none | some _ => simp [Head.commit, hb]

theorem revParse_head (hhead : c.head = up.head) (hheads : c.heads = (clone up).heads)
    (htip : up.tip ["HEAD"] = some sha) : revParse objects c ["HEAD"] = some sha := by
  have hcommit : c.ref ["HEAD"] = some sha := by
    rw [Clone.ref, commit_clone hhead hheads]
    simpa [Repository.tip] using htip
  simp [revParse, candidates, hcommit]

theorem revParse_default {b : RefName} (hheads : c.heads = (clone up).heads)
    (hdefault : up.head = .branch b) (hb : b ≠ ["HEAD"]) (hrefs : b.head? ≠ some "refs")
    (hremotes : b.head? ≠ some "remotes") (htip : up.tip b = some sha) :
    revParse objects c b = some sha := by
  rw [Repository.tip, if_neg hb] at htip
  have hheads' : c.heads = [(b, sha)] := by
    rw [hheads, clone, hdefault]
    dsimp only
    rw [htip]
    rfl
  have hself : c.ref b = none := by
    unfold Clone.ref
    split
    · exact absurd rfl hb
    · exact absurd rfl hrefs
    · exact absurd rfl hrefs
    · exact absurd rfl hrefs
    · rfl
  have hunder : c.ref ("refs" :: b) = none := by
    unfold Clone.ref
    split
    · next heq => exact absurd (cons.inj heq).1 (by decide)
    · next b' heq =>
      -- this would be the full name of a longer branch than the only one
      obtain rfl : b = "heads" :: b' := (cons.inj heq).2
      have hne : b' ≠ "heads" :: b' := (cons_ne_self _ _).symm
      rw [hheads', lookup_cons, beq_eq_false_iff_ne.mpr hne]
      rfl
    · next heq =>
      rw [(cons.inj heq).2] at hremotes
      exact absurd rfl hremotes
    · next b' heq =>
      rw [(cons.inj heq).2] at hremotes
      exact absurd rfl hremotes
    · rfl
  have htag : c.ref ("refs" :: "tags" :: b) = none := rfl
  have hlocal : c.ref ("refs" :: "heads" :: b) = some sha := by
    show c.heads.lookup b = some sha
    rw [hheads']
    exact lookup_cons_self
  simp [revParse, candidates, hself, hunder, htag, hlocal]

/-- **What is resolved is the tip at the time of the last clone.** -/
theorem resolveSHA_cloned {ref : String} (h : Frozen s) (hdir : cacheDir ≠ "")
    (hcloned : s.cloned = some up) (hfollowed : Followed up ref)
    (htip : up.tip (refName ref) = some sha) :
    resolveSHA objects cacheDir ref s.cache = .ok sha := by
  obtain ⟨c, hcache, hhead, hheads⟩ := h up hcloned
  have hparse : revParse objects c (refName ref) = some sha := by
    by_cases hname : refName ref = ["HEAD"]
    · rw [hname] at htip ⊢
      exact revParse_head hhead hheads htip
    rcases hfollowed with rfl | rfl | ⟨hdefault, hrefs, hremotes, -⟩
    · exact absurd refName_empty hname
    · exact absurd refName_head hname
    · exact revParse_default hheads hdefault hname hrefs hremotes htip
  have hdash : (if ref = "" then "HEAD" else ref).toList.head? ≠ some '-' := by
    rcases hfollowed with rfl | rfl | ⟨-, -, -, hdash⟩
    · decide
    · decide
    split
    · decide
    · exact hdash
  unfold resolveSHA
  rw [if_neg hdir, hcache]
  dsimp only
  rw [if_neg hdash]
  rw [← refName, hparse]

theorem ne_empty_of_ensureCache {s' : State}
    (h : ensureCache e cacheDir gitURL s = (s', none)) : cacheDir ≠ "" := by
  rintro rfl
  cases h

/-- **A ref is followed as long as it stays where it is**: after a check that has succeeded, the
ref is resolved to the current tip if the clone has `HEAD` or its default branch under this name,
and the upstream has not moved it since it was cloned. -/
theorem resolveSHA_current (objects : RefName → Option String) (cacheDir gitURL ref sha : String)
    (up₀ : Repository) (cache : Cache) (events : List Event) (e : Env) {after : State}
    (hcheck : ensureCache e cacheDir gitURL (run cacheDir gitURL ⟨up₀, cache, none⟩ events) =
      (after, none))
    {up : Repository} (hcloned : after.cloned = some up) (hfollowed : Followed up ref)
    (hunmoved : up.tip (refName ref) = after.upstream.tip (refName ref))
    (htip : after.upstream.tip (refName ref) = some sha) :
    resolveSHA objects cacheDir ref after.cache = .ok sha := by
  have hstart : Frozen ⟨up₀, cache, none⟩ := nofun
  have hfrozen : Frozen (ensureCache e cacheDir gitURL
      (run cacheDir gitURL ⟨up₀, cache, none⟩ events)).1 :=
    frozen_ensureCache (frozen_run hstart events)
  rw [hcheck] at hfrozen
  exact resolveSHA_cloned hfrozen (ne_empty_of_ensureCache hcheck) hcloned hfollowed
    (hunmoved.trans htip)

/-! ### A push -/

/-- Two branches. -/
def monorepo (main dev : String) : Repository :=
  ⟨[(["main"], main), (["dev"], dev)], .branch ["main"]⟩

/-- The cache is filled, then the upstream changes. -/
def pushed (main dev : String) : State :=
  run "cache" "https://git.example/skills" ⟨monorepo "a1" "b1", .absent, none⟩
    [.check {}, .push (monorepo main dev)]

theorem resolveSHA_current_pushed :
    ∃ after, ensureCache {} "cache" "https://git.example/skills" (pushed "a1" "b2") =
        (after, none) ∧
      resolveSHA (fun _ => none) "cache" "main" after.cache = .ok "a1" := by
  have hcheck : ∃ after,
      ensureCache {} "cache" "https://git.example/skills" (pushed "a1" "b2") = (after, none) ∧
        after.cloned = some (monorepo "a1" "b1") ∧ after.upstream = monorepo "a1" "b2" :=
    ⟨_, rfl, rfl, rfl⟩
  obtain ⟨after, hcheck, hcloned, hupstream⟩ := hcheck
  refine ⟨after, hcheck, ?_⟩
  have hname : refName "main" = ["main"] := by decide +kernel
  refine resolveSHA_current (fun _ => none) "cache" _ "main" "a1" _ _ _ _ hcheck hcloned ?_ ?_ ?_
  · refine Or.inr (Or.inr ?_)
    decide
  · rw [hupstream, hname]
    decide
  · rw [hupstream, hname]
    decide

/-- **The clone does not follow**: the upstream has a new commit, the check succeeds, and `HEAD`
is resolved to the old commit. -/
theorem resolveSHA_stale :
    ¬ ∀ after ref sha,
      ensureCache {} "cache" "https://git.example/skills" (pushed "a2" "b1") = (after, none) →
        after.upstream.tip (refName ref) = some sha →
          resolveSHA (fun _ => none) "cache" ref after.cache = .ok sha := by
  intro h
  have hhead := h _ "HEAD" "a2" rfl (by decide +kernel)
  have hold : resolveSHA (fun _ => none) "cache" "HEAD"
      (ensureCache {} "cache" "https://git.example/skills" (pushed "a2" "b1")).1.cache =
        .ok "a1" := by decide +kernel
  have hsame := hold.symm.trans hhead
  exact absurd (Except.ok.inj hsame) (by decide)

/-! ### The transport -/

/-- The name before `::`, if letters and digits only stand before it. -/
def helper (url : List Char) : Option (List Char) :=
  match url.dropWhile Char.isAlphanum with
  | ':' :: ':' :: _ => some (url.takeWhile Char.isAlphanum)
  | _ => none

/-- The transport that `git` uses for a URL: a helper, the scheme, `ssh` for `host:path`, or
`file` for a local path. -/
def transport (url : List Char) : String :=
  match helper url, scheme url with
  | some l, _ | none, some l => String.ofList l
  | none, none => if ':' ∈ url.takeWhile (· ≠ '/') then "ssh" else "file"

variable {url l : List Char}

theorem scheme_eq_some (h : scheme url = some l) : ∃ rest, url = l ++ "://".toList ++ rest := by
  fun_induction scheme url generalizing l with
  | case1 rest =>
    cases h
    exact ⟨rest, rfl⟩
  | case2 c url _ ih =>
    obtain ⟨l', hl', rfl⟩ := Option.map_eq_some_iff.mp h
    obtain ⟨rest, rfl⟩ := ih hl'
    exact ⟨rest, rfl⟩
  | case3 => cases h

theorem scheme_append (h : scheme url = some l) (rest : List Char) :
    scheme (url ++ rest) = some l := by
  fun_induction scheme url generalizing l with
  | case1 => exact h
  | case2 c url hne ih =>
    obtain ⟨l', hl', rfl⟩ := Option.map_eq_some_iff.mp h
    have hcons : scheme (c :: (url ++ rest)) = (scheme (url ++ rest)).map (c :: ·) := by
      rw [scheme]
      intro tail hc htail
      match url, scheme_eq_some hl' with
      | [], ⟨_, h⟩ | [_], ⟨_, h⟩ =>
        have := congrArg length h
        simp only [length_nil, length_singleton, length_append, String.length_toList] at this
        have hthree : "://".length = 3 := rfl
        omega
      | a :: b :: url, _ =>
        simp only [cons_append, cons.injEq] at htail
        exact hne url hc (by rw [htail.1, htail.2.1])
    rw [cons_append, hcons, ih hl']
    rfl
  | case3 => cases h

theorem isSome_scheme : (scheme url).isSome ↔ [':', '/', '/'] <:+: url := by
  fun_induction scheme url with
  | case1 rest => exact iff_of_true rfl ⟨[], rest, rfl⟩
  | case2 c url hne ih =>
    rw [Option.isSome_map, ih, infix_cons_iff, or_iff_right]
    rintro ⟨rest, hrest⟩
    obtain ⟨rfl, rfl⟩ := cons.inj hrest
    exact hne rest rfl rfl
  | case3 => simp

theorem hasDoubleColon_iff : hasDoubleColon url = true ↔ [':', ':'] <:+: url := by
  fun_induction hasDoubleColon url with
  | case1 rest => exact iff_of_true rfl ⟨[], rest, rfl⟩
  | case2 c url hne ih =>
    rw [ih, infix_cons_iff, or_iff_right]
    rintro ⟨rest, hrest⟩
    obtain ⟨rfl, rfl⟩ := cons.inj hrest
    exact hne rest rfl rfl
  | case3 => simp

/-- A word without blanks is not touched by `strings.TrimSpace`. -/
theorem infix_trimSpace {w : List Char} (hw : w ≠ []) (hblank : ∀ c ∈ w, ¬ isUnicodeSpace c)
    {raw : String} (h : w <:+: raw.toList) : w <:+: (trimSpace raw).toList := by
  have hdrop : ∀ {w l : List Char}, w ≠ [] → (∀ c ∈ w, ¬ isUnicodeSpace c) → w <:+: l →
      w <:+: l.dropWhile isUnicodeSpace := by
    intro w l hw hblank h
    induction l with
    | nil => exact h
    | cons c l ih => ?_
    rw [dropWhile_cons]
    split
    · next hc =>
      refine ih ((infix_cons_iff.mp h).resolve_left fun hpre => ?_)
      cases w with
      | nil => exact hw rfl
      | cons d w =>
        obtain ⟨rfl, -⟩ := cons_prefix_cons.mp hpre
        exact hblank d mem_cons_self hc
    · exact h
  have hback := hdrop (reverse_ne_nil_iff.mpr hw) (by simpa using hblank)
    (List.reverse_infix.mpr (hdrop hw hblank h))
  rw [trimSpace, String.toList_ofList]
  simpa using reverse_infix.mpr hback

theorem helper_eq_some (h : helper url = some l) :
    (∀ c ∈ l, c.isAlphanum = true) ∧ ∃ rest, url = l ++ ':' :: ':' :: rest := by
  unfold helper at h
  split at h
  · next rest heq =>
    cases h
    exact ⟨fun c hc => all_eq_true.mp (all_takeWhile ..) c hc, rest,
      by rw [← heq, takeWhile_append_dropWhile]⟩
  · cases h

theorem trimSpace_infix (raw : String) : (trimSpace raw).toList <:+: raw.toList := by
  rw [trimSpace, String.toList_ofList]
  have hfront := (dropWhile_suffix isUnicodeSpace (l := raw.toList)).isInfix
  refine IsInfix.trans ?_ hfront
  simpa using reverse_infix.mpr (dropWhile_suffix isUnicodeSpace
    (l := (raw.toList.dropWhile isUnicodeSpace).reverse)).isInfix

theorem trimSpace_prefix {raw : String} (h : ∀ c ∈ raw.toList.head?, isUnicodeSpace c = false) :
    (trimSpace raw).toList <+: raw.toList := by
  have hfront : raw.toList.dropWhile isUnicodeSpace = raw.toList := by
    cases hraw : raw.toList with
    | nil => rfl
    | cons c l => exact dropWhile_cons_of_neg (by simp [h c (by simp [hraw])])
  rw [trimSpace, String.toList_ofList, hfront]
  simpa using reverse_prefix.mpr (dropWhile_suffix isUnicodeSpace (l := raw.toList.reverse))

theorem isUnicodeSpace_of_isAlphanum {c : Char} (h : c.isAlphanum = true) :
    isUnicodeSpace c = false := by
  have hcases : (decide (65 ≤ c.val ∧ c.val ≤ 90) ||
      (decide (97 ≤ c.val) && decide (c.val ≤ 122)) ||
      (decide (48 ≤ c.val) && decide (c.val ≤ 57))) = true := h
  have hrange : 48 ≤ c.toNat ∧ c.toNat ≤ 122 := by
    simp only [Bool.or_eq_true, Bool.and_eq_true, decide_eq_true_eq,
      UInt32.le_iff_toNat_le] at hcases
    have hval : c.toNat = c.val.toNat := rfl
    simp only [UInt32.reduceToNat] at hcases
    omega
  simp [isUnicodeSpace]
  omega

/-- `git` reads no helper from a URL whose scheme is accepted. -/
theorem helper_eq_none {raw : String} {l' : List Char}
    (hs : scheme (trimSpace raw).toList = some l')
    (hl' : String.ofList (l'.map lowerChar) ∈ allowedGitProtocols) : helper raw.toList = none := by
  by_contra hne
  obtain ⟨p, hp⟩ := Option.ne_none_iff_exists'.mp hne
  obtain ⟨halnum, rest, hraw⟩ := helper_eq_some hp
  have hhead : ∀ c ∈ raw.toList.head?, isUnicodeSpace c = false := by
    intro c hc
    rw [hraw] at hc
    cases p with
    | nil =>
      cases hc
      rfl
    | cons d p =>
      obtain rfl : d = c := by simpa using hc
      exact isUnicodeSpace_of_isAlphanum (halnum d mem_cons_self)
  obtain ⟨trail, htrail⟩ := trimSpace_prefix hhead
  obtain ⟨rest', hcore⟩ := scheme_eq_some hs
  -- both stand before the first colon
  have hcolon : ∀ c ∈ l', c ≠ ':' := by
    rintro c hc rfl
    have hmem : ':' ∈ (String.ofList (l'.map lowerChar)).toList := by
      rw [String.toList_ofList]
      exact mem_map.mpr ⟨':', hc, by decide⟩
    exact absurd hmem ((by decide : ∀ w ∈ allowedGitProtocols, ':' ∉ w.toList) _ hl')
  have hcolon' : ∀ c ∈ p, c ≠ ':' := by
    rintro c hc rfl
    exact absurd (halnum ':' hc) (by decide)
  have hsame : l' ++ ':' :: '/' :: '/' :: (rest' ++ trail) = p ++ ':' :: ':' :: rest := by
    rw [← hraw, ← htrail, hcore]
    simp
  have hfirst := congrArg (takeWhile (· ≠ ':')) hsame
  rw [takeWhile_append_of_pos (by simpa using hcolon),
    takeWhile_append_of_pos (by simpa using hcolon')] at hfirst
  obtain rfl : l' = p := by simpa using hfirst
  simp at hsame

theorem isSome_scheme_trimSpace {raw : String} :
    (scheme (trimSpace raw).toList).isSome ↔ (scheme raw.toList).isSome := by
  have htrim := trimSpace_infix raw
  rw [isSome_scheme, isSome_scheme]
  exact ⟨fun h => h.trans htrim,
    fun h => infix_trimSpace (by simp) (by simp [isUnicodeSpace]) h⟩

theorem helper_eq_none_of_colons {raw : String}
    (h : hasDoubleColon (trimSpace raw).toList = false) : helper raw.toList = none := by
  by_contra hne
  obtain ⟨p, hp⟩ := Option.ne_none_iff_exists'.mp hne
  obtain ⟨-, rest, hraw⟩ := helper_eq_some hp
  have hcolons : [':', ':'] <:+: raw.toList := ⟨p, rest, by simp [hraw]⟩
  have hkept := infix_trimSpace (by simp) (by simp [isUnicodeSpace]) hcolons
  rw [hasDoubleColon_iff.mpr hkept] at h
  cases h

/-- **A URL that is accepted has an allowed transport** if and only if it has no scheme, or one in
lower case with no blank in front; what is left without blanks never begins with a dash. -/
theorem validateGitURL_transport_iff (raw : String) (h : validateGitURL raw = .ok ()) :
    (trimSpace raw).toList.head? ≠ some '-' ∧
      (transport raw.toList ∈ allowedGitProtocols ↔ ∀ l, scheme raw.toList = some l →
        l.map lowerChar = l ∧ ∀ c ∈ raw.toList.head?, isUnicodeSpace c = false) := by
  rw [validateGitURL] at h
  split at h
  · cases h
  split at h
  · cases h
  next hdash =>
  refine ⟨hdash, ?_⟩
  cases hs : scheme raw.toList with
  | none =>
    -- neither a scheme nor a helper
    have hcore : scheme (trimSpace raw).toList = none := by
      rw [← Option.not_isSome_iff_eq_none, isSome_scheme_trimSpace, hs]
      simp
    simp only [hcore, ite_eq_right_iff, reduceCtorEq, imp_false, Bool.not_eq_true] at h
    refine iff_of_true ?_ nofun
    rw [transport, helper_eq_none_of_colons h, hs]
    dsimp only
    split <;> decide
  | some l => ?_
  have hcore : (scheme (trimSpace raw).toList).isSome := by
    rw [isSome_scheme_trimSpace, hs]
    rfl
  obtain ⟨l', hl'⟩ := Option.isSome_iff_exists.mp hcore
  simp only [hl', ite_eq_left_iff, reduceCtorEq, imp_false, not_not] at h
  rw [transport, helper_eq_none hl' h, hs]
  obtain ⟨rest, hraw⟩ := scheme_eq_some hs
  constructor
  · rintro hl _ ⟨⟩
    simp only [allowedGitProtocols, mem_cons, not_mem_nil, or_false] at hl
    rw [hraw]
    rcases hl with hl | hl | hl | hl | hl
    all_goals
      rw [← String.toList_ofList (l := l), hl]
      exact ⟨by decide, by rintro c ⟨⟩; decide⟩
  · intro hcond
    obtain ⟨hlower, hhead⟩ := hcond l rfl
    obtain ⟨trail, htrail⟩ := trimSpace_prefix hhead
    have hsame := scheme_append hl' trail
    rw [htrail, hs] at hsame
    rwa [← Option.some.inj hsame, hlower] at h

theorem validateGitURL_transport_iff_https :
    transport "https://git.example/x::y ".toList ∈ allowedGitProtocols :=
  (validateGitURL_transport_iff "https://git.example/x::y " (by decide +kernel)).2.mpr
    fun l hl => by
      obtain rfl : "https".toList = l := by simpa [scheme] using hl
      exact ⟨by decide +kernel, by rintro c ⟨⟩; decide⟩

/-- Upper case is accepted, but `git` has no transport of that name. -/
theorem validateGitURL_upper_case :
    validateGitURL "HTTP://git.example/x" = .ok () ∧
      transport "HTTP://git.example/x".toList = "HTTP" ∧ "HTTP" ∉ allowedGitProtocols := by
  decide +kernel

end ArcRelay.Skills.Git
