import ArcRelay.Provider.Redirects

/-!
# Redirects within the relay

After a login a user is sent to the page in `next`, and after some forms back to the page in the
`Referer` header (`internal/web/handlers.go`).  `handleLogin` looks at the first two octets of the
text, `localRefererPath` parses it and builds a new one.  A browser reads a backslash as a slash and
passes over tabs, so only the second of them is safe for every text.

What `http.Redirect` and the header do to the text on its way to the browser is part of the model.

* `Leads`: a `next` that leads to another host.
* `redirects_stay_iff`, `login_redirects_away`: exactly these do, and two of them.
-/

namespace ArcRelay.Web.LocalRedirects

open Json Url List
open Provider (noAddresses)

/-! ### `http.Redirect` -/

def pushPart (stack : List Bytes) (part : Bytes) : List Bytes :=
  if part = [] ∨ part = utf8 "." then stack
  else if part = utf8 ".." then stack.tail
  else part :: stack

def cleanParts (p : Bytes) : List Bytes := ((p.splitOn 0x2f).foldl pushPart []).reverse

/-- `path.Clean` of a path that starts with a slash. -/
def clean (p : Bytes) : Bytes := 0x2f :: [0x2f].intercalate (cleanParts p)

/-- The path of a URL after `path.Clean`; a slash at its end stays. -/
def cleanPath (url : Bytes) : Bytes :=
  let path := url.takeWhile (· ≠ 0x3f)
  if path.getLast? = some 0x2f ∧ (clean path).getLast? ≠ some 0x2f then clean path ++ [0x2f]
  else clean path

/-- The URL is read as one without a scheme and a host. -/
def relative (addrs : Addresses) (url : Bytes) : Bool :=
  (parse addrs url).any fun u => u.scheme = [] ∧ u.host = []

/-- What `http.Redirect` makes of a URL that starts with a slash. -/
def cleanURL (addrs : Addresses) (url : Bytes) : Bytes :=
  if relative addrs url then cleanPath url ++ url.dropWhile (· ≠ 0x3f) else url

def hexDigit (n : UInt8) : UInt8 := if n < 10 then 0x30 + n else 0x61 + (n - 10)

def hexEscapeNonASCII (s : Bytes) : Bytes :=
  s.flatMap fun c => if 0x80 ≤ c then [0x25, hexDigit (c / 16), hexDigit (c % 16)] else [c]

def isBlank (c : UInt8) : Bool := c ∈ ([0x20, 0x09, 0x0a, 0x0d] : Bytes)

/-- A header as it is written: no newlines, and no blanks around it. -/
def headerValue (s : Bytes) : Bytes :=
  ((s.map fun c => if c = 0x0a ∨ c = 0x0d then 0x20 else c).dropWhile isBlank).rdropWhile isBlank

def location (addrs : Addresses) (url : Bytes) : Bytes :=
  headerValue (hexEscapeNonASCII (cleanURL addrs url))

/-! ### Handlers -/

/-- The test of `next`. -/
def isLocal (next : Bytes) : Bool :=
  next ≠ [] ∧ (utf8 "/").isPrefixOf next ∧ ¬ (utf8 "//").isPrefixOf next

/-- The `Location` of a login that succeeds. -/
def handleLogin (addrs : Addresses) (mustChangePassword : Bool) (next : Bytes) : Bytes :=
  location addrs <|
    if mustChangePassword then utf8 "/account/password"
    else if isLocal next then next
    else utf8 "/"

def hasASCIIControl (s : Bytes) : Bool := s.any fun c => c < 0x20 || c = 0x7f

/-- Functions of the libraries: that `strings.TrimSpace` leaves a text, and `strings.EqualFold`. -/
structure Texts where
  trimmed : Bytes → Bool
  equalFold : Bytes → Bytes → Bool

def localRefererPath (texts : Texts) (addrs : Addresses) (host ref : Bytes) : Option Bytes :=
  if ref = [] ∨ hasASCIIControl ref ∨ ¬ texts.trimmed ref then none
  else
    match parse addrs ref with
    | none => none
    | some u =>
      if u.opaquePart ≠ [] ∨ u.user.isSome then none
      else if u.scheme.map toLower ∉ [utf8 "http", utf8 "https"] then none
      else if u.host = [] ∨ ¬ texts.equalFold u.host host then none
      else
        let path := if u.path = [] then utf8 "/" else u.path
        let dest := ({ path := path, rawQuery := u.rawQuery } : URL).string
        if ¬ (utf8 "/").isPrefixOf dest ∨ (utf8 "//").isPrefixOf dest ∨ 0x5c ∈ dest then none
        else some dest

/-! ### Paths stay paths -/

variable {addrs : Addresses} {url : Bytes}

/-- A `next` that is followed and leads a browser to another host: in its cleaned path, or in the
text itself if it is not read as a path, the first octet behind the slash that is not a tab is one
more slash or a backslash. -/
def Leads (addrs : Addresses) (next : Bytes) : Prop :=
  isLocal next = true ∧
    (((if relative addrs next then cleanPath next else next).tail.find? (· ≠ 0x09)).any
      isSlash) = true

/-- The octet that decides is not changed on the way to the browser. -/
theorem find?_written (b : Bytes) :
    (((hexEscapeNonASCII b).map fun c => if c = 0x0a ∨ c = 0x0d then 0x20 else c).find?
        (· ∉ ([0x09, 0x0a, 0x0d] : Bytes))).any isSlash =
      (b.find? (· ≠ 0x09)).any isSlash := by
  induction b with
  | nil => rfl
  | cons c b ih => ?_
  rw [hexEscapeNonASCII, flatMap_cons, ← hexEscapeNonASCII, map_append, find?_append]
  by_cases htab : c = 0x09
  · subst htab
    simpa using ih
  rw [find?_cons_of_pos (by simpa using htab)]
  by_cases hhigh : 0x80 ≤ c
  · have hslash : isSlash c = false := by
      simp only [isSlash, Bool.or_eq_false_iff, decide_eq_false_iff_not]
      exact ⟨by rintro rfl; exact absurd hhigh (by decide), by
        rintro rfl; exact absurd hhigh (by decide)⟩
    rw [if_pos hhigh, Option.any_some, hslash]
    rfl
  by_cases hline : c = 0x0a ∨ c = 0x0d
  · rcases hline with rfl | rfl <;> simp [isSlash]
  · obtain ⟨hlf, hcr⟩ := not_or.mp hline
    simp [hhigh, hlf, hcr, htab]

theorem headerValue_slash (b : Bytes) : headerValue (0x2f :: b) =
    0x2f :: ((b.map fun c => if c = 0x0a ∨ c = 0x0d then 0x20 else c).rdropWhile isBlank) := by
  rw [headerValue, map_cons, if_neg (by decide), dropWhile_cons_of_neg (by decide)]
  exact rdropWhile_append (a := [0x2f]) _ (forall_mem_singleton.mpr (by decide))

theorem location_stays_iff {b : Bytes} (h : cleanURL addrs url = 0x2f :: b) :
    (∀ own, referredHost own (location addrs url) = some own) ↔
      (b.find? (· ≠ 0x09)).any isSlash = false := by
  have hblank : ∀ c, isSlash c = true → isBlank c = false := by
    intro c hc
    simp only [isSlash, Bool.or_eq_true, decide_eq_true_eq] at hc
    rcases hc with rfl | rfl <;> decide
  have hescape : hexEscapeNonASCII (0x2f :: b) = 0x2f :: hexEscapeNonASCII b := rfl
  rw [location, h, hescape, headerValue_slash, referredHost_iff, find?_rdropWhile _ hblank,
    find?_written]

theorem cleanPath_eq (url : Bytes) : ∃ b, cleanPath url = 0x2f :: b := by
  unfold cleanPath
  extract_lets path
  split <;> exact ⟨_, rfl⟩

/-- The query does not decide. -/
theorem find?_query (b : Bytes) :
    ((b ++ url.dropWhile (· ≠ 0x3f)).find? (· ≠ 0x09)).any isSlash =
      (b.find? (· ≠ 0x09)).any isSlash := by
  rw [find?_append]
  cases b.find? (· ≠ 0x09) with
  | some c => rfl
  | none => ?_
  cases hq : url.dropWhile (· ≠ 0x3f) with
  | nil => rfl
  | cons c rest =>
    have hnot := head?_dropWhile_not (· ≠ 0x3f) url
    rw [hq] at hnot
    obtain rfl : c = 0x3f := by simpa using hnot
    rfl

theorem handleLogin_stays_iff (mustChangePassword : Bool) (next : Bytes) :
    (∀ own, referredHost own (handleLogin addrs mustChangePassword next) = some own) ↔
      mustChangePassword = true ∨ ¬ Leads addrs next := by
  have hfixed : ∀ b ∈ [utf8 "account/password", []], ∀ own,
      referredHost own (location addrs (0x2f :: b)) = some own := by
    intro b hb
    have hclean : cleanURL addrs (0x2f :: b) = 0x2f :: b := by
      rw [cleanURL]
      split
      · exact (by decide +kernel : ∀ b ∈ [utf8 "account/password", []],
          cleanPath (0x2f :: b) ++ (0x2f :: b).dropWhile (· ≠ 0x3f) = 0x2f :: b) b hb
      · rfl
    exact (location_stays_iff hclean).mpr ((by decide +kernel :
      ∀ b ∈ [utf8 "account/password", []], (b.find? (· ≠ 0x09)).any isSlash = false) b hb)
  unfold handleLogin
  cases mustChangePassword with
  | true => exact iff_of_true (hfixed _ mem_cons_self) (.inl rfl)
  | false => ?_
  rw [if_neg Bool.false_ne_true, Leads]
  by_cases hlocal : isLocal next = true
  case neg =>
    rw [if_neg hlocal]
    exact iff_of_true (hfixed _ (by simp)) (.inr fun h => hlocal h.1)
  rw [if_pos hlocal]
  simp only [hlocal, true_and, Bool.false_eq_true, false_or, Bool.not_eq_true]
  cases hrelative : relative addrs next with
  | true =>
    obtain ⟨b, hb⟩ := cleanPath_eq next
    have hclean : cleanURL addrs next = 0x2f :: (b ++ next.dropWhile (· ≠ 0x3f)) := by
      rw [cleanURL, if_pos hrelative, hb, cons_append]
    rw [location_stays_iff hclean, find?_query, if_pos rfl, hb, tail_cons]
  | false =>
    obtain ⟨b, rfl⟩ : ∃ b, next = 0x2f :: b := by
      obtain ⟨-, hslash, -⟩ := of_decide_eq_true hlocal
      obtain ⟨b, hb⟩ := isPrefixOf_iff_prefix.mp hslash
      exact ⟨b, hb.symm⟩
    have hclean : cleanURL addrs (0x2f :: b) = 0x2f :: b := by
      rw [cleanURL, if_neg (by simp [hrelative])]
    rw [location_stays_iff hclean, if_neg Bool.false_ne_true, tail_cons]

theorem string_of_path (path query : Bytes) :
    ∃ w rest, ({ path := path, rawQuery := query } : URL).string = w ++ rest ∧
      (∀ c ∈ w, ¬ c ≤ 0x20) ∧ ∀ c ∈ rest.head?, c = 0x3f := by
  set u : URL := { path := path, rawQuery := query }
  refine ⟨u.writtenPath, u.suffix, by simp [u, URL.string, URL.hierarchy], ?_, ?_⟩
  · have hpath : ∀ c ∈ u.escapedPath, ¬ c ≤ 0x20 := by
      unfold URL.escapedPath escapedPart
      rw [if_neg fun h => h.1 rfl]
      split
      · next hstar =>
        rw [hstar]
        decide +kernel
      · exact visible_escape
    unfold URL.writtenPath
    extract_lets written
    rw [if_neg fun h => h.2.2 rfl]
    split
    · have hdots : ∀ c ∈ utf8 "./", ¬ c ≤ 0x20 := by decide +kernel
      intro c hc
      rcases mem_append.mp hc with hdot | hc
      · exact hdots c hdot
      · exact hpath c hc
    · exact hpath
  · have hnone : (if u.fragment ≠ [] then 0x23 :: u.escapedFragment else []) = [] :=
      if_neg fun h => h rfl
    intro c hc
    rw [URL.suffix, hnone, append_nil] at hc
    split at hc
    · cases hc
      rfl
    · cases hc

theorem localRefererPath_stays {texts : Texts} {host ref dest : Bytes}
    (h : localRefererPath texts addrs host ref = some dest) (own : Bytes) :
    referredHost own dest = some own := by
  unfold localRefererPath at h
  split at h
  · cases h
  split at h
  · cases h
  next u _ =>
  split at h
  · cases h
  split at h
  · cases h
  split at h
  · cases h
  extract_lets path dest' at h
  split at h
  · cases h
  next hgood =>
  obtain rfl := Option.some.inj h
  rw [not_or, not_or, not_not, isPrefixOf_iff_prefix, isPrefixOf_iff_prefix] at hgood
  obtain ⟨⟨b, hb⟩, htwo, hback⟩ := hgood
  rw [← hb]
  refine (referredHost_iff b).mpr ?_ own
  cases b with
  | nil => rfl
  | cons c b => ?_
  have hslash : isSlash c = false := by
    simp only [isSlash, Bool.or_eq_false_iff, decide_eq_false_iff_not]
    refine ⟨?_, ?_⟩
    · rintro rfl
      exact htwo ⟨b, hb⟩
    · rintro rfl
      exact hback (hb ▸ mem_cons_of_mem _ mem_cons_self)
  rw [find?_cons_of_pos]
  · exact hslash
  refine decide_eq_true fun hblank => ?_
  have hcontrol : ∀ c ∈ ([0x09, 0x0a, 0x0d] : Bytes), c ≤ 0x20 := by decide +kernel
  have hlow := hcontrol c hblank
  obtain ⟨w, rest, hstring, hvisible, hrest⟩ := string_of_path path u.rawQuery
  have hb : 0x2f :: c :: b = w ++ rest := hb.trans hstring
  cases w with
  | nil =>
    obtain rfl : 0x2f :: c :: b = rest := hb
    exact absurd (hrest 0x2f rfl) (by decide)
  | cons a w => ?_
  have htail : c :: b = w ++ rest := (cons.inj hb).2
  cases w with
  | nil =>
    obtain rfl : c :: b = rest := htail
    exact absurd (hrest c rfl ▸ hlow) (by decide)
  | cons d w =>
    obtain rfl : c = d := (cons.inj htail).1
    exact hvisible c (mem_cons_of_mem a mem_cons_self) hlow

/-- **Redirects stay on the relay**: after a login if and only if the password has to be changed
or `next` does not lead away, and with every `Referer`. -/
theorem redirects_stay_iff (addrs : Addresses) (mustChangePassword : Bool) (next : Bytes) :
    ((∀ own, referredHost own (handleLogin addrs mustChangePassword next) = some own) ↔
      mustChangePassword = true ∨ ¬ Leads addrs next) ∧
    ∀ texts host ref dest, localRefererPath texts addrs host ref = some dest →
      ∀ own, referredHost own dest = some own :=
  ⟨handleLogin_stays_iff mustChangePassword next, fun _ _ _ _ h => localRefererPath_stays h⟩

/-- A backslash or a tab behind the first slash leads to another host. -/
theorem login_redirects_away :
    referredHost (utf8 "relay") (handleLogin noAddresses false (utf8 "/\\evil.example/x")) =
        some (utf8 "evil.example") ∧
      referredHost (utf8 "relay") (handleLogin noAddresses false (utf8 "/\t/evil.example/x")) =
        some (utf8 "evil.example") := by
  decide +kernel

end ArcRelay.Web.LocalRedirects
