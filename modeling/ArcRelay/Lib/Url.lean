import ArcRelay.Lib.Json
import Mathlib.Data.List.Sort
import Mathlib.Data.List.DropRight

/-!
# URLs

A reader and a writer of URLs that work as Go's `net/url` does: the text is cut into its parts, the
parts are unescaped, and they are escaped again when the URL is written, each by its own rule.
Beside them stands what a browser makes of a text: it trims blanks, drops tabs and newlines, and
takes the letters before the first colon as the scheme.

Which texts are IPv6 addresses is a parameter; all that is asked of it is that an address has a
colon and does not start with a bracket.
-/

namespace Url

open Json List

/-! ### Escaping -/

inductive Mode where
  | path | host | zone | userPassword | queryComponent | fragment
  deriving DecidableEq

def isAlpha (c : UInt8) : Bool := (0x61 ≤ c && c ≤ 0x7a) || (0x41 ≤ c && c ≤ 0x5a)

def isDigit (c : UInt8) : Bool := 0x30 ≤ c && c ≤ 0x39

def shouldEscape (c : UInt8) (m : Mode) : Bool :=
  if isAlpha c || isDigit c then false
  else if (m = .host || m = .zone) && c ∈ utf8 "!$&'()*+,;=:[]<>\"" then false
  else if c ∈ utf8 "-_.~" then false
  else if c ∈ utf8 "$&+,/:;=?@" then
    match m with
    | .path => c == 0x3f
    | .userPassword => c ∈ utf8 "@/?:"
    | .fragment => false
    | _ => true
  else if m = .fragment && c ∈ utf8 "!()*" then false
  else true

def hexDigit (n : UInt8) : UInt8 := if n < 10 then 0x30 + n else 0x41 + (n - 10)

def escapeByte (m : Mode) (c : UInt8) : Bytes :=
  if shouldEscape c m then
    if c = 0x20 ∧ m = .queryComponent then [0x2b] else [0x25, hexDigit (c / 16), hexDigit (c % 16)]
  else [c]

def escape (m : Mode) (s : Bytes) : Bytes := s.flatMap (escapeByte m)

/-- Whether the octet with these digits may be escaped in a part. -/
def mayBeEscaped (m : Mode) (hi lo : ℕ) : Bool :=
  match m with
  | .host => 8 ≤ hi || (hi = 2 && lo = 5)
  | .zone =>
    (hi = 2 && lo = 5) || hi * 16 + lo = 0x20 || !shouldEscape (UInt8.ofNat (hi * 16 + lo)) .host
  | _ => true

def unescape (m : Mode) : Bytes → Option Bytes
  | [] => some []
  | 0x25 :: a :: b :: rest => do
    let hi ← hexVal a
    let lo ← hexVal b
    if mayBeEscaped m hi lo then (UInt8.ofNat (hi * 16 + lo) :: ·) <$> unescape m rest else none
  | c :: rest =>
    if c = 0x25 then none
    else if (m = .host || m = .zone) && c < 0x80 && shouldEscape c m then none
    else if c = 0x2b ∧ m = .queryComponent then (0x20 :: ·) <$> unescape m rest
    else (c :: ·) <$> unescape m rest

/-- Whether a part can stand as it was read. -/
def validEncoded (m : Mode) (s : Bytes) : Bool :=
  s.all fun c => c ∈ utf8 "!$&'()*+,;=:@[]%" || !shouldEscape c m

/-! ### Reading -/

/-- `strings.Cut`, at an octet. -/
def cut (sep : UInt8) (s : Bytes) : Bytes × Bytes :=
  (s.takeWhile (· ≠ sep), (s.dropWhile (· ≠ sep)).drop 1)

def cutLast (sep : UInt8) (s : Bytes) : Bytes × Bytes :=
  ((cut sep s.reverse).2.reverse, (cut sep s.reverse).1.reverse)

structure Userinfo where
  username : Bytes
  password : Option Bytes := none

structure URL where
  scheme : Bytes := []
  /-- What follows the scheme, if it does not start with a slash. -/
  opaquePart : Bytes := []
  user : Option Userinfo := none
  host : Bytes := []
  path : Bytes := []
  rawPath : Bytes := []
  omitHost : Bool := false
  forceQuery : Bool := false
  rawQuery : Bytes := []
  fragment : Bytes := []
  rawFragment : Bytes := []

structure Addresses where
  valid : Bytes → Bool
  colon : ∀ name, valid name = true → 0x3a ∈ name
  bracket : ∀ name, valid name = true → name.head? ≠ some 0x5b

def isSchemeByte (c : UInt8) : Bool := isAlpha c || isDigit c || c ∈ utf8 "+-."

/-- The scheme and what follows it; a text that starts with a colon is refused. -/
def getScheme (s : Bytes) : Option (Bytes × Bytes) :=
  let name := s.takeWhile isSchemeByte
  if s.head? = some 0x3a then none
  else if (s.head?.any isAlpha) && (s.drop name.length).head? = some 0x3a then
    some (name, s.drop (name.length + 1))
  else some ([], s)

def toLower (c : UInt8) : UInt8 := if 0x41 ≤ c ∧ c ≤ 0x5a then c + 0x20 else c

def validOptionalPort (port : Bytes) : Bool :=
  port = [] || (port.head? = some 0x3a && (port.drop 1).all isDigit)

variable (addrs : Addresses) {sep c : UInt8} {a s name rest scheme port : Bytes} {u v : URL}

def unescapeName (name : Bytes) : Option Bytes :=
  match (List.range name.length).find? fun i => (utf8 "%25").isPrefixOf (name.drop i) with
  | none => unescape .host name
  | some i => do
    let hostPart ← unescape .host (name.take i)
    let zonePart ← unescape .zone (name.drop i)
    pure (hostPart ++ zonePart)

def parseHost (host : Bytes) : Option Bytes :=
  if host.head? = some 0x5b then
    if 0x5d ∈ host then do
      let (inner, colonPort) := cutLast 0x5d host
      if validOptionalPort colonPort then
        let name ← unescapeName (inner.drop 1)
        if addrs.valid name then pure ([0x5b] ++ name ++ [0x5d] ++ colonPort) else none
      else none
    else none
  else if 0x3a ∈ host ∧ validOptionalPort (host.dropWhile (· ≠ 0x3a)) = false then none
  else unescape .host host

def validUserinfo (s : Bytes) : Bool :=
  s.all fun c => isAlpha c || isDigit c || c ∈ utf8 "-._:~!$&'()*+,;=%@"

def parseUserinfo (s : Bytes) : Option Userinfo :=
  if validUserinfo s then
    if 0x3a ∈ s then do
      let username ← unescape .userPassword (cut 0x3a s).1
      let password ← unescape .userPassword (cut 0x3a s).2
      pure ⟨username, some password⟩
    else do
      let username ← unescape .userPassword s
      pure ⟨username, none⟩
  else none

def parseAuthority (authority : Bytes) : Option (Option Userinfo × Bytes) :=
  if 0x40 ∈ authority then do
    let host ← parseHost addrs (cutLast 0x40 authority).2
    let user ← parseUserinfo (cutLast 0x40 authority).1
    pure (some user, host)
  else do
    let host ← parseHost addrs authority
    pure (none, host)

def URL.setPath (u : URL) (p : Bytes) : Option URL := do
  let path ← unescape .path p
  pure { u with path := path, rawPath := if p = escape .path path then [] else p }

def URL.setFragment (u : URL) (f : Bytes) : Option URL := do
  let frag ← unescape .fragment f
  pure { u with fragment := frag, rawFragment := if f = escape .fragment frag then [] else f }

/-- What follows the scheme, without the query. -/
def parseRest (u : URL) (rest : Bytes) : Option URL :=
  if rest.head? ≠ some 0x2f ∧ u.scheme ≠ [] then some { u with opaquePart := rest }
  else if rest.head? ≠ some 0x2f ∧ 0x3a ∈ (cut 0x2f rest).1 then none
  else if (u.scheme ≠ [] ∨ ¬ (utf8 "///").isPrefixOf rest) ∧ (utf8 "//").isPrefixOf rest then do
    let (user, host) ← parseAuthority addrs ((rest.drop 2).takeWhile (· ≠ 0x2f))
    { u with user := user, host := host }.setPath ((rest.drop 2).dropWhile (· ≠ 0x2f))
  else { u with omitHost := u.scheme ≠ [] && rest.head? = some 0x2f }.setPath rest

def parseNoFragment (s : Bytes) : Option URL :=
  if s.any fun c => c < 0x20 || c = 0x7f then none
  else if s = utf8 "*" then some { path := utf8 "*" }
  else do
    let (scheme, rest) ← getScheme s
    let u : URL := { scheme := scheme.map toLower }
    if rest.getLast? = some 0x3f ∧ rest.count 0x3f = 1 then
      parseRest addrs { u with forceQuery := true } rest.dropLast
    else parseRest addrs { u with rawQuery := (cut 0x3f rest).2 } (cut 0x3f rest).1

/-- `url.Parse`. -/
def parse (s : Bytes) : Option URL := do
  let u ← parseNoFragment addrs (cut 0x23 s).1
  if (cut 0x23 s).2 = [] then pure u else u.setFragment (cut 0x23 s).2

/-- `Hostname`. -/
def URL.hostname (u : URL) : Bytes :=
  let colonPort := cutLast 0x3a u.host
  let host :=
    if 0x3a ∈ u.host ∧ validOptionalPort (0x3a :: colonPort.2) then colonPort.1 else u.host
  if host.head? = some 0x5b ∧ host.getLast? = some 0x5d then (host.drop 1).dropLast else host

/-! ### Writing -/

def Userinfo.string (user : Userinfo) : Bytes :=
  escape .userPassword user.username ++
    match user.password with
    | none => []
    | some password => 0x3a :: escape .userPassword password

/-- A part as it was read, if it still stands for the same. -/
def escapedPart (m : Mode) (raw part : Bytes) : Bytes :=
  if raw ≠ [] ∧ validEncoded m raw = true ∧ unescape m raw = some part then raw
  else if part = utf8 "*" then part
  else escape m part

def URL.escapedPath (u : URL) : Bytes := escapedPart .path u.rawPath u.path

def URL.escapedFragment (u : URL) : Bytes := escapedPart .fragment u.rawFragment u.fragment

def URL.authority (u : URL) : Bytes :=
  (match u.user with
    | none => []
    | some user => user.string ++ [0x40]) ++ escape .host u.host

def URL.hierarchy (u : URL) : Bytes :=
  if u.scheme = [] ∧ u.host = [] ∧ u.user = none then []
  else if u.omitHost = true ∧ u.host = [] ∧ u.user = none then []
  else (if u.host ≠ [] ∨ u.path ≠ [] ∨ u.user ≠ none then utf8 "//" else []) ++ u.authority

/-- The path; in a relative URL a colon in the first segment is not taken for a scheme. -/
def URL.writtenPath (u : URL) : Bytes :=
  let path := u.escapedPath
  if path ≠ [] ∧ path.head? ≠ some 0x2f ∧ u.host ≠ [] then 0x2f :: path
  else if u.scheme = [] ∧ u.hierarchy = [] ∧ 0x3a ∈ (cut 0x2f path).1 then utf8 "./" ++ path
  else path

def URL.suffix (u : URL) : Bytes :=
  (if u.forceQuery = true ∨ u.rawQuery ≠ [] then 0x3f :: u.rawQuery else []) ++
    if u.fragment ≠ [] then 0x23 :: u.escapedFragment else []

def URL.string (u : URL) : Bytes :=
  (if u.scheme ≠ [] then u.scheme ++ [0x3a] else []) ++
    ((if u.opaquePart ≠ [] then u.opaquePart else u.hierarchy ++ u.writtenPath) ++ u.suffix)

/-! ### Queries -/

/-- The values of each key, the keys in the order of their first value. -/
abbrev Values := List (Bytes × List Bytes)

def Values.add (v : Values) (key value : Bytes) : Values :=
  if (v.map Prod.fst).contains key then
    v.map fun p => if p.1 = key then (p.1, p.2 ++ [value]) else p
  else v ++ [(key, [value])]

def Values.set (v : Values) (key value : Bytes) : Values :=
  v.filter (fun p => p.1 ≠ key) ++ [(key, [value])]

/-- One setting of a query; what cannot be read is passed over. -/
def parseSetting (v : Values) (setting : Bytes) : Values :=
  if 0x3b ∈ setting ∨ setting = [] then v
  else
    match unescape .queryComponent (cut 0x3d setting).1,
      unescape .queryComponent (cut 0x3d setting).2 with
    | some key, some value => v.add key value
    | _, _ => v

def parseQuery (query : Bytes) : Values := (query.splitOn 0x26).foldl parseSetting []

def encodeKey (p : Bytes × List Bytes) : List Bytes :=
  p.2.map fun value => escape .queryComponent p.1 ++ 0x3d :: escape .queryComponent value

def Values.encode (v : Values) : Bytes :=
  [0x26].intercalate ((v.insertionSort fun p q => p.1 ≤ q.1).flatMap encodeKey)

/-! ### Browsers -/

def browserText (s : Bytes) : Bytes :=
  ((s.dropWhile (· ≤ 0x20)).rdropWhile (· ≤ 0x20)).filter (· ∉ ([0x09, 0x0a, 0x0d] : Bytes))

def browserScheme (s : Bytes) : Option Bytes :=
  let text := browserText s
  let name := text.takeWhile isSchemeByte
  if text.head?.any isAlpha && (text.drop name.length).head? = some 0x3a then
    some (name.map toLower)
  else none

def endsAuthority (c : UInt8) : Bool := c ∈ utf8 "/\\?#"

def hostText (hostport : Bytes) : Bytes :=
  if hostport.head? = some 0x5b then hostport.takeWhile (· ≠ 0x5d) ++ [0x5d]
  else hostport.takeWhile (· ≠ 0x3a)

/-- The host of an `http` URL with its slashes. -/
def browserHost (s : Bytes) : Option Bytes :=
  let rest := ((browserText s).dropWhile isSchemeByte).drop 1
  if (utf8 "//").isPrefixOf rest then
    let authority := (rest.drop 2).takeWhile fun c => !endsAuthority c
    some (hostText (if 0x40 ∈ authority then (cutLast 0x40 authority).2 else authority))
  else none

/-- A backslash is a slash in `http` URLs. -/
def isSlash (c : UInt8) : Bool := c = 0x2f || c = 0x5c

/-- The host that a reference in an `http` page of `own` leads to. -/
def referredHost (own s : Bytes) : Option Bytes :=
  if (browserScheme s).isSome then browserHost s
  else
    match browserText s with
    | a :: b :: rest =>
      if isSlash a && isSlash b then
        let authority := (rest.dropWhile isSlash).takeWhile fun c => !endsAuthority c
        some (hostText (if 0x40 ∈ authority then (cutLast 0x40 authority).2 else authority))
      else some own
    | _ => some own

/-! ### Cutting -/

theorem cut_append (b : Bytes) (h : sep ∉ a) : cut sep (a ++ sep :: b) = (a, b) := by
  have hall : ∀ c ∈ a, decide (c ≠ sep) = true :=
    fun c hc => decide_eq_true fun heq => h (heq ▸ hc)
  unfold cut
  rw [takeWhile_append_of_pos hall, dropWhile_append_of_pos hall]
  simp

theorem cutLast_append (a : Bytes) {b : Bytes} (h : sep ∉ b) :
    cutLast sep (a ++ sep :: b) = (a, b) := by
  have hrev : (a ++ sep :: b).reverse = b.reverse ++ sep :: a.reverse := by simp
  unfold cutLast
  rw [hrev, cut_append a.reverse fun hmem => h (mem_reverse.mp hmem)]
  simp

theorem eq_cutLast (h : sep ∈ s) : ∃ a b, s = a ++ sep :: b ∧ sep ∉ b := by
  obtain ⟨b, a, hsplit, hnot⟩ := eq_append_cons_of_mem (mem_reverse.mpr h)
  refine ⟨a.reverse, b.reverse, ?_, fun hmem => hnot (mem_reverse.mp hmem)⟩
  rw [← reverse_reverse s, hsplit]
  simp

/-! ### Octets -/

theorem forall_byte {P : UInt8 → Prop} (h : ∀ n, n < 256 → P (UInt8.ofNat n)) (c : UInt8) :
    P c := by
  have hc := h c.toNat c.toNat_lt
  rwa [UInt8.ofNat_toNat] at hc

theorem schemeByte_bounds : ∀ c, isSchemeByte c = true → ¬ c ≤ 0x20 ∧ c ≠ 0x3a :=
  forall_byte (by decide +kernel)

theorem isSchemeByte_toLower : ∀ c, isSchemeByte c = true → isSchemeByte (toLower c) = true :=
  forall_byte (by decide +kernel)

theorem isAlpha_toLower : ∀ c, isAlpha c = true → isAlpha (toLower c) = true :=
  forall_byte (by decide +kernel)

theorem isSchemeByte_of_isAlpha : ∀ c, isAlpha c = true → isSchemeByte c = true :=
  forall_byte (by decide +kernel)

theorem toLower_toLower : ∀ c, toLower (toLower c) = toLower c :=
  forall_byte (by decide +kernel)

/-- An octet that neither ends an authority nor cuts one, and is no blank. -/
def Inner (c : UInt8) : Prop := ¬ c ≤ 0x20 ∧ endsAuthority c = false ∧ c ≠ 0x40

instance (c : UInt8) : Decidable (Inner c) := inferInstanceAs (Decidable (_ ∧ _))

theorem inner_of_not_shouldEscape : ∀ c, shouldEscape c .userPassword = false → Inner c :=
  forall_byte (by decide +kernel)

theorem inner_hex : ∀ c, Inner (hexDigit (c / 16)) ∧ Inner (hexDigit (c % 16)) :=
  forall_byte (by decide +kernel)

theorem isDigit_inner : ∀ c, isDigit c = true →
    Inner c ∧ shouldEscape c .host = false ∧ c ≠ 0x3a ∧ c ≠ 0x5d :=
  forall_byte (by decide +kernel)

theorem mem_escape {m : Mode} (hm : m ≠ .queryComponent) (hc : c ∈ escape m s) :
    Inner c ∨ shouldEscape c m = false := by
  obtain ⟨b, -, hb⟩ := mem_flatMap.mp hc
  unfold escapeByte at hb
  split at hb
  · rw [if_neg fun h => hm h.2] at hb
    obtain ⟨hhi, hlo⟩ := inner_hex b
    simp only [mem_cons, not_mem_nil, or_false] at hb
    rcases hb with rfl | rfl | rfl
    · exact .inl (by decide +kernel)
    · exact .inl hhi
    · exact .inl hlo
  · next hkept =>
    obtain rfl := mem_singleton.mp hb
    exact .inr (Bool.eq_false_iff.mpr hkept)

theorem inner_escape : ∀ c ∈ escape .userPassword s, Inner c := by
  intro c hc
  rcases mem_escape (m := .userPassword) nofun hc with hinner | hkept
  · exact hinner
  · exact inner_of_not_shouldEscape c hkept

theorem visible_escape : ∀ c ∈ escape .path s, ¬ c ≤ 0x20 := by
  intro c hc
  rcases mem_escape (m := .path) nofun hc with hinner | hkept
  · exact hinner.1
  · exact forall_byte (P := fun c => shouldEscape c .path = false → ¬ c ≤ 0x20)
      (by decide +kernel) c hkept

theorem Userinfo.inner_string {user : Userinfo} : ∀ c ∈ user.string, Inner c := by
  intro c hc
  rw [Userinfo.string, mem_append] at hc
  rcases hc with hname | hpassword
  · exact inner_escape c hname
  cases hp : user.password with
  | none => rw [hp] at hpassword; cases hpassword
  | some password => ?_
  rw [hp, mem_cons] at hpassword
  rcases hpassword with rfl | hmem
  · decide +kernel
  · exact inner_escape c hmem

theorem escape_eq_self {m : Mode} (h : ∀ c ∈ s, shouldEscape c m = false) : escape m s = s := by
  induction s with
  | nil => rfl
  | cons c s ih => ?_
  have hc : escapeByte m c = [c] := by
    rw [escapeByte, h c mem_cons_self, if_neg Bool.false_ne_true]
  rw [escape, flatMap_cons, hc, ← escape, ih fun b hb => h b (mem_cons_of_mem c hb)]
  rfl

/-! ### The scheme -/

structure SchemeText (scheme : Bytes) : Prop where
  alpha : scheme.head?.any isAlpha = true
  bytes : ∀ c ∈ scheme, isSchemeByte c = true
  lower : scheme.map toLower = scheme

theorem getScheme_text (h : getScheme s = some (name, rest)) (hne : name ≠ []) :
    SchemeText (name.map toLower) := by
  unfold getScheme at h
  dsimp only at h
  split at h
  · cases h
  split at h
  · next hscheme =>
    rw [Bool.and_eq_true] at hscheme
    obtain ⟨rfl, -⟩ := Prod.mk.inj (Option.some.inj h)
    cases s with
    | nil => exact absurd hscheme.1 nofun
    | cons c s => ?_
    have hc : isAlpha c = true := hscheme.1
    refine ⟨?_, fun b hb => ?_, ?_⟩
    · rw [takeWhile_cons_of_pos (isSchemeByte_of_isAlpha c hc)]
      exact isAlpha_toLower c hc
    · obtain ⟨a, ha, rfl⟩ := mem_map.mp hb
      exact isSchemeByte_toLower a (mem_takeWhile_imp ha)
    · rw [map_map]
      exact map_congr_left fun a _ => toLower_toLower a
  · obtain ⟨rfl, -⟩ := Prod.mk.inj (Option.some.inj h)
    exact absurd rfl hne

theorem URL.setPath_eq {p : Bytes} (h : u.setPath p = some v) :
    ∃ path raw, v = { u with path := path, rawPath := raw } := by
  obtain ⟨path, -, hv⟩ := Option.bind_eq_some_iff.mp h
  exact ⟨path, _, (Option.some.inj hv).symm⟩

theorem parseRest_cases {addrs : Addresses} (h : parseRest addrs u rest = some v) :
    v = { u with opaquePart := rest } ∨
      (∃ authority user host path raw, parseAuthority addrs authority = some (user, host) ∧
        v = { u with user := user, host := host, path := path, rawPath := raw }) ∨
      ∃ omitted path raw, v = { u with omitHost := omitted, path := path, rawPath := raw } := by
  unfold parseRest at h
  split at h
  · exact .inl (Option.some.inj h).symm
  split at h
  · cases h
  split at h
  · obtain ⟨⟨user, host⟩, hauth, hset⟩ := Option.bind_eq_some_iff.mp h
    obtain ⟨path, raw, rfl⟩ := URL.setPath_eq hset
    exact .inr (.inl ⟨_, user, host, path, raw, hauth, rfl⟩)
  · obtain ⟨path, raw, rfl⟩ := URL.setPath_eq h
    exact .inr (.inr ⟨_, path, raw, rfl⟩)

structure Parsed (u : URL) : Prop where
  scheme : u.scheme ≠ [] → SchemeText u.scheme
  host : u.host ≠ [] → u.opaquePart = [] ∧ ∃ text, parseHost addrs text = some u.host

theorem parsed_rest (hscheme : u.scheme ≠ [] → SchemeText u.scheme) (hpart : u.opaquePart = [])
    (hhost : u.host = []) (h : parseRest addrs u rest = some v) : Parsed addrs v := by
  obtain rfl | ⟨authority, user, host, path, raw, hauth, rfl⟩ | ⟨omitted, path, raw, rfl⟩ :=
    parseRest_cases h
  · exact ⟨hscheme, fun hne => absurd hhost hne⟩
  · refine ⟨hscheme, fun _ => ⟨hpart, ?_⟩⟩
    unfold parseAuthority at hauth
    split at hauth
    · obtain ⟨host', hparse, hrest⟩ := Option.bind_eq_some_iff.mp hauth
      obtain ⟨user', -, heq⟩ := Option.bind_eq_some_iff.mp hrest
      obtain ⟨-, rfl⟩ := Prod.mk.inj (Option.some.inj heq)
      exact ⟨_, hparse⟩
    · obtain ⟨host', hparse, heq⟩ := Option.bind_eq_some_iff.mp hauth
      obtain ⟨-, rfl⟩ := Prod.mk.inj (Option.some.inj heq)
      exact ⟨_, hparse⟩
  · exact ⟨hscheme, fun hne => absurd hhost hne⟩

theorem parsed_noFragment (h : parseNoFragment addrs s = some u) : Parsed addrs u := by
  unfold parseNoFragment at h
  split at h
  · cases h
  split at h
  · cases h
    exact ⟨fun hne => absurd rfl hne, fun hne => absurd rfl hne⟩
  obtain ⟨⟨name, rest⟩, hget, hrest⟩ := Option.bind_eq_some_iff.mp h
  have htext : name.map toLower ≠ [] → SchemeText (name.map toLower) :=
    fun hne => getScheme_text hget fun heq => hne (by rw [heq]; rfl)
  dsimp only at hrest
  split at hrest
  · exact parsed_rest addrs htext rfl rfl hrest
  · exact parsed_rest addrs htext rfl rfl hrest

theorem parse_parsed (h : parse addrs s = some u) : Parsed addrs u := by
  obtain ⟨v, hv, hfrag⟩ := Option.bind_eq_some_iff.mp h
  have hparsed := parsed_noFragment addrs hv
  split at hfrag
  · cases hfrag
    exact hparsed
  obtain ⟨frag, -, heq⟩ := Option.bind_eq_some_iff.mp hfrag
  cases heq
  exact ⟨hparsed.scheme, hparsed.host⟩

/-! ### What a browser sees -/

def tailText (s : Bytes) : Bytes :=
  (s.rdropWhile (· ≤ 0x20)).filter (· ∉ ([0x09, 0x0a, 0x0d] : Bytes))

theorem rdropWhile_append {p : UInt8 → Bool} (b : Bytes) (h : ∀ c ∈ a, p c = false) :
    (a ++ b).rdropWhile p = a ++ b.rdropWhile p := by
  induction b using List.reverseRecOn with
  | nil =>
    rw [append_nil, rdropWhile_nil, append_nil, rdropWhile_eq_self_iff]
    intro hne
    rw [h _ (getLast_mem hne)]
    exact Bool.false_ne_true
  | append_singleton b c ih =>
    rw [← append_assoc, rdropWhile_concat, rdropWhile_concat]
    split
    · exact ih
    · rw [append_assoc]

theorem browserText_append (b : Bytes) (hne : a ≠ []) (h : ∀ c ∈ a, ¬ c ≤ 0x20) :
    browserText (a ++ b) = a ++ tailText b := by
  have hfirst : (a ++ b).dropWhile (· ≤ 0x20) = a ++ b := by
    cases a with
    | nil => exact absurd rfl hne
    | cons c a => rw [cons_append, dropWhile_cons_of_neg (by simpa using h c mem_cons_self)]
  have hkept : a.filter (· ∉ ([0x09, 0x0a, 0x0d] : Bytes)) = a := by
    rw [filter_eq_self]
    intro c hc
    refine decide_eq_true fun hmem => h c hc ?_
    simp only [mem_cons, not_mem_nil, or_false] at hmem
    rcases hmem with rfl | rfl | rfl
    all_goals decide
  rw [browserText, hfirst, rdropWhile_append b fun c hc => decide_eq_false (h c hc),
    filter_append, hkept, tailText]

theorem tailText_cons (s : Bytes) (h : ¬ c ≤ 0x20) : tailText (c :: s) = c :: tailText s := by
  have happ : (c :: s).rdropWhile (· ≤ 0x20) = c :: s.rdropWhile (· ≤ 0x20) :=
    rdropWhile_append (a := [c]) s fun b hb => by
      rw [mem_singleton.mp hb]
      exact decide_eq_false h
  have hc : c ∉ ([0x09, 0x0a, 0x0d] : Bytes) := by
    intro hmem
    simp only [mem_cons, not_mem_nil, or_false] at hmem
    rcases hmem with rfl | rfl | rfl <;> exact h (by decide)
  rw [tailText, happ, filter_cons, if_pos (decide_eq_true hc), tailText]

theorem find?_rdropWhile {p q r : UInt8 → Bool} (s : Bytes) (h : ∀ c, r c = true → p c = false) :
    ((s.rdropWhile p).find? q).any r = (s.find? q).any r := by
  have happ : s.rdropWhile p ++ s.rtakeWhile p = s := rdropWhile_append_rtakeWhile ..
  conv_rhs => rw [← happ, find?_append]
  cases (s.rdropWhile p).find? q with
  | some c => rfl
  | none => ?_
  cases hfind : (s.rtakeWhile p).find? q with
  | none => rfl
  | some c =>
    have hp : p c = true := mem_rtakeWhile_imp (mem_of_find?_eq_some hfind)
    cases hr : r c with
    | false => simp [hr]
    | true => exact absurd hp (by simp [h c hr])

/-- A path stays on its host, whatever that is, if what a browser reads behind the slash is not one
more. -/
theorem referredHost_iff (b : Bytes) :
    (∀ own, referredHost own (0x2f :: b) = some own) ↔
      (b.find? (· ∉ ([0x09, 0x0a, 0x0d] : Bytes))).any isSlash = false := by
  have htext : browserText (0x2f :: b) = 0x2f :: tailText b :=
    browserText_append (a := [0x2f]) b nofun (by decide +kernel)
  have hscheme : browserScheme (0x2f :: b) = none := by
    rw [browserScheme, htext]
    rfl
  have hlow : ∀ c, isSlash c = true → decide (c ≤ 0x20) = false := by
    intro c hc
    simp only [isSlash, Bool.or_eq_true, decide_eq_true_eq] at hc
    rcases hc with rfl | rfl <;> decide
  have hfirst : (b.find? (· ∉ ([0x09, 0x0a, 0x0d] : Bytes))).any isSlash =
      (tailText b).head?.any isSlash := by
    rw [tailText, head?_filter, find?_rdropWhile b hlow]
  simp only [referredHost, hscheme, htext, hfirst]
  cases tailText b with
  | nil => exact iff_of_true (fun _ => rfl) rfl
  | cons c rest => ?_
  have hslash : isSlash 0x2f = true := rfl
  cases hc : isSlash c with
  | false => simp [hc]
  | true =>
    -- the host is read from the text, so it is not that of every page
    refine iff_of_false (fun h => ?_) (by simp [hc])
    have hnil := h []
    have hone := h [0]
    simp only [hslash, hc, Bool.and_self, if_true, Option.isSome_none, Bool.false_eq_true,
      if_false] at hnil hone
    rw [hnil] at hone
    cases hone

theorem SchemeText.ne_nil (h : SchemeText scheme) : scheme ≠ [] := by
  rintro rfl
  exact absurd h.alpha nofun

theorem SchemeText.visible (h : SchemeText scheme) : ∀ c ∈ scheme ++ [0x3a], ¬ c ≤ 0x20 := by
  intro c hc
  rcases mem_append.mp hc with hmem | hcolon
  · exact (schemeByte_bounds c (h.bytes c hmem)).1
  rw [mem_singleton.mp hcolon]
  decide

theorem browserScheme_append (h : SchemeText scheme) (rest : Bytes) :
    browserScheme (scheme ++ 0x3a :: rest) = some scheme := by
  have htext : browserText (scheme ++ 0x3a :: rest) = scheme ++ 0x3a :: tailText rest := by
    rw [append_cons, browserText_append rest (by simp) h.visible, ← append_cons]
  have hname : (scheme ++ 0x3a :: tailText rest).takeWhile isSchemeByte = scheme := by
    rw [takeWhile_append_of_pos h.bytes, takeWhile_cons_of_neg (by decide +kernel), append_nil]
  have hhead : (scheme ++ 0x3a :: tailText rest).head?.any isAlpha = true := by
    rw [head?_append_of_ne_nil _ h.ne_nil]
    exact h.alpha
  unfold browserScheme
  dsimp only
  rw [htext, hname, hhead, drop_left, if_pos (by simp), h.lower]

/-- **A browser sees the scheme of a URL that is written.** -/
theorem browserScheme_string (h : SchemeText u.scheme) :
    browserScheme u.string = some u.scheme := by
  rw [URL.string, if_pos h.ne_nil, append_assoc, singleton_append]
  exact browserScheme_append h _

/-! ### The host -/

structure PlainName (name : Bytes) : Prop where
  ne_nil : name ≠ []
  bytes : ∀ c ∈ name, Inner c ∧ shouldEscape c .host = false ∧ c ≠ 0x3a ∧ c ≠ 0x5b

instance (name : Bytes) : Decidable (PlainName name) :=
  @decidable_of_iff _ (name ≠ [] ∧ ∀ c ∈ name, Inner c ∧ shouldEscape c .host = false ∧ c ≠ 0x3a ∧
    c ≠ 0x5b) ⟨fun h => ⟨h.1, h.2⟩, fun h => ⟨h.ne_nil, h.bytes⟩⟩
    (@instDecidableAnd _ _ _ (List.decidableBAll _ name))

def Port (port : Bytes) : Prop := port = [] ∨ ∃ digits, port = 0x3a :: digits ∧ digits.all isDigit

theorem Port.bytes (h : Port port) : ∀ c ∈ port, Inner c ∧ shouldEscape c .host = false := by
  intro c hc
  rcases h with rfl | ⟨digits, rfl, hdigits⟩
  · cases hc
  rcases mem_cons.mp hc with rfl | hmem
  · decide +kernel
  obtain ⟨hinner, hkept, -⟩ := isDigit_inner c (all_eq_true.mp hdigits c hmem)
  exact ⟨hinner, hkept⟩

theorem hostText_append (hname : PlainName name) (hport : Port port) :
    hostText (name ++ port) = name := by
  have hhead : (name ++ port).head? ≠ some 0x5b := by
    rw [head?_append_of_ne_nil _ hname.ne_nil]
    intro heq
    exact (hname.bytes 0x5b (mem_of_head? heq)).2.2.2 rfl
  rw [hostText, if_neg hhead,
    takeWhile_append_of_pos fun c hc => decide_eq_true (hname.bytes c hc).2.2.1]
  rcases hport with rfl | ⟨digits, rfl, -⟩
  · simp
  · simp

theorem after_host (h : u.host ≠ []) :
    u.writtenPath ++ u.suffix = [] ∨
      ∃ c rest, u.writtenPath ++ u.suffix = c :: rest ∧ endsAuthority c = true ∧ ¬ c ≤ 0x20 := by
  have hpath : u.writtenPath = [] ∨ ∃ rest, u.writtenPath = 0x2f :: rest := by
    unfold URL.writtenPath
    dsimp only
    split
    · exact .inr ⟨_, rfl⟩
    next hslash =>
    have hhier : u.hierarchy ≠ [] := by
      unfold URL.hierarchy
      rw [if_neg fun hc => h hc.2.1, if_neg fun hc => h hc.2.1, if_pos (.inl h)]
      have hslashes : utf8 "//" ≠ [] := by decide +kernel
      exact fun hnil => hslashes (append_eq_nil_iff.mp hnil).1
    rw [if_neg fun hc => hhier hc.2.1]
    cases hp : u.escapedPath with
    | nil => exact .inl rfl
    | cons c rest => ?_
    rw [hp] at hslash
    have hc : c = 0x2f := by
      by_contra hne
      exact hslash ⟨nofun, fun heq => hne (Option.some.inj heq), h⟩
    exact .inr ⟨rest, by rw [hc]⟩
  rcases hpath with hnil | ⟨rest, hcons⟩
  · rw [hnil, nil_append, URL.suffix]
    by_cases hquery : u.forceQuery = true ∨ u.rawQuery ≠ []
    · rw [if_pos hquery]
      exact .inr ⟨0x3f, _, rfl, by decide +kernel, by decide⟩
    rw [if_neg hquery, nil_append]
    by_cases hfrag : u.fragment ≠ []
    · rw [if_pos hfrag]
      exact .inr ⟨0x23, _, rfl, by decide +kernel, by decide⟩
    · exact .inl (if_neg hfrag)
  · rw [hcons]
    exact .inr ⟨0x2f, _, rfl, by decide +kernel, by decide⟩

theorem browserHost_append {authority after : Bytes} (hscheme : SchemeText scheme)
    (hauth : ∀ c ∈ authority, ¬ c ≤ 0x20 ∧ endsAuthority c = false)
    (hafter : after = [] ∨ ∃ c rest, after = c :: rest ∧ endsAuthority c = true ∧ ¬ c ≤ 0x20) :
    browserHost (scheme ++ 0x3a :: (utf8 "//" ++ authority ++ after)) =
      some (hostText (if 0x40 ∈ authority then (cutLast 0x40 authority).2 else authority)) := by
  have hslashes : utf8 "//" = [0x2f, 0x2f] := by decide +kernel
  have htext : browserText (scheme ++ 0x3a :: (utf8 "//" ++ authority ++ after)) =
      scheme ++ 0x3a :: (utf8 "//" ++ authority ++ tailText after) := by
    have hvisible : ∀ c ∈ (scheme ++ [0x3a]) ++ (utf8 "//" ++ authority), ¬ c ≤ 0x20 := by
      intro c hc
      rw [mem_append (s := scheme ++ [0x3a]), mem_append (s := utf8 "//"), hslashes] at hc
      rcases hc with hmem | hmem | hmem
      · exact hscheme.visible c hmem
      · simp only [mem_cons, not_mem_nil, or_false, or_self] at hmem
        rw [hmem]
        decide
      · exact (hauth c hmem).1
    have happ := browserText_append after (by simp) hvisible
    simpa only [append_assoc, cons_append, nil_append] using happ
  have htail : (tailText after).takeWhile (fun c => !endsAuthority c) = [] := by
    rcases hafter with rfl | ⟨c, rest, rfl, hends, hvisible⟩
    · rfl
    · rw [tailText_cons rest hvisible, takeWhile_cons_of_neg (by simp [hends])]
  have hdrop : (scheme ++ 0x3a :: (utf8 "//" ++ authority ++ tailText after)).dropWhile
      isSchemeByte = 0x3a :: (utf8 "//" ++ authority ++ tailText after) := by
    rw [dropWhile_append_of_pos hscheme.bytes, dropWhile_cons_of_neg (by decide +kernel)]
  unfold browserHost
  rw [htext, hdrop, drop_one, tail_cons, append_assoc,
    if_pos (List.isPrefixOf_iff_prefix.mpr (prefix_append _ _)), hslashes]
  have hrest : (([0x2f, 0x2f] : Bytes) ++ (authority ++ tailText after)).drop 2 =
      authority ++ tailText after := rfl
  rw [hrest, takeWhile_append_of_pos fun c hc => by rw [(hauth c hc).2]; rfl, htail, append_nil]

/-- **A browser sees the host of a URL that is written**, if it is a plain name. -/
theorem browserHost_string (hscheme : SchemeText u.scheme) (hpart : u.opaquePart = [])
    (hhost : u.host = name ++ port) (hname : PlainName name) (hport : Port port) :
    browserHost u.string = some name := by
  have hne : u.host ≠ [] := by
    rw [hhost]
    exact fun h => hname.ne_nil (append_eq_nil_iff.mp h).1
  have hbytes : ∀ c ∈ u.host, Inner c ∧ shouldEscape c .host = false := by
    intro c hc
    rcases mem_append.mp (hhost ▸ hc) with hmem | hmem
    · exact ⟨(hname.bytes c hmem).1, (hname.bytes c hmem).2.1⟩
    · exact hport.bytes c hmem
  have hat : 0x40 ∉ u.host := fun hmem => (hbytes 0x40 hmem).1.2.2 rfl
  have hescape : escape .host u.host = u.host := escape_eq_self fun c hc => (hbytes c hc).2
  have hstring : u.string =
      u.scheme ++ 0x3a :: (utf8 "//" ++ u.authority ++ (u.writtenPath ++ u.suffix)) := by
    rw [URL.string, if_pos hscheme.ne_nil, if_neg (not_not.mpr hpart), URL.hierarchy,
      if_neg fun h => hne h.2.1, if_neg fun h => hne h.2.1, if_pos (.inl hne)]
    simp only [append_assoc, singleton_append]
  rw [hstring]
  cases huser : u.user with
  | none =>
    have hauth : u.authority = u.host := by rw [URL.authority, huser, hescape]; rfl
    rw [hauth, browserHost_append hscheme
      (fun c hc => ⟨(hbytes c hc).1.1, (hbytes c hc).1.2.1⟩) (after_host hne), if_neg hat, hhost,
      hostText_append hname hport]
  | some user => ?_
  have hauth : u.authority = user.string ++ 0x40 :: u.host := by
    rw [URL.authority, huser, hescape]
    simp
  have hvisible : ∀ c ∈ user.string ++ 0x40 :: u.host, ¬ c ≤ 0x20 ∧ endsAuthority c = false := by
    intro c hc
    rcases mem_append.mp hc with hmem | hmem
    · exact ⟨(Userinfo.inner_string c hmem).1, (Userinfo.inner_string c hmem).2.1⟩
    rcases mem_cons.mp hmem with rfl | hmem
    · decide +kernel
    · exact ⟨(hbytes c hmem).1.1, (hbytes c hmem).1.2.1⟩
  rw [hauth, browserHost_append hscheme hvisible (after_host hne), if_pos (by simp),
    cutLast_append user.string hat, hhost, hostText_append hname hport]

/-! ### The host that was read -/

theorem hexVal_lt {n : ℕ} (h : hexVal c = some n) : n < 16 := by
  have hbound : (hexVal c).all (· < 16) = true :=
    forall_byte (P := fun c => (hexVal c).all (· < 16) = true) (by decide +kernel) c
  rw [h] at hbound
  exact of_decide_eq_true hbound

theorem head_unescape {t : Bytes} (h : unescape .host s = some t) (hs : s.head? ≠ some 0x5b) :
    t.head? ≠ some 0x5b := by
  unfold unescape at h
  split at h
  · cases h
    exact nofun
  · next a b rest =>
    obtain ⟨hi, hhi, h⟩ := Option.bind_eq_some_iff.mp h
    obtain ⟨lo, hlo, h⟩ := Option.bind_eq_some_iff.mp h
    split at h
    · next hmay =>
      obtain ⟨t', -, rfl⟩ := Option.map_eq_some_iff.mp h
      have hlo16 : lo < 16 := hexVal_lt hlo
      have hhi16 : hi < 16 := hexVal_lt hhi
      rw [mayBeEscaped] at hmay
      simp only [Bool.or_eq_true, Bool.and_eq_true, decide_eq_true_eq] at hmay
      intro heq
      have hnat := congrArg UInt8.toNat (Option.some.inj heq)
      rw [UInt8.toNat_ofNat', Nat.mod_eq_of_lt (by omega)] at hnat
      have hbracket : (0x5b : UInt8).toNat = 91 := rfl
      omega
    · cases h
  · next c rest hne =>
    split at h
    · cases h
    split at h
    · cases h
    rw [if_neg fun hc => absurd hc.2 nofun] at h
    obtain ⟨t', -, rfl⟩ := Option.map_eq_some_iff.mp h
    exact hs

theorem validOptionalPort_cases (h : validOptionalPort port = true) : Port port := by
  rw [validOptionalPort, Bool.or_eq_true, decide_eq_true_eq, Bool.and_eq_true,
    decide_eq_true_eq] at h
  rcases h with hnil | ⟨hcolon, hdigits⟩
  · exact .inl hnil
  cases port with
  | nil => exact .inl rfl
  | cons c digits =>
    cases hcolon
    exact .inr ⟨digits, rfl, hdigits⟩

theorem parseHost_cases {text host : Bytes} (h : parseHost addrs text = some host) :
    host.head? ≠ some 0x5b ∨
      ∃ name port, host = 0x5b :: (name ++ 0x5d :: port) ∧ addrs.valid name = true ∧ Port port := by
  unfold parseHost at h
  split at h
  · split at h
    · dsimp only at h
      split at h
      · next hport =>
        obtain ⟨name, -, h⟩ := Option.bind_eq_some_iff.mp h
        split at h
        · next hvalid =>
          cases h
          refine .inr ⟨name, _, ?_, hvalid, validOptionalPort_cases hport⟩
          simp
        · cases h
      · cases h
    · cases h
  · next hhead =>
    split at h
    · cases h
    · exact .inl (head_unescape h hhead)

theorem hostname_plain (h : u.host.head? ≠ some 0x5b) :
    u.hostname.head? ≠ some 0x5b ∧ ∃ port, u.host = u.hostname ++ port ∧ Port port := by
  by_cases hport : 0x3a ∈ u.host ∧ validOptionalPort (0x3a :: (cutLast 0x3a u.host).2) = true
  · obtain ⟨a, b, hsplit, hnot⟩ := eq_cutLast hport.1
    have hcut : cutLast 0x3a u.host = (a, b) := by rw [hsplit, cutLast_append a hnot]
    have hhead : a.head? ≠ some 0x5b := by
      cases a with
      | nil => exact nofun
      | cons c a => rw [hsplit] at h; exact h
    have hname : u.hostname = a := by
      unfold URL.hostname
      dsimp only
      rw [if_pos hport, hcut]
      exact if_neg fun hc => hhead hc.1
    rw [hcut] at hport
    exact ⟨hname ▸ hhead, 0x3a :: b, by rw [hname, hsplit], validOptionalPort_cases hport.2⟩
  · have hname : u.hostname = u.host := by
      unfold URL.hostname
      dsimp only
      rw [if_neg hport]
      exact if_neg fun hc => h hc.1
    exact ⟨hname ▸ h, [], by rw [hname, append_nil], .inl rfl⟩

theorem hostname_bracketed (h : u.host = 0x5b :: (name ++ 0x5d :: port)) (hport : Port port) :
    u.hostname = name := by
  have hinner : (0x5b :: (name ++ [0x5d]) : Bytes).getLast? = some 0x5d := by
    rw [← cons_append, getLast?_concat]
  have hstrip : ((0x5b :: (name ++ [0x5d]) : Bytes).drop 1).dropLast = name := by simp
  unfold URL.hostname
  dsimp only
  rcases hport with rfl | ⟨digits, rfl, hdigits⟩
  · -- the last colon, if there is one, is in the address, and a bracket follows it
    have hinvalid : ¬ (0x3a ∈ u.host ∧
        validOptionalPort (0x3a :: (cutLast 0x3a u.host).2) = true) := by
      rintro ⟨hmem, hvalid⟩
      obtain ⟨a, b, hsplit, hnot⟩ := eq_cutLast hmem
      rw [hsplit, cutLast_append a hnot] at hvalid
      have hlast : (a ++ 0x3a :: b).getLast? = some 0x5d := by rw [← hsplit, h]; exact hinner
      cases b using List.reverseRecOn with
      | nil => simp at hlast
      | append_singleton b c => ?_
      rw [← cons_append, ← append_assoc, getLast?_concat] at hlast
      have hc : c = 0x5d := Option.some.inj hlast
      have hdigit : isDigit c = true := by
        rcases validOptionalPort_cases hvalid with hnil | ⟨digits, hcons, hall⟩
        · cases hnil
        rw [← (List.cons.inj hcons).2] at hall
        exact all_eq_true.mp hall c (by simp)
      exact (isDigit_inner c hdigit).2.2.2 hc
    rw [if_neg hinvalid, h, if_pos ⟨rfl, hinner⟩, hstrip]
  · have hcolon : 0x3a ∉ digits := fun hmem =>
      (isDigit_inner 0x3a (all_eq_true.mp hdigits _ hmem)).2.2.1 rfl
    have hsplit : u.host = (0x5b :: (name ++ [0x5d])) ++ 0x3a :: digits := by rw [h]; simp
    have hvalid : validOptionalPort (0x3a :: digits) = true := by
      rw [validOptionalPort, Bool.or_eq_true, Bool.and_eq_true]
      exact .inr ⟨decide_eq_true rfl, hdigits⟩
    have hmem : 0x3a ∈ (0x5b :: (name ++ [0x5d])) ++ 0x3a :: digits := by simp
    have hcut := cutLast_append (0x5b :: (name ++ [0x5d])) hcolon
    have hbase : (if 0x3a ∈ u.host ∧ validOptionalPort (0x3a :: (cutLast 0x3a u.host).2) = true
        then (cutLast 0x3a u.host).1 else u.host) = 0x5b :: (name ++ [0x5d]) := by
      rw [hsplit, hcut]
      exact if_pos ⟨hmem, hvalid⟩
    rw [hbase, if_pos ⟨rfl, hinner⟩, hstrip]

theorem Parsed.hostname_head (h : Parsed addrs u) : u.hostname.head? ≠ some 0x5b := by
  by_cases hne : u.host = []
  · exact (hostname_plain (by rw [hne]; exact nofun)).1
  obtain ⟨-, text, hparse⟩ := h.host hne
  rcases parseHost_cases addrs hparse with hplain | ⟨name, port, heq, hvalid, hport⟩
  · exact (hostname_plain hplain).1
  rw [hostname_bracketed heq hport]
  exact addrs.bracket name hvalid

/-- **A browser sees the host name that was read**, if it is a plain one. -/
theorem Parsed.browserHost (h : Parsed addrs u) (hscheme : u.scheme ≠ [])
    (hname : PlainName u.hostname) : browserHost u.string = some u.hostname := by
  have hne : u.host ≠ [] := by
    intro hnil
    obtain ⟨-, port, heq, -⟩ := hostname_plain (by rw [hnil]; exact nofun : u.host.head? ≠ _)
    rw [hnil] at heq
    exact hname.ne_nil (append_eq_nil_iff.mp heq.symm).1
  obtain ⟨hpart, text, hparse⟩ := h.host hne
  rcases parseHost_cases addrs hparse with hplain | ⟨name, port, heq, hvalid, hport⟩
  · obtain ⟨-, port, hhost, hport⟩ := hostname_plain hplain
    exact browserHost_string (h.scheme hscheme) hpart hhost hname hport
  · rw [hostname_bracketed heq hport] at hname
    exact absurd rfl (hname.bytes 0x3a (addrs.colon name hvalid)).2.2.1

end Url
