import ArcRelay.Lib.JsonWrite
import ArcRelay.Lib.Table

/-!
# The configuration files of a project

`arc-sync` puts servers of the relay into the files that coding tools read: `.mcp.json`
(`internal/cli/project/claude.go`) and `.codex/config.toml` (`internal/cli/project/codex.go`).  Both
have a table of servers by name among other things.  An entry is taken to be one of the relay if its
URL starts with that of the relay; writing and removing go by the name.

A JSON file is its octets, up to the white space that is put between tokens when it is written.  A
TOML file is the map that it decodes into, none if it does not decode; that what is encoded decodes
into the same values is assumed of the library.

* `Claude.write`, `Codex.write`: the two writers.
* `Codex.Frame`: all but the named entries stays.
* `write_conservative_iff`: when writing is conservative; `write_panics`: two files on which it is
  not.
-/

namespace ArcRelay.Cli

open Json List Option Nat

/-! ### Files -/

/-- What is found at a path. -/
inductive File (α : Type) where
  | missing
  /-- It cannot be read, or is a link that is not followed; whether anything is there. -/
  | unreadable (there : Bool)
  | content (c : α)
  deriving DecidableEq

/-- `os.Stat` finds it. -/
def File.exists {α : Type} : File α → Bool
  | .missing => false
  | .unreadable there => there
  | .content _ => true

/-- How a target fails. -/
inductive Failure where
  | error (text : String)
  /-- A write to a map that is nil. -/
  | crash

/-- A server in a configuration file; `oldName` is what it was called before. -/
structure ManagedServer where
  name : String
  url : String
  oldName : String := ""

/-- `strings.TrimRight(url, "/")`. -/
def trimSlashes (url : String) : String :=
  String.ofList (url.toList.reverse.dropWhile (· = '/')).reverse

/-- The URL starts with that of the relay and `/mcp/`. -/
def isRelayURL (relayURL url : String) : Bool :=
  (trimSlashes relayURL ++ "/mcp/").toList.isPrefixOf url.toList

/-! ### `.mcp.json` -/

namespace Claude

/-- A map that an object is decoded into; none for `null`. -/
def decodeMap (text : Bytes) : Option (Option (List (String × Bytes))) :=
  match parse text with
  | some (.object ms) => some (some ms)
  | some .null => some none
  | _ => none

/-- An assignment to a map. -/
def setKey (key : String) (value : Bytes) (ms : List (String × Bytes)) : List (String × Bytes) :=
  ms.filter (fun m => m.1 ≠ key) ++ [(key, value)]

/-- `json.MarshalIndent` of a map, up to blanks, and a newline. -/
def marshal (ms : List (String × Bytes)) : Bytes := writeObject (mapOf ms) ++ [0x0a]

/-- The key of the servers in `.mcp.json`. -/
def tableKey : String := "mcpServers"

/-- An object whose values are strings, or `null`. -/
def isStringMap (text : Bytes) : Bool :=
  match parse text with
  | some .null => true
  | some (.object ms) => ms.all fun m =>
    match parse m.2 with
    | some (.string _) => true
    | some .null => true
    | _ => false
  | _ => false

/-- The URL of an entry that decodes. -/
def entryURL (text : Bytes) : Option String :=
  match members text with
  | none => none
  | some ms =>
    if (stringField "type" ms).2 && (stringField "url" ms).2 &&
        ms.all fun m => !matchesField "headers" m.1 || isStringMap m.2 then
      some (stringField "url" ms).1
    else none

/-- The entries of the table that are the relay's. -/
def managed (relayURL : String) (table : List (String × Bytes)) : List ManagedServer :=
  (mapOf table).filterMap fun m =>
    match entryURL m.2 with
    | none => none
    | some url => if isRelayURL relayURL url then some { name := m.1, url := url } else none

/-- `Read`. -/
def read (relayURL : String) : File Bytes → Except Failure (List ManagedServer)
  | .missing => .ok []
  | .unreadable _ => .error (.error "reading .mcp.json")
  | .content text =>
    match decodeMap text with
    | none => .error (.error "parsing .mcp.json")
    | some none => .ok []
    | some (some raw) =>
      match exactField tableKey raw with
      | none => .ok []
      | some value =>
        match decodeMap value with
        | none => .error (.error "parsing .mcp.json: parsing mcpServers")
        | some none => .ok []
        | some (some table) => .ok (managed relayURL table)

/-- The entry that is written for a server. -/
def entry (apiKey : String) (s : ManagedServer) : Bytes :=
  writeObject [("type", quote "http"), ("url", quote s.url),
    ("headers", writeObject [("Authorization", quote ("Bearer " ++ apiKey))])]

/-- The table in a file, an empty one if it is not there or is no table; none for `null`. -/
def tableOf (raw : List (String × Bytes)) : Option (List (String × Bytes)) :=
  match exactField tableKey raw with
  | none => some []
  | some value => (decodeMap value).getD (some [])

/-- The entries are put into the table one by one. -/
def addEntries (apiKey : String) (servers : List ManagedServer) (table : List (String × Bytes)) :
    List (String × Bytes) :=
  servers.foldl (fun table s => setKey s.name (entry apiKey s) table) table

/-- `Write`, from the decoded file on. -/
def writeMap (apiKey : String) (servers : List ManagedServer) (raw : List (String × Bytes)) :
    Except Failure Bytes :=
  match tableOf raw with
  | none =>
    if servers = [] then .ok (marshal (setKey tableKey (utf8 "null") raw)) else .error .crash
  | some table =>
    .ok (marshal (setKey tableKey (writeObject (mapOf (addEntries apiKey servers table))) raw))

/-- What `Write` makes of a file. -/
def write (apiKey : String) (servers : List ManagedServer) : File Bytes → Except Failure Bytes
  | .missing => writeMap apiKey servers []
  | .unreadable _ => .error (.error "reading .mcp.json")
  | .content text =>
    match decodeMap text with
    | none => .error (.error "parsing existing .mcp.json")
    | some none => .error .crash
    | some (some raw) => writeMap apiKey servers raw

/-- What `Remove` makes of a file; none if it leaves it. -/
def remove (names : List String) : File Bytes → Except Failure (Option Bytes)
  | .missing => .ok none
  | .unreadable _ => .error (.error "reading .mcp.json")
  | .content text =>
    match decodeMap text with
    | none => .error (.error "parsing .mcp.json")
    | some none => .ok none
    | some (some raw) =>
      match exactField tableKey raw with
      | none => .ok none
      | some value =>
        match decodeMap value with
        | none => .error (.error "parsing mcpServers")
        | some none => .ok none
        | some (some table) =>
          if table.any fun m => names.contains m.1 then
            let kept := table.filter fun m => !names.contains m.1
            .ok (some (marshal (setKey tableKey (writeObject (mapOf kept)) raw)))
          else .ok none

/-! ### What a file has -/

/-- The members of an object. -/
def objectOf (text : Bytes) : Option (List (String × Bytes)) :=
  match parse text with
  | some (.object ms) => some ms
  | _ => none

/-- A member of the file. -/
def top (key : String) : File Bytes → Option Bytes
  | .content text => (objectOf text).bind (exactField key)
  | _ => none

/-- The entry of a server in the file. -/
def serverEntry (name : String) (f : File Bytes) : Option Bytes :=
  ((top tableKey f).bind objectOf).bind (exactField name)

/-- The same value, or none on both sides. -/
abbrev Kept : Option Bytes → Option Bytes → Prop := Option.Rel Same

/-- All top-level keys but the table, and all entries but some, keep their values. -/
structure Frame (names : List String) (f f' : File Bytes) : Prop where
  top : ∀ key, key ≠ tableKey → Kept (Claude.top key f) (Claude.top key f')
  entry : ∀ name, name ∉ names → Kept (serverEntry name f) (serverEntry name f')

/-! ### Writing keeps the rest -/

variable {f f' f'' : File Bytes} {names : List String} {raw table ms : List (String × Bytes)}
  {text value : Bytes} {key name apiKey : String} {d : ℕ} {servers : List ManagedServer}
  {o : Option Bytes}

theorem kept_self (h : ∀ text, o = some text → IsText d text) (hd : d ≤ maxNestingDepth) :
    Kept o o := by
  cases o with
  | none => exact .none
  | some text => exact .some ⟨(h text rfl).value hd, rfl⟩

theorem kept_copy (h : ∀ text, o = some text → IsText d text) (hd : d ≤ maxNestingDepth) :
    Kept o (o.map compact) := by
  cases o with
  | none => exact .none
  | some text => exact .some ((h text rfl).same_compact hd)

theorem Kept.trans {a b c : Option Bytes} (h : Kept a b) (h' : Kept b c) : Kept a c := by
  cases h with
  | none => exact h'
  | some h =>
    cases h' with
    | some h' => exact .some (h.trans h')

theorem objectOf_eq_some : objectOf text = some raw ↔ parse text = some (.object raw) := by
  unfold objectOf
  split
  · next ms hparse => rw [hparse, some.injEq, some.injEq, Value.object.injEq]
  · next hother => exact ⟨nofun, fun h => absurd h (hother raw)⟩

theorem isText_member (h : objectOf text = some raw) (hv : exactField key raw = some value) :
    IsText (maxNestingDepth - 1) value :=
  isText_of_members (objectOf_eq_some.mp h) (key, value) (mem_of_exactField hv)

theorem isText_nested (h : IsText (maxNestingDepth - 1) value)
    (htable : objectOf value = some table) : ∀ m ∈ table, IsText (maxNestingDepth - 2) m.2 := by
  obtain ⟨v, hv⟩ := h
  have hparse : parse value = some v := (hv.mono (sub_le _ _)).parse
  rw [objectOf_eq_some, hparse, some.injEq] at htable
  exact (Text.parts (d := maxNestingDepth - 2) hv).2 table htable

theorem top_isText (h : top key f = some value) : IsText (maxNestingDepth - 1) value := by
  cases f with
  | missing | unreadable _ => cases h
  | content text =>
    obtain ⟨raw, hraw, hvalue⟩ := bind_eq_some_iff.mp h
    exact isText_member hraw hvalue

theorem serverEntry_isText (h : serverEntry name f = some value) :
    IsText (maxNestingDepth - 2) value := by
  obtain ⟨table, htable, hvalue⟩ := bind_eq_some_iff.mp h
  obtain ⟨text, htext, hobject⟩ := bind_eq_some_iff.mp htable
  exact isText_nested (top_isText htext) hobject (name, value) (mem_of_exactField hvalue)

theorem Frame.refl (names : List String) (f : File Bytes) : Frame names f f :=
  ⟨fun _ _ => kept_self (fun _ => top_isText) (sub_le _ _),
    fun _ _ => kept_self (fun _ => serverEntry_isText) (sub_le _ _)⟩

theorem Frame.trans (h : Frame names f f') (h' : Frame names f' f'') : Frame names f f'' :=
  ⟨fun key hkey => Kept.trans (h.top key hkey) (h'.top key hkey),
    fun name hname => Kept.trans (h.entry name hname) (h'.entry name hname)⟩

theorem Frame.mono {names' : List String} (h : Frame names f f') (hsub : names ⊆ names') :
    Frame names' f f' :=
  ⟨h.top, fun name hname => h.entry name fun hmem => hname (hsub hmem)⟩

theorem exactField_setKey (key' key : String) (value : Bytes) (ms : List (String × Bytes)) :
    exactField key' (setKey key value ms) =
      if key' = key then some value else exactField key' ms := by
  rw [setKey, exactField_append, exactField_cons]
  by_cases hkey : key' = key
  · rw [if_pos hkey.symm, if_pos hkey]
    rfl
  have hfilter : exactField key' (ms.filter fun m => m.1 ≠ key) = exactField key' ms :=
    exactField_filter (p := fun k => k ≠ key) (decide_eq_true hkey) ms
  rw [if_neg fun heq => hkey heq.symm, if_neg hkey, hfilter]
  rfl

theorem parse_writeObject (h : ∀ m ∈ ms, IsText d m.2) (hd : d + 1 ≤ maxNestingDepth) :
    parse (writeObject (mapOf ms)) = some (.object ((mapOf ms).map fun m => (m.1, compact m.2))) :=
  ((text_writeObject fun m hm => h m (mem_mapOf hm)).mono hd).parse

theorem objectOf_marshal (h : ∀ m ∈ ms, IsText (maxNestingDepth - 1) m.2) :
    objectOf (marshal ms) = some ((mapOf ms).map fun m => (m.1, compact m.2)) := by
  rw [objectOf_eq_some, marshal, parse_eq_some]
  have htext := text_writeObject fun m hm => h m (mem_mapOf hm)
  have hnewline : Blank [0x0a] := forall_mem_singleton.mpr rfl
  exact ⟨[], _, [0x0a], nofun, hnewline, rfl, htext⟩

/-- The file has the members `raw`. -/
def Decodes (f : File Bytes) (raw : List (String × Bytes)) : Prop :=
  (∀ key, top key f = exactField key raw) ∧ ∀ m ∈ raw, IsText (maxNestingDepth - 1) m.2

theorem decodes_missing : Decodes .missing [] := ⟨fun _ => rfl, nofun⟩

theorem decodeMap_eq_some : decodeMap text = some (some raw) ↔ objectOf text = some raw := by
  unfold decodeMap objectOf
  cases parse text with
  | none => exact ⟨nofun, nofun⟩
  | some v => cases v <;> simp

theorem decodes_content (h : decodeMap text = some (some raw)) : Decodes (.content text) raw := by
  rw [decodeMap_eq_some] at h
  refine ⟨fun key => ?_, isText_of_members (objectOf_eq_some.mp h)⟩
  rw [top, h]
  rfl

theorem top_setKey (hf : Decodes f raw) (hvalue : IsText (maxNestingDepth - 1) value)
    (key : String) :
    top key (.content (marshal (setKey tableKey value raw))) =
      (if key = tableKey then some value else exactField key raw).map compact := by
  have htexts : ∀ m ∈ setKey tableKey value raw, IsText (maxNestingDepth - 1) m.2 := by
    intro m hm
    rcases mem_append.mp hm with hold | hnew
    · exact hf.2 m (mem_filter.mp hold).1
    rw [mem_singleton.mp hnew]
    exact hvalue
  rw [top, objectOf_marshal htexts, bind_some, exactField_map, exactField_mapOf, exactField_setKey]

/-- **A file whose table is set keeps the rest**, and the entries that the new table keeps. -/
theorem frame_setKey (hf : Decodes f raw) (hvalue : IsText (maxNestingDepth - 1) value)
    (hentries : ∀ name, name ∉ names →
      Kept (serverEntry name f) ((objectOf value).bind (exactField name))) :
    Frame names f (.content (marshal (setKey tableKey value raw))) := by
  have htop := top_setKey hf hvalue
  refine ⟨fun key hkey => ?_, fun name hname => ?_⟩
  · rw [htop, if_neg hkey, ← hf.1]
    exact kept_copy (fun _ => top_isText) (sub_le _ _)
  refine Kept.trans (hentries name hname) ?_
  rw [serverEntry, htop, if_pos rfl, map_some, bind_some]
  -- the table is copied into the file, so its entries are copies
  obtain ⟨v, hv⟩ := hvalue.parse (sub_le _ _)
  cases htable : objectOf value with
  | some table =>
    have hcopy := parse_compact (objectOf_eq_some.mp htable)
    rw [Value.compact, ← objectOf_eq_some] at hcopy
    rw [hcopy, bind_some, bind_some, exactField_map]
    refine kept_copy (d := maxNestingDepth - 2) (fun text htext => ?_) (sub_le _ _)
    exact isText_nested hvalue htable (name, text) (mem_of_exactField htext)
  | none => ?_
  have hcopy : objectOf (compact value) = none := by
    unfold objectOf at htable ⊢
    rw [hv] at htable
    rw [parse_compact hv]
    cases v with
    | object ms => cases htable
    | _ => rfl
  rw [hcopy]
  exact .none

theorem frame_table (hf : Decodes f raw) (htable : ∀ m ∈ table, IsText (maxNestingDepth - 2) m.2)
    (hentries : ∀ name, name ∉ names → serverEntry name f = exactField name table) :
    Frame names f (.content (marshal (setKey tableKey (writeObject (mapOf table)) raw))) := by
  have hparse := parse_writeObject htable (le_of_lt (by decide))
  have htext := text_writeObject fun m hm => htable m (mem_mapOf hm)
  refine frame_setKey hf ⟨_, htext⟩ fun name hname => ?_
  rw [objectOf_eq_some.mpr hparse, bind_some, exactField_map, exactField_mapOf,
    ← hentries name hname]
  exact kept_copy (fun _ => serverEntry_isText) (sub_le _ _)

theorem isText_entry (apiKey : String) (s : ManagedServer) :
    IsText (maxNestingDepth - 2) (entry apiKey s) := by
  have hheaders : IsText 1 (writeObject [("Authorization", quote ("Bearer " ++ apiKey))]) :=
    ⟨_, text_writeObject (forall_mem_singleton.mpr ⟨_, text_quote 0 _⟩)⟩
  have hentry : Text 2 (entry apiKey s) _ := text_writeObject fun m hm => by
    simp only [mem_cons, not_mem_nil, or_false] at hm
    rcases hm with rfl | rfl | rfl
    · exact ⟨_, text_quote 1 _⟩
    · exact ⟨_, text_quote 1 _⟩
    · exact hheaders
  exact ⟨_, hentry.mono (by decide)⟩

theorem addEntries_cons : addEntries apiKey (s :: servers) table =
    addEntries apiKey servers (setKey s.name (entry apiKey s) table) := rfl

theorem addEntries_texts (h : ∀ m ∈ table, IsText (maxNestingDepth - 2) m.2) :
    ∀ m ∈ addEntries apiKey servers table, IsText (maxNestingDepth - 2) m.2 := by
  induction servers generalizing table with
  | nil => exact h
  | cons s servers ih => ?_
  refine ih fun m hm => ?_
  rcases mem_append.mp hm with hold | hnew
  · exact h m (mem_filter.mp hold).1
  rw [mem_singleton.mp hnew]
  exact isText_entry apiKey s

theorem exactField_addEntries (h : name ∉ servers.map ManagedServer.name) :
    exactField name (addEntries apiKey servers table) = exactField name table := by
  induction servers generalizing table with
  | nil => rfl
  | cons s servers ih => ?_
  rw [map_cons, mem_cons, not_or] at h
  rw [addEntries_cons, ih h.2, exactField_setKey, if_neg h.1]

theorem serverEntry_eq (hf : Decodes f raw) (htable : tableOf raw = some table) :
    (∀ name, serverEntry name f = exactField name table) ∧
      ∀ m ∈ table, IsText (maxNestingDepth - 2) m.2 := by
  unfold tableOf at htable
  split at htable
  · next hnone =>
    cases htable
    refine ⟨fun name => ?_, nofun⟩
    rw [serverEntry, hf.1, hnone]
    rfl
  next value hvalue =>
  have htext := hf.2 _ (mem_of_exactField hvalue)
  cases hmap : decodeMap value with
  | none =>
    rw [hmap] at htable
    cases htable
    refine ⟨fun name => ?_, nofun⟩
    have hobject : objectOf value = none := by
      cases ho : objectOf value with
      | none => rfl
      | some t => rw [decodeMap_eq_some.mpr ho] at hmap; cases hmap
    rw [serverEntry, hf.1, hvalue, bind_some, hobject]
    rfl
  | some t =>
    rw [hmap] at htable
    obtain rfl : t = some table := htable
    have hobject := decodeMap_eq_some.mp hmap
    refine ⟨fun name => ?_, isText_nested htext hobject⟩
    rw [serverEntry, hf.1, hvalue, bind_some, hobject, bind_some]

theorem writeMap_frame (hf : Decodes f raw) (h : writeMap apiKey servers raw = .ok text) :
    Frame (servers.map ManagedServer.name) f (.content text) := by
  unfold writeMap at h
  split at h
  · next hnull =>
    split at h
    · -- a table that is `null` stays so when there is nothing to add
      cases h
      refine frame_setKey hf ⟨_, Scalar.null.text _⟩ fun name _ => ?_
      have hnone : serverEntry name f = none := by
        unfold tableOf at hnull
        split at hnull
        · cases hnull
        next value hvalue =>
        rw [serverEntry, hf.1, hvalue, bind_some]
        cases ho : objectOf value with
        | none => rfl
        | some t => rw [decodeMap_eq_some.mpr ho] at hnull; cases hnull
      have hobject : objectOf (utf8 "null") = none := by decide +kernel
      rw [hnone, hobject]
      exact .none
    · cases h
  · next table htable =>
    cases h
    obtain ⟨hentries, htexts⟩ := serverEntry_eq hf htable
    refine frame_table hf (addEntries_texts htexts) fun name hname => ?_
    rw [exactField_addEntries hname, hentries]

/-- **Writing changes only the entries that are written.** -/
theorem write_frame (h : write apiKey servers f = .ok text) :
    Frame (servers.map ManagedServer.name) f (.content text) := by
  cases f with
  | missing => exact writeMap_frame decodes_missing h
  | unreadable there => cases h
  | content old => ?_
  rw [write] at h
  split at h
  · cases h
  · cases h
  · next raw hraw => exact writeMap_frame (decodes_content hraw) h

/-! ### Reading what was written -/

/-- The text is an entry for the URL, with some key. -/
def IsEntry (url : String) (text : Bytes) : Prop :=
  ∃ kind link headers bearer auth, parse text =
      some (.object [("type", kind), ("url", link), ("headers", headers)]) ∧
    parse kind = some (.string "http") ∧ parse link = some (.string url) ∧
    parse headers = some (.object [("Authorization", bearer)]) ∧
    parse bearer = some (.string auth)

variable {url relayURL : String} {s : ManagedServer}

theorem IsEntry.compact (h : IsEntry url text) : IsEntry url (compact text) := by
  obtain ⟨kind, link, headers, bearer, auth, htext, hkind, hlink, hheaders, hbearer⟩ := h
  exact ⟨_, _, _, _, auth, parse_compact htext, parse_compact hkind, parse_compact hlink,
    parse_compact hheaders, parse_compact hbearer⟩

theorem isEntry_entry (apiKey : String) (s : ManagedServer) : IsEntry s.url (entry apiKey s) := by
  have hquote : ∀ x, parse (quote x) = some (.string x) := fun x =>
    (text_quote maxNestingDepth x).parse
  have hheaders := text_writeObject (d := maxNestingDepth - 2)
    (forall_mem_singleton.mpr ⟨_, text_quote _ ("Bearer " ++ apiKey)⟩ :
      ∀ m ∈ [("Authorization", quote ("Bearer " ++ apiKey))], _)
  have htext : Text maxNestingDepth (entry apiKey s) _ := text_writeObject fun m hm => by
    simp only [mem_cons, not_mem_nil, or_false] at hm
    rcases hm with rfl | rfl | rfl
    · exact ⟨_, text_quote _ _⟩
    · exact ⟨_, text_quote _ _⟩
    · exact ⟨_, hheaders⟩
  exact ⟨_, _, _, _, _, htext.parse, parse_compact (hquote _), parse_compact (hquote _),
    parse_compact (hheaders.mono (by decide)).parse, parse_compact (parse_compact (hquote _))⟩

theorem IsEntry.entryURL (h : IsEntry url text) : entryURL text = some url := by
  obtain ⟨kind, link, headers, bearer, auth, htext, hkind, hlink, hheaders, hbearer⟩ := h
  have hmap : isStringMap headers = true := by simp [isStringMap, hheaders, hbearer]
  have htype : matchesField "type" "url" = false ∧ matchesField "type" "headers" = false := by
    decide
  have hurl : matchesField "url" "type" = false ∧ matchesField "url" "headers" = false := by decide
  have hother : matchesField "headers" "type" = false ∧ matchesField "headers" "url" = false := by
    decide
  have hsame : ∀ field, matchesField field field = true := by simp [matchesField]
  simp [Claude.entryURL, members, htext, stringField, stringMember, hkind, hlink, htype, hurl,
    hother, hsame, hmap]

theorem read_of_entry (hname : serverEntry name f = some text) (hurl : IsEntry url text)
    (hrelay : isRelayURL relayURL url = true) :
    ∃ l, read relayURL f = .ok l ∧ { name := name, url := url } ∈ l := by
  obtain ⟨table, htable, hentry⟩ := bind_eq_some_iff.mp hname
  obtain ⟨value, hvalue, hobject⟩ := bind_eq_some_iff.mp htable
  cases f with
  | missing | unreadable _ => cases hvalue
  | content file => ?_
  obtain ⟨raw, hraw, hfield⟩ := bind_eq_some_iff.mp hvalue
  refine ⟨managed relayURL table, ?_, mem_filterMap.mpr ⟨(name, text), ?_, ?_⟩⟩
  · simp only [read, decodeMap_eq_some.mpr hraw, hfield, decodeMap_eq_some.mpr hobject]
  · rw [← exactField_mapOf] at hentry
    exact mem_of_exactField hentry
  · simp only [hurl.entryURL, hrelay, if_true]

theorem mem_managed (h : s ∈ managed relayURL table) :
    (exactField s.name table).bind entryURL = some s.url := by
  obtain ⟨m, hm, hs⟩ := mem_filterMap.mp h
  obtain ⟨k, -, hk⟩ := mem_filterMap.mp hm
  obtain ⟨text, htext, rfl⟩ := Option.map_eq_some_iff.mp hk
  split at hs
  · cases hs
  next url hurl =>
  obtain ⟨-, hs⟩ := Option.ite_none_right_eq_some.mp hs
  obtain rfl := some.inj hs
  rw [htext, bind_some, hurl]

/-- A name that is read has one URL. -/
theorem read_url_inj {l : List ManagedServer} {s' : ManagedServer} (h : read relayURL f = .ok l)
    (hs : s ∈ l) (hs' : s' ∈ l) (hname : s.name = s'.name) : s.url = s'.url := by
  have htable : ∃ table, l = managed relayURL table := by
    unfold read at h
    repeat' split at h
    all_goals cases h
    all_goals first | exact ⟨_, rfl⟩ | cases hs
  obtain ⟨table, rfl⟩ := htable
  have hurl := mem_managed hs
  rw [hname, mem_managed hs'] at hurl
  exact (some.inj hurl).symm

/-- Servers of one name have one URL. -/
def OneURL (servers : List ManagedServer) : Prop :=
  ∀ s ∈ servers, ∀ s' ∈ servers, s.name = s'.name → s.url = s'.url

theorem exactField_added (h : name ∈ servers.map ManagedServer.name) :
    ∃ s ∈ servers, s.name = name ∧
      exactField name (addEntries apiKey servers table) = some (entry apiKey s) := by
  induction servers generalizing table with
  | nil => cases h
  | cons s servers ih => ?_
  rw [addEntries_cons]
  by_cases hlater : name ∈ servers.map ManagedServer.name
  · obtain ⟨t, ht, hname, hentry⟩ := ih hlater
    exact ⟨t, mem_cons_of_mem s ht, hname, hentry⟩
  · have hname : name = s.name := (mem_cons.mp h).resolve_right hlater
    refine ⟨s, mem_cons_self, hname.symm, ?_⟩
    rw [exactField_addEntries hlater, exactField_setKey, if_pos hname]

theorem exactField_written (hs : s ∈ servers) (hurls : OneURL servers) :
    exactField s.name (addEntries apiKey servers table) = some (entry apiKey s) := by
  obtain ⟨t, ht, hname, hentry⟩ := exactField_added (mem_map_of_mem hs)
  rw [hentry, entry, entry, hurls t ht s hs hname]

/-- The members of a file that `Write` goes on with. -/
def opened : File Bytes → Option (List (String × Bytes))
  | .missing => some []
  | .content text => (decodeMap text).join
  | .unreadable _ => none

/-- The file is `null`. -/
def Null : File Bytes → Prop
  | .content text => decodeMap text = some none
  | _ => False

theorem decodes_opened (h : opened f = some raw) : Decodes f raw := by
  cases f with
  | missing => exact some.inj h ▸ decodes_missing
  | unreadable _ => cases h
  | content text => exact decodes_content (join_eq_some_iff.mp h)

theorem write_of_opened (h : opened f = some raw) :
    write apiKey servers f = writeMap apiKey servers raw := by
  cases f with
  | missing => rw [write, some.inj h]
  | unreadable _ => cases h
  | content text => rw [write, join_eq_some_iff.mp h]

theorem write_of_not_opened (apiKey : String) (servers : List ManagedServer)
    (h : opened f = none) :
    (Null f ∧ write apiKey servers f = .error .crash) ∨
      ¬ Null f ∧ ∃ e, write apiKey servers f = .error (.error e) := by
  cases f with
  | missing => cases h
  | unreadable _ => exact .inr ⟨id, _, rfl⟩
  | content text => ?_
  rw [write, Null]
  cases hmap : decodeMap text with
  | none => exact .inr ⟨nofun, _, rfl⟩
  | some o =>
    rw [opened, hmap] at h
    obtain rfl : o = none := h
    exact .inl ⟨rfl, rfl⟩

theorem serverEntry_marshal (hf : Decodes f raw)
    (htexts : ∀ m ∈ table, IsText (maxNestingDepth - 2) m.2) (name : String) :
    serverEntry name (.content (marshal (setKey tableKey (writeObject (mapOf table)) raw))) =
      ((exactField name table).map compact).map compact := by
  have hvalue := text_writeObject fun m hm => htexts m (mem_mapOf hm)
  have hparse := parse_compact (hvalue.mono (by decide)).parse
  rw [serverEntry, top_setKey hf ⟨_, hvalue⟩, if_pos rfl, map_some, bind_some,
    objectOf_eq_some.mpr hparse, bind_some, exactField_map, exactField_map, exactField_mapOf]

theorem writeMap_reads (hf : Decodes f raw) (htable : tableOf raw ≠ none) (hurls : OneURL servers)
    (hrelay : ∀ s ∈ servers, isRelayURL relayURL s.url = true) :
    ∃ text, writeMap apiKey servers raw = .ok text ∧ ∀ s ∈ servers,
      ∃ l, read relayURL (.content text) = .ok l ∧ { name := s.name, url := s.url } ∈ l := by
  obtain ⟨table, htable⟩ := ne_none_iff_exists'.mp htable
  refine ⟨_, by rw [writeMap, htable], fun s hs => ?_⟩
  refine read_of_entry ?_ (isEntry_entry apiKey s).compact.compact (hrelay s hs)
  rw [serverEntry_marshal hf (addEntries_texts (serverEntry_eq hf htable).2),
    exactField_written hs hurls]
  rfl

/-- **Writing is conservative** (it fails and leaves the file, or writes one that keeps the rest
and from which the servers are read again) if and only if the file is not `null`, and, unless it
cannot be read or parsed, its table is not `null` when there are servers to write, and servers of
one name have one URL. -/
theorem write_conservative_iff (relayURL apiKey : String) (servers : List ManagedServer)
    (f : File Bytes) (hrelay : ∀ s ∈ servers, isRelayURL relayURL s.url = true) :
    ((∃ e, write apiKey servers f = .error (.error e)) ∨
      ∃ text, write apiKey servers f = .ok text ∧
        Frame (servers.map ManagedServer.name) f (.content text) ∧ ∀ s ∈ servers,
          ∃ l, read relayURL (.content text) = .ok l ∧ { name := s.name, url := s.url } ∈ l) ↔
    ¬ Null f ∧ ∀ raw, opened f = some raw →
      (tableOf raw = none → servers = []) ∧ OneURL servers := by
  cases hopened : opened f with
  | none =>
    rcases write_of_not_opened apiKey servers hopened with ⟨hnull, hwrite⟩ | ⟨hnull, e, hwrite⟩
    · rw [hwrite]
      simp [hnull]
    · exact iff_of_true (.inl ⟨e, hwrite⟩) ⟨hnull, nofun⟩
  | some raw => ?_
  have hnull : ¬ Null f := by
    intro hnull
    cases f with
    | missing | unreadable _ => exact hnull
    | content text =>
      rw [Null] at hnull
      simp [opened, hnull] at hopened
  have hf := decodes_opened hopened
  rw [write_of_opened hopened]
  constructor
  · intro h
    refine ⟨hnull, fun raw' hraw => ?_⟩
    obtain rfl := some.inj hraw
    refine ⟨fun htable => ?_, fun s hs s' hs' hname => ?_⟩
    · by_contra hservers
      simp [writeMap, htable, hservers] at h
    · rcases h with ⟨e, he⟩ | ⟨text, -, -, hread⟩
      · unfold writeMap at he
        repeat' split at he
        all_goals cases he
      obtain ⟨l, hl, hmem⟩ := hread s hs
      obtain ⟨l', hl', hmem'⟩ := hread s' hs'
      obtain rfl := Except.ok.inj (hl.symm.trans hl')
      have hsame := read_url_inj hl hmem hmem'
      exact hsame hname
  · rintro ⟨-, h⟩
    obtain ⟨hservers, hurls⟩ := h raw rfl
    by_cases htable : tableOf raw = none
    · obtain rfl := hservers htable
      have hwrite : writeMap apiKey [] raw = .ok (marshal (setKey tableKey (utf8 "null") raw)) := by
        rw [writeMap, htable, if_pos rfl]
      exact .inr ⟨_, hwrite, writeMap_frame hf hwrite, nofun⟩
    · obtain ⟨text, htext, hread⟩ := writeMap_reads hf htable hurls hrelay
      exact .inr ⟨text, htext, writeMap_frame hf htext, hread⟩

/-- A server of the relay. -/
def relayServer (name path : String) : ManagedServer :=
  { name := name, url := "https://relay/mcp/" ++ path }

/-- A file with a key and an entry of its own, and one server that is given twice. -/
theorem write_conservative_iff_twice :
    let servers := [relayServer "files" "files", relayServer "files" "files"]
    let f := .content (utf8 "\x7b\"mcpServers\":\x7b\"own\":\x7b\x7d\x7d,\"other\":1\x7d")
    ∃ text, write "k" servers f = .ok text ∧ Frame ["files", "files"] f (.content text) ∧
      ∃ l, read "https://relay" (.content text) = .ok l ∧ relayServer "files" "files" ∈ l := by
  intro servers f
  have hopened : opened f = some [("mcpServers", utf8 "\x7b\"own\":\x7b\x7d\x7d"),
      ("other", utf8 "1")] := by decide +kernel
  have hnull : ¬ Null f := by
    show ¬ decodeMap _ = some none
    decide +kernel
  have hok : (write "k" servers f).toOption.isSome = true := by decide +kernel
  have hmeets : ¬ Null f ∧ ∀ raw, opened f = some raw →
      (tableOf raw = none → servers = []) ∧ OneURL servers := by
    refine ⟨hnull, fun raw hraw => ?_⟩
    rw [hopened] at hraw
    obtain rfl := some.inj hraw
    exact ⟨by decide +kernel, by simp [OneURL, servers]⟩
  rcases (write_conservative_iff "https://relay" "k" servers f (by decide +kernel)).mpr hmeets with
    ⟨e, he⟩ | ⟨text, htext, hframe, hread⟩
  · rw [he] at hok
    cases hok
  · exact ⟨text, htext, hframe, hread _ mem_cons_self⟩

/-- `null` in place of the table is decoded into a nil map, and the first entry is put into it; and
of two servers of one name only the second is read again. -/
theorem write_panics :
    write "k" [relayServer "files" "files"] (.content (utf8 "\x7b\"mcpServers\":null\x7d")) =
        .error .crash ∧
      ∀ text, write "k" [relayServer "a" "a", relayServer "a" "b"] .missing = .ok text →
        ∀ l, read "https://relay" (.content text) = .ok l →
          l.map ManagedServer.url = ["https://relay/mcp/b"] := by
  refine ⟨?_, fun text htext l hl => ?_⟩
  · have hfile : decodeMap (utf8 "\x7b\"mcpServers\":null\x7d") =
        some (some [("mcpServers", utf8 "null")]) := by decide +kernel
    have htable : tableOf [("mcpServers", utf8 "null")] = none := by decide +kernel
    rw [write, hfile]
    simp only [writeMap, htable, cons_ne_nil, if_false]
  · have heval : (write "k" [relayServer "a" "a", relayServer "a" "b"] .missing).toOption.bind
        (fun text => (read "https://relay" (.content text)).toOption.map fun l =>
          l.map ManagedServer.url) = some ["https://relay/mcp/b"] := by decide +kernel
    rw [htext] at heval
    simp only [Except.toOption, bind_some, hl, map_some] at heval
    exact some.inj heval

theorem remove_eq_some (h : remove names f = .ok (some text)) :
    ∃ raw table, Decodes f raw ∧ tableOf raw = some table ∧ text = marshal
      (setKey tableKey (writeObject (mapOf (table.filter fun m => !names.contains m.1))) raw) := by
  cases f with
  | missing | unreadable _ => cases h
  | content old => ?_
  rw [remove] at h
  split at h
  · cases h
  · cases h
  next raw hraw =>
  split at h
  · cases h
  next value hvalue =>
  split at h
  · cases h
  · cases h
  next table hmap =>
  have htable : tableOf raw = some table := by
    rw [tableOf, hvalue]
    dsimp only
    rw [hmap]
    rfl
  split at h
  · exact ⟨raw, table, decodes_content hraw, htable, (some.inj (Except.ok.inj h)).symm⟩
  · cases h

/-- **Removing changes only the entries that are removed.** -/
theorem remove_frame (h : remove names f = .ok (some text)) : Frame names f (.content text) := by
  obtain ⟨raw, table, hf, htable, rfl⟩ := remove_eq_some h
  obtain ⟨hentries, htexts⟩ := serverEntry_eq hf htable
  refine frame_table hf (fun m hm => htexts m (mem_filter.mp hm).1) fun name hname => ?_
  have hkept : (!names.contains name) = true := by simpa using hname
  rw [hentries, exactField_filter (p := fun k => !names.contains k) hkept]

end Claude

/-! ### `.codex/config.toml` -/

namespace Codex

open Table

/-- A value of TOML. -/
inductive Value where
  | string (text : String)
  /-- A number, a Boolean or a time. -/
  | scalar (text : String)
  | array (values : List Value)
  | table (ms : List (String × Value))

/-- The file as a map, none for a text that is no TOML. -/
abbrev Config := File (Option (List (String × Value)))

/-- The key of the servers in `config.toml`. -/
def tableKey : String := "mcp_servers"

/-- `loadCodexConfig`. -/
def loadCodexConfig : Config → Except Failure (Option (List (String × Value)))
  | .missing => .ok none
  | .unreadable _ => .error (.error "reading .codex/config.toml")
  | .content none => .error (.error "parsing .codex/config.toml")
  | .content (some raw) => .ok (some raw)

/-- `getCodexMCPServers`. -/
def getCodexMCPServers (raw : List (String × Value)) : Option (List (String × Value)) :=
  match raw.lookup tableKey with
  | some (.table ms) => some ms
  | _ => none

/-- The URL of an entry, empty if there is none. -/
def entryURL (ms : List (String × Value)) : String :=
  match ms.lookup "url" with
  | some (.string url) => url
  | _ => ""

/-- The entries of the table that are the relay's. -/
def managed (relayURL : String) (table : List (String × Value)) : List ManagedServer :=
  table.filterMap fun m =>
    match m.2 with
    | .table ms =>
      if isRelayURL relayURL (entryURL ms) then some { name := m.1, url := entryURL ms } else none
    | _ => none

/-- `Read`. -/
def read (relayURL : String) (f : Config) : Except Failure (List ManagedServer) :=
  match loadCodexConfig f with
  | .error e => .error e
  | .ok none => .ok []
  | .ok (some raw) =>
    match getCodexMCPServers raw with
    | none => .ok []
    | some table => .ok (managed relayURL table)

/-- The entry that is written for a server. -/
def entry (apiKey : String) (s : ManagedServer) : Value :=
  .table [("url", .string s.url),
    ("http_headers", .table [("Authorization", .string ("Bearer " ++ apiKey))])]

/-- The entries are put into the table one by one. -/
def addEntries (apiKey : String) (servers : List ManagedServer) (table : List (String × Value)) :
    List (String × Value) :=
  servers.foldl (fun table s => put s.name (entry apiKey s) table) table

/-- `Write`. -/
def write (apiKey : String) (servers : List ManagedServer) (f : Config) :
    Except Failure (List (String × Value)) :=
  match loadCodexConfig f with
  | .error e => .error e
  | .ok loaded =>
    let raw := loaded.getD []
    let table := (getCodexMCPServers raw).getD []
    .ok (put tableKey (.table (addEntries apiKey servers table)) raw)

/-- `Remove`. -/
def remove (names : List String) (f : Config) : Except Failure (Option (List (String × Value))) :=
  match loadCodexConfig f with
  | .error e => .error e
  | .ok none => .ok none
  | .ok (some raw) =>
    match getCodexMCPServers raw with
    | none =>
      if (raw.lookup tableKey).isSome then .error (.error "parsing mcp_servers: expected table")
      else .ok none
    | some table =>
      if table.any fun m => names.contains m.1 then
        .ok (some (put tableKey (.table (table.filter fun m => !names.contains m.1)) raw))
      else .ok none

/-! ### What a file has -/

/-- The map of a file, empty if there is none. -/
def rawOf : Config → List (String × Value)
  | .content (some raw) => raw
  | _ => []

/-- A key of the file. -/
def top (key : String) (f : Config) : Option Value := (rawOf f).lookup key

/-- The entry of a server in the file. -/
def serverEntry (name : String) (f : Config) : Option Value :=
  (getCodexMCPServers (rawOf f)).bind fun table => table.lookup name

/-- All but the named entries of the table stays as it was. -/
structure Frame (names : List String) (f f' : Config) : Prop where
  top : ∀ key, key ≠ tableKey → Codex.top key f' = Codex.top key f
  entry : ∀ name, name ∉ names → serverEntry name f' = serverEntry name f

/-! ### Writing keeps the rest -/

variable {f f' f'' : Config} {names : List String} {raw table : List (String × Value)}
  {name apiKey : String} {servers : List ManagedServer}

theorem Frame.refl (names : List String) (f : Config) : Frame names f f :=
  ⟨fun _ _ => rfl, fun _ _ => rfl⟩

theorem Frame.trans (h : Frame names f f') (h' : Frame names f' f'') : Frame names f f'' :=
  ⟨fun key hkey => (h'.top key hkey).trans (h.top key hkey),
    fun name hname => (h'.entry name hname).trans (h.entry name hname)⟩

theorem Frame.mono {names' : List String} (h : Frame names f f') (hsub : names ⊆ names') :
    Frame names' f f' :=
  ⟨h.top, fun name hname => h.entry name fun hmem => hname (hsub hmem)⟩

theorem frame_put (h : ∀ name, name ∉ names → serverEntry name f = table.lookup name) :
    Frame names f (.content (some (put tableKey (.table table) (rawOf f)))) := by
  refine ⟨fun key hkey => ?_, fun name hname => ?_⟩
  · rw [top, rawOf, lookup_put, if_neg hkey]
    rfl
  · rw [h name hname, serverEntry, rawOf, getCodexMCPServers, lookup_put, if_pos rfl]
    rfl

theorem lookup_addEntries (h : name ∉ servers.map ManagedServer.name) :
    (addEntries apiKey servers table).lookup name = table.lookup name := by
  induction servers generalizing table with
  | nil => rfl
  | cons s servers ih => ?_
  rw [map_cons, mem_cons, not_or] at h
  have hstep : addEntries apiKey (s :: servers) table =
      addEntries apiKey servers (put s.name (entry apiKey s) table) := rfl
  rw [hstep, ih h.2, lookup_put, if_neg h.1]

theorem rawOf_eq {loaded : Option (List (String × Value))} (h : loadCodexConfig f = .ok loaded) :
    loaded.getD [] = rawOf f := by
  cases f with
  | missing =>
    cases h
    rfl
  | unreadable there => cases h
  | content c =>
    cases c with
    | none => cases h
    | some raw =>
      cases h
      rfl

/-- **Writing changes only the entries that are written.** -/
theorem write_frame (h : write apiKey servers f = .ok raw) :
    Frame (servers.map ManagedServer.name) f (.content (some raw)) := by
  unfold write at h
  split at h
  · cases h
  next loaded hload =>
  cases h
  rw [rawOf_eq hload]
  refine frame_put fun name hname => ?_
  rw [lookup_addEntries hname, serverEntry]
  cases getCodexMCPServers (rawOf f) with
  | none | some _ => rfl

/-- **Removing changes only the entries that are removed.** -/
theorem remove_frame (h : remove names f = .ok (some raw)) :
    Frame names f (.content (some raw)) := by
  unfold remove at h
  split at h
  · cases h
  · cases h
  next old hload =>
  have hraw : old = rawOf f := rawOf_eq hload
  split at h
  · split at h
    · cases h
    · cases h
  next table htable =>
  split at h
  · obtain rfl := some.inj (Except.ok.inj h)
    rw [hraw]
    refine frame_put fun name hname => ?_
    have hkept : (!names.contains name) = true := by simpa using hname
    rw [lookup_filter table (fun a => !names.contains a), if_pos hkept, serverEntry, ← hraw, htable]
    rfl
  · cases h

end Codex

end ArcRelay.Cli
