import ArcRelay.Lib.JsonWrite
import ArcRelay.Mcp.Enumerate
import ArcRelay.Server.Proxy

/-!
# What a user is shown of a server

A user with a profile sees of the tools, resources and prompts of a server only those the
profile grants (`filterListResponse` in `internal/server/http.go`): the relay decodes the
result of a list request, drops the items whose name is not among the permitted ones, and
writes the result anew.  Whether a call goes through is decided elsewhere, by a query for one
row (`checkEndpointAccess`).

The two agree.  The result is decoded into a map of texts and written again, so an item that
stays is copied, not kept: what it stands for is the same, and so is what every other field
of the result stands for.

* `filterListResponse`: the response as the user gets it.
* `discovery_matches_invocation`: what is shown can be called, and what can be called is shown.
-/

namespace ArcRelay.Proxy

open Access Json Mcp List

/-! ### The filter -/

/-- The list a method asks for: the type of its endpoints, its key in the result, and the
key of a name in an item. -/
def listKind (method : String) : Option (EndpointType × String × String) :=
  if method = "tools/list" then some (.tool, "tools", "name")
  else if method = "resources/list" then some (.resource, "resources", "uri")
  else if method = "prompts/list" then some (.prompt, "prompts", "name")
  else none

def getPermissionsForServer (permissions : List ProfilePermission) (profileID serverID : String) :
    List ProfilePermission :=
  permissions.filter fun p => p.profileID = profileID ∧ p.serverID = serverID

def permSet (permissions : List ProfilePermission) (profileID serverID : String)
    (type : EndpointType) : List String :=
  ((getPermissionsForServer permissions profileID serverID).filter fun p =>
    p.endpoint.endpointType = type).map (·.endpoint.name)

/-- The items of a list; `null` decodes into an empty one. -/
def itemsOf (text : Bytes) : Option (List Bytes) :=
  match parse text with
  | some (.array items) => some items
  | some .null => some []
  | _ => none

/-- The name of an item, decoded into a string; `null` leaves the string empty. -/
def itemName (nameField : String) (item : Bytes) : Option String :=
  ((members item).bind (exactField nameField)).bind fun nameRaw =>
    match parse nameRaw with
    | some (.string s) => some s
    | some .null => some ""
    | _ => none

def survives (permitted : List String) (nameField : String) (item : Bytes) : Bool :=
  (itemName nameField item).any (· ∈ permitted)

/-- The response as the user gets it; `readFails` says whether the permissions cannot be
read. -/
def filterListResponse (s : Server) (readFails : Bool) (resp : Response) (method : String)
    (user : User) (serverID : String) : Response :=
  if resp.error.isSome then resp
  else
    match user.profileID with
    | none => resp
    | some profileID =>
      if user.role = "admin" then resp
      else
        match listKind method with
        | none => resp
        | some (type, listKey, nameField) =>
          if readFails then resp
          else
            match members resp.result with
            | none => resp
            | some result =>
              match exactField listKey result with
              | none => resp
              | some listRaw =>
                match itemsOf listRaw with
                | none => resp
                | some items =>
                  let permitted := permSet s.permissions profileID serverID type
                  let filtered := items.filter (survives permitted nameField)
                  { resp with
                    result := writeObject (mapOf (result ++ [(listKey, writeArray filtered)])) }

/-! ### The filter and the check -/

def Named (nameField : String) (item : Bytes) (n : String) : Prop :=
  ∃ ms, parse item = some (.object ms) ∧ (exactField nameField ms).bind stringOf = some n

variable {n : String}

theorem itemName_of_named {nameField : String} {item : Bytes} (h : Named nameField item n) :
    itemName nameField item = some n := by
  obtain ⟨ms, hms, hn⟩ := h
  obtain ⟨nameRaw, hraw, hname⟩ := Option.bind_eq_some_iff.mp hn
  rw [itemName, members, hms]
  rw [Option.bind_some, hraw, Option.bind_some]
  unfold stringOf at hname
  split at hname
  · next s hparse =>
    rw [hparse]
    exact hname
  · cases hname

theorem mem_permSet {permissions : List ProfilePermission} {profileID serverID : String}
    {type : EndpointType} :
    n ∈ permSet permissions profileID serverID type ↔
      checkPermission permissions profileID serverID ⟨type, n⟩ = true := by
  unfold permSet getPermissionsForServer checkPermission
  simp only [mem_map, mem_filter, decide_eq_true_eq, countP_pos_iff]
  constructor
  · rintro ⟨⟨p, sid, ⟨t, name⟩⟩, ⟨⟨hp, hprofile, hserver⟩, htype⟩, hname⟩
    dsimp only at hprofile hserver htype hname
    exact ⟨_, hp, by rw [hprofile, hserver, htype, hname]⟩
  · rintro ⟨p, hp, rfl⟩
    exact ⟨_, ⟨⟨hp, rfl, rfl⟩, rfl⟩, rfl⟩

section

variable {s : Server} {user : User} {profileID serverID nameField : String} {type : EndpointType}
  {item : Bytes}

/-- **The filter keeps what the check lets pass.** -/
theorem survives_iff (hrole : user.role ≠ "admin") (hprofile : user.profileID = some profileID)
    (hn : n ≠ "") (hname : Named nameField item n) {r : Request}
    (hr : extractEndpointName r.message = some ⟨type, n⟩) :
    survives (permSet s.permissions profileID serverID type) nameField item = true ↔
      checkEndpointAccess s user serverID r = none := by
  rw [checkEndpointAccess_eq_none hrole, survives, itemName_of_named hname, Option.any_some,
    decide_eq_true_eq, mem_permSet]
  constructor
  · intro h e he
    rw [hr] at he
    rw [← Option.some.inj he]
    refine Or.inr ?_
    rw [User.permitted, hprofile]
    exact h
  · intro h
    have hperm := (h _ hr).resolve_left hn
    rw [User.permitted, hprofile] at hperm
    exact hperm

end

def callRequest (e : Endpoint) : Request :=
  match e.endpointType with
  | .tool => ⟨"2.0", some (utf8 "1"), "tools/call", some (writeObject [("name", quote e.name)])⟩
  | .resource =>
    ⟨"2.0", some (utf8 "1"), "resources/read", some (writeObject [("uri", quote e.name)])⟩
  | .prompt => ⟨"2.0", some (utf8 "1"), "prompts/get", some (writeObject [("name", quote e.name)])⟩

theorem extractEndpointName_callRequest (e : Endpoint) :
    extractEndpointName (callRequest e).message = some e := by
  have hfield : ∀ key, decodeName key (some (writeObject [(key, quote e.name)])) = e.name := by
    intro key
    have hparse : parse (writeObject [(key, quote e.name)]) =
        some (.object [(key, compact (quote e.name))]) :=
      (text_writeObject (d := maxNestingDepth - 1)
        (forall_mem_singleton.mpr ⟨_, text_quote _ e.name⟩)).parse
    have hvalue : parse (compact (quote e.name)) = some (.string e.name) :=
      parse_compact (text_quote maxNestingDepth e.name).parse
    have hmatch : matchesField key key = true := by simp [matchesField]
    have hstring : stringOf (compact (quote e.name)) = some e.name := by
      rw [stringOf, hvalue]
    have hms : stringField key [(key, compact (quote e.name))] = (e.name, true) :=
      stringMember_of_string hmatch hstring ("", true)
    rw [decodeName, Option.bind_some, members, hparse]
    dsimp only
    rw [hms]
    rfl
  obtain ⟨type, name⟩ := e
  cases type with
  | tool => exact congrArg (fun n => some (Endpoint.mk .tool n)) (hfield "name")
  | resource => exact congrArg (fun n => some (Endpoint.mk .resource n)) (hfield "uri")
  | prompt => exact congrArg (fun n => some (Endpoint.mk .prompt n)) (hfield "name")

/-! ### The result, written anew -/

/-- The text is an object with a list of these items, each with the value it had, and with
every other field as it was in the result. -/
def Shown (listKey : String) (result : List (String × Bytes)) (items : List Bytes)
    (text : Bytes) : Prop :=
  ∃ result' listRaw' items', parse text = some (.object result') ∧
    exactField listKey result' = some listRaw' ∧ parse listRaw' = some (.array items') ∧
    List.Forall₂ Same items items' ∧
    ∀ k, k ≠ listKey → Option.Rel Same (exactField k result) (exactField k result')

section

variable {result : List (String × Bytes)} {listKey : String} {listRaw text : Bytes}
  {items : List Bytes}

theorem isText_of_itemsOf (hresult : parse text = some (.object result))
    (hlist : exactField listKey result = some listRaw) (hitems : itemsOf listRaw = some items) :
    ∀ item ∈ items, IsText (maxNestingDepth - 2) item := by
  obtain ⟨v, hv⟩ := isText_of_members hresult _ (mem_of_exactField hlist)
  have hparse := (hv.mono (Nat.sub_le _ _)).parse
  rw [itemsOf, hparse] at hitems
  split at hitems
  · next items' hv' =>
    cases hv'
    cases hitems
    exact (Text.parts (d := maxNestingDepth - 2) hv).1 _ rfl
  · cases hitems
    exact nofun
  · cases hitems

/-- **What the filter writes is read as it was meant.** -/
theorem shown_writeObject (hresult : ∀ m ∈ result, IsText (maxNestingDepth - 1) m.2)
    (hitems : ∀ item ∈ items, IsText (maxNestingDepth - 2) item) :
    Shown listKey result items (writeObject (mapOf (result ++ [(listKey, writeArray items)]))) := by
  have harray := text_writeArray hitems
  have hmembers : ∀ m ∈ mapOf (result ++ [(listKey, writeArray items)]),
      IsText (maxNestingDepth - 1) m.2 := by
    intro m hm
    rcases mem_append.mp (mem_mapOf hm) with hm | hm
    · exact hresult m hm
    rw [mem_singleton.mp hm]
    exact ⟨_, harray⟩
  have hfield : ∀ k, exactField k ((mapOf (result ++ [(listKey, writeArray items)])).map
      fun m => (m.1, compact m.2)) =
        ((if listKey = k then some (writeArray items) else none).or (exactField k result)).map
          compact := by
    intro k
    rw [exactField_map, exactField_mapOf, exactField_append]
    rfl
  refine ⟨_, compact (writeArray items), (items.map compact).map compact,
    (text_writeObject (d := maxNestingDepth - 1) hmembers).parse, ?_,
    parse_compact (harray.mono (by decide)).parse, ?_, ?_⟩
  · rw [hfield, if_pos rfl]
    rfl
  · rw [map_map, forall₂_map_right_iff, forall₂_same]
    intro item hitem
    have htext := hitems item hitem
    exact (htext.same_compact (Nat.sub_le _ _)).trans (htext.compact.same_compact (Nat.sub_le _ _))
  intro k hk
  rw [hfield, if_neg (Ne.symm hk), Option.none_or]
  cases h : exactField k result with
  | none => exact .none
  | some v => exact .some ((hresult _ (mem_of_exactField h)).same_compact (Nat.sub_le _ _))

end

section

variable {s : Server} {user : User} {profileID serverID method listKey nameField : String}
  {type : EndpointType} {resp : Response} {result : List (String × Bytes)} {listRaw : Bytes}
  {items : List Bytes}

theorem filterListResponse_eq (hprofile : user.profileID = some profileID)
    (hrole : user.role ≠ "admin") (hkind : listKind method = some (type, listKey, nameField))
    (herror : resp.error = none) (hresult : parse resp.result = some (.object result))
    (hlist : exactField listKey result = some listRaw) (hitems : itemsOf listRaw = some items) :
    filterListResponse s false resp method user serverID =
      { resp with
        result := writeObject (mapOf (result ++ [(listKey, writeArray (items.filter
          (survives (permSet s.permissions profileID serverID type) nameField)))])) } := by
  have hmembers : members resp.result = some result := by rw [members, hresult]
  unfold filterListResponse
  rw [if_neg (by rw [herror]; exact Bool.false_ne_true), hprofile]
  dsimp only
  rw [if_neg hrole, hkind]
  dsimp only
  rw [if_neg Bool.false_ne_true, hmembers]
  dsimp only
  rw [hlist]
  dsimp only
  rw [hitems]

/-- **What is shown can be called, and what can be called is shown.**  For a user with a
profile who is not an admin, of the items of a list result that have a name the response
keeps those whose endpoint the user may call; the items that stay keep their values and their
order, and the other fields of the result their values. -/
theorem discovery_matches_invocation (hprofile : user.profileID = some profileID)
    (hrole : user.role ≠ "admin") (hkind : listKind method = some (type, listKey, nameField))
    (herror : resp.error = none) (hresult : parse resp.result = some (.object result))
    (hlist : exactField listKey result = some listRaw) (hitems : itemsOf listRaw = some items) :
    ∃ (keep : Bytes → Bool) (text : Bytes),
      (∀ item ∈ items, ∀ n, n ≠ "" → Named nameField item n →
        (∃ r : Request, extractEndpointName r.message = some ⟨type, n⟩) ∧
        ∀ r : Request, extractEndpointName r.message = some ⟨type, n⟩ →
          (keep item = true ↔ checkEndpointAccess s user serverID r = none)) ∧
      filterListResponse s false resp method user serverID = { resp with result := text } ∧
      Shown listKey result (items.filter keep) text := by
  refine ⟨survives (permSet s.permissions profileID serverID type) nameField, _, ?_,
    filterListResponse_eq hprofile hrole hkind herror hresult hlist hitems,
    shown_writeObject (isText_of_members hresult) ?_⟩
  · intro item _ n hn hname
    exact ⟨⟨_, extractEndpointName_callRequest ⟨type, n⟩⟩,
      fun r hr => survives_iff hrole hprofile hn hname hr⟩
  · intro item hitem
    exact isText_of_itemsOf hresult hlist hitems item (mem_filter.mp hitem).1

end

def readOnly : Server where
  servers := []
  backends := []
  tiers := { rows := [⟨"files", ⟨.tool, "delete"⟩, .admin, true⟩], keys := nodup_singleton _ }
  permissions := [⟨"viewer", "files", ⟨.tool, "read"⟩⟩]

def viewer : User := { role := "user", accessLevel := .read, profileID := some "viewer" }

def twoTools : List (String × Bytes) :=
  [("tools", utf8 "[\x7b\"name\":\"read\"\x7d, \x7b\"name\":\"delete\"\x7d]"),
    ("nextCursor", utf8 "\"a\"")]

theorem discovery_of_readOnly : ∃ (keep : Bytes → Bool) (text : Bytes),
    (∀ item ∈ [utf8 "\x7b\"name\":\"read\"\x7d", utf8 "\x7b\"name\":\"delete\"\x7d"],
      ∀ n, n ≠ "" → Named "name" item n →
        (∃ r : Request, extractEndpointName r.message = some ⟨.tool, n⟩) ∧
        ∀ r : Request, extractEndpointName r.message = some ⟨.tool, n⟩ →
          (keep item = true ↔ checkEndpointAccess readOnly viewer "files" r = none)) ∧
      filterListResponse readOnly false ⟨none, writeObject twoTools⟩ "tools/list" viewer "files" =
        ⟨none, text⟩ ∧
      Shown "tools" (twoTools.map fun m => (m.1, compact m.2))
        ([utf8 "\x7b\"name\":\"read\"\x7d", utf8 "\x7b\"name\":\"delete\"\x7d"].filter keep)
        text :=
  discovery_matches_invocation rfl (by decide) rfl rfl (by decide +kernel)
    (show exactField "tools" (twoTools.map fun m => (m.1, compact m.2)) =
      some (compact (utf8 "[\x7b\"name\":\"read\"\x7d, \x7b\"name\":\"delete\"\x7d]"))
      by decide +kernel)
    (by decide +kernel)

end ArcRelay.Proxy
