import ArcRelay.Lib.Lines
import ArcRelay.Mcp.Protocol
import Mathlib.Data.Int.Notation

/-!
# What a server offers

After a server has started the relay asks it for its tools, resources and prompts
(`internal/mcp/enumerate.go`) and gives each of them an access tier by the words in its
name and description (`internal/mcp/classify.go`).

A list is asked for only if the server has announced the capability, and a list that
cannot be had is left empty: the result does not tell an empty list from a failure.
`fetched` is the list with that difference kept.  How `encoding/json` decodes the results
and how letters outside ASCII are lower-cased are parameters.

* `enumerate`: the list of what is offered.
* `FirstIsSegment`: the first occurrence of a keyword is a segment.
* `containsWord_iff`: keywords are found by their first occurrence.
-/

namespace ArcRelay.Mcp

open Access Json Lines List

/-! ### Answers -/

structure RPCError where
  code : ℤ
  message : String
  deriving DecidableEq

structure Response where
  error : Option RPCError := none
  result : Bytes := []
  deriving DecidableEq

abbrev Sender := Request → Except String Response

structure ServerInfo where
  name : String := ""
  version : String := ""

/-- The capabilities are the keys of the object. -/
structure InitializeResult where
  capabilities : List String
  serverInfo : ServerInfo

structure Tool where
  name : String
  description : String

structure Resource where
  uri : String
  description : String

structure Prompt where
  name : String
  description : String

structure ServerEndpoints where
  serverInfo : ServerInfo := {}
  tools : List Tool := []
  resources : List Resource := []
  prompts : List Prompt := []
  initialized : Bool := false
  error : String := ""

structure Decoders where
  initializeResult : Bytes → Except String InitializeResult
  toolsListResult : Bytes → Except String (List Tool)
  resourcesListResult : Bytes → Except String (List Resource)
  promptsListResult : Bytes → Except String (List Prompt)

/-! ### The requests -/

def newRequest (id method : String) (params : Option Bytes) : Request :=
  ⟨"2.0", some (utf8 id), method, params⟩

def initializeParams : Bytes :=
  utf8 ("\x7b\"protocolVersion\":\"2024-11-05\",\"capabilities\":\x7b\x7d," ++
    "\"clientInfo\":\x7b\"name\":\"arc-relay\",\"version\":\"0.1.0\"\x7d\x7d")

section

variable (dec : Decoders) (send : Sender)

def doInitialize : Except String InitializeResult :=
  match send (newRequest "1" "initialize" (some initializeParams)) with
  | .error err => .error ("sending initialize: " ++ err)
  | .ok resp =>
    match resp.error with
    | some e => .error ("initialize error " ++ toString e.code ++ ": " ++ e.message)
    | none =>
      match dec.initializeResult resp.result with
      | .error err => .error ("parsing initialize result: " ++ err)
      | .ok init => .ok init

def doList {α : Type} (id method what : String) (decode : Bytes → Except String α) :
    Except String α :=
  match send (newRequest id method none) with
  | .error err => .error err
  | .ok resp =>
    match resp.error with
    | some e => .error ("error " ++ toString e.code ++ ": " ++ e.message)
    | none =>
      match decode resp.result with
      | .error err => .error ("parsing " ++ what ++ " list: " ++ err)
      | .ok l => .ok l

def doListTools : Except String (List Tool) :=
  doList send "2" "tools/list" "tools" dec.toolsListResult

def doListResources : Except String (List Resource) :=
  doList send "3" "resources/list" "resources" dec.resourcesListResult

def doListPrompts : Except String (List Prompt) :=
  doList send "4" "prompts/list" "prompts" dec.promptsListResult

/-- The tools, if they are supported; a failure is only noted. -/
def enumerateTools (init : InitializeResult) (endpoints : ServerEndpoints) : ServerEndpoints :=
  if "tools" ∈ init.capabilities then
    match doListTools dec send with
    | .error err => { endpoints with error := "tools/list failed: " ++ err }
    | .ok tools => { endpoints with tools := tools }
  else endpoints

def enumerateResources (init : InitializeResult) (endpoints : ServerEndpoints) : ServerEndpoints :=
  if "resources" ∈ init.capabilities then
    match doListResources dec send with
    | .error err => { endpoints with error := "resources/list failed: " ++ err }
    | .ok resources => { endpoints with resources := resources }
  else endpoints

/-- The prompts, if they are supported; a failure is not even noted. -/
def enumeratePrompts (init : InitializeResult) (endpoints : ServerEndpoints) : ServerEndpoints :=
  if "prompts" ∈ init.capabilities then
    match doListPrompts dec send with
    | .error _ => endpoints
    | .ok prompts => { endpoints with prompts := prompts }
  else endpoints

/-- `Enumerate`: what was found, in any case, and the error. -/
def enumerate : ServerEndpoints × Option String :=
  match doInitialize dec send with
  | .error err => ({ error := "initialize failed: " ++ err }, some err)
  | .ok init =>
    let endpoints := { serverInfo := init.serverInfo, initialized := true }
    (enumeratePrompts dec send init
      (enumerateResources dec send init (enumerateTools dec send init endpoints)), none)

end

/-! ### The endpoints found -/

structure EndpointInfo where
  endpoint : Endpoint
  description : String

def Tool.info (t : Tool) : EndpointInfo := ⟨⟨.tool, t.name⟩, t.description⟩

def Resource.info (r : Resource) : EndpointInfo := ⟨⟨.resource, r.uri⟩, r.description⟩

def Prompt.info (p : Prompt) : EndpointInfo := ⟨⟨.prompt, p.name⟩, p.description⟩

def ServerEndpoints.infos (endpoints : ServerEndpoints) : List EndpointInfo :=
  endpoints.tools.map Tool.info ++ endpoints.resources.map Resource.info ++
    endpoints.prompts.map Prompt.info

section

variable (dec : Decoders) (send : Sender)

def capability : EndpointType → String
  | .tool => "tools"
  | .resource => "resources"
  | .prompt => "prompts"

def listing : EndpointType → Except String (List EndpointInfo)
  | .tool => (doListTools dec send).map (List.map Tool.info)
  | .resource => (doListResources dec send).map (List.map Resource.info)
  | .prompt => (doListPrompts dec send).map (List.map Prompt.info)

def given (init : InitializeResult) (t : EndpointType) : Option (List EndpointInfo) :=
  if capability t ∈ init.capabilities then (listing dec send t).toOption else none

def fetched (t : EndpointType) : Option (List EndpointInfo) :=
  (doInitialize dec send).toOption.bind fun init => given dec send init t

def found : List EndpointInfo :=
  (fetched dec send .tool).getD [] ++ (fetched dec send .resource).getD [] ++
    (fetched dec send .prompt).getD []

variable {dec send} {ep : EndpointInfo} {t : EndpointType} {l : List EndpointInfo}

theorem endpointType_of_listing (h : listing dec send t = .ok l) (hep : ep ∈ l) :
    ep.endpoint.endpointType = t := by
  -- a list of a type is made of the records of that type only
  have hmap : ∀ {α : Type} (r : Except String (List α)) (f : α → EndpointInfo),
      (∀ a, (f a).endpoint.endpointType = t) → r.map (List.map f) = .ok l →
        ep.endpoint.endpointType = t := by
    intro α r f hf hr
    cases r with
    | error err => simp [Except.map] at hr
    | ok as => ?_
    simp only [Except.map, Except.ok.injEq] at hr
    obtain ⟨a, -, rfl⟩ := mem_map.mp (hr ▸ hep)
    exact hf a
  cases t with
  | tool | resource | prompt => exact hmap _ _ (fun _ => rfl) h

theorem endpointType_of_fetched (h : fetched dec send t = some l) (hep : ep ∈ l) :
    ep.endpoint.endpointType = t := by
  obtain ⟨init, -, hgiven⟩ := Option.bind_eq_some_iff.mp h
  unfold given at hgiven
  split at hgiven
  · cases hl : listing dec send t with
    | error err => simp [hl, Except.toOption] at hgiven
    | ok l' => ?_
    rw [hl] at hgiven
    obtain rfl : l' = l := Option.some.inj hgiven
    exact endpointType_of_listing hl hep
  · cases hgiven

section

variable (dec send) (init : InitializeResult) (ep : ServerEndpoints)

theorem enumerateTools_spec :
    (enumerateTools dec send init ep).tools.map Tool.info =
      (given dec send init .tool).getD (ep.tools.map Tool.info) ∧
    (enumerateTools dec send init ep).resources = ep.resources ∧
    (enumerateTools dec send init ep).prompts = ep.prompts := by
  unfold enumerateTools given
  rw [capability, listing]
  split
  · cases doListTools dec send with
    | error _ | ok _ => exact ⟨rfl, rfl, rfl⟩
  · exact ⟨rfl, rfl, rfl⟩

theorem enumerateResources_spec :
    (enumerateResources dec send init ep).resources.map Resource.info =
      (given dec send init .resource).getD (ep.resources.map Resource.info) ∧
    (enumerateResources dec send init ep).tools = ep.tools ∧
    (enumerateResources dec send init ep).prompts = ep.prompts := by
  unfold enumerateResources given
  rw [capability, listing]
  split
  · cases doListResources dec send with
    | error _ | ok _ => exact ⟨rfl, rfl, rfl⟩
  · exact ⟨rfl, rfl, rfl⟩

theorem enumeratePrompts_spec :
    (enumeratePrompts dec send init ep).prompts.map Prompt.info =
      (given dec send init .prompt).getD (ep.prompts.map Prompt.info) ∧
    (enumeratePrompts dec send init ep).tools = ep.tools ∧
    (enumeratePrompts dec send init ep).resources = ep.resources := by
  unfold enumeratePrompts given
  rw [capability, listing]
  split
  · cases doListPrompts dec send with
    | error _ | ok _ => exact ⟨rfl, rfl, rfl⟩
  · exact ⟨rfl, rfl, rfl⟩

end

/-- **The endpoints found are those of the lists that were had.** -/
theorem infos_enumerate : (enumerate dec send).1.infos = found dec send := by
  unfold enumerate found fetched
  cases doInitialize dec send with
  | error err => rfl
  | ok init => ?_
  -- each step fills in its own list and leaves the other two
  let ep0 : ServerEndpoints := { serverInfo := init.serverInfo, initialized := true }
  let ep1 := enumerateTools dec send init ep0
  let ep2 := enumerateResources dec send init ep1
  obtain ⟨htools, hr1, hp1⟩ := enumerateTools_spec dec send init ep0
  obtain ⟨hresources, ht2, hp2⟩ := enumerateResources_spec dec send init ep1
  obtain ⟨hprompts, ht3, hr3⟩ := enumeratePrompts_spec dec send init ep2
  rw [ServerEndpoints.infos, ht3, hr3, hprompts, hp2, hp1, ht2, htools, hresources, hr1]
  rfl

theorem mem_found : ep ∈ found dec send ↔
    ∃ l, fetched dec send ep.endpoint.endpointType = some l ∧ ep ∈ l := by
  have hgetD : ∀ t, ep ∈ (fetched dec send t).getD [] ↔
      ep.endpoint.endpointType = t ∧ ∃ l, fetched dec send t = some l ∧ ep ∈ l := by
    intro t
    cases ht : fetched dec send t with
    | none => simp
    | some l => simpa using endpointType_of_fetched ht
  rw [found, mem_append, mem_append, hgetD, hgetD, hgetD]
  cases ep.endpoint.endpointType <;> simp

end

/-! ### Tiers by keywords -/

def readKeywords : List String :=
  ["get", "list", "search", "find", "read", "fetch", "query", "show", "describe", "status",
    "check", "count", "view", "lookup"]

def adminKeywords : List String :=
  ["delete", "remove", "destroy", "drop", "purge", "reset", "execute", "run_command", "deploy",
    "install", "uninstall", "reboot", "shutdown", "restart", "kill"]

def isBoundary (c : Char) : Bool := c == '_' || c == '-'

/-- Whether the first occurrence of the keyword stands between boundaries. -/
def containsWord (name keyword : List Char) : Bool :=
  match index name keyword with
  | none => false
  | some i =>
    (i == 0 || (name[i - 1]?).any isBoundary) && (name[i + keyword.length]?).all isBoundary

/-- `strings.ToLower`, with the table for what is not ASCII. -/
def toLower (lower : Char → Char) (s : String) : List Char :=
  s.toList.map fun c => if c.val < 128 then c.toLower else lower c

def contains (s : List Char) (text : String) : Bool := (index s text.toList).isSome

def classifyEndpoint (lower : Char → Char) (ep : EndpointInfo) : Tier :=
  match ep.endpoint.endpointType with
  | .resource | .prompt => .read
  | .tool =>
    let name := toLower lower ep.endpoint.name
    let description := toLower lower ep.description
    if adminKeywords.any fun kw => containsWord name kw.toList then .admin
    else if readKeywords.any fun kw => containsWord name kw.toList then .read
    else if contains description "retrieves" || contains description "returns" then .read
    else if contains description "deletes" || contains description "destroys" ||
        contains description "executes" then .admin
    else .write

/-- The keyword stands at `i`. -/
abbrev OccursAt (name keyword : List Char) (i : ℕ) : Prop :=
  i ≤ name.length ∧ keyword.isPrefixOf (name.drop i) = true

/-- And each side is an end of the name or a boundary. -/
abbrev SegmentAt (name keyword : List Char) (i : ℕ) : Prop :=
  OccursAt name keyword i ∧
    (i == 0 || (name[i - 1]?).any isBoundary) && (name[i + keyword.length]?).all isBoundary

/-- The first occurrence is a segment. -/
def FirstIsSegment (name keyword : List Char) : Prop :=
  ∃ i, SegmentAt name keyword i ∧ ∀ j < i, ¬ OccursAt name keyword j

theorem containsWord_eq_true {name keyword : List Char} :
    containsWord name keyword = true ↔ FirstIsSegment name keyword := by
  rw [containsWord, index_eq_find]
  constructor
  · intro h
    split at h
    · cases h
    next i hi =>
    obtain ⟨hpre, hle, hless⟩ := find?_range_eq_some.mp hi
    refine ⟨i, ⟨⟨Nat.lt_succ_iff.mp (mem_range.mp hle), hpre⟩, h⟩, fun j hj hocc => ?_⟩
    simpa [hocc.2] using hless j hj
  rintro ⟨j, hj, hfirst⟩
  have hmem := mem_range.mpr (Nat.lt_succ_iff.mpr hj.1.1)
  split
  · next hnone => exact absurd hj.1.2 (find?_eq_none.mp hnone j hmem)
  next i hi =>
  obtain ⟨hpre, hle, hless⟩ := find?_range_eq_some.mp hi
  rcases Nat.lt_trichotomy i j with hlt | rfl | hgt
  · exact absurd ⟨Nat.lt_succ_iff.mp (mem_range.mp hle), hpre⟩ (hfirst i hlt)
  · exact hj.2
  · simpa [hj.1.2] using hless j hgt

/-- The description makes an admin tool of one whose name has no keyword. -/
def DescribedAsAdmin (lower : Char → Char) (description : String) : Prop :=
  let text := toLower lower description
  (contains text "retrieves" || contains text "returns") = false ∧
    (contains text "deletes" || contains text "destroys" || contains text "executes") = true

/-- **A keyword is found as a segment** if and only if its first occurrence is one or none is.  So
a tool with an admin keyword as a segment is an admin tool if and only if such a keyword has a
segment for its first occurrence, or no read keyword has and the description says so. -/
theorem containsWord_iff (word keyword : List Char) (lower : Char → Char)
    (name description : String) :
    ((containsWord word keyword = true ↔ ∃ i, SegmentAt word keyword i) ↔
      ((∃ i, SegmentAt word keyword i) → FirstIsSegment word keyword)) ∧
    let text := toLower lower name
    (((∃ kw ∈ adminKeywords, ∃ i, SegmentAt text kw.toList i) →
        classifyEndpoint lower ⟨⟨.tool, name⟩, description⟩ = .admin) ↔
      ((∃ kw ∈ adminKeywords, ∃ i, SegmentAt text kw.toList i) →
        (∃ kw ∈ adminKeywords, FirstIsSegment text kw.toList) ∨
          (∀ kw ∈ readKeywords, ¬ FirstIsSegment text kw.toList) ∧
            DescribedAsAdmin lower description)) := by
  constructor
  · rw [containsWord_eq_true]
    exact ⟨fun h => h.mpr, fun h => ⟨fun ⟨i, hi, _⟩ => ⟨i, hi⟩, h⟩⟩
  · intro text
    refine forall_congr' fun _ => ?_
    have hany : ∀ kws : List String, (kws.any fun kw => containsWord text kw.toList) = true ↔
        ∃ kw ∈ kws, FirstIsSegment text kw.toList := by
      simp only [any_eq_true, containsWord_eq_true, implies_true]
    rw [classifyEndpoint]
    dsimp only
    by_cases hadmin : ∃ kw ∈ adminKeywords, FirstIsSegment text kw.toList
    · rw [if_pos ((hany _).mpr hadmin)]
      exact iff_of_true rfl (.inl hadmin)
    rw [if_neg (mt (hany _).mp hadmin), or_iff_right hadmin]
    by_cases hread : ∃ kw ∈ readKeywords, FirstIsSegment text kw.toList
    · rw [if_pos ((hany _).mpr hread)]
      obtain ⟨kw, hkw, hfirst⟩ := hread
      exact iff_of_false nofun fun h => h.1 kw hkw hfirst
    rw [if_neg (mt (hany _).mp hread), and_iff_right (by simpa using hread), DescribedAsAdmin]
    split
    · next h => exact iff_of_false nofun (by simp [h])
    next hnot =>
    split
    · next h => exact iff_of_true rfl ⟨by simpa using hnot, h⟩
    · next h => exact iff_of_false nofun fun hsays => h hsays.2

/-- **The first occurrence is part of a word**, and the segment behind it is not seen. -/
theorem containsWord_misses :
    SegmentAt "undelete_delete".toList "delete".toList 9 ∧
      containsWord "undelete_delete".toList "delete".toList = false ∧
      classifyEndpoint id ⟨⟨.tool, "undelete_delete"⟩, ""⟩ = .write := by
  decide +kernel

end ArcRelay.Mcp
