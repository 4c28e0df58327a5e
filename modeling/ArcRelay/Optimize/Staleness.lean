import Mathlib.Data.List.Chain
import ArcRelay.Optimize.Runs
import ArcRelay.Server.Pipeline

/-!
# Optimised tools and their lists

A ready optimisation has the hash of the tools it was made for.  Whoever sees a list of the tools
of the server compares: the enumeration with the tools of the first answer to `tools/list`
(`doListTools`, `EnumerateServer`), and the optimizer with what the response middleware has left of
the answer to a client (`internal/middleware/optimizer.go`).  A list with another hash makes the
optimisation stale, and is served as it is.

So a page of the list, or a list in which the middleware has changed a text, counts as a change of
the tools.

## Main definitions

* `decodeToolsListResult`: how a list of tools is read.
* `Listing`, `Codec.exec`: the lists that are seen, and what becomes of the record.
* `Listing.Whole`: a list that the server gives on one page and the middleware leaves.

## Main results

* `hashTools_eq_iff`: when equal hashes are equal tools.
* `optimizeTools_perm`: the answers of the model are the tools it was given.
* `exec_ready`: whole lists leave a record ready, and are served with its tools.
-/

namespace ArcRelay.Optimize

open Json List Mcp Pipeline

def Status.text : Status → String
  | .running => "running"
  | .ready => "ready"
  | .stale => "stale"
  | .error => "error"

/-- The checks of `OptimizeTools` on what the model has sent. -/
def verified (tools optimized : List Tool) : Bool :=
  optimized.length = tools.length ∧ (∀ t ∈ optimized, t.name ∈ tools.map Tool.name) ∧
    (optimized.map Tool.name).Nodup

/-! ### Lists of tools -/

/-- An element of a list, decoded into a tool that is there; `null` leaves it as it is. -/
def decodeTool (old : Tool) (text : Bytes) : Option Tool :=
  match members text with
  | none => none
  | some ms =>
    let (name, okName) := ms.foldl (stringMember "name") (old.name, true)
    let (description, okDescription) :=
      ms.foldl (stringMember "description") (old.description, true)
    if okName && okDescription then
      some ⟨name, description, (rawField "inputSchema" ms).getD old.inputSchema⟩
    else none

/-- `json.Unmarshal` into a slice of tools; an element that is there already is decoded into. -/
def decodeToolList (old : List Tool) (text : Bytes) : Option (List Tool) :=
  match parse text with
  | some .null => some []
  | some (.array items) =>
    items.zipIdx.mapM fun item => decodeTool (old.getD item.2 ⟨"", "", []⟩) item.1
  | _ => none

/-- `json.Unmarshal` into a `ToolsListResult`. -/
def decodeToolsListResult (text : Bytes) : Option (List Tool) :=
  (members text).bind fun ms => ms.foldlM
    (fun tools m => if matchesField "tools" m.1 then decodeToolList tools m.2 else some tools) []

/-- What is left open: the digest and the order of tools of one name, and how tools are written. -/
structure Codec where
  hasher : Hasher
  marshalTools : List Tool → Bytes

/-- A list of the tools of the server that somebody sees. -/
inductive Listing where
  | enumerate (answer : FullResponse)
  /-- The answer to a client, and the middleware that it goes through. -/
  | exchange (t : Texts) (about : RequestMeta) (pipeline : List Middleware) (req : Mcp.Request)
      (answer : FullResponse)

namespace Listing

/-- What a client gets, or the enumeration reads. -/
def delivered : Listing → Option FullResponse
  | .enumerate answer => some answer
  | .exchange t about pipeline req answer =>
    if req.method = "tools/list" then
      match processResponse t about req pipeline.reverse (some answer) with
      | .ok (resp, _) => resp
      | .error _ => none
    else none

/-- The tools that are read from what is delivered. -/
def listed (l : Listing) : Option (List Tool) :=
  l.delivered.bind fun r =>
    if r.error.isSome ∨ r.result = [] then none else decodeToolsListResult r.result

/-- The tools that are hashed; an enumeration that finds none is passed over. -/
def compared : Listing → Option (List Tool)
  | .enumerate answer => (listed (.enumerate answer)).filter (· ≠ [])
  | l => l.listed

end Listing

/-- `MarkStale`. -/
def markStale (currentHash : String) (row : Option Record) : Option Record :=
  if row.any fun r => r.toolsHash ≠ currentHash ∧ r.status = .ready then setStatus .stale "" row
  else row

namespace Codec

variable (c : Codec)

/-- The record after a sequence of listings. -/
def exec : Option Record → List Listing → Option Record
  | row, [] => row
  | row, l :: listings =>
    exec ((l.compared.map fun tools => markStale (hashTools c.hasher tools) row).getD row)
      listings

/-- The optimiser over the record. -/
def optimizer (row : Option Record) : Optimizer Tool where
  optimizeEnabled _ := .ok (some true)
  optimization _ := .ok (row.map fun r => ⟨r.status.text, r.toolsHash, r.optimizedTools⟩)
  toolsOf := decodeToolsListResult
  optimizedOf := decodeToolList []
  toolName := Tool.name
  hashTools := hashTools c.hasher
  marshalTools tools := .ok (c.marshalTools tools)

end Codec

/-! ### The hash -/

variable {c : Codec} {tools tools' optimized : List Tool}

theorem names_perm (h : verified tools optimized = true) :
    (optimized.map Tool.name).Perm (tools.map Tool.name) := by
  obtain ⟨hlength, hnames, hnodup⟩ := of_decide_eq_true h
  have hsub : optimized.map Tool.name ⊆ tools.map Tool.name := by
    intro name hname
    obtain ⟨t, ht, rfl⟩ := mem_map.mp hname
    exact hnames t ht
  refine (subperm_of_subset hnodup hsub).perm_of_length_le ?_
  rw [length_map, length_map, hlength]

/-- The texts of two tools of one name may change places. -/
def Exchangeable (tools : List Tool) : Prop :=
  tools.Pairwise fun s t => s.name = t.name → s.text ++ t.text = t.text ++ s.text

theorem exchangeable_of_nodup (h : (tools.map Tool.name).Nodup) : Exchangeable tools :=
  (pairwise_map.mp h).imp fun hne heq => absurd heq hne

theorem Exchangeable.perm (h : Exchangeable tools) (hperm : tools.Perm tools') :
    Exchangeable tools' :=
  (hperm.pairwise_iff fun hst heq => (hst heq.symm).symm).mp h

theorem flatMap_text_comm {t : Tool} (h : ∀ s ∈ tools, s.text ++ t.text = t.text ++ s.text) :
    tools.flatMap Tool.text ++ t.text = t.text ++ tools.flatMap Tool.text := by
  induction tools with
  | nil => simp
  | cons s tools ih => ?_
  obtain ⟨hs, htools⟩ := forall_mem_cons.mp h
  rw [flatMap_cons, append_assoc, ih htools, ← append_assoc, hs, append_assoc]

/-- Two orders by name of exchangeable tools write one text. -/
theorem Exchangeable.text_eq (h : Exchangeable tools) (hperm : tools.Perm tools')
    (hsorted : tools.Pairwise fun s t => s.name ≤ t.name)
    (hsorted' : tools'.Pairwise fun s t => s.name ≤ t.name) :
    tools.flatMap Tool.text = tools'.flatMap Tool.text := by
  induction tools generalizing tools' with
  | nil => rw [hperm.nil_eq]
  | cons t tools ih => ?_
  obtain ⟨front, back, rfl⟩ := append_of_mem (hperm.subset mem_cons_self)
  obtain ⟨ht, htools⟩ := pairwise_cons.mp hsorted
  obtain ⟨hcomm, hrest⟩ := pairwise_cons.mp h
  have hperm' : tools.Perm (front ++ back) := (hperm.trans perm_middle).cons_inv
  -- what stands in front of the least name has that name too
  have hfront : ∀ s ∈ front, s.text ++ t.text = t.text ++ s.text := by
    intro s hs
    have hmem : s ∈ tools := hperm'.mem_iff.mpr (mem_append_left _ hs)
    have hge : s.name ≤ t.name := (pairwise_append.mp hsorted').2.2 s hs t mem_cons_self
    exact (hcomm s hmem (le_antisymm (ht s hmem) hge)).symm
  have hsub : (front ++ back).Pairwise fun s t => s.name ≤ t.name :=
    hsorted'.sublist ((Sublist.refl front).append (sublist_cons_self t back))
  rw [flatMap_cons, ih hrest hperm' htools hsub, flatMap_append, flatMap_append, flatMap_cons,
    ← append_assoc, ← append_assoc, flatMap_text_comm hfront]

/-- Tools of one name can stand next to each other in either order. -/
theorem exists_sorts_pair {s t : Tool} (hname : s.name = t.name) (h : [s, t] <+ tools) :
    ∃ front back, Sorts tools (front ++ s :: t :: back) ∧
      Sorts tools (front ++ t :: s :: back) := by
  obtain ⟨rest, hrest⟩ := h.exists_perm_append
  let sorted := rest.insertionSort fun s t => s.name ≤ t.name
  have hsorted : sorted.Pairwise fun s t => s.name ≤ t.name := pairwise_insertionSort _ rest
  let front := sorted.filter fun u => u.name < s.name
  let back := sorted.filter fun u => !decide (u.name < s.name)
  have hperm : (front ++ back).Perm rest :=
    (filter_append_perm _ sorted).trans (perm_insertionSort _ rest)
  have hfront : ∀ u ∈ front, u.name < s.name := fun u hu => of_decide_eq_true (mem_filter.mp hu).2
  have hback : ∀ u ∈ back, s.name ≤ u.name := by
    intro u hu
    exact not_lt.mp (by simpa only [Bool.not_eq_true', decide_eq_false_iff_not] using
      (mem_filter.mp hu).2)
  have hpair : ∀ a b : Tool, a.name = s.name → b.name = s.name → [a, b].Perm [s, t] →
      Sorts tools (front ++ a :: b :: back) := by
    intro a b ha hb hab
    refine ⟨?_, ?_⟩
    · refine .trans ?_ hrest.symm
      refine .trans ?_ (hab.append hperm)
      exact (perm_append_comm_assoc front [a, b] back)
    · refine pairwise_append.mpr ⟨hsorted.filter _, ?_, ?_⟩
      · refine pairwise_cons.mpr ⟨?_, pairwise_cons.mpr ⟨?_, hsorted.filter _⟩⟩
        · exact forall_mem_cons.mpr ⟨(ha.trans hb.symm).le, fun u hu => ha.le.trans (hback u hu)⟩
        · exact fun u hu => hb.le.trans (hback u hu)
      · intro u hu v hv
        have hv' : s.name ≤ v.name := by
          rcases mem_cons.mp hv with rfl | hv
          · exact ha.ge
          rcases mem_cons.mp hv with rfl | hv
          · exact hb.ge
          · exact hback v hv
        exact (hfront u hu).le.trans hv'
  exact ⟨front, back, hpair s t rfl hname.symm (.refl _), hpair t s hname.symm rfl (.swap ..)⟩

/-- **The hash does not depend on the order of the tools.** -/
theorem hashTools_perm (hasher : Hasher) (hnodup : (tools.map Tool.name).Nodup)
    (h : tools'.Perm tools) : hashTools hasher tools' = hashTools hasher tools := by
  obtain ⟨hperm, hsorted⟩ := hasher.sorts tools
  obtain ⟨hperm', hsorted'⟩ := hasher.sorts tools'
  have hexchange := (exchangeable_of_nodup hnodup).perm (h.symm.trans hperm'.symm)
  exact congrArg hasher.sha256
    (hexchange.text_eq (hperm'.trans (h.trans hperm.symm)) hsorted' hsorted)

/-- The lengths of the three parts of a text. -/
def Tool.sizes (t : Tool) : ℕ × ℕ × ℕ :=
  ((utf8 t.name).length, (utf8 t.description).length, t.inputSchema.length)

/-- If the two lists can be written as one text, it is cut in the same places. -/
def SameCuts (tools tools' : List Tool) : Prop :=
  ∀ sorted sorted', Sorts tools sorted → Sorts tools' sorted' →
    sorted.flatMap Tool.text = sorted'.flatMap Tool.text →
    sorted.map Tool.sizes = sorted'.map Tool.sizes

theorem utf8_injective : Function.Injective utf8 := by
  intro a b h
  exact String.toByteArray_inj.mp (ByteArray.ext (Array.toList_inj.mp h))

theorem Tool.text_append {t t' : Tool} {rest rest' : Bytes} (hsizes : t.sizes = t'.sizes)
    (h : t.text ++ rest = t'.text ++ rest') : t = t' ∧ rest = rest' := by
  obtain ⟨hname, hsizes⟩ := Prod.mk.inj hsizes
  obtain ⟨hdescription, hschema⟩ := Prod.mk.inj hsizes
  simp only [Tool.text, append_assoc] at h
  obtain ⟨hn, h⟩ := append_inj h hname
  obtain ⟨hd, h⟩ := append_inj h hdescription
  obtain ⟨hs, h⟩ := append_inj h hschema
  refine ⟨?_, h⟩
  cases t
  cases t'
  simp_all [utf8_injective.eq_iff]

theorem eq_of_flatMap_text (hsizes : tools.map Tool.sizes = tools'.map Tool.sizes)
    (h : tools.flatMap Tool.text = tools'.flatMap Tool.text) : tools = tools' := by
  induction tools generalizing tools' with
  | nil => exact (map_eq_nil_iff.mp hsizes.symm).symm
  | cons t tools ih => ?_
  cases tools' with
  | nil => cases hsizes
  | cons t' tools' => ?_
  rw [map_cons, map_cons, cons.injEq] at hsizes
  obtain ⟨rfl, hrest⟩ := Tool.text_append hsizes.1 h
  rw [ih hsizes.2 hrest]

theorem plainDigest_injective : Function.Injective plainDigest := by
  refine Function.LeftInverse.injective (g := fun s => s.toList.map Char.toUInt8) fun text => ?_
  have hchar : ∀ x : UInt8, (Char.ofUInt8 x).toUInt8 = x := fun x => UInt8.toUInt8_toUInt32 x
  simp [plainDigest, Function.comp_def, hchar]

/-- Two lists may be sorted in any of their orders, independently of each other. -/
theorem exists_hasher (hne : tools ≠ tools') {sorted sorted' : List Tool}
    (h : Sorts tools sorted) (h' : Sorts tools' sorted') :
    ∃ hasher : Hasher, Function.Injective hasher.sha256 ∧ hasher.sort tools = sorted ∧
      hasher.sort tools' = sorted' := by
  refine ⟨⟨plainDigest, Function.update (Function.update stableHasher.sort tools sorted) tools'
    sorted', fun l => ?_⟩, plainDigest_injective, ?_, Function.update_self ..⟩
  · by_cases hl' : l = tools'
    · subst hl'
      rwa [Function.update_self]
    rw [Function.update_of_ne hl']
    by_cases hl : l = tools
    · subst hl
      rwa [Function.update_self]
    · rw [Function.update_of_ne hl]
      exact stableHasher.sorts l
  · exact (Function.update_of_ne hne ..).trans (Function.update_self ..)

/-- **Equal hashes are equal tools**, in any order, if and only if tools of one name can change
places and no two lists of other tools are written as one text that is cut in different places. -/
theorem hashTools_eq_iff (tools tools' : List Tool) :
    (∀ hasher : Hasher, Function.Injective hasher.sha256 →
      (hashTools hasher tools = hashTools hasher tools' ↔ tools.Perm tools')) ↔
    (tools.Perm tools' → tools = tools' ∨ Exchangeable tools) ∧
      (¬ tools.Perm tools' → SameCuts tools tools') := by
  constructor
  · refine fun h => ⟨fun hperm => or_iff_not_imp_left.mpr fun hne => ?_,
      fun hperm sorted sorted' hs hs' htext => ?_⟩
    · refine pairwise_iff_forall_sublist.mpr fun {s t} hst hname => ?_
      obtain ⟨front, back, hsorts, hswapped⟩ := exists_sorts_pair hname hst
      obtain ⟨hasher, hinj, hsort, hsort'⟩ :=
        exists_hasher hne hsorts ⟨hswapped.1.trans hperm, hswapped.2⟩
      have htext := hinj ((h hasher hinj).mpr hperm)
      rw [hsort, hsort'] at htext
      simp only [flatMap_append, flatMap_cons] at htext
      rw [← append_assoc s.text, ← append_assoc t.text] at htext
      exact append_cancel_right (append_cancel_left htext)
    · have hne : tools ≠ tools' := fun heq => hperm (.of_eq heq)
      obtain ⟨hasher, hinj, hsort, hsort'⟩ := exists_hasher hne hs hs'
      refine absurd ((h hasher hinj).mp (congrArg hasher.sha256 ?_)) hperm
      rw [hsort, hsort', htext]
  · rintro ⟨hexchange, hcuts⟩ hasher hinj
    constructor
    · intro heq
      by_contra hperm
      have hs := hasher.sorts tools
      have hs' := hasher.sorts tools'
      have hsame := eq_of_flatMap_text (hcuts hperm _ _ hs hs' (hinj heq)) (hinj heq)
      exact hperm (hs.1.symm.trans (hsame ▸ hs'.1))
    · intro hperm
      rcases hexchange hperm with rfl | hexchange
      · rfl
      obtain ⟨hs, hsorted⟩ := hasher.sorts tools
      obtain ⟨hs', hsorted'⟩ := hasher.sorts tools'
      exact congrArg hasher.sha256 ((hexchange.perm hs.symm).text_eq
        (hs.trans (hperm.trans hs'.symm)) hsorted hsorted')

/-- **Tools with one hash, and two hashes of one set of tools**: a text goes on where a name ends,
and tools of one name are written in the order of the list. -/
theorem hashTools_collides :
    (∀ hasher : Hasher, hashTools hasher [⟨"a", "b", []⟩] = hashTools hasher [⟨"ab", "", []⟩]) ∧
      hashTools stableHasher [⟨"a", "b", []⟩, ⟨"a", "c", []⟩] ≠
        hashTools stableHasher [⟨"a", "c", []⟩, ⟨"a", "b", []⟩] := by
  refine ⟨fun hasher => congrArg hasher.sha256 ?_, by decide +kernel⟩
  have hsort : ∀ t, hasher.sort [t] = [t] := fun t => perm_singleton.mp (hasher.sorts [t]).1
  rw [hsort, hsort]
  rfl

theorem find_optimized {name : String} {d : Tool} (h : name ∈ optimized.map Tool.name) :
    let u := (optimized.reverse.find? fun u => u.name = name).getD d
    u ∈ optimized ∧ u.name = name := by
  obtain ⟨v, hv, hname⟩ := mem_map.mp h
  have hsome : (optimized.reverse.find? fun u => u.name = name).isSome = true :=
    find?_isSome.mpr ⟨v, mem_reverse.mpr hv, decide_eq_true hname⟩
  obtain ⟨u, hu⟩ := Option.isSome_iff_exists.mp hsome
  have hname := find?_some hu
  rw [hu]
  exact ⟨mem_reverse.mp (mem_of_find?_eq_some hu), of_decide_eq_true hname⟩

/-! ### The answers of the model -/

/-- `batchBySize`. -/
def batchBySize (budget : ℤ) : List Tool → List Tool → ℕ → List (List Tool)
  | [], current, _ => if current = [] then [] else [current]
  | t :: tools, current, size =>
    if current ≠ [] ∧ budget < size + t.chars then current :: batchBySize budget tools [t] t.chars
    else batchBySize budget tools (current ++ [t]) (size + t.chars)

/-- The batches are the tools in order.  Each has a size of at most the budget or is a single tool,
and would exceed the budget with the first tool of the next one. -/
structure Batched (budget : ℤ) (tools : List Tool) (batches : List (List Tool)) : Prop where
  flatten : batches.flatten = tools
  nonempty : [] ∉ batches
  sized : ∀ batch ∈ batches, totalChars batch ≤ budget ∨ batch.length = 1
  greedy : batches.IsChain fun batch next => ∀ t ∈ next.head?, budget < totalChars (batch ++ [t])

theorem totalChars_singleton (t : Tool) : totalChars [t] = t.chars := by simp [totalChars]

section

variable {budget : ℤ} {current : List Tool}

theorem batched_nil : Batched budget [] [] := ⟨rfl, not_mem_nil, nofun, .nil⟩

theorem Batched.cons {batches : List (List Tool)} (h : Batched budget tools batches)
    (hne : current ≠ []) (hsized : totalChars current ≤ budget ∨ current.length = 1)
    (hfull : ∀ next ∈ batches.head?, ∀ t ∈ next.head?, budget < totalChars (current ++ [t])) :
    Batched budget (current ++ tools) (current :: batches) where
  flatten := by rw [flatten_cons, h.flatten]
  nonempty hmem := (mem_cons.mp hmem).elim hne.symm h.nonempty
  sized := forall_mem_cons.mpr ⟨hsized, h.sized⟩
  greedy := h.greedy.cons hfull

theorem batchBySize_open {size : ℕ} (hne : current ≠ []) (hsize : totalChars current = size)
    (hsized : totalChars current ≤ budget ∨ current.length = 1) :
    let batches := batchBySize budget tools current size
    Batched budget (current ++ tools) batches ∧ ∀ batch ∈ batches.head?, current <+: batch := by
  induction tools generalizing current size with
  | nil =>
    rw [batchBySize, if_neg hne]
    refine ⟨batched_nil.cons hne hsized nofun, ?_⟩
    rintro batch ⟨⟩
    exact prefix_rfl
  | cons t tools ih => ?_
  have hadd : totalChars (current ++ [t]) = size + t.chars := by simp [totalChars, ← hsize]
  rw [batchBySize]
  split
  · next hfull =>
    obtain ⟨h, hfirst⟩ := ih (cons_ne_nil t []) (totalChars_singleton t) (.inr rfl)
    refine ⟨h.cons hne hsized fun next hnext u hu => ?_, ?_⟩
    · -- the next batch begins with this tool
      obtain ⟨l, rfl⟩ := hfirst next hnext
      obtain rfl : t = u := Option.some.inj hu
      rw [hadd]
      exact_mod_cast hfull.2
    · rintro batch ⟨⟩
      exact prefix_rfl
  · next hroom =>
    have hfits : (totalChars (current ++ [t]) : ℤ) ≤ budget := by
      rw [hadd]
      exact_mod_cast not_lt.mp fun hlt => hroom ⟨hne, hlt⟩
    obtain ⟨h, hfirst⟩ := ih (append_ne_nil_of_left_ne_nil hne [t]) hadd (.inl hfits)
    rw [append_assoc] at h
    exact ⟨h, fun batch hbatch => (prefix_append current [t]).trans (hfirst batch hbatch)⟩

end

/-- **The batches partition the tools**, for every budget, and each is as long as it may be. -/
theorem batchBySize_batched (budget : ℤ) (tools : List Tool) :
    Batched budget tools (batchBySize budget tools [] 0) := by
  cases tools with
  | nil => exact batched_nil
  | cons t tools => ?_
  have hsize : totalChars [t] = 0 + t.chars := by rw [totalChars_singleton, Nat.zero_add]
  rw [batchBySize, if_neg fun h => h.1 rfl]
  exact (batchBySize_open (cons_ne_nil t []) hsize (.inr rfl)).1

/-- The model, and how its answers are read. -/
structure Client where
  complete : ℕ → List Tool → Option Bytes
  /-- `extractJSON` and `json.Unmarshal`. -/
  toolsIn : Bytes → Option (List Tool)

/-- The batches one after the other. -/
def Client.optimizeBatches (client : Client) : ℕ → List (List Tool) → Option (List Tool)
  | _, [] => some []
  | n, batch :: batches => do
    let result ← client.toolsIn (← client.complete n batch)
    return result ++ (← client.optimizeBatches (n + 1) batches)

/-- An optimised definition counts only if it is smaller. -/
def keepSmaller (pruned : List Tool) (opt : Tool) : Tool :=
  let orig := (pruned.reverse.find? fun t => t.name = opt.name).getD ⟨"", "", []⟩
  if orig.chars ≤ opt.chars then orig else opt

/-- `OptimizeTools`; an error is `none`. -/
def optimizeTools (pruneSchema : Bytes → Bytes) (client : Option Client) (tools : List Tool) :
    Option (List Tool) :=
  let pruned := tools.map fun t => ⟨t.name, t.description, pruneSchema t.inputSchema⟩
  client.elim (some pruned) fun client => do
    let optimized ← client.optimizeBatches 0 (batchBySize 30000 pruned [] 0)
    if verified tools optimized then some (optimized.map (keepSmaller pruned)) else none

theorem keepSmaller_le {opt : Tool} (h : opt.name ∈ tools.map Tool.name) :
    (keepSmaller tools opt).name = opt.name ∧
      ∃ t ∈ tools, t.name = opt.name ∧ (keepSmaller tools opt).chars ≤ t.chars := by
  obtain ⟨hmem, hname⟩ := find_optimized (d := ⟨"", "", []⟩) h
  dsimp only [keepSmaller]
  split
  · exact ⟨hname, _, hmem, hname, le_rfl⟩
  · next hlt => exact ⟨rfl, _, hmem, hname, (not_le.mp hlt).le⟩

/-- **The tools of the model are the tools that it was given**, and none is longer. -/
theorem optimizeTools_perm (pruneSchema : Bytes → Bytes) (client : Option Client)
    (tools out : List Tool) (h : optimizeTools pruneSchema client tools = some out) :
    (out.map Tool.name).Perm (tools.map Tool.name) ∧ ∀ u ∈ out, ∃ t ∈ tools, t.name = u.name ∧
      u.chars ≤ (Tool.mk t.name t.description (pruneSchema t.inputSchema)).chars := by
  let prune (t : Tool) : Tool := ⟨t.name, t.description, pruneSchema t.inputSchema⟩
  have hnames : (tools.map prune).map Tool.name = tools.map Tool.name := map_map ..
  cases client with
  | none =>
    obtain rfl := Option.some.inj h
    refine ⟨.of_eq hnames, fun u hu => ?_⟩
    obtain ⟨t, ht, rfl⟩ := mem_map.mp hu
    exact ⟨t, ht, rfl, le_rfl⟩
  | some client => ?_
  obtain ⟨optimized, -, h⟩ := Option.bind_eq_some_iff.mp h
  obtain ⟨hverified, h⟩ := Option.ite_none_right_eq_some.mp h
  obtain rfl := Option.some.inj h
  have hperm := names_perm hverified
  have hkeep := fun opt (hopt : opt ∈ optimized) =>
    keepSmaller_le (hnames ▸ hperm.subset (mem_map_of_mem hopt))
  constructor
  · rw [map_map]
    exact .trans (.of_eq (map_congr_left fun opt hopt => (hkeep opt hopt).1)) hperm
  intro u hu
  obtain ⟨opt, hopt, rfl⟩ := mem_map.mp hu
  obtain ⟨hname, _, hmem, heq, hle⟩ := hkeep opt hopt
  obtain ⟨t, ht, rfl⟩ := mem_map.mp hmem
  exact ⟨t, ht, heq.trans hname.symm, hle⟩

/-- The model answers in another order, with one tool shorter and one longer. -/
theorem optimizeTools_perm_shorter :
    ([⟨"b", "b", []⟩, ⟨"a", "aa", []⟩].map Tool.name).Perm
      ([⟨"a", "aa", []⟩, ⟨"b", "bb", []⟩].map Tool.name) :=
  (optimizeTools_perm id
    (some ⟨fun _ _ => some [], fun _ => some [⟨"b", "b", []⟩, ⟨"a", "aaa", []⟩]⟩) _ _
    (by decide +kernel)).1

/-! ### Whole lists -/

/-- The middleware does not change a result: it leaves it as it is, or puts an error in its
place. -/
def Leaves (result : Bytes) : Middleware → Prop
  | .sanitizer patterns => ∀ p ∈ patterns, p.matchString result = true →
    p.action = "block" ∨ p.replaceAllString result = result
  | .sizer maxBytes action => action = "truncate" → result.length ≤ maxBytes
  | .alerter _ => True
  | .archive _ => True

/-- An answer of the server is an error or no list, or a list of all the tools (an enumeration may
find none), and the middleware that it goes through leaves it. -/
def Listing.Whole (tools : List Tool) : Listing → Prop
  | .enumerate answer => answer.error = none → ∀ listed,
    decodeToolsListResult answer.result = some listed → listed = [] ∨ listed.Perm tools
  | .exchange _ _ pipeline req answer => req.method = "tools/list" → answer.error = none →
    (∀ listed, decodeToolsListResult answer.result = some listed → listed.Perm tools) ∧
      ∀ m ∈ pipeline, Leaves answer.result m

/-- The same response, or an error in its place. -/
def SameOrError (r r' : FullResponse) : Prop := r' = r ∨ r'.error.isSome = true

variable {t : Texts} {about : RequestMeta} {r r' : FullResponse} {effects : List Effect}

theorem sanitizeLoop_leaves {patterns : List CompiledPattern}
    (h : Leaves r.result (.sanitizer patterns)) :
    SameOrError r (sanitizeLoop t about r patterns r.result false).1 := by
  induction patterns with
  | nil => exact .inl rfl
  | cons p patterns ih => ?_
  obtain ⟨hp, hrest⟩ := forall_mem_cons.mp h
  rw [sanitizeLoop]
  split
  · exact ih hrest
  next hmatch =>
  split
  · exact .inr rfl
  next hblock =>
  have hsame := (hp (Bool.not_eq_false _ ▸ hmatch)).resolve_left hblock
  dsimp only
  rw [if_pos hsame, hsame]
  exact ih hrest

theorem Middleware.leaves {req : Mcp.Request} {m : Middleware}
    (h : r.error = none → Leaves r.result m)
    (hm : m.processResponse t about req (some r) = .ok (some r', effects)) : SameOrError r r' := by
  cases m with
  | sanitizer patterns =>
    obtain rfl : (sanitize t about patterns r).1 = r' :=
      Option.some.inj (congrArg Prod.fst (Except.ok.inj hm))
    unfold sanitize
    split
    · exact .inl rfl
    · next hok =>
      exact sanitizeLoop_leaves (h (Option.not_isSome_iff_eq_none.mp (not_or.mp hok).1))
  | sizer maxBytes action =>
    obtain rfl : (size t about maxBytes action r).1 = r' :=
      Option.some.inj (congrArg Prod.fst (Except.ok.inj hm))
    unfold Pipeline.size
    split
    · exact .inl rfl
    next hok =>
    have hfits := h (Option.not_isSome_iff_eq_none.mp (not_or.mp hok).1)
    dsimp only
    split
    · exact .inl rfl
    next hlarge =>
    split
    · exact .inr rfl
    split
    · next htruncate => exact absurd (hfits htruncate) hlarge
    split
    · exact .inl rfl
    · exact .inl rfl
  | alerter rules =>
    obtain rfl : (alert t about rules r).1 = r' :=
      Option.some.inj (congrArg Prod.fst (Except.ok.inj hm))
    unfold alert
    split
    · exact .inl rfl
    · exact .inl rfl
  | archive included => exact .inl (Option.some.inj (congrArg Prod.fst (Except.ok.inj hm))).symm

/-- **A pipeline that leaves a result delivers it**, or an error. -/
theorem processResponse_leaves {req : Mcp.Request} {ms : List Middleware}
    (h : r.error = none → ∀ m ∈ ms, Leaves r.result m)
    (hms : processResponse t about req ms (some r) = .ok (some r', effects)) :
    SameOrError r r' := by
  induction ms generalizing r r' effects with
  | nil => exact .inl (Option.some.inj (congrArg Prod.fst (Except.ok.inj hms))).symm
  | cons m ms ih => ?_
  obtain ⟨r1, effects1, h1⟩ := m.processResponse_some t about req r
  obtain ⟨r2, effects2, h2⟩ := processResponse_some t about req ms r1
  have hfirst := Middleware.leaves (fun hr => h hr m mem_cons_self) h1
  rw [processResponse, h1] at hms
  change (processResponse t about req ms (some r1) >>= _) = _ at hms
  rw [h2] at hms
  obtain rfl : r2 = r' := Option.some.inj (congrArg Prod.fst (Except.ok.inj hms))
  rcases hfirst with rfl | herror
  · exact ih (fun hr m' hm' => h hr m' (mem_cons_of_mem m hm')) h2
  · -- an error goes through
    have hlater := ih (fun hr => by rw [hr] at herror; cases herror) h2
    rcases hlater with rfl | hlater
    · exact .inr herror
    · exact .inr hlater

/-- **Of a whole list all tools are compared.** -/
theorem Listing.Whole.compared {l : Listing} (h : l.Whole tools) {found : List Tool}
    (hfound : l.compared = some found) : found.Perm tools := by
  cases l with
  | enumerate answer =>
    obtain ⟨hlisted, hne⟩ := Option.filter_eq_some_iff.mp hfound
    obtain ⟨hok, htools⟩ := Option.ite_none_left_eq_some.mp hlisted
    refine (h (Option.not_isSome_iff_eq_none.mp (not_or.mp hok).1) found htools).resolve_left ?_
    exact of_decide_eq_true hne
  | exchange t about pipeline req answer => ?_
  have hlisted : (Listing.exchange t about pipeline req answer).listed = some found := hfound
  obtain ⟨resp, hdelivered, hlisted⟩ := Option.bind_eq_some_iff.mp hlisted
  obtain ⟨hok, htools⟩ := Option.ite_none_left_eq_some.mp hlisted
  obtain ⟨hmethod, hdelivered⟩ := Option.ite_none_right_eq_some.mp hdelivered
  obtain ⟨r, effects, hpipe⟩ := processResponse_some t about req pipeline.reverse answer
  rw [hpipe] at hdelivered
  obtain rfl : r = resp := Option.some.inj hdelivered
  have hsame := processResponse_leaves
    (fun hr m hm => ((h hmethod hr).2 m (mem_reverse.mp hm))) hpipe
  rcases hsame with rfl | herror
  · exact (h hmethod (Option.not_isSome_iff_eq_none.mp (not_or.mp hok).1)).1 found htools
  · exact absurd herror (not_or.mp hok).1

theorem object_of_decoded {text : Bytes} (h : decodeToolsListResult text = some tools)
    (hne : tools ≠ []) : ∃ ms, members text = some ms ∧ parse text ≠ some .null := by
  obtain ⟨ms, hms, hfold⟩ := Option.bind_eq_some_iff.mp h
  refine ⟨ms, hms, fun hnull => hne ?_⟩
  rw [members, hnull] at hms
  obtain rfl := Option.some.inj hms
  exact (Option.some.inj hfold).symm

/-! ### Runs -/

theorem exec_eq {row : Option Record} {listings : List Listing}
    (h : ∀ l ∈ listings, ∀ tools, l.compared = some tools →
      ∀ r ∈ row, hashTools c.hasher tools = r.toolsHash) : c.exec row listings = row := by
  induction listings with
  | nil => rfl
  | cons l listings ih => ?_
  have hrest := ih fun l' hl' => h l' (mem_cons_of_mem l hl')
  rw [Codec.exec]
  cases hl : l.compared with
  | none => exact hrest
  | some tools => ?_
  have hsame : markStale (hashTools c.hasher tools) row = row := by
    refine if_neg fun hany => ?_
    cases row with
    | none => cases hany
    | some r =>
      have hne := (of_decide_eq_true hany).1
      exact hne (h l mem_cons_self tools hl r rfl).symm
  rw [Option.map_some, Option.getD_some, hsame]
  exact hrest

/-- **While the server gives all its tools on one page, unchanged, and the middleware leaves them,
the optimisation is ready and served.** -/
theorem exec_ready (c : Codec) (req : Request) (optimized : List Tool) (json : Bytes)
    (row : Option Record) (serverID : String) (listings : List Listing) (hsome : req.tools ≠ [])
    (hverified : verified req.tools optimized = true)
    (hjson : decodeToolList [] json = some optimized)
    (hwhole : ∀ l ∈ listings, l.Whole req.tools) :
    let ready := Machine.finish c.hasher req (.optimized optimized json) row
    (c.exec ready listings).map Record.status = some .ready ∧
      ∀ before l after r tools, listings = before ++ l :: after → l.delivered = some r →
        l.compared = some tools → ∃ (f : Tool → Tool) (resultObj : _),
          (∀ t ∈ tools, f t ∈ optimized ∧ (f t).name = t.name) ∧
          members r.result = some resultObj ∧
          (c.optimizer (c.exec ready before)).processResponse serverID "tools/list" (some r) =
            .ok (some { r with
              result := writeObject
                (mapOf (resultObj ++ [("tools", c.marshalTools (tools.map f))])) }) := by
  intro ready
  have hnodup : (req.tools.map Tool.name).Nodup :=
    (names_perm hverified).nodup_iff.mp (of_decide_eq_true hverified).2.2
  have hexec : ∀ listings', (∀ l ∈ listings', l ∈ listings) → c.exec ready listings' = ready := by
    intro listings' hsub
    refine exec_eq fun l hl tools hcompared r hr => ?_
    obtain rfl := Option.some.inj hr
    exact hashTools_perm c.hasher hnodup ((hwhole l (hsub l hl)).compared hcompared)
  refine ⟨by rw [hexec listings fun _ hl => hl]; rfl, ?_⟩
  rintro before l after r tools rfl hdelivered hcompared
  have hperm := (hwhole l (by simp)).compared hcompared
  have htools : l.listed = some tools := by
    cases l with
    | enumerate answer => exact (Option.filter_eq_some_iff.mp hcompared).1
    | exchange => exact hcompared
  rw [hexec before fun l' hl' => mem_append_left _ hl']
  rw [Listing.listed, hdelivered, Option.bind_some] at htools
  obtain ⟨hok, htools⟩ := Option.ite_none_left_eq_some.mp htools
  have hne : tools ≠ [] := by
    rintro rfl
    exact hsome hperm.nil_eq.symm
  obtain ⟨resultObj, hobj, hnull⟩ := object_of_decoded htools hne
  have hnames : ∀ t ∈ tools, t.name ∈ optimized.map Tool.name := fun t ht =>
    (names_perm hverified).mem_iff.mpr (mem_map_of_mem (hperm.subset ht))
  have hhash : hashTools c.hasher tools = hashTools c.hasher req.tools :=
    hashTools_perm c.hasher hnodup hperm
  refine ⟨_, resultObj, fun t ht => find_optimized (d := t) (hnames t ht), hobj, ?_⟩
  show ((c.optimizer ready).patch ⟨"ready", hashTools c.hasher req.tools, json⟩ r).map some = _
  rw [Optimizer.patch, if_neg hok]
  simp only [Codec.optimizer, htools, hhash, hjson, hobj, hnull, ne_eq, not_true_eq_false, if_false]
  rfl

/-! ### Two pages -/

def plainCodec : Codec where
  hasher := stableHasher
  marshalTools _ := []

def exchangeOf (pipeline : List Middleware) (text : Bytes) : Listing :=
  .exchange ⟨id, id⟩ ⟨"s1", "s1", "tools/list", "", "", "", ""⟩ pipeline
    ⟨"2.0", none, "tools/list", none⟩ { result := text }

/-- The tools of the server, in two orders. -/
def toolsAB : Bytes :=
  utf8 "\x7b\"tools\":[\x7b\"name\":\"a\"\x7d,\x7b\"name\":\"b\"\x7d]\x7d"

def toolsBA : Bytes :=
  utf8 "\x7b\"tools\":[\x7b\"name\":\"b\"\x7d,\x7b\"name\":\"a\"\x7d]\x7d"

def readyAB : Option Record :=
  Machine.finish plainCodec.hasher { tools := [⟨"a", "", []⟩, ⟨"b", "", []⟩], model := "" }
    (.optimized [⟨"a", "", []⟩, ⟨"b", "", []⟩]
      (utf8 "[\x7b\"name\":\"a\"\x7d,\x7b\"name\":\"b\"\x7d]")) none

/-- A pattern that does not match, and a limit that is not reached. -/
def quietPipeline : List Middleware :=
  [.sanitizer [⟨"ssn", fun _ => false, fun _ => [], "redact"⟩], .sizer 1000 "truncate"]

theorem exec_ready_reordered :
    (plainCodec.exec readyAB [.enumerate { result := toolsBA },
      exchangeOf quietPipeline toolsBA, exchangeOf [] toolsAB]).map Record.status =
      some .ready := by
  have hab : decodeToolsListResult toolsAB = some [⟨"a", "", []⟩, ⟨"b", "", []⟩] := by
    decide +kernel
  have hba : decodeToolsListResult toolsBA = some [⟨"b", "", []⟩, ⟨"a", "", []⟩] := by
    decide +kernel
  have hlisted : ∀ text ∈ [toolsAB, toolsBA], ∀ listed, decodeToolsListResult text = some listed →
      listed.Perm [⟨"a", "", []⟩, ⟨"b", "", []⟩] := by
    intro text htext listed h
    rcases mem_pair.mp htext with rfl | rfl
    · rw [← Option.some.inj (hab.symm.trans h)]
    · rw [← Option.some.inj (hba.symm.trans h)]
      exact .swap ..
  have hquiet : ∀ m ∈ quietPipeline, Leaves toolsBA m := by
    intro m hm
    rcases mem_pair.mp hm with rfl | rfl
    · rintro p hp hmatch
      rw [mem_singleton.mp hp] at hmatch
      cases hmatch
    · exact fun _ => by decide +kernel
  refine (exec_ready plainCodec { tools := [⟨"a", "", []⟩, ⟨"b", "", []⟩], model := "" }
    [⟨"a", "", []⟩, ⟨"b", "", []⟩] _ none "s1" _ nofun (by decide) (by decide +kernel)
    fun l hl => ?_).1
  simp only [mem_cons, not_mem_nil, or_false] at hl
  rcases hl with rfl | rfl | rfl
  · exact fun _ listed h => .inr (hlisted toolsBA (by simp) listed h)
  · exact fun _ _ => ⟨hlisted toolsBA (by simp), hquiet⟩
  · exact fun _ _ => ⟨hlisted toolsAB (by simp), nofun⟩

/-- The tools `a` and `bb` on a page each; the enumeration reads the first one only. -/
def firstPage : Bytes :=
  utf8 ("\x7b\"tools\":[\x7b\"name\":\"a\",\"description\":\"as 123-45-6789\"\x7d]," ++
    "\"nextCursor\":\"2\"\x7d")

def secondPage : Bytes := utf8 "\x7b\"tools\":[\x7b\"name\":\"bb\"\x7d]\x7d"

/-- The first page after the sanitizer. -/
def redactedPage : Bytes :=
  utf8 ("\x7b\"tools\":[\x7b\"name\":\"a\",\"description\":\"as [SSN]\"\x7d]," ++
    "\"nextCursor\":\"2\"\x7d")

def readyFirst : Option Record :=
  Machine.finish plainCodec.hasher { tools := [⟨"a", "as 123-45-6789", []⟩], model := "" }
    (.optimized [⟨"a", "as", []⟩]
      (utf8 "[\x7b\"name\":\"a\",\"description\":\"as\"\x7d]")) none

/-- **The tools have not changed, and the optimisation is stale**: one more page of the list is
seen, or a list that the sanitizer has changed. -/
theorem exec_stale :
    (plainCodec.exec readyFirst [.enumerate { result := firstPage },
      exchangeOf [] firstPage]).map Record.status = some .ready ∧
    (plainCodec.exec readyFirst [exchangeOf [] secondPage]).map Record.status = some .stale ∧
      (plainCodec.exec readyFirst
        [exchangeOf [.sanitizer [⟨"ssn", fun _ => true, fun _ => redactedPage, "redact"⟩]]
          firstPage]).map Record.status = some .stale := by
  decide +kernel

end ArcRelay.Optimize
