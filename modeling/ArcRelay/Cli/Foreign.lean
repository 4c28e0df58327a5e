import ArcRelay.Cli.Sync

/-!
# What a run does to foreign entries

A run of `arc-sync` writes the entries of servers that are added or renamed into both targets and
removes the old entries of the renamed ones.  It finds them by name, so an entry of that name that
does not point at the relay is lost.

An entry that no step touches keeps its value.  So the foreign entries are kept if none has a name
that the run touches in its file.  Which names these are depends on the files: a target that cannot
be written stays as it is and ends the second loop, and a file or a table that is `null` ends the
run before anything has changed.

## Main definitions

* `Found.renamedNames`, `Found.addedNames`: the names that a run touches.
* `Claude.Foreign`, `Codex.Foreign`: entries that do not point at the relay.

## Main results

* `run_foreign`: when all foreign entries are kept.
-/

namespace ArcRelay.Cli

open Json Table List

/-! ### What a step leaves alone -/

variable {env : Env} {opts : Options} {p : Plan} {w w' w'' : World} {target : Target}
  {names : List String} {relayURL apiKey name : String} {servers : List ManagedServer}

namespace Claude

variable {f : File Bytes}

/-- `Write` assigns into a map that is nil. -/
def Crashes (f : File Bytes) : Prop := Null f ∨ ∃ raw, opened f = some raw ∧ tableOf raw = none

theorem write_crashes (h : Crashes f) (hne : servers ≠ []) :
    write apiKey servers f = .error .crash := by
  rcases h with hnull | ⟨raw, hraw, htable⟩
  · cases f with
    | missing | unreadable _ => cases hnull
    | content text =>
      rw [Null] at hnull
      rw [write, hnull]
  · rw [write_of_opened hraw, writeMap, htable]
    exact if_neg hne

theorem remove_crashes (h : Crashes f) (names : List String) : remove names f = .ok none := by
  rcases h with hnull | ⟨raw, hraw, htable⟩
  · cases f with
    | missing | unreadable _ => cases hnull
    | content text =>
      rw [Null] at hnull
      rw [remove, hnull]
  cases f with
  | missing => rfl
  | unreadable _ => cases hraw
  | content text => ?_
  rw [remove, Option.join_eq_some_iff.mp hraw]
  dsimp only
  rw [tableOf] at htable
  cases hfield : exactField tableKey raw with
  | none => rfl
  | some value => ?_
  rw [hfield] at htable
  dsimp only at htable ⊢
  cases hvalue : decodeMap value with
  | none =>
    rw [hvalue] at htable
    cases htable
  | some o =>
    rw [hvalue] at htable
    obtain rfl : o = none := htable
    rfl

end Claude

namespace Target

def path : Target → Path
  | .claude => .claude
  | .codex => .codex

theorem write_eq (h : target.write env apiKey servers w = .ok w') :
    env.writable target.path = true ∧
      ((target = .claude ∧ w'.codex = w.codex ∧ ∃ text, w'.claude = .content text ∧
        Claude.write apiKey servers w.claude = .ok text) ∨
      target = .codex ∧ w'.claude = w.claude ∧ ∃ raw, w'.codex = .content (some raw) ∧
        Codex.write apiKey servers w.codex = .ok raw) := by
  cases target with
  | claude | codex =>
    rw [Target.write] at h
    split at h
    · cases h
    next text hwrite =>
    split at h
    · next hwritable =>
      cases h
      simp [path, hwritable, hwrite]
    · cases h

theorem remove_eq (h : target.remove env names w = .ok w') :
    env.writable target.path = true ∧
      ((target = .claude ∧ w'.codex = w.codex ∧ ∃ text, w'.claude = .content text ∧
        Claude.remove names w.claude = .ok (some text)) ∨
      target = .codex ∧ w'.claude = w.claude ∧ ∃ raw, w'.codex = .content (some raw) ∧
        Codex.remove names w.codex = .ok (some raw)) ∨
    w' = w := by
  cases target with
  | claude | codex =>
    rw [Target.remove] at h
    split at h
    · cases h
    · next hremove =>
      cases h
      exact .inr rfl
    next text hremove =>
    split at h
    · next hwritable =>
      cases h
      exact .inl (by simp [path, hwritable, hremove])
    · cases h

end Target

/-- The world after the first loop. -/
def renamedWorld (env : Env) (p : Plan) (w : World) : Option Failure × World :=
  if p.renames = [] then (none, w) else applyRenames env p p.targets w

/-- What a run makes of the configuration files. -/
def changed (env : Env) (p : Plan) (w : World) : World :=
  match renamedWorld env p w with
  | (some _, w) => w
  | (none, w) => if p.toAdd = [] then w else (writeTargets env p p.targets w).2

theorem finish_configs (env : Env) (opts : Options) (w : World)
    (hnew : p.newServers = [] → p.toAdd = []) :
    (finish env opts p w).2.claude = (if opts.dryRun ∨ p.toAdd = [] then w
      else (writeTargets env p p.targets w).2).claude ∧
    (finish env opts p w).2.codex = (if opts.dryRun ∨ p.toAdd = [] then w
      else (writeTargets env p p.targets w).2).codex := by
  have hsave := saveState_configs env
  generalize hw' : (if opts.dryRun ∨ p.toAdd = [] then w
    else (writeTargets env p p.targets w).2) = w'
  unfold finish
  split
  · next hnone =>
    rw [if_pos (.inr (hnew hnone))] at hw'
    subst hw'
    split
    · exact hsave _ _ _
    · exact ⟨rfl, rfl⟩
  split
  · next hadd =>
    rw [if_pos (.inr hadd)] at hw'
    subst hw'
    split
    · exact hsave _ _ _
    · exact ⟨rfl, rfl⟩
  next hadd =>
  split
  · next hdry =>
    rw [if_pos (.inl hdry)] at hw'
    subst hw'
    exact ⟨rfl, rfl⟩
  next hdry =>
  rw [if_neg (not_or.mpr ⟨hdry, hadd⟩)] at hw'
  subst hw'
  split
  · next e w' heq =>
    rw [heq]
    exact ⟨rfl, rfl⟩
  · next w' heq =>
    rw [heq]
    exact hsave _ _ _

theorem run_configs (hplan : plan env opts w = .ok (some p))
    (hnew : p.newServers = [] → p.toAdd = []) :
    (run env opts w).2.claude = (if opts.dryRun then w else changed env p w).claude ∧
      (run env opts w).2.codex = (if opts.dryRun then w else changed env p w).codex := by
  unfold run changed renamedWorld
  rw [hplan]
  dsimp only
  by_cases hdry : opts.dryRun = true
  · rw [if_pos (.inr hdry), if_pos hdry]
    have hfinish := finish_configs env opts w hnew
    rwa [if_pos (.inl hdry)] at hfinish
  rw [if_neg hdry]
  have hfinish : ∀ w, (finish env opts p w).2.claude = (if p.toAdd = [] then w
      else (writeTargets env p p.targets w).2).claude ∧
      (finish env opts p w).2.codex = (if p.toAdd = [] then w
        else (writeTargets env p p.targets w).2).codex := by
    intro w
    have hfinish := finish_configs env opts w hnew
    simpa only [hdry, false_or, Bool.false_eq_true] using hfinish
  by_cases hrenames : p.renames = []
  · rw [if_pos (.inl hrenames), if_pos hrenames]
    exact hfinish w
  rw [if_neg (not_or.mpr ⟨hrenames, hdry⟩), if_neg hrenames]
  cases applyRenames env p p.targets w with
  | mk failure w1 =>
    cases failure with
    | some e => exact ⟨rfl, rfl⟩
    | none => exact hfinish w1

/-! ### What a run keeps -/

/-- Both configuration files keep all but the entries of some names. -/
structure Framed (touched : Target → List String) (w w' : World) : Prop where
  claude : Claude.Frame (touched .claude) w.claude w'.claude
  codex : Codex.Frame (touched .codex) w.codex w'.codex

variable {touched : Target → List String}

theorem Framed.refl (touched : Target → List String) (w : World) : Framed touched w w :=
  ⟨.refl _ w.claude, .refl _ w.codex⟩

theorem Framed.trans (h : Framed touched w w') (h' : Framed touched w' w'') :
    Framed touched w w'' :=
  ⟨h.claude.trans h'.claude, h.codex.trans h'.codex⟩

theorem Target.write_framed (h : target.write env apiKey servers w = .ok w')
    (hsub : env.writable target.path = true → servers.map ManagedServer.name ⊆ touched target) :
    Framed touched w w' := by
  obtain ⟨hw, ⟨rfl, hcodex, text, hclaude, hwrite⟩ | ⟨rfl, hclaude, raw, hcodex, hwrite⟩⟩ :=
    write_eq h
  · exact ⟨hclaude ▸ (Claude.write_frame hwrite).mono (hsub hw), by rw [hcodex]; exact .refl ..⟩
  · exact ⟨by rw [hclaude]; exact .refl .., hcodex ▸ (Codex.write_frame hwrite).mono (hsub hw)⟩

theorem Target.remove_framed (h : target.remove env names w = .ok w')
    (hsub : env.writable target.path = true → names ⊆ touched target) : Framed touched w w' := by
  rcases remove_eq h with ⟨hw, ⟨rfl, hcodex, text, hclaude, hremove⟩ |
    ⟨rfl, hclaude, raw, hcodex, hremove⟩⟩ | rfl
  · exact ⟨hclaude ▸ (Claude.remove_frame hremove).mono (hsub hw), by rw [hcodex]; exact .refl ..⟩
  · exact ⟨by rw [hclaude]; exact .refl .., hcodex ▸ (Codex.remove_frame hremove).mono (hsub hw)⟩
  · exact .refl touched w'

theorem framed_getD {r : Except Failure World} (h : ∀ w', r = .ok w' → Framed touched w w') :
    Framed touched w (r.toOption.getD w) := by
  cases r with
  | error e => exact .refl touched w
  | ok w' => exact h w' rfl

theorem applyRenames_framed (targets : List Target) (w : World)
    (hsub : ∀ t : Target, env.writable t.path = true →
      p.renames.map ManagedServer.name ++ p.renames.map ManagedServer.oldName ⊆ touched t) :
    Framed touched w (applyRenames env p targets w).2 := by
  induction targets generalizing w with
  | nil => exact .refl touched w
  | cons target targets ih => ?_
  have hremove : Framed touched w
      ((target.remove env (p.renames.map ManagedServer.oldName) w).toOption.getD w) :=
    framed_getD fun w' hw' => Target.remove_framed hw' fun hw name hname =>
      hsub target hw (mem_append_right _ hname)
  rw [applyRenames]
  split
  · exact .refl touched w
  refine hremove.trans ?_
  dsimp only
  split
  · exact .refl ..
  refine Framed.trans (framed_getD fun w' hw' => ?_) (ih _)
  exact Target.write_framed hw' fun hw name hname => hsub target hw (mem_append_left _ hname)

theorem writeTargets_framed (targets : List Target) (w : World)
    (hsub : ∀ t : Target, env.writable t.path = true →
      p.toAdd.map ManagedServer.name ⊆ touched t) :
    Framed touched w (writeTargets env p targets w).2 := by
  induction targets generalizing w with
  | nil => exact .refl touched w
  | cons target targets ih => ?_
  rw [writeTargets]
  split
  · exact .refl touched w
  · next w' hwrite => exact (Target.write_framed hwrite (hsub target)).trans (ih w')

theorem writeTargets_unwritable (hw : ¬ env.writable .claude = true) (targets : List Target) :
    (writeTargets env p (.claude :: targets) w).2 = w := by
  rw [writeTargets, Target.write]
  cases Claude.write p.creds.apiKey p.toAdd w.claude with
  | error e => rfl
  | ok text =>
    dsimp only
    rw [if_neg hw]

/-- A file or a table that is `null` stops a run before it has changed anything. -/
theorem changed_of_crashes (h : Claude.Crashes w.claude) {targets : List Target}
    (htargets : p.targets = .claude :: targets) : changed env p w = w := by
  have hremove : Target.claude.remove env (p.renames.map ManagedServer.oldName) w = .ok w := by
    rw [Target.remove, Claude.remove_crashes h]
  have hwrite : ∀ servers, servers ≠ [] →
      Target.claude.write env p.creds.apiKey servers w = .error .crash := by
    intro servers hne
    rw [Target.write, Claude.write_crashes h hne]
  unfold changed renamedWorld
  by_cases hrenames : p.renames = []
  · rw [if_pos hrenames]
    dsimp only
    split
    · rfl
    · next hadd => rw [htargets, writeTargets, hwrite _ hadd]
  · rw [if_neg hrenames, htargets, applyRenames, hremove]
    dsimp only [Except.toOption, Option.getD]
    rw [hwrite _ hrenames]

/-! ### The condition -/

/-- The names of the servers that are renamed, the new ones and the old ones. -/
def Found.renamedNames (f : Found) (opts : Options) : List String :=
  (f.renamed opts.projectDir).renames.map ManagedServer.name ++
    (f.renamed opts.projectDir).renames.map ManagedServer.oldName

/-- The names of the servers that are added. -/
def Found.addedNames (f : Found) (opts : Options) : List String :=
  (accepted opts (f.offered opts.projectDir)).map Server.name

def Env.isRelay (env : Env) (url : String) : Bool :=
  match env.credentials with
  | .ok creds => isRelayURL creds.relayURL url
  | .error _ => false

/-- An entry of the name does not point at the relay. -/
def Claude.Foreign (env : Env) (name : String) (f : File Bytes) : Prop :=
  ∃ text, Claude.serverEntry name f = some text ∧
    ∀ url, Claude.entryURL text = some url → env.isRelay url = false

/-- An entry of the name does not point at the relay. -/
def Codex.Foreign (env : Env) (name : String) (f : Codex.Config) : Prop :=
  ∃ value, Codex.serverEntry name f = some value ∧
    ∀ ms, value = .table ms → env.isRelay (Codex.entryURL ms) = false

/-- What a plan goes by. -/
structure Plan.Spec (env : Env) (opts : Options) (w : World) (f : Found) (p : Plan) : Prop where
  planned : plan env opts w = .ok (some p)
  targets : p.targets = detectedTargetsOrDefault w
  renames : p.renames.map ManagedServer.name ++ p.renames.map ManagedServer.oldName =
    f.renamedNames opts
  added : p.toAdd.map ManagedServer.name = f.addedNames opts
  new : p.newServers = [] → p.toAdd = []

theorem spec_of_found {f : Found} (h : found env opts w = some f) :
    ∃ p, Plan.Spec env opts w f p := by
  obtain ⟨p, hplan, hrenames, hnew, hadd, -⟩ := plan_of_found opts h
  have hspec := hplan
  unfold plan at hspec
  unfold found at h
  split at hspec
  · cases hspec
  · cases hspec
  next creds allServers hcreds hlisting =>
  rw [hcreds, hlisting] at h
  dsimp only at hspec h
  split at hspec
  · cases hspec
  split at hspec
  · cases hspec
  next existing hexisting =>
  rw [hexisting] at h
  dsimp only at h
  obtain ⟨-, hf⟩ := Option.ite_none_left_eq_some.mp h
  split at hspec
  · cases hspec
  obtain rfl := Option.some.inj (Except.ok.inj hspec)
  refine ⟨_, hplan, rfl, ?_, ?_, ?_⟩
  · rw [hrenames]
    rfl
  · rw [hadd, map_map]
    rfl
  · intro hnone
    rw [hnew] at hnone
    rw [hadd, hnone]
    cases hmode : opts.nonInteractive <;> simp [accepted, hmode]

theorem targets_of_claude (h : w.claude.exists = true) :
    ∃ targets, detectedTargetsOrDefault w = .claude :: targets := by
  unfold detectedTargetsOrDefault
  cases hcodex : w.codex.exists <;> simp [filter, Target.detect, h, hcodex]

theorem exists_of_crashes {f : File Bytes} (h : Claude.Crashes f) : f.exists = true := by
  cases f with
  | content text => rfl
  | missing | unreadable _ =>
    rcases h with hnull | ⟨raw, hraw, htable⟩
    · cases hnull
    · cases hraw <;> cases htable

/-- No foreign entry has a name that a run touches in its file. -/
structure Found.Spares (env : Env) (opts : Options) (w : World) (f : Found) : Prop where
  claude : env.writable .claude = true →
    ∀ name ∈ f.renamedNames opts ++ f.addedNames opts, ¬ Claude.Foreign env name w.claude
  codex : env.writable .codex = true → ¬ Claude.Crashes w.claude →
    (∀ name ∈ f.renamedNames opts, ¬ Codex.Foreign env name w.codex) ∧
      ((w.claude.exists = true → env.writable .claude = true) →
        ∀ name ∈ f.addedNames opts, ¬ Codex.Foreign env name w.codex)

/-- The foreign entries of two files and the keys beside the table are the same. -/
structure KeepsForeign (env : Env) (w w' : World) : Prop where
  claudeTop : ∀ key, key ≠ Claude.tableKey →
    Claude.Kept (Claude.top key w.claude) (Claude.top key w'.claude)
  claude : ∀ name, Claude.Foreign env name w.claude →
    Claude.Kept (Claude.serverEntry name w.claude) (Claude.serverEntry name w'.claude)
  codexTop : ∀ key, key ≠ Codex.tableKey → Codex.top key w'.codex = Codex.top key w.codex
  codex : ∀ name, Codex.Foreign env name w.codex →
    Codex.serverEntry name w'.codex = Codex.serverEntry name w.codex

theorem Framed.keeps (h : Framed touched w w')
    (hclaude : ∀ name ∈ touched .claude, ¬ Claude.Foreign env name w.claude)
    (hcodex : ∀ name ∈ touched .codex, ¬ Codex.Foreign env name w.codex) :
    KeepsForeign env w w' where
  claudeTop := h.claude.top
  claude name hforeign := h.claude.entry name fun hmem => hclaude name hmem hforeign
  codexTop := h.codex.top
  codex name hforeign := h.codex.entry name fun hmem => hcodex name hmem hforeign

theorem keepsForeign_refl (env : Env) (w : World) : KeepsForeign env w w :=
  (Framed.refl (fun _ => []) w).keeps nofun nofun

/-- The names that a run touches in a target. -/
def Plan.touches (env : Env) (w : World) (p : Plan) (t : Target) : List String :=
  if env.writable t.path then
    p.renames.map ManagedServer.name ++ p.renames.map ManagedServer.oldName ++
      if w.claude.exists = true → env.writable .claude = true then
        p.toAdd.map ManagedServer.name
      else []
  else []

theorem changed_framed (htargets : p.targets = detectedTargetsOrDefault w) :
    Framed (p.touches env w) w (changed env p w) := by
  have hrenamed : Framed (p.touches env w) w (renamedWorld env p w).2 := by
    unfold renamedWorld
    split
    · exact .refl _ w
    refine applyRenames_framed _ w fun t hw name hname => ?_
    rw [Plan.touches, if_pos hw]
    exact mem_append_left _ hname
  unfold changed
  split
  · next e w1 heq =>
    rw [heq] at hrenamed
    exact hrenamed
  next w1 heq =>
  rw [heq] at hrenamed
  split
  · exact hrenamed
  refine hrenamed.trans ?_
  by_cases hfirst : w.claude.exists = true → env.writable .claude = true
  · refine writeTargets_framed _ w1 fun t hw name hname => ?_
    rw [Plan.touches, if_pos hw, if_pos hfirst]
    exact mem_append_right _ hname
  · obtain ⟨hexists, hw⟩ := Classical.not_imp.mp hfirst
    obtain ⟨targets, hclaude⟩ := targets_of_claude hexists
    rw [htargets, hclaude, writeTargets_unwritable hw]
    exact .refl _ w1

variable {f : Found}

theorem Found.Spares.keeps (h : f.Spares env opts w) (hp : Plan.Spec env opts w f p) :
    KeepsForeign env w (changed env p w) := by
  by_cases hcrash : Claude.Crashes w.claude
  · obtain ⟨targets, htargets⟩ := targets_of_claude (exists_of_crashes hcrash)
    rw [changed_of_crashes hcrash (hp.targets.trans htargets)]
    exact keepsForeign_refl env w
  refine (changed_framed hp.targets).keeps (fun name hname => ?_) fun name hname => ?_
  · unfold Plan.touches at hname
    split at hname
    · next hw =>
      refine h.claude hw name ?_
      rw [← hp.renames, ← hp.added]
      rcases mem_append.mp hname with hname | hname
      · exact mem_append_left _ hname
      · split at hname
        · exact mem_append_right _ hname
        · cases hname
    · cases hname
  · unfold Plan.touches at hname
    split at hname
    · next hw =>
      obtain ⟨hrenamed, hadded⟩ := h.codex hw hcrash
      rcases mem_append.mp hname with hname | hname
      · exact hrenamed name (hp.renames ▸ hname)
      · split at hname
        · next hfirst => exact hadded hfirst name (hp.added ▸ hname)
        · cases hname
    · cases hname

/-- **Foreign entries and the other keys stay** if the run is a dry run, or no foreign entry has a
name that the run touches in its file. -/
theorem run_foreign (env : Env) (opts : Options) (w : World)
    (h : opts.dryRun = true ∨ ∀ f, found env opts w = some f → f.Spares env opts w) :
    KeepsForeign env w (run env opts w).2 := by
  cases hfound : found env opts w with
  | none =>
    rw [run_of_no_plan fun p hplan => ?_]
    · exact keepsForeign_refl env w
    · obtain ⟨f, hf⟩ := found_of_plan hplan
      cases hfound.symm.trans hf
  | some f => ?_
  obtain ⟨p, hp⟩ := spec_of_found hfound
  obtain ⟨hclaude, hcodex⟩ := run_configs hp.planned hp.new
  have hkept : KeepsForeign env w (if opts.dryRun then w else changed env p w) := by
    split
    · exact keepsForeign_refl env w
    · next hdry => exact (h.resolve_left hdry f hfound).keeps hp
  obtain ⟨h1, h2, h3, h4⟩ := hkept
  rw [← hclaude] at h1 h2
  rw [← hcodex] at h3 h4
  exact ⟨h1, h2, h3, h4⟩

/-! ### A rename beside foreign entries -/

/-- A project with foreign entries in both files. -/
def projectWithForeign : World where
  claude := .content (utf8
    "\x7b\"mcpServers\":\x7b\"github\":\x7b\"url\":\"https://api/mcp\"\x7d\x7d,\"other\":1\x7d")
  codex := .content (some [("model", .string "m"),
    ("mcp_servers", .table [("docs", .table [("url", .string "https://docs/mcp")])])])
  state := .missing

/-- The same, and a server is known as `old`. -/
def projectWithBoth : World where
  claude := .content (utf8 ("\x7b\"mcpServers\":" ++
    "\x7b\"github\":\x7b\"url\":\"https://api/mcp\"\x7d," ++
    "\"old\":\x7b\"url\":\"https://relay/mcp/old\"\x7d\x7d,\"other\":1\x7d"))
  codex := projectWithForeign.codex
  state := projectWithOld.state

/-- `old` is now `new`, and there is another server. -/
def renamedAndNew : Env := relayWith [("1", "new"), ("2", "files")]

theorem projectWithBoth_spares (f : Found)
    (hf : found renamedAndNew addAll projectWithBoth = some f) :
    f.Spares renamedAndNew addAll projectWithBoth := by
  have hnames : (found renamedAndNew addAll projectWithBoth).map (fun f =>
      (f.renamedNames addAll, f.addedNames addAll)) = some (["new", "old"], ["files"]) := by
    decide +kernel
  have hclaude : ∀ name ∈ ["new", "old"] ++ ["files"],
      (Claude.serverEntry name projectWithBoth.claude).all fun text =>
        (Claude.entryURL text).any renamedAndNew.isRelay := by decide +kernel
  have hcodex : ∀ name ∈ ["new", "old"] ++ ["files"],
      (Codex.serverEntry name projectWithBoth.codex).isNone := by decide +kernel
  rw [hf] at hnames
  obtain ⟨hrenamed, hadded⟩ := Prod.mk.inj (Option.some.inj hnames)
  rw [← hrenamed, ← hadded] at hclaude hcodex
  have hnot : ∀ name ∈ f.renamedNames addAll ++ f.addedNames addAll,
      ¬ Codex.Foreign renamedAndNew name projectWithBoth.codex := by
    rintro name hname ⟨value, hvalue, -⟩
    rw [Option.isNone_iff_eq_none.mp (hcodex name hname)] at hvalue
    cases hvalue
  refine ⟨fun _ name hname ⟨text, htext, hother⟩ => ?_, fun _ _ =>
    ⟨fun name hname => hnot name (mem_append_left _ hname),
      fun _ name hname => hnot name (mem_append_right _ hname)⟩⟩
  have hrelay := hclaude name hname
  rw [htext, Option.all_some, Option.any_eq_true] at hrelay
  obtain ⟨url, hurl, hrelay⟩ := hrelay
  rw [hother url hurl] at hrelay
  cases hrelay

theorem github_foreign (servers : List (String × String)) {f : File Bytes}
    (hentry : Claude.serverEntry "github" f =
      some (utf8 "\x7b\"url\":\"https://api/mcp\"\x7d")) :
    Claude.Foreign (relayWith servers) "github" f := by
  have hurl : Claude.entryURL (utf8 "\x7b\"url\":\"https://api/mcp\"\x7d") =
      some "https://api/mcp" := by decide +kernel
  have hother : isRelayURL "https://relay" "https://api/mcp" = false := by decide +kernel
  refine ⟨_, hentry, fun url h => ?_⟩
  obtain rfl : "https://api/mcp" = url := Option.some.inj (hurl.symm.trans h)
  exact hother

/-- The server is renamed and another is added, and the foreign entries are as before. -/
theorem run_foreign_rename_and_add :
    let w' := (run renamedAndNew addAll projectWithBoth).2
    Claude.serverEntry "old" w'.claude = none ∧
      (Codex.serverEntry "files" w'.codex).isSome = true ∧
      Claude.Foreign renamedAndNew "github" projectWithBoth.claude ∧
      KeepsForeign renamedAndNew projectWithBoth w' := by
  exact ⟨by decide +kernel, by decide +kernel, github_foreign _ (by decide +kernel),
    run_foreign renamedAndNew addAll projectWithBoth (.inr projectWithBoth_spares)⟩

/-! ### An entry that is overwritten -/

def memberCount : Option Tree → ℕ
  | some (.object ms) => ms.length
  | _ => 0

/-- A server of the relay has the name of a foreign entry: the entry is overwritten. -/
theorem run_overwrites_foreign :
    Claude.Foreign (relayWith [("1", "github")]) "github" projectWithForeign.claude ∧
      ¬Claude.Kept (Claude.serverEntry "github" projectWithForeign.claude)
        (Claude.serverEntry "github"
          (run (relayWith [("1", "github")]) addAll projectWithForeign).2.claude) := by
  have hbefore : Claude.serverEntry "github" projectWithForeign.claude =
      some (utf8 "\x7b\"url\":\"https://api/mcp\"\x7d") := by decide +kernel
  refine ⟨github_foreign _ hbefore, fun hkept => ?_⟩
  have hafter : Claude.serverEntry "github"
      (run (relayWith [("1", "github")]) addAll projectWithForeign).2.claude =
      some (Claude.entry "k" { name := "github", url := "https://relay/mcp/github" }) := by
    decide +kernel
  rw [hbefore, hafter] at hkept
  cases hkept with
  | some hsame =>
    -- one member before, three after
    have hmembers := congrArg memberCount hsame.2
    exact absurd hmembers (by decide +kernel)

end ArcRelay.Cli
