import ArcRelay.Cli.Targets
import ArcRelay.Memory.Parser

/-!
# Synchronising a project

`arc-sync` compares the servers that run on the relay with the entries of a project's configuration
files, renames entries whose server has a new name, asks which new servers to add, and remembers in
a state file what was declined and which server each entry is of (`internal/cli/sync/sync.go`,
`internal/cli/config/state.go`).

What is decided depends on the files as they are found and on the answers only, so a run is a plan
(`plan`) and its effects (`run`).  A dry run shares the plan, and two of the exits of a run save the
state without asking whether it is one.

* `plan`, `run`: what is decided, and what is done.
* `run_dry_iff`, `run_dry_saves`: when a dry run does nothing, and one that saves the state.
-/

namespace ArcRelay.Cli

open Json Table List

/-! ### The state file -/

/-- What `state.json` has of a project. -/
structure ProjectState where
  skipped : List String := []
  /-- From the identifier of a server to its name at the last synchronisation. -/
  serverIDs : List (String × String) := []
  deriving DecidableEq

/-- The projects by directory; none where the file has `null`. -/
abbrev State := List (String × Option ProjectState)

/-- A file that cannot be read or decoded counts as empty. -/
def loadState : File (Option State) → State
  | .content (some state) => state
  | _ => []

/-- The project of a directory, with nothing in it if it is new. -/
def projectOf (dir : String) (state : State) : ProjectState := (state.lookup dir).join.getD {}

/-- `IsSkipped`. -/
def isSkipped (dir name : String) (state : State) : Bool :=
  (projectOf dir state).skipped.contains name

/-- `AddSkipped`. -/
def addSkipped (dir name : String) (state : State) : State :=
  let ps := projectOf dir state
  if isSkipped dir name state then state
  else put dir (some { ps with skipped := ps.skipped ++ [name] }) state

/-- `RemoveSkipped`. -/
def removeSkipped (dir name : String) (state : State) : State :=
  let ps := projectOf dir state
  if (state.lookup dir).isNone then state
  else put dir (some { ps with skipped := ps.skipped.erase name }) state

/-- `TrackServer`. -/
def trackServer (dir id name : String) (state : State) : State :=
  let ps := projectOf dir state
  put dir (some { ps with serverIDs := put id name ps.serverIDs }) state

/-- `GetTrackedName`. -/
def getTrackedName (dir id : String) (state : State) : String :=
  ((projectOf dir state).serverIDs.lookup id).getD ""

/-! ### Inputs and files -/

/-- A server as the relay lists it. -/
structure Server where
  id : String
  name : String
  status : String

/-- The relay and the key. -/
structure Credentials where
  relayURL : String
  apiKey : String

/-- The files that are written. -/
inductive Path where
  | claude
  | codex
  | state

/-- The flags, and what the user answers. -/
structure Options where
  projectDir : String
  nonInteractive : Bool
  dryRun : Bool
  input : List String

/-- What a run meets: credentials, the list of servers, files that can be written. -/
structure Env where
  credentials : Except Failure Credentials
  listing : Except Failure (List Server)
  writable : Path → Bool

/-- The files, and the writes to them. -/
structure World where
  claude : File Bytes
  codex : Codex.Config
  state : File (Option State)
  writes : List Path := []

/-- What a run reports. -/
structure Result where
  added : List String := []
  skipped : List String := []
  existed : List String := []

/-- `fmt.Errorf` with `%w`. -/
def Failure.wrap (text : String) : Failure → Failure
  | .error e => .error (text ++ e)
  | .crash => .crash

/-! ### Targets -/

/-- The tools whose configuration is kept. -/
inductive Target where
  | claude
  | codex

namespace Target

/-- `Name`. -/
def name : Target → String
  | .claude => "claude-code"
  | .codex => "codex"

/-- `Detect`. -/
def detect (w : World) : Target → Bool
  | .claude => w.claude.exists
  | .codex => w.codex.exists

/-- `Read`. -/
def read (relayURL : String) (w : World) : Target → Except Failure (List ManagedServer)
  | .claude => Claude.read relayURL w.claude
  | .codex => Codex.read relayURL w.codex

/-- `Write`, with the file that is written. -/
def write (env : Env) (apiKey : String) (servers : List ManagedServer) (w : World) :
    Target → Except Failure World
  | .claude =>
    match Claude.write apiKey servers w.claude with
    | .error e => .error e
    | .ok text =>
      if env.writable .claude then
        .ok { w with claude := .content text, writes := .claude :: w.writes }
      else .error (.error "writing .mcp.json")
  | .codex =>
    match Codex.write apiKey servers w.codex with
    | .error e => .error e
    | .ok raw =>
      if env.writable .codex then
        .ok { w with codex := .content (some raw), writes := .codex :: w.writes }
      else .error (.error "writing .codex/config.toml")

/-- `Remove`, with the file that is written. -/
def remove (env : Env) (names : List String) (w : World) : Target → Except Failure World
  | .claude =>
    match Claude.remove names w.claude with
    | .error e => .error e
    | .ok none => .ok w
    | .ok (some text) =>
      if env.writable .claude then
        .ok { w with claude := .content text, writes := .claude :: w.writes }
      else .error (.error "writing .mcp.json")
  | .codex =>
    match Codex.remove names w.codex with
    | .error e => .error e
    | .ok none => .ok w
    | .ok (some raw) =>
      if env.writable .codex then
        .ok { w with codex := .content (some raw), writes := .codex :: w.writes }
      else .error (.error "writing .codex/config.toml")

end Target

/-- The tools whose files are there; Claude Code if there are none. -/
def detectedTargetsOrDefault (w : World) : List Target :=
  match [Target.claude, Target.codex].filter (Target.detect w) with
  | [] => [.claude]
  | targets => targets

/-- The union by name; the first target that has a name wins. -/
def readManagedServersFromTargets (relayURL : String) (w : World) :
    List Target → List ManagedServer → Except Failure (List ManagedServer)
  | [], ordered => .ok ordered
  | target :: targets, ordered =>
    match target.read relayURL w with
    | .error e => .error (e.wrap ("reading " ++ target.name ++ " config: "))
    | .ok servers =>
      readManagedServersFromTargets relayURL w targets <|
        servers.foldl (fun ordered s =>
          if (ordered.map ManagedServer.name).contains s.name then ordered
          else ordered ++ [s]) ordered

/-! ### The loops -/

/-- The URL of a server at the relay. -/
def serverProxyURL (relayURL name : String) : String := trimSlashes relayURL ++ "/mcp/" ++ name

/-- The search for renamed servers, so far. -/
structure Renaming where
  existing : List String
  state : State
  renames : List ManagedServer := []

/-- One turn of it.  The names that are tracked are read from the map that the loop writes. -/
def renameStep (relayURL dir : String) (r : Renaming) (s : Server) : Renaming :=
  let oldName := getTrackedName dir s.id r.state
  if oldName ≠ "" ∧ oldName ≠ s.name ∧ oldName ∈ r.existing then
    let state := trackServer dir s.id s.name r.state
    { renames := r.renames ++
        [{ name := s.name, url := serverProxyURL relayURL s.name, oldName := oldName }]
      state := if isSkipped dir oldName state then
          addSkipped dir s.name (removeSkipped dir oldName state)
        else state
      existing := (s.name :: r.existing).filter fun name => name ≠ oldName }
  else r

/-- `y` or `yes`, without regard to case and to the space around it. -/
def isYes (line : String) : Bool :=
  let trim := List.dropWhile Memory.isUnicodeSpace
  let answer := (trim (trim (line.toList.map Char.toLower)).reverse).reverse
  answer = ['y'] || answer = ['y', 'e', 's']

/-- The questions to the user, so far. -/
structure Answers where
  state : State
  toAdd : List ManagedServer := []
  skipped : List String := []

/-- The user is asked about each new server. -/
def prompt (relayURL dir : String) (nonInteractive : Bool) :
    List Server → List String → Answers → Answers
  | [], _, a => a
  | s :: servers, input, a =>
    let added := { a with
      toAdd := a.toAdd ++ [{ name := s.name, url := serverProxyURL relayURL s.name }] }
    if nonInteractive then prompt relayURL dir nonInteractive servers input added
    else match input with
      | [] => a
      | line :: input =>
        if isYes line then prompt relayURL dir nonInteractive servers input added
        else prompt relayURL dir nonInteractive servers input { a with
          state := addSkipped dir s.name a.state
          skipped := a.skipped ++ [s.name] }

/-! ### A run -/

/-- All that is known before the files are written. -/
structure Plan where
  creds : Credentials
  running : List Server
  targets : List Target
  existing : List ManagedServer
  renames : List ManagedServer
  newServers : List Server
  answers : Answers

namespace Plan

def toAdd (p : Plan) : List ManagedServer := p.answers.toAdd

def skipped (p : Plan) : List String := p.answers.skipped

/-- What is reported. -/
def result (p : Plan) : Result where
  added := p.toAdd.map ManagedServer.name
  skipped := p.skipped
  existed := p.existing.map ManagedServer.name

/-- The state with the names of the servers that are added. -/
def tracked (dir : String) (p : Plan) : State :=
  p.toAdd.foldl (fun state ms =>
    -- the last server of a name
    match p.running.reverse.find? fun s => s.name = ms.name with
    | none => state
    | some s => trackServer dir s.id s.name state) p.answers.state

end Plan

/-- What a run decides; none if no server runs. -/
def plan (env : Env) (opts : Options) (w : World) : Except Failure (Option Plan) :=
  match env.credentials, env.listing with
  | .error e, _ => .error e
  | .ok _, .error e => .error e
  | .ok creds, .ok allServers =>
    let running := allServers.filter fun s => s.status = "running"
    if running = [] then .ok none
    else
      let targets := detectedTargetsOrDefault w
      match readManagedServersFromTargets creds.relayURL w targets [] with
      | .error e => .error (e.wrap "reading project config: ")
      | .ok existing =>
        let state := loadState w.state
        -- a project that is `null` is a nil pointer, and the loop starts with its fields
        if state.lookup opts.projectDir = some none then .error .crash
        else
          let r := running.foldl (renameStep creds.relayURL opts.projectDir)
            { existing := existing.map ManagedServer.name, state := state }
          let newServers := running.filter fun s =>
            s.name ∉ r.existing ∧ !isSkipped opts.projectDir s.name r.state
          .ok (some {
            creds := creds
            running := running
            targets := targets
            existing := existing
            renames := r.renames
            newServers := newServers
            answers := prompt creds.relayURL opts.projectDir opts.nonInteractive newServers
              opts.input { state := r.state } })

/-- Removes the old entries and writes the new ones, in each target; errors are only logged. -/
def applyRenames (env : Env) (p : Plan) : List Target → World → Option Failure × World
  | [], w => (none, w)
  | target :: targets, w =>
    match target.remove env (p.renames.map ManagedServer.oldName) w with
    | .error .crash => (some .crash, w)
    | removed =>
      let w := removed.toOption.getD w
      match target.write env p.creds.apiKey p.renames w with
      | .error .crash => (some .crash, w)
      | written => applyRenames env p targets (written.toOption.getD w)

/-- The targets are written one after the other, until one fails. -/
def writeTargets (env : Env) (p : Plan) : List Target → World → Option Failure × World
  | [], w => (none, w)
  | target :: targets, w =>
    match target.write env p.creds.apiKey p.toAdd w with
    | .error e => (some (e.wrap ("writing " ++ target.name ++ " config: ")), w)
    | .ok w => writeTargets env p targets w

/-- The state is saved, and the result returned. -/
def saveState (env : Env) (state : State) (result : Result) (w : World) :
    Except Failure Result × World :=
  if env.writable .state then
    (.ok result, { w with state := .content (some state), writes := .state :: w.writes })
  else (.error (.error "saving state: writing state.json"), w)

/-- The last part of a run. -/
def finish (env : Env) (opts : Options) (p : Plan) (w : World) : Except Failure Result × World :=
  if p.newServers = [] then
    if p.renames ≠ [] then saveState env p.answers.state p.result w else (.ok p.result, w)
  else if p.toAdd = [] then
    if p.skipped ≠ [] ∨ p.renames ≠ [] then saveState env p.answers.state p.result w
    else (.ok p.result, w)
  else if opts.dryRun then (.ok p.result, w)
  else
    match writeTargets env p p.targets w with
    | (some e, w) => (.error e, w)
    | (none, w) => saveState env (p.tracked opts.projectDir) p.result w

/-- `Run`.  The renames are applied before the first question in the source; what is asked does not
depend on them. -/
def run (env : Env) (opts : Options) (w : World) : Except Failure Result × World :=
  match plan env opts w with
  | .error e => (.error e, w)
  | .ok none => (.ok {}, w)
  | .ok (some p) =>
    if p.renames = [] ∨ opts.dryRun then finish env opts p w
    else
      match applyRenames env p p.targets w with
      | (some e, w) => (.error e, w)
      | (none, w) => finish env opts p w

/-! ### A dry run -/

variable {env : Env} {opts : Options} {p : Plan} {w : World}

theorem saveState_configs (env : Env) (state : State) (result : Result) (w : World) :
    (saveState env state result w).2.claude = w.claude ∧
      (saveState env state result w).2.codex = w.codex := by
  unfold saveState
  split
  · exact ⟨rfl, rfl⟩
  · exact ⟨rfl, rfl⟩

theorem run_of_dry (hdry : opts.dryRun = true) (hplan : plan env opts w = .ok (some p)) :
    run env opts w = finish env opts p w := by
  unfold run
  rw [hplan]
  exact if_pos (.inr hdry)

theorem run_of_no_plan (h : ∀ p, plan env opts w ≠ .ok (some p)) : (run env opts w).2 = w := by
  unfold run
  split
  · rfl
  · rfl
  · next p hplan => exact absurd hplan (h p)

/-! ### What a run goes by -/

/-- What a run finds: the servers that run, the entries of the targets and the state. -/
structure Found where
  relayURL : String
  running : List Server
  entries : List String
  state : State

/-- None if something cannot be read, if the state of the project is `null`, or if no server
runs. -/
def found (env : Env) (opts : Options) (w : World) : Option Found :=
  match env.credentials, env.listing with
  | .ok creds, .ok allServers =>
    match readManagedServersFromTargets creds.relayURL w (detectedTargetsOrDefault w) [] with
    | .ok existing =>
      let running := allServers.filter fun s => s.status = "running"
      if running = [] ∨ (loadState w.state).lookup opts.projectDir = some none then none
      else some ⟨creds.relayURL, running, existing.map ManagedServer.name, loadState w.state⟩
    | .error _ => none
  | _, _ => none

namespace Found

variable (f : Found) (dir : String)

/-- An entry has the name under which the server is tracked, and this is not its name. -/
def Moved (s : Server) : Prop :=
  getTrackedName dir s.id f.state ≠ "" ∧ getTrackedName dir s.id f.state ≠ s.name ∧
    getTrackedName dir s.id f.state ∈ f.entries

/-- The entries and the state once the names have been brought up to date. -/
def renamed : Renaming :=
  f.running.foldl (renameStep f.relayURL dir) { existing := f.entries, state := f.state }

/-- The servers that are neither an entry nor were declined before. -/
def offered : List Server :=
  f.running.filter fun s =>
    s.name ∉ (f.renamed dir).existing ∧ !isSkipped dir s.name (f.renamed dir).state

end Found

/-- The servers that are answered with yes. -/
def accepted (opts : Options) (offered : List Server) : List Server :=
  if opts.nonInteractive then offered
  else ((offered.zip opts.input).filter fun q => isYes q.2).map Prod.fst

/-- The servers that are answered otherwise. -/
def declined (opts : Options) (offered : List Server) : List Server :=
  if opts.nonInteractive then []
  else ((offered.zip opts.input).filter fun q => !isYes q.2).map Prod.fst

theorem prompt_nonInteractive {relayURL dir : String} {servers : List Server}
    {input : List String} {a : Answers} :
    (prompt relayURL dir true servers input a).toAdd = a.toAdd ++ servers.map (fun s =>
        { name := s.name, url := serverProxyURL relayURL s.name }) ∧
      (prompt relayURL dir true servers input a).skipped = a.skipped := by
  induction servers generalizing a with
  | nil => exact ⟨(append_nil _).symm, rfl⟩
  | cons s servers ih => ?_
  rw [prompt.eq_def]
  dsimp only
  rw [if_pos rfl]
  exact ⟨by rw [ih.1, append_assoc]; rfl, ih.2⟩

theorem prompt_interactive {relayURL dir : String} {servers : List Server}
    {input : List String} {a : Answers} :
    (prompt relayURL dir false servers input a).toAdd =
        a.toAdd ++ ((servers.zip input).filter fun q => isYes q.2).map (fun q =>
          { name := q.1.name, url := serverProxyURL relayURL q.1.name }) ∧
      (prompt relayURL dir false servers input a).skipped =
        a.skipped ++ ((servers.zip input).filter fun q => !isYes q.2).map fun q => q.1.name := by
  induction servers generalizing input a with
  | nil => simp [prompt]
  | cons s servers ih => ?_
  cases input with
  | nil => simp [prompt]
  | cons line input => ?_
  rw [prompt, if_neg Bool.false_ne_true]
  cases hyes : isYes line with
  | true =>
    rw [if_pos rfl, ih.1, ih.2]
    simp [hyes]
  | false =>
    rw [if_neg Bool.false_ne_true, ih.1, ih.2]
    simp [hyes]

theorem prompt_eq (relayURL : String) (opts : Options) (offered : List Server) (state : State) :
    let a := prompt relayURL opts.projectDir opts.nonInteractive offered opts.input
      { state := state }
    a.toAdd = (accepted opts offered).map (fun s =>
        { name := s.name, url := serverProxyURL relayURL s.name }) ∧
      a.skipped = (declined opts offered).map Server.name := by
  unfold accepted declined
  cases opts.nonInteractive with
  | true => exact ⟨prompt_nonInteractive.1.trans (nil_append _), prompt_nonInteractive.2⟩
  | false =>
    refine ⟨prompt_interactive.1.trans ?_, prompt_interactive.2.trans ?_⟩
    · simp [Function.comp_def]
    · simp [Function.comp_def]

/-- **The plan of a run follows from what it finds.** -/
theorem plan_of_found (opts : Options) {f : Found} (h : found env opts w = some f) :
    ∃ p, plan env opts w = .ok (some p) ∧ p.renames = (f.renamed opts.projectDir).renames ∧
      p.newServers = f.offered opts.projectDir ∧
      p.toAdd = (accepted opts (f.offered opts.projectDir)).map (fun s =>
        { name := s.name, url := serverProxyURL f.relayURL s.name }) ∧
      p.skipped = (declined opts (f.offered opts.projectDir)).map Server.name := by
  unfold found at h
  split at h
  case h_2 => cases h
  next creds allServers hcreds hlisting =>
  split at h
  case h_2 => cases h
  next existing hexisting =>
  obtain ⟨hruns, hf⟩ := Option.ite_none_left_eq_some.mp h
  obtain ⟨hrunning, hstate⟩ := not_or.mp hruns
  obtain rfl := Option.some.inj hf
  have hplan : ∃ p, plan env opts w = .ok (some p) := by
    unfold plan
    rw [hcreds, hlisting]
    dsimp only
    rw [if_neg hrunning, hexisting]
    dsimp only
    rw [if_neg hstate]
    exact ⟨_, rfl⟩
  obtain ⟨p, hp⟩ := hplan
  refine ⟨p, hp, ?_⟩
  unfold plan at hp
  rw [hcreds, hlisting] at hp
  dsimp only at hp
  rw [if_neg hrunning, hexisting] at hp
  dsimp only at hp
  rw [if_neg hstate] at hp
  obtain rfl := Option.some.inj (Except.ok.inj hp)
  exact ⟨rfl, rfl, prompt_eq _ opts _ _⟩

theorem found_of_plan (h : plan env opts w = .ok (some p)) : ∃ f, found env opts w = some f := by
  unfold plan at h
  split at h
  · cases h
  · cases h
  next creds allServers hcreds hlisting =>
  dsimp only at h
  split at h
  · cases h
  next hrunning =>
  split at h
  · cases h
  next existing hexisting =>
  split at h
  · cases h
  next hstate =>
  unfold found
  rw [hcreds, hlisting]
  dsimp only
  rw [hexisting]
  dsimp only
  rw [if_neg (not_or.mpr ⟨hrunning, hstate⟩)]
  exact ⟨_, rfl⟩

/-- Nothing is renamed exactly if no server was found under another name. -/
theorem renames_eq_nil (f : Found) (dir : String) :
    (f.renamed dir).renames = [] ↔ ∀ s ∈ f.running, ¬ f.Moved dir s := by
  have hgrows : ∀ (servers : List Server) (r : Renaming),
      r.renames <+: (servers.foldl (renameStep f.relayURL dir) r).renames := by
    intro servers
    induction servers with
    | nil => exact fun r => prefix_rfl
    | cons s servers ih => ?_
    intro r
    refine .trans ?_ (ih _)
    unfold renameStep
    dsimp only
    split
    · exact prefix_append _ _
    · exact prefix_rfl
  suffices h : ∀ servers : List Server,
      (servers.foldl (renameStep f.relayURL dir) ⟨f.entries, f.state, []⟩).renames = [] ↔
        ∀ s ∈ servers, ¬ f.Moved dir s from h f.running
  intro servers
  induction servers with
  | nil => exact iff_of_true rfl nofun
  | cons s servers ih => ?_
  rw [foldl_cons, forall_mem_cons]
  by_cases hmoved : f.Moved dir s
  · -- the first server that has moved meets what was found
    refine iff_of_false (fun hnil => ?_) fun h => h.1 hmoved
    have hstep : (renameStep f.relayURL dir ⟨f.entries, f.state, []⟩ s).renames ≠ [] := by
      unfold Found.Moved at hmoved
      rw [renameStep]
      dsimp only
      rw [if_pos hmoved]
      simp
    have hpre := hgrows servers (renameStep f.relayURL dir ⟨f.entries, f.state, []⟩ s)
    rw [hnil] at hpre
    exact hstep (prefix_nil.mp hpre)
  · have hstep : renameStep f.relayURL dir ⟨f.entries, f.state, []⟩ s =
        ⟨f.entries, f.state, []⟩ := if_neg hmoved
    rw [hstep, ih]
    exact ⟨fun h => ⟨hmoved, h⟩, fun h => h.2⟩

/-- What a dry run does to the files: it saves the state if nothing is added and something was
renamed or skipped. -/
theorem finish_dry (hdry : opts.dryRun = true) (hnew : p.newServers = [] → p.toAdd = [])
    (hskip : p.newServers = [] → p.skipped = []) :
    (finish env opts p w).2 = w ↔
      (env.writable .state = true → p.toAdd ≠ [] ∨ p.renames = [] ∧ p.skipped = []) := by
  have hsave : ∀ state, (saveState env state p.result w).2 = w ↔ env.writable .state = false := by
    intro state
    unfold saveState
    cases env.writable .state with
    | false => simp
    | true =>
      refine iff_of_false (fun heq => ?_) (by simp)
      have hwrites : Path.state :: w.writes = w.writes := congrArg World.writes heq
      exact cons_ne_self _ _ hwrites
  unfold finish
  split
  · next hnone =>
    rw [hnew hnone, hskip hnone]
    split
    · next hrenames => simp [hsave, hrenames]
    · next hrenames => simp [not_not.mp hrenames]
  split
  · next hadd =>
    split
    · next hany =>
      have hsomething : ¬ (p.renames = [] ∧ p.skipped = []) :=
        fun h => hany.elim (absurd h.2) (absurd h.1)
      rw [hsave]
      simp [hadd, hsomething]
    · next hnothing => simp_all
  · next hadd => simp [hadd]

/-- **A dry run does nothing**, so that a run after it is the run without it, if and only if the
state cannot be written, something is to be added, or no server has another name than before and
nothing is declined. -/
theorem run_dry_iff (env : Env) (opts : Options) (w : World) :
    ((run env { opts with dryRun := true } w).2 = w ∧
      run env { opts with dryRun := false } (run env { opts with dryRun := true } w).2 =
        run env { opts with dryRun := false } w) ↔
    ∀ f, found env opts w = some f → env.writable .state = true →
      accepted opts (f.offered opts.projectDir) ≠ [] ∨
        (∀ s ∈ f.running, ¬ f.Moved opts.projectDir s) ∧
          declined opts (f.offered opts.projectDir) = [] := by
  have hframe : (run env { opts with dryRun := true } w).2 = w ↔
      ∀ f, found env opts w = some f → env.writable .state = true →
        accepted opts (f.offered opts.projectDir) ≠ [] ∨
          (∀ s ∈ f.running, ¬ f.Moved opts.projectDir s) ∧
            declined opts (f.offered opts.projectDir) = [] := by
    cases hf : found env opts w with
    | none =>
      refine iff_of_true (run_of_no_plan fun p hplan => ?_) nofun
      obtain ⟨f, hf'⟩ := found_of_plan hplan
      cases hf.symm.trans hf'
    | some f => ?_
    obtain ⟨p, hplan, hrenames, hnew, hadd, hskip⟩ :=
      plan_of_found { opts with dryRun := true } hf
    rw [run_of_dry rfl hplan, finish_dry rfl]
    · rw [hrenames, hadd, hskip, ne_eq, map_eq_nil_iff, map_eq_nil_iff, renames_eq_nil]
      exact ⟨fun h f' hf' => Option.some.inj hf' ▸ h, fun h => h f rfl⟩
    · intro hnone
      rw [hadd, hnew.symm.trans hnone, map_eq_nil_iff]
      simp [accepted]
    · intro hnone
      rw [hskip, hnew.symm.trans hnone, map_eq_nil_iff]
      simp [declined]
  rw [← hframe]
  exact ⟨fun h => h.1, fun h => ⟨h, by rw [h]⟩⟩

/-- A project that knows a server as `old`. -/
def projectWithOld : World where
  claude := .content (utf8
    "\x7b\"mcpServers\":\x7b\"old\":\x7b\"url\":\"https://relay/mcp/old\"\x7d\x7d\x7d")
  codex := .missing
  state := .content (some [("/p", some { serverIDs := [("1", "old")] })])

/-- A relay with these servers running. -/
def relayWith (servers : List (String × String)) : Env where
  credentials := .ok { relayURL := "https://relay", apiKey := "k" }
  listing := .ok (servers.map fun s => { id := s.1, name := s.2, status := "running" })
  writable := fun _ => true

/-- Every new server is added. -/
def addAll : Options where
  projectDir := "/p"
  nonInteractive := true
  dryRun := false
  input := []

/-- A server was renamed and nothing is new: the dry run saves the new name, and the run after it
does not see the rename.  It adds the new entry and leaves the old one. -/
theorem run_dry_saves :
    (run (relayWith [("1", "new")]) { addAll with dryRun := true } projectWithOld).2.state ≠
        projectWithOld.state ∧
      Claude.serverEntry "old" (run (relayWith [("1", "new")]) { addAll with dryRun := false }
        (run (relayWith [("1", "new")]) { addAll with dryRun := true } projectWithOld).2).2.claude ≠
        none ∧
      Claude.serverEntry "old" (run (relayWith [("1", "new")]) { addAll with dryRun := false }
        projectWithOld).2.claude = none := by
  decide +kernel

end ArcRelay.Cli
