import ArcRelay.Lib.Table
import ArcRelay.Manager.Lifecycle

/-!
# The images of build servers

A stdio server may be configured by what its image is built from: a package, a repository or a
Dockerfile.  The image gets a tag that is made from the package or the repository and a version
(`BuildImageTag` in `internal/store/servers.go`), and it is built when docker has no image with
that tag (`startStdio` and `buildImageIfNeeded` in `internal/proxy/proxy.go`).  The tag is written
into the configuration, and an edit of the server keeps it there as long as runtime, package and
version stay the same (`handleServerEdit` in `internal/web/handlers.go`).

The tag says nothing of the runtime, of the owner of the repository and of the Dockerfile.  Docker
is a map from tags to what the image was built from.

* `Distinct`, `Steady`: different builds have different tags, and edits keep them.
* `start_runs_current`, `start_runs_other`: a container runs the image of its server, or that of
  another.
-/

namespace ArcRelay.Images

open Lifecycle List Option Except

/-! ### The state -/

structure Started where
  id : String
  build : StdioBuildConfig
  /-- What the image of the container was built from; none if it was not built here. -/
  ran : Option StdioBuildConfig
  deriving DecidableEq

structure State where
  rows : List (String × Server) := []
  /-- The images of docker by their tags, the last one in front. -/
  images : List (String × StdioBuildConfig) := []
  log : List Started := []

structure Env where
  storeErr : Option String := none
  buildErr : Option String := none
  dockerErr : Option String := none

/-! ### Forms -/

structure StdioForm where
  mode : String
  image : String := ""
  build : StdioBuildConfig := {}

def parseStdioForm (f : StdioForm) : Except String StdioConfig :=
  if f.mode = "build" then
    if f.build.package = "" ∧ f.build.gitURL = "" ∧ f.build.dockerfile = "" then
      .error "package name, git URL, or custom Dockerfile is required for build mode"
    else if f.build.runtime ≠ "python" ∧ f.build.runtime ≠ "node" then
      .error "runtime must be python or node"
    else .ok { image := "", build := some f.build }
  else if f.image = "" then .error "docker image is required for stdio servers"
  else .ok { image := f.image }

inductive ServerForm where
  | stdio (f : StdioForm)
  | http (cfg : HTTPConfig)
  | remote (cfg : OAuth.RemoteConfig)

def parseServerForm : ServerForm → Except String (ServerType × Config)
  | .stdio f =>
    match parseStdioForm f with
    | .error err => .error err
    | .ok cfg => .ok (.stdio, cfg.marshal)
  | .http cfg =>
    if cfg.image = "" ∧ cfg.url = "" then
      .error "docker image or external URL is required for HTTP servers"
    else .ok (.http, ⟨some { image := cfg.image }, some cfg, some ⟨cfg.url, {}⟩⟩)
  | .remote cfg =>
    if cfg.url = "" then .error "url is required for remote servers"
    else .ok (.remote, marshalRemote cfg)

/-! ### The operations -/

def create (id : String) (srv : Server) (e : Env) (s : State) : State :=
  if e.storeErr.isSome ∨ (s.rows.lookup id).isSome then s
  else { s with rows := s.rows ++ [(id, srv)] }

def setConfig (id : String) (config : Config) (rows : List (String × Server)) :
    List (String × Server) :=
  rows.map fun row => if row.1 = id then (row.1, { row.2 with config := config }) else row

/-- `handleServerEdit`. -/
def edit (id name : String) (form : ServerForm) (e : Env) (s : State) : State :=
  match s.rows.lookup id, parseServerForm form with
  | some srv, .ok (serverType, config) =>
    if (validateSlug name).isSome ∨ e.storeErr.isSome then s
    else
      { s with
        rows := s.rows.map fun row =>
          if row.1 = id then
            (row.1, { row.2 with
              name := name
              serverType := serverType
              config := preserveConfig srv serverType config })
          else row }
  | _, _ => s

/-- Builds an image unless there is one with the tag, or in any case if it is forced to.  The
image of the configuration becomes the tag only if it is built. -/
def buildImageIfNeeded (id : String) (cfg : StdioConfig) (build : StdioBuildConfig)
    (force : Bool) (e : Env) (s : State) : Except String (StdioConfig × State) :=
  let tag := build.buildImageTag
  if force = false ∧ (s.images.lookup tag).isSome then .ok (cfg, s)
  else
    match e.buildErr with
    | some err => .error err
    | none =>
      let cfg := { cfg with image := tag }
      .ok (cfg,
        { s with
          images := (tag, build) :: s.images
          rows := if e.storeErr.isSome then s.rows else setConfig id cfg.marshal s.rows })

def startContainer (id : String) (build : StdioBuildConfig) (cfg : StdioConfig) (e : Env)
    (s : State) : State :=
  if e.dockerErr.isSome then s
  else { s with log := ⟨id, build, s.images.lookup cfg.image⟩ :: s.log }

/-- `startStdio` of a server that builds its image; others have no such image. -/
def startStdio (id : String) (e : Env) (s : State) : State :=
  match (s.rows.lookup id).bind fun srv =>
    if srv.serverType = .stdio then srv.config.stdio else none with
  | none => s
  | some cfg =>
    match cfg.build with
    | none => s
    | some build =>
      let tagged :=
        { cfg with image := if cfg.image = "" then build.buildImageTag else cfg.image }
      match buildImageIfNeeded id tagged build false e s with
      | .error _ => s
      | .ok (built, s') => startContainer id build built e s'

def rebuildImage (id : String) (e : Env) (s : State) : State :=
  match (s.rows.lookup id).bind fun srv =>
    if srv.serverType = .stdio then srv.config.stdio else none with
  | none => s
  | some cfg =>
    match cfg.build with
    | none => s
    | some build =>
      match buildImageIfNeeded id cfg build true e s with
      | .error _ => s
      | .ok (_, s') => s'

inductive Op where
  | create (id : String) (srv : Server)
  | edit (id name : String) (form : ServerForm)
  | start (id : String)
  | rebuild (id : String)

def Op.apply (e : Env) (s : State) : Op → State
  | .create id srv => Images.create id srv e s
  | .edit id name form => Images.edit id name form e s
  | .start id => startStdio id e s
  | .rebuild id => rebuildImage id e s

def run (s : State) (ops : List (Op × Env)) : State := ops.foldl (fun s op => op.1.apply op.2 s) s

/-! ### The conditions -/

def buildOf (config : Config) : Option StdioBuildConfig := config.stdio.bind StdioConfig.build

def Op.build : Op → Option StdioBuildConfig
  | .create _ srv => buildOf srv.config
  | .edit _ _ form => (parseServerForm form).toOption.bind fun p => buildOf p.2
  | _ => none

def builds (ops : List (Op × Env)) : List StdioBuildConfig := ops.filterMap fun op => op.1.build

/-- Different things that are built have different tags. -/
def Distinct (bs : List StdioBuildConfig) : Prop :=
  ∀ b ∈ bs, ∀ b' ∈ bs, b.buildImageTag = b'.buildImageTag → b = b'

/-- An edit that leaves runtime, package and version as they were leaves the tag, and a server that
is created has no image yet, or the one with its tag. -/
def Op.Keeps (s : State) : Op → Prop
  | .create _ srv => ∀ cfg b, srv.config.stdio = some cfg → cfg.build = some b →
      cfg.image = "" ∨ cfg.image = b.buildImageTag
  | .edit id _ form => ∀ srv p b b', s.rows.lookup id = some srv → parseServerForm form = .ok p →
      buildOf srv.config = some b → buildOf p.2 = some b' → b'.package = b.package →
      b'.version = b.version → b'.runtime = b.runtime → b'.buildImageTag = b.buildImageTag
  | _ => True

def Steady : State → List (Op × Env) → Prop
  | _, [] => True
  | s, op :: ops => op.1.Keeps s ∧ Steady (op.1.apply op.2 s) ops

/-! ### The invariant -/

def Tagged (bs : List StdioBuildConfig) (config : Config) : Prop :=
  ∀ cfg b, config.stdio = some cfg → cfg.build = some b →
    b ∈ bs ∧ (cfg.image = "" ∨ cfg.image = b.buildImageTag)

structure Inv (bs : List StdioBuildConfig) (s : State) : Prop where
  images : ∀ p ∈ s.images, p.2 ∈ bs ∧ p.1 = p.2.buildImageTag
  rows : ∀ row ∈ s.rows, Tagged bs row.2.config
  log : ∀ x ∈ s.log, x.ran = some x.build

variable {bs : List StdioBuildConfig} {s : State} {cfg : StdioConfig} {b : StdioBuildConfig}
  {id : String} {e : Env} {srv : Server} {form : ServerForm} {p : ServerType × Config}

theorem tagged_marshal
    (h : ∀ b, cfg.build = some b → b ∈ bs ∧ (cfg.image = "" ∨ cfg.image = b.buildImageTag)) :
    Tagged bs cfg.marshal := by
  intro cfg' b hcfg hbuild
  cases hcfg
  exact h b hbuild

theorem Inv.lookup (h : Inv bs s) (hdistinct : Distinct bs) (hb : b ∈ bs)
    (hfound : (s.images.lookup b.buildImageTag).isSome) :
    s.images.lookup b.buildImageTag = some b := by
  obtain ⟨b', hb'⟩ := isSome_iff_exists.mp hfound
  obtain ⟨hmem, htag⟩ := h.images _ (Table.mem_of_lookup hb')
  rw [hb', hdistinct b hb b' hmem htag]

theorem Inv.create (h : Inv bs s) (hsrv : Tagged bs srv.config) : Inv bs (create id srv e s) := by
  unfold Images.create
  split
  · exact h
  refine ⟨h.images, fun row hrow => ?_, h.log⟩
  rcases mem_append.mp hrow with hold | hnew
  · exact h.rows row hold
  rw [mem_singleton.mp hnew]
  exact hsrv

theorem rows_setConfig {config : Config} {rows : List (String × Server)}
    (h : ∀ row ∈ rows, Tagged bs row.2.config) (hconfig : Tagged bs config) :
    ∀ row ∈ setConfig id config rows, Tagged bs row.2.config := by
  intro row hrow
  obtain ⟨old, hold, rfl⟩ := mem_map.mp hrow
  split
  · exact hconfig
  · exact h old hold

theorem parseServerForm_image (h : parseServerForm form = .ok p) (hcfg : p.2.stdio = some cfg)
    (hbuild : cfg.build = some b) : cfg.image = "" := by
  cases form with
  | stdio f =>
    unfold parseServerForm parseStdioForm at h
    dsimp only at h
    split at h
    · cases h
    next parsed hparse =>
    cases h
    cases hcfg
    split at hparse
    · split at hparse
      · cases hparse
      split at hparse
      · cases hparse
      · rw [← ok.inj hparse]
    split at hparse
    · cases hparse
    rw [← ok.inj hparse] at hbuild
    cases hbuild
  | http c =>
    rw [parseServerForm] at h
    split at h
    · cases h
    cases h
    rw [← some.inj hcfg] at hbuild
    cases hbuild
  | remote c =>
    rw [parseServerForm] at h
    split at h
    · cases h
    cases h
    rw [← some.inj hcfg]

theorem tagged_preserve (hold : Tagged bs srv.config) (hmem : ∀ b, buildOf p.2 = some b → b ∈ bs)
    (himage : ∀ cfg b, p.2.stdio = some cfg → cfg.build = some b → cfg.image = "")
    (hkeeps : ∀ b b', buildOf srv.config = some b → buildOf p.2 = some b' →
      b'.package = b.package → b'.version = b.version → b'.runtime = b.runtime →
      b'.buildImageTag = b.buildImageTag) : Tagged bs (preserveConfig srv p.1 p.2) := by
  have hnew : Tagged bs p.2 := by
    intro cfg b hcfg hbuild
    refine ⟨hmem b ?_, .inl (himage cfg b hcfg hbuild)⟩
    rw [buildOf, hcfg]
    exact hbuild
  unfold preserveConfig
  split
  · split
    · next oldCfg newCfg holdCfg hnewCfg =>
      split
      · next newBuild oldBuild hnewBuild holdBuild =>
        split
        · next hsame =>
          -- the image is that of the old configuration, and its tag is the new one
          refine tagged_marshal fun b hb => ?_
          obtain rfl : newBuild = b := some.inj (hnewBuild.symm.trans hb)
          have hb' : buildOf p.2 = some newBuild := by rw [buildOf, hnewCfg]; exact hnewBuild
          have hb : buildOf srv.config = some oldBuild := by rw [buildOf, holdCfg]; exact holdBuild
          have htag := hkeeps oldBuild newBuild hb hb' hsame.2.1 hsame.2.2.1 hsame.2.2.2
          obtain ⟨-, hempty | heq⟩ := hold oldCfg oldBuild holdCfg holdBuild
          · exact absurd hempty hsame.1
          · exact ⟨hmem newBuild hb', .inr (heq.trans htag.symm)⟩
        · exact hnew
      · exact hnew
    · exact hnew
  · exact hnew
  · split
    · intro cfg b hcfg hbuild
      rw [← some.inj hcfg] at hbuild
      cases hbuild
    · exact hnew

variable (h : Inv bs s)

include h

theorem Inv.edit {name : String} (hmem : ∀ b, (Op.edit id name form).build = some b → b ∈ bs)
    (hkeeps : (Op.edit id name form).Keeps s) : Inv bs (edit id name form e s) := by
  unfold Images.edit
  split
  · next srv serverType config hsrv hform =>
    split
    · exact h
    refine ⟨h.images, fun row hrow => ?_, h.log⟩
    obtain ⟨old, hold, rfl⟩ := mem_map.mp hrow
    split
    · refine tagged_preserve (p := (serverType, config)) (h.rows _ (Table.mem_of_lookup hsrv))
        (fun b hb => hmem b ?_) (fun cfg b hcfg hb => parseServerForm_image hform hcfg hb)
        fun b b' hb hb' => hkeeps srv _ b b' hsrv hform hb hb'
      rw [Op.build, hform]
      exact hb
    · exact h.rows old hold
  · exact h

theorem Inv.build {cfg' : StdioConfig} {force : Bool} {s' : State} (hb : b ∈ bs)
    (hbuild : cfg.build = some b) (hok : buildImageIfNeeded id cfg b force e s = .ok (cfg', s')) :
    Inv bs s' ∧ (s'.images.lookup b.buildImageTag).isSome ∧
      (cfg'.image = cfg.image ∨ cfg'.image = b.buildImageTag) := by
  unfold buildImageIfNeeded at hok
  dsimp only at hok
  split at hok
  · next hexists =>
    obtain ⟨rfl, rfl⟩ := Prod.mk.inj (ok.inj hok)
    exact ⟨h, hexists.2, .inl rfl⟩
  split at hok
  · cases hok
  obtain ⟨rfl, rfl⟩ := Prod.mk.inj (ok.inj hok)
  refine ⟨⟨fun p hp => ?_, ?_, h.log⟩, by simp, .inr rfl⟩
  · rcases mem_cons.mp hp with rfl | hold
    · exact ⟨hb, rfl⟩
    · exact h.images p hold
  split
  · exact h.rows
  refine rows_setConfig h.rows (tagged_marshal fun b' hb' => ?_)
  obtain rfl : b = b' := some.inj (hbuild.symm.trans hb')
  exact ⟨hb, .inr rfl⟩

theorem Inv.configured
    (hcfg : ((s.rows.lookup id).bind fun srv =>
      if srv.serverType = .stdio then srv.config.stdio else none) = some cfg)
    (hbuild : cfg.build = some b) : b ∈ bs ∧ (cfg.image = "" ∨ cfg.image = b.buildImageTag) := by
  obtain ⟨srv, hsrv, hstdio⟩ := bind_eq_some_iff.mp hcfg
  split at hstdio
  · exact h.rows _ (Table.mem_of_lookup hsrv) cfg b hstdio hbuild
  · cases hstdio

theorem Inv.start (hdistinct : Distinct bs) : Inv bs (startStdio id e s) := by
  unfold startStdio
  split
  · exact h
  next cfg hcfg =>
  split
  · exact h
  next b hbuild =>
  obtain ⟨hb, himage⟩ := h.configured hcfg hbuild
  dsimp only
  split
  · exact h
  next built s' hok =>
  have htagged : StdioConfig.build
      { cfg with image := if cfg.image = "" then b.buildImageTag else cfg.image } = some b :=
    hbuild
  obtain ⟨hinv, hfound, hbuilt⟩ := h.build hb htagged hok
  -- whether it was built or not, the image is the one with the tag
  have htag : built.image = b.buildImageTag := by
    rcases hbuilt with hsame | hnew
    · rw [hsame]
      rcases himage with hempty | heq
      · exact if_pos hempty
      split
      · rfl
      · exact heq
    · exact hnew
  unfold startContainer
  split
  · exact hinv
  refine ⟨hinv.images, hinv.rows, fun x hx => ?_⟩
  rcases mem_cons.mp hx with rfl | hold
  · rw [htag]
    exact hinv.lookup hdistinct hb hfound
  · exact hinv.log x hold

theorem Inv.rebuild : Inv bs (rebuildImage id e s) := by
  unfold rebuildImage
  split
  · exact h
  next cfg hcfg =>
  split
  · exact h
  next b hbuild =>
  split
  · exact h
  · next hok => exact (h.build (h.configured hcfg hbuild).1 hbuild hok).1

theorem Inv.apply {op : Op} (hdistinct : Distinct bs)
    (hmem : ∀ b, op.build = some b → b ∈ bs) (hkeeps : op.Keeps s) : Inv bs (op.apply e s) := by
  cases op with
  | create id srv =>
    refine h.create fun cfg b hcfg hbuild => ⟨hmem b ?_, hkeeps cfg b hcfg hbuild⟩
    rw [Op.build, buildOf, hcfg]
    exact hbuild
  | edit id name form => exact h.edit hmem hkeeps
  | start id => exact h.start hdistinct
  | rebuild id => exact h.rebuild

theorem Inv.run {ops : List (Op × Env)} (hdistinct : Distinct bs)
    (hmem : ∀ b ∈ builds ops, b ∈ bs) (hsteady : Steady s ops) : Inv bs (run s ops) := by
  induction ops generalizing s with
  | nil => exact h
  | cons op ops ih => ?_
  obtain ⟨hkeeps, hrest⟩ := hsteady
  have hfirst : ∀ b, op.1.build = some b → b ∈ bs := fun b hb =>
    hmem b (mem_filterMap.mpr ⟨op, mem_cons_self, hb⟩)
  refine ih (h.apply hdistinct hfirst hkeeps) (fun b hb => hmem b ?_) hrest
  obtain ⟨x, hx, hxb⟩ := mem_filterMap.mp hb
  exact mem_filterMap.mpr ⟨x, mem_cons_of_mem op hx, hxb⟩

omit h

/-- **A container runs an image built from the current configuration of its server**: in every
sequence of creations, edits, starts and rebuilds of any number of servers, if different builds
have different tags, and edits that keep the image of a server keep its tag. -/
theorem start_runs_current (ops : List (Op × Env)) (hdistinct : Distinct (builds ops))
    (hsteady : Steady {} ops) (x : Started) (hx : x ∈ (run {} ops).log) :
    x.ran = some x.build := by
  have hinit : Inv (builds ops) {} :=
    ⟨fun _ h => absurd h not_mem_nil, fun _ h => absurd h not_mem_nil,
      fun _ h => absurd h not_mem_nil⟩
  exact (hinit.run hdistinct (fun _ hb => hb) hsteady).log x hx

/-! ### Servers with packages -/

def packageBuild (runtime : String) (package : String := "tools") : StdioBuildConfig where
  runtime := runtime
  package := package

def packageServer (runtime : String) (package : String := "tools") : Server where
  name := runtime
  serverType := .stdio
  config := StdioConfig.marshal { build := some (packageBuild runtime package) }
  status := .stopped

/-- Two servers are started; then the package of the first is replaced, and it is started again. -/
def twoServers : List (Op × Env) :=
  [(.create "s1" (packageServer "python"), {}),
    (.create "s2" (packageServer "python" "search"), {}), (.start "s1", {}), (.start "s2", {}),
    (.edit "s1" "files" (.stdio ⟨"build", "", packageBuild "node" "files"⟩), {}),
    (.start "s1", {})]

theorem twoServers_steady : Steady {} twoServers := by
  refine ⟨fun cfg b hcfg _ => .inl ?_, fun cfg b hcfg _ => .inl ?_, trivial, trivial, ?_,
    trivial, trivial⟩
  · rw [← some.inj hcfg]
  · rw [← some.inj hcfg]
  -- the edit is to another package
  intro srv p b b' hrow hform hbuild hbuild' hpackage
  have hold : ((run {} (twoServers.take 4)).rows.lookup "s1").bind (buildOf ·.config) =
      some (packageBuild "python") := by decide +kernel
  have hb : ((run {} (twoServers.take 4)).rows.lookup "s1").bind (buildOf ·.config) = some b :=
    (congrArg (·.bind (buildOf ·.config)) hrow).trans hbuild
  have hnew : (parseServerForm (.stdio ⟨"build", "", packageBuild "node" "files"⟩)).toOption.bind
      (buildOf ·.2) = some (packageBuild "node" "files") := by decide +kernel
  rw [hform] at hnew
  rw [← some.inj (hold.symm.trans hb), some.inj (hbuild'.symm.trans hnew)] at hpackage
  exact absurd hpackage (by decide)

theorem start_runs_current_package :
    (run {} twoServers).log.map Started.build =
        [packageBuild "node" "files", packageBuild "python" "search", packageBuild "python"] ∧
      ∀ x ∈ (run {} twoServers).log, x.ran = some x.build := by
  have hdistinct : Distinct (builds twoServers) := by
    have htags : ((builds twoServers).map StdioBuildConfig.buildImageTag).Nodup := by
      decide +kernel
    exact fun b hb b' hb' htag => inj_on_of_nodup_map htags hb hb' htag
  exact ⟨by decide +kernel, start_runs_current twoServers hdistinct twoServers_steady⟩

/-- **The second server runs the image of the first**: a package for `python` and the package of
the same name for `node` have one tag. -/
theorem start_runs_other :
    (run {} [(.create "s1" (packageServer "python"), {}), (.create "s2" (packageServer "node"), {}),
        (.start "s1", {}), (.start "s2", {})]).log.head? =
      some ⟨"s2", packageBuild "node", some (packageBuild "python")⟩ := by
  decide +kernel

end ArcRelay.Images
