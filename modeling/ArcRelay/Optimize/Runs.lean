import ArcRelay.Lib.Json
import Mathlib.Algebra.GroupWithZero.Nat
import Mathlib.Data.List.Sort

/-!
# Optimisation runs

An administrator may have the tool definitions of a server shortened by a language model.  The
handler (`runOptimize` in `internal/server/http.go`) looks at the row of the server in
`tool_optimizations`, marks it as running and starts a goroutine that writes the result when the
model has answered (`internal/store/optimize.go`).  Whoever lists the tools of the server and finds
that they have changed marks a row that is ready as stale.

The row is looked at and written in separate statements, and it outlives the process.  A machine
here is the row and the goroutines of the process that have a statement to go; an event lets one of
them do its next statement, which may fail.

* `Machine`, `Event`: the row and the goroutines, and what can happen.
* `carefulRun`: the condition on a run.
* `exec_one_run`, `exec_two_runs`: one run at a time, and two requests that start two.
-/

namespace ArcRelay.Optimize

open Json List Bool

/-! ### The row of a server -/

/-- The states of `tool_optimizations`. -/
inductive Status where
  | running
  | ready
  | stale
  | error
  deriving DecidableEq

/-- A tool, as far as the hash and the optimiser read it. -/
structure Tool where
  name : String
  description : String
  inputSchema : Bytes
  deriving DecidableEq

/-- A row of `tool_optimizations`. -/
structure Record where
  toolsHash : String
  originalChars : ℕ
  optimizedChars : ℕ := 0
  optimizedTools : Bytes := []
  promptVersion : String
  model : String
  status : Status
  errorMsg : String := ""

/-- A row that is there keeps its identifier only, which nobody reads. -/
def upsert (opt : Record) (_ : Option Record) : Option Record := some opt

/-- `SetStatus`: a row that is not there stays away. -/
def setStatus (status : Status) (errorMsg : String) (row : Option Record) : Option Record :=
  row.map fun r => { r with status := status, errorMsg := errorMsg }

/-- `PromptVersion`. -/
def promptVersion : String := "v1.1"

/-- The size of one tool, in octets. -/
def Tool.chars (t : Tool) : ℕ := t.description.utf8ByteSize + t.inputSchema.length

/-- The size of a list of tools. -/
def totalChars (tools : List Tool) : ℕ := (tools.map Tool.chars).sum

/-- An order that `sort.Slice` by name may give: that of tools of one name is not specified. -/
def Sorts (tools sorted : List Tool) : Prop :=
  sorted.Perm tools ∧ sorted.Pairwise fun s t => s.name ≤ t.name

/-- The libraries behind `HashTools`: the digest, and a sort by name. -/
structure Hasher where
  sha256 : Bytes → String
  sort : List Tool → List Tool
  sorts : ∀ tools, Sorts tools (sort tools)

/-- What is hashed for a tool. -/
def Tool.text (t : Tool) : Bytes := utf8 t.name ++ utf8 t.description ++ t.inputSchema

/-- `HashTools`. -/
def hashTools (hasher : Hasher) (tools : List Tool) : String :=
  hasher.sha256 ((hasher.sort tools).flatMap Tool.text)

/-! ### The goroutines -/

/-- A request for an optimisation, and what its first checks find. -/
structure Request where
  post : Bool := true
  available : Bool := true
  found : Bool := true
  tools : List Tool
  model : String

/-- The answers of `runOptimize`. -/
inductive Reply where
  | methodNotAllowed
  | unavailable
  | notFound
  | noTools
  | conflict
  | internalError
  | running
  deriving DecidableEq

/-- What is answered before the row is looked at. -/
def Request.refusal (req : Request) : Option Reply :=
  if !req.post then some .methodNotAllowed
  else if !req.available then some .unavailable
  else if !req.found then some .notFound
  else if req.tools = [] then some .noTools
  else none

/-- What comes of `OptimizeTools`, and of writing its tools as JSON. -/
inductive Outcome where
  | failed (err : String)
  | unwritable (err : String)
  | optimized (tools : List Tool) (json : Bytes)

/-- Where a goroutine stands. -/
inductive Task where
  /-- `runOptimize` before its `Get`. -/
  | check (req : Request)
  /-- `runOptimize` before its `Upsert`. -/
  | mark (req : Request)
  /-- The background run, up to its last statement. -/
  | run (req : Request)
  /-- `MarkStale` before its `Get`. -/
  | compare (currentHash : String)
  /-- `MarkStale` before its `SetStatus`. -/
  | setStale
  | done

/-- Whether the goroutine is a background run. -/
def Task.isRun : Task → Bool
  | .run _ => true
  | _ => false

/-- It has looked at the row and is about to write it. -/
def Task.isPending : Task → Bool
  | .mark _ => true
  | .setStale => true
  | _ => false

/-- The row of one server, the goroutines and their answers. -/
structure Machine where
  row : Option Record
  tasks : List Task := []
  /-- The answers, the last one first, each with the number of runs in flight at the time. -/
  replies : List (Reply × ℕ) := []

/-- What can happen next. -/
inductive Event where
  | request (req : Request)
  | markStale (currentHash : String)
  /-- The next statement of a goroutine; whether the store fails, and for a run its outcome. -/
  | step (i : ℕ) (fault : Bool) (outcome : Outcome)
  | restart

namespace Machine

variable (hasher : Hasher) (m : Machine)

/-- The background runs that have not ended. -/
def inFlight : ℕ := m.tasks.countP Task.isRun

/-- The row says that an optimisation runs. -/
def isRunning : Bool := m.row.any fun r => r.status = .running

/-- An answer is sent. -/
def reply (r : Reply) : Machine := { m with replies := (r, m.inFlight) :: m.replies }

/-- Goroutine `i` goes on to its next statement. -/
def goto (i : ℕ) (task : Task) : Machine := { m with tasks := m.tasks.set i task }

/-- A statement on the row, which the store may refuse. -/
def write (fault : Bool) (f : Option Record → Option Record) : Machine :=
  if fault then m else { m with row := f m.row }

/-- What `runOptimize` writes before it answers. -/
def marked (req : Request) : Record where
  toolsHash := hashTools hasher req.tools
  originalChars := totalChars req.tools
  promptVersion := promptVersion
  model := req.model
  status := .running

/-- The last statement of a background run. -/
def finish (req : Request) : Outcome → Option Record → Option Record
  | .failed err => setStatus .error err
  | .unwritable err => setStatus .error ("marshal error: " ++ err)
  | .optimized tools json => upsert { marked hasher req with
      optimizedChars := totalChars tools
      optimizedTools := json
      status := .ready }

/-- The next statement of goroutine `i`. -/
def advance (i : ℕ) (fault : Bool) (outcome : Outcome) : Task → Machine
  | .check req =>
    -- an error counts as a row that is not there
    if !fault && m.isRunning then (m.reply .conflict).goto i .done else m.goto i (.mark req)
  | .mark req =>
    if fault then (m.reply .internalError).goto i .done
    else ((m.reply .running).write false (upsert (marked hasher req))).goto i (.run req)
  | .run req => (m.write fault (finish hasher req outcome)).goto i .done
  | .compare currentHash =>
    if !fault && m.row.any fun r => r.toolsHash ≠ currentHash && r.status = .ready then
      m.goto i .setStale
    else m.goto i .done
  | .setStale => (m.write fault (setStatus .stale "")).goto i .done
  | .done => m

/-- One event. -/
def apply : Event → Machine
  | .request req =>
    match req.refusal with
    | some r => m.reply r
    | none => { m with tasks := m.tasks ++ [.check req] }
  | .markStale currentHash => { m with tasks := m.tasks ++ [.compare currentHash] }
  | .step i fault outcome =>
    match m.tasks[i]? with
    | none => m
    | some task => m.advance hasher i fault outcome task
  | .restart => { m with tasks := [] }

/-- A run of events, from any state. -/
def exec (events : List Event) : Machine := events.foldl (fun m e => m.apply hasher e) m

end Machine

/-! ### Runs that keep track -/

/-- Nobody is between looking at the row and writing it. -/
def Machine.exclusive (m : Machine) : Bool := m.tasks.all fun task => !task.isPending

/-- An event that does not let the row and the runs come apart: a check does not fall between the
two statements of another goroutine, nor fails during a run, the last statement of a run does not
fail, and the process is not restarted during a run. -/
def careful (m : Machine) : Event → Bool
  | .step i fault _ =>
    match m.tasks[i]? with
    | some (.check _) => m.exclusive && (!fault || m.inFlight = 0)
    | some (.compare _) => m.exclusive
    | some (.run _) => !fault
    | _ => true
  | .restart => m.inFlight = 0
  | _ => true

/-- Every event of the run is careful where it happens. -/
def carefulRun (hasher : Hasher) : Machine → List Event → Bool
  | _, [] => true
  | m, e :: events => careful m e && carefulRun hasher (m.apply hasher e) events

/-- At most one goroutine owns the row, by a run or by being about to write, and the row says
whether there is a run; whoever was told of a conflict was told so during a run. -/
structure Machine.Inv (m : Machine) : Prop where
  owner : m.inFlight + m.tasks.countP Task.isPending ≤ 1
  status : m.isRunning = true ↔ m.inFlight = 1
  conflict : ∀ n, (Reply.conflict, n) ∈ m.replies → n ≠ 0

namespace Machine

variable {hasher : Hasher} {m : Machine} {i : ℕ} {fault : Bool} {outcome : Outcome}
  {old task : Task}

theorem toNat_le_countP (p : Task → Bool) (h : m.tasks[i]? = some old) :
    (p old).toNat ≤ m.tasks.countP p := by
  cases hp : p old with
  | false => exact Nat.zero_le _
  | true => exact countP_pos_iff.mpr ⟨old, mem_of_getElem? h, hp⟩

theorem countP_goto (p : Task → Bool) (h : m.tasks[i]? = some old) (task : Task) :
    (m.goto i task).tasks.countP p + (p old).toNat = m.tasks.countP p + (p task).toNat := by
  have hself := toNat_le_countP p h
  obtain ⟨hi, rfl⟩ := List.getElem?_eq_some_iff.mp h
  rw [goto, List.countP_set hi]
  cases hold : p m.tasks[i] <;> cases p task <;> simp_all

theorem Inv.idle (h : m.Inv) : m.isRunning = false ↔ m.inFlight = 0 := by
  have howner := h.owner
  rw [← not_eq_true, h.status]
  omega

theorem Inv.idle_of_pending (h : m.Inv) (hold : m.tasks[i]? = some old)
    (hpending : old.isPending = true) : m.isRunning = false := by
  have howner := h.owner
  have hself := toNat_le_countP Task.isPending hold
  rw [hpending, toNat_true] at hself
  exact h.idle.mpr (by omega)

theorem Inv.goto_free (h : m.Inv) (hold : m.tasks[i]? = some old)
    (hfree : old.isRun = false ∧ old.isPending = false)
    (htask : task.isRun = false ∧ task.isPending = false) : (m.goto i task).Inv := by
  have hruns : (m.goto i task).inFlight + _ = m.inFlight + _ := countP_goto Task.isRun hold task
  have hpendings := countP_goto Task.isPending hold task
  rw [hfree.1, htask.1] at hruns
  rw [hfree.2, htask.2] at hpendings
  have howner := h.owner
  refine ⟨by omega, ?_, h.conflict⟩
  rw [Nat.add_right_cancel hruns]
  exact h.status

theorem Inv.goto_owner {row : Option Record} (h : m.Inv) (hold : m.tasks[i]? = some old)
    (howns : old.isRun = true ∨ old.isPending = true ∨
      m.inFlight = 0 ∧ m.tasks.countP Task.isPending = 0)
    (htask : task.isRun = false ∨ task.isPending = false)
    (hrow : (row.any fun r => r.status = .running) = task.isRun) :
    ({ m with row := row }.goto i task).Inv := by
  have howner := h.owner
  have hrun : _ ≤ m.inFlight := toNat_le_countP Task.isRun hold
  have hpending := toNat_le_countP Task.isPending hold
  have hruns : ({ m with row := row }.goto i task).inFlight + _ = m.inFlight + _ :=
    countP_goto Task.isRun hold task
  have hpendings : ({ m with row := row }.goto i task).tasks.countP Task.isPending + _ =
    m.tasks.countP Task.isPending + _ := countP_goto Task.isPending hold task
  have hrunning : ({ m with row := row }.goto i task).isRunning = task.isRun := hrow
  have hone : ({ m with row := row }.goto i task).inFlight = task.isRun.toNat ∧
      ({ m with row := row }.goto i task).tasks.countP Task.isPending ≤ task.isPending.toNat := by
    rcases howns with hown | hown | hnone
    · rw [hown, toNat_true] at hrun hruns
      omega
    · rw [hown, toNat_true] at hpending hpendings
      omega
    · omega
  refine ⟨?_, ?_, h.conflict⟩
  · rcases htask with htask | htask <;> rw [htask] at hone <;> have := toNat_le <;> grind
  rw [hrunning, hone.1]
  cases task.isRun <;> simp

theorem Inv.reply (h : m.Inv) {r : Reply} (hr : r = .conflict → m.inFlight ≠ 0) :
    (m.reply r).Inv := by
  refine ⟨h.owner, h.status, fun n hn => ?_⟩
  rcases mem_cons.mp hn with heq | hold
  · obtain ⟨hconflict, rfl⟩ := Prod.mk.inj heq
    exact hr hconflict.symm
  · exact h.conflict n hold

theorem finish_not_running (req : Request) (outcome : Outcome) (row : Option Record) :
    ((finish hasher req outcome row).any fun r => r.status = .running) = false := by
  cases outcome with
  | failed _ | unwritable _ => cases row <;> simp [finish, setStatus]
  | optimized tools json => simp [finish, upsert]

theorem countP_of_exclusive (h : m.exclusive = true) : m.tasks.countP Task.isPending = 0 := by
  rw [countP_eq_zero]
  intro task htask
  simpa using all_eq_true.mp h task htask

/-- **A careful step keeps the invariant.** -/
theorem Inv.advance (h : m.Inv) (htask : m.tasks[i]? = some task)
    (hcareful : careful m (.step i fault outcome) = true) :
    (m.advance hasher i fault outcome task).Inv := by
  rw [careful, htask] at hcareful
  cases task with
  | check req =>
    obtain ⟨hexclusive, hfault⟩ := and_eq_true_iff.mp hcareful
    rw [Machine.advance]
    split
    · next hrefuse =>
      have hone := h.status.mp (and_eq_true_iff.mp hrefuse).2
      exact (h.reply fun _ => by omega).goto_free htask ⟨rfl, rfl⟩ ⟨rfl, rfl⟩
    next hpass =>
    have hidle : m.inFlight = 0 := by
      cases fault with
      | true => simpa using hfault
      | false => exact h.idle.mp (by simpa using hpass)
    exact h.goto_owner htask (.inr (.inr ⟨hidle, countP_of_exclusive hexclusive⟩)) (.inl rfl)
      (h.idle.mpr hidle)
  | mark req =>
    rw [Machine.advance]
    split
    · exact (h.reply (r := .internalError) nofun).goto_owner htask (.inr (.inl rfl)) (.inl rfl)
        (h.idle_of_pending htask rfl)
    · exact (h.reply (r := .running) nofun).goto_owner htask (.inr (.inl rfl)) (.inr rfl) rfl
  | run req =>
    have hfault : fault = false := by simpa using hcareful
    rw [Machine.advance, write, hfault]
    exact h.goto_owner htask (.inl rfl) (.inl rfl) (finish_not_running req outcome m.row)
  | compare currentHash =>
    rw [Machine.advance]
    split
    · next hready =>
      have hrow : m.isRunning = false := by
        rw [isRunning]
        cases hrow : m.row with
        | none => rfl
        | some r => simp_all
      exact h.goto_owner htask
        (.inr (.inr ⟨h.idle.mp hrow, countP_of_exclusive hcareful⟩)) (.inl rfl) hrow
    · exact h.goto_free htask ⟨rfl, rfl⟩ ⟨rfl, rfl⟩
  | setStale =>
    rw [Machine.advance, write]
    split
    · exact h.goto_owner htask (.inr (.inl rfl)) (.inl rfl) (h.idle_of_pending htask rfl)
    exact h.goto_owner htask (.inr (.inl rfl)) (.inl rfl)
      (by cases m.row <;> simp [setStatus, Task.isRun])
  | done => exact h

theorem Inv.spawn (h : m.Inv) (hrun : task.isRun = false) (hpending : task.isPending = false) :
    ({ m with tasks := m.tasks ++ [task] } : Machine).Inv := by
  have hruns : ({ m with tasks := m.tasks ++ [task] } : Machine).inFlight = m.inFlight := by
    simp [inFlight, hrun]
  refine ⟨?_, ?_, h.conflict⟩
  · rw [hruns, countP_append, countP_singleton, hpending]
    exact h.owner
  · rw [hruns]
    exact h.status

theorem Inv.apply (h : m.Inv) {e : Event} (hcareful : careful m e = true) :
    (m.apply hasher e).Inv := by
  cases e with
  | request req =>
    rw [Machine.apply]
    split
    · next r hr =>
      refine h.reply fun hconflict => ?_
      rw [hconflict, Request.refusal] at hr
      repeat' split at hr
      all_goals cases hr
    · exact h.spawn rfl rfl
  | markStale currentHash => exact h.spawn rfl rfl
  | step i fault outcome =>
    rw [Machine.apply]
    split
    · exact h
    · next task htask => exact h.advance htask hcareful
  | restart =>
    refine ⟨Nat.zero_le 1, ?_, h.conflict⟩
    have hidle : m.isRunning = false := h.idle.mpr (of_decide_eq_true hcareful)
    have hsame : (m.apply hasher .restart).isRunning = m.isRunning := rfl
    rw [hsame, hidle]
    exact ⟨nofun, nofun⟩

theorem Inv.exec (h : m.Inv) {events : List Event} (hcareful : carefulRun hasher m events = true) :
    (m.exec hasher events).Inv := by
  induction events generalizing m with
  | nil => exact h
  | cons e events ih =>
    obtain ⟨hfirst, hrest⟩ := and_eq_true_iff.mp hcareful
    exact ih (h.apply hfirst) hrest

end Machine

/-- **In every careful run of requests, background runs, `MarkStale` calls, failures and restarts,
at most one run is in flight, the row says `running` only then, and no request is refused with a
conflict at any other time.** -/
theorem exec_one_run (hasher : Hasher) (row : Option Record)
    (hrow : ∀ r, row = some r → r.status ≠ .running) (events : List Event)
    (hcareful : carefulRun hasher { row := row } events = true) :
    (Machine.exec hasher { row := row } events).inFlight ≤ 1 ∧
      ((Machine.exec hasher { row := row } events).isRunning = true →
        (Machine.exec hasher { row := row } events).inFlight = 1) ∧
      ∀ n, (Reply.conflict, n) ∈ (Machine.exec hasher { row := row } events).replies → n ≠ 0 := by
  have hstart : ({ row := row } : Machine).Inv := by
    refine ⟨Nat.zero_le 1, ?_, nofun⟩
    have hidle : ({ row := row } : Machine).isRunning = false := by
      cases hr : row with
      | none => rfl
      | some r => exact decide_eq_false (hrow r hr)
    rw [hidle]
    exact ⟨nofun, nofun⟩
  have h := hstart.exec hcareful
  have howner := h.owner
  exact ⟨by omega, h.status.mp, h.conflict⟩

/-- A request with one tool. -/
def oneTool : Request where
  tools := [{ name := "t", description := "d", inputSchema := [] }]
  model := "m"

/-- The next statement of goroutine `i`, without a fault. -/
def next (i : ℕ) : Event := .step i false (.optimized oneTool.tools [])

/-- A digest that keeps the text. -/
def plainDigest (text : Bytes) : String := String.ofList (text.map Char.ofUInt8)

/-- A hasher that computes. -/
def stableHasher : Hasher where
  sha256 := plainDigest
  sort tools := tools.insertionSort fun s t => s.name ≤ t.name
  sorts tools := ⟨perm_insertionSort _ tools, pairwise_insertionSort _ tools⟩

/-- Two requests, of which the second finds the first running, and a comparison. -/
def inTurn : List Event :=
  [.request oneTool, .request oneTool, next 0, next 0, next 1, next 0, .markStale "h", next 2,
    next 2]

theorem exec_one_run_in_turn :
    carefulRun stableHasher { row := none } inTurn = true ∧
      (Machine.exec stableHasher { row := none } inTurn).inFlight ≤ 1 := by
  have hcareful : carefulRun stableHasher { row := none } inTurn = true := by decide +kernel
  exact ⟨hcareful, (exec_one_run stableHasher none nofun inTurn hcareful).1⟩

/-- Two requests look at the row before either has marked it, and both start a run.  And a restart
during a run leaves a row that says so, for which the next request is refused. -/
theorem exec_two_runs :
    (Machine.exec stableHasher { row := none }
        [.request oneTool, .request oneTool, next 0, next 1, next 0, next 1]).inFlight = 2 ∧
      (Reply.conflict, 0) ∈ (Machine.exec stableHasher { row := none }
        [.request oneTool, next 0, next 0, .restart, .request oneTool, next 0]).replies := by
  decide +kernel

end ArcRelay.Optimize
