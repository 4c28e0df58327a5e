import ArcRelay.Lib.Json
import ArcRelay.Lib.Table

/-!
# The archive queue

The relay ships a copy of what passes through it to a compliance archive.  A payload waits
in the table `archive_queue` until it is delivered (`internal/store/archive_queue.go`):
pending rows are tried when they are due, rows that failed for good are held until
somebody retries, retargets or clears them.

Each operation is one SQL statement, so it is a function on the list of rows.  Only two of
them remove rows; the others leave the ids and payloads as they are (`contents`).
-/

namespace ArcRelay.Archive

open Json List

inductive Status where
  | pending | hold
  deriving DecidableEq

/-- A row of `archive_queue`; times are in seconds. -/
structure Item where
  id : ℕ
  serverID : String
  createdAt : ℤ
  payload : Bytes
  url : String
  authType : String
  authValue : String
  apiKeyHeader : String
  status : Status := .pending
  attempts : ℤ := 0
  nextAttemptAt : ℤ
  lastAttemptAt : Option ℤ := none
  lastError : Option String := none
  deriving DecidableEq

abbrev Queue := List Item

def enqueue (id : ℕ) (serverID : String) (payload : Bytes)
    (url authType authValue apiKeyHeader : String) (now : ℤ) (q : Queue) : Queue :=
  q ++ [{ id, serverID, createdAt := now, payload, url, authType, authValue, apiKeyHeader,
          nextAttemptAt := now }]

/-- The rows that are due, the longest waiting first. -/
def due (q : Queue) (now : ℤ) (limit : ℕ) : List Item :=
  let ready := q.filter fun r => r.status = .pending ∧ r.nextAttemptAt ≤ now
  (ready.mergeSort fun a b =>
    a.nextAttemptAt < b.nextAttemptAt ∨
      a.nextAttemptAt = b.nextAttemptAt ∧ a.createdAt ≤ b.createdAt).take limit

def markDelivered (id : ℕ) (q : Queue) : Queue := q.filter fun r => r.id ≠ id

def reschedule (id : ℕ) (nextAttempt now : ℤ) (errMsg : String) (q : Queue) : Queue :=
  Table.modify Item.id id
    (fun r => { r with
      attempts := r.attempts + 1, nextAttemptAt := nextAttempt
      lastAttemptAt := some now, lastError := some errMsg })
    q

def markHold (id : ℕ) (now : ℤ) (errMsg : String) (q : Queue) : Queue :=
  Table.modify Item.id id
    (fun r => { r with
      status := .hold, attempts := r.attempts + 1
      lastAttemptAt := some now, lastError := some errMsg })
    q

def retryHeld (now : ℤ) (q : Queue) : Queue :=
  q.map fun r =>
    if r.status = .hold then { r with status := .pending, nextAttemptAt := now, attempts := 0 }
    else r

/-- Points every row at a new destination that does not point there already. -/
def rewriteHeldDelivery (url authType authValue apiKeyHeader : String) (now : ℤ) (q : Queue) :
    Queue :=
  q.map fun r =>
    if r.url ≠ url then
      { r with
        url := url, authType := authType, authValue := authValue, apiKeyHeader := apiKeyHeader
        attempts := 0, lastError := some "", nextAttemptAt := now }
    else r

def clearHeld (q : Queue) : Queue := q.filter fun r => r.status ≠ .hold

/-! ### What is in the queue -/

def contents (q : Queue) : List (ℕ × Bytes) := q.map fun r => (r.id, r.payload)

section

variable (q : Queue) (id : ℕ) (now : ℤ) {p : ℕ × Bytes}

theorem contents_map {f : Item → Item} (hf : ∀ r, ((f r).id, (f r).payload) = (r.id, r.payload)) :
    contents (q.map f) = contents q := by
  unfold contents
  rw [map_map]
  apply map_congr_left
  intro r _
  exact hf r

theorem contents_retryHeld : contents (retryHeld now q) = contents q := by
  apply contents_map
  intro r
  split <;> rfl

theorem contents_rewriteHeldDelivery (url authType authValue apiKeyHeader : String) :
    contents (rewriteHeldDelivery url authType authValue apiKeyHeader now q) = contents q := by
  apply contents_map
  intro r
  split <;> rfl

theorem mem_contents_markDelivered :
    p ∈ contents (markDelivered id q) ↔ p ∈ contents q ∧ p.1 ≠ id := by
  unfold contents markDelivered
  rw [mem_map, mem_map]
  constructor
  · rintro ⟨r, hr, rfl⟩
    rw [mem_filter] at hr
    exact ⟨⟨r, hr.1, rfl⟩, by simpa using hr.2⟩
  rintro ⟨⟨r, hr, rfl⟩, hne⟩
  refine ⟨r, ?_, rfl⟩
  rw [mem_filter]
  exact ⟨hr, by simpa using hne⟩

theorem mem_contents_clearHeld (h : p ∈ contents q) :
    p ∈ contents (clearHeld q) ∨ ∃ r ∈ q, r.status = .hold ∧ (r.id, r.payload) = p := by
  obtain ⟨r, hr, rfl⟩ := mem_map.mp h
  by_cases hheld : r.status = .hold
  · exact Or.inr ⟨r, hr, hheld, rfl⟩
  refine Or.inl (mem_map.mpr ⟨r, ?_, rfl⟩)
  unfold clearHeld
  rw [mem_filter]
  exact ⟨hr, by simpa using hheld⟩

theorem contents_clearHeld_subset : contents (clearHeld q) ⊆ contents q := by
  intro p hp
  obtain ⟨r, hr, rfl⟩ := mem_map.mp hp
  exact mem_map.mpr ⟨r, mem_of_mem_filter hr, rfl⟩

theorem mem_of_mem_due {limit : ℕ} {r : Item} (h : r ∈ due q now limit) : r ∈ q := by
  have hsorted := mem_of_mem_take h
  rw [mem_mergeSort] at hsorted
  exact mem_of_mem_filter hsorted

end

end ArcRelay.Archive
