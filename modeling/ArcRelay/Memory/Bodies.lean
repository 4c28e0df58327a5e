import ArcRelay.Lib.JsonGrammar
import ArcRelay.Memory.Store

/-!
# Bodies that are accepted parse

`HandleIngest` (`internal/web/memory_handlers.go`) reads at most 10 MiB of a request.  The
transcript in it travels as base64 or as an array of numbers, so what the parser is given is
shorter by a quarter at least, and no line of it can fill the 8 MiB buffer of the scanner.

* `Decoder.Expands`: an encoded text is longer than what it stands for.
* `ingest_parses`: a body that is read and decodes is parsed.
-/

namespace Json

open List

variable {text : Bytes} {ms : List (String × Bytes)}

theorem length_of_members (h : members text = some ms) {m : String × Bytes} (hm : m ∈ ms) :
    m.2.length ≤ text.length := by
  have hpart : ∀ {P body ms}, Members P body ms → ∀ m ∈ ms, m.2.length ≤ body.length := by
    intro P body ms h
    induction h with
    | one =>
      rw [forall_mem_singleton]
      simp only [length_append]
      omega
    | more _ _ _ _ _ ih =>
      rw [forall_mem_cons]
      simp only [length_append, length_cons]
      refine ⟨by omega, fun m hm => ?_⟩
      have := ih m hm
      omega
  unfold members at h
  split at h
  · next hparse =>
    cases h
    obtain ⟨sp, raw, sp', -, -, rfl, htext⟩ := parse_eq_some.mp hparse
    rcases htext with ⟨⟨⟩⟩ | ⟨⟨⟩⟩
    · cases hm
    next hmembers =>
    have := hpart hmembers m hm
    simp only [length_append, length_cons]
    omega
  · cases h
    cases hm
  · cases h

end Json

namespace ArcRelay.Memory

open Json Watcher

def memoryBodyLimit : ℕ := 10 * 2 ^ 20

/-- How the body of an ingest is decoded: the octets of a transcript from the text of the value,
and the other fields from the members. -/
structure Decoder where
  bytes : Bytes → Option Bytes
  fields : List (String × Bytes) → Option IngestRequest

/-- The transcript: of several members that answer to the field, the last one counts. -/
def Decoder.jsonl (d : Decoder) (ms : List (String × Bytes)) : Option Bytes :=
  ms.foldlM (fun acc m => if matchesField "jsonl" m.1 then d.bytes m.2 else some acc) []

def Decoder.ingestRequest (d : Decoder) (body : Bytes) : Option IngestRequest := do
  let ms ← members body
  let req ← d.fields ms
  let jsonl ← d.jsonl ms
  pure { req with jsonl := jsonl }

/-- A text has at least four characters for three octets, or two for each. -/
def Decoder.Expands (d : Decoder) : Prop :=
  ∀ text out, d.bytes text = some out →
    4 * out.length ≤ 3 * text.length ∨ 2 * out.length ≤ text.length

theorem Decoder.length_jsonl {d : Decoder} (hd : d.Expands) {n : ℕ} {ms : List (String × Bytes)}
    (hms : ∀ m ∈ ms, m.2.length ≤ n) {acc out : Bytes} (hacc : 4 * acc.length ≤ 3 * n)
    (h : ms.foldlM (fun acc m => if matchesField "jsonl" m.1 then d.bytes m.2 else some acc) acc =
      some out) : 4 * out.length ≤ 3 * n := by
  induction ms generalizing acc with
  | nil =>
    cases h
    exact hacc
  | cons m ms ih => ?_
  obtain ⟨hm, hrest⟩ := List.forall_mem_cons.mp hms
  rw [List.foldlM_cons] at h
  obtain ⟨acc', hstep, h⟩ := Option.bind_eq_some_iff.mp h
  refine ih hrest ?_ h
  split at hstep
  · have := hd _ _ hstep
    omega
  · cases hstep
    exact hacc

theorem length_of_mem_scanTokens {jsonl line : Bytes} (h : line ∈ scanTokens jsonl) :
    line.length ≤ jsonl.length := by
  have hpiece : ∀ (l : Bytes), ∀ piece ∈ l.splitOn newline, piece.length ≤ l.length := by
    intro l
    induction l with
    | nil => simp
    | cons b l ih => ?_
    rw [List.splitOn_eq_splitOnP, List.splitOnP_cons_eq_if_modifyHead, ← List.splitOn_eq_splitOnP]
    intro piece hmem
    split at hmem
    · rcases List.mem_cons.mp hmem with rfl | hmem
      · exact Nat.zero_le _
      · exact Nat.le_succ_of_le (ih piece hmem)
    cases hsplit : l.splitOn newline with
    | nil =>
      rw [hsplit] at hmem
      cases hmem
    | cons first rest =>
      rw [hsplit] at hmem ih
      rcases List.mem_cons.mp hmem with rfl | hmem
      · exact Nat.succ_le_succ (ih first List.mem_cons_self)
      · exact Nat.le_succ_of_le (ih piece (List.mem_cons_of_mem _ hmem))
  simp only [scanTokens] at h
  split at h
  · exact hpiece jsonl line (List.mem_of_mem_dropLast h)
  · exact hpiece jsonl line h

/-- **A body that is read and decodes is parsed**: no line of its transcript is too long for the
scanner, and the ingest does not fail on its content. -/
theorem ingest_parses (d : Decoder) (hd : d.Expands) (body : Bytes)
    (hbody : body.length ≤ memoryBodyLimit) (req : IngestRequest)
    (h : d.ingestRequest body = some req) (isPrint : Char → Bool)
    (parseTimestamp : String → Option ℤ) (db : DB) (userID : String) (now : ℤ)
    (fault : Option Fault) :
    (∀ line ∈ scanTokens req.jsonl, line.length < maxLine) ∧
      (parseClaudeCodeJSONL isPrint req.jsonl).isSome ∧
      (ingest ⟨shippedRegistry isPrint, parseTimestamp⟩ db ⟨userID, req, now, fault⟩).2 ≠
        .error .parse := by
  have hlines : ∀ line ∈ scanTokens req.jsonl, line.length < maxLine := by
    intro line hline
    simp only [Decoder.ingestRequest, Option.bind_eq_bind, Option.bind_eq_some_iff,
      Option.pure_def] at h
    obtain ⟨ms, hms, fields, -, jsonl, hjsonl, heq⟩ := h
    cases heq
    have hlen := Decoder.length_jsonl hd (fun m hm => length_of_members hms hm) (Nat.zero_le _)
      hjsonl
    have hle := length_of_mem_scanTokens hline
    simp only [memoryBodyLimit, maxLine] at *
    omega
  have hparse : (parseClaudeCodeJSONL isPrint req.jsonl).isSome := by
    simp only [parseClaudeCodeJSONL]
    rw [if_neg]
    · rfl
    · simpa using hlines
  refine ⟨hlines, hparse, ?_⟩
  -- the checks before the parser and the storage fail in other ways
  have hvalid : validate ⟨shippedRegistry isPrint, parseTimestamp⟩ req ≠ .error .parse := by
    obtain ⟨parsed, hparsed⟩ := Option.isSome_iff_exists.mp hparse
    simp only [validate, shippedRegistry]
    by_cases hplatform : req.platform = "claude-code"
    · rw [if_pos hplatform]
      dsimp only
      rw [hparsed]
      dsimp only
      repeat' split
      all_goals rintro ⟨⟩
    · rw [if_neg hplatform]
      dsimp only
      repeat' split
      all_goals rintro ⟨⟩
  unfold ingest
  split
  · next e hv =>
    intro heq
    cases heq
    exact hvalid hv
  · repeat' split
    all_goals rintro ⟨⟩

/-! ### On a concrete body -/

/-- The six bits of a character of base64. -/
def sextet (b : UInt8) : Option ℕ :=
  if 65 ≤ b ∧ b ≤ 90 then some (b.toNat - 65)
  else if 97 ≤ b ∧ b ≤ 122 then some (b.toNat - 71)
  else if 48 ≤ b ∧ b ≤ 57 then some (b.toNat + 4)
  else if b = 43 then some 62
  else if b = 47 then some 63
  else none

/-- Base64, with the padding in the last group. -/
def decodeBase64 : Bytes → Option Bytes
  | [] => some []
  | a :: b :: c :: d :: rest => do
    let x := (← sextet a) * 4 + (← sextet b) / 16
    if c = 61 ∧ d = 61 ∧ rest = [] then pure [UInt8.ofNat x]
    else
      let y := (← sextet b) % 16 * 16 + (← sextet c) / 4
      if d = 61 ∧ rest = [] then pure [UInt8.ofNat x, UInt8.ofNat y]
      else
        let z := (← sextet c) % 4 * 64 + (← sextet d)
        let out ← decodeBase64 rest
        pure (UInt8.ofNat x :: UInt8.ofNat y :: UInt8.ofNat z :: out)
  | _ => none

theorem length_decodeBase64 {text out : Bytes} (h : decodeBase64 text = some out) :
    4 * out.length ≤ 3 * text.length := by
  induction text using decodeBase64.induct generalizing out with
  | case1 =>
    cases h
    simp
  | case2 a b c d rest ih =>
    simp only [decodeBase64, Option.bind_eq_bind, Option.bind_eq_some_iff, Option.pure_def] at h
    obtain ⟨_, -, _, -, h⟩ := h
    simp only [List.length_cons]
    split at h
    · cases h
      simp only [List.length_singleton]
      omega
    simp only [Option.bind_eq_some_iff] at h
    obtain ⟨_, -, _, -, h⟩ := h
    split at h
    · cases h
      simp only [List.length_cons, List.length_nil]
      omega
    simp only [Option.bind_eq_some_iff] at h
    obtain ⟨_, -, _, -, out, hrest, h⟩ := h
    cases h
    have := ih hrest
    simp only [List.length_cons]
    omega
  | case3 => simp [decodeBase64] at h

/-- A transcript in quotes, for one session. -/
def quotedDecoder : Decoder where
  bytes text :=
    if text.head? = some 34 ∧ text.getLast? = some 34 then decodeBase64 text.tail.dropLast else none
  fields _ := some ⟨"s", "p", "f", 0, 0, "claude-code", [], "", "", false, "", none⟩

/-- Two records, of fifteen octets and of two. -/
def twoLines : Bytes := utf8 "\x7b\"jsonl\":\"eyJ0eXBlIjoidXNlciJ9Cnt9Cg==\"\x7d"

theorem isSome_twoLines : (quotedDecoder.ingestRequest twoLines).isSome := by decide +kernel

theorem ingest_parses_two :
    let jsonl := ((quotedDecoder.ingestRequest twoLines).get isSome_twoLines).jsonl
    (scanTokens jsonl).map List.length = [15, 2] ∧
      (∀ line ∈ scanTokens jsonl, line.length < maxLine) ∧
      (parseClaudeCodeJSONL (fun _ => true) jsonl).isSome := by
  have hexpands : quotedDecoder.Expands := by
    intro text out h
    simp only [quotedDecoder, Option.ite_none_right_eq_some] at h
    have := length_decodeBase64 h.2
    simp only [List.length_dropLast, List.length_tail] at this
    omega
  have hparses := ingest_parses quotedDecoder hexpands twoLines (by decide +kernel) _
    (Option.some_get isSome_twoLines).symm (fun _ => true) (fun _ => none) DB.empty "u" 0 none
  exact ⟨by decide +kernel, hparses.1, hparses.2.1⟩

end ArcRelay.Memory
