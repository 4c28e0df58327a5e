import ArcRelay.Memory.Watcher

/-!
# The transcript parser

`internal/memory/parser/claudecode.go` turns a chunk of a transcript into message
rows, line by line.  A line that is no record, or whose content has no known shape,
is left out; what remains of the others is a role, a text and the record's uuid.
The only thing one line does to the next is the compaction count.
-/

namespace ArcRelay.Memory

open Json Lines Watcher Option List

/-! ### Lines -/

def maxLine : ℕ := 8 * 2 ^ 20

/-- The lines of a chunk as the scanner cuts them, before it drops a final carriage
return. -/
def scanTokens (jsonl : Bytes) : List Bytes :=
  let pieces := jsonl.splitOn newline
  if pieces.getLast? = some [] then pieces.dropLast else pieces

def dropCR (line : Bytes) : Bytes := if line.getLast? = some 0x0d then line.dropLast else line

theorem scanTokens_of_ends {jsonl : Bytes} {off : ℕ} (h : Ends newline jsonl) :
    scanTokens jsonl = (linesAt newline off jsonl).map (·.2) := by
  have hsplit : jsonl.splitOn newline = (linesAt newline off jsonl).map (·.2) ++ [[]] :=
    splitOn_of_ends h
  simp [scanTokens, hsplit]

/-! ### The text of a message -/

def isUnicodeSpace (c : Char) : Bool :=
  let n := c.toNat
  (9 ≤ n && n ≤ 13) || n == 0x20 || n == 0x85 || n == 0xa0 || n == 0x1680 ||
    (0x2000 ≤ n && n ≤ 0x200a) || n == 0x2028 || n == 0x2029 || n == 0x202f || n == 0x205f ||
    n == 0x3000

/-- A text cut into its characters, each with the octets it is written in. -/
def runes : ℕ → Bytes → List (Char × Bytes)
  | 0, _ => []
  | _ + 1, [] => []
  | fuel + 1, b :: l =>
    let (c, n) := decodeRune (b :: l)
    (c, (b :: l).take n) :: runes fuel (l.drop (n - 1))

def trimSpace (l : Bytes) : Bytes :=
  let trim := List.dropWhile fun r : Char × Bytes => isUnicodeSpace r.1
  (trim (trim (runes l.length l)).reverse).reverse.flatMap (·.2)

def hexDigit (n : ℕ) : UInt8 := if n < 10 then (0x30 + n).toUInt8 else (0x57 + n).toUInt8

def hexDigits (width n : ℕ) : Bytes :=
  (List.range width).map fun i => hexDigit (n / 16 ^ (width - 1 - i) % 16)

def quoteRune (isPrint : Char → Bool) (c : Char) : Bytes :=
  let n := c.toNat
  if c = '"' ∨ c = '\\' then [0x5c, n.toUInt8]
  else if (0x20 ≤ n && n < 0x7f) || (0x80 ≤ n && isPrint c) then utf8 (String.singleton c)
  else if n = 7 then [0x5c, 0x61]
  else if n = 8 then [0x5c, 0x62]
  else if n = 12 then [0x5c, 0x66]
  else if n = 10 then [0x5c, 0x6e]
  else if n = 13 then [0x5c, 0x72]
  else if n = 9 then [0x5c, 0x74]
  else if n = 11 then [0x5c, 0x76]
  else if n < 0x20 ∨ n = 0x7f then [0x5c, 0x78] ++ hexDigits 2 n
  else if n < 0x10000 then [0x5c, 0x75] ++ hexDigits 4 n
  else [0x5c, 0x55] ++ hexDigits 8 n

/-- A string as the verb `%q` prints it; octets that are no character are escaped. -/
def quote (isPrint : Char → Bool) (l : Bytes) : Bytes :=
  let quoted := (runes l.length l).flatMap fun r =>
    match r with
    | (c, [b]) =>
      if c = replacement then [0x5c, 0x78] ++ hexDigits 2 b.toNat else quoteRune isPrint c
    | (c, _) => quoteRune isPrint c
  [0x22] ++ quoted ++ [0x22]

/-- Takes a tag, a text without `<` of at least `least` octets, and the closing tag. -/
def matchTag (opening closing : Bytes) (least : ℕ) (l : Bytes) : Option (Bytes × Bytes) := do
  let l ← scanName opening l
  let inner := l.takeWhile (· != 0x3c)
  if inner.length < least then none
  let rest ← scanName closing (l.drop inner.length)
  pure (inner, rest)

def isTagSpace (b : UInt8) : Bool :=
  b == 0x09 || b == 0x0a || b == 0x0c || b == 0x0d || b == 0x20

/-- A slash command at the front of a text: its name, its arguments and what follows
it. -/
def matchSlashCommand (l : Bytes) : Option (Bytes × Bytes × Bytes) := do
  let (name, l) ← matchTag (utf8 "<command-name>") (utf8 "</command-name>") 1 l
  let (args, l) ← matchTag (utf8 "<command-args>") (utf8 "</command-args>") 0
    (l.dropWhile isTagSpace)
  pure (name, args, l)

def collapseFrom (isPrint : Char → Bool) : ℕ → Bytes → Bytes
  | 0, l => l
  | _ + 1, [] => []
  | fuel + 1, b :: l =>
    match matchSlashCommand (b :: l) with
    | some (name, args, rest) =>
      utf8 "[SLASH-COMMAND: /" ++ trimSpace name ++ utf8 " args=" ++
        quote isPrint (trimSpace args) ++ utf8 "]" ++ collapseFrom isPrint fuel rest
    | none => b :: collapseFrom isPrint fuel l

def collapseSlashCommand (isPrint : Char → Bool) (content : Bytes) : Bytes :=
  collapseFrom isPrint content.length content

/-- One block of a content array; `none` when its fields have the wrong kinds. -/
def renderBlock (item : Bytes) : Option Bytes := do
  let ms ← members item
  let (type, okType) := stringField "type" ms
  let (text, okText) := stringField "text" ms
  let (name, okName) := stringField "name" ms
  if ¬(okType ∧ okText ∧ okName) then none
  let input := (rawField "input" ms).getD []
  let content := (rawField "content" ms).getD []
  pure <|
    if type = "text" then utf8 text
    else if type = "tool_use" then
      utf8 "\n[TOOL_USE:" ++ utf8 name ++ utf8 "] " ++ input ++ utf8 "\n"
    else if type = "tool_result" then utf8 "\n[TOOL_RESULT] " ++ content ++ utf8 "\n"
    else []

/-- Reduces the shapes a message's content may have to one text: a string, a record
with the content inside, or an array of blocks. -/
def flattenContent : ℕ → Bytes → Option Bytes
  | 0, _ => none
  | fuel + 1, raw =>
    if raw = [] then some []
    else
      match parse raw with
      | some (.string s) => some (utf8 s)
      | some .null => some []
      | some (.object ms) =>
        match stringField "role" ms, rawField "content" ms with
        | (_, true), some content => if content = [] then none else flattenContent fuel content
        | _, _ => none
      | some (.array items) => (items.mapM renderBlock).map List.flatten
      | _ => none

/-! ### Records -/

structure ParsedMessage where
  uuid : String
  parentUUID : String
  epoch : ℕ
  timestamp : String
  role : String
  content : Bytes
  deriving DecidableEq

structure CompactEvent where
  uuid : String
  sessionID : String
  epoch : ℕ
  timestamp : String
  triggerType : String
  tokenCountBefore : ℤ

/-- What one line stands for.  The compaction count is filled in by the loop. -/
inductive Record where
  | message (m : ParsedMessage)
  | compact (e : CompactEvent)

/-- Reads one line.  Empty and malformed lines, and records of other types, stand for
nothing. -/
def parseRecord (isPrint : Char → Bool) (line : Bytes) : Option Record := do
  let line := dropCR line
  if line = [] then none
  let ms ← members line
  let (type, okType) := stringField "type" ms
  let (uuid, okUUID) := stringField "uuid" ms
  let (parentUUID, okParent) := stringField "parentUuid" ms
  let (timestamp, okTime) := stringField "timestamp" ms
  let (sessionID, okSession) := stringField "sessionId" ms
  let (triggerType, okTrigger) := stringField "triggerType" ms
  let (tokenCountBefore, okCount) := intField "tokenCountBefore" ms
  if ¬(okType ∧ okUUID ∧ okParent ∧ okTime ∧ okSession ∧ okTrigger ∧ okCount) then none
  if type = "compact" ∨ type = "compaction" then
    pure (.compact { uuid, sessionID, epoch := 0, timestamp, triggerType, tokenCountBefore })
  else if type = "user" ∨ type = "assistant" then
    let raw := (rawField "message" ms).getD []
    let content ← flattenContent (raw.length + 1) raw
    pure (.message
      { uuid, parentUUID, epoch := 0, timestamp
        role := if type = "assistant" then "assistant" else "user"
        content := collapseSlashCommand isPrint content })
  else none

/-- One round of the parser's loop: the count of compactions, the messages and the
events so far. -/
def parseStep (isPrint : Char → Bool) (acc : ℕ × List ParsedMessage × List CompactEvent)
    (line : Bytes) : ℕ × List ParsedMessage × List CompactEvent :=
  let (epoch, msgs, events) := acc
  match parseRecord isPrint line with
  | some (.message m) => (epoch, msgs ++ [{ m with epoch := epoch }], events)
  | some (.compact e) => (epoch + 1, msgs, events ++ [{ e with epoch := epoch + 1 }])
  | none => acc

/-- The parser.  A line that does not fit the scanner's buffer fails the chunk. -/
def parseClaudeCodeJSONL (isPrint : Char → Bool) (jsonl : Bytes) :
    Option (List ParsedMessage × List CompactEvent) :=
  let lines := scanTokens jsonl
  if lines.any (maxLine ≤ ·.length) then none
  else some (lines.foldl (parseStep isPrint) (0, [], [])).2

def lineMessage (isPrint : Char → Bool) (line : Bytes) : Option ParsedMessage :=
  match parseRecord isPrint line with
  | some (.message m) => some m
  | _ => none

/-- The uuid a line puts into the store; messages without one have no identity. -/
def lineUUID (isPrint : Char → Bool) (line : Bytes) : Option String :=
  (lineMessage isPrint line).bind fun m => if m.uuid = "" then none else some m.uuid

theorem lineUUID_eq_some {isPrint : Char → Bool} {line : Bytes} {u : String} :
    lineUUID isPrint line = some u ↔ (lineMessage isPrint line).map (·.uuid) = some u ∧ u ≠ "" := by
  unfold lineUUID
  cases lineMessage isPrint line with
  | none => simp
  | some m => ?_
  by_cases hm : m.uuid = ""
  · simp only [bind_some, hm, if_true, map_some, some.injEq]
    exact ⟨fun h => absurd h (by simp), fun h => absurd h.1.symm h.2⟩
  · simp only [bind_some, hm, if_false, map_some, some.injEq]
    exact ⟨fun h => ⟨h, h ▸ hm⟩, fun h => h.1⟩

theorem foldl_parseStep_uuids (isPrint : Char → Bool) (lines : List Bytes) (epoch : ℕ)
    (msgs : List ParsedMessage) (events : List CompactEvent) :
    (lines.foldl (parseStep isPrint) (epoch, msgs, events)).2.1.map (·.uuid) =
      msgs.map (·.uuid) ++ (lines.filterMap (lineMessage isPrint)).map (·.uuid) := by
  induction lines generalizing epoch msgs events with
  | nil => simp
  | cons line lines ih => ?_
  rw [foldl_cons]
  cases hrec : parseRecord isPrint line with
  | none =>
    have hline : lineMessage isPrint line = none := by simp [lineMessage, hrec]
    simp only [parseStep, hrec]
    rw [filterMap_cons_none hline, ih]
  | some r => ?_
  cases r with
  | message m =>
    have hline : lineMessage isPrint line = some m := by simp [lineMessage, hrec]
    simp only [parseStep, hrec]
    rw [filterMap_cons_some hline, ih]
    simp
  | compact e =>
    have hline : lineMessage isPrint line = none := by simp [lineMessage, hrec]
    simp only [parseStep, hrec]
    rw [filterMap_cons_none hline, ih]

/-- **The messages of a chunk are those of its lines, in order.** -/
theorem messages_parse {isPrint : Char → Bool} {jsonl : Bytes} {msgs : List ParsedMessage}
    {events : List CompactEvent} (h : parseClaudeCodeJSONL isPrint jsonl = some (msgs, events)) :
    msgs.map (·.uuid) = ((scanTokens jsonl).filterMap (lineMessage isPrint)).map (·.uuid) := by
  simp only [parseClaudeCodeJSONL] at h
  split at h
  · simp at h
  have := foldl_parseStep_uuids isPrint (scanTokens jsonl) 0 [] []
  rw [some.inj h] at this
  simpa using this

end ArcRelay.Memory
