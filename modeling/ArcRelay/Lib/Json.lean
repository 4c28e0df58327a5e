import Mathlib.Algebra.Group.Int.Defs
import Mathlib.Algebra.Group.Nat.Defs
import Mathlib.Data.List.Basic
import Mathlib.Tactic.Common

/-!
# JSON texts and the fields of a record

A reader of JSON that works as Go's `encoding/json` does: the text is checked as
a whole, a nested value keeps its own text until it is read in turn, string
literals are unquoted with U+FFFD for what is no character, and a record's field
takes every member whose key equals its name up to letter case, the last one
winning.  Beside it stands the reader the standard has in mind, which looks a
member up by its exact key.
-/

namespace Json

open List

/-- A text, as the octets that travel. -/
abbrev Bytes := List UInt8

def utf8 (s : String) : Bytes := s.toUTF8.data.toList

/-! ### String literals -/

/-- The character put in place of what is no character. -/
def replacement : Char := Char.ofNat 0xfffd

def hexVal (b : UInt8) : Option ℕ :=
  if 0x30 ≤ b ∧ b ≤ 0x39 then some (b.toNat - 0x30)
  else if 0x61 ≤ b ∧ b ≤ 0x66 then some (b.toNat - 0x61 + 10)
  else if 0x41 ≤ b ∧ b ≤ 0x46 then some (b.toNat - 0x41 + 10)
  else none

def hex4 (a b c d : UInt8) : Option ℕ := do
  let a ← hexVal a
  let b ← hexVal b
  let c ← hexVal c
  let d ← hexVal d
  pure (((a * 16 + b) * 16 + c) * 16 + d)

def escape (e : UInt8) : Option Char :=
  if e == 0x62 then some (Char.ofNat 8)
  else if e == 0x66 then some (Char.ofNat 12)
  else if e == 0x6e then some '\n'
  else if e == 0x72 then some '\r'
  else if e == 0x74 then some '\t'
  else if e == 0x22 ∨ e == 0x5c ∨ e == 0x2f then some (Char.ofNat e.toNat)
  else none

/-- The inside of a string literal and what follows its closing quote. -/
def scanString : Bytes → Option (Bytes × Bytes)
  | [] => none
  | b :: l =>
    if b == 0x22 then some ([], l)
    else if b == 0x5c then
      match l with
      | 0x75 :: a :: b' :: c :: d :: r =>
        if (hex4 a b' c d).isSome then
          (scanString r).map fun p => (0x5c :: 0x75 :: a :: b' :: c :: d :: p.1, p.2)
        else none
      | e :: r =>
        if (escape e).isSome then (scanString r).map fun p => (0x5c :: e :: p.1, p.2)
        else none
      | [] => none
    else if b < 0x20 then none
    else (scanString l).map fun p => (b :: p.1, p.2)

/-- The number of octets of a character and the bounds of the second, read off
the first. -/
def leadOctet (a : UInt8) : Option (ℕ × UInt8 × UInt8) :=
  if 0xc2 ≤ a ∧ a ≤ 0xdf then some (2, 0x80, 0xbf)
  else if a == 0xe0 then some (3, 0xa0, 0xbf)
  else if a == 0xed then some (3, 0x80, 0x9f)
  else if 0xe1 ≤ a ∧ a ≤ 0xef then some (3, 0x80, 0xbf)
  else if a == 0xf0 then some (4, 0x90, 0xbf)
  else if 0xf1 ≤ a ∧ a ≤ 0xf3 then some (4, 0x80, 0xbf)
  else if a == 0xf4 then some (4, 0x80, 0x8f)
  else none

/-- The first character of a text and the number of octets it takes; an octet
that starts no character counts as one `replacement`. -/
def decodeRune : Bytes → Char × ℕ
  | [] => (replacement, 0)
  | a :: l =>
    if a < 0x80 then (Char.ofNat a.toNat, 1)
    else
      let tail (b : UInt8) : Bool := 0x80 ≤ b && b ≤ 0xbf
      let six (b : UInt8) : ℕ := b.toNat % 64
      match leadOctet a, l with
      | some (2, _, _), b :: _ =>
        if tail b then (Char.ofNat (a.toNat % 32 * 64 + six b), 2) else (replacement, 1)
      | some (3, lo, hi), b :: c :: _ =>
        if lo ≤ b && b ≤ hi && tail c then
          (Char.ofNat ((a.toNat % 16 * 64 + six b) * 64 + six c), 3)
        else (replacement, 1)
      | some (4, lo, hi), b :: c :: d :: _ =>
        if lo ≤ b && b ≤ hi && tail c && tail d then
          (Char.ofNat (((a.toNat % 8 * 64 + six b) * 64 + six c) * 64 + six d), 4)
        else (replacement, 1)
      | _, _ => (replacement, 1)

/-- The code unit of a `\u` escape at the front of a text. -/
def unitAt : Bytes → Option ℕ
  | 0x5c :: 0x75 :: a :: b :: c :: d :: _ => hex4 a b c d
  | _ => none

/-- The characters of the inside of a string literal.  A pair of surrogate
escapes is one character, a surrogate without its partner is none. -/
def unquoteChars : ℕ → Bytes → List Char
  | 0, _ => []
  | _ + 1, [] => []
  | fuel + 1, b :: l =>
    if b == 0x5c then
      match unitAt (b :: l) with
      | some hi =>
        if 0xd800 ≤ hi ∧ hi < 0xe000 then
          match unitAt (l.drop 5) with
          | some lo =>
            if hi < 0xdc00 ∧ 0xdc00 ≤ lo ∧ lo < 0xe000 then
              Char.ofNat ((hi - 0xd800) * 0x400 + (lo - 0xdc00) + 0x10000) ::
                unquoteChars fuel (l.drop 11)
            else replacement :: unquoteChars fuel (l.drop 5)
          | none => replacement :: unquoteChars fuel (l.drop 5)
        else Char.ofNat hi :: unquoteChars fuel (l.drop 5)
      | none =>
        match l with
        | e :: r => (escape e).getD replacement :: unquoteChars fuel r
        | [] => []
    else
      let (c, n) := decodeRune (b :: l)
      c :: unquoteChars fuel (l.drop (n - 1))

def unquote (l : Bytes) : String := String.ofList (unquoteChars l.length l)

/-! ### Values -/

/-- One level of a JSON text: the items of an array and the values of an object
are texts of their own, in the order they stand in. -/
inductive Value where
  | null
  | bool (b : Bool)
  | number (text : Bytes)
  | string (s : String)
  | array (items : List Bytes)
  | object (members : List (String × Bytes))
  deriving DecidableEq

def isSpace (b : UInt8) : Bool := b == 0x20 || b == 0x09 || b == 0x0a || b == 0x0d

def isDigit (b : UInt8) : Bool := 0x30 ≤ b && b ≤ 0x39

def skipSpace (l : Bytes) : Bytes := l.dropWhile isSpace

def scanDigits : Bytes → Option Bytes
  | [] => none
  | b :: l => if isDigit b then some (l.dropWhile isDigit) else none

def scanFraction : Bytes → Option Bytes
  | 0x2e :: l => scanDigits l
  | l => some l

def scanExponent : Bytes → Option Bytes
  | b :: l =>
    if b == 0x65 || b == 0x45 then
      match l with
      | 0x2b :: r => scanDigits r
      | 0x2d :: r => scanDigits r
      | r => scanDigits r
    else some (b :: l)
  | [] => some []

/-- What follows a number.  A leading zero stands alone. -/
def scanNumber (l : Bytes) : Option Bytes := do
  let l := match l with
    | 0x2d :: r => r
    | r => r
  let l ← match l with
    | 0x30 :: r => some r
    | r => scanDigits r
  let l ← scanFraction l
  scanExponent l

/-- The text in front of the suffix `rest` of `l`. -/
def upTo (l rest : Bytes) : Bytes := l.take (l.length - rest.length)

def scanName (name : Bytes) (l : Bytes) : Option Bytes :=
  if name.isPrefixOf l then some (l.drop name.length) else none

mutual

/-- Reads one value and returns it with the text after it.  `depth` bounds how
deep objects and arrays may nest. -/
def readValue : ℕ → ℕ → Bytes → Option (Value × Bytes)
  | 0, _, _ => none
  | _ + 1, _, [] => none
  | fuel + 1, depth, b :: l =>
    if b == 0x22 then (scanString l).map fun p => (.string (unquote p.1), p.2)
    else if b == 0x7b then
      match depth, skipSpace l with
      | 0, _ => none
      | _ + 1, 0x7d :: r => some (.object [], r)
      | d + 1, r => (readMembers fuel d r).map fun p => (.object p.1, p.2)
    else if b == 0x5b then
      match depth, skipSpace l with
      | 0, _ => none
      | _ + 1, 0x5d :: r => some (.array [], r)
      | d + 1, r => (readItems fuel d r).map fun p => (.array p.1, p.2)
    else if b == 0x74 then (scanName (utf8 "true") (b :: l)).map fun r => (.bool true, r)
    else if b == 0x66 then (scanName (utf8 "false") (b :: l)).map fun r => (.bool false, r)
    else if b == 0x6e then (scanName (utf8 "null") (b :: l)).map fun r => (.null, r)
    else (scanNumber (b :: l)).map fun r => (.number (upTo (b :: l) r), r)

def readMembers : ℕ → ℕ → Bytes → Option (List (String × Bytes) × Bytes)
  | 0, _, _ => none
  | fuel + 1, depth, l =>
    match l with
    | 0x22 :: l => do
      let (key, l) ← scanString l
      match skipSpace l with
      | 0x3a :: l =>
        let l := skipSpace l
        let (_, r) ← readValue fuel depth l
        let member := (unquote key, upTo l r)
        match skipSpace r with
        | 0x2c :: r => (readMembers fuel depth (skipSpace r)).map fun p => (member :: p.1, p.2)
        | 0x7d :: r => some ([member], r)
        | _ => none
      | _ => none
    | _ => none

def readItems : ℕ → ℕ → Bytes → Option (List Bytes × Bytes)
  | 0, _, _ => none
  | fuel + 1, depth, l => do
    let (_, r) ← readValue fuel depth l
    match skipSpace r with
    | 0x2c :: r' => (readItems fuel depth (skipSpace r')).map fun p => (upTo l r :: p.1, p.2)
    | 0x5d :: r' => some ([upTo l r], r')
    | _ => none

end

def maxNestingDepth : ℕ := 10000

def parse (text : Bytes) : Option Value :=
  match readValue (text.length + 1) maxNestingDepth (skipSpace text) with
  | some (v, rest) => if skipSpace rest = [] then some v else none
  | none => none

example : parse (utf8 " [1, \x7b\"a\" : \"x\\u00e9\\n\"\x7d] ") =
    some (.array [utf8 "1", utf8 "\x7b\"a\" : \"x\\u00e9\\n\"\x7d"]) := by decide +kernel

/-! ### The fields of a record -/

/-- The members a record is decoded from.  `null` decodes into every record and
leaves it as it is. -/
def members (text : Bytes) : Option (List (String × Bytes)) :=
  match parse text with
  | some (.object ms) => some ms
  | some .null => some []
  | _ => none

/-- The letter a character is compared as.  Two characters beyond ASCII fold to
an ASCII letter: the long s and the Kelvin sign. -/
def foldChar (c : Char) : Char :=
  if 'A' ≤ c ∧ c ≤ 'Z' then Char.ofNat (c.toNat + 32)
  else if c = Char.ofNat 0x17f then 's'
  else if c = Char.ofNat 0x212a then 'k'
  else c

def foldName (s : String) : List Char := s.toList.map foldChar

/-- The member with this key goes into the field of this name. -/
def matchesField (field key : String) : Bool := foldName key == foldName field

/-- What one member does to a string field: `null` leaves it, and a value of
another kind leaves it and makes the decoding fail. -/
def stringMember (field : String) (acc : String × Bool) (m : String × Bytes) : String × Bool :=
  if matchesField field m.1 then
    match parse m.2 with
    | some (.string s) => (s, acc.2)
    | some .null => acc
    | _ => (acc.1, false)
  else acc

/-- A string field after decoding an object, and whether its members were all
fit for it. -/
def stringField (field : String) (members : List (String × Bytes)) : String × Bool :=
  members.foldl (stringMember field) ("", true)

/-- What one member does to a field that points to a string: `null` takes the pointer
away. -/
def stringPtrMember (field : String) (acc : Option String × Bool) (m : String × Bytes) :
    Option String × Bool :=
  if matchesField field m.1 then
    match parse m.2 with
    | some (.string s) => (some s, acc.2)
    | some .null => (none, acc.2)
    | _ => (acc.1, false)
  else acc

def stringPtrField (field : String) (members : List (String × Bytes)) : Option String × Bool :=
  members.foldl (stringPtrMember field) (none, true)

/-- The integer a number's text stands for; fractions and exponents have none. -/
def intOf (text : Bytes) : Option ℤ :=
  let digits (l : Bytes) : Option ℕ :=
    if l.all isDigit then some (l.foldl (fun n b => n * 10 + (b.toNat - 0x30)) 0) else none
  match text with
  | 0x2d :: l => (digits l).map fun n => -(n : ℤ)
  | l => (digits l).map fun n => (n : ℤ)

def intMember (field : String) (acc : ℤ × Bool) (m : String × Bytes) : ℤ × Bool :=
  if matchesField field m.1 then
    match parse m.2 with
    | some (.number text) =>
      match intOf text with
      | some n => if -2 ^ 63 ≤ n ∧ n < 2 ^ 63 then (n, acc.2) else (acc.1, false)
      | none => (acc.1, false)
    | some .null => acc
    | _ => (acc.1, false)
  else acc

def intField (field : String) (members : List (String × Bytes)) : ℤ × Bool :=
  members.foldl (intMember field) (0, true)

/-- A field that keeps the text of its value, after decoding an object. -/
def rawField (field : String) (members : List (String × Bytes)) : Option Bytes :=
  members.foldl (fun acc m => if matchesField field m.1 then some m.2 else acc) none

/-- The value of the member with exactly this key; the last one when there are
several. -/
def exactField (key : String) (members : List (String × Bytes)) : Option Bytes :=
  members.foldl (fun acc m => if m.1 = key then some m.2 else acc) none

def stringOf (text : Bytes) : Option String :=
  match parse text with
  | some (.string s) => some s
  | _ => none

variable {field : String}

theorem stringMember_of_string {m : String × Bytes} {s : String}
    (hm : matchesField field m.1 = true) (hs : stringOf m.2 = some s) (acc : String × Bool) :
    stringMember field acc m = (s, acc.2) := by
  unfold stringMember
  rw [if_pos hm]
  unfold stringOf at hs
  split at hs
  · next s' hparse =>
    cases hs
    rw [hparse]
  · cases hs

end Json
