import ArcRelay.Lib.JsonGrammar

/-!
# JSON strings, read and written

The two ways in which Go's `encoding/json` writes a string: the literal of a string it has,
and a literal it was given, which it copies with the octets that matter in HTML and the
line separators escaped.  Either way the characters read back are the same.  The reader
works on octets that need not be the encoding of anything; what it makes of an octet depends
on the ones that go on the character, and compaction leaves those as they are.
-/

namespace Json

open List Option Nat Bool

/-! ### Compaction -/

/-- The octets that are escaped inside strings because they matter in HTML. -/
def isHTML (b : UInt8) : Bool := b == 0x3c || b == 0x3e || b == 0x26

def hexDigit (n : ℕ) : UInt8 := (utf8 "0123456789abcdef").getD n 0

def hexEscape (n : ℕ) : Bytes := [0x5c, 0x75, 0x30, 0x30, hexDigit (n / 16), hexDigit (n % 16)]

/-- The escape of a line separator at the front of a text. -/
def separatorEscape : Bytes → Option Bytes
  | 0xe2 :: 0x80 :: 0xa8 :: _ => some (utf8 "\\u2028")
  | 0xe2 :: 0x80 :: 0xa9 :: _ => some (utf8 "\\u2029")
  | _ => none

/-- Where compaction is: between tokens, in a string, behind a backslash, or in the rest of
a character whose escape has been written. -/
inductive Mode
  | outside
  | inside
  | escaped
  | skipping (left : ℕ)

/-- The text without the white space between its tokens, and with some characters of its
strings escaped. -/
def compactFrom : Mode → Bytes → Bytes
  | _, [] => []
  | .outside, b :: l =>
    if isSpace b then compactFrom .outside l
    else b :: compactFrom (if b == 0x22 then .inside else .outside) l
  | .inside, b :: l =>
    if b == 0x22 then b :: compactFrom .outside l
    else if b == 0x5c then b :: compactFrom .escaped l
    else if isHTML b then hexEscape b.toNat ++ compactFrom .inside l
    else
      match separatorEscape (b :: l) with
      | some e => e ++ compactFrom (.skipping 1) l
      | none => b :: compactFrom .inside l
  | .escaped, b :: l => b :: compactFrom .inside l
  | .skipping 0, _ :: l => compactFrom .inside l
  | .skipping (n + 1), _ :: l => compactFrom (.skipping n) l

def compact (text : Bytes) : Bytes := compactFrom .outside text

def compactInner (inner : Bytes) : Bytes := compactFrom .inside inner

def isTail (b : UInt8) : Bool := 0x80 ≤ b && b ≤ 0xbf

variable {b : UInt8} {l : Bytes}

theorem compactInner_escape (e : UInt8) (l : Bytes) :
    compactInner (0x5c :: e :: l) = 0x5c :: e :: compactInner l := rfl

theorem compactInner_octet (hquote : b ≠ 0x22) (hescape : b ≠ 0x5c) (hhtml : isHTML b = false)
    (hsep : separatorEscape (b :: l) = none) : compactInner (b :: l) = b :: compactInner l := by
  rw [compactInner, compactFrom, if_neg (by simpa using hquote), if_neg (by simpa using hescape),
    if_neg (eq_false_iff.mp hhtml), hsep]
  rfl

theorem compactInner_cons (hquote : b ≠ 0x22) (hescape : b ≠ 0x5c) (l : Bytes) :
    (∃ w x y z u k, compactInner (b :: l) =
        0x5c :: 0x75 :: w :: x :: y :: z :: compactInner (l.drop k) ∧
      hex4 w x y z = some u ∧ u < 0xd800 ∧ decodeRune (b :: l) = (Char.ofNat u, k + 1)) ∨
    compactInner (b :: l) = b :: compactInner l := by
  by_cases hhtml : isHTML b = true
  · simp only [isHTML, or_eq_true, beq_iff_eq] at hhtml
    rcases hhtml with (rfl | rfl) | rfl <;> exact .inl ⟨_, _, _, _, _, 0, rfl, rfl, by decide, rfl⟩
  cases hsep : separatorEscape (b :: l) with
  | none => exact .inr (compactInner_octet hquote hescape (eq_false_iff.mpr hhtml) hsep)
  | some e => ?_
  unfold separatorEscape at hsep
  split at hsep
  · next heq =>
    cases heq
    exact .inl ⟨0x32, 0x30, 0x32, 0x38, 0x2028, 2, rfl, rfl, by decide, rfl⟩
  · next heq =>
    cases heq
    exact .inl ⟨0x32, 0x30, 0x32, 0x39, 0x2029, 2, rfl, rfl, by decide, rfl⟩
  · cases hsep

/-! ### Characters -/

theorem leadOctet_bounds {a : UInt8} {p : ℕ × UInt8 × UInt8} (h : leadOctet a = some p) :
    (p.1 = 2 ∨ p.1 = 3 ∨ p.1 = 4) ∧ 0x80 ≤ p.2.1 ∧ p.2.2 ≤ 0xbf := by
  unfold leadOctet at h
  grind

section

variable {a c d lo hi : UInt8}

theorem decodeRune_ascii (h : a < 0x80) (l : Bytes) :
    decodeRune (a :: l) = (Char.ofNat a.toNat, 1) := by
  rw [decodeRune, if_pos h]

theorem decodeRune_none (h : ¬ a < 0x80) (hlead : leadOctet a = none) (l : Bytes) :
    decodeRune (a :: l) = (replacement, 1) := by
  rw [decodeRune, if_neg h]
  rw [hlead]

theorem decodeRune_two (h : ¬ a < 0x80) (hlead : leadOctet a = some (2, lo, hi)) (l : Bytes) :
    decodeRune (a :: b :: l) =
      if isTail b then (Char.ofNat (a.toNat % 32 * 64 + b.toNat % 64), 2)
      else (replacement, 1) := by
  rw [decodeRune, if_neg h]
  rw [hlead]
  rfl

theorem decodeRune_three (h : ¬ a < 0x80) (hlead : leadOctet a = some (3, lo, hi)) (l : Bytes) :
    decodeRune (a :: b :: c :: l) =
      if lo ≤ b && b ≤ hi && isTail c then
        (Char.ofNat ((a.toNat % 16 * 64 + b.toNat % 64) * 64 + c.toNat % 64), 3)
      else (replacement, 1) := by
  rw [decodeRune, if_neg h]
  rw [hlead]
  rfl

theorem decodeRune_four (h : ¬ a < 0x80) (hlead : leadOctet a = some (4, lo, hi)) (l : Bytes) :
    decodeRune (a :: b :: c :: d :: l) =
      if lo ≤ b && b ≤ hi && isTail c && isTail d then
        (Char.ofNat (((a.toNat % 8 * 64 + b.toNat % 64) * 64 + c.toNat % 64) * 64 + d.toNat % 64),
          4)
      else (replacement, 1) := by
  rw [decodeRune, if_neg h]
  rw [hlead]
  rfl

theorem decodeRune_short {n : ℕ} (h : ¬ a < 0x80) (hlead : leadOctet a = some (n, lo, hi))
    (hn : n = 2 ∨ n = 3 ∨ n = 4) (hl : l.length + 1 < n) :
    decodeRune (a :: l) = (replacement, 1) := by
  rw [decodeRune, if_neg h]
  rw [hlead]
  rcases hn with rfl | rfl | rfl
  · rcases l with _ | ⟨b, l⟩
    · rfl
    simp only [length_cons] at hl
    omega
  · rcases l with _ | ⟨b, _ | ⟨c, l⟩⟩
    · rfl
    · rfl
    simp only [length_cons] at hl
    omega
  · rcases l with _ | ⟨b, _ | ⟨c, _ | ⟨d, l⟩⟩⟩
    · rfl
    · rfl
    · rfl
    simp only [length_cons] at hl
    omega

theorem decodeRune_takeWhile (a : UInt8) (l : Bytes) :
    decodeRune (a :: l) = decodeRune (a :: l.takeWhile isTail) := by
  by_cases h : a < 0x80
  · rw [decodeRune_ascii h, decodeRune_ascii h]
  cases hlead : leadOctet a with
  | none => rw [decodeRune_none h hlead, decodeRune_none h hlead]
  | some p => ?_
  obtain ⟨n, lo, hi⟩ := p
  obtain ⟨hn, hlo, hhi⟩ := leadOctet_bounds hlead
  have hsecond : ∀ b, (lo ≤ b && b ≤ hi) = true → isTail b = true := by
    intro b hb
    simp only [and_eq_true, decide_eq_true_eq] at hb
    simp only [isTail, and_eq_true, decide_eq_true_eq]
    exact ⟨UInt8.le_trans hlo hb.1, UInt8.le_trans hb.2 hhi⟩
  -- a character that is cut short, by the end or by an octet of another kind
  have hshort := fun l => decodeRune_short (l := l) h hlead hn
  by_cases hl : l.length + 1 < n
  · have hle : (l.takeWhile isTail).length ≤ l.length := (List.takeWhile_prefix isTail).length_le
    rw [hshort l hl, hshort _ (by omega)]
  rcases hn with rfl | rfl | rfl
  · rcases l with _ | ⟨b, l⟩
    · simp at hl
    · grind [decodeRune_two, takeWhile_cons]
  · rcases l with _ | ⟨b, _ | ⟨c, l⟩⟩
    · simp at hl
    · simp at hl
    · grind [decodeRune_three, takeWhile_cons]
  · rcases l with _ | ⟨b, _ | ⟨c, _ | ⟨d, l⟩⟩⟩
    · simp at hl
    · simp at hl
    · simp at hl
    · grind [decodeRune_four, takeWhile_cons]

theorem decodeRune_le (a : UInt8) (l : Bytes) :
    (decodeRune (a :: l)).2 ≤ (l.takeWhile isTail).length + 1 := by
  rw [decodeRune_takeWhile]
  generalize l.takeWhile isTail = l
  unfold decodeRune
  grind

end

/-- The first character of the inside of a string literal, and how many octets it takes
behind the first. -/
def charAt (b : UInt8) (l : Bytes) : Option (Char × ℕ) :=
  if b == 0x5c then
    match unitAt (b :: l) with
    | some hi =>
      if 0xd800 ≤ hi ∧ hi < 0xe000 then
        match unitAt (l.drop 5) with
        | some lo =>
          if hi < 0xdc00 ∧ 0xdc00 ≤ lo ∧ lo < 0xe000 then
            some (Char.ofNat ((hi - 0xd800) * 0x400 + (lo - 0xdc00) + 0x10000), 11)
          else some (replacement, 5)
        | none => some (replacement, 5)
      else some (Char.ofNat hi, 5)
    | none =>
      match l with
      | e :: _ => some ((escape e).getD replacement, 1)
      | [] => none
  else some ((decodeRune (b :: l)).1, (decodeRune (b :: l)).2 - 1)

theorem unquoteChars_succ (fuel : ℕ) (b : UInt8) (l : Bytes) :
    unquoteChars (fuel + 1) (b :: l) =
      (charAt b l).elim [] fun p => p.1 :: unquoteChars fuel (l.drop p.2) := by
  rw [unquoteChars.eq_def, charAt.eq_def]
  dsimp only
  by_cases hb : (b == 0x5c) = true
  · rw [if_pos hb, if_pos hb]
    cases unitAt (b :: l) with
    | none =>
      cases l with
      | nil | cons _ _ => rfl
    | some hi => ?_
    dsimp only
    by_cases hsurrogate : 0xd800 ≤ hi ∧ hi < 0xe000
    · rw [if_pos hsurrogate, if_pos hsurrogate]
      cases unitAt (l.drop 5) with
      | none => rfl
      | some lo => ?_
      dsimp only
      by_cases hpair : hi < 0xdc00 ∧ 0xdc00 ≤ lo ∧ lo < 0xe000
      · rw [if_pos hpair, if_pos hpair, elim_some]
      · rw [if_neg hpair, if_neg hpair, elim_some]
    · rw [if_neg hsurrogate, if_neg hsurrogate]
      rfl
  · rw [if_neg hb, if_neg hb]
    rfl

theorem unquoteChars_fuel {fuel fuel' : ℕ} (h : l.length ≤ fuel) (h' : l.length ≤ fuel') :
    unquoteChars fuel l = unquoteChars fuel' l := by
  induction fuel generalizing fuel' l with
  | zero =>
    rw [length_eq_zero_iff.mp (le_zero.mp h)]
    cases fuel' with
    | zero | succ _ => rfl
  | succ fuel ih => ?_
  cases l with
  | nil =>
    cases fuel' with
    | zero | succ _ => rfl
  | cons b l => ?_
  cases fuel' with
  | zero => exact absurd h' (not_succ_le_zero _)
  | succ fuel' => ?_
  rw [unquoteChars_succ, unquoteChars_succ]
  cases charAt b l with
  | none => rfl
  | some p => ?_
  have hle : (l.drop p.2).length ≤ l.length := by
    rw [length_drop]
    exact sub_le _ _
  rw [length_cons] at h h'
  exact congrArg (p.1 :: ·) (ih (by omega) (by omega))

def chars (l : Bytes) : List Char := unquoteChars l.length l

theorem unquote_eq (l : Bytes) : unquote l = String.ofList (chars l) := rfl

theorem chars_cons (b : UInt8) (l : Bytes) :
    chars (b :: l) = (charAt b l).elim [] fun p => p.1 :: chars (l.drop p.2) := by
  rw [chars, length_cons, unquoteChars_succ]
  cases charAt b l with
  | none => rfl
  | some p => ?_
  refine congrArg (p.1 :: ·) (unquoteChars_fuel ?_ (Nat.le_refl _))
  rw [length_drop]
  exact sub_le _ _

section

variable {a c d e : UInt8} {u : ℕ}

theorem chars_rune (hb : b ≠ 0x5c) (l : Bytes) :
    chars (b :: l) = (decodeRune (b :: l)).1 :: chars (l.drop ((decodeRune (b :: l)).2 - 1)) := by
  rw [chars_cons, charAt.eq_def, if_neg (by simpa using hb), elim_some]

theorem unitAt_escape (he : e ≠ 0x75) (l : Bytes) : unitAt (0x5c :: e :: l) = none := by
  unfold unitAt
  split
  · next heq =>
    obtain ⟨he', -⟩ := cons.inj (cons.inj heq).2
    exact absurd he' he
  · rfl

theorem chars_escape (he : e ≠ 0x75) (l : Bytes) :
    chars (0x5c :: e :: l) = (escape e).getD replacement :: chars l := by
  rw [chars_cons, charAt.eq_def, if_pos (by decide), unitAt_escape he]
  rfl

/-- How a surrogate reads the code unit that follows it, and what it takes of the text. -/
def surrogate (hi : ℕ) : Option ℕ → Char × ℕ
  | some lo =>
    if hi < 0xdc00 ∧ 0xdc00 ≤ lo ∧ lo < 0xe000 then
      (Char.ofNat ((hi - 0xd800) * 0x400 + (lo - 0xdc00) + 0x10000), 6)
    else (replacement, 0)
  | none => (replacement, 0)

theorem chars_unit (h : hex4 a b c d = some u) (l : Bytes) :
    chars (0x5c :: 0x75 :: a :: b :: c :: d :: l) =
      if 0xd800 ≤ u ∧ u < 0xe000 then
        (surrogate u (unitAt l)).1 :: chars (l.drop (surrogate u (unitAt l)).2)
      else Char.ofNat u :: chars l := by
  have hunit : unitAt (0x5c :: 0x75 :: a :: b :: c :: d :: l) = some u := h
  have hrest : List.drop 5 (0x75 :: a :: b :: c :: d :: l) = l := rfl
  rw [chars_cons, charAt.eq_def, if_pos (by decide), hunit]
  dsimp only
  split
  · rw [hrest]
    cases unitAt l with
    | none => rfl
    | some lo => ?_
    unfold surrogate
    dsimp only
    by_cases hpair : u < 0xdc00 ∧ 0xdc00 ≤ lo ∧ lo < 0xe000
    · rw [if_pos hpair, if_pos hpair, elim_some]
      rfl
    · rw [if_neg hpair, if_neg hpair, elim_some]
      rfl
  · rfl

end

section

variable {c : UInt8} {t : Bytes} {k : ℕ}

theorem ne_of_isTail (hb : isTail b = true) (hc : isTail c = false) : b ≠ c := by
  rintro rfl
  rw [hc] at hb
  cases hb

theorem separatorEscape_of_ne (hb : b ≠ 0xe2) (l : Bytes) : separatorEscape (b :: l) = none := by
  unfold separatorEscape
  split
  · next heq => exact absurd (cons.inj heq).1 hb
  · next heq => exact absurd (cons.inj heq).1 hb
  · rfl

theorem isHTML_of_ne (h : b ≠ 0x3c ∧ b ≠ 0x3e ∧ b ≠ 0x26) : isHTML b = false := by
  simp [isHTML, h]

theorem compactInner_tail (hb : isTail b = true) (l : Bytes) :
    compactInner (b :: l) = b :: compactInner l :=
  compactInner_octet (ne_of_isTail hb rfl) (ne_of_isTail hb rfl)
    (isHTML_of_ne ⟨ne_of_isTail hb rfl, ne_of_isTail hb rfl, ne_of_isTail hb rfl⟩)
    (separatorEscape_of_ne (ne_of_isTail hb rfl) l)

theorem compactInner_drop (h : k ≤ (l.takeWhile isTail).length) :
    (compactInner l).drop k = compactInner (l.drop k) := by
  induction k generalizing l with
  | zero => rfl
  | succ k ih => ?_
  cases l with
  | nil => exact absurd h (not_succ_le_zero _)
  | cons b l => ?_
  rw [takeWhile_cons] at h
  split at h
  · next hb =>
    rw [compactInner_tail hb]
    exact ih (le_of_succ_le_succ h)
  · exact absurd h (not_succ_le_zero _)

theorem takeWhile_compactInner_of_not (hb : isTail b = false) (l : Bytes) :
    (compactInner (b :: l)).takeWhile isTail = [] := by
  have hfirst : ∀ {c : UInt8} {t : Bytes}, isTail c = false → (c :: t).takeWhile isTail = [] :=
    fun hc => takeWhile_cons_of_neg (eq_false_iff.mp hc)
  by_cases hquote : b = 0x22
  · subst hquote
    exact hfirst rfl
  by_cases hescape : b = 0x5c
  · subst hescape
    exact hfirst rfl
  rcases compactInner_cons hquote hescape l with ⟨w, x, y, z, u, k, hunit, -⟩ | hoctet
  · rw [hunit]
    exact hfirst rfl
  · rw [hoctet]
    exact hfirst hb

theorem takeWhile_compactInner (l : Bytes) :
    (compactInner l).takeWhile isTail = l.takeWhile isTail := by
  induction l with
  | nil => rfl
  | cons b l ih => ?_
  by_cases hb : isTail b = true
  · rw [compactInner_tail hb, takeWhile_cons_of_pos hb, takeWhile_cons_of_pos hb, ih]
  · rw [takeWhile_compactInner_of_not (eq_false_iff.mpr hb), takeWhile_cons_of_neg hb]

theorem decodeRune_compactInner (b : UInt8) (l : Bytes) :
    decodeRune (b :: compactInner l) = decodeRune (b :: l) := by
  rw [decodeRune_takeWhile, takeWhile_compactInner, ← decodeRune_takeWhile]

theorem Inner.of_octet (h : Inner (b :: l)) (hb : b ≠ 0x5c) : Inner l := by
  cases h with
  | unit | escape => exact absurd rfl hb
  | octet _ _ _ hl => exact hl

theorem Inner.drop (h : Inner l) (hk : k ≤ (l.takeWhile isTail).length) : Inner (l.drop k) := by
  induction k generalizing l with
  | zero => exact h
  | succ k ih => ?_
  cases l with
  | nil => exact absurd hk (not_succ_le_zero _)
  | cons b l => ?_
  rw [takeWhile_cons] at hk
  split at hk
  · next hb => exact ih (h.of_octet (ne_of_isTail hb rfl)) (le_of_succ_le_succ hk)
  · exact absurd hk (not_succ_le_zero _)

end

section

variable {a c d e : UInt8} {inner : Bytes} {u : ℕ}

theorem ne_of_hexVal (hb : (hexVal b).isSome) (hc : hexVal c = none) : b ≠ c := by
  rintro rfl
  rw [hc] at hb
  cases hb

theorem hexVal_of_hex4 (h : (hex4 a b c d).isSome) :
    (hexVal a).isSome ∧ (hexVal b).isSome ∧ (hexVal c).isSome ∧ (hexVal d).isSome := by
  unfold hex4 at h
  cases ha : hexVal a <;> cases hb : hexVal b <;> cases hc : hexVal c <;> cases hd : hexVal d <;>
    simp [ha, hb, hc, hd] at h ⊢

theorem compactInner_hexVal (hb : (hexVal b).isSome) (l : Bytes) :
    compactInner (b :: l) = b :: compactInner l :=
  compactInner_octet (ne_of_hexVal hb rfl) (ne_of_hexVal hb rfl)
    (isHTML_of_ne ⟨ne_of_hexVal hb rfl, ne_of_hexVal hb rfl, ne_of_hexVal hb rfl⟩)
    (separatorEscape_of_ne (ne_of_hexVal hb rfl) l)

theorem compactInner_unit (h : (hex4 a b c d).isSome) (l : Bytes) :
    compactInner (0x5c :: 0x75 :: a :: b :: c :: d :: l) =
      0x5c :: 0x75 :: a :: b :: c :: d :: compactInner l := by
  obtain ⟨ha, hb, hc, hd⟩ := hexVal_of_hex4 h
  rw [compactInner_escape, compactInner_hexVal ha, compactInner_hexVal hb, compactInner_hexVal hc,
    compactInner_hexVal hd]

theorem escape_ne (h : (escape e).isSome) : e ≠ 0x75 := by
  rintro rfl
  cases h

/-- What a surrogate finds behind it is the same before and after. -/
def Rejoins (u : ℕ) (l : Bytes) : Prop :=
  surrogate u (unitAt (compactInner l)) = surrogate u (unitAt l) ∧
    (compactInner l).drop (surrogate u (unitAt l)).2 =
      compactInner (l.drop (surrogate u (unitAt l)).2) ∧
    Inner (l.drop (surrogate u (unitAt l)).2)

theorem surrogate_compactInner (h : Inner l) (u : ℕ) : Rejoins u l := by
  -- without a code unit nothing is taken, and a smaller one is no partner
  have hsmall : ∀ lo, lo < 0xdc00 → surrogate u (some lo) = surrogate u none := by
    intro lo hlo
    unfold surrogate
    dsimp only
    rw [if_neg fun hpair => absurd hpair.2.1 (Nat.not_le.mpr hlo)]
  have hnone : ∀ {l}, Inner l → unitAt l = none → ∀ lo : Option ℕ,
      unitAt (compactInner l) = lo → surrogate u lo = surrogate u none → Rejoins u l := by
    intro l hl hunit lo hlo heq
    rw [Rejoins, hunit, hlo]
    exact ⟨heq, rfl, hl⟩
  cases h with
  | nil => exact hnone .nil rfl none rfl rfl
  | @unit a b c d l h hl =>
    have hunit : unitAt (0x5c :: 0x75 :: a :: b :: c :: d :: l) = hex4 a b c d := rfl
    have hunit' : unitAt (0x5c :: 0x75 :: a :: b :: c :: d :: compactInner l) = hex4 a b c d := rfl
    rw [Rejoins, compactInner_unit h, hunit, hunit']
    refine ⟨rfl, ?_⟩
    unfold surrogate
    split
    · split
      · exact ⟨rfl, hl⟩
      · exact ⟨(compactInner_unit h l).symm, .unit h hl⟩
    · exact ⟨(compactInner_unit h l).symm, .unit h hl⟩
  | @escape e l h hl =>
    refine hnone (.escape h hl) (unitAt_escape (escape_ne h) l) none ?_ rfl
    exact unitAt_escape (escape_ne h) _
  | @octet b l hquote hescape hlt hl =>
    have hunit : ∀ l, unitAt (b :: l) = none := by
      intro l
      unfold unitAt
      split
      · next heq => exact absurd (cons.inj heq).1 hescape
      · rfl
    have hin := Inner.octet hquote hescape hlt hl
    rcases compactInner_cons hquote hescape l with ⟨w, x, y, z, lo, k, hesc, hhex, hlo, -⟩ | hoctet
    · refine hnone hin (hunit l) (some lo) ?_ (hsmall lo (by omega))
      rw [hesc]
      exact hhex
    refine hnone hin (hunit l) none ?_ rfl
    rw [hoctet]
    exact hunit _

/-- **Compaction keeps the characters of a string.** -/
theorem chars_compactInner (h : Inner inner) : chars (compactInner inner) = chars inner := by
  -- on the length: a character may take several octets
  generalize hn : inner.length = n
  induction n using Nat.strongRecOn generalizing inner with
  | ind n ih =>
    subst hn
    cases h with
    | nil => rfl
    | @unit a b c d l h hl =>
      obtain ⟨u, hu⟩ := isSome_iff_exists.mp h
      rw [compactInner_unit h, chars_unit hu, chars_unit hu]
      split
      · obtain ⟨hsur, hdrop, hrest⟩ := surrogate_compactInner hl u
        rw [hsur, hdrop, ih _ ?_ hrest rfl]
        simp only [length_cons, length_drop]
        omega
      · rw [ih _ ?_ hl rfl]
        simp only [length_cons]
        omega
    | @escape e l h hl =>
      rw [compactInner_escape, chars_escape (escape_ne h), chars_escape (escape_ne h),
        ih _ ?_ hl rfl]
      simp only [length_cons]
      omega
    | @octet b l hquote hescape hlt hl =>
      have hle := decodeRune_le b l
      rcases compactInner_cons hquote hescape l with
        ⟨w, x, y, z, u, k, hesc, hhex, hu, hrune⟩ | hoctet
      · rw [hrune] at hle
        rw [hesc, chars_unit hhex, if_neg (by omega), chars_rune hescape, hrune,
          ih _ ?_ (hl.drop (le_of_succ_le_succ hle)) rfl]
        · rfl
        simp only [length_cons, length_drop]
        omega
      · rw [hoctet, chars_rune hescape, chars_rune hescape, decodeRune_compactInner,
          compactInner_drop (by omega), ih _ ?_ (hl.drop (by omega)) rfl]
        simp only [length_cons, length_drop]
        omega

theorem Inner.compactInner (h : Inner inner) : Inner (compactInner inner) := by
  induction h with
  | nil => exact .nil
  | unit h hl ih =>
    rw [compactInner_unit h]
    exact .unit h ih
  | escape h hl ih => exact .escape h ih
  | @octet b l hquote hescape hlt hl ih => ?_
  rcases compactInner_cons hquote hescape l with
    ⟨w, x, y, z, u, k, hesc, hhex, -, hrune⟩ | hoctet
  · have hle := decodeRune_le b l
    rw [hrune] at hle
    have hk := le_of_succ_le_succ hle
    rw [hesc]
    refine .unit (by rw [hhex]; rfl) ?_
    rw [← compactInner_drop hk]
    refine ih.drop ?_
    rwa [takeWhile_compactInner]
  · rw [hoctet]
    exact .octet hquote hescape hlt ih

end

/-! ### Strings -/

section

variable {a c d : UInt8} {n : ℕ}

theorem isTail_iff : isTail b = true ↔ 0x80 ≤ b.toNat ∧ b.toNat ≤ 0xbf := by
  simp only [isTail, and_eq_true, decide_eq_true_eq, UInt8.le_iff_toNat_le]
  rfl

theorem not_ascii (h : 0x80 ≤ a.toNat) : ¬ a < 0x80 := Nat.not_lt.mpr h

theorem leadOctet_eq (a : UInt8) :
    leadOctet a =
      if 0xc2 ≤ a.toNat ∧ a.toNat ≤ 0xdf then some (2, 0x80, 0xbf)
      else if a.toNat = 0xe0 then some (3, 0xa0, 0xbf)
      else if a.toNat = 0xed then some (3, 0x80, 0x9f)
      else if 0xe1 ≤ a.toNat ∧ a.toNat ≤ 0xef then some (3, 0x80, 0xbf)
      else if a.toNat = 0xf0 then some (4, 0x90, 0xbf)
      else if 0xf1 ≤ a.toNat ∧ a.toNat ≤ 0xf3 then some (4, 0x80, 0xbf)
      else if a.toNat = 0xf4 then some (4, 0x80, 0x8f)
      else none := by
  unfold leadOctet
  simp only [UInt8.le_iff_toNat_le, beq_iff_eq, ← UInt8.toNat_inj]
  rfl

theorem decodeRune_two_of (ha : 0xc2 ≤ a.toNat ∧ a.toNat ≤ 0xdf) (hb : isTail b = true)
    (l : Bytes) :
    decodeRune (a :: b :: l) = (Char.ofNat (a.toNat % 32 * 64 + b.toNat % 64), 2) := by
  have hlead : leadOctet a = some (2, 0x80, 0xbf) := by
    rw [leadOctet_eq, if_pos ha]
  rw [decodeRune_two (not_ascii (by omega)) hlead, if_pos hb]

theorem decodeRune_three_of (ha : 0xe0 ≤ a.toNat ∧ a.toNat ≤ 0xef) (hb : isTail b = true)
    (hc : isTail c = true) (hlo : a.toNat = 0xe0 → 0xa0 ≤ b.toNat)
    (hhi : a.toNat = 0xed → b.toNat ≤ 0x9f) (l : Bytes) :
    decodeRune (a :: b :: c :: l) =
      (Char.ofNat ((a.toNat % 16 * 64 + b.toNat % 64) * 64 + c.toNat % 64), 3) := by
  have hlead : ∃ lo hi, leadOctet a = some (3, lo, hi) ∧ lo ≤ b ∧ b ≤ hi := by
    obtain ⟨hb1, hb2⟩ := isTail_iff.mp hb
    rw [leadOctet_eq, if_neg (by omega)]
    by_cases hfirst : a.toNat = 0xe0
    · rw [if_pos hfirst]
      exact ⟨_, _, rfl, hlo hfirst, hb2⟩
    by_cases hlast : a.toNat = 0xed
    · rw [if_neg hfirst, if_pos hlast]
      exact ⟨_, _, rfl, hb1, hhi hlast⟩
    · rw [if_neg hfirst, if_neg hlast, if_pos (by omega)]
      exact ⟨_, _, rfl, hb1, hb2⟩
  obtain ⟨lo, hi, hlead, hlo, hhi⟩ := hlead
  rw [decodeRune_three (not_ascii (by omega)) hlead, if_pos]
  simp [hlo, hhi, hc]

theorem decodeRune_four_of (ha : 0xf0 ≤ a.toNat ∧ a.toNat ≤ 0xf4) (hb : isTail b = true)
    (hc : isTail c = true) (hd : isTail d = true) (hlo : a.toNat = 0xf0 → 0x90 ≤ b.toNat)
    (hhi : a.toNat = 0xf4 → b.toNat ≤ 0x8f) (l : Bytes) :
    decodeRune (a :: b :: c :: d :: l) =
      (Char.ofNat (((a.toNat % 8 * 64 + b.toNat % 64) * 64 + c.toNat % 64) * 64 + d.toNat % 64),
        4) := by
  have hlead : ∃ lo hi, leadOctet a = some (4, lo, hi) ∧ lo ≤ b ∧ b ≤ hi := by
    obtain ⟨hb1, hb2⟩ := isTail_iff.mp hb
    rw [leadOctet_eq, if_neg (by omega), if_neg (by omega), if_neg (by omega), if_neg (by omega)]
    by_cases hfirst : a.toNat = 0xf0
    · rw [if_pos hfirst]
      exact ⟨_, _, rfl, hlo hfirst, hb2⟩
    by_cases hlast : a.toNat = 0xf4
    · rw [if_neg hfirst, if_neg (by omega), if_pos hlast]
      exact ⟨_, _, rfl, hb1, hhi hlast⟩
    · rw [if_neg hfirst, if_pos (by omega)]
      exact ⟨_, _, rfl, hb1, hb2⟩
  obtain ⟨lo, hi, hlead, hlo, hhi⟩ := hlead
  rw [decodeRune_four (not_ascii (by omega)) hlead, if_pos]
  simp [hlo, hhi, hc, hd]

theorem toNat_ofNat_of_lt (h : n < 256) : (UInt8.ofNat n).toNat = n := by
  rw [UInt8.toNat_ofNat', mod_eq_of_lt h]

theorem isTail_ofNat (h : n < 64) : isTail (UInt8.ofNat (n + 128)) = true := by
  rw [isTail_iff, toNat_ofNat_of_lt (by omega)]
  omega

/-- **A character is decoded from its octets.** -/
theorem decodeRune_encode (c : Char) (l : Bytes) :
    decodeRune (String.utf8EncodeChar c ++ l) = (c, (String.utf8EncodeChar c).length) := by
  have hvalid : c.toNat < 0xd800 ∨ 0xdfff < c.toNat ∧ c.toNat < 0x110000 := c.valid
  have hchar : ∀ n, n = c.toNat → Char.ofNat n = c := by
    rintro n rfl
    exact Char.ofNat_toNat c
  have hval : c.val.toNat = c.toNat := rfl
  unfold String.utf8EncodeChar
  rw [hval]
  generalize hv : c.toNat = v at *
  dsimp only
  have hmod : v % 64 < 64 := mod_lt _ (by decide)
  have hmod1 : v / 64 % 64 < 64 := mod_lt _ (by decide)
  have hmod2 : v / 4096 % 64 < 64 := mod_lt _ (by decide)
  split
  · rw [singleton_append, decodeRune_ascii, toNat_ofNat_of_lt (by omega), hchar v rfl]
    · rfl
    rw [UInt8.lt_iff_toNat_lt, toNat_ofNat_of_lt (by omega)]
    show v < 128
    omega
  split
  · have ha : (UInt8.ofNat (v / 64 % 32 + 192)).toNat = v / 64 % 32 + 192 :=
      toNat_ofNat_of_lt (by omega)
    rw [cons_append, cons_append, nil_append,
      decodeRune_two_of (by rw [ha]; omega) (isTail_ofNat hmod), ha,
      toNat_ofNat_of_lt (by omega), hchar _ (by omega)]
    rfl
  split
  · have ha : (UInt8.ofNat (v / 4096 % 16 + 224)).toNat = v / 4096 % 16 + 224 :=
      toNat_ofNat_of_lt (by omega)
    have hb : (UInt8.ofNat (v / 64 % 64 + 128)).toNat = v / 64 % 64 + 128 :=
      toNat_ofNat_of_lt (by omega)
    rw [cons_append, cons_append, cons_append, nil_append,
      decodeRune_three_of (by rw [ha]; omega) (isTail_ofNat hmod1) (isTail_ofNat hmod)
        (by rw [ha, hb]; omega) (by rw [ha, hb]; omega), ha, hb, toNat_ofNat_of_lt (by omega),
      hchar _ (by omega)]
    rfl
  · have ha : (UInt8.ofNat (v / 262144 % 8 + 240)).toNat = v / 262144 % 8 + 240 :=
      toNat_ofNat_of_lt (by omega)
    have hb : (UInt8.ofNat (v / 4096 % 64 + 128)).toNat = v / 4096 % 64 + 128 :=
      toNat_ofNat_of_lt (by omega)
    rw [cons_append, cons_append, cons_append, cons_append, nil_append,
      decodeRune_four_of (by rw [ha]; omega) (isTail_ofNat hmod2) (isTail_ofNat hmod1)
        (isTail_ofNat hmod) (by rw [ha, hb]; omega) (by rw [ha, hb]; omega), ha, hb,
      toNat_ofNat_of_lt (by omega), toNat_ofNat_of_lt (by omega), hchar _ (by omega)]
    rfl

end

def quoteChar (c : Char) : Bytes :=
  if c = '"' then [0x5c, 0x22]
  else if c = '\\' then [0x5c, 0x5c]
  else if c.toNat = 8 then [0x5c, 0x62]
  else if c.toNat = 12 then [0x5c, 0x66]
  else if c = '\n' then [0x5c, 0x6e]
  else if c = '\r' then [0x5c, 0x72]
  else if c = '\t' then [0x5c, 0x74]
  else if c.toNat < 0x20 ∨ c = '<' ∨ c = '>' ∨ c = '&' then hexEscape c.toNat
  else if c.toNat = 0x2028 then utf8 "\\u2028"
  else if c.toNat = 0x2029 then utf8 "\\u2029"
  else String.utf8EncodeChar c

def quoteInner (s : String) : Bytes := s.toList.flatMap quoteChar

def quote (s : String) : Bytes := 0x22 :: (quoteInner s ++ [0x22])

variable {c : Char} {q : Bytes}

theorem hex4_hexEscape {n : ℕ} (h : n < 128) :
    hex4 0x30 0x30 (hexDigit (n / 16)) (hexDigit (n % 16)) = some n := by
  have hall : ∀ n : Fin 128,
      hex4 0x30 0x30 (hexDigit (n / 16)) (hexDigit (n % 16)) = some n.1 := by decide +kernel
  exact hall ⟨n, h⟩

theorem encode_cons (c : Char) :
    ∃ b t, String.utf8EncodeChar c = b :: t ∧ (∀ b' ∈ t, 0x80 ≤ b'.toNat) ∧
      (b.toNat = c.toNat ∨ 0x80 ≤ b.toNat) := by
  have hval : c.val.toNat = c.toNat := rfl
  have hhigh : ∀ n k, 128 ≤ k → n + k < 256 → 0x80 ≤ (UInt8.ofNat (n + k)).toNat := by
    intro n k hk hlt
    rw [toNat_ofNat_of_lt hlt]
    omega
  unfold String.utf8EncodeChar
  rw [hval]
  generalize c.toNat = v
  dsimp only
  split
  · exact ⟨_, _, rfl, nofun, .inl (toNat_ofNat_of_lt (by omega))⟩
  split
  · refine ⟨_, _, rfl, ?_, .inr (hhigh _ _ (by decide) (by omega))⟩
    exact List.forall_mem_singleton.mpr (hhigh _ _ (by decide) (by omega))
  split
  · refine ⟨_, _, rfl, ?_, .inr (hhigh _ _ (by decide) (by omega))⟩
    exact List.forall_mem_cons.mpr ⟨hhigh _ _ (by decide) (by omega),
      List.forall_mem_singleton.mpr (hhigh _ _ (by decide) (by omega))⟩
  refine ⟨_, _, rfl, ?_, .inr (hhigh _ _ (by decide) (by omega))⟩
  exact List.forall_mem_cons.mpr ⟨hhigh _ _ (by decide) (by omega),
    List.forall_mem_cons.mpr ⟨hhigh _ _ (by decide) (by omega),
      List.forall_mem_singleton.mpr (hhigh _ _ (by decide) (by omega))⟩⟩

theorem ne_of_toNat {b' : UInt8} (h : b.toNat ≠ b'.toNat) : b ≠ b' := fun heq =>
  h (congrArg UInt8.toNat heq)

theorem toNat_ne {d : Char} (h : c ≠ d) : c.toNat ≠ d.toNat := fun heq => h (Char.toNat_inj.mp heq)

/-- What the literal of a character is: an escape of one letter, an escape by its number, or
its own octets. -/
inductive Quoted (c : Char) : Bytes → Prop
  | escape {e : UInt8} (h : Json.escape e = some c) : Quoted c [0x5c, e]
  | unit {w x y z : UInt8} (h : hex4 w x y z = some c.toNat) (hlt : c.toNat < 0xd800) :
    Quoted c [0x5c, 0x75, w, x, y, z]
  | octets (hquote : c ≠ '"') (hescape : c ≠ '\\') (hlt : ¬ c.toNat < 0x20) :
    Quoted c (String.utf8EncodeChar c)

theorem Quoted.ite {P : Prop} [Decidable P] {l' : Bytes} (h : P → Quoted c l)
    (h' : ¬ P → Quoted c l') : Quoted c (if P then l else l') :=
  iteInduction h h'

theorem quoted_quoteChar (c : Char) : Quoted c (quoteChar c) := by
  have hchar : ∀ {n}, c.toNat = n → c = Char.ofNat n := by
    rintro n rfl
    exact (Char.ofNat_toNat c).symm
  refine .ite (fun h => h ▸ .escape rfl) fun hquote => ?_
  refine .ite (fun h => h ▸ .escape rfl) fun hescape => ?_
  refine .ite (fun h => hchar h ▸ .escape rfl) fun _ => ?_
  refine .ite (fun h => hchar h ▸ .escape rfl) fun _ => ?_
  refine .ite (fun h => h ▸ .escape rfl) fun _ => ?_
  refine .ite (fun h => h ▸ .escape rfl) fun _ => ?_
  refine .ite (fun h => h ▸ .escape rfl) fun _ => ?_
  refine .ite (fun h => ?_) fun hplain => ?_
  · have hlt : c.toNat < 128 := by
      rcases h with h | rfl | rfl | rfl
      · omega
      · decide
      · decide
      · decide
    exact .unit (hex4_hexEscape hlt) (by omega)
  refine .ite (fun h => ?_) fun _ => ?_
  · exact .unit (w := 0x32) (x := 0x30) (y := 0x32) (z := 0x38) (h ▸ rfl) (by omega)
  refine .ite (fun h => ?_) fun _ => ?_
  · exact .unit (w := 0x32) (x := 0x30) (y := 0x32) (z := 0x39) (h ▸ rfl) (by omega)
  · exact .octets hquote hescape fun hlt => hplain (.inl hlt)

theorem Quoted.chars (h : Quoted c q) (l : Bytes) : chars (q ++ l) = c :: chars l := by
  cases h with
  | @escape e h =>
    have he : e ≠ 0x75 := escape_ne (by rw [h]; rfl)
    rw [cons_append, singleton_append, chars_escape he, h]
    rfl
  | unit h hlt =>
    have hnot : ¬ (0xd800 ≤ c.toNat ∧ c.toNat < 0xe000) := fun hsur =>
      absurd hsur.1 (Nat.not_le.mpr hlt)
    simp only [cons_append, nil_append]
    rw [chars_unit h, if_neg hnot, Char.ofNat_toNat]
  | octets hquote hescape hlt => ?_
  obtain ⟨b, t, henc, -, hb⟩ := encode_cons c
  have hne : b ≠ 0x5c := by
    have hslash : c.toNat ≠ 0x5c := toNat_ne hescape
    refine ne_of_toNat fun heq => ?_
    have heq : b.toNat = 0x5c := heq
    omega
  have hrune := decodeRune_encode c l
  rw [henc, cons_append] at hrune ⊢
  rw [chars_rune hne, hrune]
  rw [length_cons, Nat.add_sub_cancel, drop_left]

theorem Quoted.inner (h : Quoted c q) (hl : Inner l) : Inner (q ++ l) := by
  cases h with
  | escape h => exact .escape (by rw [h]; rfl) hl
  | unit h hlt => exact .unit (by rw [h]; rfl) hl
  | octets hquote hescape hlt => ?_
  -- an octet beyond ASCII is no quote, no backslash and no control character
  have hoctet : ∀ {b : UInt8} {l : Bytes}, b.toNat ≠ 0x22 → b.toNat ≠ 0x5c → 0x20 ≤ b.toNat →
      Inner l → Inner (b :: l) := by
    intro b l hquote hescape hlow
    refine .octet (ne_of_toNat hquote) (ne_of_toNat hescape) fun hlt => ?_
    exact Nat.not_lt.mpr hlow (UInt8.lt_iff_toNat_lt.mp hlt)
  have hhigh : ∀ {b : UInt8} {l : Bytes}, 0x80 ≤ b.toNat → Inner l → Inner (b :: l) :=
    fun hb => hoctet (by omega) (by omega) (by omega)
  obtain ⟨b, t, henc, ht, hb⟩ := encode_cons c
  have hrest : Inner (t ++ l) := by
    clear henc
    induction t with
    | nil => exact hl
    | cons b' t ih =>
      obtain ⟨hb', ht'⟩ := forall_mem_cons.mp ht
      exact hhigh hb' (ih ht')
  rw [henc, cons_append]
  rcases hb with hb | hb
  · have hq : c.toNat ≠ 0x22 := toNat_ne hquote
    have hs : c.toNat ≠ 0x5c := toNat_ne hescape
    exact hoctet (by omega) (by omega) (by omega) hrest
  · exact hhigh hb hrest

theorem inner_quoteInner (s : String) : Inner (quoteInner s) := by
  unfold quoteInner
  induction s.toList with
  | nil => exact .nil
  | cons c cs ih => exact (quoted_quoteChar c).inner ih

/-- **A string is read back from its literal.** -/
theorem unquote_quoteInner (s : String) : unquote (quoteInner s) = s := by
  have hchars : ∀ cs : List Char, chars (cs.flatMap quoteChar) = cs := by
    intro cs
    induction cs with
    | nil => rfl
    | cons c cs ih => rw [flatMap_cons, (quoted_quoteChar c).chars, ih]
  rw [unquote_eq, quoteInner, hchars, String.ofList_toList]

end Json
