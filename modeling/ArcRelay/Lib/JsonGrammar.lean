import ArcRelay.Lib.Json

/-!
# The grammar of JSON texts

What the reader of `ArcRelay.Lib.Json` accepts, said without it: the inside of a string
literal, the scalars, and the bodies of arrays and objects over any notion of a part.  A
text of depth `d` is a scalar, or a container whose parts are texts of smaller depth.

The reader stops at the end of a number only because something that belongs to no number
follows; so completeness is stated for what stands before such a text (`Stops`).
-/

namespace Json

open List Option Bool Prod

/-! ### String literals -/

inductive Inner : Bytes → Prop
  | nil : Inner []
  | unit {a b c d : UInt8} {l : Bytes} (h : (hex4 a b c d).isSome) (hl : Inner l) :
    Inner (0x5c :: 0x75 :: a :: b :: c :: d :: l)
  | escape {e : UInt8} {l : Bytes} (h : (escape e).isSome) (hl : Inner l) : Inner (0x5c :: e :: l)
  | octet {b : UInt8} {l : Bytes} (hquote : b ≠ 0x22) (hescape : b ≠ 0x5c) (h : ¬ b < 0x20)
    (hl : Inner l) : Inner (b :: l)

variable {l r raw sp body : Bytes} {f g k : Bytes → Option Bytes} {b c : UInt8} {v : Value}
  {d fuel : ℕ} {items : List Bytes} {ms : List (String × Bytes)} {P : Bytes → Prop}

theorem inner_of_scanString {p : Bytes × Bytes} (h : scanString l = some p) :
    Inner p.1 ∧ l = p.1 ++ 0x22 :: p.2 := by
  fun_induction scanString l generalizing p with
  | case1 => cases h
  | case2 b l hb =>
    cases h
    exact ⟨.nil, by rw [eq_of_beq hb]; rfl⟩
  | case3 b hb hesc a b' c d r hex ih =>
    obtain ⟨p, hp, rfl⟩ := map_eq_some_iff.mp h
    obtain ⟨hin, hl⟩ := ih hp
    exact ⟨.unit hex hin, by rw [hl, eq_of_beq hesc]; rfl⟩
  | case4 => cases h
  | case5 b hb hesc e r _ he ih =>
    obtain ⟨p, hp, rfl⟩ := map_eq_some_iff.mp h
    obtain ⟨hin, hl⟩ := ih hp
    exact ⟨.escape he hin, by rw [hl, eq_of_beq hesc]; rfl⟩
  | case6 | case7 | case8 => cases h
  | case9 b l hb hesc hlt ih =>
    obtain ⟨p, hp, rfl⟩ := map_eq_some_iff.mp h
    obtain ⟨hin, hl⟩ := ih hp
    refine ⟨.octet (fun h => hb ?_) (fun h => hesc ?_) hlt hin, by rw [hl]; rfl⟩
    · rw [h]
      rfl
    · rw [h]
      rfl

theorem escape_unit : escape 0x75 = none := by decide

theorem scanString_of_inner {inner : Bytes} (h : Inner inner) (r : Bytes) :
    scanString (inner ++ 0x22 :: r) = some (inner, r) := by
  induction h with
  | nil =>
    rw [nil_append, scanString.eq_def]
    rfl
  | @unit a b c d l h hl ih =>
    simp only [cons_append, scanString]
    rw [if_neg (by decide), if_pos (by decide), if_pos h, ih]
    rfl
  | @escape e l h hl ih =>
    have he : e ≠ 0x75 := by
      intro he
      rw [he, escape_unit] at h
      cases h
    rw [cons_append, scanString.eq_def]
    dsimp only [cons_append]
    rw [if_neg (by decide), if_pos (by decide)]
    split
    · next heq => exact absurd (cons.inj heq).1 he
    · next e' r' _ heq =>
      cases heq
      rw [if_pos h, ih]
      rfl
    · next heq => cases heq
  | @octet b l hquote hescape h hl ih =>
    rw [cons_append, scanString.eq_def]
    dsimp only
    rw [if_neg (by simpa using hquote), if_neg (by simpa using hescape), if_neg h, ih]
    rfl

/-! ### Numbers -/

def isNumeral (b : UInt8) : Bool :=
  isDigit b || b == 0x2b || b == 0x2d || b == 0x2e || b == 0x45 || b == 0x65

/-- The text goes on with nothing that belongs to a number. -/
def Stops (r : Bytes) : Prop := ∀ b ∈ r.head?, isNumeral b = false

/-- The scanner takes octets of numbers, and takes the same ones before any text that
begins alike or stops. -/
def Scans (f : Bytes → Option Bytes) : Prop :=
  ∀ l r, f l = some r → ∃ raw, l = raw ++ r ∧ (∀ b ∈ raw, isNumeral b = true) ∧
    ∀ r' : Bytes, r'.head? = r.head? ∨ Stops r' → f (raw ++ r') = some r'

theorem Scans.bind (hf : Scans f) (hg : Scans g) : Scans fun l => (f l).bind g := by
  intro l r h
  obtain ⟨m, hm, hr⟩ := bind_eq_some_iff.mp h
  obtain ⟨raw, rfl, hraw, hf⟩ := hf l m hm
  obtain ⟨raw', rfl, hraw', hg⟩ := hg m r hr
  refine ⟨raw ++ raw', (append_assoc ..).symm, ?_, fun r' hr' => ?_⟩
  · intro b hb
    exact (mem_append.mp hb).elim (hraw b) (hraw' b)
  have hfirst : f (raw ++ (raw' ++ r')) = some (raw' ++ r') := by
    refine hf (raw' ++ r') ?_
    cases raw' with
    | nil => exact hr'
    | cons b raw' => exact .inl rfl
  dsimp only
  rw [append_assoc, hfirst, bind_some, hg r' hr']

theorem isNumeral_of_isDigit (h : isDigit b = true) : isNumeral b = true := by
  simp [isNumeral, h]

theorem scans_digits : Scans scanDigits := by
  intro l r h
  cases l with
  | nil => cases h
  | cons b l => ?_
  rw [scanDigits] at h
  split at h
  · next hb =>
    cases h
    refine ⟨b :: l.takeWhile isDigit, ?_, ?_, fun r' hr' => ?_⟩
    · rw [cons_append, takeWhile_append_dropWhile]
    · intro b' hb'
      refine isNumeral_of_isDigit ?_
      rcases mem_cons.mp hb' with rfl | hb'
      · exact hb
      · exact all_eq_true.mp all_takeWhile b' hb'
    -- the run of digits ends where it ended, or at what stops
    have hstop : r'.dropWhile isDigit = r' := by
      cases r' with
      | nil => rfl
      | cons c r' => ?_
      refine dropWhile_cons_of_neg fun hc => ?_
      rcases hr' with hhead | hstops
      · have hne := head?_dropWhile_not isDigit l
        rw [← hhead] at hne
        simp [hc] at hne
      have hnum := hstops c rfl
      rw [isNumeral_of_isDigit hc] at hnum
      cases hnum
    have hrun : (l.takeWhile isDigit ++ r').dropWhile isDigit = r' := by
      rw [dropWhile_append_of_pos fun b hb => all_eq_true.mp all_takeWhile b hb]
      exact hstop
    rw [cons_append, scanDigits, if_pos hb, hrun]
  · cases h

theorem scans_some : Scans some := by
  intro l r h
  cases h
  exact ⟨[], rfl, nofun, fun _ _ => rfl⟩

theorem scans_head {p : UInt8 → Bool} (hp : ∀ b, p b = true → isNumeral b = true) (hg : Scans g)
    (hk : Scans k) (hpos : ∀ b l, p b = true → f (b :: l) = g l)
    (hneg : ∀ l : Bytes, (∀ b ∈ l.head?, p b = false) → f l = k l) : Scans f := by
  intro l r h
  by_cases habs : ∀ b ∈ l.head?, p b = false
  · rw [hneg l habs] at h
    obtain ⟨raw, rfl, hraw, hk⟩ := hk l r h
    refine ⟨raw, rfl, hraw, fun r' hr' => ?_⟩
    rw [← hk r' hr']
    refine hneg (raw ++ r') ?_
    cases raw with
    | cons b raw => exact habs
    | nil => ?_
    intro b hb
    rcases hr' with hhead | hstops
    · rw [nil_append, hhead] at hb
      exact habs b hb
    have hnum := hstops b hb
    by_contra hpb
    rw [hp b (of_not_eq_false hpb)] at hnum
    cases hnum
  · push Not at habs
    obtain ⟨b, hb, hpb⟩ := habs
    cases l with
    | nil => cases hb
    | cons b' l => ?_
    cases hb
    have hpb := of_not_eq_false hpb
    rw [hpos _ l hpb] at h
    obtain ⟨raw, rfl, hraw, hg⟩ := hg l r h
    refine ⟨_ :: raw, rfl, ?_, fun r' hr' => ?_⟩
    · exact forall_mem_cons.mpr ⟨hp _ hpb, hraw⟩
    · rw [cons_append, hpos _ _ hpb, hg r' hr']

theorem scans_octet (hc : isNumeral c = true) (hg : Scans g) (hk : Scans k)
    (hpos : ∀ l, f (c :: l) = g l) (hneg : ∀ l, (∀ r, l = c :: r → False) → f l = k l) :
    Scans f := by
  refine scans_head (p := fun b => b == c) (fun b hb => ?_) hg hk (fun b l hb => ?_) ?_
  · rwa [eq_of_beq hb]
  · rw [eq_of_beq hb]
    exact hpos l
  intro l hl
  refine hneg l fun r hr => ?_
  rw [hr] at hl
  exact absurd (hl c rfl) (by simp)

theorem scans_fraction : Scans scanFraction :=
  scans_octet (by decide) scans_digits scans_some (fun _ => rfl) scanFraction.eq_2

def scanMinus : Bytes → Option Bytes
  | 0x2d :: r => some r
  | r => some r

theorem scans_minus : Scans scanMinus :=
  scans_octet (by decide) scans_some scans_some (fun _ => rfl) scanMinus.eq_2

def scanSigned : Bytes → Option Bytes
  | 0x2b :: r => scanDigits r
  | 0x2d :: r => scanDigits r
  | r => scanDigits r

theorem scans_signed : Scans scanSigned := by
  refine scans_octet (c := 0x2b) (by decide) scans_digits (scans_minus.bind scans_digits)
    (fun _ => rfl) fun l hl => ?_
  unfold scanSigned
  split
  · next r => exact (hl r rfl).elim
  · rfl
  next hminus =>
  rw [scanMinus.eq_2 l hminus]
  rfl

theorem scans_exponent : Scans scanExponent := by
  refine scans_head (p := fun b => b == 0x65 || b == 0x45) ?_ scans_signed scans_some ?_ ?_
  · intro b hb
    rcases or_eq_true_iff.mp hb with hb | hb
    · rw [eq_of_beq hb]
      decide
    · rw [eq_of_beq hb]
      decide
  · intro b l hb
    rw [scanExponent.eq_def]
    dsimp only
    rw [if_pos hb]
    rfl
  · intro l hl
    cases l with
    | nil => rfl
    | cons b l => ?_
    have hb := hl b rfl
    rw [scanExponent.eq_def]
    dsimp only
    rw [if_neg (eq_false_iff.mp hb)]

def scanInt : Bytes → Option Bytes
  | 0x30 :: r => some r
  | r => scanDigits r

theorem scans_int : Scans scanInt :=
  scans_octet (by decide) scans_some scans_digits (fun _ => rfl) scanInt.eq_2

theorem scanNumber_eq (l : Bytes) :
    scanNumber l = (((scanMinus l).bind scanInt).bind scanFraction).bind scanExponent := by
  unfold scanNumber
  split
  · next r =>
    rw [scanMinus, bind_some]
    dsimp only
    split
    · rfl
    next hzero =>
    rw [scanInt.eq_2 r hzero]
    cases scanDigits r with
    | none | some _ => rfl
  · next hminus =>
    rw [scanMinus.eq_2 l hminus, bind_some]
    dsimp only
    split
    · rfl
    next hzero =>
    rw [scanInt.eq_2 l hzero]
    cases scanDigits l with
    | none | some _ => rfl

theorem scans_number : Scans scanNumber := by
  have h := ((scans_minus.bind scans_int).bind scans_fraction).bind scans_exponent
  rwa [← funext scanNumber_eq] at h

theorem number_of_scanNumber (h : scanNumber l = some r) :
    ∃ raw, l = raw ++ r ∧ scanNumber raw = some [] := by
  obtain ⟨raw, hl, -, hraw⟩ := scans_number l r h
  have hend := hraw [] (.inr nofun)
  rw [append_nil] at hend
  exact ⟨raw, hl, hend⟩

theorem isNumeral_of_number (h : scanNumber raw = some []) : ∀ b ∈ raw, isNumeral b = true := by
  obtain ⟨raw', hl, hraw, -⟩ := scans_number raw [] h
  rw [append_nil] at hl
  rwa [hl]

theorem scanNumber_of_number (h : scanNumber raw = some []) (hr : Stops r) :
    scanNumber (raw ++ r) = some r := by
  obtain ⟨raw', hl, -, hraw⟩ := scans_number raw [] h
  rw [append_nil] at hl
  rw [hl]
  exact hraw r (.inr hr)

/-! ### White space -/

def Blank (sp : Bytes) : Prop := ∀ b ∈ sp, isSpace b = true

theorem skipSpace_append (h : Blank sp) (l : Bytes) :
    skipSpace (sp ++ l) = skipSpace l := dropWhile_append_of_pos h

theorem skipSpace_cons (h : isSpace b = false) (l : Bytes) :
    skipSpace (b :: l) = b :: l := dropWhile_cons_of_neg (eq_false_iff.mp h)

theorem skipSpace_blank (hsp : Blank sp) (hb : isSpace b = false) (l : Bytes) :
    skipSpace (sp ++ b :: l) = b :: l := by
  rw [skipSpace_append hsp, skipSpace_cons hb]

theorem blank_of_skipSpace (h : skipSpace l = r) : ∃ sp, Blank sp ∧ l = sp ++ r := by
  refine ⟨l.takeWhile isSpace, fun b hb => all_eq_true.mp all_takeWhile b hb, ?_⟩
  rw [← h, skipSpace, takeWhile_append_dropWhile]

theorem stops_of_blank (hsp : Blank sp) (hr : Stops r) : Stops (sp ++ r) := by
  cases sp with
  | nil => exact hr
  | cons b sp => ?_
  intro b' hb'
  cases hb'
  have hspace := hsp b mem_cons_self
  simp only [isSpace, or_eq_true, beq_iff_eq] at hspace
  rcases hspace with ((rfl | rfl) | rfl) | rfl <;> rfl

theorem stops_cons (h : isNumeral b = false) (r : Bytes) : Stops (b :: r) := by
  intro b' hb'
  cases hb'
  exact h

theorem upTo_append (raw r : Bytes) : upTo (raw ++ r) r = raw := by
  rw [upTo, length_append, Nat.add_sub_cancel, take_left]

/-! ### Texts -/

inductive Scalar : Bytes → Value → Prop
  | string {inner : Bytes} (h : Inner inner) :
    Scalar (0x22 :: (inner ++ [0x22])) (.string (unquote inner))
  | number {raw : Bytes} (h : scanNumber raw = some []) : Scalar raw (.number raw)
  | true : Scalar (utf8 "true") (.bool Bool.true)
  | false : Scalar (utf8 "false") (.bool Bool.false)
  | null : Scalar (utf8 "null") .null

/-- The items of an array, from the first to the last and the white space behind it. -/
inductive Items (Part : Bytes → Prop) : Bytes → List Bytes → Prop
  | one {raw sp : Bytes} (h : Part raw) (hsp : Blank sp) : Items Part (raw ++ sp) [raw]
  | more {raw sp sp' body : Bytes} {items : List Bytes} (h : Part raw) (hsp : Blank sp)
    (hsp' : Blank sp') (hbody : Items Part body items) :
    Items Part (raw ++ (sp ++ 0x2c :: (sp' ++ body))) (raw :: items)

/-- A key with its colon and the white space around it. -/
inductive Key : Bytes → String → Prop
  | mk {inner sp sp' : Bytes} (h : Inner inner) (hsp : Blank sp) (hsp' : Blank sp') :
    Key (0x22 :: (inner ++ 0x22 :: (sp ++ 0x3a :: sp'))) (unquote inner)

/-- The members of an object, from the first key to the last value and the white space
behind it. -/
inductive Members (Part : Bytes → Prop) : Bytes → List (String × Bytes) → Prop
  | one {key raw sp : Bytes} {k : String} (hkey : Key key k) (h : Part raw) (hsp : Blank sp) :
    Members Part (key ++ (raw ++ sp)) [(k, raw)]
  | more {key raw sp sp' body : Bytes} {k : String} {ms : List (String × Bytes)}
    (hkey : Key key k) (h : Part raw) (hsp : Blank sp) (hsp' : Blank sp')
    (hbody : Members Part body ms) :
    Members Part (key ++ (raw ++ (sp ++ 0x2c :: (sp' ++ body)))) ((k, raw) :: ms)

inductive Container (Part : Bytes → Prop) : Bytes → Value → Prop
  | noItems {sp : Bytes} (hsp : Blank sp) : Container Part (0x5b :: (sp ++ [0x5d])) (.array [])
  | items {sp body : Bytes} {items : List Bytes} (hsp : Blank sp) (h : Items Part body items) :
    Container Part (0x5b :: (sp ++ (body ++ [0x5d]))) (.array items)
  | noMembers {sp : Bytes} (hsp : Blank sp) : Container Part (0x7b :: (sp ++ [0x7d])) (.object [])
  | members {sp body : Bytes} {ms : List (String × Bytes)} (hsp : Blank sp)
    (h : Members Part body ms) : Container Part (0x7b :: (sp ++ (body ++ [0x7d]))) (.object ms)

/-- A text that nests at most `d` deep, and the value it reads as. -/
def Text : ℕ → Bytes → Value → Prop
  | 0, raw, v => Scalar raw v
  | d + 1, raw, v => Scalar raw v ∨ Container (fun raw => ∃ v, Text d raw v) raw v

def IsText (d : ℕ) (raw : Bytes) : Prop := ∃ v, Text d raw v

theorem Scalar.text (h : Scalar raw v) (d : ℕ) : Text d raw v := by
  cases d with
  | zero => exact h
  | succ d => exact .inl h

theorem Container.text (h : Container (IsText d) raw v) : Text (d + 1) raw v := .inr h

/-! ### The reader is sound -/

/-- What the three parts of the reader accept, with so much fuel. -/
structure Accepts (fuel : ℕ) : Prop where
  value : ∀ {d l v r}, readValue fuel d l = some (v, r) → ∃ raw, l = raw ++ r ∧ Text d raw v
  items : ∀ {d l items r}, readItems fuel d l = some (items, r) →
    ∃ body, l = body ++ 0x5d :: r ∧ Items (IsText d) body items
  members : ∀ {d l ms r}, readMembers fuel d l = some (ms, r) →
    ∃ body, l = body ++ 0x7d :: r ∧ Members (IsText d) body ms

theorem Accepts.readItems (h : Accepts fuel) (hread : readItems (fuel + 1) d l = some (items, r)) :
    ∃ body, l = body ++ 0x5d :: r ∧ Items (IsText d) body items := by
  obtain ⟨⟨v, rest⟩, hv, hrest⟩ := bind_eq_some_iff.mp hread
  obtain ⟨raw, rfl, htext⟩ := h.value hv
  dsimp only at hrest
  rw [upTo_append] at hrest
  split at hrest
  · next r' hsp =>
    obtain ⟨sp, hblank, rfl⟩ := blank_of_skipSpace hsp
    obtain ⟨⟨items', r''⟩, hmore, heq⟩ := map_eq_some_iff.mp hrest
    cases heq
    obtain ⟨sp', hblank', hr'⟩ := blank_of_skipSpace (Eq.refl (skipSpace r'))
    obtain ⟨body, hbody, hitems⟩ := h.items hmore
    refine ⟨_, ?_, .more ⟨v, htext⟩ hblank hblank' hitems⟩
    rw [hr', hbody]
    simp
  · next r' hsp =>
    obtain ⟨sp, hblank, rfl⟩ := blank_of_skipSpace hsp
    obtain ⟨rfl, rfl⟩ := mk.inj (some.inj hrest)
    exact ⟨raw ++ sp, (append_assoc ..).symm, .one ⟨v, htext⟩ hblank⟩
  · cases hrest

theorem Accepts.readMembers (h : Accepts fuel) (hread : readMembers (fuel + 1) d l = some (ms, r)) :
    ∃ body, l = body ++ 0x7d :: r ∧ Members (IsText d) body ms := by
  rw [Json.readMembers.eq_def] at hread
  dsimp only at hread
  split at hread
  · next l =>
    obtain ⟨⟨inner, l'⟩, hkey, hrest⟩ := bind_eq_some_iff.mp hread
    obtain ⟨hinner, rfl⟩ := inner_of_scanString hkey
    split at hrest
    · next l'' hcolon =>
      obtain ⟨sp, hblank, rfl⟩ := blank_of_skipSpace hcolon
      obtain ⟨⟨v, rest⟩, hv, hrest⟩ := bind_eq_some_iff.mp hrest
      obtain ⟨raw, hraw, htext⟩ := h.value hv
      obtain ⟨sp', hblank', hl''⟩ := blank_of_skipSpace hraw
      have hkey' : Key _ _ := .mk hinner hblank hblank'
      rw [hraw, upTo_append] at hrest
      split at hrest
      · next r' hsp =>
        obtain ⟨sp'', hblank'', rfl⟩ := blank_of_skipSpace hsp
        obtain ⟨⟨ms', r''⟩, hmore, heq⟩ := map_eq_some_iff.mp hrest
        cases heq
        obtain ⟨sp3, hblank3, hr'⟩ := blank_of_skipSpace (Eq.refl (skipSpace r'))
        obtain ⟨body, hbody, hms⟩ := h.members hmore
        refine ⟨_, ?_, .more hkey' ⟨v, htext⟩ hblank'' hblank3 hms⟩
        rw [hl'', hr', hbody]
        simp
      · next r' hsp =>
        obtain ⟨sp'', hblank'', rfl⟩ := blank_of_skipSpace hsp
        obtain ⟨rfl, rfl⟩ := mk.inj (some.inj hrest)
        refine ⟨_, ?_, .one hkey' ⟨v, htext⟩ hblank''⟩
        rw [hl'']
        simp
      · cases hrest
    · cases hrest
  · cases hread

theorem append_of_scanName {name : Bytes} (h : scanName name l = some r) : l = name ++ r := by
  rw [scanName] at h
  split at h
  · next hname =>
    cases h
    obtain ⟨t, rfl⟩ := isPrefixOf_iff_prefix.mp hname
    rw [drop_left]
  · cases h

theorem Accepts.readValue (h : Accepts fuel) (hread : readValue (fuel + 1) d l = some (v, r)) :
    ∃ raw, l = raw ++ r ∧ Text d raw v := by
  cases l with
  | nil => cases hread
  | cons b l => ?_
  rw [Json.readValue.eq_def] at hread
  dsimp only at hread
  split at hread
  · next hb =>
    obtain ⟨⟨inner, rest⟩, hscan, heq⟩ := map_eq_some_iff.mp hread
    cases heq
    obtain ⟨hinner, rfl⟩ := inner_of_scanString hscan
    refine ⟨_, ?_, (Scalar.string hinner).text d⟩
    rw [eq_of_beq hb]
    simp
  split at hread
  · next hb =>
    split at hread
    · cases hread
    · next d _ r' hsp =>
      obtain ⟨rfl, rfl⟩ := mk.inj (some.inj hread)
      obtain ⟨sp, hblank, rfl⟩ := blank_of_skipSpace hsp
      refine ⟨_, ?_, (Container.noMembers hblank).text⟩
      rw [eq_of_beq hb]
      simp
    next d _ _ =>
    obtain ⟨⟨ms, rest⟩, hrest, heq⟩ := map_eq_some_iff.mp hread
    cases heq
    obtain ⟨body, hbody, hms⟩ := h.members hrest
    obtain ⟨sp, hblank, rfl⟩ := blank_of_skipSpace hbody
    refine ⟨_, ?_, (Container.members hblank hms).text⟩
    rw [eq_of_beq hb]
    simp
  split at hread
  · next hb =>
    split at hread
    · cases hread
    · next d _ r' hsp =>
      obtain ⟨rfl, rfl⟩ := mk.inj (some.inj hread)
      obtain ⟨sp, hblank, rfl⟩ := blank_of_skipSpace hsp
      refine ⟨_, ?_, (Container.noItems hblank).text⟩
      rw [eq_of_beq hb]
      simp
    next d _ _ =>
    obtain ⟨⟨items, rest⟩, hrest, heq⟩ := map_eq_some_iff.mp hread
    cases heq
    obtain ⟨body, hbody, hitems⟩ := h.items hrest
    obtain ⟨sp, hblank, rfl⟩ := blank_of_skipSpace hbody
    refine ⟨_, ?_, (Container.items hblank hitems).text⟩
    rw [eq_of_beq hb]
    simp
  split at hread
  · obtain ⟨rest, hscan, heq⟩ := map_eq_some_iff.mp hread
    cases heq
    exact ⟨_, append_of_scanName hscan, Scalar.true.text d⟩
  split at hread
  · obtain ⟨rest, hscan, heq⟩ := map_eq_some_iff.mp hread
    cases heq
    exact ⟨_, append_of_scanName hscan, Scalar.false.text d⟩
  split at hread
  · obtain ⟨rest, hscan, heq⟩ := map_eq_some_iff.mp hread
    cases heq
    exact ⟨_, append_of_scanName hscan, Scalar.null.text d⟩
  obtain ⟨rest, hscan, heq⟩ := map_eq_some_iff.mp hread
  cases heq
  obtain ⟨raw, hl, hnumber⟩ := number_of_scanNumber hscan
  refine ⟨raw, hl, ?_⟩
  rw [hl, upTo_append]
  exact (Scalar.number hnumber).text d

theorem accepts (fuel : ℕ) : Accepts fuel := by
  induction fuel with
  | zero =>
    refine ⟨fun h => ?_, fun h => ?_, fun h => ?_⟩
    · cases h
    · cases h
    · cases h
  | succ fuel ih => exact ⟨ih.readValue, ih.readItems, ih.readMembers⟩

/-- **What the reader accepts is a text**, and the rest is left. -/
theorem text_of_readValue (h : readValue fuel d l = some (v, r)) :
    ∃ raw, l = raw ++ r ∧ Text d raw v :=
  (accepts fuel).value h

/-! ### The reader is complete -/

theorem ne_of_isNumeral (hb : isNumeral b = true) (hc : isNumeral c = false) :
    (b == c) = false := by
  refine beq_eq_false_iff_ne.mpr fun h => ?_
  rw [h, hc] at hb
  cases hb

theorem isSpace_of_isNumeral (hb : isNumeral b = true) : isSpace b = false := by
  rw [isSpace, ne_of_isNumeral hb rfl, ne_of_isNumeral hb rfl, ne_of_isNumeral hb rfl,
    ne_of_isNumeral hb rfl]
  rfl

theorem cons_of_number (h : scanNumber raw = some []) :
    ∃ b t, raw = b :: t ∧ isNumeral b = true := by
  cases raw with
  | nil => cases h
  | cons b t => exact ⟨b, t, rfl, isNumeral_of_number h b mem_cons_self⟩

def Begins (l : Bytes) : Prop := ∃ b t, l = b :: t ∧ isSpace b = false ∧ b ≠ 0x5d

theorem Begins.skipSpace (h : Begins l) (r : Bytes) : skipSpace (l ++ r) = l ++ r := by
  obtain ⟨b, t, rfl, hb, -⟩ := h
  exact skipSpace_cons hb (t ++ r)

theorem Text.begins (h : Text d raw v) : Begins raw := by
  have hscalar : ∀ {v}, Scalar raw v → Begins raw := by
    intro v h
    cases h with
    | string h => exact ⟨_, _, rfl, rfl, by decide⟩
    | number h =>
      obtain ⟨b, t, hraw, hb⟩ := cons_of_number h
      exact ⟨b, t, hraw, isSpace_of_isNumeral hb, beq_eq_false_iff_ne.mp (ne_of_isNumeral hb rfl)⟩
    | true => exact ⟨0x74, utf8 "rue", by decide +kernel, rfl, by decide⟩
    | false => exact ⟨0x66, utf8 "alse", by decide +kernel, rfl, by decide⟩
    | null => exact ⟨0x6e, utf8 "ull", by decide +kernel, rfl, by decide⟩
  cases d with
  | zero => exact hscalar h
  | succ d => ?_
  rcases h with h | h
  · exact hscalar h
  cases h with
  | noItems | items | noMembers | members => exact ⟨_, _, rfl, rfl, by decide⟩

/-- Texts of this depth are read, whatever follows that stops a number. -/
def Complete (d : ℕ) : Prop :=
  ∀ {raw v}, Text d raw v → ∀ {r fuel}, Stops r → raw.length < fuel →
    readValue fuel d (raw ++ r) = some (v, r)

section

variable {key rest : Bytes} {k : String}

theorem readItems_item (ih : Complete d) (hv : Text d raw v) (hrest : Stops rest)
    (hfuel : raw.length < fuel) :
    readItems (fuel + 1) d (raw ++ rest) =
      match skipSpace rest with
      | 0x2c :: r => (readItems fuel d (skipSpace r)).map fun p => (raw :: p.1, p.2)
      | 0x5d :: r => some ([raw], r)
      | _ => none := by
  rw [readItems, ih hv hrest hfuel, bind_eq_bind, bind_some]
  dsimp only
  rewrite [upTo_append]
  rfl

theorem readMembers_member (ih : Complete d) (hkey : Key key k) (hv : Text d raw v)
    (hrest : Stops rest) (hfuel : raw.length < fuel) :
    readMembers (fuel + 1) d (key ++ (raw ++ rest)) =
      match skipSpace rest with
      | 0x2c :: r => (readMembers fuel d (skipSpace r)).map fun p => ((k, raw) :: p.1, p.2)
      | 0x7d :: r => some ([(k, raw)], r)
      | _ => none := by
  obtain @⟨inner, sp, sp', hinner, hsp, hsp'⟩ := hkey
  have hvalue : skipSpace (sp' ++ (raw ++ rest)) = raw ++ rest := by
    rw [skipSpace_append hsp', hv.begins.skipSpace]
  simp only [append_assoc, cons_append]
  show (scanString _).bind _ = _
  rw [scanString_of_inner hinner, bind_some]
  dsimp only
  rw [skipSpace_blank hsp rfl]
  show (readValue fuel d (skipSpace (sp' ++ (raw ++ rest)))).bind _ = _
  rw [hvalue, ih hv hrest hfuel, bind_some]
  rewrite [upTo_append]
  rfl

end

theorem Items.begins (h : Items (IsText d) body items) : Begins body := by
  cases h with
  | one h | more h =>
    obtain ⟨v, hv⟩ := h
    obtain ⟨b, t, rfl, hb⟩ := hv.begins
    exact ⟨b, _, rfl, hb⟩

theorem Members.begins (h : Members (IsText d) body ms) : ∃ t, body = 0x22 :: t := by
  cases h with
  | one hkey | more hkey =>
    cases hkey
    exact ⟨_, rfl⟩

theorem readItems_of_items (ih : Complete d) (h : Items (IsText d) body items)
    (hfuel : body.length + 1 < fuel) : readItems fuel d (body ++ 0x5d :: r) = some (items, r) := by
  induction h generalizing fuel with
  | @one raw sp h hsp =>
    obtain ⟨v, hv⟩ := h
    obtain ⟨fuel, rfl⟩ : ∃ n, fuel = n + 1 := ⟨fuel - 1, by omega⟩
    rw [length_append] at hfuel
    rw [append_assoc, readItems_item ih hv (stops_of_blank hsp (stops_cons rfl r)) (by omega),
      skipSpace_blank hsp rfl]
    rfl
  | @more raw sp sp' body items h hsp hsp' hbody ih' =>
    obtain ⟨v, hv⟩ := h
    obtain ⟨fuel, rfl⟩ : ∃ n, fuel = n + 1 := ⟨fuel - 1, by omega⟩
    simp only [length_append, length_cons] at hfuel
    simp only [append_assoc, cons_append]
    rw [readItems_item ih hv (stops_of_blank hsp (stops_cons rfl _)) (by omega),
      skipSpace_blank hsp rfl]
    show Option.map _ (readItems fuel d (skipSpace (sp' ++ (body ++ 0x5d :: r)))) = _
    rw [skipSpace_append hsp', hbody.begins.skipSpace, ih' (by omega)]
    rfl

theorem readMembers_of_members (ih : Complete d) (h : Members (IsText d) body ms)
    (hfuel : body.length + 1 < fuel) : readMembers fuel d (body ++ 0x7d :: r) = some (ms, r) := by
  induction h generalizing fuel with
  | @one key raw sp k hkey h hsp =>
    obtain ⟨v, hv⟩ := h
    obtain ⟨fuel, rfl⟩ : ∃ n, fuel = n + 1 := ⟨fuel - 1, by omega⟩
    simp only [length_append] at hfuel
    simp only [append_assoc]
    rw [readMembers_member ih hkey hv (stops_of_blank hsp (stops_cons rfl r)) (by omega),
      skipSpace_blank hsp rfl]
    rfl
  | @more key raw sp sp' body k ms hkey h hsp hsp' hbody ih' =>
    obtain ⟨v, hv⟩ := h
    obtain ⟨fuel, rfl⟩ : ∃ n, fuel = n + 1 := ⟨fuel - 1, by omega⟩
    simp only [length_append, length_cons] at hfuel
    simp only [append_assoc, cons_append]
    rw [readMembers_member ih hkey hv (stops_of_blank hsp (stops_cons rfl _)) (by omega),
      skipSpace_blank hsp rfl]
    show Option.map _ (readMembers fuel d (skipSpace (sp' ++ (body ++ 0x7d :: r)))) = _
    have hms := ih' (by omega : _ < fuel)
    obtain ⟨t, rfl⟩ := hbody.begins
    rw [cons_append] at hms ⊢
    rw [skipSpace_blank hsp' rfl, hms]
    rfl

theorem readValue_of_scalar (h : Scalar raw v) (hr : Stops r) :
    readValue (fuel + 1) d (raw ++ r) = some (v, r) := by
  cases h with
  | string h =>
    simp only [cons_append, append_assoc, nil_append]
    show Option.map _ (scanString _) = _
    rw [scanString_of_inner h]
    rfl
  | number h =>
    obtain ⟨b, t, rfl, hb⟩ := cons_of_number h
    have hscan := scanNumber_of_number h hr
    have hne : ∀ c, isNumeral c = false → ¬ (b == c) = true := fun c hc =>
      eq_false_iff.mp (ne_of_isNumeral hb hc)
    rw [cons_append, readValue.eq_def]
    dsimp only
    rw [if_neg (hne _ rfl), if_neg (hne _ rfl), if_neg (hne _ rfl), if_neg (hne _ rfl),
      if_neg (hne _ rfl), if_neg (hne _ rfl), ← cons_append, hscan, map_some,
      upTo_append]
  | true => rfl
  | false => rfl
  | null => rfl

theorem readValue_of_container (ih : Complete d) (h : Container (IsText d) raw v)
    (hfuel : raw.length ≤ fuel) : readValue (fuel + 1) (d + 1) (raw ++ r) = some (v, r) := by
  cases h with
  | @noItems sp hsp =>
    rw [cons_append, append_assoc, readValue.eq_def]
    dsimp only
    rw [if_neg (by decide), if_neg (by decide), if_pos (by decide), singleton_append,
      skipSpace_blank hsp rfl]
    rfl
  | @items sp body items hsp h =>
    simp only [length_cons, length_append, length_nil] at hfuel
    have hopen : skipSpace (sp ++ (body ++ 0x5d :: r)) = body ++ 0x5d :: r := by
      rw [skipSpace_append hsp, h.begins.skipSpace]
    have hread := readItems_of_items ih h (r := r) (by omega : _ < fuel)
    simp only [cons_append, append_assoc, nil_append]
    rw [readValue.eq_def]
    dsimp only
    rw [if_neg (by decide), if_neg (by decide), if_pos (by decide), hopen]
    obtain ⟨b, t, rfl, -, hb⟩ := h.begins
    split
    · next heq => cases heq
    · next heq => exact absurd (cons.inj heq).1 hb
    next heq _ =>
    cases heq
    rw [hread]
    rfl
  | @noMembers sp hsp =>
    rw [cons_append, append_assoc, readValue.eq_def]
    dsimp only
    rw [if_neg (by decide), if_pos (by decide), singleton_append, skipSpace_blank hsp rfl]
    rfl
  | @members sp body ms hsp h =>
    simp only [length_cons, length_append, length_nil] at hfuel
    obtain ⟨t, rfl⟩ := h.begins
    have hread := readMembers_of_members ih h (r := r) (by omega : _ < fuel)
    simp only [cons_append, append_assoc, nil_append] at hread ⊢
    rw [readValue.eq_def]
    dsimp only
    rw [if_neg (by decide), if_pos (by decide), skipSpace_blank hsp rfl]
    show Option.map _ (readMembers fuel d (0x22 :: (t ++ 0x7d :: r))) = _
    rw [hread]
    rfl

/-- **Every text is read**, before anything that stops a number. -/
theorem readValue_of_text (d : ℕ) : Complete d := by
  induction d with
  | zero =>
    intro raw v h r fuel hr hfuel
    obtain ⟨fuel, rfl⟩ : ∃ n, fuel = n + 1 := ⟨fuel - 1, by omega⟩
    exact readValue_of_scalar h hr
  | succ d ih =>
    intro raw v h r fuel hr hfuel
    obtain ⟨fuel, rfl⟩ : ∃ n, fuel = n + 1 := ⟨fuel - 1, by omega⟩
    rcases h with h | h
    · exact readValue_of_scalar h hr
    · exact readValue_of_container ih h (Nat.le_of_lt_succ hfuel)

/-- **A text that parses** is a text of the grammar with white space around it. -/
theorem parse_eq_some {text : Bytes} :
    parse text = some v ↔ ∃ sp raw sp', Blank sp ∧ Blank sp' ∧ text = sp ++ (raw ++ sp') ∧
      Text maxNestingDepth raw v := by
  constructor
  · intro h
    rw [parse] at h
    split at h
    · next v' rest hread =>
      split at h
      · next hrest =>
        cases h
        obtain ⟨raw, hraw, htext⟩ := text_of_readValue hread
        obtain ⟨sp, hsp, hl⟩ := blank_of_skipSpace hraw
        obtain ⟨sp', hsp', hrest⟩ := blank_of_skipSpace hrest
        rw [append_nil] at hrest
        exact ⟨sp, raw, sp', hsp, hrest ▸ hsp', hrest ▸ hl, htext⟩
      · cases h
    · cases h
  · rintro ⟨sp, raw, sp', hsp, hsp', rfl, htext⟩
    have hstops : Stops sp' := by
      have hnil := stops_of_blank hsp' (r := []) nofun
      rwa [append_nil] at hnil
    have hend : skipSpace sp' = [] := by
      have hnil := skipSpace_append hsp' []
      rwa [append_nil] at hnil
    rw [parse, skipSpace_append hsp, htext.begins.skipSpace,
      readValue_of_text _ htext hstops (by simp only [length_append]; omega)]
    dsimp only
    rw [if_pos hend]

theorem Text.parse (h : Text maxNestingDepth raw v) : parse raw = some v :=
  parse_eq_some.mpr ⟨[], raw, [], nofun, nofun, by rw [append_nil]; rfl, h⟩

theorem Container.mono {Q : Bytes → Prop} (hPQ : ∀ raw, P raw → Q raw) (h : Container P raw v) :
    Container Q raw v := by
  have hitems : ∀ {body items}, Items P body items → Items Q body items := by
    intro body items h
    induction h with
    | one h hsp => exact .one (hPQ _ h) hsp
    | more h hsp hsp' _ ih => exact .more (hPQ _ h) hsp hsp' ih
  have hmembers : ∀ {body ms}, Members P body ms → Members Q body ms := by
    intro body ms h
    induction h with
    | one hkey h hsp => exact .one hkey (hPQ _ h) hsp
    | more hkey h hsp hsp' _ ih => exact .more hkey (hPQ _ h) hsp hsp' ih
  cases h with
  | noItems hsp => exact .noItems hsp
  | items hsp h => exact .items hsp (hitems h)
  | noMembers hsp => exact .noMembers hsp
  | members hsp h => exact .members hsp (hmembers h)

theorem Text.succ (h : Text d raw v) : Text (d + 1) raw v := by
  induction d generalizing raw v with
  | zero => exact .inl h
  | succ d ih => ?_
  rcases h with h | h
  · exact .inl h
  · exact .inr (h.mono fun raw ⟨v, hv⟩ => ⟨v, ih hv⟩)

theorem Text.mono {d' : ℕ} (h : Text d raw v) (hd : d ≤ d') : Text d' raw v := by
  induction hd with
  | refl => exact h
  | step _ ih => exact ih.succ

theorem Container.part (h : Container P raw v) :
    (∀ items, v = .array items → ∀ item ∈ items, P item) ∧
      ∀ ms, v = .object ms → ∀ m ∈ ms, P m.2 := by
  have hitems : ∀ {body items}, Items P body items → ∀ item ∈ items, P item := by
    intro body items h
    induction h with
    | one h hsp => exact forall_mem_singleton.mpr h
    | more h hsp hsp' _ ih => exact forall_mem_cons.mpr ⟨h, ih⟩
  have hmembers : ∀ {body ms}, Members P body ms → ∀ m ∈ ms, P m.2 := by
    intro body ms h
    induction h with
    | one hkey h hsp => exact forall_mem_singleton.mpr h
    | more hkey h hsp hsp' _ ih => exact forall_mem_cons.mpr ⟨h, ih⟩
  cases h with
  | noItems hsp =>
    refine ⟨fun items heq => ?_, nofun⟩
    cases heq
    exact nofun
  | items hsp h =>
    refine ⟨fun items heq => ?_, nofun⟩
    cases heq
    exact hitems h
  | noMembers hsp =>
    refine ⟨nofun, fun ms heq => ?_⟩
    cases heq
    exact nofun
  | members hsp h =>
    refine ⟨nofun, fun ms heq => ?_⟩
    cases heq
    exact hmembers h

end Json
