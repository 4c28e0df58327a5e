import ArcRelay.Lib.JsonString
import Mathlib.Data.List.Dedup
import Mathlib.Data.List.Sort
import Mathlib.Data.String.Basic

/-!
# JSON texts, written

What Go's `encoding/json` writes for values that carry texts: a text is copied without the
white space between its tokens and with some characters of its strings escaped; an array of
texts and a map of texts are written around that, the map in the order of its keys.

Copying changes a text and not what it stands for.  What a text stands for is its tree, read
level by level; the levels are as many as a text may nest deep.
-/

namespace Json

open List

/-! ### Texts, copied -/

def Value.compact : Value → Value
  | .array items => .array (items.map Json.compact)
  | .object ms => .object (ms.map fun m => (m.1, Json.compact m.2))
  | v => v

section

variable {b : UInt8} {l sp raw inner : Bytes}

theorem compact_blank (h : Blank sp) (l : Bytes) : compact (sp ++ l) = compact l := by
  induction sp with
  | nil => rfl
  | cons b sp ih => ?_
  obtain ⟨hb, hsp⟩ := forall_mem_cons.mp h
  rw [cons_append, compact, compactFrom, if_pos hb]
  exact ih hsp

theorem compact_of_blank (h : Blank sp) : compact sp = [] := by
  rw [← append_nil sp, compact_blank h]
  rfl

theorem compact_cons (hspace : isSpace b = false) (hquote : b ≠ 0x22) (l : Bytes) :
    compact (b :: l) = b :: compact l := by
  rw [compact, compactFrom, if_neg (Bool.eq_false_iff.mp hspace), if_neg (by simpa using hquote)]
  rfl

theorem separatorEscape_append (b : UInt8) (l r : Bytes) :
    separatorEscape (b :: (l ++ 0x22 :: r)) = separatorEscape (b :: l) := by
  unfold separatorEscape
  rcases l with _ | ⟨x, _ | ⟨y, l⟩⟩
  · grind
  · grind
  · grind

theorem compactInner_append (h : Inner inner) (r : Bytes) :
    compactInner (inner ++ 0x22 :: r) = compactInner inner ++ 0x22 :: compact r := by
  induction h with
  | nil => rfl
  | unit h hl ih =>
    simp only [cons_append]
    rw [compactInner_unit h, compactInner_unit h, ih]
    rfl
  | escape h hl ih =>
    simp only [cons_append]
    rw [compactInner_escape, compactInner_escape, ih]
    rfl
  | @octet b l hquote hescape hlt hl ih => ?_
  rw [cons_append]
  by_cases hhtml : isHTML b = true
  · simp only [isHTML, Bool.or_eq_true, beq_iff_eq] at hhtml
    rcases hhtml with (rfl | rfl) | rfl <;> exact congrArg (hexEscape _ ++ ·) ih
  have hsep' := separatorEscape_append b l r
  cases hsep : separatorEscape (b :: l) with
  | none =>
    rw [compactInner_octet hquote hescape (Bool.eq_false_iff.mpr hhtml) (hsep'.trans hsep),
      compactInner_octet hquote hescape (Bool.eq_false_iff.mpr hhtml) hsep, ih]
    rfl
  | some e => ?_
  -- the escape takes the two octets behind the first, which are copied without it
  unfold separatorEscape at hsep
  split at hsep
  · next heq =>
    cases heq
    exact congrArg (utf8 "\\u2028" ++ ·) (cons.inj (cons.inj ih).2).2
  · next heq =>
    cases heq
    exact congrArg (utf8 "\\u2029" ++ ·) (cons.inj (cons.inj ih).2).2
  · cases hsep

theorem compact_string (h : Inner inner) (l : Bytes) :
    compact (0x22 :: (inner ++ 0x22 :: l)) = 0x22 :: (compactInner inner ++ 0x22 :: compact l) :=
  congrArg (0x22 :: ·) (compactInner_append h l)

/-- The text is copied on its own, whatever follows it. -/
def Apart (raw : Bytes) : Prop := ∀ l, compact (raw ++ l) = compact raw ++ compact l

theorem apart_nil : Apart [] := fun _ => rfl

theorem Apart.append {raw' : Bytes} (h : Apart raw) (h' : Apart raw') : Apart (raw ++ raw') := by
  intro l
  rw [append_assoc, h, h, h', append_assoc]

theorem Apart.cons (hspace : isSpace b = false) (hquote : b ≠ 0x22) (h : Apart l) :
    Apart (b :: l) := by
  intro r
  rw [cons_append, compact_cons hspace hquote, compact_cons hspace hquote, h]
  rfl

theorem Apart.blank (hsp : Blank sp) (h : Apart l) : Apart (sp ++ l) := by
  intro r
  rw [append_assoc, compact_blank hsp, compact_blank hsp, h]

theorem apart_of_plain (h : ∀ b ∈ raw, isSpace b = false ∧ b ≠ 0x22) :
    Apart raw ∧ compact raw = raw := by
  induction raw with
  | nil => exact ⟨apart_nil, rfl⟩
  | cons b raw ih => ?_
  obtain ⟨hb, hraw⟩ := forall_mem_cons.mp h
  obtain ⟨hapart, hcompact⟩ := ih hraw
  exact ⟨hapart.cons hb.1 hb.2, by rw [compact_cons hb.1 hb.2, hcompact]⟩

theorem unquote_compactInner (h : Inner inner) : unquote (compactInner inner) = unquote inner := by
  rw [unquote_eq, unquote_eq, chars_compactInner h]

theorem Scalar.compact {v : Value} (h : Scalar raw v) :
    Scalar (compact raw) v.compact ∧ Apart raw := by
  have hplain : ∀ {raw v}, Scalar raw v → (∀ b ∈ raw, isSpace b = Bool.false ∧ b ≠ 0x22) →
      v.compact = v → Scalar (Json.compact raw) v.compact ∧ Apart raw := by
    intro raw v h hraw hv
    obtain ⟨hapart, hcompact⟩ := apart_of_plain hraw
    rw [hcompact, hv]
    exact ⟨h, hapart⟩
  cases h with
  | @string inner h =>
    have hcompact : Json.compact (0x22 :: (inner ++ [0x22])) =
        0x22 :: (compactInner inner ++ [0x22]) := compact_string h []
    refine ⟨?_, fun l => ?_⟩
    · rw [hcompact, Value.compact, ← unquote_compactInner h]
      · exact .string h.compactInner
      · exact nofun
      · exact nofun
    · rw [hcompact]
      simp only [cons_append, append_assoc, nil_append]
      exact compact_string h l
  | number h =>
    refine hplain (.number h) (fun b hb => ?_) rfl
    have hnum := isNumeral_of_number h b hb
    exact ⟨isSpace_of_isNumeral hnum, beq_eq_false_iff_ne.mp (ne_of_isNumeral hnum rfl)⟩
  | true => exact hplain .true (by decide +kernel) rfl
  | false => exact hplain .false (by decide +kernel) rfl
  | null => exact hplain .null (by decide +kernel) rfl

theorem Key.compact {key : Bytes} {k : String} (h : Key key k) :
    Key (compact key) k ∧ Apart key := by
  obtain @⟨inner, sp, sp', h, hsp, hsp'⟩ := h
  have hcompact : ∀ l, Json.compact (0x22 :: (inner ++ 0x22 :: (sp ++ 0x3a :: (sp' ++ l)))) =
      0x22 :: (compactInner inner ++ 0x22 :: 0x3a :: Json.compact l) := by
    intro l
    rw [compact_string h, compact_blank hsp, compact_cons rfl (by decide), compact_blank hsp']
  have hone := hcompact []
  rw [append_nil] at hone
  refine ⟨?_, fun l => ?_⟩
  · have hkey : Key (0x22 :: (compactInner inner ++ 0x22 :: ([] ++ 0x3a :: [])))
        (unquote (compactInner inner)) := .mk h.compactInner nofun nofun
    rw [unquote_compactInner h] at hkey
    rw [hone]
    exact hkey
  rw [hone]
  simp only [cons_append, append_assoc]
  rw [hcompact]
  rfl

section

variable {P : Bytes → Prop} (hP : ∀ raw, P raw → P (compact raw) ∧ Apart raw) {body : Bytes}

include hP

theorem Items.compact {items : List Bytes} (h : Items P body items) :
    Items P (compact body) (items.map Json.compact) ∧ Apart body := by
  induction h with
  | @one raw sp h hsp =>
    obtain ⟨hpart, hapart⟩ := hP raw h
    refine ⟨?_, hapart.append (append_nil sp ▸ apart_nil.blank hsp)⟩
    rw [hapart, compact_of_blank hsp]
    exact .one hpart nofun
  | @more raw sp sp' body items h hsp hsp' hbody ih =>
    obtain ⟨hpart, hapart⟩ := hP raw h
    obtain ⟨hitems, hbody'⟩ := ih
    have hmore : Items P (Json.compact raw ++ ([] ++ 0x2c :: ([] ++ Json.compact body))) _ :=
      .more hpart nofun nofun hitems
    refine ⟨?_, hapart.append (.blank hsp (.cons rfl (by decide) (hbody'.blank hsp')))⟩
    rw [hapart, compact_blank hsp, compact_cons rfl (by decide), compact_blank hsp']
    exact hmore

theorem Members.compact {ms : List (String × Bytes)} (h : Members P body ms) :
    Members P (compact body) (ms.map fun m => (m.1, Json.compact m.2)) ∧ Apart body := by
  induction h with
  | @one key raw sp k hkey h hsp =>
    obtain ⟨hkey', hkapart⟩ := hkey.compact
    obtain ⟨hpart, hapart⟩ := hP raw h
    refine ⟨?_, hkapart.append (hapart.append (append_nil sp ▸ apart_nil.blank hsp))⟩
    rw [hkapart, hapart, compact_of_blank hsp]
    exact .one hkey' hpart nofun
  | @more key raw sp sp' body k ms hkey h hsp hsp' hbody ih => ?_
  obtain ⟨hkey', hkapart⟩ := hkey.compact
  obtain ⟨hpart, hapart⟩ := hP raw h
  obtain ⟨hms, hbody'⟩ := ih
  have hmore : Members P (Json.compact key ++
      (Json.compact raw ++ ([] ++ 0x2c :: ([] ++ Json.compact body)))) _ :=
    .more hkey' hpart nofun nofun hms
  refine ⟨?_, hkapart.append (hapart.append
    (.blank hsp (.cons rfl (by decide) (hbody'.blank hsp'))))⟩
  rw [hkapart, hapart, compact_blank hsp, compact_cons rfl (by decide), compact_blank hsp']
  exact hmore

theorem Container.compact {v : Value} (h : Container P raw v) :
    Container P (compact raw) v.compact ∧ Apart raw := by
  cases h with
  | noItems hsp =>
    have hnone : Container P (0x5b :: ([] ++ [0x5d])) (.array []) := .noItems nofun
    refine ⟨?_, .cons rfl (by decide) (.blank hsp (apart_nil.cons rfl (by decide)))⟩
    rw [compact_cons rfl (by decide), compact_blank hsp]
    exact hnone
  | items hsp h =>
    obtain ⟨hitems, hbody⟩ := h.compact hP
    have hsome : Container P (0x5b :: ([] ++ (Json.compact _ ++ [0x5d]))) (.array _) :=
      .items nofun hitems
    refine ⟨?_, .cons rfl (by decide) (.blank hsp (hbody.append (apart_nil.cons rfl (by decide))))⟩
    rw [compact_cons rfl (by decide), compact_blank hsp, hbody]
    exact hsome
  | noMembers hsp =>
    have hnone : Container P (0x7b :: ([] ++ [0x7d])) (.object []) := .noMembers nofun
    refine ⟨?_, .cons rfl (by decide) (.blank hsp (apart_nil.cons rfl (by decide)))⟩
    rw [compact_cons rfl (by decide), compact_blank hsp]
    exact hnone
  | members hsp h =>
    obtain ⟨hms, hbody⟩ := h.compact hP
    have hsome : Container P (0x7b :: ([] ++ (Json.compact _ ++ [0x7d]))) (.object _) :=
      .members nofun hms
    refine ⟨?_, .cons rfl (by decide) (.blank hsp (hbody.append (apart_nil.cons rfl (by decide))))⟩
    rw [compact_cons rfl (by decide), compact_blank hsp, hbody]
    exact hsome

end

end

variable {d : ℕ} {raw : Bytes} {v : Value} {α β : Type} {f : α → Option β} {l : List α}

/-- **A copied text is a text**, with its parts copied. -/
theorem Text.compact (h : Text d raw v) : Text d (compact raw) v.compact ∧ Apart raw := by
  induction d generalizing raw v with
  | zero => exact Scalar.compact h
  | succ d ih => ?_
  rcases h with h | h
  · exact ⟨Or.inl h.compact.1, h.compact.2⟩
  obtain ⟨hcompact, hapart⟩ := h.compact fun raw ⟨v, hv⟩ => ⟨⟨_, (ih hv).1⟩, (ih hv).2⟩
  exact ⟨Or.inr hcompact, hapart⟩

/-- **A copied text reads as before**, with its parts copied. -/
theorem parse_compact {text : Bytes} (h : parse text = some v) :
    parse (compact text) = some v.compact := by
  obtain ⟨sp, raw, sp', hsp, hsp', rfl, htext⟩ := parse_eq_some.mp h
  obtain ⟨hcompact, hapart⟩ := htext.compact
  rw [compact_blank hsp, hapart, compact_of_blank hsp', append_nil]
  exact hcompact.parse

/-! ### Arrays and maps -/

def writeArray (items : List Bytes) : Bytes :=
  0x5b :: ([0x2c].intercalate (items.map compact) ++ [0x5d])

def writeObject (ms : List (String × Bytes)) : Bytes :=
  0x7b :: ([0x2c].intercalate (ms.map fun m => quote m.1 ++ 0x3a :: compact m.2) ++ [0x7d])

theorem text_quote (d : ℕ) (s : String) : Text d (quote s) (.string s) := by
  have h := (Scalar.string (inner_quoteInner s)).text d
  rw [unquote_quoteInner] at h
  exact h

variable {P : Bytes → Prop}

theorem items_intercalate {items : List Bytes} (h : ∀ item ∈ items, P item) (hne : items ≠ []) :
    Items P ([0x2c].intercalate items) items := by
  induction items with
  | nil => exact absurd rfl hne
  | cons item items ih => ?_
  obtain ⟨hitem, hitems⟩ := forall_mem_cons.mp h
  cases items with
  | nil =>
    have hone : Items P (item ++ []) [item] := .one hitem nofun
    rw [append_nil] at hone
    rw [intercalate_singleton]
    exact hone
  | cons item' items =>
    have hmore : Items P (item ++ ([] ++ 0x2c :: ([] ++ _))) _ :=
      .more hitem nofun nofun (ih hitems nofun)
    exact hmore

theorem key_quote (k : String) : Key (quote k ++ [0x3a]) k := by
  have hkey : Key (0x22 :: (quoteInner k ++ 0x22 :: ([] ++ 0x3a :: [])))
      (unquote (quoteInner k)) := .mk (inner_quoteInner k) nofun nofun
  rw [unquote_quoteInner] at hkey
  simpa [quote] using hkey

theorem members_intercalate {ms : List (String × Bytes)} (h : ∀ m ∈ ms, P m.2) (hne : ms ≠ []) :
    Members P ([0x2c].intercalate (ms.map fun m => quote m.1 ++ 0x3a :: m.2)) ms := by
  induction ms with
  | nil => exact absurd rfl hne
  | cons m ms ih => ?_
  obtain ⟨hm, hms⟩ := forall_mem_cons.mp h
  cases ms with
  | nil =>
    have hone : Members P (quote m.1 ++ [0x3a] ++ (m.2 ++ [])) [m] :=
      .one (key_quote m.1) hm nofun
    simpa using hone
  | cons m' ms =>
    have hmore : Members P (quote m.1 ++ [0x3a] ++ (m.2 ++ ([] ++ 0x2c :: ([] ++ _)))) (m :: _) :=
      .more (key_quote m.1) hm nofun nofun (ih hms nofun)
    simpa using hmore

theorem text_writeArray {items : List Bytes} (h : ∀ item ∈ items, IsText d item) :
    Text (d + 1) (writeArray items) (.array (items.map compact)) := by
  cases items with
  | nil =>
    have hnone : Container (IsText d) (0x5b :: ([] ++ [0x5d])) (.array []) := .noItems nofun
    exact hnone.text
  | cons item items => ?_
  have hparts : ∀ item' ∈ (item :: items).map compact, IsText d item' := by
    intro item' hitem'
    obtain ⟨raw, hraw, rfl⟩ := mem_map.mp hitem'
    obtain ⟨v, hv⟩ := h raw hraw
    exact ⟨_, hv.compact.1⟩
  have hsome : Container (IsText d) (0x5b :: ([] ++ (_ ++ [0x5d]))) (.array _) :=
    .items nofun (items_intercalate hparts nofun)
  exact hsome.text

theorem text_writeObject {ms : List (String × Bytes)} (h : ∀ m ∈ ms, IsText d m.2) :
    Text (d + 1) (writeObject ms) (.object (ms.map fun m => (m.1, compact m.2))) := by
  cases ms with
  | nil =>
    have hnone : Container (IsText d) (0x7b :: ([] ++ [0x7d])) (.object []) := .noMembers nofun
    exact hnone.text
  | cons m ms => ?_
  have hparts : ∀ m' ∈ (m :: ms).map fun m => (m.1, compact m.2), IsText d m'.2 := by
    intro m' hm'
    obtain ⟨m0, hm0, rfl⟩ := mem_map.mp hm'
    obtain ⟨v, hv⟩ := h m0 hm0
    exact ⟨_, hv.compact.1⟩
  have hmembers := members_intercalate hparts nofun
  rw [map_map] at hmembers
  have hsome : Container (IsText d) (0x7b :: ([] ++ (_ ++ [0x7d]))) (.object _) :=
    .members nofun hmembers
  exact hsome.text

/-! ### What a text stands for -/

/-- What a JSON text stands for; the members of an object in the order they stand in. -/
inductive Tree where
  | null
  | bool (b : Bool)
  | number (text : Bytes)
  | string (s : String)
  | array (items : List Tree)
  | object (members : List (String × Tree))

/-- What a text stands for, as far as this many levels show it. -/
def tree : ℕ → Bytes → Option Tree
  | 0, _ => none
  | n + 1, text =>
    match parse text with
    | none => none
    | some .null => some .null
    | some (.bool b) => some (.bool b)
    | some (.number t) => some (.number t)
    | some (.string s) => some (.string s)
    | some (.array items) => (items.mapM (tree n)).map .array
    | some (.object ms) => (ms.mapM fun m => (tree n m.2).map fun t => (m.1, t)).map .object

def value (text : Bytes) : Option Tree := tree (maxNestingDepth + 1) text

theorem mapM_isSome (h : ∀ a ∈ l, (f a).isSome) : (l.mapM f).isSome := by
  induction l with
  | nil => rfl
  | cons a l ih => ?_
  obtain ⟨ha, hl⟩ := forall_mem_cons.mp h
  obtain ⟨b, hb⟩ := Option.isSome_iff_exists.mp ha
  obtain ⟨bs, hbs⟩ := Option.isSome_iff_exists.mp (ih hl)
  rw [mapM_cons, hb, hbs]
  rfl

theorem mapM_congr {g : α → Option β} (h : ∀ a ∈ l, f a = g a) : l.mapM f = l.mapM g := by
  induction l with
  | nil => rfl
  | cons a l ih =>
    obtain ⟨ha, hl⟩ := forall_mem_cons.mp h
    rw [mapM_cons, mapM_cons, ha, ih hl]

theorem Text.parts (h : Text (d + 1) raw v) :
    (∀ items, v = .array items → ∀ item ∈ items, IsText d item) ∧
      ∀ ms, v = .object ms → ∀ m ∈ ms, IsText d m.2 := by
  rcases h with h | h
  · cases h with
    | string | number | true | false | null => exact ⟨nofun, nofun⟩
  · exact h.part

theorem Text.tree (h : Text d raw v) (hd : d ≤ maxNestingDepth) : (tree (d + 1) raw).isSome := by
  induction d generalizing raw v with
  | zero =>
    have hparse := (h.mono hd).parse
    rw [Json.tree, hparse]
    cases h with
    | string | number | true | false | null => rfl
  | succ d ih => ?_
  have hparse := (h.mono hd).parse
  have hparts := h.parts
  rw [Json.tree, hparse]
  cases v with
  | null | bool | number | string => rfl
  | array items =>
    rw [Option.isSome_map]
    refine mapM_isSome fun item hitem => ?_
    obtain ⟨v, hv⟩ := hparts.1 items rfl item hitem
    exact ih hv (Nat.le_of_succ_le hd)
  | object ms =>
    rw [Option.isSome_map]
    refine mapM_isSome fun m hm => ?_
    obtain ⟨v, hv⟩ := hparts.2 ms rfl m hm
    rw [Option.isSome_map]
    exact ih hv (Nat.le_of_succ_le hd)

variable {text : Bytes} {items : List Bytes} {ms : List (String × Bytes)}

theorem isText_of_parse (h : parse text = some (.array items)) :
    ∀ item ∈ items, IsText (maxNestingDepth - 1) item := by
  obtain ⟨sp, raw, sp', -, -, -, htext⟩ := parse_eq_some.mp h
  exact (Text.parts (d := maxNestingDepth - 1) htext).1 items rfl

theorem isText_of_members (h : parse text = some (.object ms)) :
    ∀ m ∈ ms, IsText (maxNestingDepth - 1) m.2 := by
  obtain ⟨sp, raw, sp', -, -, -, htext⟩ := parse_eq_some.mp h
  exact (Text.parts (d := maxNestingDepth - 1) htext).2 ms rfl

theorem IsText.parse (h : IsText d raw) (hd : d ≤ maxNestingDepth) : ∃ v, parse raw = some v := by
  obtain ⟨v, hv⟩ := h
  exact ⟨v, (hv.mono hd).parse⟩

theorem tree_compact (n : ℕ) (h : parse text = some v) : tree n (compact text) = tree n text := by
  induction n generalizing text v with
  | zero => rfl
  | succ n ih => ?_
  rw [tree, tree, parse_compact h, h]
  cases v with
  | null | bool | number | string => rfl
  | array items =>
    have hitems : (items.map compact).mapM (tree n) = items.mapM (tree n) := by
      rw [mapM_map]
      refine mapM_congr fun item hitem => ?_
      obtain ⟨v, hv⟩ := (isText_of_parse h item hitem).parse (Nat.sub_le _ _)
      exact ih hv
    exact congrArg (Option.map Tree.array) hitems
  | object ms =>
    have hms : (ms.map fun m => (m.1, compact m.2)).mapM
        (fun m => (tree n m.2).map fun t => (m.1, t)) =
        ms.mapM fun m => (tree n m.2).map fun t => (m.1, t) := by
      rw [mapM_map]
      refine mapM_congr fun m hm => ?_
      obtain ⟨v, hv⟩ := (isText_of_members h m hm).parse (Nat.sub_le _ _)
      exact congrArg (Option.map fun t => (m.1, t)) (ih hv)
    exact congrArg (Option.map Tree.object) hms

/-- **Copying keeps what a text stands for.** -/
theorem value_compact (h : parse text = some v) : value (compact text) = value text :=
  tree_compact _ h

theorem IsText.value (h : IsText d raw) (hd : d ≤ maxNestingDepth) : (value raw).isSome := by
  obtain ⟨v, hv⟩ := h
  exact (hv.mono hd).tree le_rfl

def Same (text text' : Bytes) : Prop := (value text).isSome ∧ value text' = value text

theorem Same.trans {text' text'' : Bytes} (h : Same text text') (h' : Same text' text'') :
    Same text text'' :=
  ⟨h.1, h'.2.trans h.2⟩

theorem IsText.same_compact (h : IsText d raw) (hd : d ≤ maxNestingDepth) :
    Same raw (compact raw) := by
  obtain ⟨v, hv⟩ := h.parse hd
  exact ⟨h.value hd, value_compact hv⟩

theorem IsText.compact (h : IsText d raw) : IsText d (compact raw) := by
  obtain ⟨v, hv⟩ := h
  exact ⟨_, hv.compact.1⟩

/-! ### Maps -/

/-- The map an object is decoded into, in the order of its keys; the last member of a key
counts. -/
def mapOf (ms : List (String × Bytes)) : List (String × Bytes) :=
  ((ms.map (·.1)).dedup.insertionSort (· ≤ ·)).filterMap fun k =>
    (exactField k ms).map fun v => (k, v)

variable {k : String}

theorem exactField_append (k : String) (ms ms' : List (String × Bytes)) :
    exactField k (ms ++ ms') = (exactField k ms').or (exactField k ms) := by
  have hfold : ∀ (ms : List (String × Bytes)) (acc : Option Bytes),
      ms.foldl (fun acc m => if m.1 = k then some m.2 else acc) acc = (exactField k ms).or acc := by
    intro ms
    induction ms with
    | nil =>
      intro acc
      rfl
    | cons m ms ih =>
      intro acc
      rw [exactField, foldl_cons, foldl_cons, ih, ih]
      split
      · cases exactField k ms <;> rfl
      · cases exactField k ms <;> rfl
  rw [exactField, foldl_append, hfold]
  rfl

theorem exactField_cons (k : String) (m : String × Bytes) (ms : List (String × Bytes)) :
    exactField k (m :: ms) = (exactField k ms).or (if m.1 = k then some m.2 else none) :=
  exactField_append k [m] ms

theorem exactField_eq_none (h : k ∉ ms.map (·.1)) : exactField k ms = none := by
  induction ms with
  | nil => rfl
  | cons m ms ih => ?_
  rw [map_cons, mem_cons, not_or] at h
  rw [exactField_cons, ih h.2, if_neg fun heq => h.1 heq.symm]
  rfl

theorem exactField_mapOf (k : String) (ms : List (String × Bytes)) :
    exactField k (mapOf ms) = exactField k ms := by
  -- of a list of different keys, each with its value, every key gives its value
  have hkeys : ∀ keys : List String, keys.Nodup →
      exactField k (keys.filterMap fun k => (exactField k ms).map fun v => (k, v)) =
        if k ∈ keys then exactField k ms else none := by
    intro keys hkeys
    induction keys with
    | nil => rfl
    | cons k' keys ih => ?_
    obtain ⟨hk', hkeys⟩ := nodup_cons.mp hkeys
    have ih := ih hkeys
    cases hv : exactField k' ms with
    | none =>
      rw [filterMap_cons_none (by rw [hv]; rfl), ih]
      by_cases hk : k = k'
      · rw [hk, if_neg hk', if_pos mem_cons_self, hv]
      · simp only [mem_cons, hk, false_or]
    | some v =>
      rw [filterMap_cons_some (by rw [hv]; rfl), exactField_cons, ih]
      by_cases hk : k = k'
      · rw [hk, if_neg hk', if_pos rfl, if_pos mem_cons_self, hv]
        rfl
      · have hne : ¬ k' = k := fun heq => hk heq.symm
        simp only [mem_cons, hk, hne, false_or, if_false, Option.or_none]
  rw [mapOf, hkeys _ ?_]
  · split
    · rfl
    next hk =>
    rw [exactField_eq_none]
    rwa [mem_insertionSort, mem_dedup] at hk
  · exact (perm_insertionSort _ _).nodup_iff.mpr (nodup_dedup _)

theorem mem_of_exactField {v : Bytes} (h : exactField k ms = some v) : (k, v) ∈ ms := by
  induction ms with
  | nil => cases h
  | cons m ms ih => ?_
  rw [exactField_cons, Option.or_eq_some_iff] at h
  rcases h with h | ⟨-, h⟩
  · exact mem_cons_of_mem m (ih h)
  split at h
  · next hk =>
    rw [← hk, ← Option.some.inj h]
    exact mem_cons_self
  · cases h

theorem mem_mapOf {m : String × Bytes} (h : m ∈ mapOf ms) : m ∈ ms := by
  obtain ⟨k, -, hk⟩ := mem_filterMap.mp h
  obtain ⟨v, hv, rfl⟩ := Option.map_eq_some_iff.mp hk
  exact mem_of_exactField hv

theorem exactField_filter {p : String → Bool} (hk : p k = true) (ms : List (String × Bytes)) :
    exactField k (ms.filter fun m => p m.1) = exactField k ms := by
  induction ms with
  | nil => rfl
  | cons m ms ih => ?_
  rw [filter_cons, exactField_cons]
  split
  · rw [exactField_cons, ih]
  next hm =>
  have hne : ¬ m.1 = k := fun heq => hm (heq ▸ hk)
  rw [ih, if_neg hne, Option.or_none]

theorem exactField_map (f : Bytes → Bytes) (k : String) (ms : List (String × Bytes)) :
    exactField k (ms.map fun m => (m.1, f m.2)) = (exactField k ms).map f := by
  induction ms with
  | nil => rfl
  | cons m ms ih => ?_
  rw [map_cons, exactField_cons, exactField_cons, ih, Option.map_or]
  split
  · rfl
  · rfl

end Json
