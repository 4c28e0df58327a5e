import ArcRelay.Memory.Watcher

/-!
# The watermark of a transcript

The watermark never goes back, always stands between two records, and everything
below it is accounted for: it was taken by the relay in some unit of whole records,
or it is a single record that was given up, because it is over the ceiling or
because the relay refuses it even alone.  No post splits a record.

The argument is one invariant over the log (`LogOk`): every post is a run of whole
records, and when it is made everything in front of it is already accounted for.
The invariant is carried through the programs by the rely/guarantee rules, one rule
for each primitive of the watcher.  It takes a further invariant `J` of the log and
the relay along, so that what a particular relay does with the posts can be said
without going through the programs again.

* `LogOk`: the invariant of the log.
* `watermark_invariant`: it holds along every run.
-/

namespace ArcRelay.Watcher

open Interleave Prog Json Lines List

/-! ### Runs of whole records -/

variable {w : MemoryWatcher} {content content' unit : Bytes} {log log' : List Entry} {off i n : ℕ}

/-- The unit stands in the file at `off`, from the start of a record to the end of
one. -/
structure Records (content : Bytes) (off : ℕ) (unit : Bytes) : Prop where
  sits : At content off unit
  start : Aligned newline content off
  ends : Ends newline unit

namespace Records

variable (h : Records content off unit)

include h

theorem mono (hc : content <+: content') : Records content' off unit :=
  ⟨h.sits.mono hc, h.start.mono hc, h.ends⟩

theorem aligned_end : Aligned newline content (off + unit.length) :=
  h.sits.aligned_end h.ends

theorem take (hi : unit[i]? = some newline) : Records content off (unit.take (i + 1)) :=
  ⟨h.sits.take _, h.start, ends_take hi⟩

theorem drop (hi : Aligned newline unit i) (hlt : i < unit.length) :
    Records content (off + i) (unit.drop i) := by
  refine ⟨h.sits.drop _, ?_, h.ends.drop hlt⟩
  rcases hi with rfl | ⟨k, rfl, hk⟩
  · exact h.start
  · exact .inr ⟨off + k, rfl, h.sits.getElem? hk⟩

theorem halve (hcount : 1 < unit.count newline) :
    Records content off (halveAtNewline unit).1 ∧
      Records content (off + (halveAtNewline unit).1.length) (halveAtNewline unit).2 ∧
      (halveAtNewline unit).1.length + (halveAtNewline unit).2.length = unit.length := by
  obtain ⟨i, hi, hget, heq⟩ := halveAtNewline_spec hcount
  have hlen : (unit.take (i + 1)).length = i + 1 := by
    rw [length_take]
    omega
  rw [heq]
  simp only [splitAfter, hlen, length_drop]
  exact ⟨h.take hget, h.drop (.inr ⟨i, rfl, hget⟩) hi, by omega⟩

theorem chunk (hi : Aligned newline unit i) (hlt : i < unit.length) (max : ℕ) :
    Records content (off + i) ((unit.drop i).take (chunkEnd unit i max - i)) ∧
      Aligned newline unit (chunkEnd unit i max) := by
  obtain ⟨-, hends⟩ : chunkEnd unit i max ≤ unit.length ∧ Ends newline _ :=
    chunkEnd_spec h.ends hlt
  have hrest := h.drop hi hlt
  exact ⟨⟨hrest.sits.take _, hrest.start, hends⟩, aligned_chunkEnd h.ends hlt⟩

end Records

/-! ### The invariant -/

/-- Byte `i` is accounted for: it lies in a run of whole records that the relay took,
or in a single record that the relay refused alone, or that is over the ceiling. -/
def Settled (w : MemoryWatcher) (content : Bytes) (log : List Entry) (i : ℕ) : Prop :=
  ∃ off unit, Records content off unit ∧ off ≤ i ∧ i < off + unit.length ∧
    ((∃ req resp, .posted off req (.ok resp) ∈ log ∧ req.jsonl = unit) ∨
      unit.count newline = 1 ∧
        ((∃ req, .posted off req (.error (.http 413)) ∈ log ∧ req.jsonl = unit) ∨
          .skipped off unit.length ∈ log ∧ w.ceiling < unit.length))

theorem Settled.mono (h : Settled w content log i) (hc : content <+: content') (hl : log <:+ log') :
    Settled w content' log' i := by
  obtain ⟨off, unit, hrec, hle, hlt, hwhy⟩ := h
  refine ⟨off, unit, hrec.mono hc, hle, hlt, ?_⟩
  rcases hwhy with ⟨req, resp, hmem, hunit⟩ | ⟨hone, ⟨req, hmem, hunit⟩ | ⟨hmem, hover⟩⟩
  · exact .inl ⟨req, resp, hl.mem hmem, hunit⟩
  · exact .inr ⟨hone, .inl ⟨req, hl.mem hmem, hunit⟩⟩
  · exact .inr ⟨hone, .inr ⟨hl.mem hmem, hover⟩⟩

/-- Everything below `n` is accounted for, and `n` stands between two records. -/
structure Good (w : MemoryWatcher) (content : Bytes) (log : List Entry) (n : ℕ) : Prop where
  aligned : Aligned newline content n
  settled : ∀ i < n, Settled w content log i

theorem Good.mono (h : Good w content log n) (hc : content <+: content') (hl : log <:+ log') :
    Good w content' log' n :=
  ⟨h.aligned.mono hc, fun i hi => (h.settled i hi).mono hc hl⟩

theorem Good.zero : Good w content log 0 :=
  ⟨aligned_zero, fun i hi => absurd hi (Nat.not_lt_zero i)⟩

/-- What holds of an entry when it is written to the log: a post is a run of whole
records, a skipped record is a record over the ceiling, and everything in front of
either is already accounted for. -/
def EntryOk (w : MemoryWatcher) (content : Bytes) (before : List Entry) : Entry → Prop
  | .posted off req _ => Records content off req.jsonl ∧ Good w content before off
  | .skipped off len => Good w content before off ∧
      ∃ unit, Records content off unit ∧ unit.length = len ∧ unit.count newline = 1 ∧
        w.ceiling < len
  | .scheduled _ => True

theorem EntryOk.mono {before : List Entry} {e : Entry} (h : EntryOk w content before e)
    (hc : content <+: content') :
    EntryOk w content' before e := by
  cases e with
  | posted off req r => exact ⟨h.1.mono hc, h.2.mono hc (suffix_refl _)⟩
  | skipped off len =>
    obtain ⟨hgood, unit, hrec, hrest⟩ := h
    exact ⟨hgood.mono hc (suffix_refl _), unit, hrec.mono hc, hrest⟩
  | scheduled sid => trivial

def LogOk (w : MemoryWatcher) (content : Bytes) : List Entry → Prop
  | [] => True
  | e :: before => EntryOk w content before e ∧ LogOk w content before

theorem LogOk.mono (h : LogOk w content log) (hc : content <+: content') :
    LogOk w content' log := by
  induction log with
  | nil => trivial
  | cons e before ih => exact ⟨h.1.mono hc, ih h.2⟩

theorem LogOk.of_mem (h : LogOk w content log) {e : Entry} (he : e ∈ log) :
    ∃ before, e :: before <:+ log ∧ EntryOk w content before e := by
  induction log with
  | nil => simp at he
  | cons e' before ih => ?_
  rcases mem_cons.mp he with rfl | he
  · exact ⟨before, suffix_refl _, h.1⟩
  obtain ⟨before', hsuf, hok⟩ := ih h.2 he
  exact ⟨before', hsuf.trans (suffix_cons _ _), hok⟩

section

variable {ρ ν η : Type} (J : Bytes → List Entry → ρ → Prop)

/-- The invariant of the watcher's state: the log is fine, and so are the watermarks
in memory and on disk.  `J` is what the relay keeps. -/
structure Inv (w : MemoryWatcher) (s : State ρ) : Prop where
  log : LogOk w s.content s.log
  fs : Good w s.content s.log s.fs.bytesSeen
  saved : Good w s.content s.log s.saved.bytesSeen
  relay : J s.content s.log s.relay

/-- What the watcher relies on between two of its steps: the file is only appended
to, and nobody else touches its watermark. -/
structure Rely (s s' : State ρ) : Prop where
  content : s.content <+: s'.content
  fs : s'.fs = s.fs
  log : s'.log = s.log

structure Guar (s s' : State ρ) : Prop where
  content : s'.content = s.content
  bytesSeen : s.fs.bytesSeen ≤ s'.fs.bytesSeen
  log : s.log <:+ s'.log

structure Later (s s' : State ρ) : Prop where
  content : s.content <+: s'.content
  log : s.log <:+ s'.log

theorem Rely.refl (s : State ρ) : Rely s s := ⟨prefix_refl _, rfl, rfl⟩

variable {s s' a b c : State ρ}

theorem Rely.trans (h : Rely a b) (h' : Rely b c) : Rely a c :=
  ⟨h.content.trans h'.content, h'.fs.trans h.fs, h'.log.trans h.log⟩

theorem Later.trans (h : Later a b) (h' : Later b c) : Later a c :=
  ⟨h.content.trans h'.content, h.log.trans h'.log⟩

theorem Rely.later (h : Rely s s') : Later s s' :=
  ⟨h.content, by rw [h.log]⟩

theorem Guar.later (h : Guar s s') : Later s s' :=
  ⟨by rw [h.content], h.log⟩

theorem Good.later (h : Good w s.content s.log n) (hs : Later s s') : Good w s'.content s'.log n :=
  h.mono hs.content hs.log

/-- What is asked of a relay and of the invariant kept for it. -/
structure RelayKeeps (relay : ρ → IngestRequest → ν → ρ × HttpAnswer) (relayWorld : η → ρ → ρ)
    (w : MemoryWatcher) (path : String) : Prop where
  /-- A post of whole records, with everything in front of it accounted for. -/
  post : ∀ content log r fs unit off mtime e, LogOk w content log → J content log r →
    Records content off unit → Good w content log off →
    let req := request w path fs unit off mtime
    J content (.posted off req (postIngest (relay r req e).2) :: log) (relay r req e).1
  skipped : ∀ content log r off len, J content log r → J content (.skipped off len :: log) r
  scheduled : ∀ content log r sid, J content log r → J content (.scheduled sid :: log) r
  append : ∀ content log r bytes, J content log r → J (content ++ bytes) log r
  world : ∀ content log r h, LogOk w content log → J content log r → J content log (relayWorld h r)

/-! ### One rule for each primitive -/

variable {J} {relay : ρ → IngestRequest → ν → ρ × HttpAnswer} {relayWorld : η → ρ → ρ}
  {path : String} {α β : Type} {Q : α → State ρ → Prop} {mtime : ℤ}
  {f : FileState → FileState} {k : Unit → Prog (State ρ) (Env ν) α}

variable (J w) in
abbrev Sound (Q : α → State ρ → Prop) (p : Prog (State ρ) (Env ν) α) (s : State ρ) : Prop :=
  p.Safe (Inv J w) Rely Guar Q s

theorem safe_pure {a : α} (h : ∀ s', Later s s' → s'.fs = s.fs → Q a s') :
    Sound w J Q (pure a : Prog (State ρ) (Env ν) α) s :=
  fun s' hR _ => h s' hR.later hR.fs

theorem safe_get {f : State ρ → β} {k : β → Prog (State ρ) (Env ν) α}
    (hk : ∀ s', Later s s' → s'.fs = s.fs → Sound w J Q (k (f s')) s') :
    Sound w J Q (Prog.get f >>= k) s :=
  fun s' hR hI _ => ⟨hI, ⟨rfl, le_rfl, suffix_refl _⟩, hk s' hR.later hR.fs⟩

theorem safe_read {f : State ρ → β} {k : Option β → Prog (State ρ) (Env ν) α}
    (hfail : ∀ s', Sound w J Q (k none) s')
    (hk : ∀ s', Later s s' → s'.fs = s.fs → Sound w J Q (k (some (f s'))) s') :
    Sound w J Q (Prog.act (fun s e => (s, if e.readOk then some (f s) else none)) >>= k) s := by
  intro s' hR hI e
  refine ⟨hI, ⟨rfl, le_rfl, suffix_refl _⟩, ?_⟩
  by_cases hread : e.readOk
  · simp only [hread, if_true]
    exact hk s' hR.later hR.fs
  · simp only [hread]
    exact hfail s'

theorem safe_saveState {k : Bool → Prog (State ρ) (Env ν) α}
    (hk : ∀ ok s', Later s s' → s'.fs = s.fs → Sound w J Q (k ok) s') :
    Sound w J Q (saveState >>= k) s := by
  intro s' hR hI e
  cases hok : e.saveOk with
  | true =>
    simp only [hok, if_true]
    exact ⟨⟨hI.log, hI.fs, hI.fs, hI.relay⟩, ⟨rfl, le_rfl, suffix_refl _⟩,
      hk true _ ⟨hR.later.content, hR.later.log⟩ hR.fs⟩
  | false =>
    simp only [hok]
    exact ⟨hI, ⟨rfl, le_rfl, suffix_refl _⟩, hk false _ hR.later hR.fs⟩

theorem safe_modifyFs (hf : ∀ fs, (f fs).bytesSeen = fs.bytesSeen)
    (hk : ∀ s', Later s s' → s'.fs.bytesSeen = s.fs.bytesSeen → Sound w J Q (k ()) s') :
    Sound w J Q (modifyFs f >>= k) s := by
  intro s' hR hI e
  refine ⟨⟨hI.log, ?_, hI.saved, hI.relay⟩, ⟨rfl, ?_, suffix_refl _⟩,
    hk _ ⟨hR.later.content, hR.later.log⟩ ?_⟩
  · simpa only [hf] using hI.fs
  · simp only [hf, le_refl]
  · simp only [hf, hR.fs]

theorem safe_advance (hf : ∀ fs, (f fs).bytesSeen = n) (hn : Good w s.content s.log n)
    (hle : s.fs.bytesSeen ≤ n)
    (hk : ∀ s', Later s s' → s'.fs.bytesSeen = n → Sound w J Q (k ()) s') :
    Sound w J Q (modifyFs f >>= k) s := by
  intro s' hR hI e
  refine ⟨⟨hI.log, ?_, hI.saved, hI.relay⟩, ⟨rfl, ?_, suffix_refl _⟩,
    hk _ ⟨hR.later.content, hR.later.log⟩ (hf _)⟩
  · simpa only [hf] using hn.later hR.later
  simp only [hf, hR.fs]
  exact hle

theorem safe_later {p : Prog (State ρ) (Env ν) α} (h : Sound w J Q p s) :
    Sound w J (fun a s' => Later s s' ∧ Q a s') p s :=
  h.within (T := Later) (fun _ _ _ => Later.trans) (fun _ _ => Rely.later) (fun _ _ => Guar.later)
    ⟨prefix_refl _, suffix_refl _⟩

/-! ### The programs -/

theorem Good.extend (h : Good w content log off) (hrec : Records content off unit)
    (hset : ∀ i, off ≤ i → i < off + unit.length → Settled w content log i) :
    Good w content log (off + unit.length) := by
  refine ⟨hrec.aligned_end, fun i hi => ?_⟩
  rcases Nat.lt_or_ge i off with hlt | hge
  · exact h.settled i hlt
  · exact hset i hge hi

theorem Good.accepted {resp : IngestResponse} (h : Good w content log off)
    (hrec : Records content off unit)
    (hpost : ∃ req, .posted off req (.ok resp) ∈ log ∧ req.jsonl = unit) :
    Good w content log (off + unit.length) := by
  obtain ⟨req, hmem, hunit⟩ := hpost
  exact h.extend hrec fun i hle hlt => ⟨off, unit, hrec, hle, hlt, .inl ⟨req, resp, hmem, hunit⟩⟩

theorem Records.count_eq_one (h : Records content off unit) (hcount : ¬ 1 < unit.count newline) :
    unit.count newline = 1 := by
  have := count_pos_iff.mpr h.ends.mem
  omega

theorem Good.refused (h : Good w content log off) (hrec : Records content off unit)
    (hcount : ¬ 1 < unit.count newline)
    (hpost : ∃ req, .posted off req (.error (.http 413)) ∈ log ∧ req.jsonl = unit) :
    Good w content log (off + unit.length) :=
  h.extend hrec fun _ hle hlt =>
    ⟨off, unit, hrec, hle, hlt, .inr ⟨hrec.count_eq_one hcount, .inl hpost⟩⟩

theorem settleMtime_safe :
    Sound w J (fun r _ => r ≠ .spent) (settleMtime mtime : Prog (State ρ) (Env ν) Outcome) s := by
  refine safe_modifyFs (fun _ => rfl) fun s1 _ _ => ?_
  refine safe_saveState fun ok s2 _ _ => ?_
  cases ok with
  | true | false => exact safe_pure fun _ _ _ => by simp

theorem records_readWindow {cut : ℕ} (hoff : Aligned newline content off)
    (hcut : lastIdx newline (readWindow content off n) = some cut) :
    Records content off ((readWindow content off n).take (cut + 1)) :=
  ⟨at_take_drop.take _, hoff, ends_take (getElem?_of_lastIdx hcut)⟩

theorem records_measureLine (hoff : Aligned newline content off)
    (h : measureLine content off = (n, true)) :
    ∃ unit, Records content off unit ∧ unit.length = n ∧ unit.count newline = 1 := by
  unfold measureLine at h
  split at h
  · next i hi =>
    obtain ⟨rfl, -⟩ := Prod.mk.inj h
    have hget := getElem?_of_firstIdx hi
    have hlt := lt_length_of_getElem? hget
    refine ⟨(content.drop off).take (i + 1), ⟨at_take_drop, hoff, ends_take hget⟩, ?_,
      count_take_firstIdx hi⟩
    rw [length_take]
    omega
  · exact absurd (Prod.mk.inj h).2 (by simp)

variable (hJ : RelayKeeps J relay relayWorld w path)

include hJ

theorem safe_post {k : Except IngestError IngestResponse → Prog (State ρ) (Env ν) α}
    (hrec : Records s.content off unit) (hgood : Good w s.content s.log off)
    (hk : ∀ r s', Later s s' → s'.fs.bytesSeen = s.fs.bytesSeen →
      (∃ req, .posted off req r ∈ s'.log ∧ req.jsonl = unit) →
      Sound w J Q (k r) s') :
    Sound w J Q (post relay w path unit off mtime >>= k) s := by
  intro s' hR hI e
  have hrec' := hrec.mono hR.content
  have hgood' := hgood.later hR.later
  have hsuf : ∀ en : Entry, s'.log <:+ en :: s'.log := fun en => suffix_cons _ _
  refine ⟨⟨⟨⟨hrec', hgood'⟩, hI.log⟩, hI.fs.mono (prefix_refl _) (hsuf _),
    hI.saved.mono (prefix_refl _) (hsuf _), ?_⟩, ⟨rfl, le_rfl, hsuf _⟩,
    hk _ _ ⟨hR.content, hR.later.log.trans (hsuf _)⟩ (by simp only [hR.fs]) ⟨_, mem_cons_self, rfl⟩⟩
  exact hJ.post _ _ _ _ _ _ _ _ hI.log hI.relay hrec' hgood'

/-- **`sendUnit` settles a unit or leaves it**; the watermark stays. -/
theorem sendUnit_safe (mtime : ℤ) (unit : Bytes) (off : ℕ) (s : State ρ)
    (hrec : Records s.content off unit) (hgood : Good w s.content s.log off) :
    Sound w J (fun r s' => s'.fs.bytesSeen = s.fs.bytesSeen ∧
        (r.1 = true → Good w s'.content s'.log (off + unit.length)))
      (sendUnit relay w path unit off mtime) s := by
  induction hn : unit.length using Nat.strong_induction_on generalizing unit off s with
  | _ n ih =>
  subst hn
  rw [sendUnit]
  refine safe_post hJ hrec hgood fun r s1 hs1 hb1 hpost => ?_
  have hrec1 := hrec.mono hs1.content
  have hgood1 := hgood.later hs1
  match r with
  | .ok resp =>
    have hacc := hgood1.accepted hrec1 hpost
    dsimp only
    split
    · refine safe_modifyFs (fun _ => rfl) fun s2 hs2 hb2 => ?_
      refine safe_pure fun s3 hs3 hfs3 => ⟨?_, fun _ => (hacc.later hs2).later hs3⟩
      rw [hfs3, hb2, hb1]
    · refine safe_pure fun s3 hs3 hfs3 => ⟨?_, fun _ => hacc.later hs3⟩
      rw [hfs3, hb1]
  | .error .transport =>
    exact safe_pure fun s2 _ hfs2 => ⟨by rw [hfs2, hb1], fun h => absurd h (by simp)⟩
  | .error (.http status) =>
    dsimp only
    split
    · next h413 =>
      subst h413
      split
      · next hcount =>
        -- the two halves are runs of whole records, one behind the other
        obtain ⟨hrecA, hrecB, hlen⟩ := hrec1.halve hcount
        have hposA := hrecA.ends.length_pos
        have hposB := hrecB.ends.length_pos
        refine safe_bind Rely.refl (safe_later (ih _ (by omega) _ off s1 hrecA hgood1 rfl)) ?_
        rintro ⟨okA, nA⟩ s2 - ⟨hs2, hb2, hA⟩
        cases okA with
        | false =>
          exact safe_pure fun s3 _ hfs3 => ⟨by rw [hfs3, hb2, hb1], fun h => absurd h (by simp)⟩
        | true => ?_
        refine safe_bind Rely.refl (ih _ (by omega) _ _ s2 (hrecB.mono hs2.content) (hA rfl) rfl) ?_
        rintro ⟨okB, nB⟩ s3 - ⟨hb3, hB⟩
        refine safe_pure fun s4 hs4 hfs4 => ⟨by rw [hfs4, hb3, hb2, hb1], fun hok => ?_⟩
        have := (hB hok).later hs4
        rwa [Nat.add_assoc, hlen] at this
      · next hcount =>
        have hskip := hgood1.refused hrec1 hcount hpost
        refine safe_modifyFs (fun _ => rfl) fun s2 hs2 hb2 => ?_
        refine safe_pure fun s3 hs3 hfs3 => ⟨?_, fun _ => (hskip.later hs2).later hs3⟩
        rw [hfs3, hb2, hb1]
    · split
      · refine safe_modifyFs (fun _ => rfl) fun s2 _ hb2 => ?_
        exact safe_pure fun s3 _ hfs3 => ⟨by rw [hfs3, hb2, hb1], fun h => absurd h (by simp)⟩
      · exact safe_pure fun s2 _ hfs2 => ⟨by rw [hfs2, hb1], fun h => absurd h (by simp)⟩

theorem safe_schedule (hk : ∀ s', Later s s' → s'.fs = s.fs → Sound w J Q (k ()) s') :
    Sound w J Q (scheduleQuiescenceExtract w path >>= k) s := by
  intro s' hR hI e
  by_cases hq : w.quiescenceWindow ≤ 0
  · simp only [hq, if_true]
    exact ⟨hI, ⟨rfl, le_rfl, suffix_refl _⟩, hk _ hR.later hR.fs⟩
  simp only [hq, if_false]
  have hsuf : s'.log <:+ .scheduled (sessionOf path) :: s'.log := suffix_cons _ _
  exact ⟨⟨⟨trivial, hI.log⟩, hI.fs.mono (prefix_refl _) hsuf,
      hI.saved.mono (prefix_refl _) hsuf, hJ.scheduled _ _ _ _ hI.relay⟩,
    ⟨rfl, le_rfl, hsuf⟩, hk _ ⟨hR.content, hR.later.log.trans hsuf⟩ hR.fs⟩

theorem finish_safe {base : ℕ} (messagesAdded : ℤ)
    {advanced : Bool} (hadv : advanced = true → base < s.fs.bytesSeen) :
    Sound w J (fun r s' => r.2 ≠ .spent ∧ (r.1 = true → base < s'.fs.bytesSeen))
      (do if 0 < messagesAdded then scheduleQuiescenceExtract w path
          pure (advanced, .done) : Prog (State ρ) (Env ν) (Bool × Outcome)) s := by
  split
  · refine safe_schedule hJ fun s1 _ hfs1 => ?_
    exact safe_pure fun s2 _ hfs2 => ⟨by simp, fun h => by rw [hfs2, hfs1]; exact hadv h⟩
  · exact safe_pure fun s1 _ hfs1 => ⟨by simp, fun h => by rw [hfs1]; exact hadv h⟩

theorem ingestLoop_safe (delta : Bytes) (base : ℕ) (mtime : ℤ) (off : ℕ) (messagesAdded : ℤ)
    (advanced : Bool) (s : State ρ) (hrec : Records s.content base delta)
    (hoff : Aligned newline delta off) (hgood : Good w s.content s.log (base + off))
    (hb : s.fs.bytesSeen = base + off) (hadv : advanced = true → 0 < off) :
    Sound w J (fun r s' => r.2 ≠ .spent ∧ (r.1 = true → base < s'.fs.bytesSeen))
      (ingestLoop relay w path delta base mtime off messagesAdded advanced) s := by
  have hstart : advanced = true → base < s.fs.bytesSeen := fun h => by
    have := hadv h
    omega
  induction hn : delta.length - off using Nat.strong_induction_on generalizing
    off messagesAdded advanced s with
  | _ n ih =>
  rw [ingestLoop]
  split
  · next hlt =>
    obtain ⟨hchunk, hstop⟩ := hrec.chunk hoff hlt w.chunkLimit
    have hpos : off < chunkEnd delta off w.chunkLimit := lt_chunkEnd hlt
    have hlen : base + off + ((delta.drop off).take (chunkEnd delta off w.chunkLimit - off)).length
        = base + chunkEnd delta off w.chunkLimit := by
      have := hstop.le_length
      rw [length_take, length_drop, min_eq_left (by omega)]
      omega
    refine safe_bind Rely.refl
      (safe_later (sendUnit_safe hJ mtime _ (base + off) s hchunk hgood)) ?_
    rintro ⟨settled, added⟩ s1 - ⟨hs1, hb1, hset⟩
    cases settled with
    | false =>
      -- the watermark stays where the last settled chunk has put it
      have hadv1 : advanced = true → base < s1.fs.bytesSeen := by rwa [hb1]
      refine safe_get fun s2 _ hfs2 => ?_
      rw [← hfs2] at hadv1
      split
      · refine safe_saveState fun ok s3 _ hfs3 => ?_
        rw [← hfs3] at hadv1
        cases ok with
        | false | true =>
          exact safe_pure fun s4 _ hfs4 => ⟨by simp, fun h => by rw [hfs4]; exact hadv1 h⟩
      · exact safe_pure fun s4 _ hfs4 => ⟨by simp, fun h => by rw [hfs4]; exact hadv1 h⟩
    | true =>
      have hset' := hset rfl
      rw [hlen] at hset'
      refine safe_advance (n := base + chunkEnd delta off w.chunkLimit) (fun _ => rfl) hset'
        (by omega) fun s2 hs2 hb2 => ?_
      refine safe_saveState fun ok s3 hs3 hfs3 => ?_
      cases ok with
      | false => exact safe_pure fun s4 _ hfs4 => ⟨by simp, fun _ => by rw [hfs4, hfs3, hb2]; omega⟩
      | true => ?_
      refine safe_get fun s4 hs4 hfs4 => ?_
      have hb4 : s4.fs.bytesSeen = base + chunkEnd delta off w.chunkLimit := by
        rw [hfs4, hfs3, hb2]
      have hlater := (hs2.trans hs3).trans hs4
      split
      -- a file that was quarantined on the way is not read further
      · exact finish_safe hJ _ fun _ => by omega
      exact ih _ (by omega) _ _ _ s4 (hrec.mono (hs1.trans hlater).content) hstop
        (hset'.later hlater) hb4 (fun _ => by omega) (fun _ => by omega) rfl
  · exact finish_safe hJ _ hstart

theorem ingestDelta_safe (delta : Bytes) (mtime : ℤ)
    (s : State ρ) (hrec : Records s.content s.fs.bytesSeen delta)
    (hgood : Good w s.content s.log s.fs.bytesSeen) :
    Sound w J (fun r s' => r.2 ≠ .spent ∧ (r.1 = true → s.fs.bytesSeen < s'.fs.bytesSeen))
      (ingestDelta relay w path delta mtime) s := by
  refine safe_get fun s1 hs1 hfs1 => ?_
  rw [← hfs1] at hrec hgood ⊢
  exact ingestLoop_safe hJ delta _ mtime 0 0 false s1 (hrec.mono hs1.content) aligned_zero
    (hgood.later hs1) rfl (fun h => absurd h (by simp))

theorem safe_skip (hrec : Records s.content s.fs.bytesSeen unit)
    (hone : unit.count newline = 1) (hover : w.ceiling < unit.length)
    (hk : ∀ s', Later s s' → s'.fs.bytesSeen = s.fs.bytesSeen + unit.length →
      Sound w J Q (k ()) s') :
    Sound w J Q ((Prog.set fun s : State ρ =>
      { s with
        fs := { s.fs.count "skipped_records" with
          bytesSeen := s.fs.bytesSeen + unit.length, mtime := mtime }
        log := .skipped s.fs.bytesSeen unit.length :: s.log }) >>= k) s := by
  intro s' hR hI e
  have hrec' : Records s'.content s'.fs.bytesSeen unit := by
    rw [hR.fs]
    exact hrec.mono hR.content
  have hsuf : ∀ en : Entry, s'.log <:+ en :: s'.log := fun en => suffix_cons _ _
  refine ⟨⟨⟨⟨hI.fs, unit, hrec', rfl, hone, hover⟩, hI.log⟩, ?_,
    hI.saved.mono (prefix_refl _) (hsuf _), hJ.skipped _ _ _ _ _ hI.relay⟩,
    ⟨rfl, Nat.le_add_right _ _, hsuf _⟩,
    hk _ ⟨hR.content, hR.later.log.trans (hsuf _)⟩ (by simp only [hR.fs])⟩
  refine (hI.fs.mono (prefix_refl _) (hsuf _)).extend hrec' fun i hle hlt => ?_
  exact ⟨_, unit, hrec', hle, hlt, .inr ⟨hone, .inr ⟨mem_cons_self, hover⟩⟩⟩

theorem ingestThen_safe {delta : Bytes} {rest : Prog (State ρ) (Env ν) Outcome}
    (hrec : Records s.content s.fs.bytesSeen delta) (hgood : Good w s.content s.log s.fs.bytesSeen)
    (hrest : ∀ s', s.fs.bytesSeen < s'.fs.bytesSeen → Sound w J (fun r _ => r ≠ .spent) rest s') :
    Sound w J (fun r _ => r ≠ .spent) (ingestThen relay w path delta mtime rest) s := by
  refine safe_bind Rely.refl (ingestDelta_safe hJ delta mtime s hrec hgood) ?_
  rintro ⟨advanced, outcome⟩ s1 - ⟨hout, hadv⟩
  dsimp only
  split
  · exact safe_pure fun _ _ _ => hout
  refine safe_get fun s2 _ hfs2 => ?_
  split
  · exact safe_pure fun _ _ _ => by simp
  next hcont =>
  cases advanced with
  | false => simp at hcont
  | true => exact hrest s2 (by rw [hfs2]; exact hadv rfl)

/-- **`drainFile` keeps the invariant**, and as many rounds as there are unseen bytes
are enough: each round that does not end it moves the watermark. -/
theorem drainFile_safe (size : ℕ) (mtime : ℤ)
    (fuel : ℕ) (s : State ρ) (hfuel : size < fuel + s.fs.bytesSeen) (hpos : 0 < fuel) :
    Sound w J (fun r _ => r ≠ .spent) (drainFile relay w path size mtime fuel) s := by
  induction fuel generalizing s with
  | zero => omega
  | succ fuel ih =>
  refine safe_of_rely Rely.refl fun s0 hR hI => ?_
  rw [← hR.fs] at hfuel
  refine safe_get fun s1 hs1 hfs1 => ?_
  split
  · exact safe_pure fun _ _ _ => by simp
  next hsize =>
  -- a later state with the watermark still in place, and one with the watermark moved
  have hgood : ∀ s', Later s1 s' → s'.fs = s1.fs → Good w s'.content s'.log s'.fs.bytesSeen := by
    intro s' hs' hfs'
    rw [hfs', hfs1]
    exact (hI.fs.later hs1).later hs'
  have hrest : ∀ s', s1.fs.bytesSeen < s'.fs.bytesSeen →
      Sound w J (fun r _ => r ≠ .spent) (drainFile relay w path size mtime fuel) s' := by
    intro s' hlt
    rw [hfs1] at hlt hsize
    exact ih s' (by omega) (by omega)
  have hdone : ∀ s', Sound w J (fun r _ => r ≠ .spent)
      (pure .done : Prog (State ρ) (Env ν) Outcome) s' := fun s' => safe_pure fun _ _ _ => by simp
  refine safe_read hdone fun s2 hs2 hfs2 => ?_
  have hgood2 := hgood s2 hs2 hfs2
  dsimp only
  split
  · exact safe_pure fun _ _ _ => by simp
  split
  · next cut hcut =>
    rw [← hfs2] at hcut ⊢
    refine ingestThen_safe hJ (records_readWindow hgood2.aligned hcut) hgood2 fun s' hlt => ?_
    exact hrest s' (by rwa [← hfs2])
  split
  · exact settleMtime_safe
  refine safe_read hdone fun s3 hs3 hfs3 => ?_
  have hgood3 := hgood s3 (hs2.trans hs3) (hfs3.trans hfs2)
  split
  · exact hdone s3
  · exact settleMtime_safe
  next lineLen hmeasure =>
  rw [Option.some.injEq, ← hfs2, ← hfs3] at hmeasure
  obtain ⟨unit, hunit, rfl, hone⟩ := records_measureLine hgood3.aligned hmeasure
  split
  · next hover =>
    refine safe_skip hJ hunit hone hover fun s4 hs4 hb4 => ?_
    refine safe_saveState fun ok s5 hs5 hfs5 => ?_
    cases ok with
    | false => exact safe_pure fun _ _ _ => by simp
    | true => exact hrest s5 (by rw [hfs5, hb4, hfs3, hfs2]; omega)
  refine safe_read hdone fun s4 hs4 hfs4 => ?_
  have hgood4 := hgood s4 ((hs2.trans hs3).trans hs4) ((hfs4.trans hfs3).trans hfs2)
  -- the line is still there when it is read
  have hunit4 := hunit.mono hs4.content
  rw [← hfs4] at hunit4
  have hline : readWindow s4.content s1.fs.bytesSeen unit.length = unit := by
    rw [← hfs2, ← hfs3, ← hfs4]
    exact hunit4.sits.eq_take
  rw [hline]
  refine ingestThen_safe hJ hunit4 hgood4 fun s' hlt => hrest s' ?_
  rwa [← hfs2, ← hfs3, ← hfs4]

theorem scanFile_safe (s : State ρ) :
    Sound w J (fun r _ => r ≠ .spent) (scanFile relay w path) s := by
  refine safe_get fun s1 _ _ => ?_
  refine safe_get fun s2 _ _ => ?_
  split
  · exact safe_pure fun _ _ _ => by simp
  split
  · exact safe_pure fun _ _ _ => by simp
  split
  · intro s3 hR hI e
    have hdrain := fun s' => drainFile_safe (s := s') hJ s1.content.length s1.modTime
      (s1.content.length + 1) (by omega) (by omega)
    cases hok : e.readOk with
    | false =>
      simp only [hok]
      exact ⟨hI, ⟨rfl, le_rfl, suffix_refl _⟩, hdrain _⟩
    | true =>
      simp only [hok, if_true]
      exact ⟨⟨hI.log, hI.fs, hI.saved, hI.relay⟩, ⟨rfl, le_rfl, suffix_refl _⟩, hdrain _⟩
  · exact drainFile_safe hJ _ _ _ s2 (by omega) (by omega)

theorem scans_safe (n : ℕ) (s : State ρ) :
    Sound w J (fun _ _ => True) (scans relay w path n) s := by
  induction n generalizing s with
  | zero => exact safe_pure fun _ _ _ => trivial
  | succ n ih => exact safe_bind Rely.refl (scanFile_safe hJ s) fun _ s' _ _ => ih s'

/-! ### Runs -/

theorem world_safe (h : WorldEvent η) (s : State ρ)
    (hI : Inv J w s) : Inv J w (world relayWorld h s) ∧ Rely s (world relayWorld h s) := by
  cases h with
  | append bytes t =>
    have hpre : s.content <+: s.content ++ bytes := prefix_append _ _
    exact ⟨⟨hI.log.mono hpre, hI.fs.mono hpre (suffix_refl _),
      hI.saved.mono hpre (suffix_refl _), hJ.append _ _ _ _ hI.relay⟩, hpre, rfl, rfl⟩
  | flush => exact ⟨⟨hI.log, hI.fs, hI.fs, hI.relay⟩, prefix_refl _, rfl, rfl⟩
  | relay h =>
    exact ⟨⟨hI.log, hI.fs, hI.saved, hJ.world _ _ _ _ hI.log hI.relay⟩, prefix_refl _, rfl, rfl⟩

def watch (relay : ρ → IngestRequest → ν → ρ × HttpAnswer) (relayWorld : η → ρ → ρ)
    (w : MemoryWatcher) (path : String) (n : ℕ) (s : State ρ)
    (sched : List (Event (WorldEvent η) (Env ν))) : Pool (State ρ) (Env ν) Unit :=
  (Pool.mk s [scans relay w path n]).exec (world relayWorld) sched

/-- **The invariant holds along every run**, and the watermark never goes back. -/
theorem watch_inv (n : ℕ) (s : State ρ)
    (hI : Inv J w s) (sched sched' : List (Event (WorldEvent η) (Env ν))) :
    Inv J w (watch relay relayWorld w path n s sched).state ∧
      (watch relay relayWorld w path n s sched).state.fs.bytesSeen ≤
        (watch relay relayWorld w path n s (sched ++ sched')).state.fs.bytesSeen := by
  have hT : ∀ a b : State ρ, Rely a b → a.fs.bytesSeen ≤ b.fs.bytesSeen := fun a b h => by rw [h.fs]
  have hrun := fun (p : Prog (State ρ) (Env ν) Unit) (s : State ρ) (hI : Inv J w s)
      (hp : Sound w J (fun _ _ => True) p s)
      (sched : List (Event (WorldEvent η) (Env ν))) =>
    Pool.exec_single (T := fun a b => a.fs.bytesSeen ≤ b.fs.bytesSeen) Rely.refl
      (fun _ _ _ => Rely.trans) (world_safe hJ) (fun _ => le_rfl)
      (fun _ _ _ => le_trans) (fun _ _ h => h.bytesSeen) hT hI hp sched
  obtain ⟨p', hthreads, hinv, hsafe, -⟩ := hrun _ s hI (scans_safe hJ n s) sched
  refine ⟨hinv, ?_⟩
  obtain ⟨-, -, -, -, hle⟩ := hrun p' _ hinv hsafe sched'
  -- the second part of the run starts from the pool the first part leaves
  have hpool : watch relay relayWorld w path n s sched =
      ⟨(watch relay relayWorld w path n s sched).state, [p']⟩ := by
    rw [← hthreads]
    rfl
  have happ : watch relay relayWorld w path n s (sched ++ sched') =
      (watch relay relayWorld w path n s sched).exec (world relayWorld) sched' :=
    Pool.exec_append _ _ _ _
  rw [happ, hpool]
  exact hle

end

def start {ρ : Type} (content : Bytes) (modTime : ℤ) (relay : ρ) : State ρ where
  content := content
  modTime := modTime
  fs := {}
  saved := {}
  relay := relay
  log := []

/-- **The watermark invariant**: for every relay, every run of any number of scans and
every point of it, the watermark does not go back afterwards, it stands between two
records, every byte below it is accounted for, and every post was a run of whole
records of the file. -/
theorem watermark_invariant {ρ ν η : Type} (relay : ρ → IngestRequest → ν → ρ × HttpAnswer)
    (relayWorld : η → ρ → ρ) (w : MemoryWatcher) (path : String) (n : ℕ) (content : Bytes)
    (modTime : ℤ) (r : ρ) (sched sched' : List (Event (WorldEvent η) (Env ν))) :
    let run := fun sched =>
      (watch relay relayWorld w path n (start content modTime r) sched).state
    let s := run sched
    s.fs.bytesSeen ≤ (run (sched ++ sched')).fs.bytesSeen ∧
      Aligned newline s.content s.fs.bytesSeen ∧
      (∀ i < s.fs.bytesSeen, Settled w s.content s.log i) ∧
      ∀ off req outcome, .posted off req outcome ∈ s.log →
        At s.content off req.jsonl ∧ Aligned newline s.content off ∧
          Aligned newline s.content (off + req.jsonl.length) := by
  intro run s
  have hJ : RelayKeeps (fun _ _ _ => True) relay relayWorld w path :=
    ⟨fun _ _ _ _ _ _ _ _ _ _ _ _ => trivial, fun _ _ _ _ _ _ => trivial,
      fun _ _ _ _ _ => trivial, fun _ _ _ _ _ => trivial, fun _ _ _ _ _ _ => trivial⟩
  have hstart : Inv (fun _ _ _ => True) w (start content modTime r) :=
    ⟨trivial, Good.zero, Good.zero, trivial⟩
  obtain ⟨hinv, hle⟩ := watch_inv hJ n _ hstart sched sched'
  refine ⟨hle, hinv.fs.aligned, hinv.fs.settled, fun off req outcome hmem => ?_⟩
  obtain ⟨before, -, hrec, -⟩ := hinv.log.of_mem hmem
  exact ⟨hrec.sits, hrec.start, hrec.aligned_end⟩

end ArcRelay.Watcher
