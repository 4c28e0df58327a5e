import ArcRelay.Memory.Watermark

/-!
# What a refused unit becomes

A unit that is answered 413 is sent again in two halves (`sendUnit`, `halveAtNewline` of
`internal/cli/sync/memory.go`), and so on down to single records, which are skipped.  Of what is
posted this leaves the bodies that were not refused and the records that were skipped, and these
are the unit from its start on, piece by piece.
-/

namespace ArcRelay.Watcher

open Interleave Prog Json Lines List Entry

def Entry.skip : Entry → Bool
  | .posted _ req outcome => outcome = .error (.http 413) ∧ ¬1 < req.jsonl.count newline
  | _ => false

/-- The offset and the bytes of a body that is not posted again: it was not refused, or it is a
single record. -/
def Entry.piece : Entry → Option (ℕ × Bytes)
  | .posted off req outcome =>
    if outcome = .error (.http 413) ∧ 1 < req.jsonl.count newline then none
    else some (off, req.jsonl)
  | _ => none

def pieces (log : List Entry) : List (ℕ × Bytes) := log.reverse.filterMap piece

def Contiguous : ℕ → List (ℕ × Bytes) → Prop
  | _, [] => True
  | off, (start, bytes) :: rest => start = off ∧ Contiguous (off + bytes.length) rest

def counter (m : Counters) (name : String) : ℤ := (m.lookup name).getD 0

theorem counter_addCount (m : Counters) (name other : String) (n : ℤ) :
    counter (addCount m name n) other = counter m other + if other = name then n else 0 := by
  induction m with
  | nil | cons _ _ _ => grind [addCount, counter]

theorem contiguous_append {off : ℕ} {ps qs : List (ℕ × Bytes)} (hp : Contiguous off ps)
    (hq : Contiguous (off + (ps.flatMap (·.2)).length) qs) : Contiguous off (ps ++ qs) := by
  induction ps generalizing off with
  | nil => exact hq
  | cons p ps ih =>
    refine ⟨hp.1, ih hp.2 ?_⟩
    rwa [flatMap_cons, length_append, ← Nat.add_assoc] at hq

structure Posted (off : ℕ) (unit : Bytes) (settled : Bool) (front : List Entry) : Prop where
  contiguous : Contiguous off (pieces front)
  inside : (pieces front).flatMap (·.2) <+: unit
  covers : settled = true → (pieces front).flatMap (·.2) = unit
  aligned : ∀ p ∈ pieces front, Ends newline p.2
  few : front.length < 2 * unit.count newline

variable {off : ℕ} {unit a b : Bytes} {settled : Bool} {front : List Entry} {e : Entry}

theorem posted_one (hunit : Ends newline unit) (he : e.piece = some (off, unit)) :
    Posted off unit settled [e] := by
  have hpieces : pieces [e] = [(off, unit)] := by simp [pieces, he]
  have hpos := count_pos_iff.mpr hunit.mem
  refine ⟨?_, ?_, fun _ => ?_, ?_, ?_⟩
  · rw [hpieces]
    exact ⟨rfl, trivial⟩
  · simp [hpieces]
  · simp [hpieces]
  · simpa [hpieces] using hunit
  · rw [length_singleton]
    omega

theorem Posted.halves {frontA frontB : List Entry} (he : e.piece = none)
    (hA : Posted off a true frontA) (hB : Posted (off + a.length) b settled frontB) :
    Posted off (a ++ b) settled (frontB ++ (frontA ++ [e])) := by
  have hpieces : pieces (frontB ++ (frontA ++ [e])) = pieces frontA ++ pieces frontB := by
    simp [pieces, he]
  refine ⟨?_, ?_, fun hok => ?_, ?_, ?_⟩
  · rw [hpieces]
    exact contiguous_append hA.contiguous (by rw [hA.covers rfl]; exact hB.contiguous)
  · rw [hpieces, flatMap_append, hA.covers rfl]
    exact prefix_append_right_inj _ |>.mpr hB.inside
  · rw [hpieces, flatMap_append, hA.covers rfl, hB.covers hok]
  · rw [hpieces]
    exact forall_mem_append.mpr ⟨hA.aligned, hB.aligned⟩
  · have := hA.few
    have := hB.few
    simp only [length_append, length_singleton, count_append]
    omega

theorem Posted.half (he : e.piece = none) (hb : 0 < b.count newline)
    (hA : Posted off a false front) : Posted off (a ++ b) false (front ++ [e]) := by
  have hpieces : pieces (front ++ [e]) = pieces front := by
    simp [pieces, he]
  refine ⟨?_, ?_, nofun, ?_, ?_⟩
  · rw [hpieces]
    exact hA.contiguous
  · rw [hpieces]
    exact hA.inside.trans (prefix_append _ _)
  · rw [hpieces]
    exact hA.aligned
  · have := hA.few
    simp only [length_append, length_singleton, count_append]
    omega

variable {ρ ν : Type} (relay : ρ → IngestRequest → ν → ρ × HttpAnswer) (w : MemoryWatcher)
  (path : String)

/-- From `s` to `s'` the posts for a unit were made, and the skipped records counted. -/
def Sends (off : ℕ) (unit : Bytes) (s : State ρ) (r : Bool × ℤ) (s' : State ρ) : Prop :=
  ∃ front, s'.log = front ++ s.log ∧ Posted off unit r.1 front ∧
    counter s'.fs.counters "skipped_records" =
      counter s.fs.counters "skipped_records" + front.countP skip

section

variable {relay w path} {s s' : State ρ} {r : Bool × ℤ}

theorem sends_one {e : Entry} (hunit : Ends newline unit) (hlog : s'.log = e :: s.log)
    (he : e.piece = some (off, unit))
    (hcount : counter s'.fs.counters "skipped_records" =
      counter s.fs.counters "skipped_records" + if e.skip then 1 else 0) :
    Sends off unit s r s' := by
  refine ⟨[e], hlog, posted_one hunit he, ?_⟩
  rw [hcount, countP_singleton]
  split <;> rfl

theorem ends_modifyFs {f : FileState → FileState} {Q : Bool × ℤ → State ρ → Prop}
    (h : Q r { s with fs := f s.fs }) :
    (modifyFs (ν := ν) f >>= fun _ => pure r).Ends (fun _ => True) Q s :=
  (ends_act.mpr fun _ _ => rfl : (modifyFs f).Ends _ (fun _ s' => s' = _) s).bind
    fun _ _ hs' => ends_pure (hs' ▸ h)

theorem sendUnit_ends (mtime : ℤ) (unit : Bytes) (off : ℕ) (s : State ρ)
    (hunit : Ends newline unit) :
    (sendUnit relay w path unit off mtime).Ends (fun _ => True) (Sends off unit s) s := by
  induction hn : unit.length using Nat.strong_induction_on generalizing unit off s with
  | _ n ih =>
  subst hn
  rw [sendUnit]
  have hpost : (post relay w path unit off mtime).Ends (fun _ => True)
      (fun r s' => ∃ req, req.jsonl = unit ∧ s'.log = .posted off req r :: s.log ∧
        s'.fs = s.fs) s :=
    ends_act.mpr fun e _ => ⟨_, rfl, rfl, rfl⟩
  refine hpost.bind fun r s1 hs1 => ?_
  obtain ⟨req, hreq, hlog, hfs⟩ := hs1
  cases r with
  | ok resp =>
    dsimp only
    split
    · refine ends_modifyFs (sends_one hunit hlog (by simp [piece, hreq]) ?_)
      simp [counter_addCount, hfs, skip]
    · exact ends_pure (sends_one hunit hlog (by simp [piece, hreq]) (by simp [hfs, skip]))
  | error e =>
    cases e with
    | transport =>
      exact ends_pure (sends_one hunit hlog (by simp [piece, hreq]) (by simp [hfs, skip]))
    | http status => ?_
    dsimp only
    split
    · next h413 =>
      subst h413
      split
      · next hcount =>
        -- the halves are posted in turn, unless the first fails
        have he : (posted off req (.error (.http 413))).piece = none := by
          simp [piece, hreq, hcount]
        have hskip : (posted off req (.error (.http 413))).skip = false := by
          simp [skip, hreq, hcount]
        obtain ⟨i, hi, hget, hhalve⟩ := halveAtNewline_spec hcount
        have hendsB := hunit.drop hi
        rw [hhalve]
        refine (ih _ (by simp; omega) _ off s1 (ends_take hget) rfl).bind ?_
        rintro ⟨okA, nA⟩ s2 ⟨frontA, hlogA, hA, hcountA⟩
        rw [hlog, append_cons] at hlogA
        rw [hfs] at hcountA
        cases okA with
        | false =>
          have hsend := hA.half he (count_pos_iff.mpr hendsB.mem)
          rw [take_append_drop] at hsend
          refine ends_pure ⟨_, hlogA, hsend, ?_⟩
          simpa [hskip] using hcountA
        | true => ?_
        refine (ih _ (by simp; omega) _ _ s2 hendsB rfl).bind ?_
        rintro ⟨okB, nB⟩ s3 ⟨frontB, hlogB, hB, hcountB⟩
        have hsend := hA.halves he hB
        rw [take_append_drop] at hsend
        refine ends_pure ⟨_, by simp [hlogB, hlogA], hsend, ?_⟩
        simp [hskip]
        omega
      · next hcount =>
        refine ends_modifyFs (sends_one hunit hlog (by simp [piece, hreq, hcount]) ?_)
        simp [FileState.count, counter_addCount, hfs, skip, hreq, hcount]
    · next h413 =>
      have he : (posted off req (.error (.http status))).piece = some (off, unit) := by
        simp [piece, hreq, h413]
      split
      · refine ends_modifyFs (sends_one hunit hlog he ?_)
        simp [FileState.count, counter_addCount, hfs, skip, h413]
      · exact ends_pure (sends_one hunit hlog he (by simp [hfs, skip, h413]))

end

/-- **A unit is cut into what the relay takes**: for every relay and every history of its
answers the posts for a unit come to an end, the bodies that were not refused and the skipped
records follow one another from the start of the unit, they are all of it when it is settled, and
what is counted as skipped are the single records that were refused. -/
theorem sendUnit_partitions (mtime : ℤ) (off : ℕ) (unit : Bytes) (hunit : Ends newline unit)
    (env : ℕ → Env ν) (s : State ρ) :
    let run := (sendUnit relay w path unit off mtime).alone env s
    Sends off unit s run.2 run.1 :=
  (sendUnit_ends mtime unit off s hunit).alone fun _ => trivial

theorem sendUnit_partitions_refused :
    let run := (sendUnit (fun () _ () => ((), .answered 413 none)) {} "" [97, 10, 98, 10] 0 0).alone
      (fun _ => ⟨true, true, ()⟩) (start [] 0 ())
    Sends 0 [97, 10, 98, 10] (start [] 0 ()) run.2 run.1 :=
  sendUnit_partitions _ {} "" 0 0 [97, 10, 98, 10] rfl _ _

end ArcRelay.Watcher
