import PegKit.Proofs.Rule.Contract

/-! # Fixed counts

A repetition of exactly `n` matches beside a sequence of `n` copies of the body, without an error
limit. The repetition ends after a match that consumes nothing, and the sequence goes on.

* `Rule.StallsBefore`: a match consumes nothing while more are to come.
* `runCopies_of_empty`: where the body matches without consuming, it does so any number of times.
* `repeatedFrom_exact`: the repetition and the copies side by side, one match at a time.
* `recognize_exactly_iff`: they agree exactly if the body does not stall.
-/

namespace PegKit.Rule

open Scanner

/-- Of `n` matches one after the other, one before the last consumes nothing. -/
def StallsBefore (r : Rule) (n : Nat) (s : Scanner) : Prop :=
  ∃ i t, i + 1 < n ∧ (seq untyped (List.replicate i r)).recognize s = (true, t) ∧
    (r.recognize t).1 = true ∧ (r.recognize t).2.cur.stop = t.cur.stop

variable {r : Rule} {s t : Scanner} {n : Nat}

/-! ## Copies in a row -/

/-- Runs a rule `n` times in a row; whether it matched each time. -/
def runCopies (r : Rule) (n : Nat) : ScanM Bool :=
  inOrder (List.replicate n r.recognize)

theorem runCopies_zero (r : Rule) (s : Scanner) : r.runCopies 0 s = (true, s) := rfl

theorem runCopies_succ_of_matched (h : r.recognize s = (true, t)) (n : Nat) :
    r.runCopies (n + 1) s = r.runCopies n t := by
  rw [runCopies, List.replicate_succ, inOrder_cons, h]
  rfl

theorem runCopies_succ_of_failed (h : r.recognize s = (false, t)) (n : Nat) :
    r.runCopies (n + 1) s = (false, t) := by
  rw [runCopies, List.replicate_succ, inOrder_cons, h]

theorem recognize_copies (r : Rule) (n : Nat) :
    (seq untyped (List.replicate n r)).recognize = recognizeComposite untyped (r.runCopies n) := by
  rw [recognize, recognizeEach_eq_map, List.map_replicate, runCopies]

theorem recognize_copies_eq_true_iff :
    (seq untyped (List.replicate n r)).recognize s = (true, t) ↔ r.runCopies n s = (true, t) := by
  rw [recognize_copies]
  unfold recognizeComposite
  rcases r.runCopies n s with ⟨_ | _, s'⟩
  · exact ⟨nofun, nofun⟩
  · exact Iff.rfl

theorem copies_plain (hr : r.IsPlain) (n : Nat) : (seq untyped (List.replicate n r)).IsPlain :=
  arePlain_iff.mpr fun _ hp => List.eq_of_mem_replicate hp ▸ hr

/-! ## Stalling -/

theorem stallsBefore_iff : r.StallsBefore n s ↔ ∃ i t, i + 1 < n ∧ r.runCopies i s = (true, t) ∧
    (r.recognize t).1 = true ∧ (r.recognize t).2.cur.stop = t.cur.stop := by
  simp only [StallsBefore, recognize_copies_eq_true_iff]

theorem not_stallsBefore_zero : ¬ r.StallsBefore 0 s := by
  rintro ⟨i, _, hi, _⟩
  exact Nat.not_lt_zero _ hi

theorem not_stallsBefore_one : ¬ r.StallsBefore 1 s := by
  rintro ⟨i, _, hi, _⟩
  omega

theorem not_stallsBefore_of_failed (h : r.recognize s = (false, t)) : ¬ r.StallsBefore n s := by
  rw [stallsBefore_iff]
  rintro ⟨i, u, _, hu, hm, _⟩
  cases i with
  | zero =>
    cases hu
    rw [h] at hm
    cases hm
  | succ i =>
    rw [runCopies_succ_of_failed h] at hu
    cases hu

theorem stallsBefore_of_empty (h : r.recognize s = (true, t)) (hstop : t.cur.stop = s.cur.stop)
    (hn : 1 < n) : r.StallsBefore n s := by
  rw [stallsBefore_iff]
  refine ⟨0, s, hn, rfl, ?_, ?_⟩
  · rw [h]
  · rw [h]
    exact hstop

/-- Behind a match that consumes something it is one match less. -/
theorem stallsBefore_succ (h : r.recognize s = (true, t)) (hstop : t.cur.stop ≠ s.cur.stop) :
    r.StallsBefore (n + 1) s ↔ r.StallsBefore n t := by
  rw [stallsBefore_iff, stallsBefore_iff]
  constructor
  · rintro ⟨i, u, hi, hu, hm, hs⟩
    cases i with
    | zero =>
      cases hu
      rw [h] at hs
      exact absurd hs hstop
    | succ i =>
      rw [runCopies_succ_of_matched h] at hu
      exact ⟨i, u, Nat.lt_of_succ_lt_succ hi, hu, hm, hs⟩
  · rintro ⟨i, u, hi, hu, hm, hs⟩
    refine ⟨i + 1, u, Nat.succ_lt_succ hi, ?_, hm, hs⟩
    rw [runCopies_succ_of_matched h, hu]

/-- Where a match consumes nothing, there are any number of them. -/
theorem runCopies_of_empty (hr : r.IsPlain) (h : s.InBounds) (hl : s.options.maxErrors = none)
    (he : r.meaning s.rest = some 0) (n : Nat) : (r.runCopies n s).1 = true := by
  -- each copy leaves the bytes ahead for the next one
  induction n generalizing s with
  | zero => rfl
  | succ n ih =>
    have hf := follows_of_plain hr h hl
    generalize hout : r.recognize s = out at hf
    cases hf with
    | @matched cs log reads means =>
      have hcs : cs = [] :=
        Utf8.length_encode_eq_zero.mp (Option.some.inj (means.symm.trans he))
      subst hcs
      rw [runCopies_succ_of_matched hout]
      exact ih (h.readOver reads) hl he
    | failed means => exact absurd (he.symm.trans means.2.2) (Option.some_ne_none 0)

/-! ## Side by side -/

/-- Two runs fail both or match both and leave the same, but where the first stalls it fails and the
second matches. -/
structure MatchesUnless (stalls : Prop) (out out' : Bool × Scanner) : Prop where
  stalled : stalls → out.1 = false ∧ out'.1 = true
  answer_eq : ¬ stalls → out.1 = out'.1
  eq_of_matched : ¬ stalls → out'.1 = true → out = out'

section MatchesUnless

variable {stalls : Prop} {out out' : Bool × Scanner}

theorem MatchesUnless.of_eq (hno : ¬ stalls) (h : out = out') : MatchesUnless stalls out out' where
  stalled hst := absurd hst hno
  answer_eq _ := congrArg Prod.fst h
  eq_of_matched _ _ := h

theorem MatchesUnless.of_failed (hno : ¬ stalls) (h : out.1 = false) (h' : out'.1 = false) :
    MatchesUnless stalls out out' where
  stalled hst := absurd hst hno
  answer_eq _ := h.trans h'.symm
  eq_of_matched _ hm := absurd (hm.symm.trans h') Bool.false_ne_true.symm

theorem MatchesUnless.of_stalled (hst : stalls) (h : out.1 = false) (h' : out'.1 = true) :
    MatchesUnless stalls out out' where
  stalled _ := ⟨h, h'⟩
  answer_eq hno := absurd hst hno
  eq_of_matched hno := absurd hst hno

end MatchesUnless

/-- A repetition that needs all the attempts it has left, and as many copies in a row. -/
theorem repeatedFrom_exact (hr : r.IsPlain) (h : s.InBounds) (hl : s.options.maxErrors = none)
    {min attempts matched : Nat} (hmin : matched + attempts = min) :
    MatchesUnless (r.StallsBefore attempts s)
      ((repeatedFrom min r.recognize attempts matched : ScanM Bool) s)
      (r.runCopies attempts s) := by
  -- on the attempts, which are what the count of matches lacks
  induction attempts generalizing s matched with
  | zero =>
    refine .of_eq not_stallsBefore_zero ?_
    show (decide (min ≤ matched), s) = (true, s)
    rw [decide_eq_true (by omega)]
  | succ attempts ih =>
    have hlim : ¬ s.atErrorLimit = true := by
      rw [atErrorLimit, hl]
      exact Bool.false_ne_true
    have hf := follows_of_plain hr h hl
    rw [repeatedFrom_succ, if_neg hlim]
    generalize hout : r.recognize s = out at hf ⊢
    cases hf with
    | failed means =>
      refine .of_failed (not_stallsBefore_of_failed hout) (decide_eq_false (by omega)) ?_
      rw [runCopies_succ_of_failed hout]
    | @matched cs log reads means =>
      have hstop : (s.readOver cs log).cur.stop = s.cur.stop + (Utf8.encode cs).length :=
        Cursor.stop_across s.cur cs
      dsimp only
      by_cases hne : (Utf8.encode cs).length = 0
      · rw [hne, Nat.add_zero] at hstop
        rw [hne] at means
        rw [if_pos hstop]
        cases attempts with
        | zero =>
          -- the last match, of which nothing more is asked
          refine .of_eq not_stallsBefore_one ?_
          rw [runCopies_succ_of_matched hout, runCopies_zero, decide_eq_true (by omega)]
        | succ attempts =>
          have hmore : 1 < attempts + 1 + 1 := Nat.lt_add_left attempts Nat.one_lt_two
          exact .of_stalled (stallsBefore_of_empty hout hstop hmore) (decide_eq_false (by omega))
            (runCopies_of_empty hr h hl means _)
      · have hmoved : (s.readOver cs log).cur.stop ≠ s.cur.stop := by omega
        rw [if_neg hmoved, stallsBefore_succ hout hmoved, runCopies_succ_of_matched hout]
        exact ih (h.readOver reads) hl (by omega)

theorem cur_of_failed (hr : r.IsPlain) (h : s.InBounds) (hf : (r.recognize s).1 = false) :
    (r.recognize s).2.cur = s.cur := by
  have hs := settles_of_plain hr h
  generalize r.recognize s = out at hs hf ⊢
  cases hs with
  | matched => cases hf
  | failed means => exact means.1

/-- Without an error limit, a repetition of exactly `n` matches and a sequence of `n` copies give
the same answer and leave the same cursor, unless one of the matches before the last consumes
nothing. In that case the sequence matches and the repetition fails. -/
theorem recognize_exactly_iff (hr : r.IsPlain) (h : s.InBounds)
    (hl : s.options.maxErrors = none) (n : Nat) :
    let rep := (repetition untyped r n (some n)).recognize s
    let copies := (seq untyped (List.replicate n r)).recognize s
    (rep.1 = copies.1 ∧ rep.2.cur = copies.2.cur ↔ ¬ r.StallsBefore n s) ∧
      (r.StallsBefore n s → rep.1 = false ∧ copies.1 = true) := by
  intro rep copies
  have hrep : rep.1 = ((repeatedFrom n r.recognize n 0 : ScanM Bool) s).1 :=
    recognizeComposite_fst s untyped _
  have hcopies : copies.1 = (r.runCopies n s).1 := by
    show ((seq untyped (List.replicate n r)).recognize s).1 = _
    rw [recognize_copies]
    exact recognizeComposite_fst s untyped _
  have hu := repeatedFrom_exact hr h hl (Nat.zero_add n)
  have hstalled : r.StallsBefore n s → rep.1 = false ∧ copies.1 = true := by
    rw [hrep, hcopies]
    exact hu.stalled
  refine ⟨⟨?_, ?_⟩, hstalled⟩
  · rintro ⟨hsame, _⟩ hst
    rcases hstalled hst with ⟨hfails, hmatches⟩
    rw [hfails, hmatches] at hsame
    cases hsame
  · intro hno
    have hsame : rep.1 = copies.1 := by
      rw [hrep, hcopies]
      exact hu.answer_eq hno
    refine ⟨hsame, ?_⟩
    cases hm : copies.1 with
    | false =>
      -- both go back to where they began
      have hrepPlain : (repetition untyped r n (some n)).IsPlain := hr
      exact (cur_of_failed hrepPlain h (hsame.trans hm)).trans
        (cur_of_failed (copies_plain hr n) h hm).symm
    | true =>
      have hmatched : (r.runCopies n s).1 = true := hcopies.symm.trans hm
      have hrun : r.runCopies n s = (true, (r.runCopies n s).2) := Prod.ext hmatched rfl
      have hrep' : rep = (true, (r.runCopies n s).2) :=
        recognizeComposite_of_matched ((hu.eq_of_matched hno hmatched).trans hrun) untyped
      have hcopies' : copies = (true, (r.runCopies n s).2) :=
        recognize_copies_eq_true_iff.mpr hrun
      rw [hrep', hcopies']

/-- A digit or the end of the data, before one digit: the second match consumes nothing, which a
count of two allows and a count of three does not. -/
theorem recognize_exactly_iff_digit :
    let r := choice untyped [builtin .digit, builtin .endOfData]
    let s := Scanner.ofText "7"
    r.IsPlain ∧ s.InBounds ∧ s.options.maxErrors = none ∧
      ((repetition untyped r 2 (some 2)).recognize s).2.cur =
        ((seq untyped (List.replicate 2 r)).recognize s).2.cur ∧
      ((repetition untyped r 3 (some 3)).recognize s).1 = false ∧
      ((seq untyped (List.replicate 3 r)).recognize s).1 = true := by
  intro r s
  have hr : r.IsPlain := ⟨trivial, trivial, trivial⟩
  have h : s.InBounds := ⟨by decide, by decide⟩
  have htwo : ¬ r.StallsBefore 2 s := by
    rw [stallsBefore_iff]
    rintro ⟨i, t, hi, ht, _, hstop⟩
    obtain rfl : i = 0 := by omega
    cases ht
    revert hstop
    decide +kernel
  have hthree : r.StallsBefore 3 s := by
    have hrun : r.runCopies 1 s = (true, (r.runCopies 1 s).2) := by
      refine Prod.ext ?_ rfl
      decide +kernel
    exact stallsBefore_iff.mpr
      ⟨1, _, Nat.lt_succ_self 2, hrun, by decide +kernel, by decide +kernel⟩
  refine ⟨hr, h, rfl, ((recognize_exactly_iff hr h rfl 2).1.mpr htwo).2, ?_⟩
  exact (recognize_exactly_iff hr h rfl 3).2 hthree

/-- At the end of the data it can be found twice, but not counted twice. -/
theorem recognize_exactly_differs :
    ¬ ∀ (r : Rule) (s : Scanner) (n : Nat), r.IsPlain → s.InBounds →
      s.options.maxErrors = none →
        ((repetition untyped r n (some n)).recognize s).1 =
          ((seq untyped (List.replicate n r)).recognize s).1 ∧
        ((repetition untyped r n (some n)).recognize s).2.cur =
          ((seq untyped (List.replicate n r)).recognize s).2.cur := by
  intro hall
  have hsame := (hall (builtin .endOfData) (Scanner.ofText "") 2 trivial
    ⟨Nat.le_refl 0, Nat.le_refl 0⟩ rfl).1
  revert hsame
  decide +kernel

end PegKit.Rule
