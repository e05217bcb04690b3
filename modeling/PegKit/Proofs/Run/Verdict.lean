import PegKit.Proofs.Rule.Building
import PegKit.Proofs.Run.ErrorLimit
import PegKit.Proofs.Scanner.Locating

/-! # The verdict of a run

What recognising and parsing an input come to at the top level.

* `conclude_eq`: how the outcome follows from whether the rule matched and what it left.
* `Run.Explains`: what the failure of a run says, and where it says it is.
* `recognize_and_parse_verdict`: recognising and parsing agree, and the failure explains itself.
-/

namespace PegKit.Run

open Scanner

/-- The failure of a run over which the rule left the scanner `s`. -/
structure Explains (o : Options) (matched : Bool) (s : Scanner) (f : Failure) : Prop where
  errors_ne_nil : f.errors ≠ []
  /-- Each error is located where its place ends. -/
  locations_eq : f.locations = f.errors.map fun e => ({ s with cur := e.place } : Scanner).location
  incomplete_iff : f.reason = .incomplete ↔ matched = true
  errors_of_matched : matched = true → f.errors = [⟨Builtin.endOfData.kind, s.cur⟩]
  errors_of_failed : matched = false → f.errors = s.errors.toList
  errorLimit_iff : matched = false → ∀ n, f.reason = .errorLimit n ↔
    o.maxErrors = some n ∧ n ≤ f.errors.length
  rejected_iff : matched = false → (f.reason = .rejected ↔
    ∀ n, o.maxErrors = some n → f.errors.length < n)

/-! ## Reasons -/

section Reason

variable {s : Scanner}

theorem mismatchReason_eq_errorLimit_iff (n : Nat) : mismatchReason s = .errorLimit n ↔
    s.options.maxErrors = some n ∧ n ≤ s.errors.size := by
  rw [mismatchReason, atErrorLimit]
  cases s.options.maxErrors with
  | none => simp
  | some max =>
    by_cases hm : max ≤ s.errors.size
    · simp only [Option.any_some, hm, decide_true, if_true, Failure.Reason.errorLimit.injEq,
        Option.some.injEq]
      exact ⟨fun h => ⟨h, h ▸ hm⟩, And.left⟩
    · simp only [Option.any_some, hm, decide_false, Bool.false_eq_true, if_false, reduceCtorEq,
        Option.some.injEq, false_iff]
      rintro ⟨rfl, hn⟩
      exact hm hn

theorem mismatchReason_eq_rejected_iff : mismatchReason s = .rejected ↔
    ∀ n, s.options.maxErrors = some n → s.errors.size < n := by
  rw [mismatchReason, atErrorLimit]
  cases s.options.maxErrors with
  | none => simp
  | some max => simp

theorem mismatchReason_ne_incomplete : mismatchReason s ≠ .incomplete := by
  rw [mismatchReason]
  split
  · split <;> exact nofun
  · exact nofun

/-- Each error of a failure is located by itself. -/
theorem locations_of (s : Scanner) (reason : Failure.Reason) : (Failure.of s reason).locations =
    (Failure.of s reason).errors.map fun e => ({ s with cur := e.place } : Scanner).location := by
  simp only [Failure.of, locate_eq_map, location_eq, List.map_map]
  rfl

end Reason

/-! ## Outcomes -/

section Outcome

variable {r : Rule} {s : Scanner} {o : Options} {matched : Bool} {f : Failure}

/-- A run fails where its rule failed, and where input is left over that must not be. -/
theorem conclude_eq (r : Rule) (matched : Bool) (s : Scanner) : (conclude r matched s).1 =
    if matched = false then .error (.of s (mismatchReason s))
    else if s.atEnd = true ∨ s.options.allowPartial = true then .ok ()
    else .error (.of (s.expect Builtin.endOfData.kind) .incomplete) := by
  cases matched with
  | false => rfl
  | true =>
    rw [if_neg (Bool.noConfusion ·)]
    by_cases hd : s.atEnd = true ∨ s.options.allowPartial = true
    · have hc : (!s.atEnd && !s.options.allowPartial) = false := by
        rcases hd with hd | hd <;> simp [hd]
      rw [if_pos hd]
      simp only [conclude, hc]
      rfl
    · have hc : (!s.atEnd && !s.options.allowPartial) = true := by
        simpa [not_or] using hd
      rw [if_neg hd]
      simp only [conclude, hc]
      rfl

theorem conclude_eq_ok_iff : (conclude r matched s).1 = .ok () ↔
    matched = true ∧ (s.atEnd = true ∨ s.options.allowPartial = true) := by
  rw [conclude_eq]
  cases matched with
  | false => simp
  | true =>
    rw [if_neg (Bool.noConfusion ·)]
    split
    · next hd => exact ⟨fun _ => ⟨rfl, hd⟩, fun _ => rfl⟩
    · next hd => exact ⟨nofun, fun h => absurd h.2 hd⟩

/-- A failure explains itself, if the rule left errors exactly where it failed. -/
theorem explains_of_error (ho : s.options = o) (hclean : matched = true → s.errors = #[])
    (hreport : matched = false → s.errors ≠ #[]) (he : (conclude r matched s).1 = .error f) :
    Explains o matched s f := by
  rw [conclude_eq] at he
  cases matched with
  | false =>
    cases he
    have hne : s.errors.toList ≠ [] := fun hnil => hreport rfl (Array.toList_eq_nil_iff.mp hnil)
    constructor
    case errors_ne_nil => exact hne
    case locations_eq => exact locations_of s _
    case incomplete_iff =>
      exact ⟨fun h => absurd h mismatchReason_ne_incomplete, (Bool.noConfusion ·)⟩
    case errors_of_matched => exact (Bool.noConfusion ·)
    case errors_of_failed => exact fun _ => rfl
    case errorLimit_iff => exact fun _ n => ho ▸ mismatchReason_eq_errorLimit_iff n
    case rejected_iff => exact fun _ => ho ▸ mismatchReason_eq_rejected_iff
  | true =>
    rw [if_neg (Bool.noConfusion ·)] at he
    split at he
    · cases he
    cases he
    have herrors : (s.expect Builtin.endOfData.kind).errors.toList =
        [⟨Builtin.endOfData.kind, s.cur⟩] := by
      rw [expect, pushError, hclean rfl]
      rfl
    constructor
    case errors_ne_nil =>
      show (s.expect Builtin.endOfData.kind).errors.toList ≠ []
      rw [herrors]
      exact List.cons_ne_nil _ _
    case locations_eq => exact locations_of _ _
    case incomplete_iff => exact ⟨fun _ => rfl, fun _ => rfl⟩
    case errors_of_matched => exact fun _ => herrors
    case errors_of_failed => exact (Bool.noConfusion ·)
    case errorLimit_iff => exact (Bool.noConfusion ·)
    case rejected_iff => exact (Bool.noConfusion ·)

end Outcome

/-! ## Runs -/

section Runs

variable {r : Rule} {input : Array UInt8} {o : Options}

theorem recognize_map (r : Rule) (input : Array UInt8) (o : Options) :
    (recognize r input o).1.map (fun _ => ()) =
      (conclude r (r.recognize (start r input o)).1 (r.recognize (start r input o)).2).1 := by
  rw [recognize]
  rcases r.recognize (start r input o) with ⟨matched, s⟩
  dsimp only
  rcases conclude r matched s with ⟨e | _, s'⟩ <;> rfl

/-- A rule without custom rules leaves errors exactly where it fails, and never touches the
options. -/
theorem left_of_plain (hr : r.IsPlain) (input : Array UInt8) (o : Options) :
    (r.recognize (start r input o)).2.options = o ∧
      ((r.recognize (start r input o)).1 = true → (r.recognize (start r input o)).2.errors = #[]) ∧
      ((r.recognize (start r input o)).1 = false →
        (r.recognize (start r input o)).2.errors ≠ #[]) := by
  have hs := Rule.settles_of_plain hr (start_inBounds r input o)
  generalize r.recognize (start r input o) = out at hs ⊢
  cases hs with
  | matched => exact ⟨rfl, fun _ => rfl, nofun⟩
  | @failed m new log means =>
    refine ⟨rfl, nofun, fun _ => ?_⟩
    show #[] ++ new ≠ #[]
    rw [Array.empty_append]
    exact means.2

/-- Parsing comes to what recognising comes to. -/
theorem parse_of_plain (hr : r.IsPlain) (input : Array UInt8) (o : Options) :
    ∃ out, parse r input o = .ok (out, (recognize r input o).2) ∧
      out.map (fun _ => ()) = (recognize r input o).1.map fun _ => () := by
  rcases Rule.parse_run_of_plain hr (start r input o) Tree.sound_empty with ⟨root, u, he, hsome⟩
  rw [recognize_map, parse, he, recognize]
  generalize r.recognize (start r input o) = out at hsome ⊢
  rcases out with ⟨matched, s⟩
  obtain rfl : root.isSome = matched := hsome
  simp only [bind, Except.bind]
  cases root with
  | none => exact ⟨_, rfl, rfl⟩
  | some id =>
    rw [Option.isSome_some]
    rcases conclude r true s with ⟨e | _, s'⟩
    · exact ⟨_, rfl, rfl⟩
    · exact ⟨_, rfl, rfl⟩

/-- Recognising and parsing give one verdict and, if it is against the input, one failure, which
explains itself. The verdict is for the input where the rule matches from the start, and up to the
end unless the options allow otherwise. -/
theorem recognize_and_parse_verdict (hr : r.IsPlain) (input : Array UInt8) (o : Options) :
    let matched := (r.recognize (start r input o)).1
    let s := (r.recognize (start r input o)).2
    (∃ out, parse r input o = .ok (out, (recognize r input o).2) ∧
      out.map (fun _ => ()) = (recognize r input o).1.map fun _ => ()) ∧
    ((∃ c, (recognize r input o).1 = .ok c) ↔
      matched = true ∧ (s.atEnd = true ∨ o.allowPartial = true)) ∧
    ∀ f, (recognize r input o).1 = .error f → Explains o matched s f := by
  intro matched s
  rcases left_of_plain hr input o with ⟨ho, hclean, hreport⟩
  have hmap : (recognize r input o).1.map (fun _ => ()) = (conclude r matched s).1 :=
    recognize_map r input o
  refine ⟨parse_of_plain hr input o, ?_, ?_⟩
  · have hok : (conclude r matched s).1 = .ok () ↔ _ := conclude_eq_ok_iff
    rw [← hmap, ho] at hok
    rw [← hok]
    constructor
    · rintro ⟨c, hc⟩
      rw [hc]
      rfl
    · intro hu
      cases hc : (recognize r input o).1 with
      | ok c => exact ⟨c, rfl⟩
      | error e =>
        rw [hc] at hu
        cases hu
  · intro f hf
    rw [hf] at hmap
    exact explains_of_error ho hclean hreport hmap.symm

/-- Digits up to a letter that must not be left over, on the second line. -/
theorem recognize_and_parse_verdict_leftover :
    let r := Rule.seq 1 [.builtin .endLine, .oneOrMore 2 (.builtin .digit)]
    let input : Array UInt8 := #[0x0A, 0x31, 0x32, 0x61]
    r.IsPlain ∧ ∃ f out s, (recognize r input {}).1 = .error f ∧
      parse r input {} = .ok (out, s) ∧ out.map (fun _ => ()) = .error f ∧
      f.reason = .incomplete ∧ f.errors = [⟨-1, Char.ofNat 0x32, 2, 3⟩] ∧
      f.locations = [⟨Char.ofNat 0x32, 3, 3, 2, 2, 2⟩] := by
  intro r input
  have hr : r.IsPlain := ⟨trivial, trivial, trivial⟩
  rcases recognize_and_parse_verdict hr input {} with ⟨⟨out, hp, hsame⟩, hok, hexplains⟩
  have hm : (r.recognize (start r input {})).1 = true := by decide +kernel
  have hcur : (r.recognize (start r input {})).2.cur = ⟨Char.ofNat 0x32, 2, 3⟩ := by
    decide +kernel
  have hend : (r.recognize (start r input {})).2.atEnd = false := by decide +kernel
  cases hf : (recognize r input {}).1 with
  | ok c =>
    rcases (hok.mp ⟨c, hf⟩).2 with h | h
    · rw [hend] at h
      cases h
    · cases h
  | error f =>
    have he := hexplains f hf
    have herrors := he.errors_of_matched hm
    have hlocations := he.locations_eq
    rw [hcur] at herrors
    rw [herrors, List.map_singleton] at hlocations
    rw [hf] at hsame
    refine ⟨hr, f, out, _, rfl, hp, hsame, he.incomplete_iff.mpr hm, herrors, ?_⟩
    rw [hlocations]
    decide +kernel

end Runs

end PegKit.Run
