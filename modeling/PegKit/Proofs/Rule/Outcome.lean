import PegKit.Proofs.Rule.Meaning
import PegKit.Proofs.Scanner.Reading
import PegKit.Rule.Recognize

/-! # Outcomes of recognition

An action on a scanner answers and leaves a scanner. `Scanner.Outcome` is the shape that this has
for every rule: after a match some code points were read, and after a failure errors were pushed.

* `Scanner.Settles` is the contract of rules, and `Scanner.Follows` the contract together with a
  meaning. `Scanner.Reads` says besides which error a failure pushes.
* `Scanner.Tries` is what is left of it for the parts of a composite rule, which may fail anywhere.
-/

namespace PegKit.Scanner

/-- The outcome of an action at `s`. After a match it has read code points `cs` with `M cs`; after a
failure the cursor is `m` and the errors `new` are on top of the stack, with `F m new`. -/
inductive Outcome (s : Scanner) (M : List Char → Prop) (F : Cursor → Array Expectation → Prop) :
    Bool × Scanner → Prop where
  | matched {cs : List Char} {log : Array Event} (reads : Utf8.encode cs <+: s.rest)
      (means : M cs) : Outcome s M F (true, s.readOver cs log)
  | failed {m : Cursor} {new : Array Expectation} {log : Array Event} (means : F m new) :
    Outcome s M F (false, s.strayed m new log)

/-- The contract of rules: a match reads code points, and a failure changes nothing but that it
pushes errors. -/
def Settles (s : Scanner) : Bool × Scanner → Prop :=
  s.Outcome (fun _ => True) fun m new => m = s.cur ∧ new ≠ #[]

/-- The contract of rules, and a match where the matcher `f` matches, over the same bytes. -/
def Follows (f : Matcher) (s : Scanner) : Bool × Scanner → Prop :=
  s.Outcome (fun cs => f s.rest = some (Utf8.encode cs).length)
    fun m new => m = s.cur ∧ new ≠ #[] ∧ f s.rest = none

/-- A match where the matcher `f` matches, over the same bytes, and else a failure that pushes one
error, for `kind` where the action began. -/
def Reads (f : Matcher) (kind : Kind) (s : Scanner) : Bool × Scanner → Prop :=
  s.Outcome (fun cs => f s.rest = some (Utf8.encode cs).length)
    fun m new => m = s.cur ∧ new = #[⟨kind, s.cur⟩] ∧ f s.rest = none

/-- A match where the matcher `f` matches, over the same bytes, and else a failure that may leave
the cursor anywhere. -/
def Tries (f : Matcher) (s : Scanner) : Bool × Scanner → Prop :=
  s.Outcome (fun cs => f s.rest = some (Utf8.encode cs).length) fun _ _ => f s.rest = none

variable {s : Scanner} {out : Bool × Scanner}

theorem Outcome.imp {M M' : List Char → Prop} {F F' : Cursor → Array Expectation → Prop}
    (hM : ∀ cs, M cs → M' cs) (hF : ∀ m new, F m new → F' m new) (h : s.Outcome M F out) :
    s.Outcome M' F' out := by
  cases h with
  | matched reads means => exact .matched reads (hM _ means)
  | failed means => exact .failed (hF _ _ means)

/-- A failure where the action began. -/
theorem Outcome.reported {M : List Char → Prop} {F : Cursor → Array Expectation → Prop}
    {new : Array Expectation} {log : Array Event} (means : F s.cur new) :
    s.Outcome M F (false, s.report new log) :=
  .failed means

/-- A match that reads nothing. -/
theorem Outcome.stayed {M : List Char → Prop} {F : Cursor → Array Expectation → Prop}
    (means : M []) : s.Outcome M F (true, s) :=
  @Outcome.matched s M F [] s.log List.nil_prefix means

/-- What follows a text that was read belongs to the outcome. -/
theorem Outcome.after {M M' : List Char → Prop} {F F' : Cursor → Array Expectation → Prop}
    {cs : List Char} {log : Array Event} (reads : Utf8.encode cs <+: s.rest)
    (hM : ∀ ds, M' ds → M (cs ++ ds)) (hF : ∀ m new, F' m new → F m new)
    (h : (s.readOver cs log).Outcome M' F' out) : s.Outcome M F out := by
  cases h with
  | matched reads' means =>
    rw [readOver_readOver]
    exact .matched (prefix_encode_append reads reads') (hM _ means)
  | failed means =>
    rw [readOver_strayed]
    exact .failed (hF _ _ means)

/-- What follows a text that was read, where the meaning is the text and the meaning of the rest. -/
theorem Tries.after {f g : Matcher} {cs : List Char} {log : Array Event}
    (reads : Utf8.encode cs <+: s.rest)
    (hf : f s.rest = (g (s.readOver cs log).rest).map ((Utf8.encode cs).length + ·))
    (h : (s.readOver cs log).Tries g out) : s.Tries f out := by
  refine Outcome.after reads ?_ ?_ h
  · intro ds hM
    rw [hf, hM, Utf8.encode_append, List.length_append]
    rfl
  · intro m new hF
    rw [hf, hF]
    rfl

theorem Reads.follows {f : Matcher} {kind : Kind} (h : s.Reads f kind out) : s.Follows f out := by
  refine h.imp (fun _ => id) ?_
  rintro m new ⟨hm, rfl, hf⟩
  exact ⟨hm, by simp, hf⟩

/-- An attempt is settled by forgetting its errors and, if it failed, going back and leaving one. -/
theorem Tries.keepErrors_or_failAt {f : Matcher} {kind : Kind} (h : s.InBounds)
    (ht : s.Tries f out) :
    s.Reads f kind
      (if out.1 then (true, out.2.keepErrors s.errors.size)
        else (false, (out.2.keepErrors s.errors.size).failAt s.cur kind)) := by
  cases ht with
  | @matched cs log reads means =>
    show s.Reads f kind (true, (s.readOver cs log).keepErrors s.errors.size)
    rw [readOver_eq_strayed, keepErrors_strayed, ← readOver_eq_strayed]
    exact .matched reads means
  | @failed m new log means =>
    show s.Reads f kind
      (false, ((s.strayed m new log).keepErrors s.errors.size).failAt s.cur kind)
    rw [keepErrors_strayed, failAt_strayed h, Array.empty_append]
    exact .reported ⟨rfl, rfl, means⟩

theorem Follows.tries {f : Matcher} (h : s.Follows f out) : s.Tries f out :=
  h.imp (fun _ => id) fun _ _ hF => hF.2.2

/-- A match that reads something counts once more than what repetition makes of the bytes behind
it. -/
theorem greedy_of_reads {f : Matcher} {max : Option Nat} {cs ds : List Char} {log : Array Event}
    {count : Nat} (hm : max ≠ some 0) (hne : cs ≠ []) (reads : Utf8.encode cs <+: s.rest)
    (means : f s.rest = some (Utf8.encode cs).length)
    (hg : Matcher.greedy f (max.map (· - 1)) (s.readOver cs log).rest =
      (count, (Utf8.encode ds).length)) :
    Matcher.greedy f max s.rest = (count + 1, (Utf8.encode (cs ++ ds)).length) := by
  have hpos : 0 < (Utf8.encode cs).length :=
    Nat.pos_of_ne_zero fun h0 => hne (Utf8.length_encode_eq_zero.mp h0)
  rw [Matcher.greedy_of_some hm means hpos reads.length_le, ← rest_readOver, hg, Utf8.encode_append,
    List.length_append]

/-- The error that a composite rule adds to the errors `new` of its parts: one of its own if it is
typed or there are none. -/
def ownError (s : Scanner) (kind : Kind) (new : Array Expectation) : Array Expectation :=
  if kind ≠ untyped ∨ new = #[] then #[⟨kind, s.cur⟩] else #[]

theorem append_ownError_ne (s : Scanner) (kind : Kind) (new : Array Expectation) :
    new ++ s.ownError kind new ≠ #[] := by
  unfold ownError
  split
  · simp
  · next hn =>
    simp only [not_or] at hn
    simpa using hn.2

/-- A composite rule that fails goes back to where it began and leaves the errors of its parts, and
perhaps its own. -/
theorem failComposite_strayed {m : Cursor} {new : Array Expectation} {log : Array Event}
    (h : s.InBounds) (kind : Kind) :
    (s.strayed m new log).failComposite s.cur kind s.errors.size =
      s.report (new ++ s.ownError kind new) log := by
  rw [failComposite, moveTo_strayed h, ownError]
  by_cases hk : kind ≠ untyped ∨ new = #[]
  -- a typed rule names itself, and an untyped one does if nothing else was named
  · have hc : (decide (kind ≠ untyped) ||
        decide ((s.report new log).errors.size ≤ s.errors.size)) = true := by
      rcases hk with hk | rfl
      · simp [hk]
      · simp [report, strayed]
    simp only [hc, if_true, if_pos hk]
    simp [expect, pushError, report, strayed]
  · have hu : ¬ kind ≠ untyped := fun he => hk (Or.inl he)
    have hpos : 0 < new.size := Array.size_pos_iff.mpr fun he => hk (Or.inr he)
    -- an untyped rule leaves it at the errors of its parts
    have hc : (decide (kind ≠ untyped) ||
        decide ((s.report new log).errors.size ≤ s.errors.size)) = false := by
      rw [report, size_errors_strayed]
      simp only [hu, decide_false, Bool.false_or, decide_eq_false_iff_not]
      omega
    simp only [hc, if_neg hk, Array.append_empty]
    rfl

end PegKit.Scanner
