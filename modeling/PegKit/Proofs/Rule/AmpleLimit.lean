import PegKit.Proofs.Rule.ErrorCount

/-! # Ample error limits

A limit that leaves room for one error for each rule changes nothing: a rule does the same with it
as without a limit.

* `Scanner.IsBlind`: an action does not look at the error limit. Rules that read code points
  themselves are blind, as only choices and repetitions look at it.
* `inOrder_withLimit`, `firstOfFrom_withLimit` and `repeatedFrom_withLimit`: no step reaches the
  limit, because the errors so far and the rules that are left are no more than it.
* `recognize_of_ample_limit`: the same answer, cursor and errors with the limit as without.
-/

namespace PegKit

namespace Scanner

/-! ## Changing the error limit -/

/-- The outcome of an action, with another error limit in the scanner. -/
def withLimit (limit : Option Nat) (out : Bool × Scanner) : Bool × Scanner :=
  (out.1, out.2.setMaxErrors limit)

section SetMaxErrors

variable (s : Scanner) (l : Option Nat)

@[simp] theorem cur_setMaxErrors : (s.setMaxErrors l).cur = s.cur := rfl

@[simp] theorem errors_setMaxErrors : (s.setMaxErrors l).errors = s.errors := rfl

@[simp] theorem peek_setMaxErrors (lit : List UInt8) :
    (s.setMaxErrors l).peek lit = s.peek lit := rfl

@[simp] theorem atEnd_setMaxErrors : (s.setMaxErrors l).atEnd = s.atEnd := rfl

@[simp] theorem remaining_setMaxErrors : (s.setMaxErrors l).remaining = s.remaining := rfl

@[simp] theorem window_setMaxErrors : (s.setMaxErrors l).window = s.window := rfl

theorem expect_setMaxErrors (kind : Kind) :
    (s.setMaxErrors l).expect kind = (s.expect kind).setMaxErrors l := rfl

theorem moveTo_setMaxErrors (m : Cursor) :
    (s.setMaxErrors l).moveTo m = (s.moveTo m).setMaxErrors l := by
  by_cases h : m.Fits s.buf.size
  · rw [moveTo_of_fits h]
    exact moveTo_of_fits h
  · rw [moveTo, moveTo, if_neg h]
    exact if_neg h

theorem failAt_setMaxErrors (m : Cursor) (kind : Kind) :
    (s.setMaxErrors l).failAt m kind = (s.failAt m kind).setMaxErrors l := by
  rw [failAt, failAt, moveTo_setMaxErrors, expect_setMaxErrors]

theorem failComposite_setMaxErrors (m : Cursor) (kind : Kind) (base : Nat) :
    (s.setMaxErrors l).failComposite m kind base =
      (s.failComposite m kind base).setMaxErrors l := by
  unfold failComposite
  rw [moveTo_setMaxErrors, apply_ite (fun t : Scanner => t.setMaxErrors l)]
  rfl

theorem advance_setMaxErrors : (s.setMaxErrors l).advance = withLimit l s.advance := by
  rw [advance, advance, window_setMaxErrors]
  cases Utf8.decode s.window with
  | malformed => rfl
  | scalar rune n =>
    -- a code point is logged with a preview, which the limit does not appear in
    rw [withLimit, apply_ite (fun t : Scanner => t.setMaxErrors l)]
    rfl

end SetMaxErrors

/-! ## Tokens -/

/-- An action does the same whatever the error limit is. -/
def IsBlind (x : Scanner → Bool × Scanner) : Prop :=
  ∀ s limit, x (s.setMaxErrors limit) = withLimit limit (x s)

theorem readOne_blind (kind : Kind) (accepts : Char → Bool) : IsBlind (readOne kind accepts) := by
  intro s l
  unfold readOne
  rw [advance_setMaxErrors]
  rcases s.advance with ⟨_ | _, t⟩
  · exact congrArg (Prod.mk false) (failAt_setMaxErrors t l s.cur kind)
  · show _ = withLimit l (if accepts t.cur.rune = true then _ else _)
    rw [apply_ite (withLimit l), withLimit, withLimit, ← failAt_setMaxErrors]
    rfl

theorem readTo_blind (offset fuel : Nat) : IsBlind (readTo offset fuel) := by
  induction fuel with
  | zero => exact fun _ _ => rfl
  | succ fuel ih =>
    intro s l
    unfold readTo
    rw [advance_setMaxErrors, cur_setMaxErrors]
    by_cases h : s.cur.stop < offset
    · rw [if_pos h, if_pos h]
      rcases s.advance with ⟨_ | _, t⟩
      · rfl
      · exact ih t l
    · rw [if_neg h, if_neg h]
      rfl

theorem readLiteral_blind (kind : Kind) (text : String) : IsBlind (readLiteral kind text) := by
  intro s l
  unfold readLiteral
  simp only [peek_setMaxErrors, cur_setMaxErrors, readTo_blind _ _ s l]
  by_cases h : s.peek (Utf8.bytes text) = true
  · rw [if_pos h, if_pos h]
    rcases readTo (s.cur.stop + (Utf8.bytes text).length) _ s with ⟨_ | _, t⟩
    · exact congrArg (Prod.mk false) (failAt_setMaxErrors t l s.cur kind)
    · rfl
  · rw [if_neg h, if_neg h]
    rfl

end Scanner

namespace Builtin

open Scanner

theorem readEndLine_blind : IsBlind readEndLine := by
  intro s l
  unfold readEndLine
  rw [peek_setMaxErrors, peek_setMaxErrors, advance_setMaxErrors]
  by_cases hlf : s.peek lineFeed = true
  · rw [if_pos hlf, if_pos hlf]
  rw [if_neg hlf, if_neg hlf]
  by_cases hcr : s.peek crLf = true
  · rw [if_pos hcr, if_pos hcr]
    rcases s.advance with ⟨_ | _, t⟩
    · rfl
    · exact advance_setMaxErrors t l
  · rw [if_neg hcr, if_neg hcr]
    rfl

theorem skipBlanks_setMaxErrors (fuel : Nat) (s : Scanner) (l : Option Nat) :
    skipBlanks fuel (s.setMaxErrors l) = (skipBlanks fuel s).setMaxErrors l := by
  induction fuel generalizing s with
  | zero => rfl
  | succ fuel ih =>
    have hb : blankAhead (s.setMaxErrors l) = blankAhead s := rfl
    rw [skipBlanks, skipBlanks, hb, advance_setMaxErrors]
    by_cases h : blankAhead s = true
    · rw [if_pos h, if_pos h]
      exact ih s.advance.2
    · rw [if_neg h, if_neg h]

/-- Where the end of the data will do, a blind action is tried only before it. -/
theorem orAtEnd_blind {x : Scanner → Bool × Scanner} (hx : IsBlind x) :
    IsBlind fun s => if s.atEnd then (true, s) else x s := by
  intro s l
  dsimp only
  rw [atEnd_setMaxErrors, hx s l, apply_ite (withLimit l)]
  rfl

theorem readBlankLine_blind : IsBlind readBlankLine := by
  intro s l
  unfold readBlankLine
  rw [readEndLine_blind]
  rcases readEndLine s with ⟨_ | _, t⟩
  · rfl
  · exact orAtEnd_blind readEndLine_blind t l

/-- An attempt is settled without a look at the error limit. -/
theorem withLimit_keepErrors_or_failAt (l : Option Nat) (out : Bool × Scanner) (m : Cursor)
    (base : Nat) (kind : Kind) :
    (if (withLimit l out).1 then (true, (withLimit l out).2.keepErrors base)
      else (false, ((withLimit l out).2.keepErrors base).failAt m kind)) =
    withLimit l (if out.1 then (true, out.2.keepErrors base)
      else (false, (out.2.keepErrors base).failAt m kind)) := by
  rcases out with ⟨_ | _, t⟩
  · exact congrArg (Prod.mk false) (failAt_setMaxErrors (t.keepErrors base) l m kind)
  · rfl

theorem readEndPara_blind : IsBlind readEndPara := by
  intro s l
  have hend := orAtEnd_blind readBlankLine_blind (skipBlanks s.remaining s) l
  unfold readEndPara
  simp only [remaining_setMaxErrors, skipBlanks_setMaxErrors]
  dsimp only at hend
  rw [hend]
  exact withLimit_keepErrors_or_failAt l _ s.cur s.errors.size endPara.kind

theorem readVisible_blind (fuel : Nat) (found : Bool) : IsBlind (readVisible fuel found) := by
  induction fuel generalizing found with
  | zero => exact fun _ _ => rfl
  | succ fuel ih =>
    intro s l
    unfold readVisible readPrintable
    rw [peek_setMaxErrors, readOne_blind]
    by_cases h : s.peek [0x20] = true
    · rw [if_pos h, if_pos h]
      rfl
    · rw [if_neg h, if_neg h]
      rcases s.readOne printable.kind _ with ⟨_ | _, t⟩
      · rfl
      · exact ih true t l

theorem readField_blind : IsBlind readField := by
  intro s l
  unfold readField
  simp only [remaining_setMaxErrors, readVisible_blind _ _ s l]
  exact withLimit_keepErrors_or_failAt l _ s.cur s.errors.size field.kind

/-- No builtin rule looks at the error limit. -/
theorem recognize_blind (b : Builtin) : IsBlind b.recognize := by
  cases b with
  | endOfData =>
    intro s l
    show (if s.atEnd then _ else _) = withLimit l (if s.atEnd then _ else _)
    rw [apply_ite (withLimit l)]
    rfl
  | whiteSpace => exact readOne_blind _ _
  | endLine => exact readEndLine_blind
  | endPara => exact readEndPara_blind
  | field => exact readField_blind
  | printable => exact readOne_blind _ _
  | digit => exact readOne_blind _ _
  | any => exact readOne_blind _ _

end Builtin

namespace Rule

open Scanner

/-- Wherever the error limit `n` leaves room for one error for each rule in it, the rule does the
same with that limit as without a limit. -/
def Overlooks (n : Nat) (r : Rule) : Prop :=
  ∀ s : Scanner, s.InBounds → s.options.maxErrors = none → s.errors.size + r.nodeCount ≤ n →
    r.recognize (s.setMaxErrors (some n)) = withLimit (some n) (r.recognize s)

variable {n : Nat} {r : Rule} {rs : List Rule} {s : Scanner} {l : Option Nat}

theorem overlooks_of_blind (h : IsBlind r.recognize) : r.Overlooks n :=
  fun s _ _ _ => h s (some n)

theorem atErrorLimit_of_none (hl : s.options.maxErrors = none) : ¬ s.atErrorLimit = true := by
  rw [atErrorLimit, hl]
  exact Bool.false_ne_true

theorem atErrorLimit_of_lt (h : s.errors.size < n) :
    ¬ (s.setMaxErrors (some n)).atErrorLimit = true :=
  fun hle => Nat.not_le_of_lt h (of_decide_eq_true hle)

/-! ## Composite rules -/

theorem recognizeComposite_withLimit (kind : Kind) {fill : ScanM Bool}
    (hf : fill (s.setMaxErrors l) = withLimit l (fill s)) :
    recognizeComposite kind fill (s.setMaxErrors l) =
      withLimit l (recognizeComposite kind fill s) := by
  unfold recognizeComposite
  rw [hf]
  rcases fill s with ⟨_ | _, t⟩
  · exact congrArg (Prod.mk false) (failComposite_setMaxErrors t l s.cur kind s.errors.size)
  · rfl

/-- The parts of a sequence that match leave the room that there was. -/
theorem inOrder_withLimit (hrs : ∀ r ∈ rs, r.IsPlain ∧ r.Overlooks n) (h : s.InBounds)
    (hl : s.options.maxErrors = none) (hroom : s.errors.size + nodeCountEach rs ≤ n) :
    (inOrder (rs.map recognize) : ScanM Bool) (s.setMaxErrors (some n)) =
      withLimit (some n) ((inOrder (rs.map recognize) : ScanM Bool) s) := by
  induction rs generalizing s with
  | nil => rfl
  | cons r rs ih =>
    rcases hrs r List.mem_cons_self with ⟨hp, ho⟩
    rw [nodeCountEach_cons] at hroom
    have hs := settles_of_plain hp h
    rw [List.map_cons, inOrder_cons, inOrder_cons, ho s h hl (by omega)]
    generalize r.recognize s = out at hs ⊢
    cases hs with
    | @matched cs log reads =>
      have hleft : (s.readOver cs log).errors.size + nodeCountEach rs ≤ n := by
        rw [errors_readOver]
        omega
      exact ih (fun r' hr' => hrs r' (List.mem_cons_of_mem r hr')) (h.readOver reads) hl hleft
    | failed => rfl

/-- An alternative of a choice that fails takes no more room than it needs itself, and what the
others need is left. -/
theorem firstOfFrom_withLimit (hrs : ∀ r ∈ rs, r.IsPlain ∧ r.Overlooks n) (kind : Kind)
    (base : Nat) (h : s.InBounds) (hl : s.options.maxErrors = none)
    (hroom : s.errors.size + nodeCountEach rs ≤ n) :
    (firstOfFrom kind base (rs.map recognize) : ScanM Bool) (s.setMaxErrors (some n)) =
      withLimit (some n) ((firstOfFrom kind base (rs.map recognize) : ScanM Bool) s) := by
  induction rs generalizing s with
  | nil => rfl
  | cons r rs ih =>
    rcases hrs r List.mem_cons_self with ⟨hp, ho⟩
    rw [nodeCountEach_cons] at hroom
    have hpos := r.nodeCount_pos
    have hk : s.SettlesWithin (s.errors.size + r.nodeCount) (r.recognize s) :=
      oncePerNode_of_plain hp none s h hl
    rw [List.map_cons, firstOfFrom_cons, firstOfFrom_cons, if_neg (atErrorLimit_of_none hl),
      if_neg (atErrorLimit_of_lt (by omega)), ho s h hl (by omega)]
    generalize r.recognize s = out at hk ⊢
    cases hk with
    | matched => rfl
    | @failed m new log means =>
      rcases means with ⟨rfl, hle⟩
      have hleft : (s.report new log).errors.size + nodeCountEach rs ≤ n := by
        rw [report, size_errors_strayed]
        omega
      have hb : (s.report new log).InBounds := h
      exact ih (fun r' hr' => hrs r' (List.mem_cons_of_mem r hr')) hb hl hleft

/-- A repetition has the room that it began with at every attempt. -/
theorem repeatedFrom_withLimit (hp : r.IsPlain) (ho : r.Overlooks n) (min attempts matched : Nat)
    (h : s.InBounds) (hl : s.options.maxErrors = none) (hroom : s.errors.size + r.nodeCount ≤ n) :
    (repeatedFrom min r.recognize attempts matched : ScanM Bool) (s.setMaxErrors (some n)) =
      withLimit (some n) ((repeatedFrom min r.recognize attempts matched : ScanM Bool) s) := by
  induction attempts generalizing s matched with
  | zero => rfl
  | succ attempts ih =>
    have hpos := r.nodeCount_pos
    have hs := settles_of_plain hp h
    rw [repeatedFrom_succ, repeatedFrom_succ, if_neg (atErrorLimit_of_none hl),
      if_neg (atErrorLimit_of_lt (by omega)), ho s h hl hroom]
    generalize r.recognize s = out at hs ⊢
    cases hs with
    | @matched cs log reads =>
      show (if (s.readOver cs log).cur.stop = s.cur.stop then _ else _) =
        withLimit (some n) (if (s.readOver cs log).cur.stop = s.cur.stop then _ else _)
      by_cases hstop : (s.readOver cs log).cur.stop = s.cur.stop
      · rw [if_pos hstop, if_pos hstop]
        rfl
      · rw [if_neg hstop, if_neg hstop]
        exact ih (matched + 1) (h.readOver reads) hl hroom
    | failed =>
      by_cases hm : min ≤ matched
      · simp only [if_pos hm]
        rfl
      · simp only [if_neg hm]
        rfl

/-! ## Lookahead -/

theorem recognizeNotAhead_withLimit (kind : Kind) {x : ScanM Bool}
    (hx : x (s.setMaxErrors l) = withLimit l (x s)) :
    recognizeNotAhead kind x (s.setMaxErrors l) = withLimit l (recognizeNotAhead kind x s) := by
  unfold recognizeNotAhead
  rw [hx]
  rcases x s with ⟨_ | _, t⟩
  · rfl
  · exact congrArg (Prod.mk false) (failAt_setMaxErrors t l s.cur kind)

theorem recognizeAhead_withLimit (kind : Kind) {x : ScanM Bool}
    (hx : x (s.setMaxErrors l) = withLimit l (x s)) :
    recognizeAhead kind x (s.setMaxErrors l) = withLimit l (recognizeAhead kind x s) := by
  unfold recognizeAhead
  rw [hx]
  rcases x s with ⟨_ | _, t⟩
  · exact congrArg (Prod.mk false) (failComposite_setMaxErrors t l s.cur kind s.errors.size)
  · exact congrArg (Prod.mk true) (moveTo_setMaxErrors t l s.cur)

/-! ## All rules -/

theorem overlooks_seq (kind : Kind) (parts : List Rule)
    (ih : ∀ r ∈ parts, r.IsPlain → r.Overlooks n) (hp : (seq kind parts).IsPlain) :
    (seq kind parts).Overlooks n := by
  intro s h hl hroom
  have hparts : ∀ r ∈ parts, r.IsPlain ∧ r.Overlooks n :=
    fun r hr => ⟨arePlain_iff.mp hp r hr, ih r hr (arePlain_iff.mp hp r hr)⟩
  rw [nodeCount_eq] at hroom
  rw [recognize, recognizeEach_eq_map]
  exact recognizeComposite_withLimit kind
    (inOrder_withLimit hparts h hl (Nat.le_of_succ_le hroom))

theorem overlooks_choice (kind : Kind) (alternatives : List Rule)
    (ih : ∀ r ∈ alternatives, r.IsPlain → r.Overlooks n)
    (hp : (choice kind alternatives).IsPlain) : (choice kind alternatives).Overlooks n := by
  intro s h hl hroom
  have hparts : ∀ r ∈ alternatives, r.IsPlain ∧ r.Overlooks n :=
    fun r hr => ⟨arePlain_iff.mp hp r hr, ih r hr (arePlain_iff.mp hp r hr)⟩
  rw [nodeCount_eq] at hroom
  rw [recognize, recognizeEach_eq_map]
  apply recognizeComposite_withLimit kind
  rw [firstOf_eq, firstOf_eq, errors_setMaxErrors]
  exact firstOfFrom_withLimit hparts kind _ h hl (Nat.le_of_succ_le hroom)

theorem overlooks_repetition (kind : Kind) (body : Rule) (min : Nat) (max : Option Nat)
    (ih : body.IsPlain → body.Overlooks n) (hp : (repetition kind body min max).IsPlain) :
    (repetition kind body min max).Overlooks n := by
  intro s h hl hroom
  have hbound : attemptBound (s.setMaxErrors (some n)) = attemptBound s := rfl
  have hbody : body.IsPlain := hp
  have hleft : s.errors.size + body.nodeCount ≤ n := Nat.le_of_succ_le hroom
  rw [recognize]
  apply recognizeComposite_withLimit kind
  rw [repeated_eq, repeated_eq, hbound]
  exact repeatedFrom_withLimit hbody (ih hbody) min _ 0 h hl hleft

theorem overlooks_notAhead (kind : Kind) (body : Rule) (ih : body.IsPlain → body.Overlooks n)
    (hp : (notAhead kind body).IsPlain) : (notAhead kind body).Overlooks n :=
  fun s h hl hroom => recognizeNotAhead_withLimit kind (ih hp s h hl (Nat.le_of_succ_le hroom))

theorem overlooks_ahead (kind : Kind) (body : Rule) (ih : body.IsPlain → body.Overlooks n)
    (hp : (ahead kind body).IsPlain) : (ahead kind body).Overlooks n :=
  fun s h hl hroom => recognizeAhead_withLimit kind (ih hp s h hl (Nat.le_of_succ_le hroom))

/-- Every rule without custom rules overlooks an ample limit. -/
theorem overlooks_of_plain (hr : r.IsPlain) : r.Overlooks n := by
  have hall : r.IsPlain → r.Overlooks n := by
    refine plain_induction overlooks_seq overlooks_choice overlooks_repetition overlooks_notAhead
      overlooks_ahead ?_ ?_ ?_ hr
    · intro kind text _
      exact overlooks_of_blind (readLiteral_blind kind text)
    · intro kind name accepts _
      exact overlooks_of_blind (readOne_blind kind accepts)
    · intro b _
      exact overlooks_of_blind (Builtin.recognize_blind b)
  exact hall hr

/-- With an error limit that leaves room for one error for each rule in it, a rule gives the same
answer as without a limit and leaves the same cursor and the same errors. -/
theorem recognize_of_ample_limit (hr : r.IsPlain) (h : s.InBounds)
    (hroom : s.errors.size + r.nodeCount ≤ n) :
    let limited := r.recognize (s.setMaxErrors (some n))
    let unlimited := r.recognize (s.setMaxErrors none)
    limited.1 = unlimited.1 ∧ limited.2.cur = unlimited.2.cur ∧
      limited.2.errors = unlimited.2.errors := by
  intro limited unlimited
  have heq : limited = withLimit (some n) unlimited :=
    overlooks_of_plain hr (s.setMaxErrors none) h rfl hroom
  rw [heq]
  exact ⟨rfl, rfl, rfl⟩

/-- A choice that fails, with an error from before and just as much room as its rules count. -/
theorem recognize_of_ample_limit_choice :
    let r := choice 1 [seq 2 [literal 3 "ab", builtin .digit], notAhead 4 (builtin .any)]
    let s : Scanner := { buf := #[0x61, 0x62], errors := #[⟨7, .origin⟩] }
    r.IsPlain ∧ s.InBounds ∧ s.errors.size + r.nodeCount ≤ 7 ∧
      (r.recognize (s.setMaxErrors (some 7))).1 = false ∧
      (r.recognize (s.setMaxErrors (some 7))).2.errors.map (·.kind) = #[7, -7, 2, 4, 1] := by
  intro r s
  have hr : r.IsPlain := ⟨⟨trivial, trivial, trivial⟩, trivial, trivial⟩
  have h : s.InBounds := ⟨Nat.le_refl 0, Nat.zero_le 2⟩
  have hroom : s.errors.size + r.nodeCount ≤ 7 := by decide +kernel
  have hrun : (r.recognize (s.setMaxErrors none)).1 = false ∧
      (r.recognize (s.setMaxErrors none)).2.errors.map (·.kind) = #[7, -7, 2, 4, 1] := by
    decide +kernel
  rcases recognize_of_ample_limit hr h hroom with ⟨hb, _, he⟩
  refine ⟨hr, h, hroom, hb.trans hrun.1, ?_⟩
  rw [he]
  exact hrun.2

end Rule

end PegKit
