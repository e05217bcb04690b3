import PegKit.Proofs.Rule.Outcome

/-! # What tokens read

Rules that read code points themselves follow their meaning, whatever the error limit: none of them
heeds it. Where such a rule fails it pushes one error, its own.

* `readOne_reads` and `readLiteral_reads`.
* `skipBlanks_spec` and `readVisible_spec`: a loop reads as much as repetition does.
* `recognize_reads`: every builtin rule reads what the pattern says that describes it.
-/

namespace PegKit

namespace Scanner

variable {s : Scanner}

/-! ## One code point -/

/-- A class reads the code point that comes next if there is one and it is accepted. -/
theorem readOne_cases (h : s.InBounds) (kind : Kind) (accepts : Char → Bool) :
    (∃ c log, String.utf8EncodeChar c <+: s.rest ∧ accepts c = true ∧
        s.readOne kind accepts = (true, s.readOver [c] log)) ∨
      (∀ c, String.utf8EncodeChar c <+: s.rest → accepts c = false) ∧
        ∃ log, s.readOne kind accepts = (false, s.report #[⟨kind, s.cur⟩] log) := by
  rcases s.advance_cases with ⟨c, log, hc, ha⟩ | ⟨⟨n, hn⟩, ha⟩
  · rw [readOne, ha]
    cases hac : accepts c with
    | true =>
      have hr : (s.readOver [c] log).cur.rune = c := rfl
      exact Or.inl ⟨c, log, hc, hac, by simp only [hr, hac, if_true]⟩
    | false =>
      refine Or.inr ⟨?_, log, ?_⟩
      · intro d hd
        -- the bytes ahead begin with one code point only
        rw [Utf8.char_eq_of_prefix_both hd hc]
        exact hac
      · have hr : (s.readOver [c] log).cur.rune = c := rfl
        simp only [hr, hac]
        rw [readOver_eq_strayed, if_neg (by decide), failAt_strayed h, Array.empty_append]
  · refine Or.inr ⟨?_, s.log, ?_⟩
    · intro c hc
      -- bytes that are malformed begin with no code point
      rw [Utf8.decode_eq_scalar_iff.mpr ⟨hc, rfl⟩] at hn
      cases hn
    · rw [readOne, ha]
      show (false, s.failAt s.cur kind) = _
      rw [failAt, moveTo_cur h, expect_eq_report]

theorem readOne_reads (h : s.InBounds) (kind : Kind) (accepts : Char → Bool) :
    s.Reads (Matcher.one accepts) kind (s.readOne kind accepts) := by
  rcases readOne_cases h kind accepts with ⟨c, log, hc, ha, hr⟩ | ⟨hno, log, hr⟩
  · rw [hr]
    rw [← Utf8.encode_singleton] at hc
    refine .matched hc (Matcher.one_eq_some_iff.mpr ⟨c, ha, ?_, ?_⟩)
    · rwa [Utf8.encode_singleton] at hc
    · rw [Utf8.encode_singleton]
  · rw [hr]
    exact .reported ⟨rfl, rfl, Matcher.one_eq_none_iff.mpr hno⟩

/-! ## Literals -/

/-- A text that comes next is read as a whole. -/
theorem readTo_of_prefix {cs : List Char} (hc : Utf8.encode cs <+: s.rest) {fuel : Nat}
    (hf : cs.length ≤ fuel) :
    ∃ log, readTo (s.cur.stop + (Utf8.encode cs).length) fuel s = (true, s.readOver cs log) := by
  -- on the code points that are left; the place to read up to stays the same
  induction cs generalizing s fuel with
  | nil =>
    refine ⟨s.log, ?_⟩
    cases fuel with
    | zero => rfl
    | succ fuel =>
      rw [readTo, if_neg (by simp [Utf8.encode_nil])]
      rfl
  | cons c cs ih =>
    have hpos := Utf8.length_utf8EncodeChar_pos c
    obtain ⟨fuel, rfl⟩ : ∃ k, fuel = k + 1 := ⟨fuel - 1, by simp at hf; omega⟩
    rw [Utf8.encode_cons] at hc
    rcases advance_of_prefix ((List.prefix_append _ _).trans hc) with ⟨log, ha⟩
    have hcs : Utf8.encode cs <+: (s.readOver [c] log).rest := by
      rcases hc with ⟨bs, hbs⟩
      have hr : s.rest = Utf8.encode [c] ++ (Utf8.encode cs ++ bs) := by
        rw [Utf8.encode_singleton, ← List.append_assoc, hbs]
      rw [rest_readOver_of_append hr]
      exact List.prefix_append _ _
    rcases ih hcs (Nat.le_of_succ_le_succ hf) with ⟨log', hr⟩
    refine ⟨log', ?_⟩
    rw [readTo, if_pos (by rw [Utf8.encode_cons, List.length_append]; omega), ha]
    show readTo _ fuel (s.readOver [c] log) = _
    have hstop : s.cur.stop + (Utf8.encode (c :: cs)).length =
        (s.readOver [c] log).cur.stop + (Utf8.encode cs).length := by
      rw [cur_readOver, Cursor.stop_across, Utf8.encode_singleton, Utf8.encode_cons,
        List.length_append, Nat.add_assoc]
    rw [hstop, hr, readOver_readOver]
    rfl

/-- A literal reads its text where that comes next. -/
theorem readLiteral_of_next (h : s.InBounds) (kind : Kind) {text : String}
    (hp : Utf8.bytes text <+: s.rest) :
    ∃ log, s.readLiteral kind text = (true, s.readOver text.toList log) := by
  have hf : text.toList.length ≤ (Utf8.bytes text).length :=
    Utf8.length_le_length_encode text.toList
  rcases readTo_of_prefix hp hf with ⟨log, hr⟩
  rw [← Utf8.bytes_eq_encode] at hr
  rw [readLiteral, if_pos ((peek_iff h).mpr hp)]
  simp only [hr]
  exact ⟨log, rfl⟩

/-- Where its text does not come next, a literal reads nothing. -/
theorem readLiteral_of_not_next (h : s.InBounds) (kind : Kind) {text : String}
    (hp : ¬ Utf8.bytes text <+: s.rest) : s.readLiteral kind text = (false, s.expect kind) := by
  rw [readLiteral, if_neg fun hk => hp ((peek_iff h).mp hk)]

theorem readLiteral_reads (h : s.InBounds) (kind : Kind) (text : String) :
    s.Reads (Matcher.text text) kind (s.readLiteral kind text) := by
  by_cases hp : Utf8.bytes text <+: s.rest
  · rcases readLiteral_of_next h kind hp with ⟨log, hr⟩
    rw [hr]
    -- reading up to the length of the text reads just the text
    exact .matched hp (Matcher.text_eq_length hp)
  · rw [readLiteral_of_not_next h kind hp, expect_eq_report]
    exact .reported ⟨rfl, rfl, Matcher.text_eq_none_iff.mpr hp⟩

end Scanner

namespace Builtin

open Scanner

variable {s : Scanner}

/-! ## Line endings -/

/-- A line feed is read, alone or after a carriage return. -/
theorem readEndLine_reads (h : s.InBounds) :
    s.Reads lineBreak endLine.kind (readEndLine s) := by
  have hlfi : s.peek lineFeed = true ↔ Utf8.encode ['\n'] <+: s.rest := peek_iff h
  have hcri : s.peek crLf = true ↔ Utf8.encode ['\r', '\n'] <+: s.rest := peek_iff h
  by_cases hlf : Utf8.encode ['\n'] <+: s.rest
  · obtain ⟨log, ha⟩ := advance_of_prefix (Utf8.encode_singleton '\n' ▸ hlf)
    rw [readEndLine, if_pos (hlfi.mpr hlf), ha]
    exact .matched hlf (Matcher.firstOf_cons_of_some (Matcher.text_eq_length hlf))
  · have hno : Matcher.text "\n" s.rest = none := Matcher.text_eq_none_iff.mpr hlf
    rw [readEndLine, if_neg fun hk => hlf (hlfi.mp hk)]
    by_cases hcr : Utf8.encode ['\r', '\n'] <+: s.rest
    -- the carriage return is read first and the line feed comes after it
    · obtain ⟨log, ha⟩ := advance_of_prefix (s := s) (c := '\r')
        ((List.prefix_append _ (Utf8.encode ['\n'])).trans hcr)
      have hlf' : Utf8.encode ['\n'] <+: (s.readOver ['\r'] log).rest :=
        prefix_rest_readOver hcr
      rcases advance_of_prefix (Utf8.encode_singleton '\n' ▸ hlf') with ⟨log', ha'⟩
      rw [if_pos (hcri.mpr hcr), ha]
      simp only [ha', readOver_readOver]
      refine .matched hcr ?_
      rw [lineBreak, Matcher.firstOf_cons_of_none hno]
      exact Matcher.firstOf_cons_of_some (Matcher.text_eq_length hcr)
    · rw [if_neg fun hk => hcr (hcri.mp hk), expect_eq_report]
      refine .reported ⟨rfl, rfl, Matcher.firstOf_eq_none_iff.mpr ?_⟩
      intro f hf
      rcases List.mem_cons.mp hf with rfl | hf
      · exact hno
      · rw [List.mem_singleton.mp hf]
        exact Matcher.text_eq_none_iff.mpr hcr

/-- Where the end of the data will do, an action is tried only before it. -/
theorem orAtEnd_tries (h : s.InBounds) {f : Matcher} {out : Bool × Scanner} (hf : s.Tries f out) :
    s.Tries (Matcher.firstOf [Matcher.done, f]) (if s.atEnd then (true, s) else out) := by
  by_cases he : s.rest = []
  · rw [if_pos ((atEnd_iff h).mpr he)]
    refine .stayed ?_
    rw [he]
    rfl
  · rw [if_neg fun hk => he ((atEnd_iff h).mp hk)]
    have hor : Matcher.firstOf [Matcher.done, f] s.rest = f s.rest := by
      rw [Matcher.firstOf_cons_of_none (Matcher.done_eq_none_iff.mpr he), Matcher.firstOf_singleton]
    refine hf.imp ?_ ?_
    · intro cs hM
      rw [hor, hM]
    · intro m new hF
      rw [hor, hF]

/-- After a line ending, the end of the data or another line ending. -/
theorem readBlankLine_tries (h : s.InBounds) :
    s.Tries (Matcher.inOrder [lineBreak, Matcher.firstOf [Matcher.done, lineBreak]])
      (readBlankLine s) := by
  have h1 := (readEndLine_reads h).follows
  unfold readBlankLine
  generalize readEndLine s = out at h1 ⊢
  cases h1 with
  | failed means => exact .failed (Matcher.inOrder_cons_of_none means.2.2)
  | @matched cs log reads means =>
    have hb : (s.readOver cs log).InBounds := h.readOver reads
    refine Tries.after reads ?_ (orAtEnd_tries hb (readEndLine_reads hb).follows.tries)
    rw [Matcher.inOrder_cons_of_some means, Matcher.inOrder_singleton, ← rest_readOver]

/-! ## Blanks -/

/-- A space or a tab is read where one comes next, and nothing else is. -/
theorem blankAhead_cases (h : s.InBounds) :
    (∃ c log, Utf8.encode [c] <+: s.rest ∧ blankAhead s = true ∧
        s.advance = (true, s.readOver [c] log) ∧
        blank s.rest = some (Utf8.encode [c]).length) ∨
      blankAhead s = false ∧ blank s.rest = none := by
  have hsp : s.peek [0x20] = true ↔ Utf8.bytes " " <+: s.rest := peek_iff h
  have htab : s.peek [0x09] = true ↔ Utf8.bytes "\t" <+: s.rest := peek_iff h
  by_cases h1 : Utf8.bytes " " <+: s.rest
  · obtain ⟨log, ha⟩ := advance_of_prefix (s := s) (c := ' ') h1
    refine Or.inl ⟨' ', log, h1, ?_, ha, ?_⟩
    · rw [blankAhead, hsp.mpr h1, Bool.true_or]
    · exact Matcher.firstOf_cons_of_some (Matcher.text_eq_length h1)
  · have hno := Matcher.text_eq_none_iff.mpr h1
    by_cases h2 : Utf8.bytes "\t" <+: s.rest
    · obtain ⟨log, ha⟩ := advance_of_prefix (s := s) (c := '\t') h2
      refine Or.inl ⟨'\t', log, h2, ?_, ha, ?_⟩
      · rw [blankAhead, htab.mpr h2, Bool.or_true]
      · rw [blank, Matcher.firstOf_cons_of_none hno]
        exact Matcher.firstOf_cons_of_some (Matcher.text_eq_length h2)
    · refine Or.inr ⟨?_, ?_⟩
      · rw [blankAhead, Bool.eq_false_iff.mpr fun hk => h1 (hsp.mp hk),
          Bool.eq_false_iff.mpr fun hk => h2 (htab.mp hk), Bool.false_or]
      · rw [blank, Matcher.firstOf_cons_of_none hno,
          Matcher.firstOf_cons_of_none (Matcher.text_eq_none_iff.mpr h2)]
        rfl

/-- Passing over blanks reads as many as there are. -/
theorem skipBlanks_spec (h : s.InBounds) {fuel : Nat} (hf : s.remaining ≤ fuel) :
    ∃ cs log, Utf8.encode cs <+: s.rest ∧ skipBlanks fuel s = s.readOver cs log ∧
      Matcher.greedy blank none s.rest = (cs.length, (Utf8.encode cs).length) := by
  -- every round reads a byte, so as many rounds as there are bytes are enough
  induction fuel generalizing s with
  | zero =>
    have hr : s.rest = [] := by
      rw [← List.length_eq_zero_iff, length_rest]
      omega
    refine ⟨[], s.log, List.nil_prefix, rfl, ?_⟩
    rw [hr]
    exact Matcher.greedy_of_none rfl
  | succ fuel ih =>
    rcases blankAhead_cases h with ⟨c, log, hc, hb, ha, hm⟩ | ⟨hb, hm⟩
    · have hpos := Utf8.length_utf8EncodeChar_pos c
      have hlen := hc.length_le
      rw [length_rest] at hlen
      rw [← Utf8.encode_singleton] at hpos
      have hf' : (s.readOver [c] log).remaining ≤ fuel := by
        rw [remaining_readOver]
        omega
      rcases ih (h.readOver hc) hf' with ⟨cs, log', hcs, hs, hg⟩
      refine ⟨c :: cs, log', prefix_encode_append hc hcs, ?_, ?_⟩
      · rw [skipBlanks, if_pos hb, ha]
        show skipBlanks fuel (s.readOver [c] log) = _
        rw [hs, readOver_readOver]
        rfl
      · exact greedy_of_reads (by simp) (by simp) hc hm hg
    · refine ⟨[], s.log, List.nil_prefix, ?_, Matcher.greedy_of_none hm⟩
      rw [skipBlanks, if_neg (by simp [hb])]
      rfl

/-- Blanks, then the end of the data, a last line ending or a blank line. -/
theorem readEndPara_reads (h : s.InBounds) :
    s.Reads endPara.meaning endPara.kind (readEndPara s) := by
  rcases skipBlanks_spec h (Nat.le_refl _) with ⟨cs, log, hcs, hs, hg⟩
  have hblanks : Matcher.repeated 0 none blank s.rest = some (Utf8.encode cs).length :=
    Matcher.repeated_of_greedy hg
  have hb : (s.readOver cs log).InBounds := h.readOver hcs
  have ht : s.Tries endPara.meaning
      (if (s.readOver cs log).atEnd then (true, s.readOver cs log)
        else readBlankLine (s.readOver cs log)) := by
    refine Tries.after hcs ?_ (orAtEnd_tries hb (readBlankLine_tries hb))
    rw [meaning, Matcher.inOrder_cons_of_some hblanks, Matcher.inOrder_singleton, ← rest_readOver]
  unfold readEndPara
  -- a failure behind the blanks goes back to where the paragraph was to end
  simp only [hs]
  exact ht.keepErrors_or_failAt h

/-! ## Classes -/

/-- White space is the class of its four code points. -/
theorem meaning_whiteSpace : whiteSpace.meaning = Matcher.one CharClass.ws.accepts := by
  funext input
  unfold meaning
  simp only [Matcher.firstOf, Option.or_none]
  rw [Matcher.text_eq_one (t := " ") (c := ' ') rfl,
    Matcher.text_eq_one (t := "\t") (c := '\t') rfl,
    Matcher.text_eq_one (t := "\n") (c := '\n') rfl,
    Matcher.text_eq_one (t := "\r") (c := '\r') rfl,
    Matcher.one_or_one, Matcher.one_or_one, Matcher.one_or_one]
  refine congrArg (fun p => Matcher.one p input) (funext ?_)
  intro c
  simp only [CharClass.accepts, Bool.or_assoc]

/-- The classes that make up the printable code points are the class of all of them. -/
theorem shown_eq_one : shown = Matcher.one CharClass.uprint.accepts := by
  funext input
  unfold shown
  simp only [Matcher.firstOf, Option.or_none]
  rw [Matcher.text_eq_one (t := " ") (c := ' ') rfl, Matcher.one_or_one, Matcher.one_or_one,
    Matcher.one_or_one, Matcher.one_or_one, Matcher.one_or_one]
  refine congrArg (fun p => Matcher.one p input) (funext ?_)
  intro c
  simp only [CharClass.accepts, CharClass.isVisible]
  cases (GeneralCategory.of c).major <;> simp

/-- A code point of a field. -/
def fieldChar : Matcher := Matcher.inOrder [Matcher.notAhead (Matcher.text " "), shown]

/-- Before a space there is none, and elsewhere the next printable code point is one. -/
theorem fieldChar_eq (input : List UInt8) :
    fieldChar input = if Utf8.bytes " " <+: input then none else shown input := by
  by_cases hsp : Utf8.bytes " " <+: input
  · rw [if_pos hsp]
    apply Matcher.inOrder_cons_of_none
    rw [Matcher.notAhead, Matcher.text_eq_length hsp]
    rfl
  · have hno : Matcher.notAhead (Matcher.text " ") input = some 0 := by
      rw [Matcher.notAhead, Matcher.text_eq_none_iff.mpr hsp]
      rfl
    rw [if_neg hsp, fieldChar, Matcher.inOrder_cons_of_some hno, Matcher.inOrder_singleton,
      List.drop_zero]
    simp

/-- Reading a field reads as many code points of fields as there are, and leaves the error of the
attempt that ended it. -/
theorem readVisible_spec (h : s.InBounds) {fuel : Nat} (hf : s.remaining < fuel) (found : Bool) :
    ∃ cs new log, Utf8.encode cs <+: s.rest ∧
      readVisible fuel found s = (found || !cs.isEmpty, s.strayed (s.cur.across cs) new log) ∧
      Matcher.greedy fieldChar none s.rest = (cs.length, (Utf8.encode cs).length) := by
  -- one round more than there are bytes, because the last one fails
  induction fuel generalizing s found with
  | zero => exact absurd hf (Nat.not_lt_zero _)
  | succ fuel ih =>
    have hpk : s.peek [0x20] = true ↔ Utf8.bytes " " <+: s.rest := peek_iff h
    by_cases hsp : Utf8.bytes " " <+: s.rest
    · refine ⟨[], #[], s.log, List.nil_prefix, ?_, Matcher.greedy_of_none ?_⟩
      · rw [readVisible, if_pos (hpk.mpr hsp), ← readOver_eq_strayed]
        simp only [List.isEmpty_nil, Bool.not_true, Bool.or_false]
        rfl
      · rw [fieldChar_eq, if_pos hsp]
    · have hm := fieldChar_eq s.rest
      rw [if_neg hsp, shown_eq_one] at hm
      rw [readVisible, if_neg fun hk => hsp (hpk.mp hk)]
      rcases readOne_cases h printable.kind CharClass.uprint.accepts with
        ⟨c, log, hc, ha, hr⟩ | ⟨hno, log, hr⟩
      · have hpos := Utf8.length_utf8EncodeChar_pos c
        have hlen := hc.length_le
        have hone : fieldChar s.rest = some (String.utf8EncodeChar c).length :=
          hm.trans (Matcher.one_eq_some_iff.mpr ⟨c, ha, hc, rfl⟩)
        rw [length_rest] at hlen
        rw [← Utf8.encode_singleton] at hc hpos hlen hone
        have hf' : (s.readOver [c] log).remaining < fuel := by
          rw [remaining_readOver]
          omega
        rcases ih (h.readOver hc) hf' true with ⟨cs, new, log', hcs, hv, hg⟩
        refine ⟨c :: cs, new, log', prefix_encode_append hc hcs, ?_, ?_⟩
        · simp only [readPrintable, hr, hv, readOver_strayed]
          rw [Bool.true_or, List.isEmpty_cons, Bool.not_false, Bool.or_true]
          rfl
        · exact greedy_of_reads (by simp) (by simp) hc hone hg
      -- the attempt that fails leaves its error, and whoever calls drops it
      · refine ⟨[], #[⟨printable.kind, s.cur⟩], log, List.nil_prefix, ?_,
          Matcher.greedy_of_none (hm.trans (Matcher.one_eq_none_iff.mpr hno))⟩
        simp only [readPrintable, hr]
        rw [List.isEmpty_nil, Bool.not_true, Bool.or_false]
        rfl

/-- A field is all the code points of fields that come next, if there are any. -/
theorem readField_reads (h : s.InBounds) : s.Reads field.meaning field.kind (readField s) := by
  rcases readVisible_spec h (Nat.lt_succ_self _) false with ⟨cs, new, log, hcs, hv, hg⟩
  have hm : field.meaning s.rest = if 1 ≤ cs.length then some (Utf8.encode cs).length else none :=
    Matcher.repeated_of_greedy hg
  unfold readField
  simp only [hv, keepErrors_strayed]
  cases cs with
  | nil =>
    show s.Reads _ _ (false, (s.strayed s.cur #[] log).failAt s.cur field.kind)
    rw [failAt_strayed h, Array.empty_append]
    exact .reported ⟨rfl, rfl, hm⟩
  | cons c cs =>
    rw [← readOver_eq_strayed]
    have hpos : 1 ≤ (c :: cs).length := Nat.le_add_left 1 cs.length
    refine .matched hcs ?_
    rw [hm, if_pos hpos]

/-! ## All builtin rules -/

/-- Every builtin rule matches what its pattern says. -/
theorem recognize_reads (h : s.InBounds) (b : Builtin) :
    s.Reads b.meaning b.kind (b.recognize s) := by
  cases b with
  | endOfData =>
    show s.Reads Matcher.done _
      (if s.atEnd then (true, s) else (false, s.expect endOfData.kind))
    by_cases he : s.rest = []
    · rw [if_pos ((atEnd_iff h).mpr he)]
      refine .stayed ?_
      rw [he]
      rfl
    · rw [if_neg fun hk => he ((atEnd_iff h).mp hk), expect_eq_report]
      exact .reported ⟨rfl, rfl, Matcher.done_eq_none_iff.mpr he⟩
  | whiteSpace =>
    rw [meaning_whiteSpace]
    exact readOne_reads h _ _
  | endLine => exact readEndLine_reads h
  | endPara => exact readEndPara_reads h
  | field => exact readField_reads h
  | printable =>
    show s.Reads shown _ _
    rw [shown_eq_one]
    exact readOne_reads h _ _
  | digit => exact readOne_reads h _ _
  | any => exact readOne_reads h _ _

end Builtin

end PegKit
