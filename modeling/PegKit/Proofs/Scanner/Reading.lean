import PegKit.Scanner.Lemmas
import PegKit.Proofs.Text.Utf8

/-! # Reading a text

What a scanner is after it has read some code points, and how far reading goes.

* `Cursor.across` is the cursor on the last of some code points read one after the other, and
  `Scanner.readOver` the scanner with that cursor.
* `advance_cases`: a code point is read exactly where the encoding of one comes next, and otherwise
  nothing happens.
-/

namespace PegKit

/-! ## Cursors -/

namespace Cursor

/-- The cursor on the code point `c`, read next. -/
def next (m : Cursor) (c : Char) : Cursor :=
  ⟨c, m.stop, m.stop + (String.utf8EncodeChar c).length⟩

/-- The cursor on the last of the code points `cs`, read one after the other. -/
def across (m : Cursor) (cs : List Char) : Cursor :=
  cs.foldl next m

@[simp] theorem across_nil (m : Cursor) : m.across [] = m := rfl

@[simp] theorem across_cons (m : Cursor) (c : Char) (cs : List Char) :
    m.across (c :: cs) = (m.next c).across cs := rfl

theorem across_append (m : Cursor) (cs ds : List Char) :
    m.across (cs ++ ds) = (m.across cs).across ds :=
  List.foldl_append

/-- Reading ends as many bytes further on as the text takes. -/
@[simp] theorem stop_across (m : Cursor) (cs : List Char) :
    (m.across cs).stop = m.stop + (Utf8.encode cs).length := by
  induction cs generalizing m with
  | nil => rfl
  | cons c cs ih =>
    rw [across_cons, ih, Utf8.encode_cons, List.length_append, ← Nat.add_assoc]
    rfl

/-- The cursor is on the last code point read. -/
theorem rune_across (m : Cursor) (cs : List Char) :
    (m.across cs).rune = cs.getLast?.getD m.rune := by
  induction cs generalizing m with
  | nil => rfl
  | cons c cs ih =>
    rw [across_cons, ih, List.getLast?_cons, Option.getD_some]
    rfl

/-- The cursor spans the last code point read, from its first byte to its last. -/
theorem across_concat (m : Cursor) (cs : List Char) (c : Char) : m.across (cs ++ [c]) =
    ⟨c, m.stop + (Utf8.encode cs).length, m.stop + (Utf8.encode (cs ++ [c])).length⟩ := by
  rw [across_append, across_cons, across_nil, next, stop_across, Utf8.encode_append,
    List.length_append, Utf8.encode_singleton, Nat.add_assoc]

theorem start_le_stop_across {m : Cursor} (h : m.start ≤ m.stop) (cs : List Char) :
    (m.across cs).start ≤ (m.across cs).stop := by
  induction cs generalizing m with
  | nil => exact h
  | cons c cs ih => exact ih (Nat.le_add_right _ _)

/-- Reading goes on from the end of the cursor, or stays. -/
theorem start_le_start_across {m : Cursor} (h : m.start ≤ m.stop) (cs : List Char) :
    m.start ≤ (m.across cs).start := by
  induction cs generalizing m with
  | nil => exact Nat.le_refl _
  | cons c cs ih =>
    have hnext : (m.next c).start ≤ ((m.next c).across cs).start := ih (Nat.le_add_right _ _)
    exact Nat.le_trans h hnext

end Cursor

namespace Scanner

/-- Bytes that come next at an offset are what the buffer holds there. -/
theorem extract_eq_of_next {buf : Array UInt8} {offset : Nat} {bs : List UInt8}
    (h : bs <+: buf.toList.drop offset) :
    (buf.extract offset (offset + bs.length)).toList = bs := by
  rw [Array.toList_extract, List.extract_eq_take_drop, Nat.add_sub_cancel_left]
  exact (List.prefix_iff_eq_take.mp h).symm

/-! ## Scanners that have read a text -/

/-- The scanner after it has read the code points `cs`. -/
def readOver (s : Scanner) (cs : List Char) (log : Array Event) : Scanner :=
  { s with cur := s.cur.across cs, log }

variable {s : Scanner} {cs ds : List Char} {log log' : Array Event}

@[simp] theorem cur_readOver : (s.readOver cs log).cur = s.cur.across cs := rfl

@[simp] theorem buf_readOver : (s.readOver cs log).buf = s.buf := rfl

@[simp] theorem errors_readOver : (s.readOver cs log).errors = s.errors := rfl

@[simp] theorem options_readOver : (s.readOver cs log).options = s.options := rfl

@[simp] theorem readOver_readOver :
    (s.readOver cs log).readOver ds log' = s.readOver (cs ++ ds) log' := by
  rw [readOver, cur_readOver, ← Cursor.across_append]
  rfl

/-- What lies ahead after a text is what followed it. -/
theorem rest_readOver : (s.readOver cs log).rest = s.rest.drop (Utf8.encode cs).length := by
  rw [rest, rest, List.drop_drop, cur_readOver, Cursor.stop_across, buf_readOver]

theorem rest_readOver_of_append {bs : List UInt8} (h : s.rest = Utf8.encode cs ++ bs) :
    (s.readOver cs log).rest = bs := by
  rw [rest_readOver, h, List.drop_left]

/-- A text that comes next after another, both together come next. -/
theorem prefix_encode_append (hc : Utf8.encode cs <+: s.rest)
    (hd : Utf8.encode ds <+: (s.readOver cs log).rest) : Utf8.encode (cs ++ ds) <+: s.rest := by
  rcases hc with ⟨bs, hbs⟩
  rw [rest_readOver_of_append hbs.symm] at hd
  rw [Utf8.encode_append, ← hbs]
  exact (List.prefix_append_right_inj _).mpr hd

/-- After a text that comes next, the text that followed it does. -/
theorem prefix_rest_readOver (h : Utf8.encode (cs ++ ds) <+: s.rest) :
    Utf8.encode ds <+: (s.readOver cs log).rest := by
  rcases h with ⟨bs, hbs⟩
  rw [Utf8.encode_append, List.append_assoc] at hbs
  rw [rest_readOver_of_append hbs.symm]
  exact List.prefix_append _ _

/-- The buffer holds the last code point of a text that comes next where the cursor is after it. -/
theorem extract_across {c : Char} (h : Utf8.encode (cs ++ [c]) <+: s.rest) :
    (s.buf.extract (s.cur.across (cs ++ [c])).start (s.cur.across (cs ++ [c])).stop).toList =
      String.utf8EncodeChar c := by
  have hlast : Utf8.encode [c] <+: (s.readOver cs s.log).rest := prefix_rest_readOver h
  rw [rest, cur_readOver, Cursor.stop_across, buf_readOver, Utf8.encode_singleton] at hlast
  have hspan := extract_eq_of_next hlast
  rwa [Cursor.across_concat, Utf8.encode_append, List.length_append, Utf8.encode_singleton,
    ← Nat.add_assoc]

theorem remaining_readOver :
    (s.readOver cs log).remaining = s.remaining - (Utf8.encode cs).length := by
  rw [← length_rest, ← length_rest, rest_readOver, List.length_drop]

/-- A code point that is read leaves fewer bytes ahead. -/
theorem remaining_readOver_lt {c : Char} (hc : Utf8.encode [c] <+: s.rest) :
    (s.readOver [c] log).remaining < s.remaining := by
  have hle := hc.length_le
  have hpos := Utf8.length_utf8EncodeChar_pos c
  rw [length_rest, Utf8.encode_singleton] at hle
  rw [remaining_readOver, Utf8.encode_singleton]
  omega

/-- A text that comes next ends within the buffer. -/
theorem InBounds.readOver (h : s.InBounds) (hc : Utf8.encode cs <+: s.rest) :
    (s.readOver cs log).InBounds := by
  refine ⟨Cursor.start_le_stop_across h.1 cs, ?_⟩
  have hl := hc.length_le
  have hs := h.2
  rw [length_rest, remaining] at hl
  rw [cur_readOver, Cursor.stop_across, buf_readOver]
  omega

/-! ## Reading the next code point -/

/-- Where the encoding of a code point comes next, it is read. -/
theorem advance_of_prefix {c : Char} (h : String.utf8EncodeChar c <+: s.rest) :
    ∃ log, s.advance = (true, s.readOver [c] log) := by
  rcases advance_of_scalar (Utf8.decode_eq_scalar_iff.mpr ⟨h, rfl⟩) with ⟨log, ha⟩
  exact ⟨log, ha⟩

/-- A scanner reads the code point that comes next, or stays as it is where none does. -/
theorem advance_cases (s : Scanner) :
    (∃ c log, String.utf8EncodeChar c <+: s.rest ∧ s.advance = (true, s.readOver [c] log)) ∨
      (∃ n, Utf8.decode s.rest = .malformed n) ∧ s.advance = (false, s) := by
  cases hd : Utf8.decode s.rest with
  | scalar c n =>
    have hc := (Utf8.decode_eq_scalar_iff.mp hd).1
    rcases advance_of_prefix hc with ⟨log, ha⟩
    exact Or.inl ⟨c, log, hc, ha⟩
  | malformed n => exact Or.inr ⟨⟨n, rfl⟩, advance_of_malformed hd⟩

/-- A scanner that reads on has read a code point that came next. -/
theorem exists_readOver_of_advance {t : Scanner} (h : s.advance = (true, t)) :
    ∃ c log, Utf8.encode [c] <+: s.rest ∧ t = s.readOver [c] log := by
  rcases s.advance_cases with ⟨c, log, hc, ha⟩ | ⟨_, ha⟩
  · rw [ha] at h
    cases h
    exact ⟨c, log, Utf8.encode_singleton c ▸ hc, rfl⟩
  · rw [ha] at h
    cases h

/-- Reading `k` code points reads a text of `k` code points that comes next. -/
theorem exists_readOver_of_advanceMany {t : Scanner} {k : Nat} (h : s.advanceMany k = (k, t)) :
    ∃ cs log, cs.length = k ∧ Utf8.encode cs <+: s.rest ∧ t = s.readOver cs log := by
  induction k generalizing s with
  | zero =>
    cases h
    exact ⟨[], _, rfl, List.nil_prefix, rfl⟩
  | succ k ih =>
    rw [advanceMany] at h
    split at h
    · next u hu =>
      obtain ⟨c, log, hc, rfl⟩ := exists_readOver_of_advance hu
      generalize hmany : (s.readOver [c] log).advanceMany k = out at h
      obtain ⟨j, u⟩ := out
      cases h
      obtain ⟨cs, log', rfl, hcs, rfl⟩ := ih hmany
      exact ⟨c :: cs, log', rfl, prefix_encode_append hc hcs, readOver_readOver⟩
    · cases h

/-! ## Going back -/

/-- The scanner with the cursor elsewhere and new errors on its stack: how far an attempt may lead
before it fails. -/
def strayed (s : Scanner) (m : Cursor) (new : Array Expectation) (log : Array Event) : Scanner :=
  { s with cur := m, errors := s.errors ++ new, log }

/-- The scanner with new errors on its stack. -/
def report (s : Scanner) (new : Array Expectation) (log : Array Event) : Scanner :=
  s.strayed s.cur new log

section Strayed

variable {m : Cursor} {new more : Array Expectation}

theorem readOver_eq_strayed : s.readOver cs log = s.strayed (s.cur.across cs) #[] log := by
  rw [strayed, Array.append_empty]
  rfl

theorem strayed_strayed {m' : Cursor} :
    (s.strayed m new log).strayed m' more log' = s.strayed m' (new ++ more) log' := by
  simp only [strayed, Array.append_assoc]

theorem report_empty : s.report #[] s.log = s := by
  rw [report, strayed, Array.append_empty]

theorem readOver_strayed : (s.readOver cs log).strayed m new log' = s.strayed m new log' := rfl

@[simp] theorem size_errors_strayed :
    (s.strayed m new log).errors.size = s.errors.size + new.size :=
  Array.size_append

/-- Forgetting the new errors leaves those that were there before. -/
theorem keepErrors_strayed :
    (s.strayed m new log).keepErrors s.errors.size = s.strayed m #[] log := by
  simp [keepErrors, strayed]

theorem moveTo_strayed (h : s.InBounds) :
    (s.strayed m new log).moveTo s.cur = s.report new log :=
  moveTo_of_fits h

/-- Forgetting the errors of a failure that went back leaves nothing of it but the log. -/
theorem keepErrors_report :
    (s.strayed s.cur new log).keepErrors s.errors.size = s.readOver [] log := by
  rw [keepErrors_strayed, readOver_eq_strayed, Cursor.across_nil]

/-- Going back from a text leaves nothing of it but the log. -/
theorem moveTo_readOver (h : s.InBounds) :
    (s.readOver cs log).moveTo s.cur = s.readOver [] log := by
  rw [readOver_eq_strayed, moveTo_strayed h, report, readOver_eq_strayed, Cursor.across_nil]

/-- A rule that fails where it began leaves one more error. -/
theorem failAt_strayed (h : s.InBounds) (kind : Kind) :
    (s.strayed m new log).failAt s.cur kind = s.report (new ++ #[⟨kind, s.cur⟩]) log := by
  rw [failAt, moveTo_strayed h]
  simp [expect, pushError, report, strayed]

end Strayed

theorem expect_eq_report (kind : Kind) : s.expect kind = s.report #[⟨kind, s.cur⟩] s.log := by
  simp [expect, pushError, report, strayed]

/-- Nothing lies ahead exactly at the end. -/
theorem atEnd_iff (h : s.InBounds) : s.atEnd = true ↔ s.rest = [] := by
  have hs := h.2
  rw [← List.length_eq_zero_iff, length_rest, remaining, atEnd, decide_eq_true_eq]
  -- in bounds, so the difference of the two ends is not cut off at zero
  omega

end Scanner

end PegKit
