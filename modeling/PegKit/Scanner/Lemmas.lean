import PegKit.Scanner.Move
import PegKit.Text.Utf8.Lemmas

/-! # Laws of scanners

* `peek_iff`: looking ahead compares with what lies ahead.
* `advance_of_scalar` and `advance_of_malformed`: reading a code point depends on what lies ahead
  only.
* `finalCursor_fits`: the cursor that stands in for a stale bookmark lies in the buffer.
* `moveTo_of_fits` and `failAt_of_fits`: going to a bookmark that fits the buffer changes the cursor
  and, on failure, pushes one error.
-/

namespace PegKit.Scanner

/-! ## Look-ahead -/

/-- The bytes of a literal stand at an offset exactly when they begin what lies behind it. -/
theorem matchesAt_iff {buf : Array UInt8} {offset : Nat} {lit : List UInt8} :
    matchesAt buf offset lit = true ↔ offset ≤ buf.size ∧ lit <+: buf.toList.drop offset := by
  induction lit generalizing offset with
  | nil => simp [matchesAt]
  | cons b lit ih =>
    rw [matchesAt, Bool.and_eq_true, beq_iff_eq, ih]
    by_cases h : offset < buf.size
    · have hd : buf.toList.drop offset = buf[offset] :: buf.toList.drop (offset + 1) := by
        rw [List.drop_eq_getElem_cons (by simpa using h), Array.getElem_toList]
      rw [hd, List.cons_prefix_cons, Array.getElem?_eq_getElem h, Option.some.injEq]
      constructor
      · rintro ⟨hb, _, hp⟩
        exact ⟨by omega, hb.symm, hp⟩
      · rintro ⟨_, hb, hp⟩
        exact ⟨hb.symm, h, hp⟩
    · have hn : buf[offset]? = none := Array.getElem?_eq_none (by omega)
      have hd : buf.toList.drop offset = [] := List.drop_eq_nil_of_le (by simp; omega)
      rw [hn, hd]
      simp

/-- A literal comes next exactly when what lies ahead begins with it. -/
theorem peek_iff {s : Scanner} {lit : List UInt8} (h : s.InBounds) :
    s.peek lit = true ↔ lit <+: s.rest := by
  rw [peek, matchesAt_iff]
  exact and_iff_right h.2

/-! ## Reading a code point -/

/-- The window is the front of what lies ahead. -/
theorem window_eq_take (s : Scanner) : s.window = s.rest.take Utf8.window := by
  rw [window, rest, Array.toList_extract, List.extract_eq_take_drop, Nat.add_sub_cancel_left]

/-- The window decodes as what lies ahead does. -/
theorem decode_window (s : Scanner) : Utf8.decode s.window = Utf8.decode s.rest := by
  rw [window_eq_take, Utf8.decode_take]

/-- The number of bytes that lie ahead. -/
theorem length_rest (s : Scanner) : s.rest.length = s.remaining := by
  rw [rest, remaining, List.length_drop, Array.length_toList]

/-- Where no code point comes next, nothing happens. -/
theorem advance_of_malformed {s : Scanner} {n : Nat} (h : Utf8.decode s.rest = .malformed n) :
    s.advance = (false, s) := by
  rw [advance, decode_window, h]

/-- Where a code point comes next, the cursor moves onto it; only the log may change besides. -/
theorem advance_of_scalar {s : Scanner} {c : Char} {n : Nat}
    (h : Utf8.decode s.rest = .scalar c n) :
    ∃ log, s.advance = (true, { s with cur := ⟨c, s.cur.stop, s.cur.stop + n⟩, log }) := by
  rw [advance, decode_window, h]
  by_cases ht : s.options.trace = true
  · refine ⟨s.log.push
      { level := .trace
        target := "pegn::scanner"
        message := ({ s with cur := ⟨c, s.cur.stop, s.cur.stop + n⟩ } : Scanner).render }, ?_⟩
    simp only [ht, if_true, noteState, note]
  · refine ⟨s.log, ?_⟩
    simp only [ht]
    rfl

/-! ## The cursor stays in the buffer -/

theorem InBounds.load (s : Scanner) (buf : Array UInt8) : (s.load buf).InBounds :=
  ⟨Nat.le_refl _, Nat.zero_le _⟩

/-- The last code point of a buffer ends where the buffer does. -/
theorem finalCursor_fits (s : Scanner) : s.finalCursor.Fits s.buf.size := by
  rw [finalCursor]
  split
  · exact ⟨Nat.sub_le _ _, Nat.le_refl _⟩
  · exact ⟨Nat.le_refl _, Nat.zero_le _⟩

/-! ## Going back -/

/-- A bookmark that fits the buffer is where the cursor goes, and nothing else changes. -/
theorem moveTo_of_fits {s : Scanner} {m : Cursor} (h : m.Fits s.buf.size) :
    s.moveTo m = { s with cur := m } := by
  rw [moveTo, if_pos h]

/-- Going to where the cursor is does nothing. -/
theorem moveTo_cur {s : Scanner} (h : s.InBounds) : s.moveTo s.cur = s :=
  moveTo_of_fits h

/-- A failing rule that leaves at a bookmark that fits changes the cursor and pushes one error. -/
theorem failAt_of_fits {s : Scanner} {m : Cursor} (h : m.Fits s.buf.size) (kind : Kind) :
    s.failAt m kind = { s with cur := m, errors := s.errors.push ⟨kind, m⟩ } := by
  rw [failAt, moveTo_of_fits h, expect, pushError]

end PegKit.Scanner
