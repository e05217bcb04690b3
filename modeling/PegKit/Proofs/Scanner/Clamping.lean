import PegKit.Proofs.Scanner.Decoding
import PegKit.Proofs.Text.Boundaries

/-! # Bookmarks that do not fit

A bookmark from before the buffer was replaced may point past its end. Going to it leads to the last
code point of the buffer, which is found from the back.

* `finalCursor_of_suffix`, `finalCursor_of_no_suffix`: the final cursor is on the code point that
  ends the buffer, whatever stands before it, and at the beginning if none does.
* `finalCursor_of_encode`: in a buffer that holds a text, it is where reading the text leads.
* `cur_moveTo_of_not_fits`: going to a bookmark that does not fit, from the back and from the front.
-/

namespace PegKit.Scanner

variable {s : Scanner} {m : Cursor} {c : Char} {cs : List Char}

/-! ## The last bytes of a buffer -/

/-- The final cursor depends on the last bytes of the buffer. -/
theorem finalCursor_eq (s : Scanner) : s.finalCursor =
    match Utf8.decodeLast? (s.buf.toList.drop (s.buf.toList.length - Utf8.window)) with
    | some (rune, n) => ⟨rune, s.buf.size - n, s.buf.size⟩
    | none => .origin := by
  have htail : (s.buf.extract (s.buf.size - Utf8.window) s.buf.size).toList =
      s.buf.toList.drop (s.buf.toList.length - Utf8.window) := by
    rw [Array.toList_extract, List.extract_eq_take_drop, Array.length_toList]
    apply List.take_of_length_le
    rw [List.length_drop, Array.length_toList]
  rw [← htail]
  rfl

theorem finalCursor_of_suffix (h : String.utf8EncodeChar c <:+ s.buf.toList) :
    s.finalCursor = ⟨c, s.buf.size - (String.utf8EncodeChar c).length, s.buf.size⟩ := by
  have hlast := Utf8.decodeLast?_eq_some_iff.mpr ⟨Utf8.suffix_drop_window_iff.mpr h, rfl⟩
  rw [finalCursor_eq, hlast]

theorem finalCursor_of_no_suffix (h : ∀ c, ¬ String.utf8EncodeChar c <:+ s.buf.toList) :
    s.finalCursor = .origin := by
  have hlast : Utf8.decodeLast? (s.buf.toList.drop (s.buf.toList.length - Utf8.window)) = none := by
    apply Utf8.decodeLast?_eq_none_iff.mpr
    intro c hc
    exact h c (Utf8.suffix_drop_window_iff.mp hc)
  rw [finalCursor_eq, hlast]

/-! ## From the front -/

/-- The final cursor of a buffer that holds a text is the one after the whole text. -/
theorem finalCursor_of_encode (h : s.buf.toList = Utf8.encode cs) :
    s.finalCursor = Cursor.origin.across cs := by
  have hsize : s.buf.size = (Utf8.encode cs).length := by
    rw [← h, Array.length_toList]
  rcases List.eq_nil_or_concat cs with rfl | ⟨ds, c, rfl⟩
  · apply finalCursor_of_no_suffix
    intro c hc
    have hlen := hc.length_le
    have hpos := Utf8.length_utf8EncodeChar_pos c
    rw [h] at hlen
    exact absurd hlen (Nat.not_le_of_lt hpos)
  · rw [List.concat_eq_append] at h hsize ⊢
    have hsuffix : String.utf8EncodeChar c <:+ s.buf.toList := by
      rw [h, Utf8.encode_append, Utf8.encode_singleton]
      exact List.suffix_append _ _
    have hstart : (Utf8.encode (ds ++ [c])).length - (String.utf8EncodeChar c).length =
        (Utf8.encode ds).length := by
      rw [Utf8.encode_append, Utf8.encode_singleton, List.length_append, Nat.add_sub_cancel]
    rw [finalCursor_of_suffix hsuffix, hsize, hstart, Cursor.across_concat]
    simp [Cursor.origin]

/-- Reading a valid buffer from the beginning leads to its final cursor. -/
theorem cur_readAll_of_isValid (hs : s.cur = .origin) (hvalid : Utf8.IsValid s.buf.toList) :
    s.readAll.2.cur = s.finalCursor := by
  obtain ⟨cs, log, bs, n, hrest, hstuck, hread⟩ := s.readAll_spec
  have hbuf : s.buf.toList = Utf8.encode cs ++ bs := by
    rw [← hrest, rest, hs]
    rfl
  -- what does not decode behind the text is valid, so there is nothing
  have hbs : bs = [] := by
    have hdrop := hvalid.drop (hbuf ▸ List.prefix_append _ _)
    rw [hbuf, List.drop_left] at hdrop
    exact hdrop.eq_nil_of_malformed hstuck
  rw [hbs, List.append_nil] at hbuf
  rw [hread, cur_readOver, hs, finalCursor_of_encode hbuf]

/-! ## Going to a bookmark -/

/-- A bookmark that does not fit leads to the final cursor; only the log changes besides. -/
theorem exists_moveTo_of_not_fits (h : ¬ m.Fits s.buf.size) :
    ∃ log, s.moveTo m = { s with cur := s.finalCursor, log } := by
  rw [moveTo, if_neg h]
  exact ⟨_, rfl⟩

/-- Going to a bookmark that does not fit the buffer leads to the code point whose encoding ends the
buffer, or back to the beginning if the buffer does not end with a code point. In a valid buffer that
is where reading code points from the beginning ends. Nothing but the cursor and the log changes. -/
theorem cur_moveTo_of_not_fits (s : Scanner) {m : Cursor}
    (h : ¬ (m.start ≤ m.stop ∧ m.stop ≤ s.buf.size)) :
    let t := s.moveTo m
    (∀ c, String.utf8EncodeChar c <:+ s.buf.toList →
      t.cur = ⟨c, s.buf.size - (String.utf8EncodeChar c).length, s.buf.size⟩) ∧
    ((∀ c, ¬ String.utf8EncodeChar c <:+ s.buf.toList) → t.cur = .origin) ∧
    (Utf8.IsValid s.buf.toList →
      t.cur = ({ s with cur := .origin } : Scanner).readAll.2.cur) ∧
    t = { s with cur := t.cur, log := t.log } := by
  obtain ⟨log, hmove⟩ := exists_moveTo_of_not_fits (s := s) h
  simp only [hmove]
  refine ⟨?_, ?_, ?_, trivial⟩
  · intro c hc
    exact finalCursor_of_suffix hc
  · intro hnone
    exact finalCursor_of_no_suffix hnone
  · intro hvalid
    exact (cur_readAll_of_isValid (s := { s with cur := .origin }) rfl hvalid).symm

/-- A bookmark behind the end of a text, one whose ends are the wrong way round in a buffer that ends
in the middle of a code point, and one in a buffer with a continuation too many. -/
theorem cur_moveTo_of_not_fits_endings :
    let s : Scanner := { buf := #[0x61, 0xC3, 0xA9] }
    let u : Scanner := { buf := #[0x61, 0xF0, 0x9F, 0x91] }
    let v : Scanner := { buf := #[0xC3, 0xA9, 0x80] }
    (¬ (3 ≤ 4 ∧ 4 ≤ s.buf.size) ∧ (s.moveTo ⟨'z', 3, 4⟩).cur = ⟨'é', 1, 3⟩ ∧
      ({ s with cur := .origin } : Scanner).readAll.2.cur = ⟨'é', 1, 3⟩) ∧
    (¬ (2 ≤ 1 ∧ 1 ≤ u.buf.size) ∧ (u.moveTo ⟨'z', 2, 1⟩).cur = .origin) ∧
    (¬ (4 ≤ 4 ∧ 4 ≤ v.buf.size) ∧ (v.moveTo ⟨'z', 4, 4⟩).cur = .origin) := by
  intro s u v
  have hs : ¬ (3 ≤ 4 ∧ 4 ≤ s.buf.size) := by decide
  have hu : ¬ (2 ≤ 1 ∧ 1 ≤ u.buf.size) := by decide
  have hv : ¬ (4 ≤ 4 ∧ 4 ≤ v.buf.size) := by decide
  have hsuffix : String.utf8EncodeChar 'é' <:+ s.buf.toList := ⟨[0x61], by decide⟩
  have hvalid : Utf8.IsValid s.buf.toList := Utf8.isValid_encode ['a', 'é']
  obtain ⟨hend, _, hread, _⟩ := cur_moveTo_of_not_fits s (m := ⟨'z', 3, 4⟩) hs
  have hcur : (s.moveTo ⟨'z', 3, 4⟩).cur = ⟨'é', 1, 3⟩ := hend 'é' hsuffix
  refine ⟨⟨hs, hcur, (hread hvalid).symm.trans hcur⟩, ⟨hu, ?_⟩, ⟨hv, ?_⟩⟩
  · apply (cur_moveTo_of_not_fits u (m := ⟨'z', 2, 1⟩) hu).2.1
    exact Utf8.decodeLast?_eq_none_iff.mp (by decide)
  · apply (cur_moveTo_of_not_fits v (m := ⟨'z', 4, 4⟩) hv).2.1
    exact Utf8.decodeLast?_eq_none_iff.mp (by decide)

end PegKit.Scanner
