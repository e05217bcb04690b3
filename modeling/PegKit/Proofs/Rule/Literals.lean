import PegKit.Proofs.Rule.Unbounded

/-! # Literals

A literal compares bytes and then reads code points until it has come as far. The two stop at the
same place, because no encoding begins another one.

* `readTo_of_peek`: where the bytes of the text come next, the loop ends, and with a success.
* `recognize_literal`: when a literal matches, where it ends and what it is then on.
-/

namespace PegKit

open Scanner

namespace Rule

variable {s : Scanner}

/-- After a text that comes next, the cursor spans its last code point. -/
theorem span_across {cs : List Char} {c : Char} (h : Utf8.encode cs <+: s.rest)
    (hc : cs.getLast? = some c) :
    (s.cur.across cs).rune = c ∧
      (s.cur.across cs).start + (String.utf8EncodeChar c).length = (s.cur.across cs).stop ∧
      (s.buf.extract (s.cur.across cs).start (s.cur.across cs).stop).toList =
        String.utf8EncodeChar c := by
  obtain ⟨front, rfl⟩ := List.getLast?_eq_some_iff.mp hc
  refine ⟨?_, ?_, extract_across h⟩
  · rw [Cursor.across_concat]
  · rw [Cursor.across_concat, Utf8.encode_append, List.length_append, Utf8.encode_singleton,
      Nat.add_assoc]

/-- Where the bytes of the text come next, the loop of the literal, run without a bound, comes to
its end and leaves what the literal does. -/
theorem readTo_of_peek (h : s.InBounds) (kind : Kind) {text : String}
    (hp : s.peek (Utf8.bytes text) = true) :
    Unbounded.readTo (s.cur.stop + (Utf8.bytes text).length) s =
      some (true, (s.readLiteral kind text).2) := by
  have hnext : Utf8.encode text.toList <+: s.rest := (peek_iff h).mp hp
  have hfuel : text.toList.length ≤ (Utf8.bytes text).length :=
    Utf8.length_le_length_encode text.toList
  obtain ⟨log, hread⟩ := readTo_of_prefix hnext hfuel
  rw [← Utf8.bytes_eq_encode] at hread
  rw [Unbounded.readTo_eq (Nat.le_refl _), readLiteral, if_pos hp]
  simp only [hread]

/-- A literal matches exactly where the bytes of its text come next, whatever stands before and
behind them. Then it ends as many bytes further on as the text takes, within the buffer, with the
cursor on the last code point of the text, from its first byte to its last; an empty text leaves the
cursor where it was. The loop that reads the text, run without a bound, ends and never fails. -/
theorem recognize_literal (kind : Kind) (text : String)
    (h : s.cur.start ≤ s.cur.stop ∧ s.cur.stop ≤ s.buf.size) :
    let lit := Utf8.bytes text
    let out := (literal kind text).recognize s
    (out.1 = true ↔ lit <+: s.buf.toList.drop s.cur.stop) ∧
    (out.1 = true → out.2.cur.stop = s.cur.stop + lit.length ∧ out.2.cur.stop ≤ s.buf.size ∧
      (text = "" → out.2.cur = s.cur) ∧
      ∀ c, text.toList.getLast? = some c →
        out.2.cur.rune = c ∧
        out.2.cur.start + (String.utf8EncodeChar c).length = out.2.cur.stop ∧
        (s.buf.extract out.2.cur.start out.2.cur.stop).toList = String.utf8EncodeChar c) ∧
    (s.peek lit = true →
      Unbounded.readTo (s.cur.stop + lit.length) s = some (true, out.2)) ∧
    Unbounded.readLiteral kind text s = some out := by
  intro lit out
  have hout : out = s.readLiteral kind text := by
    show (literal kind text).recognize s = _
    rw [recognize]
  have hloop : s.peek lit = true →
      Unbounded.readTo (s.cur.stop + lit.length) s = some (true, out.2) := by
    intro hp
    rw [hout]
    exact readTo_of_peek h kind hp
  have hwhole : Unbounded.readLiteral kind text s = some out := by
    rw [hout]
    exact Unbounded.readLiteral_eq kind text
  by_cases hp : lit <+: s.rest
  · obtain ⟨log, hread⟩ := readLiteral_of_next h kind hp
    rw [hread] at hout
    have hfits : (s.readOver text.toList log).InBounds := InBounds.readOver h hp
    refine ⟨?_, ?_, hloop, hwhole⟩
    · rw [hout]
      exact iff_of_true rfl hp
    · intro _
      rw [hout]
      refine ⟨Cursor.stop_across _ _, hfits.2, ?_, ?_⟩
      · rintro rfl
        rfl
      · intro c hc
        rw [cur_readOver]
        exact span_across hp hc
  · have hfail := readLiteral_of_not_next h kind hp
    rw [hfail] at hout
    refine ⟨?_, ?_, hloop, hwhole⟩
    · rw [hout]
      exact iff_of_false Bool.false_ne_true hp
    · rw [hout]
      intro hmatched
      cases hmatched

/-- Behind the beginning of a code point that is cut short, and before a continuation too many. From
the middle of a code point it does not match. -/
theorem recognize_literal_accent :
    let s : Scanner := { buf := #[0xF0, 0x9F, 0x61, 0xC3, 0xA9, 0xA9], cur := ⟨'x', 0, 2⟩ }
    let u : Scanner := { s with cur := ⟨'a', 2, 4⟩ }
    let out := (literal 3 "aé").recognize s
    (0 ≤ 2 ∧ 2 ≤ s.buf.size) ∧ out.1 = true ∧ out.2.cur = ⟨'é', 3, 5⟩ ∧
      Unbounded.readTo 5 s = some (true, out.2) ∧
      (2 ≤ 4 ∧ 4 ≤ u.buf.size) ∧ ¬ ((literal 3 "é").recognize u).1 = true := by
  intro s u out
  have hs : 0 ≤ 2 ∧ 2 ≤ s.buf.size := by decide
  have hu : 2 ≤ 4 ∧ 4 ≤ u.buf.size := by decide
  have hnext : Utf8.bytes "aé" <+: s.buf.toList.drop 2 := by decide +kernel
  have hnot : ¬ Utf8.bytes "é" <+: u.buf.toList.drop 4 := by decide +kernel
  obtain ⟨hmatch, hend, hloop, _⟩ := recognize_literal (s := s) 3 "aé" hs
  have hout : out.1 = true := hmatch.mpr hnext
  obtain ⟨hstop, _, _, hlast⟩ := hend hout
  obtain ⟨hrune, hstart, _⟩ := hlast 'é' (by decide)
  have hfive : out.2.cur.stop = 5 := hstop
  have hthree : out.2.cur.start = 3 := by
    have hlen : (String.utf8EncodeChar 'é').length = 2 := by decide
    have hsum : out.2.cur.start + (String.utf8EncodeChar 'é').length = out.2.cur.stop := hstart
    omega
  have hcur : out.2.cur = ⟨'é', 3, 5⟩ := by
    rw [← hrune, ← hthree, ← hfive]
  refine ⟨hs, hout, hcur, hloop ?_, hu, ?_⟩
  · exact (peek_iff (s := s) hs).mpr hnext
  · intro hk
    exact hnot ((recognize_literal (s := u) 3 "é" hu).1.mp hk)

end Rule

end PegKit
