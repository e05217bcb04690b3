import Mathlib.Data.List.Chain
import PegKit.Proofs.Scanner.Reading
import PegKit.Proofs.Text.Validity

/-! # Reading a whole buffer

Code points read one after the other until none comes next.

* `Cursor.trail` is the list of the cursors that reading a text passes.
* `Scanner.readAll` reads until it cannot go on; every code point read leaves fewer bytes ahead.
* `readAll_spec`: it reads a text, behind which nothing decodes.
* `readAll_decodes`: from the beginning of a buffer, that text is its longest valid beginning.
-/

namespace PegKit

/-! ## Cursors along a text -/

namespace Cursor

/-- The cursors on each of the code points `cs`, read one after the other. -/
def trail (m : Cursor) : List Char → List Cursor
  | [] => []
  | c :: cs => m.next c :: (m.next c).trail cs

variable {m x : Cursor} {cs : List Char}

@[simp] theorem map_rune_trail (m : Cursor) (cs : List Char) : (m.trail cs).map rune = cs := by
  induction cs generalizing m with
  | nil => rfl
  | cons c cs ih =>
    rw [trail, List.map_cons, ih]
    rfl

/-- Each code point begins where the one before it ends. -/
theorem isChain_trail (m : Cursor) (cs : List Char) :
    List.IsChain (fun a b => b.start = a.stop) (m :: m.trail cs) := by
  induction cs generalizing m with
  | nil => exact .singleton m
  | cons c cs ih => exact .cons_cons rfl (ih (m.next c))

/-- The last cursor of the trail is where reading leads. -/
theorem getLast_trail (m : Cursor) (cs : List Char) :
    (m :: m.trail cs).getLast (List.cons_ne_nil _ _) = m.across cs := by
  induction cs generalizing m with
  | nil => rfl
  | cons c cs ih =>
    rw [across_cons, ← ih (m.next c)]
    exact List.getLast_cons (List.cons_ne_nil _ _)

/-- Where the text comes next in a buffer, each span of the trail holds its code point. -/
theorem span_of_mem_trail {buf : Array UInt8} (h : Utf8.encode cs <+: buf.toList.drop m.stop)
    (hx : x ∈ m.trail cs) :
    (buf.extract x.start x.stop).toList = String.utf8EncodeChar x.rune := by
  induction cs generalizing m with
  | nil => cases hx
  | cons c cs ih =>
    rcases h with ⟨rest, hrest⟩
    rw [Utf8.encode_cons, List.append_assoc] at hrest
    rcases List.mem_cons.mp hx with rfl | hx
    · exact Scanner.extract_eq_of_next ⟨_, hrest⟩
    · refine ih ?_ hx
      show Utf8.encode cs <+: buf.toList.drop (m.stop + _)
      rw [← List.drop_drop, ← hrest, List.drop_left]
      exact List.prefix_append _ _

end Cursor

namespace Scanner

/-! ## Reading until none is left -/

/-- A code point that is read takes bytes. -/
theorem remaining_lt_of_advance {s t : Scanner} (h : s.advance = (true, t)) :
    t.remaining < s.remaining := by
  rcases exists_readOver_of_advance h with ⟨c, log, hc, rfl⟩
  exact remaining_readOver_lt hc

/-- Reads code points until none comes next. The cursors on them, and the scanner in the end. -/
def readAll (s : Scanner) : List Cursor × Scanner :=
  match _h : s.advance with
  | (true, t) =>
    let (ms, u) := t.readAll
    (t.cur :: ms, u)
  | (false, t) => ([], t)
termination_by s.remaining
decreasing_by exact remaining_lt_of_advance ‹_›

variable {s t : Scanner}

theorem readAll_of_read (h : s.advance = (true, t)) :
    s.readAll = (t.cur :: t.readAll.1, t.readAll.2) := by
  rw [readAll]
  split
  · next u hu =>
    rw [h] at hu
    cases hu
    rfl
  · next u hu =>
    rw [h] at hu
    cases hu

theorem readAll_of_stuck (h : s.advance = (false, t)) : s.readAll = ([], t) := by
  rw [readAll]
  split
  · next u hu =>
    rw [h] at hu
    cases hu
  · next u hu =>
    rw [h] at hu
    cases hu
    rfl

/-- What is read is a text that comes next, and what follows it does not decode. -/
theorem readAll_spec (s : Scanner) : ∃ cs log bs n, s.rest = Utf8.encode cs ++ bs ∧
    Utf8.decode bs = .malformed n ∧ s.readAll = (s.cur.trail cs, s.readOver cs log) := by
  rcases s.advance_cases with ⟨c, log, hc, ha⟩ | ⟨⟨n, hn⟩, ha⟩
  · -- behind the first code point there are fewer bytes to read
    have hlt := remaining_lt_of_advance ha
    rcases readAll_spec (s.readOver [c] log) with ⟨cs, log', bs, n, hrest, hn, hread⟩
    refine ⟨c :: cs, log', bs, n, ?_, hn, ?_⟩
    · rcases hc with ⟨more, hmore⟩
      rw [← Utf8.encode_singleton] at hmore
      rw [rest_readOver_of_append hmore.symm] at hrest
      rw [← hmore, hrest, ← List.append_assoc, ← Utf8.encode_append, List.singleton_append]
    · rw [readAll_of_read ha, hread, readOver_readOver]
      rfl
  · exact ⟨[], s.log, s.rest, n, rfl, hn, readAll_of_stuck ha⟩
termination_by s.remaining

/-- From the beginning of a buffer, reading code points until none comes next passes spans that
follow each other, each the encoding of its code point. Together they are the longest beginning of
the buffer that is valid. The attempt to read on changes nothing, and nothing but the cursor and the
log has changed. -/
theorem readAll_decodes (hs : s.cur = .origin) :
    let ms := s.readAll.1
    let t := s.readAll.2
    List.IsChain (fun a b => b.start = a.stop) (.origin :: ms) ∧
      (∀ m ∈ ms, (s.buf.extract m.start m.stop).toList = String.utf8EncodeChar m.rune) ∧
      Utf8.encode (ms.map Cursor.rune) = s.buf.toList.take t.cur.stop ∧
      Utf8.IsValid (s.buf.toList.take t.cur.stop) ∧ t.cur.stop ≤ s.buf.size ∧
      (∀ n ≤ s.buf.size, Utf8.IsValid (s.buf.toList.take n) → n ≤ t.cur.stop) ∧
      t.advance = (false, t) ∧
      t.cur = (Cursor.origin :: ms).getLast (List.cons_ne_nil _ _) ∧
      t = { s with cur := t.cur, log := t.log } := by
  rcases s.readAll_spec with ⟨cs, log, bs, n, hrest, hn, hread⟩
  have hbuf : s.buf.toList = Utf8.encode cs ++ bs := by
    rw [← hrest, rest, hs]
    rfl
  have hstop : (s.readOver cs log).cur.stop = (Utf8.encode cs).length := by
    rw [cur_readOver, Cursor.stop_across, hs]
    exact Nat.zero_add _
  have htake : s.buf.toList.take (Utf8.encode cs).length = Utf8.encode cs := by
    rw [hbuf, List.take_left]
  have hlen : s.buf.size = (Utf8.encode cs).length + bs.length := by
    rw [← Array.length_toList, hbuf, List.length_append]
  have hahead : (s.readOver cs log).rest = bs := rest_readOver_of_append hrest
  rw [hread]
  dsimp only
  rw [hstop, htake, hs, Cursor.map_rune_trail, Cursor.getLast_trail, cur_readOver, hs]
  refine ⟨Cursor.isChain_trail _ _, ?_, rfl, Utf8.isValid_encode cs, ?_, ?_, ?_, rfl, ?_⟩
  · intro m hm
    refine Cursor.span_of_mem_trail ?_ hm
    show Utf8.encode cs <+: s.buf.toList
    exact hbuf ▸ List.prefix_append _ _
  · exact hlen ▸ Nat.le_add_right _ _
  · intro k hk hvalid
    rcases Utf8.isValid_iff_encode.mp hvalid with ⟨ds, hds⟩
    have hpre : Utf8.encode ds <+: Utf8.encode cs ++ bs := hbuf ▸ hds ▸ List.take_prefix _ _
    have hle := Utf8.length_encode_le_of_malformed hn hpre
    rw [← hds, List.length_take, Array.length_toList] at hle
    omega
  · exact advance_of_malformed (hahead.symm ▸ hn)
  · rw [readOver, hs]

/-- A letter and a letter of two bytes, before three bytes that would be a surrogate. -/
theorem readAll_decodes_surrogate :
    let s : Scanner :=
      { buf := #[0x61, 0xC3, 0xA9, 0xED, 0xA0, 0x80], options := { trace := true } }
    s.cur = .origin ∧ s.readAll.1 = [⟨'a', 0, 1⟩, ⟨'é', 1, 3⟩] ∧ s.readAll.2.cur.stop = 3 ∧
      s.readAll.2.advance = (false, s.readAll.2) ∧ ¬ Utf8.IsValid (s.buf.toList.take 6) := by
  intro s
  have hs : s.cur = .origin := rfl
  rcases readAll_decodes hs with ⟨_, _, _, _, _, hlongest, hstuck, hlast, _⟩
  have hread : s.readAll.1 = [⟨'a', 0, 1⟩, ⟨'é', 1, 3⟩] := by decide +kernel
  have hstop : s.readAll.2.cur.stop = 3 := by
    rw [hlast]
    simp only [hread]
    rfl
  refine ⟨hs, hread, hstop, hstuck, ?_⟩
  intro hvalid
  have hle := hlongest 6 (by decide) hvalid
  omega

end Scanner

end PegKit
