import PegKit.Proofs.Scanner.Counting
import PegKit.Proofs.Scanner.Reading
import PegKit.Proofs.Text.Validity

/-! # Reading and locating

Reading takes one code point after the other, and locating one segment after the other. Over a text
the two meet at the end of each code point, unless this is inside a line break.

* `Segment.InsideBreak` says that an offset is inside a line break.
* `Segment.Begins.text_or_inside` is the step: a segment takes the code points it counts from a text
  that comes next, or it is a line break and the text ends inside it.
* `Segment.IsCut.text_or_inside`: so do some segments of a cut.
* `Scanner.location_of_advanceMany`: the location of a cursor that reading led to.
-/

namespace PegKit

namespace Segment

variable {newlines : List String} {bs : List UInt8} {offset : Nat} {g : Segment}
  {gs us vs : List Segment} {cs : List Char}

/-- The offset is inside a line break, behind its beginning and before its end. -/
def InsideBreak (gs : List Segment) (offset : Nat) : Prop :=
  ∃ us g vs, gs = us ++ g :: vs ∧ g.isBreak = true ∧ totalSize us < offset ∧
    offset < totalSize (us ++ [g])

theorem InsideBreak.cons (h : InsideBreak gs offset) :
    InsideBreak (g :: gs) (g.size + offset) := by
  obtain ⟨us, b, vs, rfl, hb, hlo, hhi⟩ := h
  refine ⟨g :: us, b, vs, rfl, hb, ?_, ?_⟩
  · simpa using hlo
  · simpa using hhi

/-- An offset is inside a line break of some segments if the first of them is one and the offset is
inside it, or if it is inside one of the others. -/
theorem insideBreak_cons_iff : InsideBreak (g :: gs) offset ↔
    (g.isBreak = true ∧ 0 < offset ∧ offset < g.size) ∨
      (g.size < offset ∧ InsideBreak gs (offset - g.size)) := by
  constructor
  · rintro ⟨us, b, vs, hgs, hb, hlo, hhi⟩
    cases us with
    | nil =>
      obtain ⟨rfl, rfl⟩ := List.cons.inj hgs
      exact Or.inl ⟨hb, hlo, by simpa using hhi⟩
    | cons a us =>
      obtain ⟨rfl, rfl⟩ := List.cons.inj hgs
      simp only [totalSize_append, totalSize_cons] at hlo hhi
      refine Or.inr ⟨by omega, us, b, vs, rfl, hb, by omega, ?_⟩
      simp only [totalSize_append, totalSize_cons]
      omega
  · rintro (⟨hb, hlo, hhi⟩ | ⟨hlt, h⟩)
    · exact ⟨[], g, gs, rfl, hb, hlo, by simpa using hhi⟩
    · have hsum : g.size + (offset - g.size) = offset := by omega
      exact hsum ▸ h.cons

theorem not_insideBreak_nil : ¬ InsideBreak [] offset := by
  rintro ⟨us, b, vs, hgs, _⟩
  exact List.append_ne_nil_of_right_ne_nil us (List.cons_ne_nil b vs) hgs.symm

instance decidableInsideBreak : (gs : List Segment) → (offset : Nat) →
    Decidable (InsideBreak gs offset)
  | [], _ => isFalse not_insideBreak_nil
  | g :: gs, offset =>
    have := decidableInsideBreak gs (offset - g.size)
    decidable_of_iff' _ insideBreak_cons_iff

/-- Where a text comes next, a segment takes the code points it counts from it and is on the last of
them, unless it is a line break and the text ends inside it. -/
theorem Begins.text_or_inside (h : Begins newlines bs g) (hcs : Utf8.encode cs <+: bs)
    (hne : cs ≠ []) :
    (∃ ts es, cs = ts ++ es ∧ g.size = (Utf8.encode ts).length ∧ g.runes = ts.length ∧
      ts.getLast? = some g.rune) ∨
    g.isBreak = true ∧ (Utf8.encode cs).length < g.size := by
  cases h with
  | @lineBreak before after nl ds d configured first text next =>
    rcases Nat.lt_or_ge (Utf8.encode cs).length (Utf8.bytes nl).length with hlt | hge
    · exact Or.inr ⟨rfl, hlt⟩
    · have hpre : Utf8.bytes nl <+: Utf8.encode cs := List.prefix_of_prefix_length_le next hcs hge
      rw [Utf8.bytes_eq_encode, text] at hpre
      obtain ⟨es, rfl⟩ := Utf8.prefix_of_encode_prefix hpre
      refine Or.inl ⟨ds ++ [d], es, rfl, ?_, ?_, ?_⟩
      · rw [Utf8.bytes_eq_encode, text]
      · simp
      · simp
  | @codePoint d noBreak next =>
    cases cs with
    | nil => exact absurd rfl hne
    | cons c cs =>
      obtain rfl : c = d :=
        Utf8.char_eq_of_prefix_both ((List.prefix_append _ (Utf8.encode cs)).trans hcs) next
      exact Or.inl ⟨[c], cs, rfl, by rw [Utf8.encode_singleton], rfl, rfl⟩
  | malformed noBreak run =>
    cases cs with
    | nil => exact absurd rfl hne
    | cons c cs => exact absurd ((List.prefix_append _ (Utf8.encode cs)).trans hcs) (run.no_char c)

/-- Where a text comes next, some segments of the cut take it from beginning to end and count its
code points, unless it ends inside a line break. -/
theorem IsCut.text_or_inside (h : IsCut newlines bs gs) (hcs : Utf8.encode cs <+: bs) :
    (∃ us, us <+: gs ∧ totalSize us = (Utf8.encode cs).length ∧ totalRunes us = cs.length ∧
      us.getLast?.map Segment.rune = cs.getLast?) ∨
    InsideBreak gs (Utf8.encode cs).length := by
  induction h generalizing cs with
  | nil =>
    have hnil : cs = [] :=
      Utf8.length_encode_eq_zero.mp (List.length_eq_zero_iff.mpr (List.prefix_nil.mp hcs))
    exact Or.inl ⟨[], List.nil_prefix, by simp [hnil], by simp [hnil], by simp [hnil]⟩
  | @cons bs g gs begins rest ih =>
    by_cases hne : cs = []
    · exact Or.inl ⟨[], List.nil_prefix, by simp [hne], by simp [hne], by simp [hne]⟩
    rcases begins.text_or_inside hcs hne with ⟨ts, es, rfl, hsize, hrunes, hlast⟩ | ⟨hb, hlt⟩
    · -- the rest of the text comes next behind the segment
      have hes : Utf8.encode es <+: bs.drop g.size := by
        obtain ⟨more, rfl⟩ := hcs
        rw [hsize, Utf8.encode_append, List.append_assoc, List.drop_left]
        exact List.prefix_append _ _
      have hlen : (Utf8.encode (ts ++ es)).length = g.size + (Utf8.encode es).length := by
        rw [Utf8.encode_append, List.length_append, hsize]
      rcases ih hes with ⟨us, hus, hbytes, hcount, hrune⟩ | hinside
      · refine Or.inl ⟨g :: us, List.cons_prefix_cons.mpr ⟨rfl, hus⟩, ?_, ?_, ?_⟩
        · rw [totalSize_cons, hbytes, hlen]
        · rw [totalRunes_cons, hcount, hrunes, List.length_append]
        · rw [List.getLast?_append, hlast, ← hrune, List.getLast?_cons]
          cases us.getLast? <;> rfl
      · exact Or.inr (hlen ▸ hinside.cons)
    · refine Or.inr ⟨[], g, gs, rfl, hb, ?_, by simpa using hlt⟩
      exact Nat.pos_of_ne_zero fun h0 => hne (Utf8.length_encode_eq_zero.mp h0)

end Segment

open Segment

namespace Scanner

variable {s t : Scanner} {k : Nat} {gs : List Segment}

/-- The location of a cursor from its end. -/
theorem location_of_justReach {us : List Segment}
    (hcut : IsCut t.options.newlines t.buf.toList gs) (hus : us <+: gs)
    (hreach : JustReach t.cur.stop us) : t.location = Location.atEndOf us := by
  rw [location, locate_of_justReach hcut hus hreach]
  rfl

/-- After `k` code points from the beginning of a buffer, the location of the cursor is at its end,
has its code point and counts `k` of them, unless the cursor ends inside a line break. In that case
the location is the end of the line break. -/
theorem location_of_advanceMany (hs : s.cur = .origin) (hk : s.advanceMany k = (k, t))
    (hcut : IsCut s.options.newlines s.buf.toList gs) :
    (¬ InsideBreak gs t.cur.stop → t.location.rune = t.cur.rune ∧
      t.location.bufByte = t.cur.stop ∧ t.location.bufRune = k) ∧
    ∀ us g vs, gs = us ++ g :: vs → g.isBreak = true → totalSize us < t.cur.stop →
      t.cur.stop < totalSize (us ++ [g]) →
      t.location.bufByte = totalSize (us ++ [g]) ∧ t.location = Location.atEndOf (us ++ [g]) ∧
        t.locate [totalSize (us ++ [g])] = [t.location] := by
  obtain ⟨cs, log, rfl, hcs, rfl⟩ := exists_readOver_of_advanceMany hk
  have hbuf : Utf8.encode cs <+: s.buf.toList := by
    rw [rest, hs] at hcs
    exact hcs
  have hstop : (s.readOver cs log).cur.stop = (Utf8.encode cs).length := by
    rw [cur_readOver, Cursor.stop_across, hs]
    exact Nat.zero_add _
  have hrune : (s.readOver cs log).cur.rune = cs.getLast?.getD '\x00' := by
    rw [cur_readOver, Cursor.rune_across, hs]
    rfl
  constructor
  · intro houtside
    rw [hstop] at houtside
    obtain ⟨us, hus, hbytes, hcount, hlast⟩ := (hcut.text_or_inside hbuf).resolve_right houtside
    have hreach : JustReach (s.readOver cs log).cur.stop us := by
      rw [hstop, ← hbytes]
      exact justReach_totalSize fun g hg => hcut.size_pos g (hus.subset hg)
    have hloc : (s.readOver cs log).location = Location.atEndOf us :=
      location_of_justReach hcut hus hreach
    rw [hloc]
    exact ⟨by rw [Location.atEndOf, hlast, hrune], hbytes.trans hstop.symm, hcount⟩
  · intro us g vs hgs hb hlo hhi
    have hus : us ++ [g] <+: gs := ⟨vs, by simp [hgs]⟩
    have hloc : (s.readOver cs log).location = Location.atEndOf (us ++ [g]) :=
      location_of_justReach hcut hus (justReach_concat hlo (Nat.le_of_lt hhi))
    rw [hloc]
    refine ⟨rfl, rfl, ?_⟩
    exact locate_of_justReach hcut hus (justReach_concat (Nat.lt_trans hlo hhi) (Nat.le_refl _))

/-- A letter of two bytes and a line break of two code points. After one code point the cursor is
at the beginning of the line break, and after two it is inside. -/
theorem location_of_advanceMany_crlf :
    let s : Scanner := { buf := #[0xC3, 0xA9, 0x0D, 0x0A, 0xFF] }
    let gs : List Segment := [⟨'é', 2, 1, false⟩, ⟨'\n', 2, 2, true⟩, ⟨'\uFFFD', 1, 1, false⟩]
    let t := (s.advanceMany 1).2
    let u := (s.advanceMany 2).2
    s.cur = .origin ∧ IsCut s.options.newlines s.buf.toList gs ∧
      s.advanceMany 1 = (1, t) ∧ ¬ InsideBreak gs t.cur.stop ∧ t.location.rune = 'é' ∧
      t.location.bufByte = 2 ∧ t.location.bufRune = 1 ∧
      s.advanceMany 2 = (2, u) ∧ u.cur.stop = 3 ∧ InsideBreak gs u.cur.stop ∧
      u.location.bufByte = 4 ∧ u.locate [4] = [u.location] := by
  intro s gs t u
  have hs : s.cur = .origin := rfl
  have hgs : gs = cutFrom s.buf s.options.newlines 0 := by decide +kernel
  have hcut : IsCut s.options.newlines s.buf.toList gs := (isCut_iff _ _ _).mpr hgs
  have ht : s.advanceMany 1 = (1, t) := Prod.ext (by decide +kernel) rfl
  have hu : s.advanceMany 2 = (2, u) := Prod.ext (by decide +kernel) rfl
  have htcur : t.cur = ⟨'é', 0, 2⟩ := by decide +kernel
  have hucur : u.cur = ⟨'\r', 2, 3⟩ := by decide +kernel
  have houtside : ¬ InsideBreak gs t.cur.stop := by
    rw [htcur]
    decide
  have hinside : InsideBreak gs u.cur.stop := by
    rw [hucur]
    decide
  obtain ⟨hrune, hbyte, hcount⟩ := (location_of_advanceMany hs ht hcut).1 houtside
  obtain ⟨hend, _, hsame⟩ := (location_of_advanceMany hs hu hcut).2 [⟨'é', 2, 1, false⟩]
    ⟨'\n', 2, 2, true⟩ [⟨'\uFFFD', 1, 1, false⟩] rfl rfl (by rw [hucur]; decide)
    (by rw [hucur]; decide)
  rw [htcur] at hrune hbyte
  exact ⟨hs, hcut, ht, houtside, hrune, hbyte, hcount, hu, by rw [hucur], hinside, hend, hsame⟩

end Scanner
end PegKit
