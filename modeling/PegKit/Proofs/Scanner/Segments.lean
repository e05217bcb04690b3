import PegKit.Proofs.Scanner.Locating
import PegKit.Proofs.Text.Utf8
import PegKit.Scanner.Lemmas

/-! # Segments of a buffer

The pass that locates offsets cuts the buffer into segments from the left. A line break ends its
line only once offsets at its end are answered, so it matters which segment is the last.

* `Segment.cutFrom` is the list of the segments, and `Segment.endsInBreak` says that the last of
  them is a line break.
* `Survey.seek_past_end`: where the pass leads an offset behind the buffer, seen from where it leads
  the end of the buffer.
* `Scanner.locate_past_end_iff`: when the two are located alike.
-/

namespace PegKit

namespace Segment

variable {buf : Array UInt8} {newlines : List String} {offset : Nat}

/-- A segment that begins in the buffer takes a byte at least, and ends in the buffer. -/
theorem startingAt_fits (newlines : List String) (h : offset < buf.size) :
    0 < (startingAt buf newlines offset).size ∧
      offset + (startingAt buf newlines offset).size ≤ buf.size := by
  rw [startingAt]
  split
  · next nl hnl =>
    -- the text of a line break stands in the buffer, and it is not empty
    have hfound := List.find?_some hnl
    rw [Bool.and_eq_true, decide_eq_true_eq, Scanner.matchesAt_iff] at hfound
    rcases hfound with ⟨hne, _, hprefix⟩
    have hpos : (Utf8.bytes nl).length ≠ 0 := by
      intro h0
      exact hne (String.toList_eq_nil_iff.mp (Utf8.length_encode_eq_zero.mp h0))
    have hsize : buf.toList.length = buf.size := Array.length_toList
    have hlen := hprefix.length_le
    rw [List.length_drop, hsize] at hlen
    exact ⟨Nat.pos_of_ne_zero hpos, show offset + (Utf8.bytes nl).length ≤ buf.size by omega⟩
  · have hle := Utf8.size_decode_le (buf.extract offset (offset + Utf8.window)).toList
    rw [Array.length_toList, Array.size_extract] at hle
    dsimp only
    omega

/-- The segments that a buffer is cut into from an offset on. -/
def cutFrom (buf : Array UInt8) (newlines : List String) (offset : Nat) : List Segment :=
  if offset < buf.size then
    let g := startingAt buf newlines offset
    g :: cutFrom buf newlines (offset + g.size)
  else []
termination_by buf.size - offset
decreasing_by
  next h =>
  have hpos := (startingAt_fits newlines h).1
  omega

theorem cutFrom_of_lt (h : offset < buf.size) : cutFrom buf newlines offset =
    startingAt buf newlines offset ::
      cutFrom buf newlines (offset + (startingAt buf newlines offset).size) := by
  rw [cutFrom, if_pos h]

theorem cutFrom_of_le (h : buf.size ≤ offset) : cutFrom buf newlines offset = [] := by
  rw [cutFrom, if_neg (Nat.not_lt.mpr h)]

/-- Within the buffer there is a segment to come. -/
theorem cutFrom_ne_nil (h : offset < buf.size) : cutFrom buf newlines offset ≠ [] := by
  rw [cutFrom_of_lt h]
  exact List.cons_ne_nil _ _

/-- Whether there is a last segment and it is a line break. -/
def lastIsBreak (gs : List Segment) : Bool :=
  gs.getLast?.any isBreak

theorem lastIsBreak_cons {g : Segment} {gs : List Segment} (h : gs ≠ []) :
    lastIsBreak (g :: gs) = lastIsBreak gs := by
  rw [lastIsBreak, lastIsBreak, List.getLast?_cons_of_ne_nil h]

/-- Whether the last segment of a buffer is a line break. -/
def endsInBreak (buf : Array UInt8) (newlines : List String) : Bool :=
  lastIsBreak (cutFrom buf newlines 0)

end Segment

open Segment

/-- The beginning of the line after a location. -/
def Location.nextLine (p : Location) : Location :=
  { p with line := p.line + 1, lineByte := 0, lineRune := 0 }

theorem Location.nextLine_ne (p : Location) : p.nextLine ≠ p := by
  intro h
  have hline : p.line + 1 = p.line := congrArg Location.line h
  omega

/-! ## Behind the end -/

namespace Survey

variable {buf : Array UInt8} {newlines : List String} {v : Survey} {offset : Nat}

@[simp] theorem offset_pass (v : Survey) (g : Segment) : (v.pass g).offset = v.offset + g.size :=
  rfl

@[simp] theorem offset_afterBreak (v : Survey) (g : Segment) :
    (v.afterBreak g).offset = v.offset := by
  rw [afterBreak]
  split <;> rfl

theorem here_afterBreak (v : Survey) (g : Segment) :
    (v.afterBreak g).here = if g.isBreak = true then v.here.nextLine else v.here := by
  rw [afterBreak]
  split <;> rfl

/-- A pass for an offset behind the buffer goes over every segment, and so does a pass for the end
of the buffer. Only the former goes on to the line after a line break that ends the buffer. -/
theorem seek_past_end {fuel : Nat} (hf : buf.size - v.offset ≤ fuel) (ho : buf.size < offset) :
    v.seek buf newlines fuel offset =
      if lastIsBreak (cutFrom buf newlines v.offset) = true then
        (v.seek buf newlines fuel buf.size).nextLine
      else v.seek buf newlines fuel buf.size := by
  -- on the fuel, of which a segment takes no more than it has bytes
  induction fuel generalizing v with
  | zero =>
    rw [cutFrom_of_le (Nat.sub_eq_zero_iff_le.mp (Nat.le_zero.mp hf)), if_neg nofun]
    rfl
  | succ fuel ih =>
    rcases Nat.lt_or_ge v.offset buf.size with hlt | hge
    case inr => rw [cutFrom_of_le hge, if_neg nofun, seek_of_end hge, seek_of_end hge]
    generalize hg : startingAt buf newlines v.offset = g
    have hfits := startingAt_fits newlines hlt
    have hnext : ((v.pass g).afterBreak g).offset = v.offset + g.size := offset_afterBreak _ _
    rw [hg] at hfits
    rw [seek_succ (Nat.lt_trans hlt ho) hlt hg, seek_succ hlt hlt hg, offset_pass,
      if_neg (by omega), cutFrom_of_lt hlt, hg]
    by_cases hend : buf.size ≤ v.offset + g.size
    -- the last segment, at the end of which the one pass stops and the other goes on
    · rw [if_pos hend, cutFrom_of_le hend, seek_of_end (hnext ▸ hend), here_afterBreak]
      rfl
    · have hrest : cutFrom buf newlines (v.offset + g.size) ≠ [] :=
        cutFrom_ne_nil (Nat.lt_of_not_le hend)
      rw [if_neg hend, ih (by rw [hnext]; omega), hnext, lastIsBreak_cons hrest]

end Survey

namespace Scanner

/-- An offset behind the buffer is located as the end of the buffer is, unless the buffer ends in a
line break. In that case it is at the beginning of the line after it, where the end is not. -/
theorem locate_past_end_iff (s : Scanner) {offset : Nat} (ho : s.buf.size ≤ offset) :
    (s.locate [offset] = s.locate [s.buf.size] ↔
      offset = s.buf.size ∨ endsInBreak s.buf s.options.newlines = false) ∧
    (s.buf.size < offset → endsInBreak s.buf s.options.newlines = true →
      s.locate [offset] = (s.locate [s.buf.size]).map Location.nextLine) := by
  simp only [locate_eq_map, List.map_cons, List.map_nil]
  generalize hp : ({} : Survey).seek s.buf s.options.newlines s.buf.size s.buf.size = p
  rcases Nat.eq_or_lt_of_le ho with rfl | hlt
  · rw [hp]
    exact ⟨iff_of_true rfl (Or.inl rfl), fun hlt => absurd hlt (Nat.lt_irrefl _)⟩
  have hpast : ({} : Survey).seek s.buf s.options.newlines s.buf.size offset =
      if endsInBreak s.buf s.options.newlines = true then p.nextLine else p :=
    hp ▸ Survey.seek_past_end (Nat.sub_le _ _) hlt
  rw [hpast]
  cases endsInBreak s.buf s.options.newlines with
  | true =>
    rw [if_pos rfl]
    refine ⟨iff_of_false ?_ ?_, fun _ _ => rfl⟩
    · intro h
      exact p.nextLine_ne (List.singleton_inj.mp h)
    · rintro (rfl | hno)
      · exact Nat.lt_irrefl _ hlt
      · cases hno
  | false =>
    rw [if_neg Bool.false_ne_true]
    exact ⟨iff_of_true rfl (Or.inr rfl), nofun⟩

/-- Behind a text whose only line break is not at its end, and behind one that a longer line break
ends. -/
theorem locate_past_end_iff_two :
    let s := ofText "a\nb"
    let t := ofText "a\r\n"
    s.buf.size ≤ 9 ∧ endsInBreak s.buf s.options.newlines = false ∧
      s.locate [9] = s.locate [s.buf.size] ∧
      t.buf.size < 9 ∧ endsInBreak t.buf t.options.newlines = true ∧
      t.locate [9] = [⟨'\n', 3, 3, 2, 0, 0⟩] := by
  intro s t
  have hs : s.buf.size ≤ 9 := by decide
  have ht : t.buf.size < 9 := by decide
  have hno : endsInBreak s.buf s.options.newlines = false := by decide +kernel
  have hyes : endsInBreak t.buf t.options.newlines = true := by decide +kernel
  refine ⟨hs, hno, (s.locate_past_end_iff hs).1.mpr (Or.inr hno), ht, hyes, ?_⟩
  rw [(t.locate_past_end_iff (Nat.le_of_lt ht)).2 ht hyes]
  decide +kernel

/-- The end of one line feed is on its line, and what is behind it is on the next. -/
theorem locate_past_end_differs :
    let s := ofText "\n"
    s.buf.size = 1 ∧ s.locate [1] = [⟨'\n', 1, 1, 1, 1, 1⟩] ∧
      s.locate [2] = [⟨'\n', 1, 1, 2, 0, 0⟩] := by
  decide +kernel

end Scanner

end PegKit
