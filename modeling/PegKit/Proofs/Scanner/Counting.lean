import Mathlib.Data.List.DropRight
import PegKit.Proofs.Scanner.Segmentation

/-! # Counting by segments

What a location counts, in terms of the segments of the buffer.

* `Location.atEndOf` is the location at the end of some segments, each number of it counted from
  scratch.
* `Survey.behind` is where the pass stands behind some segments, from these alone.
  `Survey.behind_concat`: a step of the pass takes it from there to behind one more.
* `Scanner.locate_counts`: an offset is located at the end of the segments up to the first boundary
  that is not before it.
-/

namespace PegKit

/-! ## Lines -/

namespace Segment

/-- The segments behind the last line break. -/
def openLine (gs : List Segment) : List Segment := gs.rtakeWhile fun g => !g.isBreak

/-- The segments on the line that the last of them is on: those behind the last line break before
it, up to the segment itself. -/
def lastLine (gs : List Segment) : List Segment := openLine gs.dropLast ++ gs.getLast?.toList

@[simp] theorem lastLine_concat (gs : List Segment) (g : Segment) :
    lastLine (gs ++ [g]) = openLine gs ++ [g] := by
  simp [lastLine]

theorem openLine_concat (gs : List Segment) (g : Segment) :
    openLine (gs ++ [g]) = if g.isBreak = true then [] else openLine gs ++ [g] := by
  rw [openLine, List.rtakeWhile_concat]
  cases g.isBreak <;> rfl

theorem totalSize_openLine_le (gs : List Segment) : totalSize (openLine gs) ≤ totalSize gs := by
  obtain ⟨us, hus⟩ : openLine gs <:+ gs := List.rtakeWhile_suffix _ _
  have hsum := congrArg totalSize hus
  rw [totalSize_append] at hsum
  omega

end Segment

open Segment

/-! ## Locations counted from scratch -/

/-- The location at the end of some segments: the last code point of the last of them, the bytes and
code points of all of them, one line more than there are line breaks before the last of them, and
the bytes and code points of those on the line of the last. -/
def Location.atEndOf (gs : List Segment) : Location where
  rune := (gs.getLast?.map Segment.rune).getD '\x00'
  bufByte := totalSize gs
  bufRune := totalRunes gs
  line := 1 + gs.dropLast.countP isBreak
  lineByte := totalSize (lastLine gs)
  lineRune := totalRunes (lastLine gs)

namespace Survey

/-- Where the pass stands behind some segments, on the line that comes after them if the last is a
line break. -/
def behind (gs : List Segment) : Survey where
  offset := totalSize gs
  lineStart := totalSize gs - totalSize (openLine gs)
  here :=
    { rune := (gs.getLast?.map Segment.rune).getD '\x00'
      bufByte := totalSize gs
      bufRune := totalRunes gs
      line := 1 + gs.countP isBreak
      lineByte := totalSize (openLine gs)
      lineRune := totalRunes (openLine gs) }

theorem behind_nil : behind [] = {} := rfl

@[simp] theorem offset_behind (gs : List Segment) : (behind gs).offset = totalSize gs := rfl

@[simp] theorem lineStart_behind (gs : List Segment) :
    (behind gs).lineStart = totalSize gs - totalSize (openLine gs) := rfl

/-- One segment on, the line has grown by the segment. -/
theorem sub_lineStart_behind (gs : List Segment) (g : Segment) :
    totalSize gs + g.size - (behind gs).lineStart = totalSize (openLine gs) + g.size := by
  have hle := totalSize_openLine_le gs
  rw [lineStart_behind]
  omega

/-- Before a new line is begun, the pass is at the location counted from scratch. -/
theorem here_pass_behind (gs : List Segment) (g : Segment) :
    ((behind gs).pass g).here = Location.atEndOf (gs ++ [g]) := by
  rw [pass, offset_behind, sub_lineStart_behind]
  simp [behind, Location.atEndOf]

/-- A step of the pass goes on to behind the next segment. -/
theorem behind_concat (gs : List Segment) (g : Segment) :
    ((behind gs).pass g).afterBreak g = behind (gs ++ [g]) := by
  rw [pass, offset_behind, sub_lineStart_behind]
  cases hg : g.isBreak with
  | true => simp [afterBreak, behind, openLine_concat, hg, Nat.add_assoc]
  | false => simp [afterBreak, behind, openLine_concat, hg, Nat.add_sub_add_right]

end Survey

/-! ## The pass for one offset -/

/-- From behind some segments, the pass goes to the end of those that reach an offset ahead. -/
theorem Survey.seek_behind {buf : Array UInt8} {newlines : List String} {offset fuel : Nat}
    {ws us : List Segment} (hahead : totalSize ws < offset)
    (hus : us <+: cutFrom buf newlines (totalSize ws)) (hreach : JustReach offset (ws ++ us))
    (hfuel : buf.size - totalSize ws ≤ fuel) :
    (behind ws).seek buf newlines fuel offset = Location.atEndOf (ws ++ us) := by
  -- on the segments that are still to come
  induction us generalizing ws fuel with
  | nil =>
    have hle := hreach.1
    rw [List.append_nil] at hle
    exact absurd hle (Nat.not_le.mpr hahead)
  | cons g us ih =>
    have hlt : totalSize ws < buf.size := by
      by_contra hge
      rw [cutFrom_of_le (Nat.not_lt.mp hge)] at hus
      exact List.cons_ne_nil _ _ (List.prefix_nil.mp hus)
    rw [cutFrom_of_lt hlt] at hus
    obtain ⟨rfl, hrest⟩ := List.cons_prefix_cons.mp hus
    obtain ⟨fuel, rfl⟩ : ∃ k, fuel = k + 1 := ⟨fuel - 1, by omega⟩
    generalize hg : startingAt buf newlines (totalSize ws) = g at hrest hreach
    have hpos : 0 < g.size := hg ▸ (startingAt_fits newlines hlt).1
    have hconcat : ws ++ g :: us = (ws ++ [g]) ++ us := by simp
    rw [seek_succ hahead hlt hg, offset_pass, offset_behind, here_pass_behind, behind_concat,
      hconcat]
    split
    · next hle =>
      -- the segment reaches the offset, so it is the last
      have hlast : us = [] := by
        by_contra hne
        have hshort : totalSize (ws ++ [g]) < offset :=
          hreach.2 (ws ++ [g]) (hconcat ▸ List.prefix_append _ _) (by simp [Ne.symm hne])
        rw [totalSize_append, totalSize_cons, totalSize_nil] at hshort
        omega
      rw [hlast, List.append_nil]
    · next hgt =>
      have hsize : totalSize (ws ++ [g]) = totalSize ws + g.size := by simp
      refine ih ?_ ?_ (hconcat ▸ hreach) ?_
      · omega
      · rw [hsize]
        exact hrest
      · omega

namespace Scanner

variable {s : Scanner} {offset : Nat} {gs us : List Segment}

/-- An offset is located at the end of the segments that reach it. -/
theorem locate_of_justReach (hcut : IsCut s.options.newlines s.buf.toList gs) (hus : us <+: gs)
    (hreach : JustReach offset us) : s.locate [offset] = [Location.atEndOf us] := by
  rw [locate_eq_map, List.map_singleton]
  rcases Nat.eq_zero_or_pos offset with rfl | hpos
  · rw [hreach.eq_nil, Survey.seek_of_le (Nat.le_refl _)]
    rfl
  · rw [(isCut_iff _ _ _).mp hcut] at hus
    rw [← Survey.behind_nil, Survey.seek_behind hpos hus hreach (Nat.sub_le _ _), List.nil_append]

/-- A buffer is cut into segments in one way, and an offset in it is located at the end of the
segments up to the first boundary that is not before it. -/
theorem locate_counts (s : Scanner) : ∃ gs, IsCut s.options.newlines s.buf.toList gs ∧
    (∀ gs', IsCut s.options.newlines s.buf.toList gs' → gs' = gs) ∧
    ∀ offset, offset ≤ s.buf.size → ∃ us, us <+: gs ∧
      IsLeast {b | b ∈ boundaries gs ∧ offset ≤ b} (totalSize us) ∧
      s.locate [offset] = [Location.atEndOf us] := by
  have hcut : IsCut s.options.newlines s.buf.toList (cutFrom s.buf s.options.newlines 0) :=
    (isCut_iff _ _ _).mpr rfl
  refine ⟨_, hcut, fun gs' => (isCut_iff _ _ _).mp, fun offset ho => ?_⟩
  have htotal := hcut.totalSize_eq
  rw [Array.length_toList] at htotal
  obtain ⟨us, hus, hreach⟩ := exists_justReach (htotal ▸ ho)
  exact ⟨us, hus, hreach.isLeast hus, locate_of_justReach hcut hus hreach⟩

/-- A letter, three line feeds of which two make one line break, the first half of a code point and
a letter of two bytes. The offset is inside the half. -/
theorem locate_counts_overlapping :
    let s : Scanner :=
      { buf := #[0x61, 0x0A, 0x0A, 0x0A, 0xF0, 0x9F, 0xC3, 0xA9]
        options := { newlines := ["", "\n\n", "\n"] } }
    let gs : List Segment := [⟨'a', 1, 1, false⟩, ⟨'\n', 2, 2, true⟩, ⟨'\n', 1, 1, true⟩,
      ⟨'\uFFFD', 2, 1, false⟩, ⟨'é', 2, 1, false⟩]
    5 ≤ s.buf.size ∧ IsCut s.options.newlines s.buf.toList gs ∧
      (∃ us, us <+: gs ∧ IsLeast {b | b ∈ boundaries gs ∧ 5 ≤ b} (totalSize us) ∧
        s.locate [5] = [Location.atEndOf us]) ∧
      s.locate [5] = [⟨'\uFFFD', 6, 5, 3, 2, 1⟩] := by
  intro s gs
  have ho : 5 ≤ s.buf.size := by decide
  have hgs : gs = cutFrom s.buf s.options.newlines 0 := by decide +kernel
  have hcut : IsCut s.options.newlines s.buf.toList gs := (isCut_iff _ _ _).mpr hgs
  obtain ⟨gs', _, hunique, hloc⟩ := s.locate_counts
  obtain rfl := hunique gs hcut
  exact ⟨ho, hcut, hloc 5 ho, by decide +kernel⟩

end Scanner
end PegKit
