import Mathlib.Order.Bounds.Defs
import PegKit.Proofs.Scanner.Segments
import PegKit.Proofs.Text.Malformed

/-! # How bytes are cut into segments

The segments of some bytes, said apart from the pass that goes over them.

* `Segment.Begins` is what a segment is: the first configured line break that comes next, else a
  code point, else a malformed run. `Segment.IsCut` is the cut from the left.
* `Segment.isCut_iff`: there is one way to cut a buffer, and the pass goes it.
* `Segment.JustReach` are the segments up to an offset: the first boundary that is not before it is
  where they end (`JustReach.isLeast`).
-/

namespace PegKit

namespace Segment

/-! ## Cutting bytes into segments -/

/-- None of the line breaks comes next. An empty one never does. -/
def NoBreak (newlines : List String) (bs : List UInt8) : Prop :=
  ∀ nl ∈ newlines, nl ≠ "" → ¬ Utf8.bytes nl <+: bs

/-- The segment that the bytes begin with: the first of the line breaks that comes next, else a code
point, else a malformed run, which counts as one U+FFFD. -/
inductive Begins (newlines : List String) (bs : List UInt8) : Segment → Prop where
  | lineBreak {before after : List String} {nl : String} {cs : List Char} {c : Char}
      (configured : newlines = before ++ nl :: after) (first : NoBreak before bs)
      (text : nl.toList = cs ++ [c]) (next : Utf8.bytes nl <+: bs) :
      Begins newlines bs ⟨c, (Utf8.bytes nl).length, cs.length + 1, true⟩
  | codePoint {c : Char} (noBreak : NoBreak newlines bs) (next : String.utf8EncodeChar c <+: bs) :
      Begins newlines bs ⟨c, (String.utf8EncodeChar c).length, 1, false⟩
  | malformed {n : Nat} (noBreak : NoBreak newlines bs) (run : Utf8.IsMalformedRun bs n) :
      Begins newlines bs ⟨'\uFFFD', n, 1, false⟩

/-- The segments that the bytes are cut into from the left. -/
inductive IsCut (newlines : List String) : List UInt8 → List Segment → Prop where
  | nil : IsCut newlines [] []
  | cons {bs : List UInt8} {g : Segment} {gs : List Segment} (begins : Begins newlines bs g)
      (rest : IsCut newlines (bs.drop g.size) gs) : IsCut newlines bs (g :: gs)

variable {buf : Array UInt8} {newlines : List String} {offset : Nat} {bs : List UInt8} {g : Segment}
  {gs us : List Segment}

/-- A segment has a byte at least. -/
theorem Begins.size_pos (h : Begins newlines bs g) : 0 < g.size := by
  cases h with
  | lineBreak configured first text next =>
    refine Nat.pos_of_ne_zero fun h0 => ?_
    rw [Utf8.bytes_eq_encode, text] at h0
    exact List.append_ne_nil_of_right_ne_nil _ (List.cons_ne_nil _ _)
      (Utf8.length_encode_eq_zero.mp h0)
  | codePoint noBreak next => exact Utf8.length_utf8EncodeChar_pos _
  | malformed noBreak run => exact run.pos

/-- A segment has no more bytes than there are. -/
theorem Begins.size_le (h : Begins newlines bs g) : g.size ≤ bs.length := by
  cases h with
  | lineBreak configured first text next => exact next.length_le
  | codePoint noBreak next => exact next.length_le
  | malformed noBreak run => exact run.le_length

/-! ## What the pass finds -/

/-- The line breaks that the pass looks for are those that come next. -/
theorem stands_iff (h : offset ≤ buf.size) {nl : String} :
    (decide (nl ≠ "") && Scanner.matchesAt buf offset (Utf8.bytes nl)) = true ↔
      nl ≠ "" ∧ Utf8.bytes nl <+: buf.toList.drop offset := by
  rw [Bool.and_eq_true, decide_eq_true_eq, Scanner.matchesAt_iff, and_iff_right h]

theorem noBreak_iff (h : offset ≤ buf.size) : NoBreak newlines (buf.toList.drop offset) ↔
    ∀ nl ∈ newlines, ¬ (decide (nl ≠ "") && Scanner.matchesAt buf offset (Utf8.bytes nl)) = true := by
  simp only [NoBreak, stands_iff h, not_and]

/-- The pass looks for a line break in vain where none comes next. -/
theorem find?_break_eq_none_iff (h : offset ≤ buf.size) : (newlines.find? fun nl =>
      nl ≠ "" && Scanner.matchesAt buf offset (Utf8.bytes nl)) = none ↔
    NoBreak newlines (buf.toList.drop offset) := by
  rw [List.find?_eq_none, noBreak_iff h]

/-- The line break that the pass finds is the first of those that come next. -/
theorem find?_break_eq_some_iff (h : offset ≤ buf.size) {nl : String} : (newlines.find? fun nl =>
      nl ≠ "" && Scanner.matchesAt buf offset (Utf8.bytes nl)) = some nl ↔
    (nl ≠ "" ∧ Utf8.bytes nl <+: buf.toList.drop offset) ∧
      ∃ before after, newlines = before ++ nl :: after ∧
        NoBreak before (buf.toList.drop offset) := by
  rw [List.find?_eq_some_iff_append, stands_iff h]
  simp only [noBreak_iff h, Bool.not_eq_true', Bool.not_eq_true]

theorem drop_ne_nil (h : offset < buf.size) : buf.toList.drop offset ≠ [] := by
  rw [Ne, List.drop_eq_nil_iff, Array.length_toList]
  exact Nat.not_le.mpr h

/-- Where a line break comes next, the first such is the segment. -/
theorem startingAt_of_break (h : offset ≤ buf.size) {before after : List String} {nl : String}
    {cs : List Char} {c : Char} (configured : newlines = before ++ nl :: after)
    (first : NoBreak before (buf.toList.drop offset)) (text : nl.toList = cs ++ [c])
    (next : Utf8.bytes nl <+: buf.toList.drop offset) :
    startingAt buf newlines offset = ⟨c, (Utf8.bytes nl).length, cs.length + 1, true⟩ := by
  have hne : nl ≠ "" := by
    rintro rfl
    exact List.append_ne_nil_of_right_ne_nil cs (List.cons_ne_nil c []) text.symm
  have hlen : nl.length = cs.length + 1 := by
    rw [← String.length_toList, text, List.length_append, List.length_singleton]
  rw [startingAt,
    (find?_break_eq_some_iff h).mpr ⟨⟨hne, next⟩, before, after, configured, first⟩]
  simp only [text, List.getLastD_concat, hlen]

/-- Where no line break comes next, the segment is what the bytes ahead decode to. -/
theorem startingAt_of_noBreak (h : offset < buf.size)
    (hno : NoBreak newlines (buf.toList.drop offset)) :
    startingAt buf newlines offset =
      ⟨(Utf8.decode (buf.toList.drop offset)).rune, (Utf8.decode (buf.toList.drop offset)).size, 1,
        false⟩ := by
  have hpos := Utf8.size_decode_pos (drop_ne_nil h)
  have hahead : Utf8.decode (buf.extract offset (offset + Utf8.window)).toList =
      Utf8.decode (buf.toList.drop offset) := by
    rw [Array.toList_extract, List.extract_eq_take_drop, Nat.add_sub_cancel_left,
      Utf8.decode_take]
  rw [startingAt, (find?_break_eq_none_iff (Nat.le_of_lt h)).mpr hno]
  simp only [hahead, Nat.max_eq_right hpos]

/-- The pass finds the segment that comes next. -/
theorem startingAt_begins (h : offset < buf.size) :
    Begins newlines (buf.toList.drop offset) (startingAt buf newlines offset) := by
  have hle := Nat.le_of_lt h
  cases hfind : newlines.find? fun nl =>
      nl ≠ "" && Scanner.matchesAt buf offset (Utf8.bytes nl) with
  | some nl =>
    obtain ⟨⟨hne, next⟩, before, after, configured, first⟩ :=
      (find?_break_eq_some_iff hle).mp hfind
    rcases List.eq_nil_or_concat nl.toList with hnil | ⟨cs, c, text⟩
    · exact absurd (String.toList_eq_nil_iff.mp hnil) hne
    rw [List.concat_eq_append] at text
    rw [startingAt_of_break hle configured first text next]
    exact .lineBreak configured first text next
  | none =>
    have hno := (find?_break_eq_none_iff hle).mp hfind
    rw [startingAt_of_noBreak h hno]
    cases hd : Utf8.decode (buf.toList.drop offset) with
    | scalar c n =>
      obtain ⟨hc, rfl⟩ := Utf8.decode_eq_scalar_iff.mp hd
      exact .codePoint hno hc
    | malformed n => exact .malformed hno ((Utf8.decode_eq_malformed_iff (drop_ne_nil h)).mp hd)

/-- No other segment comes next. -/
theorem Begins.eq_startingAt (hg : Begins newlines (buf.toList.drop offset) g)
    (h : offset < buf.size) : startingAt buf newlines offset = g := by
  cases hg with
  | lineBreak configured first text next =>
    exact startingAt_of_break (Nat.le_of_lt h) configured first text next
  | codePoint noBreak next =>
    rw [startingAt_of_noBreak h noBreak, Utf8.decode_eq_scalar_iff.mpr ⟨next, rfl⟩]
    rfl
  | malformed noBreak run =>
    rw [startingAt_of_noBreak h noBreak,
      (Utf8.decode_eq_malformed_iff (drop_ne_nil h)).mpr run]
    rfl

/-! ## The cut of a buffer -/

theorem isCut_nil_iff : IsCut newlines bs [] ↔ bs = [] := by
  constructor
  · intro h
    cases h
    rfl
  · rintro rfl
    exact .nil

theorem isCut_cons_iff : IsCut newlines bs (g :: gs) ↔
    Begins newlines bs g ∧ IsCut newlines (bs.drop g.size) gs := by
  constructor
  · intro h
    cases h with
    | cons begins rest => exact ⟨begins, rest⟩
  · rintro ⟨begins, rest⟩
    exact .cons begins rest

/-- The pass cuts the buffer into segments as it is to be cut. -/
theorem isCut_cutFrom {offset : Nat} (h : offset ≤ buf.size) :
    IsCut newlines (buf.toList.drop offset) (cutFrom buf newlines offset) := by
  rcases Nat.eq_or_lt_of_le h with rfl | hlt
  · rw [cutFrom_of_le (Nat.le_refl _), List.drop_eq_nil_of_le (Nat.le_of_eq Array.length_toList)]
    exact .nil
  · obtain ⟨hpos, hle⟩ := startingAt_fits newlines hlt
    rw [cutFrom_of_lt hlt]
    refine .cons (startingAt_begins hlt) ?_
    rw [List.drop_drop]
    exact isCut_cutFrom hle
termination_by buf.size - offset

/-- There is no other way to cut it. -/
theorem IsCut.eq_cutFrom (h : offset ≤ buf.size)
    (hcut : IsCut newlines (buf.toList.drop offset) gs) : gs = cutFrom buf newlines offset := by
  induction gs generalizing offset with
  | nil =>
    have hnil : buf.toList.drop offset = [] := isCut_nil_iff.mp hcut
    rw [List.drop_eq_nil_iff, Array.length_toList] at hnil
    exact (cutFrom_of_le hnil).symm
  | cons g gs ih =>
    obtain ⟨begins, rest⟩ := isCut_cons_iff.mp hcut
    have hlt : offset < buf.size := by
      have hpos := begins.size_pos
      have hle := begins.size_le
      rw [List.length_drop, Array.length_toList] at hle
      omega
    obtain rfl := begins.eq_startingAt hlt
    rw [List.drop_drop] at rest
    rw [cutFrom_of_lt hlt, ← ih (startingAt_fits newlines hlt).2 rest]

/-- A buffer is cut into segments in one way, which is the way of the pass. -/
theorem isCut_iff (buf : Array UInt8) (newlines : List String) (gs : List Segment) :
    IsCut newlines buf.toList gs ↔ gs = cutFrom buf newlines 0 := by
  constructor
  · exact fun hcut => IsCut.eq_cutFrom (Nat.zero_le _) hcut
  · rintro rfl
    exact isCut_cutFrom (Nat.zero_le _)

/-! ## Sizes of segments -/

/-- Bytes of the segments. -/
def totalSize : List Segment → Nat
  | [] => 0
  | g :: gs => g.size + totalSize gs

/-- Code points of the segments. -/
def totalRunes : List Segment → Nat
  | [] => 0
  | g :: gs => g.runes + totalRunes gs

@[simp] theorem totalSize_nil : totalSize [] = 0 := rfl

@[simp] theorem totalSize_cons : totalSize (g :: gs) = g.size + totalSize gs := rfl

@[simp] theorem totalSize_append : totalSize (gs ++ us) = totalSize gs + totalSize us := by
  induction gs with
  | nil => simp
  | cons g gs ih => simp [ih, Nat.add_assoc]

@[simp] theorem totalRunes_nil : totalRunes [] = 0 := rfl

@[simp] theorem totalRunes_cons : totalRunes (g :: gs) = g.runes + totalRunes gs := rfl

@[simp] theorem totalRunes_append : totalRunes (gs ++ us) = totalRunes gs + totalRunes us := by
  induction gs with
  | nil => simp
  | cons g gs ih => simp [ih, Nat.add_assoc]

theorem IsCut.size_pos (h : IsCut newlines bs gs) : ∀ g ∈ gs, 0 < g.size := by
  induction h with
  | nil => nofun
  | cons begins rest ih => exact List.forall_mem_cons.mpr ⟨begins.size_pos, ih⟩

/-- The segments of some bytes cover them. -/
theorem IsCut.totalSize_eq (h : IsCut newlines bs gs) : totalSize gs = bs.length := by
  induction h with
  | nil => rfl
  | cons begins rest ih =>
    have hle := begins.size_le
    rw [totalSize_cons, ih, List.length_drop]
    omega

/-! ## Boundaries -/

/-- The offsets at which one of the segments ends, and where the first begins. -/
def boundaries (gs : List Segment) : Set Nat :=
  {b | ∃ us, us <+: gs ∧ totalSize us = b}

/-- The segments reach the offset, and no fewer of them do. -/
def JustReach (offset : Nat) (us : List Segment) : Prop :=
  offset ≤ totalSize us ∧ ∀ ws, ws <+: us → ws ≠ us → totalSize ws < offset

theorem totalSize_mono (h : us <+: gs) : totalSize us ≤ totalSize gs := by
  obtain ⟨ws, rfl⟩ := h
  rw [totalSize_append]
  exact Nat.le_add_right _ _

/-- Nothing is needed to reach the beginning. -/
theorem JustReach.eq_nil (h : JustReach 0 us) : us = [] := by
  cases us with
  | nil => rfl
  | cons g us =>
    have hshort := h.2 [] List.nil_prefix (List.cons_ne_nil g us).symm
    exact absurd hshort (Nat.not_lt_zero _)

/-- An offset behind the beginning of a segment, up to its end, is reached by it. -/
theorem justReach_concat (hlo : totalSize us < offset) (hhi : offset ≤ totalSize (us ++ [g])) :
    JustReach offset (us ++ [g]) := by
  refine ⟨hhi, fun ws hws hne => ?_⟩
  have hshort : ws <+: us := (List.prefix_concat_iff.mp hws).resolve_left hne
  exact Nat.lt_of_le_of_lt (totalSize_mono hshort) hlo

/-- The end of segments is reached by all of them. -/
theorem justReach_totalSize (hpos : ∀ g ∈ us, 0 < g.size) : JustReach (totalSize us) us := by
  rcases List.eq_nil_or_concat us with rfl | ⟨ws, g, rfl⟩
  · exact ⟨Nat.le_refl _, fun ws hws hne => absurd (List.prefix_nil.mp hws) hne⟩
  · rw [List.concat_eq_append] at hpos ⊢
    have hg : 0 < g.size := hpos g (List.mem_append_right _ (List.mem_singleton_self g))
    refine justReach_concat ?_ (Nat.le_refl _)
    rw [totalSize_append, totalSize_cons]
    omega

/-- An offset within the segments is reached by the first few of them. -/
theorem exists_justReach (h : offset ≤ totalSize gs) : ∃ us, us <+: gs ∧ JustReach offset us := by
  rcases Nat.eq_zero_or_pos offset with rfl | hpos
  · refine ⟨[], List.nil_prefix, Nat.zero_le _, fun ws hws hne => ?_⟩
    exact absurd (List.prefix_nil.mp hws) hne
  induction gs generalizing offset with
  | nil => exact absurd h (Nat.not_le.mpr hpos)
  | cons g gs ih =>
    rw [totalSize_cons] at h
    by_cases hg : offset ≤ g.size
    · refine ⟨[g], ⟨gs, rfl⟩, by simpa using hg, fun ws hws hne => ?_⟩
      rcases List.prefix_cons_iff.mp hws with rfl | ⟨t, rfl, ht⟩
      · exact hpos
      · exact absurd (by rw [List.prefix_nil.mp ht]) hne
    · have hless : offset - g.size ≤ totalSize gs := by omega
      have hmore : 0 < offset - g.size := by omega
      obtain ⟨us, hus, hreach, hshort⟩ := ih hless hmore
      refine ⟨g :: us, List.cons_prefix_cons.mpr ⟨rfl, hus⟩, ?_, fun ws hws hne => ?_⟩
      · rw [totalSize_cons]
        omega
      · rcases List.prefix_cons_iff.mp hws with rfl | ⟨t, rfl, ht⟩
        · exact hpos
        · have hlt := hshort t ht fun heq => hne (heq ▸ rfl)
          rw [totalSize_cons]
          omega

/-- They end at the first boundary that is not before the offset. -/
theorem JustReach.isLeast (h : JustReach offset us) (hus : us <+: gs) :
    IsLeast {b | b ∈ boundaries gs ∧ offset ≤ b} (totalSize us) := by
  constructor
  · exact ⟨⟨us, hus, rfl⟩, h.1⟩
  · rintro b ⟨⟨ws, hws, rfl⟩, hb⟩
    rcases List.prefix_or_prefix_of_prefix hws hus with hle | hle
    · by_cases heq : ws = us
      · exact Nat.le_of_eq (congrArg totalSize heq.symm)
      · exact absurd hb (Nat.not_le.mpr (h.2 ws hle heq))
    · exact totalSize_mono hle

end Segment
end PegKit
