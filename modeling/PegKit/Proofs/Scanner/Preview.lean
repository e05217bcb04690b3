import PegKit.Proofs.Scanner.Reading
import PegKit.Proofs.Text.Boundaries
import PegKit.Proofs.Text.Quoted

/-! # The preview in diagnostics

Diagnostics show the bytes that come next, as many as the options say, and go back from where they
cut to the nearest place where a code point begins.

* `Scanner.cutBack_spec`: what going back finds, and what it passes.
* `Scanner.checkedPreview_eq`: with machine words for offsets, and every access checked, the preview
  is the same.
* `Scanner.exists_isLongestText_previewBytes`: of a text it shows the longest beginning that fits.
* `Scanner.render_longest_preview`: what the diagnostic text consists of.
-/

namespace PegKit

namespace Cursor

/-- The text of a cursor has no printable code point beyond ASCII but its own. -/
theorem count_render {x : Char} (hx : 128 ≤ x.toNat) (hprint : isUnprintable x = false)
    (m : Cursor) : m.render.toList.count x = [m.rune].count x := by
  have hascii : ∀ {t : String}, Quoted.isAscii t = true → t.toList.count x = 0 :=
    Quoted.count_of_isAscii hx
  have hblank : " ".toList.count x = 0 := hascii (by decide)
  have hdash : "-".toList.count x = 0 := hascii (by decide)
  simp only [render, String.toList_append, List.count_append, Quoted.count_char hx hprint,
    Nat.toString_eq_repr, hascii (Quoted.isAscii_repr _), hblank, hdash, Nat.add_zero]

end Cursor

namespace Scanner

variable {s : Scanner} {buf : Array UInt8} {start stop top : Nat}

/-! ## Going back from a cut -/

/-- Going back ends at the start or at a byte that is no continuation, and all bytes that it passes
are continuations. -/
theorem cutBack_spec (buf : Array UInt8) (h : start ≤ stop) :
    start ≤ cutBack buf start stop ∧ cutBack buf start stop ≤ stop ∧
      (cutBack buf start stop = start ∨
        (buf[cutBack buf start stop]?).any Utf8.isContinuation = false) ∧
      ∀ j, cutBack buf start stop < j → j ≤ stop →
        (buf[j]?).any Utf8.isContinuation = true := by
  induction stop with
  | zero =>
    rw [cutBack]
    exact ⟨h, Nat.le_refl _, .inl (Nat.eq_zero_of_le_zero h).symm, by omega⟩
  | succ stop ih =>
    rw [cutBack]
    split
    · next hback =>
      rw [Bool.and_eq_true, decide_eq_true_eq] at hback
      obtain ⟨hlt, hbyte⟩ := hback
      obtain ⟨hge, hle, hend, hpassed⟩ := ih (Nat.le_of_lt_succ hlt)
      refine ⟨hge, Nat.le_succ_of_le hle, hend, ?_⟩
      intro j hj hjle
      rcases Nat.le_succ_iff.mp hjle with hjle | rfl
      · exact hpassed j hj hjle
      · exact hbyte
    · next hback =>
      refine ⟨h, Nat.le_refl _, ?_, by omega⟩
      rw [Bool.and_eq_true, decide_eq_true_eq, not_and] at hback
      rcases Nat.eq_or_lt_of_le h with heq | hlt
      · exact .inl heq.symm
      · exact .inr (Bool.eq_false_iff.mpr (hback hlt))

/-! ## The bytes that are shown -/

/-- The upcoming bytes that diagnostics show. -/
def previewBytes (s : Scanner) : List UInt8 :=
  let (start, stop) := s.previewSpan.1
  (s.buf.extract start stop).toList

/-- The number of upcoming bytes that diagnostics show. -/
def previewSize (s : Scanner) : Nat :=
  if s.options.previewLen < s.rest.length then
    cutBack s.buf s.cur.stop (s.cur.stop + s.options.previewLen) - s.cur.stop
  else s.rest.length

theorem previewSpan_eq (h : s.InBounds) : s.previewSpan =
    ((s.cur.stop, s.cur.stop + s.previewSize),
      decide (s.options.previewLen < s.rest.length)) := by
  have hstop := h.2
  have hmin : min s.cur.stop s.buf.size = s.cur.stop := Nat.min_eq_left hstop
  have hlen : s.rest.length = s.buf.size - s.cur.stop := s.length_rest
  unfold previewSpan previewSize
  by_cases hmore : s.options.previewLen < s.rest.length
  · have hcut : min (s.cur.stop + s.options.previewLen) s.buf.size =
        s.cur.stop + s.options.previewLen := by omega
    have hlt : s.cur.stop + s.options.previewLen < s.buf.size := by omega
    have hback := (cutBack_spec s.buf
      (Nat.le_add_right s.cur.stop s.options.previewLen)).1
    simp only [hmin, hcut, hlt, hmore, decide_true, if_true, Nat.add_sub_cancel' hback]
  · have hall : min (s.cur.stop + s.options.previewLen) s.buf.size = s.buf.size := by omega
    have hsize : s.cur.stop + s.rest.length = s.buf.size := by omega
    simp only [hmin, hall, Nat.lt_irrefl, hmore, decide_false, if_false, hsize]
    rfl

theorem previewSize_le_previewLen (s : Scanner) : s.previewSize ≤ s.options.previewLen := by
  unfold previewSize
  split
  · have hback := (cutBack_spec s.buf
      (Nat.le_add_right s.cur.stop s.options.previewLen)).2.1
    omega
  · next hmore => exact Nat.le_of_not_lt hmore

theorem previewSize_le_length (s : Scanner) : s.previewSize ≤ s.rest.length := by
  have hle := s.previewSize_le_previewLen
  rcases Nat.lt_or_ge s.options.previewLen s.rest.length with hmore | hall
  · exact Nat.le_trans hle (Nat.le_of_lt hmore)
  · exact Nat.le_of_eq (if_neg (Nat.not_lt.mpr hall))

/-- They are the first of those that lie ahead. -/
theorem previewBytes_eq (h : s.InBounds) : s.previewBytes = s.rest.take s.previewSize := by
  rw [previewBytes, previewSpan_eq h, rest]
  simp only [Array.toList_extract, List.extract_eq_take_drop, Nat.add_sub_cancel_left]

theorem length_previewBytes (h : s.InBounds) : s.previewBytes.length = s.previewSize := by
  rw [previewBytes_eq h, List.length_take, Nat.min_eq_left s.previewSize_le_length]

/-- The cursor comes first, then the quoted text of these bytes, with dots if there are more. -/
theorem render_eq (h : s.InBounds) : s.render = s.cur.render ++ " " ++
    Quoted.text (Utf8.lossy s.previewBytes ++
      if s.options.previewLen < s.rest.length then "..." else "") := by
  rw [render, previewBytes, previewSpan_eq h]
  simp only [slice, decide_eq_true_eq]

/-! ## Machine words -/

/-- Goes back as `cutBack` does, with no result if it comes to an offset behind the buffer. -/
def checkedCutBack (buf : Array UInt8) (start : Nat) : (stop : Nat) → Option Nat
  | 0 => some 0
  | stop + 1 =>
    if start < stop + 1 then
      (buf[stop + 1]?).bind fun b =>
        if Utf8.isContinuation b then checkedCutBack buf start stop else some (stop + 1)
    else some (stop + 1)

/-- The bytes that diagnostics show and whether the buffer goes on after them, in words up to `top`:
a greater sum becomes `top`. There is no result if a byte is read or the buffer cut where it has
nothing. -/
def checkedPreview (s : Scanner) (top : Nat) : Option (List UInt8 × Bool) := do
  let start := min s.cur.stop s.buf.size
  let stop := min (min (start + s.options.previewLen) top) s.buf.size
  let truncated := decide (stop < s.buf.size)
  let stop ← if truncated then checkedCutBack s.buf start stop else some stop
  if start ≤ stop ∧ stop ≤ s.buf.size then
    some ((s.buf.extract start stop).toList, truncated)
  else none

theorem checkedCutBack_eq (h : stop < buf.size) :
    checkedCutBack buf start stop = some (cutBack buf start stop) := by
  induction stop with
  | zero => rfl
  | succ stop ih =>
    rw [checkedCutBack, cutBack, Array.getElem?_eq_getElem h, Option.bind_some, Option.any_some,
      ih (Nat.lt_of_succ_lt h)]
    by_cases hlt : start < stop + 1
    · by_cases hbyte : Utf8.isContinuation buf[stop + 1] = true
      · simp [hlt, hbyte]
      · simp [hlt, hbyte]
    · simp [hlt]

/-- No offset leaves the buffer, and no sum that is cut off would have stayed in it. -/
theorem checkedPreview_eq (s : Scanner) (htop : s.buf.size ≤ top) :
    s.checkedPreview top = some (s.previewBytes, s.previewSpan.2) := by
  have hsum : min (min (min s.cur.stop s.buf.size + s.options.previewLen) top) s.buf.size =
      min (min s.cur.stop s.buf.size + s.options.previewLen) s.buf.size := by omega
  have hstart : min s.cur.stop s.buf.size ≤
      min (min s.cur.stop s.buf.size + s.options.previewLen) s.buf.size := by omega
  rw [checkedPreview, previewBytes, previewSpan, hsum]
  generalize min s.cur.stop s.buf.size = start at hstart
  generalize hstop : min (start + s.options.previewLen) s.buf.size = stop at hstart
  have hle : stop ≤ s.buf.size := hstop ▸ Nat.min_le_right _ _
  by_cases hmore : stop < s.buf.size
  · obtain ⟨hge, hback, _⟩ := cutBack_spec s.buf hstart
    simp only [hmore, decide_true, if_true, checkedCutBack_eq hmore, Option.bind_eq_bind,
      Option.bind_some, if_pos (And.intro hge (Nat.le_trans hback hle))]
  · simp only [hmore, decide_false, Bool.false_eq_true, if_false, Option.bind_eq_bind,
      Option.bind_some, if_pos (And.intro hstart hle)]

/-! ## Previews of text -/

theorem isBoundary_rest {k : Nat} (hk : k < s.rest.length) : Utf8.isBoundary s.rest k =
    !(s.buf[s.cur.stop + k]?).any Utf8.isContinuation := by
  have hbyte : s.rest[k]? = s.buf[s.cur.stop + k]? := by
    rw [rest, List.getElem?_drop, Array.getElem?_toList]
  rw [Utf8.isBoundary, ← hbyte, List.getElem?_eq_getElem hk]
  rfl

/-- Where a text lies ahead, what is shown of it ends at a boundary, the last one within the bytes
that the options allow. -/
theorem isBoundary_previewSize (hvalid : Utf8.IsValid s.rest) :
    Utf8.isBoundary s.rest s.previewSize = true ∧
      ∀ j, s.previewSize < j → j ≤ s.options.previewLen → Utf8.isBoundary s.rest j = false := by
  rw [previewSize]
  split
  · next hmore =>
    obtain ⟨hge, hle, hend, hpassed⟩ := cutBack_spec s.buf
      (Nat.le_add_right s.cur.stop s.options.previewLen)
    generalize cutBack s.buf s.cur.stop (s.cur.stop + s.options.previewLen) = cut at *
    obtain ⟨k, rfl⟩ := Nat.exists_eq_add_of_le hge
    rw [Nat.add_sub_cancel_left]
    refine ⟨?_, ?_⟩
    · rcases hend with hzero | hbyte
      · have hk : k = 0 := by omega
        rw [hk]
        exact hvalid.isBoundary_zero
      · rw [isBoundary_rest (by omega), hbyte]
        rfl
    · intro j hj hlen
      rw [isBoundary_rest (by omega), hpassed (s.cur.stop + j) (by omega) (by omega)]
      rfl
  · next hmore =>
    refine ⟨?_, ?_⟩
    · rw [Utf8.isBoundary_of_length_le (Nat.le_refl _)]
      exact decide_eq_true rfl
    · intro j hj _
      rw [Utf8.isBoundary_of_length_le (Nat.le_of_lt hj)]
      exact decide_eq_false (Nat.ne_of_gt hj)

theorem exists_isLongestText_previewBytes (h : s.InBounds) (hvalid : Utf8.IsValid s.rest) :
    ∃ cs, s.previewBytes = Utf8.encode cs ∧
      Utf8.IsLongestText s.rest s.options.previewLen cs := by
  obtain ⟨hend, hlast⟩ := isBoundary_previewSize hvalid
  rw [previewBytes_eq h]
  exact hvalid.exists_isLongestText s.previewSize_le_previewLen hend hlast

/-! ## The diagnostic text -/

theorem isUnprintable_replacement : isUnprintable '\uFFFD' = false := by
  decide +kernel

/-- What diagnostics show of the bytes that lie ahead. These are the first of them, no more than the
options say, and dots follow exactly if there are more; with words for offsets, however great the
number in the options is, nothing else is shown and no access fails. Where a text lies ahead, it is
the longest beginning of it that fits, in whole code points, and it is shown as it is: each
replacement character between its quotes stands for one in the input. The line has one more only if
the cursor in front of it, which may be a bookmark made up by the caller, is at one. -/
theorem render_longest_preview (h : s.cur.start ≤ s.cur.stop ∧ s.cur.stop ≤ s.buf.size) :
    let shown := s.previewBytes
    let dots := if s.options.previewLen < s.rest.length then "..." else ""
    (shown <+: s.buf.toList.drop s.cur.stop ∧ shown.length ≤ s.options.previewLen) ∧
    s.render = s.cur.render ++ " " ++ Quoted.text (Utf8.lossy shown ++ dots) ∧
    (∀ top, s.buf.size ≤ top →
      s.checkedPreview top = some (shown, decide (s.options.previewLen < s.rest.length))) ∧
    (Utf8.IsValid s.rest → ∃ cs, shown = Utf8.encode cs ∧
      Utf8.IsLongestText s.rest s.options.previewLen cs ∧
      s.render = s.cur.render ++ " " ++ Quoted.text (String.ofList cs ++ dots) ∧
      (Quoted.text (String.ofList cs ++ dots)).toList.count '\uFFFD' = cs.count '\uFFFD' ∧
      s.render.toList.count '\uFFFD' = [s.cur.rune].count '\uFFFD' + cs.count '\uFFFD') := by
  intro shown dots
  have hbytes : shown = s.rest.take s.previewSize := previewBytes_eq h
  have hlen : shown.length = s.previewSize := length_previewBytes h
  have hrender : s.render = s.cur.render ++ " " ++ Quoted.text (Utf8.lossy shown ++ dots) :=
    render_eq h
  refine ⟨⟨?_, ?_⟩, hrender, ?_, ?_⟩
  · rw [hbytes]
    exact List.take_prefix _ _
  · rw [hlen]
    exact s.previewSize_le_previewLen
  · intro top htop
    rw [checkedPreview_eq s htop, previewSpan_eq h]
  · intro hvalid
    obtain ⟨cs, hcs, hlongest⟩ := exists_isLongestText_previewBytes h hvalid
    have htext : s.render = s.cur.render ++ " " ++ Quoted.text (String.ofList cs ++ dots) := by
      rw [hrender, show shown = Utf8.encode cs from hcs, Utf8.lossy_encode]
    have hdots : Quoted.isAscii dots = true := by
      by_cases hmore : s.options.previewLen < s.rest.length
      · simp only [dots, if_pos hmore]
        decide
      · simp only [dots, if_neg hmore]
        decide
    have hcount : (Quoted.text (String.ofList cs ++ dots)).toList.count '\uFFFD' =
        cs.count '\uFFFD' := by
      rw [Quoted.count_text (by decide) isUnprintable_replacement, String.toList_append,
        String.toList_ofList, List.count_append, Quoted.count_of_isAscii (by decide) hdots,
        Nat.add_zero]
    have hblank : " ".toList.count '\uFFFD' = 0 := by decide
    refine ⟨cs, hcs, hlongest, htext, hcount, ?_⟩
    rw [htext, String.toList_append, String.toList_append, List.count_append, List.count_append,
      s.cur.count_render (by decide) isUnprintable_replacement, hblank, Nat.add_zero, hcount]

/-- Six bytes end within the third code point ahead, and what is shown before it is a letter and a
replacement character. A number of bytes as great as words go shows all there is. Among
continuations without a code point nothing is shown. A made-up cursor is shown as it is. -/
theorem render_longest_preview_cut :
    let s : Scanner :=
      { buf := (Utf8.bytes "ab\uFFFD👿c").toArray
        cur := ⟨'a', 0, 1⟩
        options := { previewLen := 6 } }
    let u : Scanner := s.setPreviewLen (UInt64.size - 1)
    let v : Scanner :=
      { buf := #[0x61, 0x80, 0x80, 0x80], cur := ⟨'a', 0, 1⟩, options := { previewLen := 2 } }
    let w : Scanner := { buf := (Utf8.bytes "ab").toArray, cur := ⟨'\uFFFD', 0, 1⟩ }
    (0 ≤ 1 ∧ 1 ≤ s.buf.size) ∧ Utf8.IsValid s.rest ∧ s.previewBytes = Utf8.bytes "b\uFFFD" ∧
      s.render = "'a' 0-1 \"b\uFFFD...\"" ∧
      Utf8.IsLongestText s.rest 6 ['b', '\uFFFD'] ∧
      (Quoted.text (String.ofList ['b', '\uFFFD'] ++ "...")).toList.count '\uFFFD' = 1 ∧
      u.checkedPreview (UInt64.size - 1) = some (Utf8.bytes "b\uFFFD👿c", false) ∧
      (0 ≤ 1 ∧ 1 ≤ v.buf.size) ∧ v.previewBytes = [] ∧ v.render = "'a' 0-1 \"...\"" ∧
      (0 ≤ 1 ∧ 1 ≤ w.buf.size) ∧ w.render = "'\uFFFD' 0-1 \"b\"" ∧
      w.render.toList.count '\uFFFD' = 1 := by
  intro s u v w
  have hs : 0 ≤ 1 ∧ 1 ≤ s.buf.size := by decide +kernel
  have hv : 0 ≤ 1 ∧ 1 ≤ v.buf.size := by decide
  have hw : 0 ≤ 1 ∧ 1 ≤ w.buf.size := by decide +kernel
  have hline : w.render = "'\uFFFD' 0-1 \"b\"" := by
    refine (render_longest_preview (s := w) hw).2.1.trans ?_
    decide +kernel
  have hrest : s.rest = Utf8.encode ['b', '\uFFFD', '👿', 'c'] := by decide +kernel
  have hvalid : Utf8.IsValid s.rest := hrest ▸ Utf8.isValid_encode _
  have hshown : s.previewBytes = Utf8.encode ['b', '\uFFFD'] := by decide +kernel
  obtain ⟨_, _, _, htext⟩ := render_longest_preview (s := s) hs
  obtain ⟨cs, hcs, hlongest, hrender, hcount, _⟩ := htext hvalid
  have hsame : Utf8.encode cs = Utf8.encode ['b', '\uFFFD'] := hcs.symm.trans hshown
  obtain rfl : cs = ['b', '\uFFFD'] :=
    Utf8.encode_inj (List.prefix_refl _) (hsame ▸ List.prefix_refl _) (congrArg List.length hsame)
  refine ⟨hs, hvalid, hshown, hrender.trans ?_, hlongest, hcount.trans ?_, ?_, hv, ?_, ?_, hw, hline,
    ?_⟩
  · decide +kernel
  · decide
  · -- the sum of the cursor's end and the greatest word is no word
    have htop : u.buf.size ≤ UInt64.size - 1 := by decide +kernel
    have hwords := (render_longest_preview (s := u) hs).2.2.1 (UInt64.size - 1) htop
    refine hwords.trans ?_
    decide +kernel
  · decide +kernel
  · refine (render_longest_preview (s := v) hv).2.1.trans ?_
    decide +kernel
  · rw [hline]
    decide +kernel

end Scanner

end PegKit
