import PegKit.Text.Quoted

/-! # What a quoted text shows

Escapes are written in ASCII.

* `mem_inner`: a code point is shown by itself and ASCII characters.
* `count_text`: a printable code point beyond ASCII is shown as often as it stands in the text.
-/

namespace PegKit.Quoted

variable {quote c x : Char} {t : String}

/-! ## ASCII texts -/

/-- The text has ASCII characters only. -/
def isAscii (t : String) : Bool :=
  t.toList.all (·.toNat < 128)

theorem lt_of_isAscii (ht : isAscii t = true) (hx : x ∈ t.toList) : x.toNat < 128 :=
  of_decide_eq_true (List.all_eq_true.mp ht x hx)

theorem count_of_isAscii (hx : 128 ≤ x.toNat) (ht : isAscii t = true) : t.toList.count x = 0 :=
  List.count_eq_zero.mpr fun hmem => Nat.not_lt.mpr hx (lt_of_isAscii ht hmem)

theorem toNat_digitChar_lt : ∀ d < 16, d.digitChar.toNat < 128 := by
  decide

theorem isAscii_padded (width n : Nat) : isAscii (Hex.padded width n) = true := by
  refine List.all_eq_true.mpr fun y hy => decide_eq_true ?_
  obtain ⟨d, hd, rfl⟩ := Hex.exists_digitChar_of_mem_padded hy
  exact toNat_digitChar_lt d hd

theorem isAscii_repr (n : Nat) : isAscii n.repr = true := by
  refine List.all_eq_true.mpr fun y hy => decide_eq_true ?_
  rw [Nat.toList_repr] at hy
  obtain ⟨d, hd, rfl⟩ := Hex.exists_digitChar_of_mem_toDigits (by decide) hy
  exact toNat_digitChar_lt d (Nat.lt_trans hd (by decide))

/-! ## Escapes -/

/-- A code point is shown by itself and ASCII characters. -/
theorem mem_inner (hx : x ∈ (inner quote c).toList) : x = c ∨ x.toNat < 128 := by
  -- by the kind of escape, in the order in which they are tried
  unfold inner at hx
  split at hx
  · exact .inr (lt_of_isAscii (by decide) hx)
  split at hx
  · exact .inr (lt_of_isAscii (by decide) hx)
  split at hx
  · exact .inr (lt_of_isAscii (by decide) hx)
  split at hx
  · exact .inr (lt_of_isAscii (by decide) hx)
  split at hx
  · exact .inr (lt_of_isAscii (by decide) hx)
  split at hx
  · rw [String.toList_ofList] at hx
    rcases List.mem_cons.mp hx with rfl | hx
    · exact .inr (by decide)
    · exact .inl (List.mem_singleton.mp hx)
  split at hx
  · rw [String.toList_append, String.toList_append, List.mem_append, List.mem_append] at hx
    rcases hx with (hx | hx) | hx
    · exact .inr (lt_of_isAscii (by decide) hx)
    · exact .inr (lt_of_isAscii (isAscii_padded 1 c.toNat) hx)
    · exact .inr (lt_of_isAscii (by decide) hx)
  · rw [String.toList_singleton] at hx
    exact .inl (List.mem_singleton.mp hx)

/-- A printable code point beyond ASCII is shown as it is. -/
theorem inner_of_printable (hquote : quote.toNat < 128) (hc : 128 ≤ c.toNat)
    (hprint : isUnprintable c = false) : inner quote c = String.singleton c := by
  have hne : ∀ d : Char, d.toNat < 128 → c ≠ d := by
    rintro d hd rfl
    exact Nat.not_lt.mpr hc hd
  rw [inner, if_neg (hne _ (by decide)), if_neg (hne _ (by decide)), if_neg (hne _ (by decide)),
    if_neg (hne _ (by decide)), if_neg (hne _ (by decide)), if_neg (hne _ hquote), hprint]
  rfl

/-! ## How often a code point is shown -/

section Printable

variable (hx : 128 ≤ x.toNat) (hprint : isUnprintable x = false)
include hx hprint

/-- It is shown where it stands and nowhere else. -/
theorem count_inner (hquote : quote.toNat < 128) (c : Char) :
    (inner quote c).toList.count x = [c].count x := by
  by_cases hc : c = x
  · subst hc
    rw [inner_of_printable hquote hx hprint, String.toList_singleton]
  · have hshown : x ∉ (inner quote c).toList := by
      intro hmem
      rcases mem_inner hmem with rfl | hlt
      · exact hc rfl
      · exact Nat.not_lt.mpr hx hlt
    have hself : x ∉ [c] := fun hmem => hc (List.mem_singleton.mp hmem).symm
    rw [List.count_eq_zero.mpr hshown, List.count_eq_zero.mpr hself]

theorem count_char (c : Char) : (char c).toList.count x = [c].count x := by
  have hmark : "'".toList.count x = 0 := count_of_isAscii hx (by decide)
  rw [char, String.toList_append, String.toList_append, List.count_append, List.count_append,
    count_inner hx hprint (by decide), hmark, Nat.zero_add, Nat.add_zero]

theorem count_text (t : String) : (text t).toList.count x = t.toList.count x := by
  have hmark : "\"".toList.count x = 0 := count_of_isAscii hx (by decide)
  rw [text, String.toList_append, String.toList_append, List.count_append, List.count_append,
    hmark, Nat.zero_add, Nat.add_zero, String.toList_join]
  induction t.toList with
  | nil => rfl
  | cons c cs ih =>
    rw [List.map_cons, List.flatMap_cons, List.count_append, ih,
      count_inner hx hprint (by decide), ← List.count_append, List.singleton_append]

end Printable

end PegKit.Quoted
