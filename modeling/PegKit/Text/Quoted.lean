import PegKit.Text.GeneralCategory

/-! # Quoted text

How diagnostics show a code point or a text: between quotes, with the usual short escapes, and with
unprintable code points by number. Only the quote that encloses the text is escaped.

* `Hex` writes and reads hexadecimal digits.
* `isUnprintable` goes by the properties of Unicode 17.
* `Quoted.char` and `Quoted.text` are the quoted forms.
-/

/-! ## Hexadecimal digits -/

namespace PegKit.Hex

/-- The hexadecimal digits of `n` in lower case, at least `width` of them. -/
def padded (width n : Nat) : String :=
  let digits := Nat.toDigits 16 n
  String.ofList (List.replicate (width - digits.length) '0' ++ digits)

/-- The hexadecimal digits of `n` in lower case, without padding. -/
def plain (n : Nat) : String :=
  padded 1 n

/-- The value of a hexadecimal digit of either case. -/
def digit? (c : Char) : Option Nat :=
  if '0' ≤ c ∧ c ≤ '9' then some (c.toNat - '0'.toNat)
  else if 'a' ≤ c ∧ c ≤ 'f' then some (c.toNat - 'a'.toNat + 10)
  else if 'A' ≤ c ∧ c ≤ 'F' then some (c.toNat - 'A'.toNat + 10)
  else none

/-- Numbers are written with the digits below their base. -/
theorem exists_digitChar_of_mem_toDigits {b n : Nat} (hb : 1 < b) {c : Char}
    (hc : c ∈ Nat.toDigits b n) : ∃ d < b, c = d.digitChar := by
  -- on the number; all digits but the last are those of the quotient
  induction n using Nat.strongRecOn with
  | ind n ih =>
    by_cases hn : n < b
    · rw [Nat.toDigits_of_lt_base hn] at hc
      exact ⟨n, hn, List.mem_singleton.mp hc⟩
    · have hbn := Nat.le_of_not_lt hn
      have hpos : 0 < b := Nat.lt_trans Nat.zero_lt_one hb
      rw [Nat.toDigits_of_base_le hb hbn, List.mem_append, List.mem_singleton] at hc
      rcases hc with hc | hc
      · exact ih (n / b) (Nat.div_lt_self (Nat.lt_of_lt_of_le hpos hbn) hb) hc
      · exact ⟨n % b, Nat.mod_lt n hpos, hc⟩

theorem exists_digitChar_of_mem_padded {width n : Nat} {c : Char}
    (hc : c ∈ (padded width n).toList) : ∃ d < 16, c = d.digitChar := by
  rw [padded, String.toList_ofList, List.mem_append] at hc
  rcases hc with hc | hc
  · exact ⟨0, by decide, List.eq_of_mem_replicate hc⟩
  · exact exists_digitChar_of_mem_toDigits (by decide) hc

end PegKit.Hex

/-! ## Unprintable code points -/

namespace PegKit

/-- Spacing marks with the property `Grapheme_Extend`. Two letters have it too, the halfwidth sound
marks U+FF9E and U+FF9F; they take up a place of their own and are shown as they are. -/
def extendingMarkTable : RangeTable Unit := #[
  ⟨0x9BE, 0x9BE, ()⟩, ⟨0x9D7, 0x9D7, ()⟩, ⟨0xB3E, 0xB3E, ()⟩, ⟨0xB57, 0xB57, ()⟩,
  ⟨0xBBE, 0xBBE, ()⟩, ⟨0xBD7, 0xBD7, ()⟩, ⟨0xCC0, 0xCC0, ()⟩, ⟨0xCC2, 0xCC2, ()⟩,
  ⟨0xCC7, 0xCC8, ()⟩, ⟨0xCCA, 0xCCB, ()⟩, ⟨0xCD5, 0xCD6, ()⟩, ⟨0xD3E, 0xD3E, ()⟩,
  ⟨0xD57, 0xD57, ()⟩, ⟨0xDCF, 0xDCF, ()⟩, ⟨0xDDF, 0xDDF, ()⟩, ⟨0x1715, 0x1715, ()⟩,
  ⟨0x1734, 0x1734, ()⟩, ⟨0x1B35, 0x1B35, ()⟩, ⟨0x1B3B, 0x1B3B, ()⟩, ⟨0x1B3D, 0x1B3D, ()⟩,
  ⟨0x1B43, 0x1B44, ()⟩, ⟨0x1BAA, 0x1BAA, ()⟩, ⟨0x1BF2, 0x1BF3, ()⟩, ⟨0x302E, 0x302F, ()⟩,
  ⟨0xA953, 0xA953, ()⟩, ⟨0xA9C0, 0xA9C0, ()⟩, ⟨0x111C0, 0x111C0, ()⟩, ⟨0x11235, 0x11235, ()⟩,
  ⟨0x1133E, 0x1133E, ()⟩, ⟨0x1134D, 0x1134D, ()⟩, ⟨0x11357, 0x11357, ()⟩, ⟨0x113B8, 0x113B8, ()⟩,
  ⟨0x113C2, 0x113C2, ()⟩, ⟨0x113C5, 0x113C5, ()⟩, ⟨0x113C7, 0x113C9, ()⟩, ⟨0x113CF, 0x113CF, ()⟩,
  ⟨0x114B0, 0x114B0, ()⟩, ⟨0x114BD, 0x114BD, ()⟩, ⟨0x115AF, 0x115AF, ()⟩, ⟨0x116B6, 0x116B6, ()⟩,
  ⟨0x11930, 0x11930, ()⟩, ⟨0x1193D, 0x1193D, ()⟩, ⟨0x11F41, 0x11F41, ()⟩, ⟨0x16FF0, 0x16FF1, ()⟩,
  ⟨0x1D165, 0x1D166, ()⟩, ⟨0x1D16D, 0x1D172, ()⟩
]

/-- Whether `c` is shown as part of the code point before it. -/
def isExtending (c : Char) : Bool :=
  GeneralCategory.current c ∈ [GeneralCategory.Mn, .Me] || extendingMarkTable.contains c.toNat

/-- The letters that are shown as nothing. -/
def hangulFillers : List Nat :=
  [0x115F, 0x1160, 0x3164, 0xFFA0]

/-- Whether a quoted text shows `c` by number: controls, format characters, private use and
unassigned code points, separators other than U+0020, letters that would not be seen, and marks that
would attach to the quote before them. -/
def isUnprintable (c : Char) : Bool :=
  isExtending c || hangulFillers.contains c.toNat ||
    c ≠ ' ' && GeneralCategory.current c ∈ [GeneralCategory.Cc, .Cf, .Cs, .Co, .Cn, .Zl, .Zp, .Zs]

end PegKit

/-! ## Quoting -/

namespace PegKit.Quoted

/-- One code point between quotes `quote`. -/
def inner (quote c : Char) : String :=
  if c = '\x00' then "\\0"
  else if c = '\t' then "\\t"
  else if c = '\r' then "\\r"
  else if c = '\n' then "\\n"
  else if c = '\\' then "\\\\"
  else if c = quote then String.ofList ['\\', c]
  else if isUnprintable c then "\\u\x7b" ++ Hex.plain c.toNat ++ "\x7d"
  else String.singleton c

/-- A code point between apostrophes. -/
def char (c : Char) : String :=
  "'" ++ inner '\'' c ++ "'"

/-- A text between double quotes. -/
def text (s : String) : String :=
  "\"" ++ String.join (s.toList.map (inner '"')) ++ "\""

end PegKit.Quoted
