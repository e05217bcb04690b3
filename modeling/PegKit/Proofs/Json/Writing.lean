import PegKit.Json.Value
import PegKit.Proofs.Json.Grammar

/-! # Written strings and kinds

What the writers put out for a string and for a kind is JSON, and spells what was written.

* `spells_quote`: a quoted text spells the text, whichever code points below U+10000 are written by
  number besides the control codes.
* `IsPlainKey.spellsMember`, `SpellsMembers.concat`: the members of an object, one behind the other.
* `spells_render`: a kind spells an integer that is read back as the kind.
-/

namespace PegKit

/-! ## Hexadecimal digits -/

theorem Hex.toList_padded_succ {w n : Nat} : (Hex.padded (w + 2) n).toList =
    (Hex.padded (w + 1) (n / 16)).toList ++ [(n % 16).digitChar] := by
  unfold padded
  rw [String.toList_ofList, String.toList_ofList]
  by_cases hn : n < 16
  · rw [Nat.toDigits_of_lt_base hn, Nat.div_eq_of_lt hn, Nat.mod_eq_of_lt hn, Nat.toDigits_zero]
    show List.replicate (w + 1) '0' ++ _ = List.replicate w '0' ++ ['0'] ++ _
    rw [List.replicate_succ']
  · have hlen (k : Nat) : w + 2 - (k + 1) = w + 1 - k := Nat.add_sub_add_right (w + 1) 1 k
    rw [Nat.toDigits_of_base_le (by decide) (Nat.le_of_not_lt hn), ← List.append_assoc,
      List.length_append, List.length_singleton, hlen]

theorem Hex.toList_padded_one {n : Nat} (hn : n < 16) :
    (Hex.padded 1 n).toList = [n.digitChar] := by
  unfold padded
  rw [String.toList_ofList, Nat.toDigits_of_lt_base hn]
  rfl

namespace Json

theorem hexDigit_digitChar {n : Nat} (hn : n < 16) : HexDigit n.digitChar n :=
  ⟨hn, .inl rfl⟩

/-- Four hexadecimal digits spell a unit. -/
theorem spellsAtom_padded {n : Nat} (hn : n < 0x10000) :
    SpellsAtom ('\\' :: 'u' :: (Hex.padded 4 n).toList) (.unit n) := by
  rw [Hex.toList_padded_succ, Hex.toList_padded_succ, Hex.toList_padded_succ,
    Hex.toList_padded_one (by omega)]
  have hunit := SpellsAtom.unit (hexDigit_digitChar (n := n / 16 / 16 / 16) (by omega))
    (hexDigit_digitChar (n := n / 16 / 16 % 16) (by omega))
    (hexDigit_digitChar (n := n / 16 % 16) (by omega))
    (hexDigit_digitChar (n := n % 16) (by omega))
  have hvalue : ((n / 16 / 16 / 16 * 16 + n / 16 / 16 % 16) * 16 + n / 16 % 16) * 16 +
      n % 16 = n := by omega
  rwa [hvalue] at hunit

/-! ## Strings -/

theorem shortEscape?_mem {c e : Char} (h : shortEscape? c = some e) : (e, c) ∈ shortEscapes := by
  unfold shortEscape? at h
  split at h <;> first | (cases h; decide) | cases h

theorem shortEscape?_none {c : Char} (h : shortEscape? c = none) : c ≠ '"' ∧ c ≠ '\\' := by
  constructor <;> rintro rfl <;> cases h

variable {byNumber : Char → Bool}

/-- Every code point is written as one piece, the code point itself or its number. -/
theorem spellsAtom_escapeChar (hb : ∀ c, byNumber c = true → c.toNat < 0x10000) (c : Char) :
    SpellsAtom (escapeChar byNumber c).toList (.char c) ∨
      SpellsAtom (escapeChar byNumber c).toList (.unit c.toNat) := by
  unfold escapeChar
  split
  · next e he =>
    left
    rw [String.toList_ofList]
    exact .short (shortEscape?_mem he)
  · next he =>
    rcases shortEscape?_none he with ⟨hquote, hbackslash⟩
    split
    · next hc =>
      right
      have hn : c.toNat < 0x10000 := by
        rw [Bool.or_eq_true, decide_eq_true_eq] at hc
        rcases hc with hc | hc
        · exact Nat.lt_trans hc (by decide)
        · exact hb c hc
      rw [String.toList_append]
      exact spellsAtom_padded hn
    · next hc =>
      left
      rw [Bool.or_eq_true, decide_eq_true_eq, not_or] at hc
      rw [String.toList_singleton]
      exact .plain (Char.not_lt.mp hc.1) hquote hbackslash

/-- The characters of a text, escaped one by one. -/
def escaped (byNumber : Char → Bool) (cs : List Char) : List Char :=
  cs.flatMap fun c => (escapeChar byNumber c).toList

theorem toList_quote (byNumber : Char → Bool) (text : String) :
    (quote byNumber text).toList = '"' :: escaped byNumber text.toList ++ ['"'] := by
  unfold quote
  rw [String.toList_append, String.toList_append, String.toList_join, List.flatMap_map]
  rfl

theorem spellsAtoms_escaped (hb : ∀ c, byNumber c = true → c.toNat < 0x10000) (s : List Char) :
    ∃ as, SpellsAtoms (escaped byNumber s) as ∧ Joins as s := by
  unfold escaped
  induction s with
  | nil => exact ⟨[], .nil, .nil⟩
  | cons c s ih =>
    rcases ih with ⟨as, hs, hj⟩
    rw [List.flatMap_cons]
    rcases spellsAtom_escapeChar hb c with hc | hc
    · exact ⟨_, .cons hc hs, .char c hj⟩
    · exact ⟨_, .cons hc hs, .unit c hj⟩

theorem spells_quote (hb : ∀ c, byNumber c = true → c.toNat < 0x10000) (s : String) :
    Spells (quote byNumber s).toList (.string (some s)) := by
  rcases spellsAtoms_escaped hb s.toList with ⟨as, hs, hj⟩
  rw [toList_quote]
  exact .string (.text hs hj)

theorem toNat_lt_of_isSeparator {c : Char} (hc : isSeparator c = true) : c.toNat < 0x10000 := by
  rw [isSeparator, Bool.or_eq_true, decide_eq_true_eq, decide_eq_true_eq] at hc
  omega

theorem spells_quoteCanonical (s : String) :
    Spells (quoteCanonical s).toList (.string (some s)) :=
  spells_quote (fun _ hc => toNat_lt_of_isSeparator hc) s

theorem spells_quotePlain (s : String) : Spells (quotePlain s).toList (.string (some s)) :=
  spells_quote (fun _ hc => absurd hc Bool.false_ne_true) s

/-! ## Members -/

/-- The character stands for itself in a string. -/
def IsPlainChar (c : Char) : Prop :=
  ' ' ≤ c ∧ c ≠ '"' ∧ c ≠ '\\'

instance : DecidablePred IsPlainChar := fun c =>
  inferInstanceAs (Decidable (' ' ≤ c ∧ c ≠ '"' ∧ c ≠ '\\'))

/-- The text is its own spelling, without an escape. -/
def IsPlainKey (key : String) : Prop :=
  ∀ c ∈ key.toList, IsPlainChar c

-- over the characters of the text, where the search for an instance may go over all characters
instance (key : String) : Decidable (IsPlainKey key) :=
  List.decidableBAll _ key.toList

theorem IsPlainKey.spellsText {key : String} (h : IsPlainKey key) :
    SpellsText key.toList (some key) := by
  have hatoms : ∀ cs : List Char, (∀ c ∈ cs, IsPlainChar c) →
      SpellsAtoms cs (cs.map .char) ∧ Joins (cs.map .char) cs := by
    intro cs hcs
    induction cs with
    | nil => exact ⟨.nil, .nil⟩
    | cons c cs ih =>
      obtain ⟨⟨hprintable, hquote, hbackslash⟩, htail⟩ := List.forall_mem_cons.mp hcs
      obtain ⟨hatoms, hjoins⟩ := ih htail
      exact ⟨.cons (.plain hprintable hquote hbackslash) hatoms, .char c hjoins⟩
  exact .text (hatoms _ h).1 (hatoms _ h).2

/-- A key with its value. -/
theorem IsPlainKey.spellsMember {key : String} (h : IsPlainKey key) {cs : List Char} {v : Value}
    (hv : Spells cs v) : SpellsMember ('"' :: (key.toList ++ '"' :: ':' :: cs)) (some key, v) := by
  have hnone : Blanks [] := nofun
  exact SpellsMember.intro hnone h.spellsText hnone hv.padded

/-- A member is added to others behind a comma. -/
theorem SpellsMembers.concat {cs ds : List Char} {ms : List (Text × Value)} {m : Text × Value}
    (h : SpellsMembers cs ms) (hm : SpellsMember ds m) :
    SpellsMembers (cs ++ ',' :: ds) (ms ++ [m]) := by
  match h with
  | .last first => exact .more first (.last hm)
  | .more first others =>
    have hothers := SpellsMembers.concat others hm
    rw [List.append_assoc, List.cons_append]
    exact .more first hothers

/-! ## Kinds -/

/-- No number but zero has a leading zero. -/
theorem head?_toDigits {n : Nat} (hn : n ≠ 0) : (Nat.toDigits 10 n).head? ≠ some '0' := by
  -- on the number; its first digit is that of a tenth of it
  induction n using Nat.strongRecOn with
  | ind n ih =>
    by_cases hlt : n < 10
    · rw [Nat.toDigits_of_lt_base hlt]
      have hdigit : ∀ m < 10, m ≠ 0 → [m.digitChar].head? ≠ some '0' := by decide
      exact hdigit n hlt hn
    · have htenth := ih (n / 10) (by omega) (by omega)
      rcases List.exists_cons_of_ne_nil (Nat.toDigits_ne_nil (b := 10) (n := n / 10)) with
        ⟨d, ds, hd⟩
      rw [hd] at htenth
      rwa [Nat.toDigits_of_base_le (by decide) (Nat.le_of_not_lt hlt), hd]

theorem integerDigits_toDigits (n : Nat) : IntegerDigits (Nat.toDigits 10 n) := by
  refine ⟨⟨Nat.toDigits_ne_nil, ?_⟩, ?_⟩
  · intro c hc
    exact Nat.isDigit_of_mem_toDigits (by decide) (by decide) hc
  · intro hz
    by_cases hn : n = 0
    · rw [hn, Nat.toDigits_zero]
    · exact absurd hz (head?_toDigits hn)

/-- The number that an integer is written as. -/
def Number.ofInt (n : Int) : Number :=
  { negative := decide (n < 0), digits := n.natAbs, isInteger := true }

theorem spellsNumber_toString (n : Int) : SpellsNumber (toString n).toList (.ofInt n) := by
  have hspells : ∀ (negative : Bool) (m : Nat), SpellsNumber
      (minus negative ++ (Nat.toDigits 10 m ++ ([] ++ []))) ⟨negative, m, true⟩ := by
    intro negative m
    have h : SpellsNumber (minus negative ++ _) _ :=
      .intro (integerDigits_toDigits m) .none .none
    rwa [Nat.ofDigitChars_toDigits (by decide) (by decide)] at h
  rw [Int.toString_eq_repr, Int.repr_eq_if]
  unfold Number.ofInt
  split
  · next hn =>
    have habs : n.natAbs = n.toNat := by omega
    have h := hspells false n.toNat
    rw [decide_eq_false (Int.not_lt.mpr hn), habs, Nat.toList_repr]
    rwa [List.append_nil, List.append_nil] at h
  · next hn =>
    have habs : n.natAbs = (-n).toNat := by omega
    have h := hspells true (-n).toNat
    rw [decide_eq_true (Int.not_le.mp hn), habs, String.toList_append, Nat.toList_repr]
    rwa [List.append_nil, List.append_nil] at h

theorem toInt?_ofInt (n : Int) : (Number.ofInt n).toInt? = some n := by
  unfold Number.ofInt Number.toInt?
  by_cases hn : n < 0
  · rw [decide_eq_true hn]
    show (if n.natAbs = 0 then none else some (-(n.natAbs : Int))) = _
    rw [if_neg (by omega)]
    congr 1
    omega
  · rw [decide_eq_false hn]
    show some (n.natAbs : Int) = _
    congr 1
    omega

/-- A kind spells an integer. -/
theorem spells_render (kind : Kind) :
    Spells kind.render.toList (.number (.ofInt kind.toInt)) :=
  .number (spellsNumber_toString kind.toInt)

/-- That integer is in range and is the kind. -/
theorem toKind?_ofInt (kind : Kind) :
    (Value.number (.ofInt kind.toInt)).toKind? = some kind := by
  have hlow : -2147483648 ≤ kind.toInt := kind.le_toInt
  have hhigh : kind.toInt < 2147483648 := kind.toInt_lt
  have hint : (Value.number (.ofInt kind.toInt)).toInt? = some kind.toInt := toInt?_ofInt _
  unfold Value.toKind?
  rw [hint]
  show (if -2147483648 ≤ kind.toInt ∧ kind.toInt ≤ 2147483647 then
    some (Int32.ofInt kind.toInt) else none) = some kind
  rw [if_pos ⟨hlow, by omega⟩, Int32.ofInt_toInt]

end Json

end PegKit
