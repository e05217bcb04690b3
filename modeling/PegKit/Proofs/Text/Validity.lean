import PegKit.Proofs.Text.Utf8

/-! # Valid UTF-8

The byte sequences that the standard calls well-formed, by its table of byte ranges, against the
encodings of texts.

* `IsSequence` is the table: one row for each number of bytes.
* `isValid_iff_encode`: the valid byte sequences are the encodings of texts.
* `length_encode_le_of_malformed`: where decoding stops, the longest valid beginning ends.
-/

namespace PegKit.Utf8

/-! ## Well-formed sequences -/

/-- The two bytes that begin a sequence of three. The ranges of the second byte keep out overlong
forms and surrogates. -/
def BeginThree (a b : UInt8) : Prop :=
  a.toNat = 0xE0 ∧ 0xA0 ≤ b.toNat ∧ b.toNat ≤ 0xBF ∨
  0xE1 ≤ a.toNat ∧ a.toNat ≤ 0xEC ∧ 0x80 ≤ b.toNat ∧ b.toNat ≤ 0xBF ∨
  a.toNat = 0xED ∧ 0x80 ≤ b.toNat ∧ b.toNat ≤ 0x9F ∨
  0xEE ≤ a.toNat ∧ a.toNat ≤ 0xEF ∧ 0x80 ≤ b.toNat ∧ b.toNat ≤ 0xBF

/-- The two bytes that begin a sequence of four. The ranges of the second byte keep out overlong
forms and what is above U+10FFFF. -/
def BeginFour (a b : UInt8) : Prop :=
  a.toNat = 0xF0 ∧ 0x90 ≤ b.toNat ∧ b.toNat ≤ 0xBF ∨
  0xF1 ≤ a.toNat ∧ a.toNat ≤ 0xF3 ∧ 0x80 ≤ b.toNat ∧ b.toNat ≤ 0xBF ∨
  a.toNat = 0xF4 ∧ 0x80 ≤ b.toNat ∧ b.toNat ≤ 0x8F

/-- The byte ends a sequence, or stands behind the first two of it. -/
def IsTail (b : UInt8) : Prop :=
  0x80 ≤ b.toNat ∧ b.toNat ≤ 0xBF

/-- The byte sequences that encode one code point. -/
inductive IsSequence : List UInt8 → Prop where
  | one {a : UInt8} (ha : a.toNat ≤ 0x7F) : IsSequence [a]
  | two {a b : UInt8} (ha : 0xC2 ≤ a.toNat ∧ a.toNat ≤ 0xDF) (hb : IsTail b) : IsSequence [a, b]
  | three {a b c : UInt8} (hab : BeginThree a b) (hc : IsTail c) : IsSequence [a, b, c]
  | four {a b c d : UInt8} (hab : BeginFour a b) (hc : IsTail c) (hd : IsTail d) :
    IsSequence [a, b, c, d]

/-- The byte sequences that are text from the first byte to the last. -/
inductive IsValid : List UInt8 → Prop where
  | nil : IsValid []
  | cons {q bs : List UInt8} (hq : IsSequence q) (h : IsValid bs) : IsValid (q ++ bs)

/-! ## Well-formed sequences are encoded code points -/

theorem isTail_tail (n : Nat) : IsTail (UInt8.ofNat (n % 64 + 128)) := by
  rw [IsTail, toNat_tail]
  omega

theorem isSequence_utf8EncodeChar (c : Char) : IsSequence (String.utf8EncodeChar c) := by
  have hv : c.toNat < 0xD800 ∨ 0xDFFF < c.toNat ∧ c.toNat < 0x110000 := c.valid
  unfold String.utf8EncodeChar
  rw [show c.val.toNat = c.toNat from rfl]
  generalize c.toNat = v at hv
  have h1 := isTail_tail v
  have h2 := toNat_tail (v / 64)
  have h3 := toNat_tail (v / 4096)
  -- by the number of bytes
  by_cases ha : v ≤ 127
  · rw [if_pos ha]
    refine .one ?_
    rw [UInt8.toNat_ofNat']
    omega
  rw [if_neg ha]
  by_cases hb : v ≤ 2047
  · have hf : (UInt8.ofNat (v / 64 % 32 + 192)).toNat = v / 64 + 192 := by
      rw [UInt8.toNat_ofNat']
      omega
    rw [if_pos hb]
    refine .two ?_ h1
    omega
  rw [if_neg hb]
  by_cases hd : v ≤ 65535
  · have hf : (UInt8.ofNat (v / 4096 % 16 + 224)).toNat = v / 4096 + 224 := by
      rw [UInt8.toNat_ofNat']
      omega
    rw [if_pos hd]
    refine .three ?_ h1
    unfold BeginThree
    omega
  · have hf : (UInt8.ofNat (v / 262144 % 8 + 240)).toNat = v / 262144 + 240 := by
      rw [UInt8.toNat_ofNat']
      omega
    rw [if_neg hd]
    refine .four ?_ (isTail_tail (v / 64)) h1
    unfold BeginFour
    omega

/-- A well-formed sequence is decoded as a whole. -/
theorem exists_decode_of_isSequence {q : List UInt8} (h : IsSequence q) :
    ∃ c, decode q = .scalar c q.length := by
  cases h with
  | @one a ha =>
    have hl : lead? a = some ⟨0, a.toNat, 0x80, 0xBF⟩ := by
      simp only [lead?]
      rw [if_pos (by omega)]
    refine ⟨Char.ofNat a.toNat, ?_⟩
    simp only [decode, hl, follow]
    rfl
  | @two a b ha hb =>
    have hl : lead? a = some ⟨1, a.toNat - 0xC0, 0x80, 0xBF⟩ := by
      simp only [lead?]
      rw [if_neg (by omega), if_neg (by omega), if_pos (by omega)]
    refine ⟨Char.ofNat ((a.toNat - 0xC0) * 64 + (b.toNat - 0x80)), ?_⟩
    simp only [decode, hl]
    rw [follow_cons rfl hb, follow]
    rfl
  | @three a b c hab hc =>
    unfold BeginThree at hab
    have hl : lead? a = some ⟨2, a.toNat - 0xE0, if a.toNat = 0xE0 then 0xA0 else 0x80,
        if a.toNat = 0xED then 0x9F else 0xBF⟩ := by
      simp only [lead?]
      rw [if_neg (by omega), if_neg (by omega), if_neg (by omega), if_pos (by omega)]
    refine ⟨Char.ofNat (((a.toNat - 0xE0) * 64 + (b.toNat - 0x80)) * 64 + (c.toNat - 0x80)), ?_⟩
    simp only [decode, hl]
    rw [follow_cons rfl (by split <;> split <;> omega), follow_cons rfl hc, follow]
    rfl
  | @four a b c d hab hc hd =>
    unfold BeginFour at hab
    have hl : lead? a = some ⟨3, a.toNat - 0xF0, if a.toNat = 0xF0 then 0x90 else 0x80,
        if a.toNat = 0xF4 then 0x8F else 0xBF⟩ := by
      simp only [lead?]
      rw [if_neg (by omega), if_neg (by omega), if_neg (by omega), if_neg (by omega),
        if_pos (by omega)]
    refine ⟨Char.ofNat ((((a.toNat - 0xF0) * 64 + (b.toNat - 0x80)) * 64 + (c.toNat - 0x80)) * 64 +
      (d.toNat - 0x80)), ?_⟩
    simp only [decode, hl]
    rw [follow_cons rfl (by split <;> split <;> omega), follow_cons rfl hc, follow_cons rfl hd,
      follow]
    rfl

/-- The table lists the encodings of code points and nothing else. -/
theorem isSequence_iff {q : List UInt8} : IsSequence q ↔ ∃ c, q = String.utf8EncodeChar c := by
  constructor
  · intro h
    rcases exists_decode_of_isSequence h with ⟨c, hc⟩
    rcases decode_eq_scalar_iff.mp hc with ⟨hp, hl⟩
    exact ⟨c, (hp.eq_of_length hl.symm).symm⟩
  · rintro ⟨c, rfl⟩
    exact isSequence_utf8EncodeChar c

/-- Valid byte sequences are the encodings of texts. -/
theorem isValid_iff_encode {bs : List UInt8} : IsValid bs ↔ ∃ cs, bs = encode cs := by
  constructor
  · intro h
    induction h with
    | nil => exact ⟨[], rfl⟩
    | cons hq _ ih =>
      rcases isSequence_iff.mp hq with ⟨c, rfl⟩
      rcases ih with ⟨cs, rfl⟩
      exact ⟨c :: cs, rfl⟩
  · rintro ⟨cs, rfl⟩
    induction cs with
    | nil => exact .nil
    | cons c cs ih => exact .cons (isSequence_utf8EncodeChar c) ih

theorem isValid_encode (cs : List Char) : IsValid (encode cs) :=
  isValid_iff_encode.mpr ⟨cs, rfl⟩

/-! ## Valid beginnings -/

/-- A text that begins another one in bytes begins it in code points. -/
theorem prefix_of_encode_prefix {cs ds : List Char} (h : encode cs <+: encode ds) : cs <+: ds := by
  -- on the first text; both begin with one code point, and then the rest decides
  induction cs generalizing ds with
  | nil => exact List.nil_prefix
  | cons c cs ih =>
    cases ds with
    | nil =>
      have hnil : encode (c :: cs) = [] := List.prefix_nil.mp h
      exact absurd (length_encode_eq_zero.mp (congrArg List.length hnil)) (List.cons_ne_nil c cs)
    | cons d ds =>
      rw [encode_cons, encode_cons] at h
      have hcd : c = d :=
        char_eq_of_prefix_both ((List.prefix_append _ _).trans h) (List.prefix_append _ _)
      subst hcd
      exact List.cons_prefix_cons.mpr ⟨rfl, ih ((List.prefix_append_right_inj _).mp h)⟩

/-- What follows a text in a valid byte sequence is valid. -/
theorem IsValid.drop {bs : List UInt8} {cs : List Char} (h : IsValid bs) (hc : encode cs <+: bs) :
    IsValid (bs.drop (encode cs).length) := by
  rcases isValid_iff_encode.mp h with ⟨ds, rfl⟩
  rcases prefix_of_encode_prefix hc with ⟨es, rfl⟩
  rw [encode_append, List.drop_left]
  exact isValid_encode es

/-- A valid byte sequence decodes to a code point unless it is empty. -/
theorem IsValid.eq_nil_of_malformed {bs : List UInt8} {n : Nat} (h : IsValid bs)
    (hn : decode bs = .malformed n) : bs = [] := by
  rcases isValid_iff_encode.mp h with ⟨cs, rfl⟩
  cases cs with
  | nil => rfl
  | cons c cs =>
    rw [encode_cons, decode_encode_append] at hn
    cases hn

/-- Where a text is followed by bytes that do not decode, no text that begins there is longer. -/
theorem length_encode_le_of_malformed {cs ds : List Char} {rest : List UInt8} {n : Nat}
    (hn : decode rest = .malformed n) (hd : encode ds <+: encode cs ++ rest) :
    (encode ds).length ≤ (encode cs).length := by
  refine Nat.le_of_not_lt fun hlt => ?_
  have hc : encode cs <+: encode ds :=
    List.prefix_of_prefix_length_le (List.prefix_append _ _) hd (Nat.le_of_lt hlt)
  rcases prefix_of_encode_prefix hc with ⟨es, rfl⟩
  rw [encode_append] at hd hlt
  have hes : encode es <+: rest := (List.prefix_append_right_inj _).mp hd
  cases es with
  | nil => simp at hlt
  | cons e es =>
    have hsc := decode_eq_scalar_iff.mpr ⟨(List.prefix_append _ (encode es)).trans hes, rfl⟩
    rw [hn] at hsc
    cases hsc

end PegKit.Utf8
