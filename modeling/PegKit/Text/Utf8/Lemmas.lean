import PegKit.Text.Utf8

/-! # Laws of UTF-8 decoding

* `decode_encode_append` and `exists_append_of_decode`: a byte sequence decodes to a code point
  exactly when it starts with the encoding of that code point.
* `decode_take`: decoding looks at four bytes at most.
* `size_decode_pos` and `size_decode_le`: the first piece of a byte sequence that is not empty has
  at least one byte and no more than there are.
-/

namespace PegKit.Utf8

/-! ## Encoded code points decode -/

/-- A continuation byte in range is read. -/
theorem follow_cons {owed payload size low high : Nat} {b : UInt8} {rest : List UInt8} {n : Nat}
    (hb : b.toNat = n) (hn : low ≤ n ∧ n ≤ high) :
    follow (owed + 1) payload size low high (b :: rest) =
      follow owed (payload * 64 + (n - 0x80)) (size + 1) 0x80 0xBF rest := by
  subst hb
  rw [follow, if_pos hn]

/-- A continuation byte of an encoding carries six bits. -/
theorem toNat_tail (n : Nat) : (UInt8.ofNat (n % 64 + 128)).toNat = n % 64 + 128 := by
  rw [UInt8.toNat_ofNat']
  omega

/-- Decoding finds the code point whose encoding comes first, whatever follows it. -/
theorem decode_encode_append (c : Char) (rest : List UInt8) :
    decode (String.utf8EncodeChar c ++ rest) = .scalar c (String.utf8EncodeChar c).length := by
  have hv : c.toNat < 0xD800 ∨ 0xDFFF < c.toNat ∧ c.toNat < 0x110000 := c.valid
  have hc : Char.ofNat c.toNat = c := Char.ofNat_toNat c
  unfold String.utf8EncodeChar
  rw [show c.val.toNat = c.toNat from rfl]
  generalize c.toNat = v at hv hc
  subst hc
  have h1 := toNat_tail v
  have h2 := toNat_tail (v / 64)
  have h3 := toNat_tail (v / 4096)
  by_cases ha : v ≤ 127
  · have hf : (UInt8.ofNat v).toNat = v := by rw [UInt8.toNat_ofNat']; omega
    have hl : lead? (UInt8.ofNat v) = some ⟨0, v, 0x80, 0xBF⟩ := by
      simp only [lead?, hf]
      rw [if_pos (by omega)]
    simp only [ha, if_true, List.cons_append, List.nil_append, decode, hl, follow]
    rfl
  by_cases hb : v ≤ 2047
  · have hf : (UInt8.ofNat (v / 64 % 32 + 192)).toNat = v / 64 + 192 := by
      rw [UInt8.toNat_ofNat']; omega
    have hl : lead? (UInt8.ofNat (v / 64 % 32 + 192)) = some ⟨1, v / 64, 0x80, 0xBF⟩ := by
      simp only [lead?, hf]
      rw [if_neg (by omega), if_neg (by omega), if_pos (by omega), Nat.add_sub_cancel]
    simp only [ha, hb, if_true, if_false, List.cons_append, List.nil_append, decode, hl]
    rw [follow_cons h1 (by omega), follow]
    rw [show v / 64 * 64 + (v % 64 + 128 - 128) = v by omega]
    rfl
  by_cases hd : v ≤ 65535
  · have hf : (UInt8.ofNat (v / 4096 % 16 + 224)).toNat = v / 4096 + 224 := by
      rw [UInt8.toNat_ofNat']; omega
    have hl : lead? (UInt8.ofNat (v / 4096 % 16 + 224)) = some ⟨2, v / 4096,
        if v / 4096 + 224 = 0xE0 then 0xA0 else 0x80,
        if v / 4096 + 224 = 0xED then 0x9F else 0xBF⟩ := by
      simp only [lead?, hf]
      rw [if_neg (by omega), if_neg (by omega), if_neg (by omega), if_pos (by omega),
        Nat.add_sub_cancel]
    simp only [ha, hb, hd, if_true, if_false, List.cons_append, List.nil_append, decode, hl]
    rw [follow_cons h2 (by split <;> split <;> omega), follow_cons h1 (by omega), follow]
    rw [show (v / 4096 * 64 + (v / 64 % 64 + 128 - 128)) * 64 + (v % 64 + 128 - 128) = v by omega]
    rfl
  · have hf : (UInt8.ofNat (v / 262144 % 8 + 240)).toNat = v / 262144 + 240 := by
      rw [UInt8.toNat_ofNat']; omega
    have hl : lead? (UInt8.ofNat (v / 262144 % 8 + 240)) = some ⟨3, v / 262144,
        if v / 262144 + 240 = 0xF0 then 0x90 else 0x80,
        if v / 262144 + 240 = 0xF4 then 0x8F else 0xBF⟩ := by
      simp only [lead?, hf]
      rw [if_neg (by omega), if_neg (by omega), if_neg (by omega), if_neg (by omega),
        if_pos (by omega), Nat.add_sub_cancel]
    simp only [ha, hb, hd, if_false, List.cons_append, List.nil_append, decode, hl]
    rw [follow_cons h3 (by split <;> split <;> omega), follow_cons h2 (by omega),
      follow_cons h1 (by omega), follow]
    rw [show ((v / 262144 * 64 + (v / 4096 % 64 + 128 - 128)) * 64 + (v / 64 % 64 + 128 - 128)) * 64
      + (v % 64 + 128 - 128) = v by omega]
    rfl

/-! ## Only encoded code points decode -/

/-- A byte is the number it stands for. -/
theorem eq_ofNat_of_toNat {b : UInt8} {n : Nat} (h : b.toNat = n) : b = UInt8.ofNat n := by
  subst h
  exact (UInt8.ofNat_toNat).symm

/-- Reading continuation bytes succeeds only when the first is in range and the rest succeeds. -/
theorem follow_succ_eq_scalar {owed payload size low high : Nat} {bs : List UInt8} {c : Char}
    {n : Nat} (h : follow (owed + 1) payload size low high bs = .scalar c n) :
    ∃ b rest, bs = b :: rest ∧ low ≤ b.toNat ∧ b.toNat ≤ high ∧
      follow owed (payload * 64 + (b.toNat - 0x80)) (size + 1) 0x80 0xBF rest = .scalar c n := by
  cases bs with
  | nil => simp [follow] at h
  | cons b rest =>
    rw [follow] at h
    split at h
    · next hb => exact ⟨b, rest, rfl, hb.1, hb.2, h⟩
    · cases h

/-- When nothing is owed, the payload is the code point. -/
theorem follow_zero_eq_scalar {payload size low high : Nat} {bs : List UInt8} {c : Char} {n : Nat}
    (h : follow 0 payload size low high bs = .scalar c n) : c = Char.ofNat payload ∧ n = size := by
  rw [follow] at h
  cases h
  exact ⟨rfl, rfl⟩

/-- The number of a code point that is a scalar value. -/
theorem toNat_ofNat_of_valid {v : Nat} (h : v < 0xD800 ∨ 0xDFFF < v ∧ v < 0x110000) :
    (Char.ofNat v).val.toNat = v := by
  have hv : v.isValidChar := h
  rw [Char.ofNat, dif_pos hv]
  rfl

/-- What decodes to a code point starts with its encoding. -/
theorem exists_append_of_decode {bs : List UInt8} {c : Char} {n : Nat}
    (h : decode bs = .scalar c n) :
    ∃ rest, bs = String.utf8EncodeChar c ++ rest ∧ n = (String.utf8EncodeChar c).length := by
  cases bs with
  | nil => cases h
  | cons b rest =>
    rw [decode] at h
    have hb : b.toNat < 256 := b.toNat_lt
    unfold lead? at h
    simp only at h
    split at h
    · cases h
    next l hl =>
    split at hl
    · next h1 =>
      cases hl
      simp only at h
      have hz := follow_zero_eq_scalar h
      rw [hz.1, hz.2]
      refine ⟨rest, ?_⟩
      rw [String.utf8EncodeChar, toNat_ofNat_of_valid (by omega)]
      simp only [show b.toNat ≤ 127 by omega, if_true]
      exact ⟨by simp, rfl⟩
    split at hl
    · cases hl
    split at hl
    · next h1 h2 h3 =>
      cases hl
      simp only at h
      obtain ⟨b1, rest, rfl, hl1, hu1, h⟩ := @follow_succ_eq_scalar 0 _ _ _ _ _ _ _ h
      have hz := follow_zero_eq_scalar h
      rw [hz.1, hz.2]
      refine ⟨rest, ?_⟩
      rw [String.utf8EncodeChar, toNat_ofNat_of_valid (by omega)]
      rw [if_neg (by omega), if_pos (by omega)]
      refine ⟨?_, by simp only [List.length_cons, List.length_nil]⟩
      rw [List.cons_append, List.cons_append, List.nil_append]
      rw [← eq_ofNat_of_toNat (b := b) (by omega), ← eq_ofNat_of_toNat (b := b1) (by omega)]
    split at hl
    · next h1 h2 h3 h4 =>
      cases hl
      simp only at h
      obtain ⟨b1, rest, rfl, hl1, hu1, h⟩ := @follow_succ_eq_scalar 1 _ _ _ _ _ _ _ h
      obtain ⟨b2, rest, rfl, hl2, hu2, h⟩ := @follow_succ_eq_scalar 0 _ _ _ _ _ _ _ h
      have hz := follow_zero_eq_scalar h
      rw [hz.1, hz.2]
      have hr : 0x80 ≤ b1.toNat ∧ b1.toNat ≤ 0xBF ∧ (b.toNat = 0xE0 → 0xA0 ≤ b1.toNat) ∧
          (b.toNat = 0xED → b1.toNat ≤ 0x9F) := by
        split at hl1 <;> split at hu1 <;> omega
      refine ⟨rest, ?_⟩
      rw [String.utf8EncodeChar, toNat_ofNat_of_valid (by omega)]
      rw [if_neg (by omega), if_neg (by omega), if_pos (by omega)]
      refine ⟨?_, by simp only [List.length_cons, List.length_nil]⟩
      rw [List.cons_append, List.cons_append, List.cons_append, List.nil_append]
      rw [← eq_ofNat_of_toNat (b := b) (by omega), ← eq_ofNat_of_toNat (b := b1) (by omega),
        ← eq_ofNat_of_toNat (b := b2) (by omega)]
    split at hl
    · next h1 h2 h3 h4 h5 =>
      cases hl
      simp only at h
      obtain ⟨b1, rest, rfl, hl1, hu1, h⟩ := @follow_succ_eq_scalar 2 _ _ _ _ _ _ _ h
      obtain ⟨b2, rest, rfl, hl2, hu2, h⟩ := @follow_succ_eq_scalar 1 _ _ _ _ _ _ _ h
      obtain ⟨b3, rest, rfl, hl3, hu3, h⟩ := @follow_succ_eq_scalar 0 _ _ _ _ _ _ _ h
      have hz := follow_zero_eq_scalar h
      rw [hz.1, hz.2]
      have hr : 0x80 ≤ b1.toNat ∧ b1.toNat ≤ 0xBF ∧ (b.toNat = 0xF0 → 0x90 ≤ b1.toNat) ∧
          (b.toNat = 0xF4 → b1.toNat ≤ 0x8F) := by
        split at hl1 <;> split at hu1 <;> omega
      refine ⟨rest, ?_⟩
      rw [String.utf8EncodeChar, toNat_ofNat_of_valid (by omega)]
      rw [if_neg (by omega), if_neg (by omega), if_neg (by omega)]
      refine ⟨?_, by simp only [List.length_cons, List.length_nil]⟩
      rw [List.cons_append, List.cons_append, List.cons_append, List.cons_append, List.nil_append]
      rw [← eq_ofNat_of_toNat (b := b) (by omega), ← eq_ofNat_of_toNat (b := b1) (by omega),
        ← eq_ofNat_of_toNat (b := b2) (by omega), ← eq_ofNat_of_toNat (b := b3) (by omega)]
    · cases hl

/-! ## How far decoding looks -/

/-- Reading continuation bytes looks at no more than are owed. -/
theorem follow_take {owed payload size low high k : Nat} {bs : List UInt8} (h : owed ≤ k) :
    follow owed payload size low high (bs.take k) = follow owed payload size low high bs := by
  induction owed generalizing payload size low high k bs with
  | zero => rw [follow, follow]
  | succ owed ih =>
    obtain ⟨k, rfl⟩ : ∃ j, k = j + 1 := ⟨k - 1, by omega⟩
    cases bs with
    | nil => rfl
    | cons b rest =>
      rw [List.take_succ_cons, follow, follow, ih (by omega)]

/-- No first byte promises more than three continuation bytes. -/
theorem owed_lead_le {b : UInt8} {l : Lead} (h : lead? b = some l) : l.owed ≤ 3 := by
  simp only [lead?] at h
  repeat' split at h
  all_goals cases h <;> simp only [] <;> omega

/-- Decoding looks at four bytes at most. -/
theorem decode_take (bs : List UInt8) : decode (bs.take window) = decode bs := by
  cases bs with
  | nil => rfl
  | cons b rest =>
    rw [show window = 3 + 1 from rfl, List.take_succ_cons, decode, decode]
    cases hl : lead? b with
    | none => rfl
    | some l => exact follow_take (owed_lead_le hl)

/-- Reading continuation bytes adds at most what is there to the size. -/
theorem size_follow {owed payload size low high : Nat} {bs : List UInt8} :
    size ≤ (follow owed payload size low high bs).size ∧
      (follow owed payload size low high bs).size ≤ size + bs.length := by
  induction owed generalizing payload size low high bs with
  | zero => rw [follow]; exact ⟨Nat.le_refl _, Nat.le_add_right _ _⟩
  | succ owed ih =>
    cases bs with
    | nil => exact ⟨Nat.le_refl _, Nat.le_refl _⟩
    | cons b rest =>
      rw [follow]
      split
      · have h := @ih (payload * 64 + (b.toNat - 0x80)) (size + 1) 0x80 0xBF rest
        rw [List.length_cons]
        omega
      · exact ⟨Nat.le_refl _, Nat.le_add_right _ _⟩

/-- The first piece has at least one byte. -/
theorem size_decode_pos {bs : List UInt8} (h : bs ≠ []) : 0 < (decode bs).size := by
  cases bs with
  | nil => exact absurd rfl h
  | cons b rest =>
    rw [decode]
    split
    · exact Nat.one_pos
    · exact size_follow.1

/-- The first piece has no more bytes than there are. -/
theorem size_decode_le (bs : List UInt8) : (decode bs).size ≤ bs.length := by
  cases bs with
  | nil => exact Nat.le_refl _
  | cons b rest =>
    rw [decode, List.length_cons]
    split
    · exact Nat.le_add_left _ _
    · next l _ =>
      have h := (@size_follow l.owed l.payload 1 l.low l.high rest).2
      omega

end PegKit.Utf8
