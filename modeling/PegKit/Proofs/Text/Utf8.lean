import PegKit.Text.Utf8.Lemmas

/-! # Encoded texts

* `decode_eq_scalar_iff`: a byte sequence decodes to a code point exactly when it starts with the
  encoding of that code point.
* `encode_inj`: two texts whose encodings begin the same bytes, and are equally long, are one text.
* `lossy_encode`: the encoding of a text is shown as the text.
-/

namespace PegKit.Utf8

/-- The encoding of some code points. -/
def encode (cs : List Char) : List UInt8 :=
  cs.flatMap String.utf8EncodeChar

theorem bytes_eq_encode (text : String) : bytes text = encode text.toList := rfl

@[simp] theorem encode_nil : encode [] = [] := rfl

@[simp] theorem encode_cons (c : Char) (cs : List Char) :
    encode (c :: cs) = String.utf8EncodeChar c ++ encode cs := rfl

@[simp] theorem encode_append (cs ds : List Char) :
    encode (cs ++ ds) = encode cs ++ encode ds :=
  List.flatMap_append

theorem encode_singleton (c : Char) : encode [c] = String.utf8EncodeChar c := by
  rw [encode_cons, encode_nil, List.append_nil]

/-- A code point takes at least one byte. -/
theorem length_utf8EncodeChar_pos (c : Char) : 0 < (String.utf8EncodeChar c).length := by
  rw [String.length_utf8EncodeChar]
  exact c.utf8Size_pos

/-- Only the empty text takes no bytes. -/
theorem length_encode_eq_zero {cs : List Char} : (encode cs).length = 0 ↔ cs = [] := by
  constructor
  · intro h
    cases cs with
    | nil => rfl
    | cons c cs =>
      have hc := length_utf8EncodeChar_pos c
      rw [encode_cons, List.length_append] at h
      omega
  · rintro rfl
    rfl

/-- A text takes at least as many bytes as it has code points. -/
theorem length_le_length_encode (cs : List Char) : cs.length ≤ (encode cs).length := by
  induction cs with
  | nil => exact Nat.le_refl _
  | cons c cs ih =>
    have hc := length_utf8EncodeChar_pos c
    rw [encode_cons, List.length_append, List.length_cons]
    omega

/-- Decoding finds a code point exactly where the encoding of one stands. -/
theorem decode_eq_scalar_iff {bs : List UInt8} {c : Char} {n : Nat} :
    decode bs = .scalar c n ↔
      String.utf8EncodeChar c <+: bs ∧ n = (String.utf8EncodeChar c).length := by
  constructor
  · intro h
    rcases exists_append_of_decode h with ⟨rest, hbs, hn⟩
    exact ⟨⟨rest, hbs.symm⟩, hn⟩
  · rintro ⟨⟨rest, rfl⟩, rfl⟩
    exact decode_encode_append c rest

/-- No two code points begin the same bytes. -/
theorem char_eq_of_prefix_both {bs : List UInt8} {c d : Char}
    (hc : String.utf8EncodeChar c <+: bs) (hd : String.utf8EncodeChar d <+: bs) : c = d := by
  have h1 := decode_eq_scalar_iff.mpr ⟨hc, rfl⟩
  have h2 := decode_eq_scalar_iff.mpr ⟨hd, rfl⟩
  rw [h1] at h2
  injection h2

/-- Bytes begin with at most one text of a given length in bytes. -/
theorem encode_inj {bs : List UInt8} {cs ds : List Char} (hc : encode cs <+: bs)
    (hd : encode ds <+: bs) (hl : (encode cs).length = (encode ds).length) : cs = ds := by
  -- on the first text; both begin with one code point, and then the rest decides
  induction cs generalizing ds bs with
  | nil =>
    have h0 : (encode ds).length = 0 := hl.symm
    exact (length_encode_eq_zero.mp h0).symm
  | cons c cs ih =>
    cases ds with
    | nil => exact length_encode_eq_zero.mp hl
    | cons d ds =>
      rw [encode_cons] at hc hd
      have hcd : c = d :=
        char_eq_of_prefix_both ((List.prefix_append _ _).trans hc)
          ((List.prefix_append _ _).trans hd)
      subst hcd
      rcases (List.prefix_append _ (encode cs)).trans hc with ⟨rest, rfl⟩
      have hl' : (encode cs).length = (encode ds).length := by
        rw [encode_cons, encode_cons, List.length_append, List.length_append] at hl
        omega
      rw [ih ((List.prefix_append_right_inj _).mp hc) ((List.prefix_append_right_inj _).mp hd) hl']

/-! ## Encoded texts are shown as they are -/

/-- Bytes of a piece that is read already are passed over. -/
theorem lossyFrom_eq_drop (skip : Nat) (bs : List UInt8) :
    lossyFrom skip bs = lossyFrom 0 (bs.drop skip) := by
  induction bs generalizing skip with
  | nil => simp [lossyFrom]
  | cons b rest ih =>
    cases skip with
    | zero => rfl
    | succ skip => exact ih skip

theorem lossyFrom_encode (cs : List Char) : lossyFrom 0 (encode cs) = cs := by
  induction cs with
  | nil => rfl
  | cons c cs ih =>
    have hdec := decode_encode_append c (encode cs)
    have hdrop : (String.utf8EncodeChar c ++ encode cs).drop (String.utf8EncodeChar c).length =
        encode cs := List.drop_left
    rw [encode_cons]
    cases hbs : String.utf8EncodeChar c with
    | nil => exact absurd hbs (List.length_pos_iff.mp (length_utf8EncodeChar_pos c))
    | cons b rest =>
      rw [hbs, List.cons_append, List.length_cons] at hdec
      rw [hbs, List.cons_append, List.length_cons, List.drop_succ_cons] at hdrop
      rw [List.cons_append, lossyFrom, hdec, Piece.rune, Piece.size, Nat.add_sub_cancel,
        lossyFrom_eq_drop, hdrop, ih]

theorem lossy_encode (cs : List Char) : lossy (encode cs) = String.ofList cs := by
  rw [lossy, lossyFrom_encode]

end PegKit.Utf8
