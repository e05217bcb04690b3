import PegKit.Proofs.Text.Validity

/-! # Where code points begin and end

A byte sequence seen from places other than its front.

* `IsSequence.exists_lead`: a sequence has one byte that is no continuation, its first.
* `char_eq_of_suffix_both`: so bytes end with one code point at most, and `decodeLast?_eq_some_iff`
  says that decoding from the back finds it.
* `slice?` takes the bytes between two places where code points begin, and `slice?_encode` says that
  of a text these are the code points between them.
* `isBoundary_encode_iff`: in a text there are no other such places, and so
  `IsValid.exists_isLongestText`: up to the last of them the bytes are the longest text that fits.
-/

namespace PegKit.Utf8

variable {bs p q : List UInt8} {c d : Char} {k n : Nat}

/-! ## Continuation bytes -/

theorem isContinuation_iff {b : UInt8} : isContinuation b = true ↔ IsTail b := by
  unfold isContinuation IsTail
  rw [Bool.and_eq_true, decide_eq_true_eq, decide_eq_true_eq]
  omega

/-- A sequence begins with a byte that is no continuation, and goes on with continuations. -/
theorem IsSequence.exists_lead (h : IsSequence q) :
    ∃ a tail, q = a :: tail ∧ ¬ IsTail a ∧ ∀ b ∈ tail, IsTail b := by
  have hlead : ∀ {a : UInt8}, a.toNat ≤ 0x7F ∨ 0xC0 ≤ a.toNat → ¬ IsTail a := by
    unfold IsTail
    omega
  cases h with
  | @one a ha => exact ⟨a, [], rfl, hlead (.inl ha), by simp⟩
  | @two a b ha hb => exact ⟨a, [b], rfl, hlead (by omega), by simpa using hb⟩
  | @three a b c hab hc =>
    -- the second byte is a continuation, of a narrower range
    unfold BeginThree at hab
    have hb : IsTail b := by
      unfold IsTail
      omega
    exact ⟨a, [b, c], rfl, hlead (by omega), by simpa using ⟨hb, hc⟩⟩
  | @four a b c d hab hc hd =>
    unfold BeginFour at hab
    have hb : IsTail b := by
      unfold IsTail
      omega
    exact ⟨a, [b, c, d], rfl, hlead (by omega), by simpa using ⟨hb, hc, hd⟩⟩

/-- No sequence ends with a shorter one, whose first byte would be a continuation in it. -/
theorem IsSequence.eq_of_suffix (hp : IsSequence p) (hq : IsSequence q) (h : p <:+ q) : p = q := by
  obtain ⟨a, ps, rfl, ha, _⟩ := hp.exists_lead
  obtain ⟨b, qs, rfl, _, hqs⟩ := hq.exists_lead
  rcases List.suffix_cons_iff.mp h with heq | hsuffix
  · exact heq
  · have hmem : a ∈ qs := hsuffix.subset List.mem_cons_self
    exact absurd (hqs a hmem) ha

/-- Bytes end with one code point at most. -/
theorem char_eq_of_suffix_both (hc : String.utf8EncodeChar c <:+ bs)
    (hd : String.utf8EncodeChar d <:+ bs) : c = d := by
  have hsc := isSequence_utf8EncodeChar c
  have hsd := isSequence_utf8EncodeChar d
  have heq : String.utf8EncodeChar c = String.utf8EncodeChar d := by
    rcases Nat.le_total (String.utf8EncodeChar c).length (String.utf8EncodeChar d).length with
      hle | hle
    · exact hsc.eq_of_suffix hsd (List.suffix_of_suffix_length_le hc hd hle)
    · exact (hsd.eq_of_suffix hsc (List.suffix_of_suffix_length_le hd hc hle)).symm
  exact char_eq_of_prefix_both (List.prefix_refl _) (heq ▸ List.prefix_refl _)

/-! ## Decoding from the back -/

/-- The last `k` bytes are one code point exactly if its encoding takes `k` bytes and ends the
sequence. -/
theorem decode_drop_eq_scalar_iff : decode (bs.drop (bs.length - k)) = .scalar c k ↔
    String.utf8EncodeChar c <:+ bs ∧ k = (String.utf8EncodeChar c).length := by
  constructor
  · intro h
    obtain ⟨hnext, hk⟩ := decode_eq_scalar_iff.mp h
    have hlen : (bs.drop (bs.length - k)).length ≤ (String.utf8EncodeChar c).length := by
      rw [List.length_drop, ← hk]
      omega
    have heq := hnext.eq_of_length_le hlen
    refine ⟨?_, hk⟩
    rw [heq]
    exact List.drop_suffix _ _
  · rintro ⟨⟨front, rfl⟩, rfl⟩
    apply decode_eq_scalar_iff.mpr
    have hfront : (front ++ String.utf8EncodeChar c).length - (String.utf8EncodeChar c).length =
        front.length := by
      rw [List.length_append, Nat.add_sub_cancel]
    rw [hfront, List.drop_left]
    exact ⟨List.prefix_refl _, rfl⟩

theorem length_utf8EncodeChar_le (c : Char) : (String.utf8EncodeChar c).length ≤ window := by
  rw [String.length_utf8EncodeChar]
  exact c.utf8Size_le_four

/-- Decoding from the back finds the code point whose encoding ends the sequence, and no other. -/
theorem decodeLast?_eq_some_iff : decodeLast? bs = some (c, n) ↔
    String.utf8EncodeChar c <:+ bs ∧ n = (String.utf8EncodeChar c).length := by
  have hsound : ∀ {d m}, decodeLast? bs = some (d, m) →
      String.utf8EncodeChar d <:+ bs ∧ m = (String.utf8EncodeChar d).length := by
    intro d m h
    obtain ⟨k, _, hk⟩ := List.exists_of_findSome?_eq_some h
    split at hk
    · next e size hdecode =>
      split at hk
      · next hsize =>
        cases hk
        subst hsize
        exact decode_drop_eq_scalar_iff.mp hdecode
      · cases hk
    · cases hk
  constructor
  · exact hsound
  · rintro ⟨hc, rfl⟩
    cases hlast : decodeLast? bs with
    | some found =>
      -- what is found ends the sequence too, so it is the same code point
      obtain ⟨d, m⟩ := found
      obtain ⟨hd, rfl⟩ := hsound hlast
      rw [char_eq_of_suffix_both hc hd]
    | none =>
      have hpos := length_utf8EncodeChar_pos c
      have hle : (String.utf8EncodeChar c).length ≤ 4 := length_utf8EncodeChar_le c
      have hmem : (String.utf8EncodeChar c).length ∈ [1, 2, 3, 4] := by
        simp only [List.mem_cons, List.not_mem_nil, or_false]
        omega
      have hnone := List.findSome?_eq_none_iff.mp hlast _ hmem
      rw [decode_drop_eq_scalar_iff.mpr ⟨hc, rfl⟩] at hnone
      simp at hnone

theorem decodeLast?_eq_none_iff :
    decodeLast? bs = none ↔ ∀ c, ¬ String.utf8EncodeChar c <:+ bs := by
  constructor
  · intro h c hc
    rw [decodeLast?_eq_some_iff.mpr ⟨hc, rfl⟩] at h
    cases h
  · intro h
    cases hlast : decodeLast? bs with
    | none => rfl
    | some found => exact absurd (decodeLast?_eq_some_iff.mp hlast).1 (h found.1)

/-- No encoding is longer than the last bytes that are looked at. -/
theorem suffix_drop_window_iff : String.utf8EncodeChar c <:+ bs.drop (bs.length - window) ↔
    String.utf8EncodeChar c <:+ bs := by
  constructor
  · intro h
    exact h.trans (List.drop_suffix _ _)
  · intro h
    have hle := h.length_le
    have hwindow := length_utf8EncodeChar_le c
    apply List.suffix_of_suffix_length_le h (List.drop_suffix _ _)
    rw [List.length_drop]
    omega

/-! ## Slices -/

/-- A code point begins at the offset, or the bytes end there. -/
def isBoundary (bs : List UInt8) (offset : Nat) : Bool :=
  match bs[offset]? with
  | some b => !isContinuation b
  | none => offset = bs.length

/-- The bytes from one boundary to another. There are none if the offsets are the wrong way round or
are not both boundaries. -/
def slice? (bs : List UInt8) (start stop : Nat) : Option (List UInt8) :=
  if start ≤ stop && isBoundary bs start && isBoundary bs stop then
    some ((bs.take stop).drop start)
  else none

/-- Behind some code points of a text there is a boundary. -/
theorem isBoundary_encode (cs ds : List Char) :
    isBoundary (encode (cs ++ ds)) (encode cs).length = true := by
  unfold isBoundary
  rw [encode_append, List.getElem?_append_right (Nat.le_refl _), Nat.sub_self]
  cases ds with
  | nil => simp
  | cons d ds =>
    obtain ⟨a, tail, hd, ha, _⟩ := (isSequence_utf8EncodeChar d).exists_lead
    rw [encode_cons, hd]
    simpa [← isContinuation_iff] using ha

theorem isBoundary_of_length_le (h : bs.length ≤ k) :
    isBoundary bs k = decide (k = bs.length) := by
  rw [isBoundary, List.getElem?_eq_none h]

/-- Whether a code point begins at an offset does not depend on what stands before it. -/
theorem isBoundary_append (p bs : List UInt8) (k : Nat) :
    isBoundary (p ++ bs) (p.length + k) = isBoundary bs k := by
  unfold isBoundary
  rw [List.getElem?_append_right (Nat.le_add_right _ _), Nat.add_sub_cancel_left,
    List.length_append]
  simp

/-- No code point begins within a sequence. -/
theorem IsSequence.isBoundary_eq_false (hq : IsSequence q) (hpos : 0 < k) (hk : k < q.length)
    (bs : List UInt8) : isBoundary (q ++ bs) k = false := by
  obtain ⟨a, tail, rfl, _, htail⟩ := hq.exists_lead
  obtain ⟨i, rfl⟩ : ∃ i, k = i + 1 := ⟨k - 1, by omega⟩
  have hi : i < tail.length := Nat.lt_of_succ_lt_succ hk
  have hbyte : isContinuation tail[i] = true :=
    isContinuation_iff.mpr (htail _ (List.getElem_mem hi))
  unfold isBoundary
  rw [List.cons_append, List.getElem?_cons_succ, List.getElem?_append_left hi,
    List.getElem?_eq_getElem hi]
  simp [hbyte]

/-- The boundaries of a text are the places between its code points. -/
theorem isBoundary_encode_iff {ds : List Char} :
    isBoundary (encode ds) k = true ↔ ∃ cs, cs <+: ds ∧ (encode cs).length = k := by
  constructor
  · intro h
    -- on the text, whose first code point is behind the boundary or is passed
    induction ds generalizing k with
    | nil =>
      have hk : k = 0 := of_decide_eq_true h
      exact ⟨[], List.nil_prefix, hk.symm⟩
    | cons d ds ih =>
      rw [encode_cons] at h
      rcases Nat.lt_or_ge k (String.utf8EncodeChar d).length with hlt | hge
      · rcases Nat.eq_zero_or_pos k with rfl | hpos
        · exact ⟨[], List.nil_prefix, rfl⟩
        · rw [(isSequence_utf8EncodeChar d).isBoundary_eq_false hpos hlt] at h
          cases h
      · obtain ⟨j, rfl⟩ := Nat.exists_eq_add_of_le hge
        rw [isBoundary_append] at h
        obtain ⟨cs, hcs, hlen⟩ := ih h
        refine ⟨d :: cs, List.cons_prefix_cons.mpr ⟨rfl, hcs⟩, ?_⟩
        rw [encode_cons, List.length_append, hlen]
  · rintro ⟨cs, ⟨es, rfl⟩, rfl⟩
    exact isBoundary_encode cs es

theorem IsValid.isBoundary_zero (h : IsValid bs) : isBoundary bs 0 = true := by
  obtain ⟨cs, rfl⟩ := isValid_iff_encode.mp h
  exact isBoundary_encode [] cs

/-- The slice between two code points of a text is the text between them. -/
theorem slice?_encode (cs ds es : List Char) :
    slice? (encode (cs ++ (ds ++ es))) (encode cs).length (encode (cs ++ ds)).length =
      some (encode ds) := by
  have hstart := isBoundary_encode cs (ds ++ es)
  have hstop := isBoundary_encode (cs ++ ds) es
  have hle : (encode cs).length ≤ (encode (cs ++ ds)).length := by
    rw [encode_append, List.length_append]
    exact Nat.le_add_right _ _
  rw [List.append_assoc] at hstop
  have hfront : (encode (cs ++ (ds ++ es))).take (encode (cs ++ ds)).length =
      encode (cs ++ ds) := by
    rw [← List.append_assoc, encode_append (cs ++ ds), List.take_left]
  rw [slice?, hstart, hstop, decide_eq_true hle, hfront, encode_append, List.drop_left]
  rfl

/-! ## The longest text that fits -/

/-- The text `cs` is the longest that begins the bytes and takes `n` of them at most. It begins with
every other. -/
structure IsLongestText (bs : List UInt8) (n : Nat) (cs : List Char) : Prop where
  comes : encode cs <+: bs
  fits : (encode cs).length ≤ n
  longest : ∀ ds, encode ds <+: bs → (encode ds).length ≤ n → ds <+: cs

/-- Up to the last boundary within `n` bytes, a valid sequence is the longest text that fits. -/
theorem IsValid.exists_isLongestText (h : IsValid bs) (hk : k ≤ n) (hb : isBoundary bs k = true)
    (hlast : ∀ j, k < j → j ≤ n → isBoundary bs j = false) :
    ∃ cs, bs.take k = encode cs ∧ IsLongestText bs n cs := by
  obtain ⟨whole, rfl⟩ := isValid_iff_encode.mp h
  obtain ⟨cs, ⟨rest, rfl⟩, rfl⟩ := isBoundary_encode_iff.mp hb
  have hcs : encode cs <+: encode (cs ++ rest) := by
    rw [encode_append]
    exact List.prefix_append _ _
  refine ⟨cs, (List.prefix_iff_eq_take.mp hcs).symm, hcs, hk, ?_⟩
  intro ds hds hn
  -- another text ends at a boundary too, which is not behind the last
  have hle : (encode ds).length ≤ (encode cs).length := by
    refine Nat.le_of_not_lt fun hlt => ?_
    have hend := isBoundary_encode_iff.mpr ⟨ds, prefix_of_encode_prefix hds, rfl⟩
    rw [hlast _ hlt hn] at hend
    cases hend
  exact prefix_of_encode_prefix (List.prefix_of_prefix_length_le hds hcs hle)

end PegKit.Utf8
