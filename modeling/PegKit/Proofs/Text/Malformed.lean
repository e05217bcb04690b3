import PegKit.Proofs.Text.Utf8

/-! # Malformed runs

Where no code point comes next, decoding takes the longest run of bytes that begins the encoding of
some code point, and a byte at least.

* `IsMalformedRun` says how long such a run is, in terms of the encodings alone.
* `follow_malformed`: how far reading continuation bytes goes, and that no other bytes go further.
* `decode_eq_malformed_iff`: the decoder finds a malformed run exactly where there is one, at its
  full length.
-/

namespace PegKit.Utf8

/-- The bytes begin the encoding of some code point. -/
def IsOpening (bs : List UInt8) : Prop :=
  ∃ c, bs <+: String.utf8EncodeChar c

/-- The first `n` bytes are a malformed run: no code point comes next, and they are either the
longest beginning that opens the encoding of one, or a single byte where there is none. -/
structure IsMalformedRun (bs : List UInt8) (n : Nat) : Prop where
  no_char : ∀ c, ¬ String.utf8EncodeChar c <+: bs
  pos : 0 < n
  le_length : n ≤ bs.length
  opens : n = 1 ∨ IsOpening (bs.take n)
  longest : ∀ k, n < k → k ≤ bs.length → ¬ IsOpening (bs.take k)

variable {bs : List UInt8} {m n : Nat}

/-- There is one malformed run at most. -/
theorem IsMalformedRun.unique (hm : IsMalformedRun bs m) (hn : IsMalformedRun bs n) : m = n := by
  rcases Nat.lt_trichotomy m n with hlt | heq | hlt
  · have hne : n ≠ 1 := by have := hm.pos; omega
    exact absurd (hn.opens.resolve_left hne) (hm.longest n hlt hn.le_length)
  · exact heq
  · have hne : m ≠ 1 := by have := hn.pos; omega
    exact absurd (hm.opens.resolve_left hne) (hn.longest m hlt hm.le_length)

/-! ## Reading continuation bytes -/

section Follow

variable {owed payload size low high : Nat}

/-- From any state, some bytes make the sequence complete. -/
theorem exists_follow_eq_scalar (hrange : low ≤ high) (hhigh : high < 256) :
    ∃ ext c, follow owed payload size low high ext = .scalar c (size + owed) := by
  induction owed generalizing payload size low high with
  | zero => exact ⟨[], _, rfl⟩
  | succ owed ih =>
    obtain ⟨ext, c, hext⟩ := @ih (payload * 64 + (low - 0x80)) (size + 1) 0x80 0xBF (by decide)
      (by decide)
    have hlow : (UInt8.ofNat low).toNat = low := by
      rw [UInt8.toNat_ofNat']
      omega
    refine ⟨UInt8.ofNat low :: ext, c, ?_⟩
    rw [follow_cons hlow ⟨Nat.le_refl _, hrange⟩, hext]
    congr 1
    omega

/-- Reading stops behind some bytes that can still be made complete, and no bytes behind one more
byte of the input can. -/
theorem follow_malformed (hrange : low ≤ high) (hhigh : high < 256)
    (h : follow owed payload size low high bs = .malformed n) :
    ∃ j, n = size + j ∧ j < owed ∧ j ≤ bs.length ∧
      (∃ ext c, follow owed payload size low high (bs.take j ++ ext) = .scalar c (size + owed)) ∧
      ∀ k ext, j < k → k ≤ bs.length →
        follow owed payload size low high (bs.take k ++ ext) = .malformed n := by
  induction owed generalizing payload size low high bs with
  | zero => cases h
  | succ owed ih =>
    have hstop := @exists_follow_eq_scalar (owed + 1) payload size low high hrange hhigh
    cases bs with
    | nil =>
      cases h
      refine ⟨0, rfl, Nat.succ_pos _, Nat.le_refl _, hstop, ?_⟩
      intro k ext hk hlen
      exact absurd (Nat.lt_of_lt_of_le hk hlen) (Nat.lt_irrefl 0)
    | cons b rest =>
      by_cases hb : low ≤ b.toNat ∧ b.toNat ≤ high
      · rw [follow_cons rfl hb] at h
        obtain ⟨j, rfl, hj, hlen, ⟨ext, c, hext⟩, hmore⟩ := ih (by decide) (by decide) h
        refine ⟨j + 1, by omega, Nat.succ_lt_succ hj, Nat.succ_le_succ hlen, ⟨ext, c, ?_⟩, ?_⟩
        · rw [List.take_succ_cons, List.cons_append, follow_cons rfl hb, hext]
          congr 1
          omega
        · intro k ext hk hklen
          obtain ⟨k, rfl⟩ : ∃ i, k = i + 1 := ⟨k - 1, by omega⟩
          rw [List.take_succ_cons, List.cons_append, follow_cons rfl hb]
          exact hmore k ext (Nat.lt_of_succ_lt_succ hk) (Nat.le_of_succ_le_succ hklen)
      · -- the byte is out of range, whatever follows it
        have hrefuse : ∀ more, follow (owed + 1) payload size low high (b :: more) =
            .malformed size := by
          intro more
          rw [follow, if_neg hb]
        rw [hrefuse] at h
        cases h
        refine ⟨0, rfl, Nat.succ_pos _, Nat.zero_le _, hstop, ?_⟩
        intro k ext hk hklen
        obtain ⟨k, rfl⟩ : ∃ i, k = i + 1 := ⟨k - 1, by omega⟩
        rw [List.take_succ_cons, List.cons_append]
        exact hrefuse _

end Follow

/-- The range of the byte behind a first byte is not empty. -/
theorem lead_range {b : UInt8} {l : Lead} (h : lead? b = some l) :
    l.low ≤ l.high ∧ l.high < 256 := by
  simp only [lead?] at h
  repeat' split at h
  all_goals cases h <;> simp only [] <;> omega

/-! ## The first piece -/

/-- Where the decoder finds no code point, it finds a malformed run at its full length. -/
theorem isMalformedRun_of_decode (hbs : bs ≠ []) (h : decode bs = .malformed n) :
    IsMalformedRun bs n := by
  have hno : ∀ c, ¬ String.utf8EncodeChar c <+: bs := by
    intro c hc
    rw [decode_eq_scalar_iff.mpr ⟨hc, rfl⟩] at h
    cases h
  have hpos := size_decode_pos hbs
  have hle := size_decode_le bs
  rw [h] at hpos hle
  -- an opening decodes once the rest of the encoding follows it
  have hopen : ∀ k, IsOpening (bs.take k) → ∃ ext c m, decode (bs.take k ++ ext) = .scalar c m := by
    rintro k ⟨c, ext, hext⟩
    refine ⟨ext, c, (String.utf8EncodeChar c).length, decode_eq_scalar_iff.mpr ⟨?_, rfl⟩⟩
    exact hext ▸ List.prefix_refl _
  cases bs with
  | nil => exact absurd rfl hbs
  | cons b rest =>
    cases hl : lead? b with
    | none =>
      have hrefuse : ∀ more, decode (b :: more) = .malformed 1 := by
        intro more
        rw [decode, hl]
      rw [hrefuse] at h
      cases h
      refine ⟨hno, hpos, hle, Or.inl rfl, ?_⟩
      intro k hk _ hk'
      obtain ⟨k, rfl⟩ : ∃ i, k = i + 1 := ⟨k - 1, by omega⟩
      obtain ⟨ext, c, m, hext⟩ := hopen _ hk'
      rw [List.take_succ_cons, List.cons_append, hrefuse] at hext
      cases hext
    | some l =>
      have hlead : ∀ more, decode (b :: more) = follow l.owed l.payload 1 l.low l.high more := by
        intro more
        rw [decode, hl]
      rw [hlead] at h
      obtain ⟨j, rfl, hj, hlen, ⟨ext, c, hext⟩, hmore⟩ :=
        follow_malformed (lead_range hl).1 (lead_range hl).2 h
      refine ⟨hno, hpos, hle, Or.inr ⟨c, ?_⟩, ?_⟩
      · rw [← hlead, ← List.cons_append] at hext
        obtain ⟨hc, hsize⟩ := decode_eq_scalar_iff.mp hext
        rw [Nat.add_comm, List.take_succ_cons]
        refine List.prefix_of_prefix_length_le (List.prefix_append _ ext) hc ?_
        rw [← hsize, List.length_cons, List.length_take]
        omega
      · intro k hk hklen hk'
        obtain ⟨k, rfl⟩ : ∃ i, k = i + 1 := ⟨k - 1, by omega⟩
        obtain ⟨ext, c, m, hext⟩ := hopen _ hk'
        rw [List.take_succ_cons, List.cons_append, hlead,
          hmore k ext (by omega) (Nat.le_of_succ_le_succ hklen)] at hext
        cases hext

/-- The decoder finds a malformed run exactly where there is one. -/
theorem decode_eq_malformed_iff (hbs : bs ≠ []) :
    decode bs = .malformed n ↔ IsMalformedRun bs n := by
  constructor
  · exact isMalformedRun_of_decode hbs
  · intro hn
    cases hd : decode bs with
    | scalar c k => exact absurd (decode_eq_scalar_iff.mp hd).1 (hn.no_char c)
    | malformed m => rw [(isMalformedRun_of_decode hbs hd).unique hn]

end PegKit.Utf8
