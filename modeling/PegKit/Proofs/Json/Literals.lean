import PegKit.Proofs.Json.Grammar
import PegKit.Text.Utf8.Lemmas

/-! # Reading numbers and strings

The reader of numbers and the reader of strings accept what the grammar spells, and stop where it
ends.

* `Ends`: what may stand behind a value. Nothing there makes a number longer.
* `readNumber?_append`, `spellsNumber_of_read`: numbers, from the grammar to the reader and back.
* `readString?_append`, `spellsText_of_read`: strings, likewise.
-/

namespace PegKit.Json

variable {cs ds rest : List Char}

/-! ## Blanks -/

theorem isBlank_iff {c : Char} : isBlank c = true ↔ c = ' ' ∨ c = '\t' ∨ c = '\n' ∨ c = '\r' := by
  simp only [isBlank, Bool.or_eq_true, decide_eq_true_eq, or_assoc]

theorem skipBlanks_append (h : Blanks cs) : skipBlanks (cs ++ rest) = skipBlanks rest :=
  List.dropWhile_append_of_pos fun c hc => isBlank_iff.mpr (h c hc)

theorem skipBlanks_cons {c : Char} (h : isBlank c = false) :
    skipBlanks (c :: rest) = c :: rest := by
  unfold skipBlanks
  rw [List.dropWhile_cons, if_neg (by rw [h]; exact Bool.false_ne_true)]

theorem skipBlanks_behind {c : Char} (hb : Blanks cs) (h : isBlank c = false) :
    skipBlanks (cs ++ c :: rest) = c :: rest := by
  rw [skipBlanks_append hb, skipBlanks_cons h]

theorem exists_blanks (cs : List Char) : ∃ bs, cs = bs ++ skipBlanks cs ∧ Blanks bs := by
  refine ⟨cs.takeWhile isBlank, List.takeWhile_append_dropWhile.symm, ?_⟩
  intro c hc
  exact isBlank_iff.mp (List.all_eq_true.mp List.all_takeWhile c hc)

/-! ## What stands behind a value -/

/-- What may be next behind a value: a blank, a comma, or a closing bracket or brace. -/
def followers : List Char := [' ', '\t', '\n', '\r', ',', ']', '\x7d']

/-- The text is at its end, or goes on with what may be next behind a value. -/
def Ends (rest : List Char) : Prop :=
  ∀ c cs, rest = c :: cs → c ∈ followers

theorem ends_nil : Ends [] := by
  intro c cs h
  cases h

theorem ends_cons {c : Char} (h : c ∈ followers) : Ends (c :: rest) := by
  intro d cs he
  cases he
  exact h

theorem Ends.blanks_append (h : Ends rest) (hb : Blanks cs) : Ends (cs ++ rest) := by
  cases cs with
  | nil => exact h
  | cons c cs =>
    refine ends_cons ?_
    rcases hb c List.mem_cons_self with rfl | rfl | rfl | rfl <;> decide

/-- No digit is next. -/
def NoDigit (rest : List Char) : Prop :=
  ∀ c cs, rest = c :: cs → isDigit c = false

/-- Neither a fraction nor a digit is next. -/
def NoFraction (rest : List Char) : Prop :=
  NoDigit rest ∧ ∀ cs, rest ≠ '.' :: cs

theorem Ends.noFraction (h : Ends rest) : NoFraction rest := by
  constructor
  · have hdigit : followers.any isDigit = false := by decide
    intro c cs he
    exact Bool.eq_false_iff.mpr (List.any_eq_false.mp hdigit c (h c cs he))
  · intro cs he
    exact absurd (h _ _ he) (by decide)

theorem noFraction_exponent {es : List Char} (he : Exponent es) (h : Ends rest) :
    NoFraction (es ++ rest) := by
  cases he with
  | none => exact h.noFraction
  | @some e sign ds letter signs digits =>
    constructor
    · intro c cs heq
      cases heq
      rcases letter with rfl | rfl <;> rfl
    · intro cs heq
      cases heq
      rcases letter with h | h <;> cases h

theorem noDigit_fraction {fs : List Char} (hf : Fraction fs) (h : NoFraction rest) :
    NoDigit (fs ++ rest) := by
  cases hf with
  | none => exact h.1
  | some digits =>
    intro c cs heq
    cases heq
    rfl

/-! ## Digits -/

theorem isDigit_eq (c : Char) : isDigit c = c.isDigit := by
  simp [isDigit, Char.isDigit, Char.le_def]

theorem ofDigits_eq (ds : List Char) : ofDigits ds = Nat.ofDigitChars 10 ds 0 := by
  unfold ofDigits Nat.ofDigitChars
  simp only [Nat.mul_comm]

theorem dropWhile_isDigit (h : NoDigit rest) : rest.dropWhile isDigit = rest := by
  cases rest with
  | nil => rfl
  | cons c cs =>
    rw [List.dropWhile_cons, if_neg (by rw [h c cs rfl]; exact Bool.false_ne_true)]

theorem takeWhile_isDigit (h : NoDigit rest) : rest.takeWhile isDigit = [] := by
  cases rest with
  | nil => rfl
  | cons c cs =>
    rw [List.takeWhile_cons, if_neg (by rw [h c cs rfl]; exact Bool.false_ne_true)]

theorem Digits.all (h : Digits ds) : ∀ c ∈ ds, isDigit c = true := by
  intro c hc
  rw [isDigit_eq, h.2 c hc]

/-- The digits at the start of a text. -/
theorem digits_takeWhile {c : Char} (h : isDigit c = true) :
    Digits (c :: rest.takeWhile isDigit) := by
  refine ⟨List.cons_ne_nil _ _, ?_⟩
  intro d hd
  rw [← isDigit_eq]
  rcases List.mem_cons.mp hd with rfl | hd
  · exact h
  · exact List.all_eq_true.mp List.all_takeWhile d hd

theorem skipDigits?_append (h : Digits ds) (hr : NoDigit rest) :
    skipDigits? (ds ++ rest) = some rest := by
  rcases ds with _ | ⟨d, ds⟩
  · exact absurd rfl h.1
  have hall := h.all
  show (if isDigit d = true then some ((ds ++ rest).dropWhile isDigit) else none) = some rest
  rw [if_pos (hall d List.mem_cons_self),
    List.dropWhile_append_of_pos fun c hc => hall c (List.mem_cons_of_mem _ hc),
    dropWhile_isDigit hr]

theorem digits_of_skipDigits? (h : skipDigits? cs = some rest) :
    ∃ ds, cs = ds ++ rest ∧ Digits ds := by
  unfold skipDigits? at h
  split at h
  · next c cs =>
    split at h
    · next hc =>
      cases h
      refine ⟨c :: cs.takeWhile isDigit, ?_, digits_takeWhile hc⟩
      rw [List.cons_append, List.takeWhile_append_dropWhile]
    · cases h
  · cases h

/-! ## Numbers -/

theorem readInteger?_append (h : IntegerDigits ds) (hr : NoDigit rest) :
    readInteger? (ds ++ rest) = some (Nat.ofDigitChars 10 ds 0, rest) := by
  rcases h with ⟨hd, hzero⟩
  rcases ds with _ | ⟨d, ds⟩
  · exact absurd rfl hd.1
  have hall := hd.all
  by_cases hz : d = '0'
  · subst hz
    cases hzero rfl
    rfl
  · unfold readInteger?
    split
    · next he =>
      cases he
      exact absurd rfl hz
    · next c cs _ he =>
      cases he
      show (if isDigit d = true then some (ofDigits (d :: (ds ++ rest).takeWhile isDigit),
        (ds ++ rest).dropWhile isDigit) else none) = _
      have htail := fun c hc => hall c (List.mem_cons_of_mem _ hc)
      rw [if_pos (hall d List.mem_cons_self), List.takeWhile_append_of_pos htail,
        List.dropWhile_append_of_pos htail, takeWhile_isDigit hr, dropWhile_isDigit hr,
        List.append_nil, ofDigits_eq]
    · next he => cases he

theorem integerDigits_of_read {n : Nat} (h : readInteger? cs = some (n, rest)) :
    ∃ ds, cs = ds ++ rest ∧ IntegerDigits ds ∧ n = Nat.ofDigitChars 10 ds 0 := by
  unfold readInteger? at h
  split at h
  · cases h
    refine ⟨['0'], rfl, ⟨⟨List.cons_ne_nil _ _, ?_⟩, fun _ => rfl⟩, rfl⟩
    intro c hc
    rw [List.mem_singleton.mp hc]
    rfl
  · next c cs hz =>
    split at h
    · next hc =>
      cases h
      refine ⟨c :: cs.takeWhile isDigit, ?_, ⟨digits_takeWhile hc, ?_⟩, ofDigits_eq _⟩
      · rw [List.cons_append, List.takeWhile_append_dropWhile]
      · intro he
        exact absurd (Option.some.inj he) hz
    · cases h
  · cases h

theorem skipFraction?_append {fs : List Char} (hf : Fraction fs) (h : NoFraction rest) :
    skipFraction? (fs ++ rest) = some (!fs.isEmpty, rest) := by
  cases hf with
  | none =>
    show skipFraction? rest = some (false, rest)
    unfold skipFraction?
    split
    · exact absurd rfl (h.2 _)
    · rfl
  | @some ds digits =>
    show (true, ·) <$> skipDigits? (ds ++ rest) = some (true, rest)
    rw [skipDigits?_append digits h.1]
    rfl

theorem fraction_of_skip {b : Bool} (h : skipFraction? cs = some (b, rest)) :
    ∃ fs, cs = fs ++ rest ∧ Fraction fs ∧ b = !fs.isEmpty := by
  unfold skipFraction? at h
  split at h
  · next cs =>
    obtain ⟨r, hr, he⟩ := Option.map_eq_some_iff.mp h
    cases he
    obtain ⟨ds, rfl, hd⟩ := digits_of_skipDigits? hr
    exact ⟨'.' :: ds, rfl, .some hd, rfl⟩
  · cases h
    exact ⟨[], rfl, .none, rfl⟩

theorem skipExponent?_append {es : List Char} (he : Exponent es) (h : Ends rest) :
    skipExponent? (es ++ rest) = some (!es.isEmpty, rest) := by
  cases he with
  | none =>
    show skipExponent? rest = some (false, rest)
    unfold skipExponent?
    split
    · next e cs =>
      have hletter : followers.any (fun c => c = 'e' || c = 'E') = false := by decide
      rw [if_neg (List.any_eq_false.mp hletter e (h e cs rfl))]
    · rfl
  | @some e sign ds letter signs digits =>
    have hskip := skipDigits?_append digits h.noFraction.1
    show skipExponent? (e :: (sign ++ ds ++ rest)) = some (true, rest)
    unfold skipExponent?
    dsimp only
    rw [if_pos (by simpa using letter), List.append_assoc]
    rcases signs with rfl | rfl | rfl
    · -- a digit is no sign
      rcases ds with _ | ⟨d, ds⟩
      · exact absurd rfl digits.1
      have hd := digits.2 d List.mem_cons_self
      rw [List.nil_append, List.cons_append]
      split
      · next heq =>
        cases heq
        cases hd
      · next heq =>
        cases heq
        cases hd
      · rw [← List.cons_append, hskip]
        rfl
    · show (true, ·) <$> skipDigits? (ds ++ rest) = some (true, rest)
      rw [hskip]
      rfl
    · show (true, ·) <$> skipDigits? (ds ++ rest) = some (true, rest)
      rw [hskip]
      rfl

theorem exponent_of_skip {b : Bool} (h : skipExponent? cs = some (b, rest)) :
    ∃ es, cs = es ++ rest ∧ Exponent es ∧ b = !es.isEmpty := by
  have hdigits : ∀ {e : Char} {sign cs : List Char}, (e = 'e' ∨ e = 'E') →
      (sign = [] ∨ sign = ['+'] ∨ sign = ['-']) →
      (true, ·) <$> skipDigits? cs = some (b, rest) →
      ∃ es, e :: (sign ++ cs) = es ++ rest ∧ Exponent es ∧ b = !es.isEmpty := by
    intro e sign cs letter signs h
    obtain ⟨r, hr, he⟩ := Option.map_eq_some_iff.mp h
    cases he
    obtain ⟨ds, rfl, hd⟩ := digits_of_skipDigits? hr
    refine ⟨e :: sign ++ ds, ?_, .some letter signs hd, rfl⟩
    rw [List.cons_append, List.cons_append, List.append_assoc]
  unfold skipExponent? at h
  split at h
  · next e cs =>
    split at h
    · next letter =>
      have letter : e = 'e' ∨ e = 'E' := by simpa using letter
      split at h
      · exact hdigits letter (.inr (.inl rfl)) h
      · exact hdigits letter (.inr (.inr rfl)) h
      · exact hdigits letter (.inl rfl) h
    · cases h
      exact ⟨[], rfl, .none, rfl⟩
  · cases h
    exact ⟨[], rfl, .none, rfl⟩

theorem readUnsigned?_append {negative : Bool} {fs es : List Char} (hd : IntegerDigits ds)
    (hf : Fraction fs) (he : Exponent es) (h : Ends rest) :
    readUnsigned? negative (ds ++ (fs ++ (es ++ rest))) =
      some ({ negative, digits := Nat.ofDigitChars 10 ds 0,
              isInteger := fs.isEmpty && es.isEmpty }, rest) := by
  have hne := noFraction_exponent he h
  unfold readUnsigned?
  rw [readInteger?_append hd (noDigit_fraction hf hne)]
  show (skipFraction? (fs ++ (es ++ rest))).bind _ = _
  rw [skipFraction?_append hf hne]
  show (skipExponent? (es ++ rest)).bind _ = _
  rw [skipExponent?_append he h]
  show some _ = some _
  rw [Bool.not_or, Bool.not_not, Bool.not_not]

theorem spellsNumber_of_readUnsigned {negative : Bool} {n : Number}
    (h : readUnsigned? negative cs = some (n, rest)) :
    ∃ ds, cs = ds ++ rest ∧ SpellsNumber (minus negative ++ ds) n := by
  unfold readUnsigned? at h
  obtain ⟨⟨digits, r⟩, hd, h⟩ := Option.bind_eq_some_iff.mp h
  obtain ⟨⟨hasFraction, r'⟩, hf, h⟩ := Option.bind_eq_some_iff.mp h
  obtain ⟨⟨hasExponent, r''⟩, he, h⟩ := Option.bind_eq_some_iff.mp h
  cases h
  obtain ⟨ds, rfl, hds, rfl⟩ := integerDigits_of_read hd
  obtain ⟨fs, rfl, hfs, rfl⟩ := fraction_of_skip hf
  obtain ⟨es, rfl, hes, rfl⟩ := exponent_of_skip he
  refine ⟨ds ++ (fs ++ es), ?_, ?_⟩
  · rw [List.append_assoc, List.append_assoc]
  · rw [Bool.not_or, Bool.not_not, Bool.not_not]
    exact .intro hds hfs hes

/-- A number is read as the grammar spells it, where a value may end. -/
theorem readNumber?_append {n : Number} (h : SpellsNumber cs n) (hr : Ends rest) :
    readNumber? (cs ++ rest) = some (n, rest) := by
  cases h with
  | @intro negative ds fs es hd hf he =>
    have hread : readUnsigned? negative _ = _ := readUnsigned?_append hd hf he hr
    rw [List.append_assoc, List.append_assoc, List.append_assoc]
    cases negative with
    | true => exact hread
    | false =>
      show readNumber? (ds ++ _) = _
      rcases ds with _ | ⟨d, ds⟩
      · exact absurd rfl hd.1.1
      have hdigit := hd.1.2 d List.mem_cons_self
      rw [List.cons_append] at hread ⊢
      unfold readNumber?
      split
      · next heq =>
        cases heq
        cases hdigit
      · exact hread

/-- What the reader takes for a number is one. -/
theorem spellsNumber_of_read {n : Number} (h : readNumber? cs = some (n, rest)) :
    ∃ ds, cs = ds ++ rest ∧ SpellsNumber ds n := by
  unfold readNumber? at h
  split at h
  · obtain ⟨ds, rfl, hds⟩ := spellsNumber_of_readUnsigned h
    exact ⟨'-' :: ds, rfl, hds⟩
  · exact spellsNumber_of_readUnsigned h

/-- A number starts with its sign or with a digit. -/
theorem SpellsNumber.head {n : Number} (h : SpellsNumber cs n) :
    ∃ c ds, cs = c :: ds ∧ (c = '-' ∨ c.isDigit = true) := by
  cases h with
  | @intro negative ds fs es hd hf he =>
    cases negative with
    | true => exact ⟨'-', _, rfl, .inl rfl⟩
    | false =>
      rcases ds with _ | ⟨d, ds⟩
      · exact absurd rfl hd.1.1
      · exact ⟨d, _, rfl, .inr (hd.1.2 d List.mem_cons_self)⟩

/-! ## Escapes -/

theorem unescape?_eq_some_iff {e c : Char} : unescape? e = some c ↔ (e, c) ∈ shortEscapes := by
  constructor
  · intro h
    unfold unescape? at h
    split at h <;> first | (cases h; decide) | cases h
  · have hall : ∀ x ∈ shortEscapes, unescape? x.1 = some x.2 := by decide
    exact hall (e, c)

theorem hexDigit?_of_hexDigit {c : Char} {n : Nat} (h : HexDigit c n) : Hex.digit? c = some n := by
  have hall : ∀ n < 16, Hex.digit? n.digitChar = some n ∧
      Hex.digit? n.digitChar.toUpper = some n := by decide
  rcases h with ⟨hn, rfl | rfl⟩
  · exact (hall n hn).1
  · exact (hall n hn).2

theorem hexDigit_of_read {c : Char} {n : Nat} (h : Hex.digit? c = some n) : HexDigit c n := by
  have hdecimal : ∀ k < 10, HexDigit (Char.ofNat ('0'.toNat + k)) k := by
    unfold HexDigit
    decide
  have hlower : ∀ k < 6, HexDigit (Char.ofNat ('a'.toNat + k)) (k + 10) := by
    unfold HexDigit
    decide
  have hupper : ∀ k < 6, HexDigit (Char.ofNat ('A'.toNat + k)) (k + 10) := by
    unfold HexDigit
    decide
  -- a digit lies as far behind the first one of its range as it counts more
  have hrange : ∀ {a b : Char} {k d : Nat}, a ≤ c ∧ c ≤ b → b.toNat - a.toNat < k →
      (∀ j < k, HexDigit (Char.ofNat (a.toNat + j)) (j + d)) →
        HexDigit c (c.toNat - a.toNat + d) := by
    intro a b k d hc hk hall
    have hac : a.toNat ≤ c.toNat := hc.1
    have hcb : c.toNat ≤ b.toNat := hc.2
    have hd := hall (c.toNat - a.toNat) (by omega)
    rwa [Nat.add_sub_cancel' hac, Char.ofNat_toNat] at hd
  unfold Hex.digit? at h
  split at h
  · next hc =>
    cases h
    exact hrange hc (k := 10) (d := 0) (by decide) hdecimal
  · split at h
    · next hc =>
      cases h
      exact hrange hc (by decide) hlower
    · split at h
      · next hc =>
        cases h
        exact hrange hc (by decide) hupper
      · cases h

theorem hex4?_eq_some_iff {a b c d : Char} {n : Nat} :
    hex4? a b c d = some n ↔ ∃ n₃ n₂ n₁ n₀, HexDigit a n₃ ∧ HexDigit b n₂ ∧ HexDigit c n₁ ∧
      HexDigit d n₀ ∧ n = ((n₃ * 16 + n₂) * 16 + n₁) * 16 + n₀ := by
  constructor
  · intro h
    unfold hex4? at h
    obtain ⟨n₃, h₃, h⟩ := Option.bind_eq_some_iff.mp h
    obtain ⟨n₂, h₂, h⟩ := Option.bind_eq_some_iff.mp h
    obtain ⟨n₁, h₁, h⟩ := Option.bind_eq_some_iff.mp h
    obtain ⟨n₀, h₀, h⟩ := Option.bind_eq_some_iff.mp h
    cases h
    exact ⟨n₃, n₂, n₁, n₀, hexDigit_of_read h₃, hexDigit_of_read h₂, hexDigit_of_read h₁,
      hexDigit_of_read h₀, rfl⟩
  · rintro ⟨n₃, n₂, n₁, n₀, h₃, h₂, h₁, h₀, rfl⟩
    unfold hex4?
    rw [hexDigit?_of_hexDigit h₃, hexDigit?_of_hexDigit h₂, hexDigit?_of_hexDigit h₁,
      hexDigit?_of_hexDigit h₀]
    rfl

/-! ## Pieces of strings -/

theorem readAtoms?_plain {c : Char} (printable : ' ' ≤ c) (quote : c ≠ '"')
    (backslash : c ≠ '\\') :
    readAtoms? (c :: cs) = (readAtoms? cs).map fun r => (.char c :: r.1, r.2) := by
  have hc : (c < ' ' || c = '\\') = false := by
    simpa [backslash] using printable
  rw [readAtoms?, if_neg (by rw [hc]; exact Bool.false_ne_true)]
  · cases readAtoms? cs <;> rfl
  · exact quote
  · exact fun _ _ _ _ _ h _ => backslash h
  · exact fun _ _ h _ => backslash h

theorem readAtoms?_short {e c : Char} (escape : (e, c) ∈ shortEscapes) :
    readAtoms? ('\\' :: e :: cs) = (readAtoms? cs).map fun r => (.char c :: r.1, r.2) := by
  rw [readAtoms?, unescape?_eq_some_iff.mpr escape]
  · cases readAtoms? cs <;> rfl
  · exact fun _ _ _ _ _ h _ => ne_u_of_mem_shortEscapes escape h

theorem readAtoms?_unit {a b c d : Char} {n : Nat} (h : hex4? a b c d = some n) :
    readAtoms? ('\\' :: 'u' :: a :: b :: c :: d :: cs) =
      (readAtoms? cs).map fun r => (.unit n :: r.1, r.2) := by
  rw [readAtoms?, h]
  cases readAtoms? cs <;> rfl

theorem readAtoms?_append {as : List Atom} (h : SpellsAtoms cs as) :
    readAtoms? (cs ++ '"' :: rest) = some (as, rest) := by
  induction h with
  | nil =>
    unfold readAtoms?
    rfl
  | @cons cs ds a as head _ ih =>
    rw [List.append_assoc]
    cases head with
    | plain printable quote backslash =>
      rw [List.singleton_append, readAtoms?_plain printable quote backslash, ih]
      rfl
    | short escape =>
      show readAtoms? ('\\' :: _ :: (ds ++ '"' :: rest)) = _
      rw [readAtoms?_short escape, ih]
      rfl
    | unit d₃ d₂ d₁ d₀ =>
      show readAtoms? ('\\' :: 'u' :: _ :: _ :: _ :: _ :: (ds ++ '"' :: rest)) = _
      rw [readAtoms?_unit (hex4?_eq_some_iff.mpr ⟨_, _, _, _, d₃, d₂, d₁, d₀, rfl⟩), ih]
      rfl

theorem spellsAtoms_of_read {as : List Atom} (h : readAtoms? cs = some (as, rest)) :
    ∃ ds, cs = ds ++ '"' :: rest ∧ SpellsAtoms ds as := by
  fun_induction readAtoms? cs generalizing as with
  | case1 => cases h
  | case2 =>
    cases h
    exact ⟨[], rfl, .nil⟩
  | case3 a b c d cs ih =>
    obtain ⟨n, hn, h⟩ := Option.bind_eq_some_iff.mp h
    obtain ⟨⟨as', r⟩, hr, h⟩ := Option.bind_eq_some_iff.mp h
    cases h
    obtain ⟨ds, rfl, hds⟩ := ih hr
    obtain ⟨n₃, n₂, n₁, n₀, h₃, h₂, h₁, h₀, rfl⟩ := hex4?_eq_some_iff.mp hn
    exact ⟨_, rfl, .cons (.unit h₃ h₂ h₁ h₀) hds⟩
  | case4 e cs _ ih =>
    obtain ⟨c, hc, h⟩ := Option.bind_eq_some_iff.mp h
    obtain ⟨⟨as', r⟩, hr, h⟩ := Option.bind_eq_some_iff.mp h
    cases h
    obtain ⟨ds, rfl, hds⟩ := ih hr
    exact ⟨_, rfl, .cons (.short (unescape?_eq_some_iff.mp hc)) hds⟩
  | case5 => cases h
  | case6 c cs hquote _ _ hc ih =>
    obtain ⟨⟨as', r⟩, hr, h⟩ := Option.bind_eq_some_iff.mp h
    cases h
    obtain ⟨ds, rfl, hds⟩ := ih hr
    simp only [Bool.or_eq_true, decide_eq_true_eq, not_or] at hc
    exact ⟨_, rfl, .cons (.plain (Char.not_lt.mp hc.1) hquote hc.2) hds⟩

/-! ## Joining -/

theorem isHighSurrogate_iff {n : Nat} :
    isHighSurrogate n = true ↔ 0xD800 ≤ n ∧ n < 0xDC00 := by
  simp [isHighSurrogate]

theorem isLowSurrogate_iff {n : Nat} : isLowSurrogate n = true ↔ 0xDC00 ≤ n ∧ n < 0xE000 := by
  simp [isLowSurrogate]

theorem isHighSurrogate_toNat (c : Char) : isHighSurrogate c.toNat = false := by
  have hv : c.toNat < 0xD800 ∨ 0xDFFF < c.toNat ∧ c.toNat < 0x110000 := c.valid
  rw [Bool.eq_false_iff, ne_eq, isHighSurrogate_iff]
  omega

theorem isLowSurrogate_toNat (c : Char) : isLowSurrogate c.toNat = false := by
  have hv : c.toNat < 0xD800 ∨ 0xDFFF < c.toNat ∧ c.toNat < 0x110000 := c.valid
  rw [Bool.eq_false_iff, ne_eq, isLowSurrogate_iff]
  omega

theorem joinAtoms?_unit {as : List Atom} (c : Char) :
    joinAtoms? (.unit c.toNat :: as) = (joinAtoms? as).map (c :: ·) := by
  rw [joinAtoms?.eq_def]
  split
  · next heq => cases heq
  · next heq => cases heq
  · next heq =>
    cases heq
    rw [isHighSurrogate_toNat, isLowSurrogate_toNat, Char.ofNat_toNat]
    rfl
  · next heq =>
    cases heq
    rw [isHighSurrogate_toNat, isLowSurrogate_toNat, Char.ofNat_toNat]
    rfl

theorem joinAtoms?_of_joins {as : List Atom} {s : List Char} (h : Joins as s) :
    joinAtoms? as = some s := by
  induction h with
  | nil => rw [joinAtoms?]
  | char c _ ih =>
    rw [joinAtoms?, ih]
    rfl
  | unit c _ ih =>
    rw [joinAtoms?_unit, ih]
    rfl
  | pair c high _ ih =>
    have hv : c.toNat < 0xD800 ∨ 0xDFFF < c.toNat ∧ c.toNat < 0x110000 := c.valid
    have hhigh : isHighSurrogate (0xD800 + (c.toNat - 0x10000) / 0x400) = true := by
      rw [isHighSurrogate_iff]
      omega
    have hlow : isLowSurrogate (0xDC00 + (c.toNat - 0x10000) % 0x400) = true := by
      rw [isLowSurrogate_iff]
      omega
    have hc : 0x10000 + (0xD800 + (c.toNat - 0x10000) / 0x400 - 0xD800) * 0x400 +
        (0xDC00 + (c.toNat - 0x10000) % 0x400 - 0xDC00) = c.toNat := by omega
    rw [joinAtoms?, if_pos hhigh, if_pos hlow, hc, Char.ofNat_toNat, ih]
    rfl

/-- A unit that is no half of a pair is a code point. -/
theorem Joins.ofNat {as : List Atom} {s : List Char} {n : Nat} (hn : n < 0x10000)
    (hhigh : ¬ isHighSurrogate n = true) (hlow : ¬ isLowSurrogate n = true) (h : Joins as s) :
    Joins (.unit n :: as) (Char.ofNat n :: s) := by
  rw [isHighSurrogate_iff] at hhigh
  rw [isLowSurrogate_iff] at hlow
  have hto : (Char.ofNat n).toNat = n := Utf8.toNat_ofNat_of_valid (by omega)
  have hj := Joins.unit (Char.ofNat n) h
  rwa [hto] at hj

/-- Two units that are the halves of a pair are one code point. -/
theorem Joins.ofPair {as : List Atom} {s : List Char} {n m : Nat}
    (hhigh : isHighSurrogate n = true) (hlow : isLowSurrogate m = true) (h : Joins as s) :
    Joins (.unit n :: .unit m :: as)
      (Char.ofNat (0x10000 + (n - 0xD800) * 0x400 + (m - 0xDC00)) :: s) := by
  rw [isHighSurrogate_iff] at hhigh
  rw [isLowSurrogate_iff] at hlow
  have hvalid : 0x10000 + (n - 0xD800) * 0x400 + (m - 0xDC00) < 0x110000 := by omega
  generalize hv : 0x10000 + (n - 0xD800) * 0x400 + (m - 0xDC00) = v at hvalid ⊢
  have hto : (Char.ofNat v).toNat = v := Utf8.toNat_ofNat_of_valid (by omega)
  have hn : 0xD800 + (v - 0x10000) / 0x400 = n := by omega
  have hm : 0xDC00 + (v - 0x10000) % 0x400 = m := by omega
  have hj := Joins.pair (Char.ofNat v) (by omega) h
  rwa [hto, hn, hm] at hj

theorem joins_of_joinAtoms {as : List Atom} {s : List Char}
    (hu : ∀ n, .unit n ∈ as → n < 0x10000) (h : joinAtoms? as = some s) : Joins as s := by
  fun_induction joinAtoms? as generalizing s with
  | case1 =>
    cases h
    exact .nil
  | case2 c as ih =>
    obtain ⟨s, hs, rfl⟩ := Option.map_eq_some_iff.mp h
    exact .char c (ih (fun n hn => hu n (List.mem_cons_of_mem _ hn)) hs)
  | case3 n m as hn hm ih =>
    obtain ⟨s, hs, rfl⟩ := Option.map_eq_some_iff.mp h
    have hu' := fun k hk => hu k (List.mem_cons_of_mem _ (List.mem_cons_of_mem _ hk))
    exact .ofPair hn hm (ih hu' hs)
  | case4 => cases h
  | case5 => cases h
  | case6 n m as hn hn' ih =>
    obtain ⟨s, hs, rfl⟩ := Option.map_eq_some_iff.mp h
    exact .ofNat (hu n List.mem_cons_self) hn hn'
      (ih (fun k hk => hu k (List.mem_cons_of_mem _ hk)) hs)
  | case7 => cases h
  | case8 n as _ hn ih =>
    obtain ⟨s, hs, rfl⟩ := Option.map_eq_some_iff.mp h
    rw [Bool.or_eq_true, not_or] at hn
    exact .ofNat (hu n List.mem_cons_self) hn.1 hn.2
      (ih (fun k hk => hu k (List.mem_cons_of_mem _ hk)) hs)

theorem SpellsAtoms.unit_lt {as : List Atom} (h : SpellsAtoms cs as) :
    ∀ n, .unit n ∈ as → n < 0x10000 := by
  induction h with
  | nil => exact fun _ h => absurd h List.not_mem_nil
  | cons head _ ih =>
    intro n hn
    rcases List.mem_cons.mp hn with he | hn
    · cases head with
      | plain => cases he
      | short => cases he
      | unit d₃ d₂ d₁ d₀ =>
        cases he
        have := d₃.1
        have := d₂.1
        have := d₁.1
        have := d₀.1
        omega
    · exact ih n hn

/-! ## Strings -/

/-- A string is read as the grammar spells it. -/
theorem readString?_append {t : Text} (h : SpellsText cs t) :
    readString? (cs ++ '"' :: rest) = some (t, rest) := by
  unfold readString?
  cases h with
  | text atoms joins =>
    rw [readAtoms?_append atoms]
    show some ((joinAtoms? _).map String.ofList, rest) = _
    rw [joinAtoms?_of_joins joins]
    show some (some (String.ofList _), rest) = _
    rw [String.ofList_toList]
  | @noText as atoms apart =>
    rw [readAtoms?_append atoms]
    show some ((joinAtoms? as).map String.ofList, rest) = _
    cases hj : joinAtoms? as with
    | none => rfl
    | some s => exact absurd (joins_of_joinAtoms atoms.unit_lt hj) (apart s)

/-- What the reader takes for a string is one. -/
theorem spellsText_of_read {t : Text} (h : readString? cs = some (t, rest)) :
    ∃ ds, cs = ds ++ '"' :: rest ∧ SpellsText ds t := by
  unfold readString? at h
  obtain ⟨⟨as, r⟩, hr, h⟩ := Option.bind_eq_some_iff.mp h
  cases h
  obtain ⟨ds, rfl, hds⟩ := spellsAtoms_of_read hr
  refine ⟨ds, rfl, ?_⟩
  cases hj : joinAtoms? as with
  | none =>
    refine .noText hds fun s hs => ?_
    rw [joinAtoms?_of_joins hs] at hj
    cases hj
  | some s =>
    refine .text hds ?_
    rw [String.toList_ofList]
    exact joins_of_joinAtoms hds.unit_lt hj

end PegKit.Json
