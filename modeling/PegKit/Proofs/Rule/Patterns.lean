import PegKit.Proofs.Rule.Contract
import PegKit.Proofs.Text.Validity

/-! # Builtin rules and their patterns

Every builtin rule is written out by hand, and has a pattern that says in PEG form what it matches.
Spelled with combinators, the pattern is a rule of its own.

* `Builtin.spelling` is that rule.
* `Rule.recognize_eq_of_meaning`: without an error limit, rules of one meaning answer alike and
  lead to the same cursor.
* `Builtin.recognize_eq_spelling`: over valid bytes a builtin rule is the rule that its pattern
  spells.
-/

namespace PegKit

/-! ## Patterns as rules -/

/-- The rule that the pattern of a builtin rule spells, where `κ i` is the kind of its `i`-th part.
A builtin rule that a pattern names stands for itself, and so does `.`, any code point. -/
def Builtin.spelling (κ : Nat → Kind) : Builtin → Rule
  | endOfData => .notAhead (κ 0) (.builtin any)
  | whiteSpace =>
    .choice (κ 0) [.literal (κ 1) " ", .literal (κ 2) "\t", .literal (κ 3) "\n",
      .literal (κ 4) "\r"]
  | endLine => .choice (κ 0) [.literal (κ 1) "\n", .literal (κ 2) "\r\n"]
  | endPara =>
    .seq (κ 0)
      [.zeroOrMore (κ 1) (.choice (κ 2) [.literal (κ 3) " ", .literal (κ 4) "\t"]),
        .choice (κ 5)
          [.notAhead (κ 6) (.builtin any),
            .seq (κ 7)
              [.builtin endLine,
                .choice (κ 8) [.notAhead (κ 9) (.builtin any), .builtin endLine]]]]
  | field =>
    .oneOrMore (κ 0) (.seq (κ 1) [.notAhead (κ 2) (.literal (κ 3) " "), .builtin printable])
  | printable =>
    .choice (κ 0)
      [.charClass (κ 1) "uletter" CharClass.uletter.accepts,
        .charClass (κ 2) "umark" CharClass.umark.accepts,
        .charClass (κ 3) "unumber" CharClass.unumber.accepts,
        .charClass (κ 4) "upunct" CharClass.upunct.accepts,
        .charClass (κ 5) "usymbol" CharClass.usymbol.accepts, .literal (κ 6) " "]
  | digit => .charClass (κ 0) "[0-9]" fun c => '0' ≤ c && c ≤ '9'
  | any => .builtin any

/-! ## Matchers on valid bytes -/

namespace Matcher

/-- The two matchers are the same on valid bytes. -/
def AgreeOnValid (f g : Matcher) : Prop :=
  ∀ bs, Utf8.IsValid bs → f bs = g bs

/-- What the matcher consumes is a text. -/
def ConsumesText (f : Matcher) : Prop :=
  ∀ bs n, f bs = some n → ∃ cs, Utf8.encode cs <+: bs ∧ n = (Utf8.encode cs).length

variable {f f' g g' : Matcher}

theorem AgreeOnValid.refl (f : Matcher) : AgreeOnValid f f :=
  fun _ _ => rfl

/-- On valid bytes, the end is where no code point comes next. -/
theorem agree_notAhead_any : AgreeOnValid (notAhead (one fun _ => true)) done := by
  intro bs hv
  cases hd : Utf8.decode bs with
  | malformed n =>
    rw [hv.eq_nil_of_malformed hd]
    rfl
  | scalar c n =>
    have hne : bs ≠ [] := by
      rintro rfl
      cases hd
    have hone : one (fun _ => true) bs = some n := by
      rw [one, hd]
      rfl
    rw [done_eq_none_iff.mpr hne, notAhead, hone]
    rfl

theorem AgreeOnValid.either (hf : AgreeOnValid f f') (hg : AgreeOnValid g g') :
    AgreeOnValid (firstOf [f, g]) (firstOf [f', g']) := by
  intro bs hv
  simp only [firstOf, hf bs hv, hg bs hv]

/-- Behind a text the bytes are still valid, so whatever comes next there agrees as well. -/
theorem AgreeOnValid.behind (hf : ConsumesText f) (hg : AgreeOnValid g g') :
    AgreeOnValid (inOrder [f, g]) (inOrder [f, g']) := by
  intro bs hv
  cases hn : f bs with
  | none => rw [inOrder_cons_of_none hn, inOrder_cons_of_none hn]
  | some n =>
    rcases hf bs n hn with ⟨cs, hcs, rfl⟩
    rw [inOrder_cons_of_some hn, inOrder_cons_of_some hn, inOrder_singleton, inOrder_singleton,
      hg _ (hv.drop hcs)]

end Matcher

namespace Rule

variable {r r' : Rule} {s : Scanner}

/-- Rules without custom rules consume texts. -/
theorem consumesText_of_plain (hr : r.IsPlain) : Matcher.ConsumesText r.meaning := by
  intro bs n hn
  -- a scanner that has all the bytes ahead of it
  let s := Scanner.ofBytes bs.toArray
  have hs : s.rest = bs := List.drop_zero
  have hf := follows_of_plain hr (s := s) ⟨Nat.le_refl 0, Nat.zero_le _⟩ rfl
  generalize r.recognize s = out at hf
  cases hf with
  | @matched cs log reads means =>
    rw [hs] at reads means
    rw [hn] at means
    exact ⟨cs, reads, Option.some.inj means⟩
  | failed means =>
    have hno := means.2.2
    rw [hs, hn] at hno
    cases hno

/-- Without an error limit, rules that mean the same where they begin answer alike and lead to the
same cursor. -/
theorem recognize_eq_of_meaning (hr : r.IsPlain) (hr' : r'.IsPlain) (h : s.InBounds)
    (hl : s.options.maxErrors = none) (hm : r.meaning s.rest = r'.meaning s.rest) :
    (r.recognize s).1 = (r'.recognize s).1 ∧ (r.recognize s).2.cur = (r'.recognize s).2.cur := by
  have hf := follows_of_plain hr h hl
  have hf' := follows_of_plain hr' h hl
  generalize r.recognize s = out at hf ⊢
  generalize r'.recognize s = out' at hf' ⊢
  cases hf with
  | @matched cs _ reads means =>
    cases hf' with
    | @matched cs' _ reads' means' =>
      -- two texts of one length that both come next are one text
      rw [hm, means', Option.some.injEq] at means
      exact ⟨rfl, congrArg s.cur.across (Utf8.encode_inj reads reads' means.symm)⟩
    | failed means' =>
      rw [hm, means'.2.2] at means
      cases means
  | failed means =>
    cases hf' with
    | matched reads' means' =>
      rw [← hm, means.2.2] at means'
      cases means'
    | failed means' => exact ⟨rfl, means.1.trans means'.1.symm⟩

end Rule

namespace Builtin

open Matcher

variable {s : Scanner}

/-! ## Builtin rules are what their patterns spell -/

theorem isPlain_spelling (κ : Nat → Kind) (b : Builtin) : (b.spelling κ).IsPlain := by
  cases b <;> simp [spelling, Rule.zeroOrMore, Rule.oneOrMore, Rule.IsPlain, Rule.ArePlain]

/-- On valid bytes the spelled pattern means what the builtin rule means. -/
theorem agree_spelling (κ : Nat → Kind) (b : Builtin) :
    AgreeOnValid (b.spelling κ).meaning b.meaning := by
  cases b with
  | endOfData => exact agree_notAhead_any
  | endPara =>
    -- blanks and a line ending are texts, so what follows them is tried on valid bytes
    have hblanks : ConsumesText (Matcher.repeated 0 none blank) := Rule.consumesText_of_plain
      (r := .zeroOrMore (κ 1) (.choice (κ 2) [.literal (κ 3) " ", .literal (κ 4) "\t"]))
      ⟨trivial, trivial, trivial⟩
    have hbreak : ConsumesText lineBreak :=
      Rule.consumesText_of_plain (r := .builtin endLine) trivial
    exact .behind hblanks (.either agree_notAhead_any
      (.behind hbreak (.either agree_notAhead_any (.refl _))))
  | whiteSpace => exact .refl _
  | endLine => exact .refl _
  | field => exact .refl _
  | printable => exact .refl _
  | digit => exact .refl _
  | any => exact .refl _

/-- Without an error limit and over valid bytes, a builtin rule answers as the rule that its pattern
spells and leads to the same cursor. -/
theorem recognize_eq_spelling (κ : Nat → Kind) (b : Builtin) (h : s.InBounds)
    (hl : s.options.maxErrors = none) (hv : Utf8.IsValid s.rest) :
    ((Rule.builtin b).recognize s).1 = ((b.spelling κ).recognize s).1 ∧
      ((Rule.builtin b).recognize s).2.cur = ((b.spelling κ).recognize s).2.cur :=
  Rule.recognize_eq_of_meaning trivial (isPlain_spelling κ b) h hl
    (agree_spelling κ b s.rest hv).symm

/-- Blanks, a line ending of two bytes and one of one byte end a paragraph, after a letter that is
read already. -/
theorem recognize_eq_spelling_endPara :
    let s : Scanner :=
      { buf := #[0x61, 0x20, 0x09, 0x0D, 0x0A, 0x0A, 0x62], cur := ⟨'a', 0, 1⟩,
        errors := #[⟨1, .origin⟩] }
    let r := endPara.spelling fun i => Int32.ofNat i
    s.InBounds ∧ s.options.maxErrors = none ∧ Utf8.IsValid s.rest ∧ (r.recognize s).1 = true ∧
      (r.recognize s).2.cur = ⟨'\n', 5, 6⟩ := by
  intro s r
  have h : s.InBounds := ⟨by decide, by decide⟩
  have hrest : s.rest = Utf8.encode [' ', '\t', '\r', '\n', '\n', 'b'] := by decide +kernel
  have hv : Utf8.IsValid s.rest := hrest ▸ Utf8.isValid_encode _
  have hb := recognize_eq_spelling (fun i => Int32.ofNat i) endPara h rfl hv
  have hrun : ((Rule.builtin endPara).recognize s).1 = true ∧
      ((Rule.builtin endPara).recognize s).2.cur = ⟨'\n', 5, 6⟩ := by decide +kernel
  rw [← hb.1, ← hb.2]
  exact ⟨h, rfl, hv, hrun⟩

/-- Before a byte that is no code point the end of the data is not reached, but the pattern sees
nothing ahead. -/
example :
    let s : Scanner := { buf := #[0xFF] }
    (endOfData.recognize s).1 = false ∧
      ((endOfData.spelling fun _ => untyped).recognize s).1 = true := by
  decide +kernel

end Builtin

end PegKit
