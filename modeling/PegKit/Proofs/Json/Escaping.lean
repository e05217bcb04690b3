import PegKit.Proofs.Json.Reading
import PegKit.Proofs.Json.Separators
import PegKit.Proofs.Text.Boundaries

/-! # Escaped strings

A text that is written as a string, from the quote that opens it to the quote that closes it.

* `unescaped` are the characters of a string that belong to no escape. `SpellsAtoms.unescaped` says
  that a quote is none of them, and `SpellsAtoms.printable` that no control code stands in a string.
* `writeRuns` writes a text as a program does that copies what need not be escaped in runs, between
  one escape and the next. `writeRuns_eq`: it finds both ends of every run, and what it writes is the
  text quoted code point by code point.
* `quoteCanonical_isLiteral`: what the canonical way to quote a text puts out.
-/

namespace PegKit.Json

open Utf8

/-! ## What stands in a string -/

/-- The characters of a string that belong to no escape. A backslash goes with the character behind
it. -/
def unescaped : List Char → List Char
  | '\\' :: _ :: cs => unescaped cs
  | c :: cs => c :: unescaped cs
  | [] => []

theorem unescaped_cons {c : Char} (hc : c ≠ '\\') (cs : List Char) :
    unescaped (c :: cs) = c :: unescaped cs := by
  rw [unescaped]
  intro _ _ h
  exact absurd h hc

/-- A hexadecimal digit is printable and is neither a quote nor a backslash. -/
theorem HexDigit.plain {c : Char} {n : Nat} (h : HexDigit c n) : IsPlainChar c := by
  have hall : ∀ n < 16, IsPlainChar n.digitChar ∧ IsPlainChar n.digitChar.toUpper := by decide
  obtain ⟨hlower, hupper⟩ := hall n h.1
  rcases h.2 with rfl | rfl
  · exact hlower
  · exact hupper

section Atoms

variable {cs : List Char} {a : Atom} {as : List Atom}

/-- No control code stands in a string. -/
theorem SpellsAtoms.printable (h : SpellsAtoms cs as) : ∀ c ∈ cs, ' ' ≤ c := by
  have hshort : ∀ p ∈ shortEscapes, ' ' ≤ p.1 := by decide
  have hatom : ∀ {ds : List Char} {a : Atom}, SpellsAtom ds a → ∀ c ∈ ds, ' ' ≤ c := by
    intro ds a hatom
    cases hatom with
    | plain printable => simpa using printable
    | @short e c escape => simpa using hshort (e, c) escape
    | unit d₃ d₂ d₁ d₀ => simpa using ⟨d₃.plain.1, d₂.plain.1, d₁.plain.1, d₀.plain.1⟩
  induction h with
  | nil => simp
  | cons head _ ih =>
    intro c hc
    rcases List.mem_append.mp hc with hc | hc
    · exact hatom head c hc
    · exact ih c hc

/-- A string has no quote but those that are escaped, and every backslash begins an escape. -/
theorem SpellsAtoms.unescaped (h : SpellsAtoms cs as) :
    ∀ c ∈ unescaped cs, c ≠ '"' ∧ c ≠ '\\' := by
  induction h with
  | nil => simp [Json.unescaped]
  | @cons ds es a as head _ ih =>
    cases head with
    | @plain c printable quote backslash =>
      rw [List.singleton_append, unescaped_cons backslash]
      exact List.forall_mem_cons.mpr ⟨⟨quote, backslash⟩, ih⟩
    | short escape => exact ih
    | unit d₃ d₂ d₁ d₀ =>
      -- the digits of a number belong to no escape by themselves, and are plain
      show ∀ c ∈ Json.unescaped (_ :: _ :: _ :: _ :: es), _
      rw [unescaped_cons d₃.plain.2.2, unescaped_cons d₂.plain.2.2, unescaped_cons d₁.plain.2.2,
        unescaped_cons d₀.plain.2.2]
      simpa using ⟨d₃.plain.2, d₂.plain.2, d₁.plain.2, d₀.plain.2, ih⟩

end Atoms

/-- Between quotes, no two texts are spelled alike. -/
theorem SpellsText.unique {cs : List Char} {t u : Text} (ht : SpellsText cs t)
    (hu : SpellsText cs u) : t = u := by
  have hread : readString? (cs ++ '"' :: []) = some (t, []) := readString?_append ht
  rw [readString?_append hu] at hread
  simpa using hread.symm

/-! ## Writing in runs -/

/-- The code points of a text, each with the offset of its first byte. -/
def charOffsets : (offset : Nat) → List Char → List (Nat × Char)
  | _, [] => []
  | offset, c :: cs =>
    (offset, c) :: charOffsets (offset + (String.utf8EncodeChar c).length) cs

/-- The escape of a code point, if it has to be escaped. -/
def escape? (byNumber : Char → Bool) (c : Char) : Option String :=
  match shortEscape? c with
  | some e => some (String.ofList ['\\', e])
  | none => if c < ' ' || byNumber c then some ("\\u" ++ Hex.padded 4 c.toNat) else none

/-- Writes what is left of a text behind `out`. The run that is not written yet begins at `plain`;
it is written before the next escape, and the last one at the end of the text. -/
def writeFrom (byNumber : Char → Bool) (bs : List UInt8) :
    (plain : Nat) → (out : List UInt8) → List (Nat × Char) → Option (List UInt8)
  | plain, out, [] => do
    return out ++ (← slice? bs plain bs.length)
  | plain, out, (offset, c) :: rest =>
    match escape? byNumber c with
    | none => writeFrom byNumber bs plain out rest
    | some e => do
      let run ← slice? bs plain offset
      writeFrom byNumber bs (offset + (String.utf8EncodeChar c).length) (out ++ run ++ bytes e) rest

/-- Writes a text as a JSON string, with runs of bytes copied from it. -/
def writeRuns (byNumber : Char → Bool) (text : String) : Option (List UInt8) := do
  let out ← writeFrom byNumber (bytes text) 0 (bytes "\"") (charOffsets 0 text.toList)
  return out ++ bytes "\""

section Runs

variable {byNumber : Char → Bool} {run : List Char}

theorem escapeChar_eq (c : Char) :
    escapeChar byNumber c = (escape? byNumber c).getD (String.singleton c) := by
  unfold escapeChar escape?
  cases shortEscape? c with
  | some e => rfl
  | none =>
    dsimp only
    split <;> rfl

/-- What need not be escaped stays as it is. -/
theorem escaped_of_plain (h : ∀ c ∈ run, escape? byNumber c = none) :
    escaped byNumber run = run := by
  induction run with
  | nil => rfl
  | cons c run ih =>
    obtain ⟨hc, hrun⟩ := List.forall_mem_cons.mp h
    have hself : (escapeChar byNumber c).toList = [c] := by
      rw [escapeChar_eq, hc, Option.getD_none, String.toList_singleton]
    have htail := ih hrun
    unfold escaped at htail ⊢
    rw [List.flatMap_cons, hself, htail]
    rfl

theorem escaped_append (cs ds : List Char) :
    escaped byNumber (cs ++ ds) = escaped byNumber cs ++ escaped byNumber ds :=
  List.flatMap_append

theorem escaped_cons_of_escape {c : Char} {e : String} (h : escape? byNumber c = some e)
    (cs : List Char) : escaped byNumber (c :: cs) = e.toList ++ escaped byNumber cs := by
  unfold escaped
  rw [List.flatMap_cons, escapeChar_eq, h]
  rfl

/-- What is written when the text up to `done` is, and `run` is passed over but not written. -/
theorem writeFrom_eq (done run cs : List Char) (out : List UInt8)
    (hrun : ∀ c ∈ run, escape? byNumber c = none) :
    writeFrom byNumber (encode (done ++ (run ++ cs))) (encode done).length out
        (charOffsets (encode (done ++ run)).length cs) =
      some (out ++ encode (escaped byNumber (run ++ cs))) := by
  -- on the code points that are left; each of them makes the run longer or ends it
  induction cs generalizing done run out with
  | nil =>
    have hslice := slice?_encode done run []
    rw [List.append_nil] at hslice ⊢
    rw [charOffsets, writeFrom, hslice, escaped_of_plain hrun]
    rfl
  | cons c cs ih =>
    have hnext : (encode (done ++ run)).length + (String.utf8EncodeChar c).length =
        (encode (done ++ (run ++ [c]))).length := by
      rw [← List.append_assoc, encode_append (done ++ run), List.length_append, encode_singleton]
    rw [charOffsets, writeFrom, hnext]
    cases hc : escape? byNumber c with
    | none =>
      have hlonger : ∀ d ∈ run ++ [c], escape? byNumber d = none := by
        simpa [or_imp, forall_and] using ⟨hrun, hc⟩
      have hrest := ih done (run ++ [c]) out hlonger
      simpa using hrest
    | some e =>
      have hslice := slice?_encode done run (c :: cs)
      have hrest := ih (done ++ (run ++ [c])) [] (out ++ encode run ++ bytes e) (by simp)
      simp only [hslice]
      rw [escaped_append, escaped_of_plain hrun, escaped_cons_of_escape hc]
      simpa [bytes_eq_encode] using hrest

/-- A text written in runs is the text quoted code point by code point, and every run lies between
two boundaries. -/
theorem writeRuns_eq (byNumber : Char → Bool) (text : String) :
    writeRuns byNumber text = some (bytes (quote byNumber text)) := by
  have hwrite : writeFrom byNumber (bytes text) 0 (bytes "\"") (charOffsets 0 text.toList) =
      some (bytes "\"" ++ encode (escaped byNumber text.toList)) :=
    writeFrom_eq [] [] text.toList (bytes "\"") (by simp)
  unfold writeRuns
  rw [hwrite, bytes_eq_encode (quote byNumber text), toList_quote]
  simp [bytes_eq_encode, encode_append]

end Runs

/-! ## The canonical way -/

/-- A text quoted the canonical way, in runs or code point by code point, is a string between two
quotes that spells the text and nothing else, and so it is read. Between these quotes no quote is
unescaped, every backslash begins an escape, and no control code, line separator or paragraph
separator stands as it is. -/
theorem quoteCanonical_isLiteral (text : String) :
    writeRuns isSeparator text = some (bytes (quoteCanonical text)) ∧
    ∃ body, (quoteCanonical text).toList = '"' :: body ++ ['"'] ∧
      SpellsText body (some text) ∧ (∀ t, SpellsText body t → t = some text) ∧
      read? (quoteCanonical text) = some (.string (some text)) ∧
      (∀ c ∈ unescaped body, c ≠ '"' ∧ c ≠ '\\') ∧
      ∀ c ∈ body, ' ' ≤ c ∧ c ≠ '\u2028' ∧ c ≠ '\u2029' := by
  have hlist : (quoteCanonical text).toList = '"' :: escaped isSeparator text.toList ++ ['"'] :=
    toList_quote isSeparator text
  obtain ⟨as, hatoms, hjoins⟩ :=
    spellsAtoms_escaped (fun _ hc => toNat_lt_of_isSeparator hc) text.toList
  have hspells : SpellsText (escaped isSeparator text.toList) (some text) := .text hatoms hjoins
  refine ⟨writeRuns_eq isSeparator text, escaped isSeparator text.toList, hlist, hspells, ?_, ?_,
    hatoms.unescaped, ?_⟩
  · intro t ht
    exact ht.unique hspells
  · apply read?_of_isText
    exact (spells_quoteCanonical text).padded
  · intro c hc
    have hraw : isSeparator c = false := by
      apply isSeparator_quoteCanonical text
      rw [hlist]
      simpa using Or.inr (Or.inl hc)
    refine ⟨hatoms.printable c hc, ?_, ?_⟩
    · rintro rfl
      exact absurd hraw (by decide)
    · rintro rfl
      exact absurd hraw (by decide)

end PegKit.Json
