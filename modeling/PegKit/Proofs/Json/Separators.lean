import PegKit.Proofs.Json.Writing

/-! # Separators in quoted strings

The two ways to quote a text differ in the line and paragraph separators only.

* `Json.unescapeSeparators` puts the separators themselves where a JSON text has their escapes.
* `Json.Unescapes` says of two pieces of JSON text that it takes the one to the other, whatever
  comes behind them.
* `Json.unescapes_quoteCanonical`: it takes a text quoted the canonical way to the same text quoted
  the plain way.
-/

namespace PegKit.Json

/-! ## Raw separators -/

/-- The characters of a JSON text, with each escape of a separator replaced by the separator. A
backslash goes with the character behind it, so that one that is escaped itself begins no escape. -/
def unescapeSeparatorsFrom : List Char → List Char
  | '\\' :: 'u' :: '2' :: '0' :: '2' :: '8' :: cs => '\u2028' :: unescapeSeparatorsFrom cs
  | '\\' :: 'u' :: '2' :: '0' :: '2' :: '9' :: cs => '\u2029' :: unescapeSeparatorsFrom cs
  | '\\' :: c :: cs => '\\' :: c :: unescapeSeparatorsFrom cs
  | c :: cs => c :: unescapeSeparatorsFrom cs
  | [] => []

/-- A JSON text with each escape of a separator replaced by the separator. -/
def unescapeSeparators (text : String) : String :=
  String.ofList (unescapeSeparatorsFrom text.toList)

theorem unescapeSeparatorsFrom_cons {c : Char} (hc : c ≠ '\\') (cs : List Char) :
    unescapeSeparatorsFrom (c :: cs) = c :: unescapeSeparatorsFrom cs := by
  rw [unescapeSeparatorsFrom]
  all_goals
    intros
    exact hc ‹_›

/-- What has no backslash stays. -/
theorem unescapeSeparatorsFrom_append {cs : List Char} (h : ∀ c ∈ cs, c ≠ '\\')
    (rest : List Char) :
    unescapeSeparatorsFrom (cs ++ rest) = cs ++ unescapeSeparatorsFrom rest := by
  induction cs with
  | nil => rfl
  | cons c cs ih =>
    rcases List.forall_mem_cons.mp h with ⟨hc, hcs⟩
    rw [List.cons_append, unescapeSeparatorsFrom_cons hc, ih hcs, List.cons_append]

/-- Escapes by a short form stay. -/
theorem unescapeSeparatorsFrom_short {e : Char} (he : e ≠ 'u') (cs : List Char) :
    unescapeSeparatorsFrom ('\\' :: e :: cs) = '\\' :: e :: unescapeSeparatorsFrom cs := by
  rw [unescapeSeparatorsFrom]
  all_goals
    intros
    exact he ‹_›

/-- So do escapes by a number that begins with another digit. -/
theorem unescapeSeparatorsFrom_number {d : Char} (hd : d ≠ '2') (cs : List Char) :
    unescapeSeparatorsFrom ('\\' :: 'u' :: d :: cs) =
      '\\' :: 'u' :: unescapeSeparatorsFrom (d :: cs) := by
  rw [unescapeSeparatorsFrom]
  all_goals
    intro _ _ h
    cases h
    exact hd rfl

/-! ## Pieces of text -/

/-- The piece `a` of a text becomes `b`. -/
def Unescapes (a b : String) : Prop :=
  ∀ rest, unescapeSeparatorsFrom (a.toList ++ rest) = b.toList ++ unescapeSeparatorsFrom rest

theorem Unescapes.eq {a b : String} (h : Unescapes a b) : unescapeSeparators a = b := by
  have h := h []
  rw [List.append_nil, unescapeSeparatorsFrom, List.append_nil] at h
  rw [unescapeSeparators, h, String.ofList_toList]

theorem Unescapes.append {a b a' b' : String} (h : Unescapes a b) (h' : Unescapes a' b') :
    Unescapes (a ++ a') (b ++ b') := by
  intro rest
  rw [String.toList_append, String.toList_append, List.append_assoc, h, h', List.append_assoc]

theorem unescapes_self {s : String} (h : ∀ c ∈ s.toList, c ≠ '\\') : Unescapes s s :=
  unescapeSeparatorsFrom_append h

theorem unescapes_join {as : List Char} {f g : Char → String}
    (h : ∀ c ∈ as, Unescapes (f c) (g c)) :
    Unescapes (String.join (as.map f)) (String.join (as.map g)) := by
  intro rest
  rw [String.toList_join, String.toList_join]
  induction as with
  | nil => rfl
  | cons c as ih =>
    rcases List.forall_mem_cons.mp h with ⟨hc, has⟩
    rw [List.map_cons, List.map_cons, List.flatMap_cons, List.flatMap_cons, List.append_assoc, hc,
      ih has, List.append_assoc]

/-! ## Bare texts -/

/-- The text has neither a backslash nor a separator. -/
def IsBare (s : String) : Prop :=
  ∀ c ∈ s.toList, c ≠ '\\' ∧ isSeparator c = false

-- over the characters of the text, where the search for an instance may go over all characters
instance (s : String) : Decidable (IsBare s) :=
  List.decidableBAll _ s.toList

theorem IsBare.unescapes {s : String} (h : IsBare s) : Unescapes s s :=
  unescapes_self fun c hc => (h c hc).1

theorem bare_digitChar : ∀ n < 16, n.digitChar ≠ '\\' ∧ isSeparator n.digitChar = false := by
  decide

/-- Digits are bare, whatever the base. -/
theorem bare_of_mem_toDigits {b n : Nat} (hb : 1 < b) (hle : b ≤ 16) {c : Char}
    (hc : c ∈ Nat.toDigits b n) : c ≠ '\\' ∧ isSeparator c = false := by
  obtain ⟨d, hd, rfl⟩ := Hex.exists_digitChar_of_mem_toDigits hb hc
  exact bare_digitChar d (Nat.lt_of_lt_of_le hd hle)

theorem isBare_padded (w n : Nat) : IsBare (Hex.padded w n) := by
  intro c hc
  obtain ⟨d, hd, rfl⟩ := Hex.exists_digitChar_of_mem_padded hc
  exact bare_digitChar d hd

/-! ## Quoted strings -/

/-- The number of a control code begins with a zero. -/
theorem toList_padded_control {c : Char} (hc : c < ' ') :
    ∃ ds, (Hex.padded 4 c.toNat).toList = '0' :: ds ∧ ∀ d ∈ ds, d ≠ '\\' := by
  have hall : ∀ n < 32, (Hex.padded 4 n).toList.head? = some '0' := by decide +kernel
  rcases List.head?_eq_some_iff.mp (hall c.toNat hc) with ⟨ds, hds⟩
  refine ⟨ds, hds, fun d hd => (isBare_padded 4 c.toNat d ?_).1⟩
  rw [hds]
  exact List.mem_cons_of_mem _ hd

theorem eq_of_isSeparator {c : Char} (hc : isSeparator c = true) : c = '\u2028' ∨ c = '\u2029' := by
  rw [isSeparator, Bool.or_eq_true, decide_eq_true_eq, decide_eq_true_eq] at hc
  exact hc.imp (Char.toNat_inj (d := '\u2028')).mp (Char.toNat_inj (d := '\u2029')).mp

/-- The numbers of the separators are what is replaced. -/
theorem unescapes_separator {c : Char} (hc : isSeparator c = true) :
    Unescapes ("\\u" ++ Hex.padded 4 c.toNat) (String.singleton c) := by
  intro rest
  rcases eq_of_isSeparator hc with rfl | rfl <;> rfl

/-- However many separators are written by number, the raw ones come out, and nothing else
changes. -/
theorem unescapes_escapeChar {byNumber : Char → Bool}
    (hb : ∀ c, byNumber c = true → isSeparator c = true) (c : Char) :
    Unescapes (escapeChar byNumber c) (escapeChar (fun _ => false) c) := by
  unfold escapeChar
  cases he : shortEscape? c with
  | some e =>
    intro rest
    rw [String.toList_ofList]
    exact unescapeSeparatorsFrom_short (ne_u_of_mem_shortEscapes (shortEscape?_mem he)) rest
  | none =>
    by_cases hc : c < ' '
    · have hzero : '0' ≠ '\\' := by decide
      rcases toList_padded_control hc with ⟨ds, hds, hplain⟩
      simp only [hc, decide_true, Bool.true_or, if_true]
      intro rest
      show unescapeSeparatorsFrom (("\\u" ++ Hex.padded 4 c.toNat).toList ++ rest) = _
      rw [String.toList_append, hds]
      show unescapeSeparatorsFrom ('\\' :: 'u' :: '0' :: (ds ++ rest)) = _
      rw [unescapeSeparatorsFrom_number (by decide), unescapeSeparatorsFrom_cons hzero,
        unescapeSeparatorsFrom_append hplain]
      rfl
    · have hplain : Unescapes (String.singleton c) (String.singleton c) := by
        refine unescapes_self fun d hd => ?_
        rw [String.toList_singleton] at hd
        exact List.mem_singleton.mp hd ▸ (shortEscape?_none he).2
      simp only [hc, decide_false, Bool.false_or, Bool.false_eq_true, if_false]
      split
      · next hnumber => exact unescapes_separator (hb c hnumber)
      · exact hplain

theorem isBare_mark : IsBare "\"" := by decide

/-- So it is in a quoted text. -/
theorem unescapes_quote {byNumber : Char → Bool}
    (hb : ∀ c, byNumber c = true → isSeparator c = true) (text : String) :
    Unescapes (quote byNumber text) (quotePlain text) := by
  have hmark : Unescapes "\"" "\"" := isBare_mark.unescapes
  exact (hmark.append (unescapes_join fun c _ => unescapes_escapeChar hb c)).append hmark

theorem unescapes_quoteCanonical (text : String) :
    Unescapes (quoteCanonical text) (quotePlain text) :=
  unescapes_quote (fun _ hc => hc) text

theorem unescapes_quotePlain (text : String) : Unescapes (quotePlain text) (quotePlain text) :=
  unescapes_quote (fun _ hc => absurd hc Bool.false_ne_true) text

/-! ## Texts without separators -/

/-- A text without separators is quoted alike in both ways. -/
theorem quoteCanonical_eq_quotePlain {text : String}
    (h : ∀ c ∈ text.toList, isSeparator c = false) : quoteCanonical text = quotePlain text := by
  rw [quoteCanonical, quotePlain, quote, quote, List.map_congr_left]
  intro c hc
  rw [escapeChar, escapeChar, h c hc]

/-- The plain way leaves a separator as it is. -/
theorem mem_quotePlain {text : String} {c : Char} (hc : isSeparator c = true)
    (hmem : c ∈ text.toList) : c ∈ (quotePlain text).toList := by
  have hself : c ∈ (escapeChar (fun _ => false) c).toList := by
    rcases eq_of_isSeparator hc with rfl | rfl <;> decide +kernel
  have hescaped : c ∈ escaped (fun _ => false) text.toList :=
    List.mem_flatMap.mpr ⟨c, hmem, hself⟩
  rw [quotePlain, toList_quote]
  exact List.mem_append_left _ (List.mem_cons_of_mem _ hescaped)

theorem isSeparator_escapeChar {c x : Char} (hx : x ∈ (escapeChar isSeparator c).toList) :
    isSeparator x = false := by
  have hbackslash : isSeparator '\\' = false := by decide
  unfold escapeChar at hx
  split at hx
  · next e he =>
    have hshort : ∀ p ∈ shortEscapes, isSeparator p.1 = false := by decide
    rw [String.toList_ofList] at hx
    rcases List.mem_cons.mp hx with rfl | hx
    · exact hbackslash
    · exact List.mem_singleton.mp hx ▸ hshort (e, c) (shortEscape?_mem he)
  split at hx
  · -- the number of a control code or of a separator
    rw [String.toList_append, List.mem_append] at hx
    rcases hx with hx | hx
    · have hu : isSeparator 'u' = false := by decide
      rcases List.mem_cons.mp hx with rfl | hx
      · exact hbackslash
      · exact List.mem_singleton.mp hx ▸ hu
    · exact (isBare_padded 4 c.toNat x hx).2
  · next hplain =>
    rw [String.toList_singleton] at hx
    rw [List.mem_singleton.mp hx]
    rw [Bool.or_eq_true, not_or] at hplain
    exact Bool.eq_false_iff.mpr hplain.2

/-- The canonical way leaves none. -/
theorem isSeparator_quoteCanonical (text : String) :
    ∀ x ∈ (quoteCanonical text).toList, isSeparator x = false := by
  intro x hx
  rw [quoteCanonical, toList_quote, List.mem_append, List.mem_cons, List.mem_singleton] at hx
  have hmark : isSeparator '"' = false := by decide
  rcases hx with (rfl | hx) | rfl
  · exact hmark
  · obtain ⟨c, _, hx⟩ := List.mem_flatMap.mp hx
    exact isSeparator_escapeChar hx
  · exact hmark

end PegKit.Json
