import PegKit.Proofs.Json.Literals

/-! # Reading values

`Json.read?_eq_some_iff`: the reader finds the value of a text exactly when the grammar says that
the text spells it. So it refuses every other text, and no text spells two values.

* `Spells.read`: a spelled value is read, and the reader stops behind it. By recursion on how it is
  spelled; twice the length is fuel enough.
* `sound_of_read`: what the reader finds is spelled by what it has passed over. By induction on
  the fuel, over values, items and members together.
-/

namespace PegKit.Json

variable {cs ds rest : List Char} {v : Value} {fuel : Nat}

/-! ## How a value starts -/

theorem isBlank_of_number {c : Char} (h : c = '-' ∨ c.isDigit = true) : isBlank c = false := by
  rw [Bool.eq_false_iff, ne_eq, isBlank_iff]
  rintro (rfl | rfl | rfl | rfl) <;> revert h <;> decide

/-- A value starts with neither a blank nor a closing bracket. -/
theorem Spells.head (h : Spells cs v) :
    ∃ c ds, cs = c :: ds ∧ isBlank c = false ∧ c ≠ ']' := by
  cases h with
  | number h =>
    rcases h.head with ⟨c, ds, rfl, hc⟩
    refine ⟨c, ds, rfl, isBlank_of_number hc, ?_⟩
    rintro rfl
    revert hc
    decide
  | _ => exact ⟨_, _, rfl, by decide, by decide⟩

theorem Spells.skipBlanks_append (h : Spells cs v) : skipBlanks (cs ++ rest) = cs ++ rest := by
  rcases h.head with ⟨c, ds, rfl, hc, _⟩
  exact skipBlanks_cons hc

theorem SpellsItems.not_close {vs : List Value} (h : SpellsItems cs vs) :
    ∀ ds, skipBlanks (cs ++ rest) ≠ ']' :: ds := by
  have hpadded : ∀ {cs : List Char} {v : Value}, SpellsPadded cs v →
      ∀ rest ds, skipBlanks (cs ++ rest) ≠ ']' :: ds := by
    intro cs v h rest ds he
    cases h with
    | intro before value behind =>
      rcases value.head with ⟨c, cs, rfl, hc, hne⟩
      rw [List.append_assoc, Json.skipBlanks_append before, List.cons_append, List.cons_append,
        skipBlanks_cons hc] at he
      exact hne (List.cons.inj he).1
  cases h with
  | last value => exact hpadded value rest
  | more value items =>
    rw [List.append_assoc]
    exact hpadded value _

theorem SpellsMembers.not_close {ms : List (Text × Value)} (h : SpellsMembers cs ms) :
    ∀ ds, skipBlanks (cs ++ rest) ≠ '\x7d' :: ds := by
  have hmember : ∀ {cs : List Char} {m : Text × Value}, SpellsMember cs m →
      ∀ rest ds, skipBlanks (cs ++ rest) ≠ '\x7d' :: ds := by
    intro cs m h rest ds he
    cases h with
    | intro before key behind value =>
      rw [List.append_assoc, Json.skipBlanks_append before, List.cons_append,
        skipBlanks_cons (by decide)] at he
      exact absurd (List.cons.inj he).1 (by decide)
  cases h with
  | last member => exact hmember member rest
  | more member members =>
    rw [List.append_assoc]
    exact hmember member _

/-! ## Steps of the reader -/

theorem readValue?_blanks (h : Blanks cs) :
    readValue? fuel (cs ++ rest) = readValue? fuel rest := by
  cases fuel with
  | zero => rw [readValue?, readValue?]
  | succ fuel => rw [readValue?, readValue?, skipBlanks_append h]

theorem readItems?_blanks (h : Blanks cs) :
    readItems? fuel (cs ++ rest) = readItems? fuel rest := by
  cases fuel with
  | zero => rw [readItems?, readItems?]
  | succ fuel => rw [readItems?, readItems?, readValue?_blanks h]

theorem readMembers?_blanks (h : Blanks cs) :
    readMembers? fuel (cs ++ rest) = readMembers? fuel rest := by
  cases fuel with
  | zero => rw [readMembers?, readMembers?]
  | succ fuel => rw [readMembers?, readMembers?, skipBlanks_append h]

theorem readItems?_skipBlanks : readItems? fuel (skipBlanks cs) = readItems? fuel cs := by
  rcases exists_blanks cs with ⟨bs, hcs, hb⟩
  exact (readItems?_blanks hb).symm.trans (congrArg (readItems? fuel) hcs.symm)

theorem readMembers?_skipBlanks : readMembers? fuel (skipBlanks cs) = readMembers? fuel cs := by
  rcases exists_blanks cs with ⟨bs, hcs, hb⟩
  exact (readMembers?_blanks hb).symm.trans (congrArg (readMembers? fuel) hcs.symm)

theorem readValue?_number {c : Char} (h : c = '-' ∨ c.isDigit = true) :
    readValue? (fuel + 1) (c :: cs) =
      (readNumber? (c :: cs)).map fun r => (.number r.1, r.2) := by
  rw [readValue?, skipBlanks_cons (isBlank_of_number h)]
  split
  case h_7 => cases readNumber? (c :: cs) <;> rfl
  all_goals
    next heq =>
      cases heq
      exact absurd h (by decide)

theorem readValue?_string :
    readValue? (fuel + 1) ('"' :: cs) = (readString? cs).map fun r => (.string r.1, r.2) := by
  show (readString? cs).bind (fun r => some (Value.string r.1, r.2)) = _
  cases readString? cs <;> rfl

theorem readValue?_bracket : readValue? (fuel + 1) ('[' :: cs) =
    match skipBlanks cs with
    | ']' :: rest => some (.array [], rest)
    | rest => (readItems? fuel rest).bind fun r => some (.array r.1, r.2) := rfl

theorem readValue?_brace : readValue? (fuel + 1) ('\x7b' :: cs) =
    match skipBlanks cs with
    | '\x7d' :: rest => some (.object [], rest)
    | rest => (readMembers? fuel rest).bind fun r => some (.object r.1, r.2) := rfl

/-- What stands before the items of an array may be passed over. -/
theorem readValue?_array (h : ∀ ds, skipBlanks cs ≠ ']' :: ds) :
    readValue? (fuel + 1) ('[' :: cs) =
      (readItems? fuel cs).map fun r => (.array r.1, r.2) := by
  rw [readValue?_bracket, ← readItems?_skipBlanks]
  split
  · next heq => exact absurd heq (h _)
  · cases readItems? fuel (skipBlanks cs) <;> rfl

theorem readValue?_object (h : ∀ ds, skipBlanks cs ≠ '\x7d' :: ds) :
    readValue? (fuel + 1) ('\x7b' :: cs) =
      (readMembers? fuel cs).map fun r => (.object r.1, r.2) := by
  rw [readValue?_brace, ← readMembers?_skipBlanks]
  split
  · next heq => exact absurd heq (h _)
  · cases readMembers? fuel (skipBlanks cs) <;> rfl

theorem readValue?_emptyArray (h : Blanks cs) :
    readValue? (fuel + 1) ('[' :: (cs ++ ']' :: rest)) = some (.array [], rest) := by
  rw [readValue?_bracket, skipBlanks_behind h (by decide)]
  rfl

theorem readValue?_emptyObject (h : Blanks cs) :
    readValue? (fuel + 1) ('\x7b' :: (cs ++ '\x7d' :: rest)) = some (.object [], rest) := by
  rw [readValue?_brace, skipBlanks_behind h (by decide)]
  rfl

/-- After an item, the array is closed or more items are read. -/
theorem readItems?_item {vs : List Value} (hv : readValue? fuel cs = some (v, ds))
    (h : skipBlanks ds = ']' :: rest ∧ vs = [] ∨
      ∃ es, skipBlanks ds = ',' :: es ∧ readItems? fuel es = some (vs, rest)) :
    readItems? (fuel + 1) cs = some (v :: vs, rest) := by
  rw [readItems?, hv]
  dsimp only [Option.bind_eq_bind, Option.bind_some]
  rcases h with ⟨hclose, rfl⟩ | ⟨es, hcomma, hvs⟩
  · rw [hclose]
    rfl
  · rw [hcomma]
    show (readItems? fuel es).bind _ = _
    rw [hvs]
    rfl

/-- After a member, the object is closed or more members are read. -/
theorem readMembers?_member {bs ks bs' : List Char} {k : Text} {ms : List (Text × Value)}
    (hb : Blanks bs) (hk : SpellsText ks k) (hb' : Blanks bs')
    (hv : readValue? fuel cs = some (v, ds))
    (h : skipBlanks ds = '\x7d' :: rest ∧ ms = [] ∨
      ∃ es, skipBlanks ds = ',' :: es ∧ readMembers? fuel es = some (ms, rest)) :
    readMembers? (fuel + 1) (bs ++ '"' :: (ks ++ '"' :: (bs' ++ ':' :: cs))) =
      some ((k, v) :: ms, rest) := by
  rw [readMembers?, skipBlanks_behind hb (by decide)]
  show (readString? _).bind _ = _
  rw [readString?_append hk]
  dsimp only [Option.bind_some]
  rw [skipBlanks_behind hb' (by decide)]
  show (readValue? fuel cs).bind _ = _
  rw [hv]
  dsimp only [Option.bind_some]
  rcases h with ⟨hclose, rfl⟩ | ⟨es, hcomma, hms⟩
  · rw [hclose]
    rfl
  · rw [hcomma]
    show (readMembers? fuel es).bind _ = _
    rw [hms]
    rfl

/-! ## What is spelled is read -/

mutual

theorem Spells.read {cs : List Char} {v : Value} (h : Spells cs v) (fuel : Nat) (rest : List Char)
    (hf : 2 * cs.length ≤ fuel) (hr : Ends rest) :
    readValue? fuel (cs ++ rest) = some (v, rest) := by
  rcases h.head with ⟨c, ds, hcs, _⟩
  have hpos : cs.length = ds.length + 1 := congrArg List.length hcs
  obtain ⟨fuel, rfl⟩ : ∃ f, fuel = f + 1 := ⟨fuel - 1, by omega⟩
  match h with
  | .null => rfl
  | .boolTrue => rfl
  | .boolFalse => rfl
  | .number number =>
    rcases number.head with ⟨c, ds, rfl, hc⟩
    rw [List.cons_append, readValue?_number hc, ← List.cons_append, readNumber?_append number hr]
    rfl
  | .string text =>
    simp only [List.append_assoc, List.cons_append, List.nil_append]
    rw [readValue?_string, readString?_append text]
    rfl
  | .emptyArray blanks =>
    simp only [List.append_assoc, List.cons_append, List.nil_append]
    exact readValue?_emptyArray blanks
  | .array items =>
    simp only [List.append_assoc, List.cons_append, List.nil_append]
    rw [readValue?_array items.not_close, SpellsItems.read items fuel rest (by simp at hf; omega)]
    rfl
  | .emptyObject blanks =>
    simp only [List.append_assoc, List.cons_append, List.nil_append]
    exact readValue?_emptyObject blanks
  | .object members =>
    simp only [List.append_assoc, List.cons_append, List.nil_append]
    rw [readValue?_object members.not_close,
      SpellsMembers.read members fuel rest (by simp at hf; omega)]
    rfl

/-- Blanks behind a value are left to who reads on. -/
theorem SpellsPadded.read {cs : List Char} {v : Value} (h : SpellsPadded cs v) (fuel : Nat)
    (rest : List Char) (hf : 2 * cs.length ≤ fuel) (hr : Ends rest) :
    ∃ bs, Blanks bs ∧ readValue? fuel (cs ++ rest) = some (v, bs ++ rest) := by
  match h with
  | @SpellsPadded.intro bs cs bs' _ before value behind =>
    refine ⟨bs', behind, ?_⟩
    rw [List.append_assoc, List.append_assoc, readValue?_blanks before]
    exact Spells.read value fuel (bs' ++ rest) (by simp at hf; omega) (hr.blanks_append behind)

theorem SpellsItems.read {cs : List Char} {vs : List Value} (h : SpellsItems cs vs) (fuel : Nat)
    (rest : List Char) (hf : 2 * cs.length + 1 ≤ fuel) :
    readItems? fuel (cs ++ ']' :: rest) = some (vs, rest) := by
  obtain ⟨fuel, rfl⟩ : ∃ f, fuel = f + 1 := ⟨fuel - 1, by omega⟩
  match h with
  | .last value =>
    rcases SpellsPadded.read value fuel (']' :: rest) (by omega) (ends_cons (by decide)) with
      ⟨bs, hb, hv⟩
    exact readItems?_item hv (.inl ⟨skipBlanks_behind hb (by decide), rfl⟩)
  | @SpellsItems.more cs ds _ _ value items =>
    rw [List.append_assoc, List.cons_append]
    rcases SpellsPadded.read value fuel (',' :: (ds ++ ']' :: rest)) (by simp at hf; omega)
      (ends_cons (by decide)) with ⟨bs, hb, hv⟩
    exact readItems?_item hv (.inr ⟨_, skipBlanks_behind hb (by decide),
      SpellsItems.read items fuel rest (by simp at hf; omega)⟩)

/-- A member is read alone, when the object ends behind it, and together with more. -/
theorem SpellsMember.read {cs : List Char} {m : Text × Value} (h : SpellsMember cs m) (fuel : Nat)
    (hf : 2 * cs.length ≤ fuel) :
    (∀ rest, readMembers? (fuel + 1) (cs ++ '\x7d' :: rest) = some ([m], rest)) ∧
    ∀ ds ms rest, readMembers? fuel ds = some (ms, rest) →
      readMembers? (fuel + 1) (cs ++ ',' :: ds) = some (m :: ms, rest) := by
  match h with
  | @SpellsMember.intro bs ks bs' cs k v before key behind value =>
    have hv := fun rest => SpellsPadded.read value fuel rest (by simp at hf; omega)
    simp only [List.append_assoc, List.cons_append]
    constructor
    · intro rest
      rcases hv ('\x7d' :: rest) (ends_cons (by decide)) with ⟨b, hb, hv⟩
      exact readMembers?_member before key behind hv
        (.inl ⟨skipBlanks_behind hb (by decide), rfl⟩)
    · intro ds ms rest hms
      rcases hv (',' :: ds) (ends_cons (by decide)) with ⟨b, hb, hv⟩
      exact readMembers?_member before key behind hv
        (.inr ⟨ds, skipBlanks_behind hb (by decide), hms⟩)

theorem SpellsMembers.read {cs : List Char} {ms : List (Text × Value)} (h : SpellsMembers cs ms)
    (fuel : Nat) (rest : List Char) (hf : 2 * cs.length + 1 ≤ fuel) :
    readMembers? fuel (cs ++ '\x7d' :: rest) = some (ms, rest) := by
  obtain ⟨fuel, rfl⟩ : ∃ f, fuel = f + 1 := ⟨fuel - 1, by omega⟩
  match h with
  | .last member => exact (SpellsMember.read member fuel (by omega)).1 rest
  | @SpellsMembers.more cs ds m ms member members =>
    rw [List.append_assoc, List.cons_append]
    refine (SpellsMember.read member fuel (by simp at hf; omega)).2 _ ms rest ?_
    exact SpellsMembers.read members fuel rest (by simp at hf; omega)

end

/-! ## What is read is spelled -/

/-- What is found for a value is spelled by what is passed over. -/
def SoundValue (fuel : Nat) : Prop :=
  ∀ {cs rest : List Char} {v : Value}, readValue? fuel cs = some (v, rest) →
    ∃ bs ds, cs = bs ++ (ds ++ rest) ∧ Blanks bs ∧ Spells ds v

/-- What is found for the items of an array is spelled by what is passed over. -/
def SoundItems (fuel : Nat) : Prop :=
  ∀ {cs rest : List Char} {vs : List Value}, readItems? fuel cs = some (vs, rest) →
    ∃ ds, cs = ds ++ ']' :: rest ∧ SpellsItems ds vs

/-- What is found for the members of an object is spelled by what is passed over. -/
def SoundMembers (fuel : Nat) : Prop :=
  ∀ {cs rest : List Char} {ms : List (Text × Value)}, readMembers? fuel cs = some (ms, rest) →
    ∃ ds, cs = ds ++ '\x7d' :: rest ∧ SpellsMembers ds ms

theorem soundValue_succ (hi : SoundItems fuel) (hm : SoundMembers fuel) :
    SoundValue (fuel + 1) := by
  intro cs rest v h
  rcases exists_blanks cs with ⟨bs, hcs, hb⟩
  rw [readValue?] at h
  generalize skipBlanks cs = start at hcs h
  subst hcs
  suffices hs : ∃ ds, start = ds ++ rest ∧ Spells ds v by
    rcases hs with ⟨ds, rfl, hd⟩
    exact ⟨bs, ds, rfl, hb, hd⟩
  split at h
  · cases h
    exact ⟨_, rfl, .null⟩
  · cases h
    exact ⟨_, rfl, .boolTrue⟩
  · cases h
    exact ⟨_, rfl, .boolFalse⟩
  · obtain ⟨⟨t, r⟩, hr, h⟩ := Option.bind_eq_some_iff.mp h
    cases h
    rcases spellsText_of_read hr with ⟨ds, rfl, hd⟩
    refine ⟨_, ?_, .string hd⟩
    simp only [List.append_assoc, List.cons_append, List.nil_append]
  · next cs =>
    rcases exists_blanks cs with ⟨bs', hcs, hb'⟩
    split at h
    · next heq =>
      cases h
      refine ⟨_, ?_, .emptyArray hb'⟩
      rw [hcs, heq]
      simp only [List.append_assoc, List.cons_append, List.nil_append]
    · rw [readItems?_skipBlanks] at h
      obtain ⟨⟨vs, r⟩, hr, he⟩ := Option.bind_eq_some_iff.mp h
      cases he
      rcases hi hr with ⟨ds, rfl, hd⟩
      refine ⟨_, ?_, .array hd⟩
      simp only [List.append_assoc, List.cons_append, List.nil_append]
  · next cs =>
    rcases exists_blanks cs with ⟨bs', hcs, hb'⟩
    split at h
    · next heq =>
      cases h
      refine ⟨_, ?_, .emptyObject hb'⟩
      rw [hcs, heq]
      simp only [List.append_assoc, List.cons_append, List.nil_append]
    · rw [readMembers?_skipBlanks] at h
      obtain ⟨⟨ms, r⟩, hr, he⟩ := Option.bind_eq_some_iff.mp h
      cases he
      rcases hm hr with ⟨ds, rfl, hd⟩
      refine ⟨_, ?_, .object hd⟩
      simp only [List.append_assoc, List.cons_append, List.nil_append]
  · obtain ⟨⟨n, r⟩, hr, h⟩ := Option.bind_eq_some_iff.mp h
    cases h
    rcases spellsNumber_of_read hr with ⟨ds, rfl, hd⟩
    exact ⟨ds, rfl, .number hd⟩

theorem soundItems_succ (hv : SoundValue fuel) (hi : SoundItems fuel) :
    SoundItems (fuel + 1) := by
  intro cs rest vs h
  rw [readItems?] at h
  obtain ⟨⟨v, r⟩, hr, hvs⟩ := Option.bind_eq_some_iff.mp h
  rcases hv hr with ⟨bs, ds, hcs, hb, hd⟩
  rcases exists_blanks r with ⟨bs', hr', hb'⟩
  dsimp only at hvs
  generalize skipBlanks r = after at hr' hvs
  have hitem : ∃ es, cs = es ++ after ∧ SpellsPadded es v := by
    refine ⟨_, ?_, .intro hb hd hb'⟩
    rw [hcs, hr']
    simp only [List.append_assoc]
  rcases hitem with ⟨es, rfl, hes⟩
  split at hvs
  · cases hvs
    exact ⟨es, rfl, .last hes⟩
  · obtain ⟨⟨vs, r''⟩, hread, he⟩ := Option.bind_eq_some_iff.mp hvs
    cases he
    rcases hi hread with ⟨fs, rfl, hfs⟩
    refine ⟨es ++ ',' :: fs, ?_, .more hes hfs⟩
    rw [List.append_assoc, List.cons_append]
  · cases hvs

theorem soundMembers_succ (hv : SoundValue fuel) (hm : SoundMembers fuel) :
    SoundMembers (fuel + 1) := by
  intro cs rest ms h
  rcases exists_blanks cs with ⟨bs, hcs, hb⟩
  rw [readMembers?] at h
  split at h
  · next heq =>
    obtain ⟨⟨k, r⟩, hkey, hms⟩ := Option.bind_eq_some_iff.mp h
    rcases spellsText_of_read hkey with ⟨ks, rfl, hk⟩
    rcases exists_blanks r with ⟨bs', hr, hb'⟩
    dsimp only at hms
    split at hms
    · next r' heq' =>
      obtain ⟨⟨v, r''⟩, hvalue, hmore⟩ := Option.bind_eq_some_iff.mp hms
      rcases hv hvalue with ⟨b, ds, hr', hblank, hd⟩
      rcases exists_blanks r'' with ⟨b', hr'', hblank'⟩
      dsimp only at hmore
      generalize skipBlanks r'' = after at hr'' hmore
      have hmember : ∃ es, cs = es ++ after ∧ SpellsMember es (k, v) := by
        refine ⟨_, ?_, .intro hb hk hb' (.intro hblank hd hblank')⟩
        rw [hcs, heq, hr, heq', hr', hr'']
        simp only [List.append_assoc, List.cons_append]
      rcases hmember with ⟨es, rfl, hes⟩
      split at hmore
      · cases hmore
        exact ⟨es, rfl, .last hes⟩
      · obtain ⟨⟨ms, r⟩, hread, he⟩ := Option.bind_eq_some_iff.mp hmore
        cases he
        rcases hm hread with ⟨fs, rfl, hfs⟩
        refine ⟨es ++ ',' :: fs, ?_, .more hes hfs⟩
        rw [List.append_assoc, List.cons_append]
      · cases hmore
    · cases hms
  · cases h

theorem sound_of_read (fuel : Nat) : SoundValue fuel ∧ SoundItems fuel ∧ SoundMembers fuel := by
  induction fuel with
  | zero =>
    refine ⟨?_, ?_, ?_⟩ <;> intro _ _ _ h
    · rw [readValue?] at h
      cases h
    · rw [readItems?] at h
      cases h
    · rw [readMembers?] at h
      cases h
  | succ fuel ih =>
    rcases ih with ⟨hv, hi, hm⟩
    exact ⟨soundValue_succ hi hm, soundItems_succ hv hi, soundMembers_succ hv hm⟩

/-! ## Whole texts -/

theorem read?_of_isText {text : String} (h : IsText text v) : read? text = some v := by
  unfold read?
  rcases h.read (2 * text.toList.length + 2) [] (by omega) ends_nil with ⟨bs, hb, hv⟩
  rw [List.append_nil, List.append_nil] at hv
  show (readValue? _ _).bind _ = _
  rw [hv]
  have hskip : skipBlanks bs = [] := by
    have hall : skipBlanks (bs ++ []) = skipBlanks [] := skipBlanks_append hb
    rwa [List.append_nil] at hall
  show (if skipBlanks bs = [] then some v else none) = some v
  rw [if_pos hskip]

theorem isText_of_read {text : String} (h : read? text = some v) : IsText text v := by
  unfold read? at h
  obtain ⟨⟨w, r⟩, hr, h⟩ := Option.bind_eq_some_iff.mp h
  dsimp only at h
  split at h
  · next hskip =>
    cases h
    rcases (sound_of_read _).1 hr with ⟨bs, ds, hcs, hb, hd⟩
    rcases exists_blanks r with ⟨bs', hr', hb'⟩
    rw [hskip, List.append_nil] at hr'
    unfold IsText
    rw [hcs, hr']
    exact .intro hb hd hb'
  · cases h

/-- The reader finds the value that the grammar gives to a text, and no other. -/
theorem read?_eq_some_iff {text : String} : read? text = some v ↔ IsText text v :=
  ⟨isText_of_read, read?_of_isText⟩

end PegKit.Json
