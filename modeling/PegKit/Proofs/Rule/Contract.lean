import PegKit.Proofs.Rule.Recognition

/-! # The contract of rules

What recognising a rule without custom rules promises to its callers.

* `recognize_keeps`: how a rule leaves the scanner, whatever the input, the error limit and the
  errors before it.
* `recognize_iff_meaning`: without an error limit, a rule matches exactly where its meaning does.
-/

namespace PegKit.Rule

variable {r : Rule} {s : Scanner}

theorem settles_of_plain (hr : r.IsPlain) (h : s.InBounds) : s.Settles (r.recognize s) :=
  (reliable_of_plain hr s.options.maxErrors s h rfl).settles

/-- Without an error limit a rule follows its meaning. -/
theorem follows_of_plain (hr : r.IsPlain) (h : s.InBounds) (hl : s.options.maxErrors = none) :
    s.Follows r.meaning (r.recognize s) := by
  -- without a limit the meaning is promised of every rule, and no failure is excused
  have hp : r.steady none = true ∧ s.HasRoom := by
    refine ⟨steady_none r, Or.inr ?_⟩
    rw [Scanner.atErrorLimit, hl]
    rfl
  refine Scanner.Outcome.imp (fun cs hM => hM hp) (fun m new hF => ?_)
    (reliable_of_plain hr none s h hl)
  refine ⟨hF.1.1, hF.1.2, (hF.2 hp).resolve_right ?_⟩
  rintro ⟨hb, _⟩
  cases hb

/-- A rule that fails leaves everything as it was and at least one more error on the stack. One that
matches leaves the error stack as it was and does not go back, nor sideways if it consumes
nothing. -/
theorem recognize_keeps (hr : r.IsPlain) (h : s.InBounds) :
    ((r.recognize s).1 = false →
      (r.recognize s).2.cur = s.cur ∧ (r.recognize s).2.buf = s.buf ∧
        (r.recognize s).2.options = s.options ∧
        ∃ new, new ≠ #[] ∧ (r.recognize s).2.errors = s.errors ++ new) ∧
    ((r.recognize s).1 = true →
      (r.recognize s).2.errors = s.errors ∧ s.cur.stop ≤ (r.recognize s).2.cur.stop ∧
        ((r.recognize s).2.cur.stop = s.cur.stop → (r.recognize s).2.cur = s.cur)) := by
  have hs := settles_of_plain hr h
  generalize r.recognize s = out at hs ⊢
  cases hs with
  | @matched cs log reads means =>
    refine ⟨nofun, fun _ => ⟨rfl, ?_, ?_⟩⟩
    · rw [Scanner.cur_readOver, Cursor.stop_across]
      exact Nat.le_add_right _ _
    · intro hstop
      rw [Scanner.cur_readOver, Cursor.stop_across] at hstop
      -- only the empty text takes no bytes, and it leaves the cursor as it is
      have hcs : cs = [] := Utf8.length_encode_eq_zero.mp (Nat.add_eq_left.mp hstop)
      rw [hcs]
      rfl
  | failed means =>
    rcases means with ⟨rfl, hne⟩
    exact ⟨fun _ => ⟨rfl, rfl, rfl, _, hne, rfl⟩, nofun⟩

/-- A choice that the error limit cuts short, over bytes that are not a text, with an error from
before. -/
theorem recognize_keeps_cut :
    let r := choice 1 [literal 2 "ab", builtin .any]
    let s : Scanner :=
      { buf := #[0xFF, 0x61], errors := #[⟨-1, .origin⟩], options := { maxErrors := some 2 } }
    r.IsPlain ∧ s.InBounds ∧ (r.recognize s).2.cur = s.cur ∧
      ∃ new, new ≠ #[] ∧ (r.recognize s).2.errors = s.errors ++ new := by
  intro r s
  have hr : r.IsPlain := ⟨trivial, trivial, trivial⟩
  have h : s.InBounds := ⟨Nat.le_refl 0, Nat.zero_le 2⟩
  rcases (recognize_keeps hr h).1 rfl with ⟨hc, _, _, hnew⟩
  exact ⟨hr, h, hc, hnew⟩

/-- Without an error limit, a rule matches exactly where its meaning does and consumes what that
consumes, and fails exactly where its meaning does. -/
theorem recognize_iff_meaning (hr : r.IsPlain) (h : s.InBounds)
    (hl : s.options.maxErrors = none) :
    (∀ n, (r.recognize s).1 = true ∧ (r.recognize s).2.cur.stop = s.cur.stop + n ↔
      r.meaning s.rest = some n) ∧
    ((r.recognize s).1 = false ↔ r.meaning s.rest = none) := by
  have hf := follows_of_plain hr h hl
  generalize r.recognize s = out at hf ⊢
  cases hf with
  | @matched cs log reads means =>
    constructor
    · intro n
      rw [Scanner.cur_readOver, Cursor.stop_across, means, Option.some.injEq]
      exact ⟨fun hn => Nat.add_left_cancel hn.2, fun hn => ⟨rfl, congrArg (s.cur.stop + ·) hn⟩⟩
    · rw [means]
      exact ⟨nofun, nofun⟩
  | failed means =>
    rcases means with ⟨_, _, hno⟩
    constructor
    · intro n
      rw [hno]
      exact ⟨nofun, nofun⟩
    · exact ⟨fun _ => hno, fun _ => rfl⟩

/-- Words and digits up to the end of the data, after a byte that is read already. -/
theorem recognize_iff_meaning_words :
    let r := seq 1 [oneOrMore 0 (choice 0 [literal 2 "ab", builtin .digit]),
      notAhead 0 (builtin .any)]
    let s : Scanner :=
      { buf := #[0x61, 0x61, 0x62, 0x37], cur := ⟨Char.ofNat 0x61, 0, 1⟩,
        errors := #[⟨-1, .origin⟩] }
    r.IsPlain ∧ s.InBounds ∧ s.options.maxErrors = none ∧ r.meaning s.rest = some 3 := by
  intro r s
  have hr : r.IsPlain := ⟨⟨trivial, trivial, trivial⟩, trivial, trivial⟩
  have h : s.InBounds := ⟨by decide, by decide⟩
  have hrun : (r.recognize s).1 = true ∧ (r.recognize s).2.cur.stop = 1 + 3 := by decide +kernel
  exact ⟨hr, h, rfl, ((recognize_iff_meaning hr h rfl).1 3).mp hrun⟩

end PegKit.Rule
