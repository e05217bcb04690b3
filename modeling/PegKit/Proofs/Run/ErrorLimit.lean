import PegKit.Proofs.Rule.Contract
import PegKit.Run

/-! # The error limit

A run with an error limit beside the same run without one.

* `recognize_eq_ok_iff`: when a run succeeds.
* `recognize_unlimited`: what a steady rule matches with a limit it matches without.
* `limit_adds_no_match_iff`: which ways to nest rules make a limit add matches, and at which limits.
-/

namespace PegKit

/-! ## Ways to nest rules -/

/-- A place where a choice or a repetition may stand in a rule. -/
inductive Nesting where
  /-- A choice in a negative lookahead. -/
  | choiceInNot
  /-- A repetition in a negative lookahead. -/
  | repetitionInNot
  /-- A choice in a repetition that can match although its body failed. -/
  | choiceInRepetition
deriving DecidableEq, Repr

/-- Whether the error limit `n` makes the nested rule fail in a way that becomes a match. No
repetition is cut short at a limit other than zero, and at that limit none gets to its body. -/
def Nesting.misleadsAt (n : Nat) : Nesting → Bool
  | .choiceInNot => true
  | .repetitionInNot => n = 0
  | .choiceInRepetition => n ≠ 0

namespace Rule

/-- Whether a rule itself has a nested rule in a given place. -/
def holds : Nesting → Rule → Bool
  | .choiceInNot, notAhead _ body => body.subrules.any isChoice
  | .repetitionInNot, notAhead _ body => body.subrules.any isRepetition
  | .choiceInRepetition, repetition _ body min max =>
    forgives min max && body.subrules.any isChoice
  | _, _ => false

/-- Whether a rule or one inside it has a nested rule in a given place. -/
def nests (k : Nesting) (r : Rule) : Bool :=
  r.subrules.any (holds k)

/-- A rule is steady where no rule stands in a place in which the limit misleads. -/
theorem steady_of_nests {r : Rule} {n : Nat}
    (h : ∀ k : Nesting, k.misleadsAt n = true → r.nests k = false) : r.steady (some n) = true := by
  rw [steady, Bool.not_eq_true', List.any_eq_false]
  intro sub hsub hm
  have hno : ∀ k : Nesting, k.misleadsAt n = true → sub.holds k = false := by
    intro k hk
    exact Bool.eq_false_iff.mpr (List.any_eq_false.mp (h k hk) sub hsub)
  have hc := hno .choiceInNot rfl
  -- only a negative lookahead and a repetition take a failure for an answer
  cases sub with
  | notAhead kind body =>
    cases n with
    | zero =>
      rcases List.any_eq_true.mp hm with ⟨x, hx, hxp⟩
      rcases Bool.or_eq_true_iff.mp hxp with hx' | hx'
      · exact absurd hx' (List.any_eq_false.mp hc x hx)
      · exact absurd hx' (List.any_eq_false.mp (hno .repetitionInNot rfl) x hx)
    | succ n =>
      have hb : body.subrules.any isChoice = true := hm
      rw [holds, hb] at hc
      cases hc
  | repetition kind body min max =>
    cases n with
    | zero =>
      rw [misjudges] at hm
      simp at hm
    | succ n =>
      have hr := hno .choiceInRepetition rfl
      rw [misjudges, breakable] at hm
      rw [holds] at hr
      simp only [Bool.and_eq_true] at hm
      rw [hm.1.2, hm.2] at hr
      cases hr
  | seq => cases hm
  | choice => cases hm
  | ahead => cases hm
  | literal => cases hm
  | charClass => cases hm
  | builtin => cases hm
  | custom => cases hm

end Rule

namespace Run

open Scanner

variable {r : Rule} {input : Array UInt8} {o : Options} {c : Cursor}

/-! ## When a run succeeds -/

theorem start_inBounds (r : Rule) (input : Array UInt8) (o : Options) :
    (start r input o).InBounds :=
  InBounds.load (Scanner.new o) input

/-- A run succeeds where the rule matches, up to the end unless the options allow otherwise. -/
theorem recognize_eq_ok_iff : (recognize r input o).1 = .ok c ↔
    ∃ s, r.recognize (start r input o) = (true, s) ∧ s.cur = c ∧
      (s.atEnd = true ∨ s.options.allowPartial = true) := by
  unfold recognize
  rcases r.recognize (start r input o) with ⟨matched, s⟩
  cases matched with
  | false =>
    constructor
    · intro h
      cases h
    · rintro ⟨s', h, _⟩
      cases h
  | true =>
    by_cases hd : s.atEnd = true ∨ s.options.allowPartial = true
    · have hc : (!s.atEnd && !s.options.allowPartial) = false := by
        rcases hd with hd | hd <;> simp [hd]
      simp only [conclude, hc]
      constructor
      · intro h
        cases h
        exact ⟨s, rfl, rfl, hd⟩
      · rintro ⟨s', h, rfl, _⟩
        cases h
        rfl
    · have hc : (!s.atEnd && !s.options.allowPartial) = true := by
        simpa [not_or] using hd
      simp only [conclude, hc]
      constructor
      · intro h
        cases h
      · rintro ⟨s', h, _, hd'⟩
        cases h
        exact absurd hd' hd

/-! ## Steady rules -/

/-- A run with an error limit starts as the same run without one, but for the limit. -/
theorem hasRoom_start {n : Nat} :
    (start r input { o with maxErrors := some n }).HasRoom := by
  cases n with
  | zero => exact Or.inl rfl
  | succ n => exact Or.inr (decide_eq_false (Nat.not_succ_le_zero n))

/-- What a steady rule matches with an error limit it matches without one, up to the same place. -/
theorem recognize_unlimited {n : Nat} (hr : r.IsPlain) (hs : r.steady (some n) = true)
    (h : (recognize r input { o with maxErrors := some n }).1 = .ok c) :
    (recognize r input { o with maxErrors := none }).1 = .ok c := by
  rcases recognize_eq_ok_iff.mp h with ⟨s, hrec, hcur, hend⟩
  have h1 := Rule.reliable_of_plain hr (some n) _
    (start_inBounds r input { o with maxErrors := some n }) rfl
  have h2 := Rule.follows_of_plain hr (start_inBounds r input { o with maxErrors := none }) rfl
  rw [hrec] at h1
  cases h1 with
  | @matched cs log reads means =>
    have hm := means ⟨hs, hasRoom_start⟩
    rw [recognize_eq_ok_iff]
    generalize r.recognize (start r input { o with maxErrors := none }) = out at h2 ⊢
    cases h2 with
    | failed means' =>
      rcases means' with ⟨_, _, hno⟩
      exact absurd (hm.symm.trans hno) (Option.some_ne_none _)
    | @matched ds log' reads' means' =>
      -- both runs read what the rule means, so they read the same
      have hcs : cs = ds :=
        Utf8.encode_inj reads reads' (Option.some.inj (hm.symm.trans means'))
      subst hcs
      exact ⟨_, rfl, hcur, hend⟩

/-! ## Rules that a limit makes match -/

/-- A choice that fails `n` times on any input before it comes to its last alternative. -/
def lateAny (n : Nat) : Rule :=
  .choice 0 (List.replicate n (.builtin .endOfData) ++ [.builtin .any])

theorem lateAny_plain (n : Nat) : (lateAny n).IsPlain := by
  apply Rule.arePlain_iff.mpr
  intro r hr
  rcases List.mem_append.mp hr with hr | hr
  · rw [List.eq_of_mem_replicate hr]
    trivial
  · rw [List.mem_singleton.mp hr]
    trivial

theorem subrules_lateAny {n : Nat} {sub : Rule} (h : sub ∈ (lateAny n).subrules) :
    sub = lateAny n ∨ ∃ b, sub = .builtin b := by
  rcases Rule.mem_subrules.mp h with h | ⟨part, hp, hs⟩
  · exact Or.inl h
  · apply Or.inr
    rcases List.mem_append.mp hp with hp | hp
    · rw [List.eq_of_mem_replicate hp] at hs
      exact ⟨_, List.mem_singleton.mp hs⟩
    · rw [List.mem_singleton.mp hp] at hs
      exact ⟨_, List.mem_singleton.mp hs⟩

/-- With a limit of `n` it gives up before that. -/
theorem firstOfFrom_gives_up (kind : Kind) (base : Nat) (xs : List (ScanM Bool)) {n k : Nat}
    {s : Scanner} (h : s.atEnd = false) (hl : s.options.maxErrors = some n)
    (hk : s.errors.size + k = n) :
    ((Rule.firstOfFrom kind base
      (List.replicate k (Rule.builtin .endOfData).recognize ++ xs) : ScanM Bool) s).1 = false := by
  -- on the errors that are missing to the limit: each failure brings one more
  induction k generalizing s with
  | zero =>
    cases xs with
    | nil => rfl
    | cons x xs =>
      have hlim : s.atErrorLimit = true := by
        rw [atErrorLimit, hl]
        exact decide_eq_true (Nat.le_of_eq hk.symm)
      rw [List.replicate_zero, List.nil_append, Rule.firstOfFrom_cons, if_pos hlim]
  | succ k ih =>
    have hlim : ¬ s.atErrorLimit = true := by
      rw [atErrorLimit, hl]
      intro hle
      have hle : n ≤ s.errors.size := of_decide_eq_true hle
      omega
    have hrec : (Rule.builtin .endOfData).recognize s =
        (false, s.expect Builtin.endOfData.kind) := by
      show (if s.atEnd then _ else _ : Bool × Scanner) = _
      rw [if_neg (by rw [h]; exact Bool.false_ne_true)]
    rw [List.replicate_succ, List.cons_append, Rule.firstOfFrom_cons, if_neg hlim, hrec]
    refine ih h hl ?_
    rw [← hk, expect, pushError, Array.size_push]
    omega

theorem meaning_lateAny (n : Nat) : (lateAny n).meaning [0x61] = some 1 := by
  show Matcher.firstOf (Rule.meanings _) [0x61] = some 1
  rw [Rule.meanings_eq_map, List.map_append, List.map_replicate]
  induction n with
  | zero => rfl
  | succ n ih =>
    rw [List.replicate_succ, List.cons_append, Matcher.firstOf_cons_of_none rfl]
    exact ih

section Limited

variable {n : Nat} {s : Scanner}

theorem lateAny_gives_up (h : s.atEnd = false) (he : s.errors = #[])
    (hl : s.options.maxErrors = some n) : ((lateAny n).recognize s).1 = false := by
  have hsize : s.errors.size + n = n := by
    rw [he]
    exact Nat.zero_add n
  have hfill := firstOfFrom_gives_up 0 s.errors.size [(Rule.builtin .any).recognize] h hl hsize
  rw [lateAny, Rule.recognize, Rule.recognizeEach_eq_map, List.map_append, List.map_replicate,
    Rule.recognizeComposite_fst, Rule.firstOf_eq]
  exact hfill

/-- A negative lookahead matches where its body fails. -/
theorem notAhead_of_failed {body : Rule} (hb : body.IsPlain) (h : s.InBounds)
    (hf : (body.recognize s).1 = false) (kind : Kind) :
    ∃ log, (Rule.notAhead kind body).recognize s = (true, s.readOver [] log) := by
  have hs := Rule.settles_of_plain hb h
  show ∃ log, Rule.recognizeNotAhead kind body.recognize s = _
  unfold Rule.recognizeNotAhead
  generalize body.recognize s = out at hs hf ⊢
  cases hs with
  | matched => cases hf
  | @failed m new log means =>
    rcases means with ⟨rfl, _⟩
    refine ⟨log, ?_⟩
    show (true, (s.strayed s.cur new log).keepErrors s.errors.size) = _
    rw [keepErrors_report]

/-- So does an optional rule, as long as the limit is not reached before it. -/
theorem optional_of_failed {body : Rule} (hb : body.IsPlain) (h : s.InBounds)
    (hl : s.atErrorLimit = false) (hf : (body.recognize s).1 = false) (kind : Kind) :
    ∃ log, (Rule.optional kind body).recognize s = (true, s.readOver [] log) := by
  have hs := Rule.settles_of_plain hb h
  suffices hfill : ∃ log, (Rule.repeatedFrom 0 body.recognize 1 0 : ScanM Bool) s =
      (true, s.readOver [] log) by
    rcases hfill with ⟨log, hfill⟩
    exact ⟨log, Rule.recognizeComposite_of_matched (by rw [Rule.repeated_eq]; exact hfill) kind⟩
  rw [Rule.repeatedFrom_succ, if_neg (by rw [hl]; exact Bool.false_ne_true)]
  generalize body.recognize s = out at hs hf ⊢
  cases hs with
  | matched => cases hf
  | @failed m new log means =>
    rcases means with ⟨rfl, _⟩
    refine ⟨log, ?_⟩
    show (true, (s.strayed s.cur new log).keepErrors s.errors.size) = _
    rw [keepErrors_report]

end Limited

/-- A rule that nests in one place only, and that the limit `n` makes match nothing at all in front
of the letter a. -/
def misled (n : Nat) : Nesting → Rule
  | .choiceInNot => .notAhead 0 (lateAny n)
  | .repetitionInNot => .notAhead 0 (.optional 0 (.builtin .any))
  | .choiceInRepetition => .optional 0 (lateAny n)

theorem misled_plain (n : Nat) (k : Nesting) : (misled n k).IsPlain := by
  cases k with
  | choiceInNot => exact lateAny_plain n
  | repetitionInNot => exact trivial
  | choiceInRepetition => exact lateAny_plain n

theorem nests_misled {n : Nat} {k j : Nesting} (h : (misled n k).nests j = true) : j = k := by
  rcases List.any_eq_true.mp h with ⟨sub, hsub, hj⟩
  have hlate : ∀ {sub}, sub ∈ (lateAny n).subrules → sub.holds j = false := by
    intro sub hs
    rcases subrules_lateAny hs with rfl | ⟨b, rfl⟩
    · cases j <;> rfl
    · cases j <;> rfl
  cases k with
  | choiceInNot =>
    rcases List.mem_cons.mp hsub with rfl | hsub
    · cases j with
      | choiceInNot => rfl
      | repetitionInNot =>
        rcases List.any_eq_true.mp hj with ⟨x, hx, hxr⟩
        rcases subrules_lateAny hx with rfl | ⟨b, rfl⟩
        · cases hxr
        · cases hxr
      | choiceInRepetition => cases hj
    · rw [hlate hsub] at hj
      cases hj
  | repetitionInNot =>
    rcases List.mem_cons.mp hsub with rfl | hsub
    · cases j with
      | choiceInNot => cases hj
      | repetitionInNot => rfl
      | choiceInRepetition => cases hj
    · rcases List.mem_cons.mp hsub with rfl | hsub
      · cases j <;> cases hj
      · rw [List.mem_singleton.mp hsub] at hj
        cases j <;> cases hj
  | choiceInRepetition =>
    rcases List.mem_cons.mp hsub with rfl | hsub
    · cases j with
      | choiceInNot => cases hj
      | repetitionInNot => cases hj
      | choiceInRepetition => rfl
    · rw [hlate hsub] at hj
      cases hj

theorem recognize_misled {n : Nat} {k : Nesting} (hk : k.misleadsAt n = true) :
    (recognize (misled n k) #[0x61] { maxErrors := some n, allowPartial := true }).1 =
      .ok .origin := by
  have h := start_inBounds (misled n k) #[0x61] { maxErrors := some n, allowPartial := true }
  have hlate := @lateAny_gives_up n
    (start (misled n k) #[0x61] { maxErrors := some n, allowPartial := true }) rfl rfl rfl
  rw [recognize_eq_ok_iff]
  cases k with
  | choiceInNot =>
    rcases notAhead_of_failed (lateAny_plain n) h hlate 0 with ⟨log, hr⟩
    exact ⟨_, hr, rfl, Or.inr rfl⟩
  | repetitionInNot =>
    have hn : n = 0 := of_decide_eq_true hk
    subst hn
    have hb : (Rule.optional 0 (.builtin .any)).IsPlain := trivial
    rcases notAhead_of_failed hb h rfl 0 with ⟨log, hr⟩
    exact ⟨_, hr, rfl, Or.inr rfl⟩
  | choiceInRepetition =>
    have hn : n ≠ 0 := of_decide_eq_true hk
    have hl : (start (misled n .choiceInRepetition) #[0x61]
        { maxErrors := some n, allowPartial := true }).atErrorLimit = false :=
      decide_eq_false fun hle => hn (Nat.le_zero.mp hle)
    rcases optional_of_failed (lateAny_plain n) h hl hlate 0 with ⟨log, hr⟩
    exact ⟨_, hr, rfl, Or.inr rfl⟩

theorem optional_meaning {body : Rule} (hb : body.meaning [0x61] = some 1) (kind : Kind) :
    (Rule.optional kind body).meaning [0x61] = some 1 := by
  show Matcher.repeated 0 (some 1) body.meaning [0x61] = some 1
  rw [Matcher.repeated_of_some (by simp) hb Nat.zero_lt_one (Nat.le_refl 1)]
  show (Matcher.repeated (0 - 1) (some 0) body.meaning _).map (1 + ·) = some 1
  rw [Matcher.repeated_zero]
  rfl

/-- Without a limit it matches the letter or not at all. -/
theorem meaning_misled (n : Nat) (k : Nesting) : (misled n k).meaning [0x61] ≠ some 0 := by
  have hlate := meaning_lateAny n
  cases k with
  | choiceInNot =>
    show Matcher.notAhead (lateAny n).meaning [0x61] ≠ some 0
    rw [Matcher.notAhead, hlate]
    exact (Option.some_ne_none 0).symm
  | repetitionInNot =>
    have hany : (Rule.builtin .any).meaning [0x61] = some 1 := rfl
    show Matcher.notAhead (Rule.optional 0 (.builtin .any)).meaning [0x61] ≠ some 0
    rw [Matcher.notAhead, optional_meaning hany]
    exact (Option.some_ne_none 0).symm
  | choiceInRepetition =>
    show (Rule.optional 0 (lateAny n)).meaning [0x61] ≠ some 0
    rw [optional_meaning hlate]
    intro h
    exact absurd (Option.some.inj h) Nat.one_ne_zero

theorem recognize_misled_unlimited (n : Nat) (k : Nesting) :
    (recognize (misled n k) #[0x61] { maxErrors := none, allowPartial := true }).1 ≠
      .ok .origin := by
  intro hok
  rcases recognize_eq_ok_iff.mp hok with ⟨s, hrec, hcur, _⟩
  have hf := Rule.follows_of_plain (misled_plain n k)
    (start_inBounds (misled n k) #[0x61] { maxErrors := none, allowPartial := true }) rfl
  rw [hrec] at hf
  cases hf with
  | @matched cs log reads means =>
    have hstop := congrArg Cursor.stop hcur
    rw [cur_readOver, Cursor.stop_across] at hstop
    have hlen : (Utf8.encode cs).length = 0 := (Nat.add_eq_zero_iff.mp hstop).2
    rw [hlen] at means
    exact meaning_misled n k means

/-! ## What a limit does -/

/-- Let rules nest in the places `allowed` only. Then an error limit of `n` never makes a run
succeed that fails without a limit, or ends elsewhere, exactly if the limit misleads in none of
these places. -/
theorem limit_adds_no_match_iff (n : Nat) (allowed : Nesting → Prop) :
    (∀ r : Rule, r.IsPlain → (∀ k, r.nests k = true → allowed k) →
      ∀ (input : Array UInt8) (o : Options) (c : Cursor),
        (recognize r input { o with maxErrors := some n }).1 = .ok c →
          (recognize r input { o with maxErrors := none }).1 = .ok c) ↔
      ∀ k, allowed k → k.misleadsAt n = false := by
  constructor
  · intro h k hk
    -- a place that misleads has a rule that nests there only and is misled
    apply Bool.eq_false_iff.mpr
    intro hmis
    have hall : ∀ j, (misled n k).nests j = true → allowed j := by
      intro j hj
      rw [nests_misled hj]
      exact hk
    exact recognize_misled_unlimited n k
      (h _ (misled_plain n k) hall #[0x61] { allowPartial := true } .origin (recognize_misled hmis))
  -- where no place misleads, every rule is steady
  · intro h r hr hall input o c hok
    refine recognize_unlimited hr (Rule.steady_of_nests ?_) hok
    intro k hmis
    apply Bool.eq_false_iff.mpr
    intro hn
    rw [h k (hall k hn)] at hmis
    cases hmis

/-- An error limit of one makes a run succeed that fails without a limit: the choice gives up before
it comes to the alternative that matches. -/
theorem limit_adds_match :
    ¬ ∀ r : Rule, r.IsPlain → ∀ (input : Array UInt8) (n : Nat) (o : Options) (c : Cursor),
      (recognize r input { o with maxErrors := some n }).1 = .ok c →
        (recognize r input { o with maxErrors := none }).1 = .ok c := by
  intro h
  have hok := h (.notAhead 0 (.choice 0 [.builtin .endOfData, .builtin .any]))
    ⟨trivial, trivial, trivial⟩ #[0x61] 1 { allowPartial := true } .origin rfl
  cases hok

end Run

end PegKit
