import PegKit.Rule.Recognize

/-! # Recognition step by step

The ways to run parts, read as functions of a scanner, and induction over rules.

* `inOrder_cons`, `firstOfFrom_cons` and `repeatedFrom_succ`: what one step of a composite rule
  does.
* `plain_induction`: a property of the parts of every rule without custom rules is one of the rule.
-/

namespace PegKit.Rule

/-! ## One step of a composite rule -/

section Steps

variable (x : ScanM Bool) (xs : List (ScanM Bool)) (s : Scanner)

/-- A sequence goes on where its first part matches. -/
theorem inOrder_cons : (inOrder (x :: xs) : ScanM Bool) s =
    match x s with
    | (true, s') => (inOrder xs : ScanM Bool) s'
    | (false, s') => (false, s') := by
  simp only [inOrder, bind, StateT.bind]
  rcases x s with ⟨_ | _, s'⟩ <;> rfl

theorem firstOf_eq (kind : Kind) :
    (firstOf kind xs : ScanM Bool) s = (firstOfFrom kind s.errors.size xs : ScanM Bool) s := rfl

/-- A choice gives up at the error limit, and goes on where its first alternative fails. -/
theorem firstOfFrom_cons (kind : Kind) (base : Nat) :
    (firstOfFrom kind base (x :: xs) : ScanM Bool) s =
      if s.atErrorLimit then (false, s.note (limitEvent kind))
      else
        match x s with
        | (true, s') => (true, s'.keepErrors base)
        | (false, s') => (firstOfFrom kind base xs : ScanM Bool) s' := by
  -- the limit is looked at before the alternative is tried
  simp only [firstOfFrom, bind, StateT.bind]
  by_cases hl : s.atErrorLimit = true
  · rw [if_pos hl]
    show (if s.atErrorLimit = true then _ else _ : ScanM Bool) s = _
    rw [if_pos hl]
    rfl
  · rw [if_neg hl]
    show (if s.atErrorLimit = true then _ else _ : ScanM Bool) s = _
    rw [if_neg hl]
    show (match x s with | (a, t) => (if a = true then _ else _ : ScanM Bool) t) = _
    rcases x s with ⟨_ | _, s'⟩ <;> rfl

theorem repeated_eq (min : Nat) (max : Option Nat) : (repeated min max x : ScanM Bool) s =
    (repeatedFrom min x (max.getD (attemptBound s)) 0 : ScanM Bool) s := rfl

/-- A repetition gives up at the error limit, and goes on where its body matches something. -/
theorem repeatedFrom_succ (min attempts matched : Nat) :
    (repeatedFrom min x (attempts + 1) matched : ScanM Bool) s =
      if s.atErrorLimit then (false, s)
      else
        match x s with
        | (true, s') =>
          if s'.cur.stop = s.cur.stop then (decide (min ≤ matched + 1), s')
          else (repeatedFrom min x attempts (matched + 1) : ScanM Bool) s'
        | (false, s') =>
          (decide (min ≤ matched), if min ≤ matched then s'.keepErrors s.errors.size else s') := by
  simp only [repeatedFrom, bind, StateT.bind]
  by_cases hl : s.atErrorLimit = true
  · rw [if_pos hl]
    show (if s.atErrorLimit = true then _ else _ : ScanM Bool) s = _
    rw [if_pos hl]
    rfl
  · rw [if_neg hl]
    show (if s.atErrorLimit = true then _ else _ : ScanM Bool) s = _
    rw [if_neg hl]
    show (match x s with | (a, t) => (if a = true then _ else _ : ScanM Bool) t) = _
    -- the body failed, or it matched nothing, or it matched something
    rcases x s with ⟨_ | _, s'⟩
    · by_cases hm : min ≤ matched
      · simp only [hm, if_true]
        rfl
      · simp only [hm, if_false]
        rfl
    · show (if s'.cur.stop = s.cur.stop then _ else _ : ScanM Bool) s' = _
      by_cases hc : s'.cur.stop = s.cur.stop
      · simp only [hc, if_true]
        rfl
      · simp only [hc, if_false]

/-- A composite rule matches if its parts do. -/
theorem recognizeComposite_fst (kind : Kind) (fill : ScanM Bool) :
    (recognizeComposite kind fill s).1 = (fill s).1 := by
  unfold recognizeComposite
  rcases fill s with ⟨_ | _, s'⟩ <;> rfl

/-- What it leaves then is what they leave. -/
theorem recognizeComposite_of_matched {s s' : Scanner} {fill : ScanM Bool}
    (h : fill s = (true, s')) (kind : Kind) : recognizeComposite kind fill s = (true, s') := by
  rw [recognizeComposite, h]

end Steps

theorem recognizeEach_eq_map (rs : List Rule) : recognizeEach rs = rs.map recognize := by
  induction rs with
  | nil => rfl
  | cons r rs ih => rw [recognizeEach, ih, List.map_cons]

/-! ## Induction over rules -/

theorem arePlain_iff {rs : List Rule} : ArePlain rs ↔ ∀ r ∈ rs, r.IsPlain := by
  induction rs with
  | nil => simp [ArePlain]
  | cons r rs ih => simp [ArePlain, ih]

/-- A property that every kind of rule inherits from its parts holds of all rules without custom
rules. -/
theorem plain_induction {P : Rule → Prop}
    (seq : ∀ kind parts, (∀ r ∈ parts, P r) → P (.seq kind parts))
    (choice : ∀ kind alternatives, (∀ r ∈ alternatives, P r) → P (.choice kind alternatives))
    (repetition : ∀ kind body min max, P body → P (.repetition kind body min max))
    (notAhead : ∀ kind body, P body → P (.notAhead kind body))
    (ahead : ∀ kind body, P body → P (.ahead kind body))
    (literal : ∀ kind text, P (.literal kind text))
    (charClass : ∀ kind name accepts, P (.charClass kind name accepts))
    (builtin : ∀ b, P (.builtin b)) {r : Rule} (hr : r.IsPlain) : P r := by
  revert hr
  refine @Rule.rec (fun r => r.IsPlain → P r)
    (fun rs => ArePlain rs → ∀ r ∈ rs, P r) ?_ ?_ ?_ ?_ ?_ ?_ ?_ ?_ ?_ ?_ ?_ r
  · intro kind parts ih hp
    exact seq kind parts (ih hp)
  · intro kind alternatives ih hp
    exact choice kind alternatives (ih hp)
  · intro kind body min max ih hp
    exact repetition kind body min max (ih hp)
  · intro kind body ih hp
    exact notAhead kind body (ih hp)
  · intro kind body ih hp
    exact ahead kind body (ih hp)
  · intro kind text _
    exact literal kind text
  · intro kind name accepts _
    exact charClass kind name accepts
  · intro b _
    exact builtin b
  · intro c hp
    exact absurd hp id
  · intro _ r hr
    cases hr
  · intro head tail ih1 ih2 hp r hr
    rcases List.mem_cons.mp hr with rfl | hr
    · exact ih1 hp.1
    · exact ih2 hp.2 r hr

end PegKit.Rule
