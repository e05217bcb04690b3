import PegKit.Rule.Basic

/-! # What the error limit can break

Choices and repetitions give up at the error limit. `Rule.breakable` says of a rule that it may fail
for that reason, and `Rule.steady` that nothing in it takes such a failure for an answer.

* A failure is an answer to a negative lookahead, and to a repetition that has enough without it.
* Below the limit a repetition cannot be the first to give up, as long as its body does not.
-/

namespace PegKit.Rule

/-! ## Rules inside a rule -/

/-- The rules that a rule is made of. -/
def parts : Rule → List Rule
  | seq _ parts => parts
  | choice _ alternatives => alternatives
  | repetition _ body _ _ => [body]
  | notAhead _ body => [body]
  | ahead _ body => [body]
  | literal _ _ => []
  | charClass _ _ _ => []
  | builtin _ => []
  | custom _ => []

/-- Whether a rule matches by matching its parts. -/
def isComposite : Rule → Bool
  | seq _ _ => true
  | choice _ _ => true
  | repetition _ _ _ _ => true
  | _ => false

mutual

/-- A rule together with every rule inside it. -/
def subrules : Rule → List Rule
  | seq kind parts => seq kind parts :: subrulesEach parts
  | choice kind alternatives => choice kind alternatives :: subrulesEach alternatives
  | repetition kind body min max => repetition kind body min max :: body.subrules
  | notAhead kind body => notAhead kind body :: body.subrules
  | ahead kind body => ahead kind body :: body.subrules
  | literal kind text => [literal kind text]
  | charClass kind name accepts => [charClass kind name accepts]
  | builtin b => [builtin b]
  | custom c => [custom c]

/-- Some rules together with every rule inside them. -/
def subrulesEach : List Rule → List Rule
  | [] => []
  | r :: rs => r.subrules ++ subrulesEach rs

end

/-- A property that every rule inherits from its parts holds of all rules. -/
theorem part_induction {P : Rule → Prop} (step : ∀ r, (∀ part ∈ r.parts, P part) → P r)
    (r : Rule) : P r := by
  -- on the rule, where some rules have the property if each of them has it
  refine @Rule.rec P (fun rs => ∀ r ∈ rs, P r) ?seq ?choice ?repetition ?notAhead ?ahead
    ?literal ?charClass ?builtin ?custom ?nil ?cons r
  case seq => exact fun _ _ ih => step _ ih
  case choice => exact fun _ _ ih => step _ ih
  case repetition => exact fun _ _ _ _ ih => step _ (List.forall_mem_singleton.mpr ih)
  case notAhead => exact fun _ _ ih => step _ (List.forall_mem_singleton.mpr ih)
  case ahead => exact fun _ _ ih => step _ (List.forall_mem_singleton.mpr ih)
  case literal => exact fun _ _ => step _ (List.forall_mem_nil _)
  case charClass => exact fun _ _ _ => step _ (List.forall_mem_nil _)
  case builtin => exact fun _ => step _ (List.forall_mem_nil _)
  case custom => exact fun _ => step _ (List.forall_mem_nil _)
  case nil => exact List.forall_mem_nil _
  case cons => exact fun _ _ hr hrs => List.forall_mem_cons.mpr ⟨hr, hrs⟩

section Subrules

variable {r part sub : Rule} {rs : List Rule}

theorem mem_subrulesEach : sub ∈ subrulesEach rs ↔ ∃ r ∈ rs, sub ∈ r.subrules := by
  induction rs with
  | nil => simp [subrulesEach]
  | cons r rs ih => simp [subrulesEach, ih]

/-- Inside a rule are the rule itself and what is inside its parts. -/
theorem mem_subrules : sub ∈ r.subrules ↔ sub = r ∨ ∃ part ∈ r.parts, sub ∈ part.subrules := by
  cases r with
  | seq => rw [subrules, List.mem_cons, mem_subrulesEach, parts]
  | choice => rw [subrules, List.mem_cons, mem_subrulesEach, parts]
  | repetition => simp [subrules, parts]
  | notAhead => simp [subrules, parts]
  | ahead => simp [subrules, parts]
  | literal => simp [subrules, parts]
  | charClass => simp [subrules, parts]
  | builtin => simp [subrules, parts]
  | custom => simp [subrules, parts]

theorem any_subrules_of_part {p : Rule → Bool} (hp : part ∈ r.parts)
    (h : part.subrules.any p = true) : r.subrules.any p = true := by
  rcases List.any_eq_true.mp h with ⟨sub, hs, hsub⟩
  exact List.any_eq_true.mpr ⟨sub, mem_subrules.mpr (Or.inr ⟨part, hp, hs⟩), hsub⟩

theorem any_subrules_self {p : Rule → Bool} (h : p r = true) : r.subrules.any p = true :=
  List.any_eq_true.mpr ⟨r, mem_subrules.mpr (Or.inl rfl), h⟩

end Subrules

/-! ## Breakable and steady rules -/

def isChoice : Rule → Bool
  | choice _ _ => true
  | _ => false

def isRepetition : Rule → Bool
  | repetition _ _ _ _ => true
  | _ => false

/-- Whether a rule may fail because of the error limit. -/
def breakable : (limit : Option Nat) → Rule → Bool
  | none, _ => false
  | some 0, r => r.subrules.any fun sub => sub.isChoice || sub.isRepetition
  | some (_ + 1), r => r.subrules.any isChoice

/-- Whether a repetition can match although its body failed. -/
def forgives (min : Nat) (max : Option Nat) : Bool :=
  max.all (min < ·)

/-- Whether a rule itself takes a failure for an answer that may be due to the error limit. With a
limit of zero a repetition does not get as far as that. -/
def misjudges (limit : Option Nat) : Rule → Bool
  | notAhead _ body => body.breakable limit
  | repetition _ body min max => limit ≠ some 0 && forgives min max && body.breakable limit
  | _ => false

/-- Whether nothing inside a rule takes a failure for an answer that may be due to the error
limit. -/
def steady (limit : Option Nat) (r : Rule) : Bool :=
  !r.subrules.any (misjudges limit)

section Breakable

variable {l : Option Nat} {r part : Rule}

theorem breakable_of_part (hp : part ∈ r.parts) (h : part.breakable l = true) :
    r.breakable l = true := by
  -- the cases of the definition: no limit, a limit of zero, any other
  rcases l with _ | _ | n
  · cases h
  · exact any_subrules_of_part hp h
  · exact any_subrules_of_part hp h

theorem breakable_choice {kind : Kind} {alternatives : List Rule} {n : Nat} :
    (choice kind alternatives).breakable (some n) = true := by
  cases n with
  | zero => exact any_subrules_self rfl
  | succ n => exact any_subrules_self rfl

theorem breakable_repetition_zero {kind : Kind} {body : Rule} {min : Nat} {max : Option Nat} :
    (repetition kind body min max).breakable (some 0) = true :=
  any_subrules_self rfl

theorem steady_of_part (hp : part ∈ r.parts) (h : r.steady l = true) : part.steady l = true := by
  rw [steady, Bool.not_eq_true'] at h ⊢
  apply Bool.eq_false_iff.mpr
  intro hw
  rw [any_subrules_of_part hp hw] at h
  cases h

theorem misjudges_eq_false (h : r.steady l = true) : r.misjudges l = false := by
  rw [steady, Bool.not_eq_true'] at h
  apply Bool.eq_false_iff.mpr
  intro hm
  rw [any_subrules_self hm] at h
  cases h

/-- Without a limit every rule is steady. -/
theorem steady_none (r : Rule) : r.steady none = true := by
  have hm : ∀ sub : Rule, sub.misjudges none = false := by
    intro sub
    cases sub <;> simp [misjudges, breakable]
  rw [steady, Bool.not_eq_true', List.any_eq_false]
  intro sub _
  rw [hm sub]
  exact Bool.false_ne_true

end Breakable

end PegKit.Rule
