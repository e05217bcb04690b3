import PegKit.Rule.Basic

/-! # Ways to run parts

How a composite rule runs its parts, whatever running a part means: recognising it, or parsing it
into a node. Each way takes the parts as actions that answer whether they matched.

* `inOrder` stops at the first part that fails.
* `firstOf` stops at the first part that matches, and forgets the errors of those before it.
* `repeated` stops at the first failed attempt or after a match that consumed nothing.

`firstOf` and `repeated` also give up once the scanner's error limit is reached.
-/

namespace PegKit.Rule

variable {m : Type → Type} [Monad m] [MonadStateOf Scanner m]

/-! ## Sequence -/

/-- Runs the parts in order; whether all matched. -/
def inOrder : (parts : List (m Bool)) → m Bool
  | [] => pure true
  | part :: parts => do
    if ← part then inOrder parts else pure false

/-! ## Ordered choice -/

/-- The event that a choice logs when it gives up. -/
def limitEvent (kind : Kind) : Event :=
  { level := .debug
    target := "pegn::rule"
    message := "error limit reached, giving up on choice"
    fields := [("kind", .number kind.toInt)] }

/-- Runs the alternatives until one matches. The errors above the first `base` are then those of the
alternatives before it, and are dropped. -/
def firstOfFrom (kind : Kind) (base : Nat) : (alternatives : List (m Bool)) → m Bool
  | [] => pure false
  | alternative :: alternatives => do
    if (← getThe Scanner).atErrorLimit then
      modifyThe Scanner (·.note (limitEvent kind))
      pure false
    else if ← alternative then
      modifyThe Scanner (·.keepErrors base)
      pure true
    else firstOfFrom kind base alternatives

/-- Runs the alternatives until one matches. -/
def firstOf (kind : Kind) (alternatives : List (m Bool)) : m Bool := do
  firstOfFrom kind (← getThe Scanner).errors.size alternatives

/-! ## Repetition -/

/-- Runs the body at most `attempts` times more, after `matched` matches; whether there are at least
`min` in the end. -/
def repeatedFrom (min : Nat) (body : m Bool) : (attempts matched : Nat) → m Bool
  | 0, matched => pure (decide (min ≤ matched))
  | attempts + 1, matched => do
    let limited := (← getThe Scanner).atErrorLimit
    let stop := (← getThe Scanner).cur.stop
    let base := (← getThe Scanner).errors.size
    if limited then pure false
    else if ← body then
      if (← getThe Scanner).cur.stop = stop then pure (decide (min ≤ matched + 1))
      else repeatedFrom min body attempts (matched + 1)
    else
      -- the failure that ends enough matches is no error
      if min ≤ matched then modifyThe Scanner (·.keepErrors base)
      pure (decide (min ≤ matched))

/-- How often an unbounded repetition may try its body. A body that goes forward is tried at most
once more than there are bytes ahead, so for such bodies this is no bound at all; it is beyond any
count of a running program for the others. -/
def attemptBound (s : Scanner) : Nat :=
  s.remaining + 18446744073709551616

/-- Runs the body as often as it matches, at most `max` times; whether that was at least `min`
times. -/
def repeated (min : Nat) (max : Option Nat) (body : m Bool) : m Bool := do
  repeatedFrom min body (max.getD (attemptBound (← getThe Scanner))) 0

end PegKit.Rule
