import PegKit.Json.Reader
import PegKit.Text.Case

/-! # Categories of rules

The spelling of a rule's name says what the rule is: `Mixed` names are rules, `CAPS` names are
tokens and `lower` names are classes.
-/

namespace PegKit

/-- What a rule is, by the convention of names. -/
inductive Category where
  /-- A rule that builds a node. -/
  | rule
  /-- A fixed sequence of code points. -/
  | token
  /-- One code point out of a set. -/
  | charClass
deriving DecidableEq, Repr, Inhabited

/-- Why a number stands for no category. -/
inductive CategoryError where
  /-- There are not so many. -/
  | unknown (n : Nat)
deriving DecidableEq, Repr

/-- The wording of an error. -/
def CategoryError.message : CategoryError → String
  | .unknown n => "unknown rule category " ++ toString n

namespace Category

/-- The category that a name implies. The first letter decides for a class; a token has capitals and
no small letters at all. -/
def ofName (name : String) : Category :=
  match name.toList with
  | [] => .rule
  | c :: cs =>
    if isLowercase c then .charClass
    else if (c :: cs).any isUppercase && !(c :: cs).any isLowercase then .token
    else .rule

/-- The number that stands for a category. -/
def number : Category → Nat
  | rule => 0
  | token => 1
  | charClass => 2

/-- The category that a number stands for. -/
def ofNumber (n : Nat) : Except CategoryError Category :=
  match n with
  | 0 => .ok rule
  | 1 => .ok token
  | 2 => .ok charClass
  | n => .error (.unknown n)

/-- The JSON text of a category, its number. -/
def toJson (k : Category) : String := toString k.number

/-- The category that a JSON value spells. -/
def ofValue? (v : Json.Value) : Option Category := do
  match ← v.toInt? with
  | .ofNat n => (ofNumber n).toOption
  | .negSucc _ => none

/-- The category that a JSON text spells. -/
def ofJson? (text : String) : Option Category := do
  ofValue? (← Json.read? text)

end Category

end PegKit
