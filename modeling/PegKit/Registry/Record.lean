import PegKit.Json.Value
import PegKit.Registry.Category
import PegKit.Rule.Basic

/-! # Rule records

What is known of a rule besides how it runs, and its JSON form: an object with the keys `id`,
`name`, `type`, `pegn` and `desc`, of which the last two are left out when empty.

* `RuleRecord.ofJson?` also reads an array of the same things in that order, takes defaults for
  `type`, `pegn` and `desc`, and passes over keys it does not know.
-/

namespace PegKit

/-- A description of a rule. -/
structure RuleRecord where
  kind : Kind
  name : String
  category : Category := .rule
  /-- The rule in PEG form. -/
  pattern : String := ""
  /-- The rule in words. -/
  description : String := ""
deriving DecidableEq, Repr, Inhabited

namespace RuleRecord

/-- The record of a rule. -/
def of (r : Rule) : RuleRecord where
  kind := r.kind
  name := r.name
  category := .ofName r.name
  pattern := r.pattern
  description := r.description

/-! ## Writing -/

/-- A member that is left out when its text is empty. -/
def textMember (key text : String) : String :=
  if text = "" then "" else ",\"" ++ key ++ "\":" ++ Json.quotePlain text

/-- The JSON text of a record. -/
def toJson (r : RuleRecord) : String :=
  "\x7b\"id\":" ++ Kind.render r.kind ++ ",\"name\":" ++ Json.quotePlain r.name ++
    ",\"type\":" ++ r.category.toJson ++ textMember "pegn" r.pattern ++
    textMember "desc" r.description ++ "\x7d"

/-! ## Reading -/

/-- A value that may be missing, with a default. -/
def optional? {α : Type} (default : α) (read? : Json.Value → Option α) :
    Option Json.Value → Option α
  | none => some default
  | some v => read? v

/-- The record whose fields are given by values, some of which may be missing. -/
def ofFields? (kind name category pattern description : Option Json.Value) : Option RuleRecord := do
  return {
    kind := ← (← kind).toKind?
    name := ← (← name).toText?
    category := ← optional? .rule Category.ofValue? category
    pattern := ← optional? "" Json.Value.toText? pattern
    description := ← optional? "" Json.Value.toText? description }

/-- The record that a JSON value spells. Keys must be texts, and no key of a record may come twice.
-/
def ofValue? : Json.Value → Option RuleRecord
  | .object members => do
    if !members.all fun m => m.1.isSome then failure
    ofFields? (← Json.Value.member? members "id") (← Json.Value.member? members "name")
      (← Json.Value.member? members "type") (← Json.Value.member? members "pegn")
      (← Json.Value.member? members "desc")
  | .array items =>
    if items.length ≤ 5 then ofFields? items[0]? items[1]? items[2]? items[3]? items[4]? else none
  | _ => none

/-- The record that a JSON text spells. -/
def ofJson? (text : String) : Option RuleRecord := do
  ofValue? (← Json.read? text)

end RuleRecord

end PegKit
