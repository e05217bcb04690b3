import PegKit.Registry.Record
import PegKit.Scanner.Basic
import Std.Data.TreeMap

/-! # Registries

A registry gives names to kinds, so that reports can say `expecting Field` and not `expecting -5`.
Recognition never consults it.

* A kind has one record, and no two records share a name, whatever its case.
* `Registry.insert` refuses a record that would break this and then changes nothing; the kinds from
  zero down are kept for the builtin rules.
-/

namespace PegKit

/-- Why a record is refused. -/
inductive NamingError where
  /-- The kind is kept for the builtin rules. -/
  | reserved (kind : Kind)
  /-- The kind has another name. -/
  | taken (kind : Kind) (existing : String)
  /-- The name, whatever its case, belongs to another kind. -/
  | nameTaken (name : String) (existing : Kind)
deriving DecidableEq, Repr

/-- The wording of an error. -/
def NamingError.message : NamingError → String
  | .reserved kind => "rule type " ++ kind.render ++ " is reserved"
  | .taken kind existing => "rule type " ++ kind.render ++ " is already registered as " ++ existing
  | .nameTaken name existing =>
    "rule name " ++ name ++ " is already registered as type " ++ existing.render

/-- Records by kind, and the kind of each name in lower case. -/
structure Registry where
  rules : Std.TreeMap Kind RuleRecord := {}
  names : Std.TreeMap String Kind := {}

namespace Registry

instance : Inhabited Registry := ⟨{}⟩

/-- Enters a record without a check. -/
def enter (g : Registry) (r : RuleRecord) : Registry where
  rules := g.rules.insert r.kind r
  names := g.names.insert (lowercase r.name) r.kind

/-- The registry of the builtin rules. -/
def builtin : Registry :=
  Builtin.all.foldl (fun g b => g.enter (.of (.builtin b))) {}

/-- Enters a record. To enter a kind again under its exact name changes nothing. -/
def insert (g : Registry) (r : RuleRecord) : Except NamingError Registry :=
  if r.kind ≤ untyped then .error (.reserved r.kind)
  else
    match g.rules[r.kind]? with
    | some existing =>
      if existing.name = r.name then .ok g else .error (.taken r.kind existing.name)
    | none =>
      match g.names[lowercase r.name]? with
      | some existing => .error (.nameTaken r.name existing)
      | none => .ok (g.enter r)

/-- Enters the record of a rule. -/
def insertRule (g : Registry) (r : Rule) : Except NamingError Registry :=
  g.insert (.of r)

/-- The record of a kind. -/
def get? (g : Registry) (kind : Kind) : Option RuleRecord := g.rules[kind]?

/-- The name of a kind. -/
def name? (g : Registry) (kind : Kind) : Option String :=
  (g.get? kind).map RuleRecord.name

/-- Every record, by ascending kind. -/
def records (g : Registry) : List RuleRecord := g.rules.values

/-- Number of records. -/
def size (g : Registry) : Nat := g.rules.size

/-- No kind has a name. -/
def isEmpty (g : Registry) : Bool := g.rules.isEmpty

/-- Whether two registries hold the same records and the same names. -/
def agrees (g h : Registry) : Bool :=
  g.rules.toList == h.rules.toList && g.names.toList == h.names.toList

/-- The name of a kind, or its number when it has none. -/
def describe (g : Registry) (kind : Kind) : String :=
  (g.name? kind).getD kind.render

end Registry

/-- The expectation with the name of its kind. -/
def Expectation.renderNamed (e : Expectation) (names : Registry) : String :=
  "expecting " ++ names.describe e.kind ++ " at " ++ e.place.render

end PegKit
