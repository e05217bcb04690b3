import PegKit.Registry.Basic
import PegKit.Rule.Parse
import PegKit.Scanner.Locate

/-! # Running a rule over an input

The top level: one rule, one input, one outcome.

* `Run.recognize` succeeds with the last cursor and `Run.parse` with a tree and its root, when the
  rule matches from the start and, unless the options allow otherwise, nothing is left over.
* Otherwise the outcome is a `Failure`: the reason, every error on the stack, and the location of
  each.
-/

namespace PegKit

/-- Why a run failed. -/
inductive Failure.Reason where
  /-- The rule did not match. -/
  | rejected
  /-- The rule matched, and input was left over. -/
  | incomplete
  /-- The rule did not match, with as many errors as the options allow. -/
  | errorLimit (max : Nat)
deriving DecidableEq, Repr

/-- The wording of a reason. -/
def Failure.Reason.message : Failure.Reason → String
  | .rejected => "input rejected"
  | .incomplete => "unconsumed input remains"
  | .errorLimit max => "error limit of " ++ toString max ++ " reached"

/-- The outcome of a failed run. -/
structure Failure where
  reason : Failure.Reason
  /-- Errors in the order in which they were pushed. -/
  errors : List Expectation
  /-- The location of each error. -/
  locations : List Location
deriving DecidableEq, Repr

namespace Failure

/-- The failure in one line. -/
def message (f : Failure) : String :=
  f.reason.message ++ " (" ++ toString f.errors.length ++ " errors)"

/-- One line for each error. -/
def report (f : Failure) (names : Registry) : String :=
  String.join ((f.errors.zip f.locations).map fun (e, p) =>
    "error: expecting " ++ names.describe e.kind ++ " at " ++ p.render ++ "\n")

/-- The failure for a reason, with the errors of the scanner. -/
def of (s : Scanner) (reason : Reason) : Failure :=
  let errors := s.errors.toList
  { reason, errors, locations := s.locate (errors.map (·.place.stop)) }

end Failure

namespace Run

/-- An event of the top level. -/
def event (rule : Rule) (message : String) (fields : List (String × FieldValue)) : Event :=
  { level := .debug
    target := "pegn::driver"
    message
    fields := ("rule", .text rule.name) :: fields }

/-- A scanner at the beginning of the input. -/
def start (rule : Rule) (input : Array UInt8) (options : Options) : Scanner :=
  ((Scanner.new options).load input).note
    (event rule "start" [("kind", .number rule.kind.toInt), ("len", .number input.size)])

/-- Why a rule that did not match failed. -/
def mismatchReason (s : Scanner) : Failure.Reason :=
  match s.options.maxErrors with
  | some max => if s.atErrorLimit then .errorLimit max else .rejected
  | none => .rejected

/-- Ends a run that failed. -/
def fail (rule : Rule) (reason : Failure.Reason) (s : Scanner) : Except Failure Unit × Scanner :=
  let s := s.note
    (event rule "failed" [("reason", .text reason.message), ("errors", .number s.errors.size)])
  (.error (.of s reason), s)

/-- Decides the outcome of a run from whether the rule matched. Input that is left over is an error
of its own. -/
def conclude (rule : Rule) (matched : Bool) (s : Scanner) : Except Failure Unit × Scanner :=
  if !matched then fail rule (mismatchReason s) s
  else if !s.atEnd && !s.options.allowPartial then
    fail rule .incomplete (s.expect Builtin.endOfData.kind)
  else (.ok (), s.note (event rule "matched" [("end", .number s.cur.stop)]))

/-- Recognises a rule over an input. The outcome comes with the scanner as the run left it. -/
def recognize (rule : Rule) (input : Array UInt8) (options : Options) :
    Except Failure Cursor × Scanner :=
  let (matched, s) := rule.recognize (start rule input options)
  let (outcome, s) := conclude rule matched s
  (outcome.map fun _ => s.cur, s)

/-- Parses a rule over an input, into a new tree. -/
def parse (rule : Rule) (input : Array UInt8) (options : Options) :
    Except TreeError (Except Failure (Tree × NodeId) × Scanner) := do
  let ((root, s), tree) ← rule.parse (start rule input options) {}
  let (outcome, s) := conclude rule root.isSome s
  match outcome, root with
  | .ok _, some root => return (.ok (tree, root), s)
  | .ok _, none => return (.error (.of s .rejected), s)
  | .error e, _ => return (.error e, s)

end Run

end PegKit
