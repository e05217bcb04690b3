import PegKit.Scanner.Move
import PegKit.Tree.Edit

/-! # Rules

Parsing-expression rules as data. A rule recognises input with `Rule.recognize` and builds nodes
with `Rule.parse` and `Rule.parseUnder`; this module has the rules themselves and what they say of
themselves.

* Rules are built from literals, classes and the builtin rules with sequence, ordered choice,
  repetition and lookahead.
* A custom rule carries functions of its own and may do with the scanner and the tree as it likes;
  `Rule.IsPlain` says that a rule contains none.
-/

namespace PegKit

/-- Recognition: a change of a scanner, with an answer. -/
abbrev ScanM := StateM Scanner

/-- Parsing: a change of a scanner and a tree, with an answer. It stops with an error only when
asked for a node that the tree does not have. -/
abbrev ParseM := StateT Scanner (StateT Tree (Except TreeError))

/-- The rules that every grammar can lean on. -/
inductive Builtin where
  /-- Nothing is left. -/
  | endOfData
  /-- A space, tab, line feed or carriage return. -/
  | whiteSpace
  /-- A line feed, alone or after a carriage return. -/
  | endLine
  /-- Blanks, then the end of data, a last line ending or a blank line. -/
  | endPara
  /-- Printable code points other than space, at least one. -/
  | field
  /-- A printable code point. -/
  | printable
  /-- An ASCII digit. -/
  | digit
  /-- Any code point. -/
  | any
deriving DecidableEq, Repr

/-- A rule given by functions. -/
structure CustomRule where
  kind : Kind
  name : String
  /-- The rule in PEG form, empty if unknown. -/
  pattern : String := ""
  recognize : ScanM Bool
  /-- How the rule parses; without it, the text consumed becomes a leaf. -/
  parse : Option (ParseM (Option NodeId)) := none

/-- A grammar rule. -/
inductive Rule where
  /-- Every part in order, or nothing. -/
  | seq (kind : Kind) (parts : List Rule)
  /-- The first alternative that matches. -/
  | choice (kind : Kind) (alternatives : List Rule)
  /-- As many matches of the body as there are, at least `min` and at most `max`. -/
  | repetition (kind : Kind) (body : Rule) (min : Nat) (max : Option Nat)
  /-- Nothing, where the body fails. -/
  | notAhead (kind : Kind) (body : Rule)
  /-- Nothing, where the body matches. -/
  | ahead (kind : Kind) (body : Rule)
  /-- An exact text. -/
  | literal (kind : Kind) (text : String)
  /-- A code point that `accepts` accepts. -/
  | charClass (kind : Kind) (name : String) (accepts : Char → Bool)
  | builtin (b : Builtin)
  | custom (c : CustomRule)

/-! ## Builtin rules -/

namespace Builtin

/-- Every builtin rule, by descending kind. -/
def all : List Builtin :=
  [endOfData, whiteSpace, endLine, endPara, field, printable, digit, any]

/-- The reserved kind of a builtin rule. -/
def kind : Builtin → Kind
  | endOfData => -1
  | whiteSpace => -2
  | endLine => -3
  | endPara => -4
  | field => -5
  | printable => -6
  | digit => -7
  | any => -8

/-- The name of a builtin rule in reports. -/
def name : Builtin → String
  | endOfData => "EndOfData"
  | whiteSpace => "ws"
  | endLine => "EndLine"
  | endPara => "EndPara"
  | field => "Field"
  | printable => "uprint"
  | digit => "digit"
  | any => "any"

/-- A builtin rule in PEG form. -/
def pattern : Builtin → String
  | endOfData => "!."
  | whiteSpace => "SP / TAB / LF / CR"
  | endLine => "LF / CRLF"
  | endPara => "(SP / TAB)* (!. / EndLine (!. / EndLine))"
  | field => "(!SP uprint)+"
  | printable => "uletter / umark / unumber / upunct / usymbol / SP"
  | digit => "[0-9]"
  | any => "."

/-- A builtin rule in words. -/
def description : Builtin → String
  | endOfData => "end of data"
  | whiteSpace => "space, tab, line feed ('\\n') or carriage return ('\\r')"
  | endLine => "line feed, or carriage return and line feed"
  | endPara => "end of data or a blank line, after optional trailing blanks"
  | field => "one or more printable code points except space"
  | printable => "printable code point"
  | digit => ""
  | any => ""

end Builtin

/-! ## What a rule says of itself -/

namespace Rule

/-- The kind that a rule's nodes and errors have. -/
def kind : Rule → Kind
  | seq k _ | choice k _ | repetition k _ _ _ | notAhead k _ | ahead k _ | literal k _
  | charClass k _ _ => k
  | builtin b => b.kind
  | custom c => c.kind

/-- The name of a rule in reports. -/
def name : Rule → String
  | seq _ _ => "Seq"
  | choice _ _ => "Choice"
  | repetition _ _ _ _ => "Repeat"
  | notAhead _ _ => "Not"
  | ahead _ _ => "And"
  | literal _ text => text
  | charClass _ name _ => name
  | builtin b => b.name
  | custom c => c.name

/-- A rule in PEG form, empty if unknown. -/
def pattern : Rule → String
  | builtin b => b.pattern
  | custom c => c.pattern
  | _ => ""

/-- A rule in words, empty if there are none. -/
def description : Rule → String
  | builtin b => b.description
  | _ => ""

/-- The body, or nothing. -/
def optional (kind : Kind) (body : Rule) : Rule := repetition kind body 0 (some 1)

/-- The body any number of times. -/
def zeroOrMore (kind : Kind) (body : Rule) : Rule := repetition kind body 0 none

/-- The body at least once. -/
def oneOrMore (kind : Kind) (body : Rule) : Rule := repetition kind body 1 none

mutual

/-- A rule that contains no custom rule. -/
def IsPlain : Rule → Prop
  | seq _ parts => ArePlain parts
  | choice _ alternatives => ArePlain alternatives
  | repetition _ body _ _ => body.IsPlain
  | notAhead _ body => body.IsPlain
  | ahead _ body => body.IsPlain
  | literal _ _ => True
  | charClass _ _ _ => True
  | builtin _ => True
  | custom _ => False

/-- Rules that contain no custom rule. -/
def ArePlain : List Rule → Prop
  | [] => True
  | r :: rs => r.IsPlain ∧ ArePlain rs

end

end Rule

end PegKit
