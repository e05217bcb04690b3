import PegKit.Cursor
import PegKit.Text.Utf8

/-! # Scanners

A scanner holds a whole input as bytes, a cursor on the last code point read, and a stack of
expectations that were not met. This module has the state and what needs no decoding: construction,
look-ahead by bytes, the error stack and the options.

* `Scanner.InBounds` is the invariant that every operation keeps: the cursor lies in the buffer.
* `Scanner.rest` is what lies ahead, the view of a scanner that recognition depends on.
-/

namespace PegKit

/-- The integer that names a rule in errors and nodes. Negative kinds belong to the builtin rules
and grammars number theirs from one. -/
abbrev Kind := Int32

/-- The kind of rules that produce no node of their own. -/
def untyped : Kind := 0

/-- A kind as decimal text. -/
def Kind.render (k : Kind) : String := toString k.toInt

/-- Settings of a scanner. -/
structure Options where
  /-- Number of errors on the stack at which composite rules stop trying, if any. -/
  maxErrors : Option Nat := none
  /-- Number of upcoming bytes shown in diagnostics. -/
  previewLen : Nat := 10
  /-- Whether every code point read is logged. -/
  trace : Bool := false
  /-- Texts that count as one line break. A longer one must come before its own beginnings. -/
  newlines : List String := ["\r\n", "\n"]
  /-- Whether a match may leave input unconsumed at the top level. -/
  allowPartial : Bool := false
deriving DecidableEq, Repr, Inhabited

/-- An expectation that was not met: the rule of kind `kind` did not match at `place`. -/
structure Expectation where
  kind : Kind
  place : Cursor
deriving DecidableEq, Repr, Inhabited

/-- The expectation with its kind as a number. -/
def Expectation.render (e : Expectation) : String :=
  "expecting " ++ e.kind.render ++ " at " ++ e.place.render

/-- A reader over a byte buffer. -/
structure Scanner where
  /-- The whole input. -/
  buf : Array UInt8 := #[]
  /-- Last code point read. A copy of it is a bookmark. -/
  cur : Cursor := .origin
  /-- Errors so far, oldest first. -/
  errors : Array Expectation := #[]
  options : Options := {}
  /-- Events so far, oldest first. -/
  log : Array Event := #[]
deriving Repr, Inhabited

namespace Scanner

/-! ## Construction -/

/-- An empty scanner with the given options. -/
def new (options : Options) : Scanner := { options }

/-- Replaces the buffer and goes back to its beginning. Errors stay. -/
def load (s : Scanner) (buf : Array UInt8) : Scanner :=
  { s with buf, cur := .origin }

/-- A scanner over `buf` with default options. -/
def ofBytes (buf : Array UInt8) : Scanner :=
  (new {}).load buf

/-- A scanner over the encoding of `text` with default options. -/
def ofText (text : String) : Scanner :=
  ofBytes (Utf8.bytes text).toArray

/-! ## Views -/

/-- The cursor lies in the buffer. -/
def InBounds (s : Scanner) : Prop :=
  s.cur.Fits s.buf.size

instance (s : Scanner) : Decidable s.InBounds :=
  inferInstanceAs (Decidable (s.cur.Fits s.buf.size))

/-- The bytes that lie ahead. -/
def rest (s : Scanner) : List UInt8 :=
  s.buf.toList.drop s.cur.stop

/-- Number of bytes that lie ahead. -/
def remaining (s : Scanner) : Nat :=
  s.buf.size - s.cur.stop

/-- Nothing is left to read. -/
def atEnd (s : Scanner) : Bool :=
  s.cur.stop = s.buf.size

/-- Nothing is read yet. -/
def atStart (s : Scanner) : Bool :=
  s.cur.stop = 0

/-! ## Look-ahead -/

/-- Whether the bytes `lit` stand in the buffer from `offset` on. -/
def matchesAt (buf : Array UInt8) : (offset : Nat) → (lit : List UInt8) → Bool
  | offset, [] => offset ≤ buf.size
  | offset, b :: lit => buf[offset]? == some b && matchesAt buf (offset + 1) lit

/-- Whether `lit` comes next. -/
def peek (s : Scanner) (lit : List UInt8) : Bool :=
  matchesAt s.buf s.cur.stop lit

/-- Whether `lit` stands at the last code point read, which is thus its first. -/
def isAt (s : Scanner) (lit : List UInt8) : Bool :=
  matchesAt s.buf s.cur.start lit

/-! ## The error stack -/

/-- Pushes an error. -/
def pushError (s : Scanner) (e : Expectation) : Scanner :=
  { s with errors := s.errors.push e }

/-- Takes the most recent error off the stack. -/
def popError (s : Scanner) : Option Expectation × Scanner :=
  (s.errors.back?, { s with errors := s.errors.pop })

/-- Drops every error above the first `n`. Composite rules forget the failures of abandoned
alternatives this way. -/
def keepErrors (s : Scanner) (n : Nat) : Scanner :=
  { s with errors := s.errors.take n }

/-- Pushes an error for `kind` at the current place. -/
def expect (s : Scanner) (kind : Kind) : Scanner :=
  s.pushError ⟨kind, s.cur⟩

/-- As many errors are on the stack as the options allow. -/
def atErrorLimit (s : Scanner) : Bool :=
  s.options.maxErrors.any (· ≤ s.errors.size)

/-- Every error, one to a line. -/
def errorText (s : Scanner) : String :=
  String.join (s.errors.toList.map fun e => e.render ++ "\n")

/-! ## Options and log -/

/-- Changes the error limit; `none` removes it. -/
def setMaxErrors (s : Scanner) (n : Option Nat) : Scanner :=
  { s with options := { s.options with maxErrors := n } }

/-- Changes the number of upcoming bytes that diagnostics show. -/
def setPreviewLen (s : Scanner) (n : Nat) : Scanner :=
  { s with options := { s.options with previewLen := n } }

/-- Turns the logging of code points on or off. -/
def setTrace (s : Scanner) (on : Bool) : Scanner :=
  { s with options := { s.options with trace := on } }

/-- Appends an event to the log. -/
def note (s : Scanner) (e : Event) : Scanner :=
  { s with log := s.log.push e }

end Scanner

end PegKit
