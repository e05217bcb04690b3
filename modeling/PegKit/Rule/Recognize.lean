import PegKit.CharClass
import PegKit.Rule.Strategy

/-! # Recognising input

* `Rule.recognize` answers whether a rule matches at the cursor. After a match the cursor is on the
  last code point consumed; after a failure it is where it was, and at least one error was pushed.
* The builtin rules are written out by hand; each does what its pattern says.
-/

namespace PegKit

namespace Scanner

/-- How a composite rule fails: the scanner goes back to `m` and, if the rule is typed or its parts
pushed nothing since there were `base` errors, gets an error for the rule. -/
def failComposite (s : Scanner) (m : Cursor) (kind : Kind) (base : Nat) : Scanner :=
  let s := s.moveTo m
  if kind ≠ untyped || s.errors.size ≤ base then s.expect kind else s

/-- Reads a code point that `accepts` accepts, or fails with an error for `kind`. -/
def readOne (kind : Kind) (accepts : Char → Bool) (s : Scanner) : Bool × Scanner :=
  let m := s.cur
  match s.advance with
  | (true, s) => if accepts s.cur.rune then (true, s) else (false, s.failAt m kind)
  | (false, s) => (false, s.failAt m kind)

/-! ## Literals -/

/-- Reads code points until the cursor has reached `offset`. -/
def readTo (offset : Nat) : (fuel : Nat) → Scanner → Bool × Scanner
  | 0, s => (true, s)
  | fuel + 1, s =>
    if s.cur.stop < offset then
      match s.advance with
      | (true, s) => readTo offset fuel s
      | (false, s) => (false, s)
    else (true, s)

/-- Reads `text`, or fails with an error for `kind`. Bytes that match are then read code point by
code point, so that the cursor ends up on the last one. -/
def readLiteral (kind : Kind) (text : String) (s : Scanner) : Bool × Scanner :=
  let lit := Utf8.bytes text
  let m := s.cur
  if s.peek lit then
    match readTo (m.stop + lit.length) lit.length s with
    | (true, s) => (true, s)
    | (false, s) => (false, s.failAt m kind)
  else (false, s.expect kind)

end Scanner

/-! ## Builtin rules -/

namespace Builtin

/-- A line feed. -/
def lineFeed : List UInt8 := [0x0A]

/-- A carriage return and a line feed. -/
def crLf : List UInt8 := [0x0D, 0x0A]

/-- Whether a space or a tab comes next. -/
def blankAhead (s : Scanner) : Bool :=
  s.peek [0x20] || s.peek [0x09]

/-- Reads a line ending. -/
def readEndLine (s : Scanner) : Bool × Scanner :=
  if s.peek lineFeed then s.advance
  else if s.peek crLf then
    match s.advance with
    | (true, s) => s.advance
    | (false, s) => (false, s)
  else (false, s.expect endLine.kind)

/-- Passes over spaces and tabs, one byte each. -/
def skipBlanks : (fuel : Nat) → Scanner → Scanner
  | 0, s => s
  | fuel + 1, s => if blankAhead s then skipBlanks fuel s.advance.2 else s

/-- Reads a line ending and then either finds nothing left or reads another. -/
def readBlankLine (s : Scanner) : Bool × Scanner :=
  match readEndLine s with
  | (true, s) => if s.atEnd then (true, s) else readEndLine s
  | (false, s) => (false, s)

/-- Reads the end of a paragraph. -/
def readEndPara (s : Scanner) : Bool × Scanner :=
  let m := s.cur
  let base := s.errors.size
  let s := skipBlanks s.remaining s
  let (found, s) := if s.atEnd then (true, s) else readBlankLine s
  let s := s.keepErrors base
  if found then (true, s) else (false, s.failAt m endPara.kind)

/-- Reads a printable code point. -/
def readPrintable (s : Scanner) : Bool × Scanner :=
  s.readOne printable.kind CharClass.uprint.accepts

/-- Reads printable code points up to a space; whether there was any, or had been before. -/
def readVisible : (fuel : Nat) → (found : Bool) → Scanner → Bool × Scanner
  | 0, found, s => (found, s)
  | fuel + 1, found, s =>
    if s.peek [0x20] then (found, s)
    else
      match readPrintable s with
      | (true, s) => readVisible fuel true s
      | (false, s) => (found, s)

/-- Reads a field. The attempt that ends it is one more than there are bytes at most. -/
def readField (s : Scanner) : Bool × Scanner :=
  let m := s.cur
  let base := s.errors.size
  let (found, s) := readVisible (s.remaining + 1) false s
  let s := s.keepErrors base
  if found then (true, s) else (false, s.failAt m field.kind)

/-- Recognises a builtin rule at the cursor. -/
def recognize : Builtin → Scanner → Bool × Scanner
  | endOfData, s => if s.atEnd then (true, s) else (false, s.expect endOfData.kind)
  | whiteSpace, s => s.readOne whiteSpace.kind CharClass.ws.accepts
  | endLine, s => readEndLine s
  | endPara, s => readEndPara s
  | field, s => readField s
  | printable, s => readPrintable s
  | digit, s => s.readOne digit.kind CharClass.digit.accepts
  | any, s => s.readOne any.kind CharClass.any.accepts

end Builtin

/-! ## All rules -/

namespace Rule

/-- Runs the parts of a composite rule, or fails as one. -/
def recognizeComposite (kind : Kind) (fill : ScanM Bool) (s : Scanner) : Bool × Scanner :=
  let m := s.cur
  let base := s.errors.size
  match fill s with
  | (true, s) => (true, s)
  | (false, s) => (false, s.failComposite m kind base)

/-- Matches nothing where the body fails, and forgets the errors of that failure. -/
def recognizeNotAhead (kind : Kind) (body : ScanM Bool) (s : Scanner) : Bool × Scanner :=
  let m := s.cur
  let base := s.errors.size
  match body s with
  | (true, s) => (false, s.failAt m kind)
  | (false, s) => (true, s.keepErrors base)

/-- Matches nothing where the body matches. -/
def recognizeAhead (kind : Kind) (body : ScanM Bool) (s : Scanner) : Bool × Scanner :=
  let m := s.cur
  let base := s.errors.size
  match body s with
  | (true, s) => (true, s.moveTo m)
  | (false, s) => (false, s.failComposite m kind base)

mutual

/-- Recognises a rule at the cursor. -/
def recognize : Rule → ScanM Bool
  | seq kind parts => recognizeComposite kind (inOrder (recognizeEach parts))
  | choice kind alternatives => recognizeComposite kind (firstOf kind (recognizeEach alternatives))
  | repetition kind body min max => recognizeComposite kind (repeated min max body.recognize)
  | notAhead kind body => recognizeNotAhead kind body.recognize
  | ahead kind body => recognizeAhead kind body.recognize
  | literal kind text => Scanner.readLiteral kind text
  | charClass kind _ accepts => Scanner.readOne kind accepts
  | builtin b => b.recognize
  | custom c => c.recognize

/-- The actions that recognise each of some rules. -/
def recognizeEach : List Rule → List (ScanM Bool)
  | [] => []
  | r :: rs => r.recognize :: recognizeEach rs

end

end Rule

end PegKit
