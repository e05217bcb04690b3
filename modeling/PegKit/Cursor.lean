import PegKit.Text.Quoted

/-! # Cursors, locations and log events

The plain values that a scanner hands out.

* A `Cursor` is a place in the buffer, a bookmark for whoever keeps it.
* A `Location` is a place for people, with its line.
* An `Event` says what a run does while it goes. Operations append events to a log and whoever holds
  the log decides what becomes of them. No operation reads the log.
-/

namespace PegKit

/-! ## Cursors -/

/-- The last code point scanned and its byte span, from `start` up to `stop`. The next code point
begins at `stop`. Cursors are plain values: a scanner hands one out as a bookmark and adopts one
back. -/
structure Cursor where
  /-- Last code point scanned, U+0000 before anything is scanned. -/
  rune : Char
  /-- Offset of the first byte of `rune`. -/
  start : Nat
  /-- Offset just past `rune`. -/
  stop : Nat
deriving DecidableEq, Repr

namespace Cursor

/-- The cursor before anything is scanned. -/
def origin : Cursor := ⟨'\x00', 0, 0⟩

instance : Inhabited Cursor := ⟨origin⟩

/-- Bytes in the span. -/
def width (c : Cursor) : Nat := c.stop - c.start

/-- The cursor as `'s' 5-6`. -/
def render (c : Cursor) : String :=
  Quoted.char c.rune ++ " " ++ toString c.start ++ "-" ++ toString c.stop

/-- The span lies within a buffer of `size` bytes. -/
def Fits (c : Cursor) (size : Nat) : Prop :=
  c.start ≤ c.stop ∧ c.stop ≤ size

instance (c : Cursor) (size : Nat) : Decidable (c.Fits size) :=
  inferInstanceAs (Decidable (_ ∧ _))

end Cursor

/-! ## Locations -/

/-- Where a byte offset lies, for people. A location describes the code point that *ends* at the
offset, and counts from one once something is consumed: the first code point of a buffer is at line
1, line rune 1, buffer rune 1. -/
structure Location where
  /-- Code point that ends at the offset, U+0000 at offset zero. -/
  rune : Char := '\x00'
  /-- Offset in the buffer. -/
  bufByte : Nat := 0
  /-- Code points from the start of the buffer. -/
  bufRune : Nat := 0
  /-- Line number, from 1. -/
  line : Nat := 1
  /-- Bytes from the start of the line. -/
  lineByte : Nat := 0
  /-- Code points from the start of the line. -/
  lineRune : Nat := 0
deriving DecidableEq, Repr, Inhabited

/-- The location as `U+1F47F '👿' 1,3-5 (3-5)`: line, line rune and line byte, then buffer rune and
buffer byte. -/
def Location.render (p : Location) : String :=
  "U+" ++ (Hex.padded 4 p.rune.toNat).toUpper ++ " " ++ Quoted.char p.rune ++ " " ++
    toString p.line ++ "," ++ toString p.lineRune ++ "-" ++ toString p.lineByte ++
    " (" ++ toString p.bufRune ++ "-" ++ toString p.bufByte ++ ")"

/-! ## Log events -/

/-- How much an event matters. -/
inductive Level where
  | trace
  | debug
deriving DecidableEq, Repr

/-- The value of a named field of an event. -/
inductive FieldValue where
  | text (s : String)
  | number (n : Int)
deriving DecidableEq, Repr

/-- A log event: its level, the part of the library it comes from, a message for people, and named
fields for programs. -/
structure Event where
  level : Level
  target : String
  message : String
  fields : List (String × FieldValue) := []
deriving DecidableEq, Repr

end PegKit
