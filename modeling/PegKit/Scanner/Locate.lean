import PegKit.Scanner.Basic

/-! # Locating byte offsets

Byte offsets become locations in one forward pass over the buffer, which cuts it into *segments*: a
line break, a code point, or a malformed run that counts as one code point.

* `Scanner.locate` locates many offsets at once. An offset inside a segment is located at the
  segment's end, and one past the buffer at the buffer's end.
* A line break belongs to the line it ends: the line number goes up only after offsets at its end
  are answered.
-/

namespace PegKit

/-- What one step of the pass goes over. -/
structure Segment where
  /-- Its last code point. -/
  rune : Char
  /-- Its length in bytes. -/
  size : Nat
  /-- Its length in code points. -/
  runes : Nat
  /-- Whether it ends a line. -/
  isBreak : Bool
deriving DecidableEq, Repr

/-- The segment at `offset`: the first configured line break that stands there, else a code point,
else a malformed run. Empty line breaks are passed over. -/
def Segment.startingAt (buf : Array UInt8) (newlines : List String) (offset : Nat) : Segment :=
  match newlines.find? fun nl => nl ≠ "" && Scanner.matchesAt buf offset (Utf8.bytes nl) with
  | some nl =>
    { rune := nl.toList.getLastD '\n', size := (Utf8.bytes nl).length, runes := nl.length,
      isBreak := true }
  | none =>
    let piece := Utf8.decode (buf.extract offset (offset + Utf8.window)).toList
    { rune := piece.rune, size := max 1 piece.size, runes := 1, isBreak := false }

/-! ## The pass -/

/-- Where the pass stands: the offset it has reached, the start of the current line, and the
location of an offset here. -/
structure Survey where
  offset : Nat := 0
  lineStart : Nat := 0
  here : Location := {}
deriving DecidableEq, Repr

namespace Survey

/-- Goes over a segment, still on the line it belongs to. -/
def pass (v : Survey) (g : Segment) : Survey :=
  let offset := v.offset + g.size
  { v with
    offset
    here :=
      { v.here with
        rune := g.rune
        bufByte := offset
        bufRune := v.here.bufRune + g.runes
        lineByte := offset - v.lineStart
        lineRune := v.here.lineRune + g.runes } }

/-- Starts the next line after a line break. -/
def afterBreak (v : Survey) (g : Segment) : Survey :=
  if g.isBreak then
    { v with
      lineStart := v.offset
      here := { v.here with line := v.here.line + 1, lineRune := 0, lineByte := 0 } }
  else v

end Survey

/-- An offset that waits to be located, and where its location belongs in the answer. -/
structure Query where
  offset : Nat
  slot : Nat
deriving DecidableEq, Repr

namespace Query

/-- Answers the leading queries that the pass has reached. -/
def answer (v : Survey) : (pending : List Query) → Array Location → List Query × Array Location
  | [], out => ([], out)
  | q :: pending, out =>
    if q.offset ≤ v.offset then answer v pending (out.setIfInBounds q.slot v.here)
    else (q :: pending, out)

/-- Answers every query with where the pass has ended. -/
def answerAll (v : Survey) (pending : List Query) (out : Array Location) : Array Location :=
  pending.foldl (fun out q => out.setIfInBounds q.slot v.here) out

/-- The pass. It ends when no query waits or the buffer is used up; `fuel` bounds the segments, of
which a buffer has no more than bytes. -/
def run (buf : Array UInt8) (newlines : List String) :
    (fuel : Nat) → Survey → List Query → Array Location → Array Location
  | 0, v, pending, out => answerAll v pending out
  | fuel + 1, v, pending, out =>
    let (pending, out) := answer v pending out
    if pending.isEmpty || buf.size ≤ v.offset then answerAll v pending out
    else
      let g := Segment.startingAt buf newlines v.offset
      let v := v.pass g
      -- offsets inside the segment land on its end
      let (pending, out) := answer v pending out
      run buf newlines fuel (v.afterBreak g) pending out

end Query

namespace Scanner

/-- The location of each byte offset, in the order of the offsets. -/
def locate (s : Scanner) (offsets : List Nat) : List Location :=
  let queries := (offsets.zipIdx.map fun (offset, slot) => Query.mk offset slot).mergeSort
    fun a b => a.offset ≤ b.offset
  let blank := Array.replicate offsets.length ({} : Location)
  (Query.run s.buf s.options.newlines s.buf.size {} queries blank).toList

/-- The location of the cursor. -/
def location (s : Scanner) : Location :=
  (s.locate [s.cur.stop]).headD {}

end Scanner

end PegKit
