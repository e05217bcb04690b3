import PegKit.Scanner.Basic

/-! # Excerpts

Text taken out of a scanner's buffer.

* `Scanner.textBetween` is the text between the cursor and a bookmark, whichever comes first, with
  or without the code points under them. `Scanner.consumedSince` is the case of a bookmark from
  before a rule ran: exactly what the rule consumed.
* `Scanner.render` is the diagnostic text: the cursor and a quoted preview of what comes next.
-/

namespace PegKit

/-- An edge of a cursor's span. -/
inductive Edge where
  /-- Before the code point. -/
  | start
  /-- After the code point. -/
  | stop
deriving DecidableEq, Repr

/-- The offset of an edge. -/
def Edge.of : Edge → Cursor → Nat
  | .start, c => c.start
  | .stop, c => c.stop

namespace Scanner

/-- The text of the bytes from `lo` up to `hi`. -/
def slice (s : Scanner) (lo hi : Nat) : String :=
  Utf8.lossy (s.buf.extract lo hi).toList

/-! ## Between two cursors -/

/-- The text between edge `a` of the earlier and edge `b` of the later of the bookmark and the
cursor. When both start at one place the bookmark counts as the earlier. -/
def textBetween (s : Scanner) (m : Cursor) (a b : Edge) : String :=
  let (first, last) := if m.start ≤ s.cur.start then (m, s.cur) else (s.cur, m)
  let lo := min (a.of first) s.buf.size
  let hi := min (b.of last) s.buf.size
  if lo ≥ hi then "" else s.slice lo hi

/-- What was consumed since the bookmark: the code point under the earlier cursor is left out, the
one under the later taken. -/
def consumedSince (s : Scanner) (m : Cursor) : String :=
  s.textBetween m .stop .stop

/-! ## Preview -/

/-- Goes back from `stop` to the nearest offset, not before `start`, at which no sequence is cut in
two. -/
def cutBack (buf : Array UInt8) (start : Nat) : (stop : Nat) → Nat
  | 0 => 0
  | stop + 1 =>
    if start < stop + 1 && (buf[stop + 1]?).any Utf8.isContinuation then cutBack buf start stop
    else stop + 1

/-- The span of upcoming bytes that diagnostics show, and whether the buffer goes on after it. -/
def previewSpan (s : Scanner) : (Nat × Nat) × Bool :=
  let start := min s.cur.stop s.buf.size
  let stop := min (start + s.options.previewLen) s.buf.size
  let truncated := decide (stop < s.buf.size)
  ((start, if truncated then cutBack s.buf start stop else stop), truncated)

/-- The diagnostic text, as `'s' 5-6 " don't hav..."`. -/
def render (s : Scanner) : String :=
  let ((start, stop), truncated) := s.previewSpan
  let shown := s.slice start stop ++ (if truncated then "..." else "")
  s.cur.render ++ " " ++ Quoted.text shown

/-- Logs the diagnostic text. -/
def noteState (s : Scanner) (level : Level) : Scanner :=
  s.note { level, target := "pegn::scanner", message := s.render }

end Scanner

end PegKit
