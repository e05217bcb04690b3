import PegKit.Scanner.Excerpt

/-! # Moving the cursor

* `Scanner.advance` reads one code point. Where there is none, at the end or at malformed bytes, it
  answers `false` and changes nothing.
* `Scanner.moveTo` goes to a bookmark, and keeps the cursor in the buffer whatever bookmark it is
  given.
* `Scanner.failAt` is how a failing rule leaves: it goes back and pushes an error.
-/

namespace PegKit.Scanner

/-- The bytes ahead that can matter to reading one code point. -/
def window (s : Scanner) : List UInt8 :=
  (s.buf.extract s.cur.stop (s.cur.stop + Utf8.window)).toList

/-- Reads the code point that comes next and moves onto it. -/
def advance (s : Scanner) : Bool × Scanner :=
  match Utf8.decode s.window with
  | .malformed _ => (false, s)
  | .scalar rune n =>
    let moved := { s with cur := ⟨rune, s.cur.stop, s.cur.stop + n⟩ }
    (true, if moved.options.trace then moved.noteState .trace else moved)

/-- Reads up to `n` code points; how many there were. -/
def advanceMany (s : Scanner) : (n : Nat) → Nat × Scanner
  | 0 => (0, s)
  | n + 1 =>
    match s.advance with
    | (true, s) =>
      let (k, s) := s.advanceMany n
      (k + 1, s)
    | (false, s) => (0, s)

/-- The cursor on the last code point of the buffer, or the origin when the buffer does not end with
a code point. -/
def finalCursor (s : Scanner) : Cursor :=
  let tail := (s.buf.extract (s.buf.size - Utf8.window) s.buf.size).toList
  match Utf8.decodeLast? tail with
  | some (rune, n) => ⟨rune, s.buf.size - n, s.buf.size⟩
  | none => .origin

/-- Goes to a bookmark. A bookmark that does not fit the buffer, such as one from before the buffer
was replaced, leads to the last code point instead. -/
def moveTo (s : Scanner) (m : Cursor) : Scanner :=
  if m.Fits s.buf.size then { s with cur := m }
  else
    let clamped := { s with cur := s.finalCursor }
    clamped.note
      { level := .debug
        target := "pegn::scanner"
        message := "stale mark clamped to " ++ clamped.cur.render
        fields := [("mark", .text m.render)] }

/-- Goes to a bookmark and pushes an error for `kind` there. -/
def failAt (s : Scanner) (m : Cursor) (kind : Kind) : Scanner :=
  (s.moveTo m).expect kind

end PegKit.Scanner
