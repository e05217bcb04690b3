/-! # UTF-8

Decoding of byte sequences into Unicode scalar values, strict as the standard asks: no overlong
forms, no surrogates, nothing above U+10FFFF.

* `decode` looks at the front of a byte sequence and finds either a scalar value with the number of
  bytes it takes, or a malformed run. The length of a malformed run is its *maximal subpart*: the
  longest run that begins some well-formed sequence, and at least one byte.
* `lossy` reads a whole byte sequence as text and puts U+FFFD for each malformed run.
* `decodeLast?` looks at the back of a byte sequence.
* `bytes` is the other direction, the encoding of a text.
-/

namespace PegKit.Utf8

/-! ## The front of a byte sequence -/

/-- What a byte sequence starts with. -/
inductive Piece where
  /-- A scalar value, encoded in `size` bytes. -/
  | scalar (c : Char) (size : Nat)
  /-- A run of `size` bytes that encodes nothing. -/
  | malformed (size : Nat)
deriving DecidableEq, Repr

/-- Bytes the piece covers. -/
def Piece.size : Piece → Nat
  | .scalar _ n => n
  | .malformed n => n

/-- The code point shown for the piece, U+FFFD for a malformed run. -/
def Piece.rune : Piece → Char
  | .scalar c _ => c
  | .malformed _ => '\uFFFD'

/-- What a first byte promises: how many continuation bytes are owed, the payload bits seen so far,
and the range of the next byte. -/
structure Lead where
  owed : Nat
  payload : Nat
  low : Nat
  high : Nat
deriving DecidableEq, Repr

/-- The promise of a first byte, or `none` when no well-formed sequence starts with it. Four first
bytes narrow the range of the byte after them, which is all it takes to keep out overlong forms (E0,
F0), surrogates (ED) and values above U+10FFFF (F4). -/
def lead? (b : UInt8) : Option Lead :=
  let n := b.toNat
  if n < 0x80 then some ⟨0, n, 0x80, 0xBF⟩
  else if n < 0xC2 then none
  else if n < 0xE0 then some ⟨1, n - 0xC0, 0x80, 0xBF⟩
  else if n < 0xF0 then
    some ⟨2, n - 0xE0, if n = 0xE0 then 0xA0 else 0x80, if n = 0xED then 0x9F else 0xBF⟩
  else if n < 0xF5 then
    some ⟨3, n - 0xF0, if n = 0xF0 then 0x90 else 0x80, if n = 0xF4 then 0x8F else 0xBF⟩
  else none

/-- Reads the `owed` continuation bytes that follow. `size` bytes have been read and carry
`payload`; the next byte must lie between `low` and `high`, those after it between 80 and BF. -/
def follow : (owed payload size low high : Nat) → List UInt8 → Piece
  | 0, payload, size, _, _, _ => .scalar (Char.ofNat payload) size
  | _ + 1, _, size, _, _, [] => .malformed size
  | owed + 1, payload, size, low, high, b :: rest =>
    if low ≤ b.toNat ∧ b.toNat ≤ high then
      follow owed (payload * 64 + (b.toNat - 0x80)) (size + 1) 0x80 0xBF rest
    else
      .malformed size

/-- The first piece of a byte sequence. Of the empty sequence it is the empty malformed run. -/
def decode : List UInt8 → Piece
  | [] => .malformed 0
  | b :: rest =>
    match lead? b with
    | none => .malformed 1
    | some l => follow l.owed l.payload 1 l.low l.high rest

/-- Most bytes `decode` looks at. -/
def window : Nat := 4

/-! ## Whole sequences -/

/-- Code points of a byte sequence of which the first `skip` bytes belong to a piece already
read. -/
def lossyFrom : (skip : Nat) → List UInt8 → List Char
  | _, [] => []
  | skip + 1, _ :: rest => lossyFrom skip rest
  | 0, b :: rest =>
    let piece := decode (b :: rest)
    piece.rune :: lossyFrom (piece.size - 1) rest

/-- The text of a byte sequence, with one U+FFFD for each malformed run. -/
def lossy (bs : List UInt8) : String :=
  String.ofList (lossyFrom 0 bs)

/-- The scalar value whose encoding ends the byte sequence, with its size. At most one of the
candidate sizes can decode, because a first byte is never a continuation byte. -/
def decodeLast? (bs : List UInt8) : Option (Char × Nat) :=
  [1, 2, 3, 4].findSome? fun k =>
    match decode (bs.drop (bs.length - k)) with
    | .scalar c n => if n = k then some (c, n) else none
    | .malformed _ => none

/-- The encoding of a text. -/
def bytes (text : String) : List UInt8 :=
  text.toList.flatMap String.utf8EncodeChar

/-- Whether a byte continues a sequence rather than starting one. -/
def isContinuation (b : UInt8) : Bool :=
  0x80 ≤ b.toNat && b.toNat < 0xC0

end PegKit.Utf8
