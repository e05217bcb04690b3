import PegKit.Json.Value
import PegKit.Text.Quoted

/-! # Reading JSON

The JSON grammar, nothing more: blanks are space, tab, line feed and carriage return; no comments,
no trailing commas, no leading zeros, no raw control codes in strings.

* `Json.read?` accepts a text that is one value with blanks around it.
-/

namespace PegKit.Json

/-- Blanks between tokens. -/
def isBlank (c : Char) : Bool :=
  c = ' ' || c = '\t' || c = '\n' || c = '\r'

/-- Passes over blanks. -/
def skipBlanks (cs : List Char) : List Char :=
  cs.dropWhile isBlank

/-! ## Strings -/

/-- What one piece of a string spells: a code point, or a UTF-16 unit given by number. -/
inductive Atom where
  | char (c : Char)
  | unit (n : Nat)
deriving DecidableEq, Repr

/-- The code point of a short escape. -/
def unescape? : Char → Option Char
  | '"' => some '"'
  | '\\' => some '\\'
  | '/' => some '/'
  | 'b' => some '\x08'
  | 'f' => some '\x0c'
  | 'n' => some '\n'
  | 'r' => some '\r'
  | 't' => some '\t'
  | _ => none

/-- The number four hexadecimal digits spell. -/
def hex4? (a b c d : Char) : Option Nat := do
  return (((← Hex.digit? a) * 16 + (← Hex.digit? b)) * 16 + (← Hex.digit? c)) * 16 +
    (← Hex.digit? d)

/-- Reads a string up to and including its closing quote. -/
def readAtoms? : List Char → Option (List Atom × List Char)
  | [] => none
  | '"' :: rest => some ([], rest)
  | '\\' :: 'u' :: a :: b :: c :: d :: rest => do
    let n ← hex4? a b c d
    let (atoms, rest) ← readAtoms? rest
    return (.unit n :: atoms, rest)
  | '\\' :: e :: rest => do
    let c ← unescape? e
    let (atoms, rest) ← readAtoms? rest
    return (.char c :: atoms, rest)
  | c :: rest =>
    if c < ' ' || c = '\\' then none
    else do
      let (atoms, rest) ← readAtoms? rest
      return (.char c :: atoms, rest)

/-- The first unit of a surrogate pair. -/
def isHighSurrogate (n : Nat) : Bool := 0xD800 ≤ n && n < 0xDC00

/-- The second unit of a surrogate pair. -/
def isLowSurrogate (n : Nat) : Bool := 0xDC00 ≤ n && n < 0xE000

/-- The text of a string, `none` when a surrogate stands alone. -/
def joinAtoms? : List Atom → Option (List Char)
  | [] => some []
  | .char c :: rest => (c :: ·) <$> joinAtoms? rest
  | .unit n :: .unit m :: rest =>
    if isHighSurrogate n then
      if isLowSurrogate m then
        (Char.ofNat (0x10000 + (n - 0xD800) * 0x400 + (m - 0xDC00)) :: ·) <$> joinAtoms? rest
      else none
    else if isLowSurrogate n then none
    else (Char.ofNat n :: ·) <$> joinAtoms? (.unit m :: rest)
  | .unit n :: rest =>
    if isHighSurrogate n || isLowSurrogate n then none
    else (Char.ofNat n :: ·) <$> joinAtoms? rest

/-- Reads a string whose opening quote is passed. -/
def readString? (cs : List Char) : Option (Text × List Char) := do
  let (atoms, rest) ← readAtoms? cs
  return ((joinAtoms? atoms).map String.ofList, rest)

/-! ## Numbers -/

/-- Whether `c` is a decimal digit. -/
def isDigit (c : Char) : Bool := '0' ≤ c && c ≤ '9'

/-- Passes over one or more digits. -/
def skipDigits? (cs : List Char) : Option (List Char) :=
  match cs with
  | c :: rest => if isDigit c then some (rest.dropWhile isDigit) else none
  | [] => none

/-- The number that decimal digits spell. -/
def ofDigits (ds : List Char) : Nat :=
  ds.foldl (fun n d => n * 10 + (d.toNat - '0'.toNat)) 0

/-- Reads the integer digits of a number: a lone zero, or digits that do not start with one. -/
def readInteger? : List Char → Option (Nat × List Char)
  | '0' :: rest => some (0, rest)
  | c :: rest =>
    if isDigit c then
      some (ofDigits (c :: rest.takeWhile isDigit), rest.dropWhile isDigit)
    else none
  | [] => none

/-- Passes over a fraction; `false` when there is none. -/
def skipFraction? : List Char → Option (Bool × List Char)
  | '.' :: rest => (true, ·) <$> skipDigits? rest
  | cs => some (false, cs)

/-- Passes over an exponent; `false` when there is none. -/
def skipExponent? (cs : List Char) : Option (Bool × List Char) :=
  match cs with
  | e :: rest =>
    if e = 'e' || e = 'E' then
      match rest with
      | '+' :: rest => (true, ·) <$> skipDigits? rest
      | '-' :: rest => (true, ·) <$> skipDigits? rest
      | rest => (true, ·) <$> skipDigits? rest
    else some (false, cs)
  | [] => some (false, cs)

/-- Reads a number without its sign. -/
def readUnsigned? (negative : Bool) (cs : List Char) : Option (Number × List Char) := do
  let (digits, rest) ← readInteger? cs
  let (hasFraction, rest) ← skipFraction? rest
  let (hasExponent, rest) ← skipExponent? rest
  return ({ negative, digits, isInteger := !(hasFraction || hasExponent) }, rest)

/-- Reads a number. -/
def readNumber? : List Char → Option (Number × List Char)
  | '-' :: rest => readUnsigned? true rest
  | cs => readUnsigned? false cs

/-! ## Values -/

mutual

/-- Reads a value with the blanks before it. -/
def readValue? : (fuel : Nat) → List Char → Option (Value × List Char)
  | 0, _ => none
  | fuel + 1, cs =>
    match skipBlanks cs with
    | 'n' :: 'u' :: 'l' :: 'l' :: rest => some (.null, rest)
    | 't' :: 'r' :: 'u' :: 'e' :: rest => some (.bool true, rest)
    | 'f' :: 'a' :: 'l' :: 's' :: 'e' :: rest => some (.bool false, rest)
    | '"' :: rest => do
      let (text, rest) ← readString? rest
      return (.string text, rest)
    | '[' :: rest =>
      match skipBlanks rest with
      | ']' :: rest => some (.array [], rest)
      | rest => do
        let (items, rest) ← readItems? fuel rest
        return (.array items, rest)
    | '\x7b' :: rest =>
      match skipBlanks rest with
      | '\x7d' :: rest => some (.object [], rest)
      | rest => do
        let (members, rest) ← readMembers? fuel rest
        return (.object members, rest)
    | rest => do
      let (n, rest) ← readNumber? rest
      return (.number n, rest)

/-- Reads the items of an array that is not empty, up to and including the closing bracket. -/
def readItems? : (fuel : Nat) → List Char → Option (List Value × List Char)
  | 0, _ => none
  | fuel + 1, cs => do
    let (v, rest) ← readValue? fuel cs
    match skipBlanks rest with
    | ']' :: rest => return ([v], rest)
    | ',' :: rest =>
      let (items, rest) ← readItems? fuel rest
      return (v :: items, rest)
    | _ => none

/-- Reads the members of an object that is not empty, up to and including the closing brace. -/
def readMembers? : (fuel : Nat) → List Char → Option (List (Text × Value) × List Char)
  | 0, _ => none
  | fuel + 1, cs =>
    match skipBlanks cs with
    | '"' :: rest => do
      let (key, rest) ← readString? rest
      match skipBlanks rest with
      | ':' :: rest =>
        let (v, rest) ← readValue? fuel rest
        match skipBlanks rest with
        | '\x7d' :: rest => return ([(key, v)], rest)
        | ',' :: rest =>
          let (members, rest) ← readMembers? fuel rest
          return ((key, v) :: members, rest)
        | _ => none
      | _ => none
    | _ => none

end

/-- The value of a text. Every two levels of the reader pass over a character, so twice the length
is fuel enough. -/
def read? (text : String) : Option Value := do
  let cs := text.toList
  let (v, rest) ← readValue? (2 * cs.length + 2) cs
  if skipBlanks rest = [] then some v else none

end PegKit.Json
