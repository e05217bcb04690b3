import PegKit.Scanner.Basic

/-! # JSON strings and values

* `Json.quote` writes a text as a JSON string. Quotes, backslashes and control codes below U+0020
  are always escaped, by a short form where JSON has one; a writer may ask for more code points to
  be written by number.
* `Json.Value` is a value as a text spells it: objects keep the order and the repetition of their
  keys, and numbers keep whether they were spelled as integers.
-/

namespace PegKit.Json

/-! ## Strings -/

/-- The escape that JSON has for a code point besides its number. -/
def shortEscape? : Char → Option Char
  | '"' => some '"'
  | '\\' => some '\\'
  | '\x08' => some 'b'
  | '\x0c' => some 'f'
  | '\n' => some 'n'
  | '\r' => some 'r'
  | '\t' => some 't'
  | _ => none

/-- One code point inside a JSON string. -/
def escapeChar (byNumber : Char → Bool) (c : Char) : String :=
  match shortEscape? c with
  | some e => String.ofList ['\\', e]
  | none =>
    if c < ' ' || byNumber c then "\\u" ++ Hex.padded 4 c.toNat else String.singleton c

/-- A text as a JSON string. -/
def quote (byNumber : Char → Bool) (text : String) : String :=
  "\"" ++ String.join (text.toList.map (escapeChar byNumber)) ++ "\""

/-- The line and paragraph separators, which some readers of JSON take for line breaks. -/
def isSeparator (c : Char) : Bool :=
  c.toNat = 0x2028 || c.toNat = 0x2029

/-- A text as a JSON string, with the line and paragraph separators by number. -/
def quoteCanonical (text : String) : String :=
  quote isSeparator text

/-- A text as a JSON string, with nothing escaped that need not be. -/
def quotePlain (text : String) : String :=
  quote (fun _ => false) text

/-! ## Values -/

/-- A number: sign, integer digits, and whether it had neither fraction nor exponent. -/
structure Number where
  negative : Bool
  digits : Nat
  isInteger : Bool
deriving DecidableEq, Repr

/-- A string, or `none` for one with an escape that names half a surrogate pair. Such a string is
well formed but holds no text. -/
abbrev Text := Option String

/-- A JSON value. -/
inductive Value where
  | null
  | bool (b : Bool)
  | number (n : Number)
  | string (s : Text)
  | array (items : List Value)
  | object (members : List (Text × Value))
deriving Repr

/-- The integer a number spells. A negative zero spells none, nor does a number with a fraction or
an exponent. -/
def Number.toInt? (n : Number) : Option Int :=
  if !n.isInteger then none
  else if n.negative then (if n.digits = 0 then none else some (-n.digits))
  else some n.digits

namespace Value

/-- The integer a value spells. -/
def toInt? : Value → Option Int
  | .number n => n.toInt?
  | _ => none

/-- The kind a value spells, an integer of 32 bits. -/
def toKind? (v : Value) : Option Kind := do
  let n ← v.toInt?
  if -2147483648 ≤ n ∧ n ≤ 2147483647 then some (Int32.ofInt n) else none

/-- The text a value spells. -/
def toText? : Value → Option String
  | .string s => s
  | _ => none

/-- The value of a key: `some none` when no member has it, `none` when several do. -/
def member? (members : List (Text × Value)) (key : String) : Option (Option Value) :=
  match members.filter fun m => m.1 = some key with
  | [] => some none
  | [m] => some (some m.2)
  | _ => none

end Value

end PegKit.Json
