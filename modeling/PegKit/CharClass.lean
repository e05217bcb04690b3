import PegKit.Text.GeneralCategory

/-! # Character classes

Sets of code points that a class rule can be made of. Most test the general category of Unicode 16;
`ucontrol` and `uspace` follow the properties `Cc` and `White_Space`.
-/

namespace PegKit

/-- A named set of code points. -/
inductive CharClass where
  /-- Space, tab, line feed, carriage return. -/
  | ws
  /-- ASCII digits. -/
  | digit
  /-- Letters, marks, numbers, punctuation, symbols and the ASCII space. -/
  | uprint
  /-- Letters, marks, numbers, punctuation, symbols and every space separator. -/
  | ugraphic
  | uletter
  | umark
  | unumber
  /-- Decimal digits of any script. -/
  | udigit
  | upunct
  | usymbol
  | ucontrol
  | uspace
  | ulower
  | uupper
  | utitle
  /-- Every code point. -/
  | any
deriving DecidableEq, Repr

namespace CharClass

/-! ## Membership -/

/-- Whether `c` is a letter, mark, number, punctuation or symbol. -/
def isVisible (c : Char) : Bool :=
  (GeneralCategory.of c).major ∈
    [MajorClass.letter, .mark, .number, .punctuation, .symbol]

/-- The property `White_Space`. -/
def isWhiteSpace (c : Char) : Bool :=
  let n := c.toNat
  (0x9 ≤ n && n ≤ 0xD) || (0x2000 ≤ n && n ≤ 0x200A) ||
    [0x20, 0x85, 0xA0, 0x1680, 0x2028, 0x2029, 0x202F, 0x205F, 0x3000].contains n

/-- Whether `c` is a control code, U+0000 to U+001F or U+007F to U+009F. -/
def isControl (c : Char) : Bool :=
  c.toNat ≤ 0x1F || (0x7F ≤ c.toNat && c.toNat ≤ 0x9F)

/-- Membership in the class. -/
def accepts : CharClass → Char → Bool
  | ws, c => c = ' ' || c = '\t' || c = '\n' || c = '\r'
  | digit, c => '0' ≤ c && c ≤ '9'
  | uprint, c => c = ' ' || isVisible c
  | ugraphic, c => isVisible c || GeneralCategory.of c = .Zs
  | uletter, c => (GeneralCategory.of c).major = .letter
  | umark, c => (GeneralCategory.of c).major = .mark
  | unumber, c => (GeneralCategory.of c).major = .number
  | udigit, c => GeneralCategory.of c = .Nd
  | upunct, c => (GeneralCategory.of c).major = .punctuation
  | usymbol, c => (GeneralCategory.of c).major = .symbol
  | ucontrol, c => isControl c
  | uspace, c => isWhiteSpace c
  | ulower, c => GeneralCategory.of c = .Ll
  | uupper, c => GeneralCategory.of c = .Lu
  | utitle, c => GeneralCategory.of c = .Lt
  | any, _ => true

/-! ## Tables of classes

For tests and reports, which name a class and list what it holds. A rule holds the class itself and
uses none of this.
-/

/-- Every class, in the order in which answers list them. -/
def all : List CharClass :=
  [ws, digit, uprint, ugraphic, uletter, umark, unumber, udigit, upunct, usymbol, ucontrol, uspace,
    ulower, uupper, utitle, any]

/-- The name a grammar uses for the class. -/
def name : CharClass → String
  | ws => "ws"
  | digit => "digit"
  | uprint => "uprint"
  | ugraphic => "ugraphic"
  | uletter => "uletter"
  | umark => "umark"
  | unumber => "unumber"
  | udigit => "udigit"
  | upunct => "upunct"
  | usymbol => "usymbol"
  | ucontrol => "ucontrol"
  | uspace => "uspace"
  | ulower => "ulower"
  | uupper => "uupper"
  | utitle => "utitle"
  | any => "any"

/-- The class with a given name. -/
def ofName? (s : String) : Option CharClass :=
  all.find? fun k => k.name == s

/-- The maximal runs of accepted code points between `first` and `last`, both included, in
ascending order. Numbers that are no scalar value are not accepted. -/
def runs (k : CharClass) (first last : Nat) : List (Nat × Nat) :=
  let found := (List.range' first (last + 1 - first)).foldl (fun (acc : List (Nat × Nat)) n =>
    if n.isValidChar && k.accepts (Char.ofNat n) then
      match acc with
      | (a, b) :: rest => if b + 1 = n then (a, n) :: rest else (n, n) :: acc
      | [] => [(n, n)]
    else acc) []
  found.reverse

end CharClass

end PegKit
