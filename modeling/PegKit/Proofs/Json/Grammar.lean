import PegKit.Json.Reader

/-! # The JSON grammar

Which texts spell which value, production by production and apart from any reader of them. A text
may spell a value in many ways: blanks, escapes and the spellings of numbers are free.

* `Json.SpellsNumber`, `Json.SpellsText`: numbers, and what stands between the quotes of a string.
* `Json.Spells`: values, without blanks around them.
* `Json.IsText`: whole texts, with blanks around the value.
* `Json.Value.depth`: how many arrays and objects a value opens inside each other.
-/

namespace PegKit.Json

/-! ## Numbers -/

/-- One or more decimal digits. -/
def Digits (cs : List Char) : Prop :=
  cs ≠ [] ∧ ∀ c ∈ cs, c.isDigit

/-- Digits of an integer, which has no leading zero. -/
def IntegerDigits (cs : List Char) : Prop :=
  Digits cs ∧ (cs.head? = some '0' → cs = ['0'])

/-- The fraction of a number, if it has one. -/
inductive Fraction : List Char → Prop where
  | none : Fraction []
  | some {ds : List Char} (digits : Digits ds) : Fraction ('.' :: ds)

/-- The exponent of a number, if it has one. -/
inductive Exponent : List Char → Prop where
  | none : Exponent []
  | some {e : Char} {sign ds : List Char} (letter : e = 'e' ∨ e = 'E')
      (signs : sign = [] ∨ sign = ['+'] ∨ sign = ['-']) (digits : Digits ds) :
      Exponent (e :: sign ++ ds)

/-- The minus sign of a number. -/
def minus (negative : Bool) : List Char :=
  if negative then ['-'] else []

/-- How a number is spelled. -/
inductive SpellsNumber : List Char → Number → Prop where
  | intro {negative : Bool} {ds fs es : List Char} (integer : IntegerDigits ds)
      (fraction : Fraction fs) (exponent : Exponent es) :
      SpellsNumber (minus negative ++ (ds ++ (fs ++ es)))
        { negative, digits := Nat.ofDigitChars 10 ds 0, isInteger := fs.isEmpty && es.isEmpty }

/-! ## Strings -/

/-- The letters that stand for a code point after a backslash. -/
def shortEscapes : List (Char × Char) :=
  [('"', '"'), ('\\', '\\'), ('/', '/'), ('b', '\x08'), ('f', '\x0c'), ('n', '\n'), ('r', '\r'),
    ('t', '\t')]

/-- The letter of an escape by number stands for none. -/
theorem ne_u_of_mem_shortEscapes {e c : Char} (h : (e, c) ∈ shortEscapes) : e ≠ 'u' := by
  have hall : ∀ p ∈ shortEscapes, p.1 ≠ 'u' := by decide
  exact hall (e, c) h

/-- A hexadecimal digit, of either case, and its value. -/
def HexDigit (c : Char) (n : Nat) : Prop :=
  n < 16 ∧ (c = n.digitChar ∨ c = n.digitChar.toUpper)

/-- One piece of a string. -/
inductive SpellsAtom : List Char → Atom → Prop where
  | plain {c : Char} (printable : ' ' ≤ c) (quote : c ≠ '"') (backslash : c ≠ '\\') :
      SpellsAtom [c] (.char c)
  | short {e c : Char} (escape : (e, c) ∈ shortEscapes) : SpellsAtom ['\\', e] (.char c)
  | unit {c₃ c₂ c₁ c₀ : Char} {n₃ n₂ n₁ n₀ : Nat} (digit₃ : HexDigit c₃ n₃)
      (digit₂ : HexDigit c₂ n₂) (digit₁ : HexDigit c₁ n₁) (digit₀ : HexDigit c₀ n₀) :
      SpellsAtom ['\\', 'u', c₃, c₂, c₁, c₀]
        (.unit (((n₃ * 16 + n₂) * 16 + n₁) * 16 + n₀))

/-- What stands between the quotes of a string. -/
inductive SpellsAtoms : List Char → List Atom → Prop where
  | nil : SpellsAtoms [] []
  | cons {cs ds : List Char} {a : Atom} {as : List Atom} (head : SpellsAtom cs a)
      (tail : SpellsAtoms ds as) : SpellsAtoms (cs ++ ds) (a :: as)

/-- The code points that the pieces of a string make. A code point that is given by number is one
unit of UTF-16, or two from U+10000 on. -/
inductive Joins : List Atom → List Char → Prop where
  | nil : Joins [] []
  | char {as : List Atom} {cs : List Char} (c : Char) (tail : Joins as cs) :
      Joins (.char c :: as) (c :: cs)
  | unit {as : List Atom} {cs : List Char} (c : Char) (tail : Joins as cs) :
      Joins (.unit c.toNat :: as) (c :: cs)
  | pair {as : List Atom} {cs : List Char} (c : Char) (high : 0x10000 ≤ c.toNat)
      (tail : Joins as cs) :
      Joins (.unit (0xD800 + (c.toNat - 0x10000) / 0x400) ::
        .unit (0xDC00 + (c.toNat - 0x10000) % 0x400) :: as) (c :: cs)

/-- How a text is spelled between quotes. Pieces that make no text spell the string without one. -/
inductive SpellsText : List Char → Text → Prop where
  | text {cs : List Char} {as : List Atom} {s : String} (atoms : SpellsAtoms cs as)
      (joins : Joins as s.toList) : SpellsText cs (some s)
  | noText {cs : List Char} {as : List Atom} (atoms : SpellsAtoms cs as)
      (apart : ∀ s, ¬ Joins as s) : SpellsText cs none

/-! ## Values -/

/-- Space, tab, line feed and carriage return, in any number. -/
def Blanks (cs : List Char) : Prop :=
  ∀ c ∈ cs, c = ' ' ∨ c = '\t' ∨ c = '\n' ∨ c = '\r'

mutual

/-- How a value is spelled. -/
inductive Spells : List Char → Value → Prop where
  | null : Spells ['n', 'u', 'l', 'l'] .null
  | boolTrue : Spells ['t', 'r', 'u', 'e'] (.bool true)
  | boolFalse : Spells ['f', 'a', 'l', 's', 'e'] (.bool false)
  | number {cs : List Char} {n : Number} (number : SpellsNumber cs n) : Spells cs (.number n)
  | string {cs : List Char} {s : Text} (text : SpellsText cs s) :
      Spells ('"' :: cs ++ ['"']) (.string s)
  | emptyArray {bs : List Char} (blanks : Blanks bs) : Spells ('[' :: bs ++ [']']) (.array [])
  | array {cs : List Char} {vs : List Value} (items : SpellsItems cs vs) :
      Spells ('[' :: cs ++ [']']) (.array vs)
  | emptyObject {bs : List Char} (blanks : Blanks bs) :
      Spells ('\x7b' :: bs ++ ['\x7d']) (.object [])
  | object {cs : List Char} {ms : List (Text × Value)} (members : SpellsMembers cs ms) :
      Spells ('\x7b' :: cs ++ ['\x7d']) (.object ms)

/-- How a value with blanks around it is spelled. -/
inductive SpellsPadded : List Char → Value → Prop where
  | intro {bs cs bs' : List Char} {v : Value} (before : Blanks bs) (value : Spells cs v)
      (behind : Blanks bs') : SpellsPadded (bs ++ (cs ++ bs')) v

/-- How the items of an array that is not empty are spelled. -/
inductive SpellsItems : List Char → List Value → Prop where
  | last {cs : List Char} {v : Value} (value : SpellsPadded cs v) : SpellsItems cs [v]
  | more {cs ds : List Char} {v : Value} {vs : List Value} (value : SpellsPadded cs v)
      (items : SpellsItems ds vs) : SpellsItems (cs ++ ',' :: ds) (v :: vs)

/-- How a key with its value is spelled. -/
inductive SpellsMember : List Char → Text × Value → Prop where
  | intro {bs ks bs' cs : List Char} {k : Text} {v : Value} (before : Blanks bs)
      (key : SpellsText ks k) (behind : Blanks bs') (value : SpellsPadded cs v) :
      SpellsMember (bs ++ '"' :: (ks ++ '"' :: (bs' ++ ':' :: cs))) (k, v)

/-- How the members of an object that is not empty are spelled. -/
inductive SpellsMembers : List Char → List (Text × Value) → Prop where
  | last {cs : List Char} {m : Text × Value} (member : SpellsMember cs m) : SpellsMembers cs [m]
  | more {cs ds : List Char} {m : Text × Value} {ms : List (Text × Value)}
      (member : SpellsMember cs m) (members : SpellsMembers ds ms) :
      SpellsMembers (cs ++ ',' :: ds) (m :: ms)

end

theorem Spells.padded {cs : List Char} {v : Value} (h : Spells cs v) : SpellsPadded cs v := by
  have hnone : Blanks [] := nofun
  have hp := SpellsPadded.intro hnone h hnone
  rwa [List.append_nil] at hp

/-- The text is the value, with blanks around it. -/
def IsText (text : String) (v : Value) : Prop :=
  SpellsPadded text.toList v

/-! ## Nesting -/

namespace Value

mutual

/-- How many arrays and objects a value opens inside each other. -/
def depth : Value → Nat
  | array items => depthOfItems items + 1
  | object members => depthOfMembers members + 1
  | _ => 0

/-- The depth of the deepest item. -/
def depthOfItems : List Value → Nat
  | [] => 0
  | v :: vs => max v.depth (depthOfItems vs)

/-- The depth of the deepest value of a member. -/
def depthOfMembers : List (Text × Value) → Nat
  | [] => 0
  | (_, v) :: ms => max v.depth (depthOfMembers ms)

end

theorem depthOfItems_le_iff {items : List Value} {n : Nat} :
    depthOfItems items ≤ n ↔ ∀ v ∈ items, v.depth ≤ n := by
  induction items with
  | nil => exact iff_of_true (Nat.zero_le n) nofun
  | cons v items ih => rw [depthOfItems, Nat.max_le, ih, List.forall_mem_cons]

theorem depthOfMembers_le_iff {members : List (Text × Value)} {n : Nat} :
    depthOfMembers members ≤ n ↔ ∀ m ∈ members, m.2.depth ≤ n := by
  induction members with
  | nil => exact iff_of_true (Nat.zero_le n) nofun
  | cons m members ih => rw [depthOfMembers, Nat.max_le, ih, List.forall_mem_cons]

end Value

end PegKit.Json
