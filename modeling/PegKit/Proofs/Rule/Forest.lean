import PegKit.Proofs.Rule.Breakage
import PegKit.Proofs.Tree.Shape
import PegKit.Rule.Recognize

/-! # The forest of a match

What a rule yields where it matches, said without any tree.

* A typed rule yields one node. It holds what the parts yield, or the text consumed if they yield
  nothing.
* An untyped composite yields what its parts yield, one after the other; an untyped token and a
  lookahead yield nothing.
-/

namespace PegKit

/-- One node for a forest, or for a text where the forest is empty. -/
def Shape.gather (kind : Kind) (text : String) (nodes : List Shape) : Shape :=
  .node kind (if nodes.isEmpty then text else "") nodes

namespace Rule

/-- The text that a rule consumes, the bytes from the cursor before it up to the cursor after it.
With a cursor outside the buffer, where no session puts it, there need not be such bytes and it is
whatever the scanner copies. -/
def consumed (r : Rule) (s : Scanner) : String :=
  let t := (r.recognize s).2
  if s.InBounds then Utf8.lossy (s.buf.extract s.cur.stop t.cur.stop).toList
  else t.consumedSince s.cur

/-- A forest as a rule of the given kind yields it: as one node, or as it is. -/
def enclose (kind : Kind) (text : String) (nodes : List Shape) : List Shape :=
  if kind = untyped then nodes else [.gather kind text nodes]

/-- What at most so many attempts at a body yield, up to one that fails or consumes nothing. -/
def forestRepeated (recognize : ScanM Bool) (forest : Scanner → List Shape) :
    (attempts : Nat) → Scanner → List Shape
  | 0, _ => []
  | attempts + 1, s =>
    match recognize s with
    | (true, s') =>
      if s'.cur.stop = s.cur.stop then forest s
      else forest s ++ forestRepeated recognize forest attempts s'
    | (false, _) => []

mutual

/-- What a rule without custom rules yields where it matches. -/
def forest : Rule → Scanner → List Shape
  | seq kind parts, s => enclose kind ((seq kind parts).consumed s) (forestInOrder parts s)
  | choice kind alternatives, s =>
    enclose kind ((choice kind alternatives).consumed s) (forestFirst alternatives s)
  | repetition kind body min max, s =>
    enclose kind ((repetition kind body min max).consumed s)
      (forestRepeated body.recognize body.forest (max.getD (attemptBound s)) s)
  | notAhead _ _, _ => []
  | ahead _ _, _ => []
  | literal kind text, s => enclose kind ((literal kind text).consumed s) []
  | charClass kind name accepts, s => enclose kind ((charClass kind name accepts).consumed s) []
  | builtin b, s => enclose b.kind ((builtin b).consumed s) []
  | custom _, _ => []

/-- What parts yield that match one after the other. -/
def forestInOrder : List Rule → Scanner → List Shape
  | [], _ => []
  | r :: rs, s => r.forest s ++ forestInOrder rs (r.recognize s).2

/-- What the first alternative yields that matches. -/
def forestFirst : List Rule → Scanner → List Shape
  | [], _ => []
  | r :: rs, s =>
    match r.recognize s with
    | (true, _) => r.forest s
    | (false, s') => forestFirst rs s'

end

/-- What the parts of a composite rule yield. -/
def forestOfParts : Rule → Scanner → List Shape
  | seq _ parts, s => forestInOrder parts s
  | choice _ alternatives, s => forestFirst alternatives s
  | repetition _ body _ max, s =>
    forestRepeated body.recognize body.forest (max.getD (attemptBound s)) s
  | _, _ => []

/-- The one node that a composite rule makes, typed or not. -/
def shape (r : Rule) (s : Scanner) : Shape :=
  .gather r.kind (r.consumed s) (r.forestOfParts s)

theorem enclose_of_typed {kind : Kind} (h : kind ≠ untyped) (text : String) (nodes : List Shape) :
    enclose kind text nodes = [.gather kind text nodes] :=
  if_neg h

theorem enclose_of_untyped (text : String) (nodes : List Shape) :
    enclose untyped text nodes = nodes :=
  if_pos rfl

/-- A composite rule yields what its parts yield, as one node if it is typed. -/
theorem forest_of_composite {r : Rule} (h : r.isComposite = true) :
    r.forest = fun s => enclose r.kind (r.consumed s) (r.forestOfParts s) := by
  cases r with
  | seq | choice | repetition =>
    funext s
    rw [forest]
    rfl
  | notAhead | ahead | literal | charClass | builtin | custom => cases h

end Rule

end PegKit
