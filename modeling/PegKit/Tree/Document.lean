import PegKit.Json.Reader
import PegKit.Tree.Edit

/-! # Node documents

Trees that come as JSON text. A node is an object with the keys `T`, `V` and `N`, or an array of the
same three things in that order; `V` and `N` may be missing or null.

* `Document.read?` decodes a text as a whole, down to a fixed nesting of arrays and objects.
* `Tree.insertDocument` makes the nodes of a document, parents before children and left before
  right. A node with both a value and a list of nodes is refused when it is met.
* `Tree.insertJson` does both, and leaves nothing behind when the document is refused.
-/

namespace PegKit

/-- A node as a text gives it. -/
inductive Document where
  | mk (kind : Kind) (value : Option String) (nodes : Option (List Document))
deriving Repr

namespace Document

/-! ## Decoding -/

/-- The values for `T`, `V` and `N`, from an object that has no other key and none twice, or from an
array of one to three items. -/
def fields? : Json.Value → Option (Json.Value × Option Json.Value × Option Json.Value)
  | .object members => do
    if !members.all fun m => m.1 ∈ [some "T", some "V", some "N"] then failure
    let kind ← (← Json.Value.member? members "T")
    return (kind, ← Json.Value.member? members "V", ← Json.Value.member? members "N")
  | .array [kind] => some (kind, none, none)
  | .array [kind, value] => some (kind, some value, none)
  | .array [kind, value, nodes] => some (kind, some value, some nodes)
  | _ => none

/-- A text that may be missing or null. -/
def optionalText? : Option Json.Value → Option (Option String)
  | none => some none
  | some .null => some none
  | some v => some <$> v.toText?

/-- The items of an array that may be missing or null. -/
def optionalItems? : Option Json.Value → Option (Option (List Json.Value))
  | none => some none
  | some .null => some none
  | some (.array items) => some (some items)
  | some _ => none

/-- Decodes a node that opens at most `depth` arrays and objects inside each other: one for the node
itself and one for its list of nodes. -/
def ofValue? : (depth : Nat) → Json.Value → Option Document
  | 0, _ => none
  | 1, v => do
    let (kind, value, nodes) ← fields? v
    match ← optionalItems? nodes with
    | none => return ⟨← kind.toKind?, ← optionalText? value, none⟩
    | some _ => none
  | depth + 2, v => do
    let (kind, value, nodes) ← fields? v
    match ← optionalItems? nodes with
    | none => return ⟨← kind.toKind?, ← optionalText? value, none⟩
    | some items =>
      return ⟨← kind.toKind?, ← optionalText? value, some (← items.mapM (ofValue? depth))⟩

/-- Arrays and objects that a text may open inside each other. -/
def maxDepth : Nat := 127

/-- Decodes a text. -/
def read? (text : String) : Option Document := do
  ofValue? maxDepth (← Json.read? text)

/-! ## Insertion -/

mutual

/-- Number of nodes in a document. -/
def size : Document → Nat
  | ⟨_, _, none⟩ => 1
  | ⟨_, _, some nodes⟩ => 1 + sizes nodes

/-- Number of nodes in some documents. -/
def sizes : List Document → Nat
  | [] => 0
  | d :: ds => d.size + sizes ds

end

/-- The kind, the value and the nodes of a document, refused when it has both a value and a list of
nodes. -/
def parts : Document → Except TreeError (Kind × String × List Document)
  | ⟨_, some _, some _⟩ => .error .valueAndNodes
  | ⟨kind, value, nodes⟩ => .ok (kind, value.getD "", nodes.getD [])

end Document

namespace Tree

/-- Makes the nodes of the pending documents, each the last child of the node it waits for. The
nodes of a document go in front of what is pending. -/
def insertPending : (fuel : Nat) → (pending : List (Document × NodeId)) → Tree →
    Except TreeError Unit × Tree
  | 0, _, t => (.ok (), t)
  | _, [], t => (.ok (), t)
  | fuel + 1, (doc, parent) :: pending, t =>
    match doc.parts with
    | .error e => (.error e, t)
    | .ok (kind, value, nodes) =>
      let (id, t) := t.makeRoot kind value
      insertPending fuel (nodes.map (·, id) ++ pending) (t.linkUnder parent id)

/-- Makes the nodes of a document and returns its root, which is a root of the tree. On an error the
nodes made until then are still there. -/
def insertDocument (t : Tree) (doc : Document) : Except TreeError NodeId × Tree :=
  match doc.parts with
  | .error e => (.error e, t)
  | .ok (kind, value, nodes) =>
    let (root, t) := t.makeRoot kind value
    let (outcome, t) := insertPending doc.size (nodes.map (·, root)) t
    (outcome.map fun _ => root, t)

/-- Decodes a text and makes its nodes. On an error the tree is as it was. -/
def insertJson (t : Tree) (text : String) : Except TreeError NodeId × Tree :=
  match Document.read? text with
  | none => (.error .json, t)
  | some doc =>
    match t.insertDocument doc with
    | (.ok root, t') => (.ok root, t')
    | (.error e, t') => (.error e, t'.rollback t.checkpoint)

end Tree

end PegKit
