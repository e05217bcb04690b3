import PegKit.Scanner.Basic

/-! # Trees of nodes

Rooted, ordered trees that hold parse results. The nodes of a tree live in an array and name each
other by index. A node is a *leaf*, with a value and no children, or a *branch*, with children and
no value; an array may hold any number of roots.

* `Tree.children` and `Tree.ancestors` are the views that edits are explained by.
* `Tree.makeRoot` adds a root; the identifiers of older nodes stay valid.
-/

namespace PegKit

/-- The index of a node in its tree. -/
abbrev NodeId := Nat

/-- A node identifier as `#3`. -/
def NodeId.render (id : NodeId) : String := "#" ++ toString id

/-- A node with its links. The chain from `first` along `right` lists the children; `parent`, `left`
and `last` go the other ways, and `count` is the number of children. -/
structure Node where
  kind : Kind := untyped
  /-- Text of a leaf, empty for a branch. -/
  value : String := ""
  parent : Option NodeId := none
  left : Option NodeId := none
  right : Option NodeId := none
  first : Option NodeId := none
  last : Option NodeId := none
  count : Nat := 0
deriving DecidableEq, Repr, Inhabited

/-- Why an operation on a tree is refused. -/
inductive TreeError where
  /-- A node with a value was given a child. -/
  | childUnderLeaf (id : NodeId)
  /-- A node with children was given a value. -/
  | valueOnBranch (id : NodeId)
  /-- The node to attach has a parent. -/
  | alreadyAttached (id : NodeId)
  /-- Attaching `child` under `parent` would close a loop. -/
  | cycle (parent child : NodeId)
  /-- A node document had both a value and a list of nodes. -/
  | valueAndNodes
  /-- A text was no node document. -/
  | json
  /-- The tree has no such node: it was never issued, or is rolled back. -/
  | unknownNode (id : NodeId)
deriving DecidableEq, Repr

/-- The wording of an error. -/
def TreeError.message : TreeError → String
  | .childUnderLeaf id => "node " ++ id.render ++ " carries a value and cannot take children"
  | .valueOnBranch id => "node " ++ id.render ++ " has children and cannot carry a value"
  | .alreadyAttached id => "node " ++ id.render ++ " is already attached to a parent"
  | .cycle parent child =>
    "node " ++ child.render ++ " cannot be placed under " ++ parent.render ++
      ", its own descendant"
  | .valueAndNodes => "node object carries both \"V\" and \"N\""
  | .json => "invalid node JSON"
  | .unknownNode id => "node " ++ id.render ++ " is not in the tree"

/-- An arena of nodes. -/
structure Tree where
  nodes : Array Node := #[]
deriving DecidableEq, Repr, Inhabited

namespace Tree

/-! ## Looking up -/

/-- Number of nodes, attached or not. -/
def size (t : Tree) : Nat := t.nodes.size

/-- No node has been made. -/
def isEmpty (t : Tree) : Bool := t.nodes.isEmpty

/-- The node `id`, or a blank one where the tree has none. -/
def node (t : Tree) (id : NodeId) : Node := t.nodes.getD id {}

/-- The node `id`, or a refusal where the tree has none. -/
def lookup (t : Tree) (id : NodeId) : Except TreeError Node :=
  match t.nodes[id]? with
  | some n => .ok n
  | none => .error (.unknownNode id)

/-! ## Following links -/

/-- The nodes met from `start` on, one link after the other, at most `fuel` of them. -/
def follow (t : Tree) (link : Node → Option NodeId) : (fuel : Nat) → (start : Option NodeId) →
    List NodeId
  | 0, _ => []
  | _, none => []
  | fuel + 1, some id => id :: t.follow link fuel (link (t.node id))

/-- The children of a node, first to last. No chain of siblings is longer than the arena. -/
def children (t : Tree) (id : NodeId) : List NodeId :=
  t.follow Node.right t.size (t.node id).first

/-- The children of a node, last to first. -/
def childrenFromLast (t : Tree) (id : NodeId) : List NodeId :=
  t.follow Node.left t.size (t.node id).last

/-- The parent of a node, its parent, and so on up to the root. -/
def ancestors (t : Tree) (id : NodeId) : List NodeId :=
  t.follow Node.parent t.size (t.node id).parent

/-- The nodes without a parent, in ascending order. -/
def roots (t : Tree) : List NodeId :=
  (List.range t.size).filter fun id => (t.node id).parent.isNone

/-! ## Changing the arena -/

/-- Changes one node in place. -/
def modify (t : Tree) (id : NodeId) (f : Node → Node) : Tree :=
  { t with nodes := t.nodes.modify id f }

/-- Changes the node that a link leads to, if it leads to one. -/
def modifyLink (t : Tree) (link : Option NodeId) (f : Node → Node) : Tree :=
  match link with
  | some id => t.modify id f
  | none => t

/-- Adds a root without children. -/
def makeRoot (t : Tree) (kind : Kind) (value : String) : NodeId × Tree :=
  (t.size, { t with nodes := t.nodes.push { kind, value } })

/-! ## Text -/

/-- The links of a node, for people. -/
def linksText (t : Tree) (id : NodeId) : Except TreeError String := do
  let n ← t.lookup id
  let link (l : Option NodeId) : String := (l.map NodeId.render).getD "-"
  let column (l : Option NodeId) : String := (link l).pushn ' ' (12 - (link l).length)
  return "self:  " ++ column (some id) ++ " parent: " ++ link n.parent ++
    "\nleft:  " ++ column n.left ++ " right:  " ++ link n.right ++
    "\nfirst: " ++ column n.first ++ " last:   " ++ link n.last

/-- The fields of a node that are not links, for people. -/
def summaryText (t : Tree) (id : NodeId) : Except TreeError String := do
  let n ← t.lookup id
  return "NodeRef \x7b id: NodeId(" ++ toString id ++ "), kind: " ++ n.kind.render ++
    ", value: " ++ Quoted.text n.value ++ ", count: " ++ toString n.count ++ " \x7d"

end Tree

end PegKit
