import PegKit.Tree.Edit

/-! # Walking and cloning trees

Both walks list a node and its descendants, each once.

* `Tree.byLevel` goes level by level with a queue, along the links `first` and `right`.
* `Tree.preorder` puts each node before its children with a stack, along the links `last` and
  `left`.
* `Tree.clone` adds a clone of a node and its descendants. Clones get new identifiers in the order
  of the walk by level, and a clone's links lead to clones only.
* `Tree.become` makes one node into a copy of another and leaves it where it is.
-/

namespace PegKit

/-- The node with each link replaced. -/
def Node.mapLinks (n : Node) (f : NodeId → Option NodeId) : Node :=
  { n with
    parent := n.parent.bind f
    left := n.left.bind f
    right := n.right.bind f
    first := n.first.bind f
    last := n.last.bind f }

namespace Tree

/-! ## Walks -/

/-- Visits the queue, first in first out, and queues the children of each node visited. -/
def visitQueue (t : Tree) : (fuel : Nat) → (queue : List NodeId) → List NodeId
  | 0, _ => []
  | _, [] => []
  | fuel + 1, id :: queue => id :: t.visitQueue fuel (queue ++ t.children id)

/-- The node and its descendants, level by level. A tree has no more nodes than its arena. -/
def byLevel (t : Tree) (id : NodeId) : List NodeId :=
  t.visitQueue t.size [id]

/-- Visits the stack, top first, and pushes the children of each node visited, the last one
first. -/
def visitStack (t : Tree) : (fuel : Nat) → (stack : List NodeId) → List NodeId
  | 0, _ => []
  | _, [] => []
  | fuel + 1, id :: stack =>
    id :: t.visitStack fuel ((t.childrenFromLast id).foldl (fun st c => c :: st) stack)

/-- The node and its descendants, each before its children. -/
def preorder (t : Tree) (id : NodeId) : List NodeId :=
  t.visitStack t.size [id]

/-! ## Clones -/

/-- Adds a clone of `id` and its descendants and returns the clone of `id`, a root. Links that leave
the subtree are dropped. -/
def clone (t : Tree) (id : NodeId) : Except TreeError (NodeId × Tree) := do
  let _ ← t.lookup id
  let order := t.byLevel id
  let rename (link : NodeId) : Option NodeId := (order.idxOf? link).map (t.size + ·)
  let clones := order.map fun o => (t.node o).mapLinks rename
  return (t.size, { t with nodes := t.nodes ++ clones })

/-- Makes `target` a copy of `source`: the same kind, the same value, and copies of its children.
`target` keeps its identifier and its place, and its former children become roots. The two may be in
any relation, because the copy is made before anything else; `target` may thus even be a node that
the copy brings into being. What is left of the copy is an empty root. -/
def become (t : Tree) (target source : NodeId) : Except TreeError Tree := do
  let (copy, t) ← t.clone source
  let _ ← t.lookup target
  let t := t.unlinkChildren target
  let x := t.node copy
  let t := t.modify copy fun n => { n with value := "" }
  let t := t.modify target fun n => { n with kind := x.kind, value := x.value }
  return t.relinkChildren target copy

end Tree

end PegKit
