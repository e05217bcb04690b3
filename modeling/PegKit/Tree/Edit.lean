import PegKit.Tree.Basic

/-! # Editing trees

The operations come in two layers. `linkUnder`, `unlink` and `relinkChildren` rewrite links and
trust their caller; the others check first and refuse an edit that would break the tree, before
anything is changed. A node identifier that the tree does not have is refused with `unknownNode` at
the point where its node is needed, so an error found earlier wins.

* `attach` gives a root a parent, `detach` takes a node from its parent, `adopt` moves all children
  of a node.
* `rollback` forgets the nodes made since a checkpoint and leaves no link to them behind.
-/

namespace PegKit

/-- What a parent becomes when its child `id` with neighbours `left` and `right` leaves. -/
def Node.withoutChild (n : Node) (id : NodeId) (left right : Option NodeId) : Node :=
  { n with
    count := n.count - 1
    first := if n.first = some id then right else n.first
    last := if n.last = some id then left else n.last }

namespace Tree

/-! ## Links -/

/-- Makes the root `child` the last child of `parent`. -/
def linkUnder (t : Tree) (parent child : NodeId) : Tree :=
  let last := (t.node parent).last
  let t := t.modify child fun n => { n with parent := some parent, left := last, right := none }
  let t := match last with
    | some l => t.modify l fun n => { n with right := some child }
    | none => t.modify parent fun n => { n with first := some child }
  t.modify parent fun n => { n with last := some child, count := n.count + 1 }

/-- Makes `id` a root. Its neighbours close the gap, and it keeps its own children. -/
def unlink (t : Tree) (id : NodeId) : Tree :=
  let x := t.node id
  let t := t.modifyLink x.left fun n => { n with right := x.right }
  let t := t.modifyLink x.right fun n => { n with left := x.left }
  let t := t.modifyLink x.parent fun n => n.withoutChild id x.left x.right
  t.modify id fun n => { n with parent := none, left := none, right := none }

/-- Makes every child of `id` a root. -/
def unlinkChildren (t : Tree) (id : NodeId) : Tree :=
  (t.children id).foldl unlink t

/-- Moves the children of `donor` behind those of `receiver`. The two chains of siblings are joined
at one place; only the parent links are rewritten one by one. -/
def relinkChildren (t : Tree) (receiver donor : NodeId) : Tree :=
  match (t.node donor).first with
  | none => t
  | some first =>
    let t := (t.children donor).foldl
      (fun t c => t.modify c fun n => { n with parent := some receiver }) t
    let moved := (t.node donor).count
    let last := (t.node donor).last
    let t := t.modify donor fun n => { n with first := none, last := none, count := 0 }
    let t := match (t.node receiver).last with
      | some tail =>
        (t.modify tail fun n => { n with right := some first }).modify first fun n =>
          { n with left := some tail }
      | none => t.modify receiver fun n => { n with first := some first }
    t.modify receiver fun n => { n with last := last, count := n.count + moved }

/-! ## Checked edits -/

/-- Refuses a node that carries a value. -/
def requireBranch (t : Tree) (id : NodeId) : Except TreeError Unit := do
  if (← t.lookup id).value ≠ "" then throw (.childUnderLeaf id) else return ()

/-- Changes the kind of a node. -/
def setKind (t : Tree) (id : NodeId) (kind : Kind) : Except TreeError Tree := do
  let _ ← t.lookup id
  return t.modify id fun n => { n with kind }

/-- Changes the value of a node. A node with children takes only the empty value. -/
def setValue (t : Tree) (id : NodeId) (value : String) : Except TreeError Tree := do
  if (← t.lookup id).count > 0 ∧ value ≠ "" then throw (.valueOnBranch id)
  else return t.modify id fun n => { n with value }

/-- Makes a node untyped and empty. Its children become roots; its own place stays. -/
def reset (t : Tree) (id : NodeId) : Except TreeError Tree := do
  let _ ← t.lookup id
  return (t.unlinkChildren id).modify id fun n => { n with kind := untyped, value := "" }

/-- Makes a node and attaches it as the last child of `parent`. -/
def addChild (t : Tree) (parent : NodeId) (kind : Kind) (value : String) :
    Except TreeError (NodeId × Tree) := do
  t.requireBranch parent
  let (child, t) := t.makeRoot kind value
  return (child, t.linkUnder parent child)

/-- Attaches a root as the last child of `parent`. -/
def attach (t : Tree) (parent child : NodeId) : Except TreeError Tree := do
  t.requireBranch parent
  if (← t.lookup child).parent.isSome then throw (.alreadyAttached child)
  else if child ∈ parent :: t.ancestors parent then throw (.cycle parent child)
  else return t.linkUnder parent child

/-- Detaches a node from its parent and siblings. -/
def detach (t : Tree) (id : NodeId) : Except TreeError Tree := do
  let _ ← t.lookup id
  return t.unlink id

/-- The node on the way up from `id`, itself included, that is a child of `donor`. -/
def childAbove? (t : Tree) (donor id : NodeId) : Option NodeId :=
  (id :: t.ancestors id).find? fun up => (t.node up).parent = some donor

/-- Moves every child of `donor` under `receiver`, behind the children already there. The receiver
must not lie inside one of the children that move. Nothing is to be done, and nothing is checked,
when the two are one node or `donor` has no children. -/
def adopt (t : Tree) (receiver donor : NodeId) : Except TreeError Tree := do
  if receiver = donor then return t
  else if (← t.lookup donor).count = 0 then return t
  else
    t.requireBranch receiver
    match t.childAbove? donor receiver with
    | some up => throw (.cycle receiver up)
    | none => return t.relinkChildren receiver donor

/-! ## Checkpoints -/

/-- Marks the nodes made so far. -/
def checkpoint (t : Tree) : Nat := t.size

/-- Cuts every link between the node `id`, which is to be forgotten, and the nodes below `c`. -/
def release (c : Nat) (t : Tree) (id : NodeId) : Tree :=
  let t := ((t.children id).filter (· < c)).foldl unlink t
  if (t.node id).parent.any (· < c) then t.unlink id else t

/-- Forgets every node made since the checkpoint `c`. Older nodes that were attached to forgotten
ones become roots; other edits of older nodes stay. -/
def rollback (t : Tree) (c : Nat) : Tree :=
  let t := (List.range' c (t.size - c)).reverse.foldl (release c) t
  { t with nodes := t.nodes.take c }

end Tree

end PegKit
