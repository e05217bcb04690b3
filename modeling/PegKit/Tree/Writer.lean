import PegKit.Json.Value
import PegKit.Tree.Basic

/-! # Writing trees as JSON

A node is written as an object with its kind under `T`, its value under `V` unless that is empty,
and its children under `N` unless there are none.

* `Tree.toJson` is the canonical text. It works with a stack of steps along the links `last` and
  `left`, so the depth of the tree does not matter.
* `Tree.toPlainJson` follows the structure of the tree along `first` and `right`, and escapes
  nothing that need not be.
-/

namespace PegKit.Tree

/-! ## Canonical text -/

/-- What the writer still has to do. -/
inductive Step where
  /-- Write a node. -/
  | enter (id : NodeId)
  /-- Close the list of children of a node, and the node. -/
  | leave
deriving DecidableEq, Repr

/-- The text of a node up to its children, with the comma that divides it from its left
neighbour. -/
def openText (comma : Bool) (n : Node) : String :=
  (if comma then "," else "") ++ "\x7b\"T\":" ++ n.kind.render ++
    (if n.value = "" then "" else ",\"V\":" ++ Json.quoteCanonical n.value)

/-- Carries out the steps, top first. The node `top` has no comma before it, whatever its siblings
are. -/
def writeSteps (t : Tree) (top : NodeId) : (fuel : Nat) → List Step → (out : String) → String
  | 0, _, out => out
  | _, [], out => out
  | fuel + 1, .leave :: steps, out => t.writeSteps top fuel steps (out ++ "]\x7d")
  | fuel + 1, .enter id :: steps, out =>
    let n := t.node id
    let out := out ++ openText (id ≠ top && n.left.isSome) n
    if n.last.isNone then t.writeSteps top fuel steps (out ++ "\x7d")
    else
      let steps := (t.childrenFromLast id).foldl (fun st c => .enter c :: st) (.leave :: steps)
      t.writeSteps top fuel steps (out ++ ",\"N\":[")

/-- The canonical JSON text of a node and its descendants. Each node is entered once and left at
most once. -/
def toJson (t : Tree) (id : NodeId) : Except TreeError String := do
  let _ ← t.lookup id
  return t.writeSteps id (2 * t.size) [.enter id] ""

/-! ## Plain text -/

/-- The plain JSON text of a node and its descendants down to `depth` levels. -/
def plainText (t : Tree) : (depth : Nat) → NodeId → String
  | 0, _ => ""
  | depth + 1, id =>
    let n := t.node id
    "\x7b\"T\":" ++ n.kind.render ++
      (if n.value = "" then "" else ",\"V\":" ++ Json.quotePlain n.value) ++
      (if n.count = 0 then ""
        else ",\"N\":[" ++ ",".intercalate ((t.children id).map (t.plainText depth)) ++ "]") ++
      "\x7d"

/-- The plain JSON text of a node and its descendants. No tree has more levels than nodes. -/
def toPlainJson (t : Tree) (id : NodeId) : Except TreeError String := do
  let _ ← t.lookup id
  return t.plainText t.size id

/-- The event that logs a node. -/
def nodeEvent (t : Tree) (id : NodeId) : Except TreeError Event := do
  return { level := .debug, target := "pegn::node", message := ← t.toJson id,
           fields := [("node", .text id.render)] }

end PegKit.Tree
