import Mathlib.Data.List.Flatten
import PegKit.Proofs.Tree.Levels
import PegKit.Proofs.Tree.Subtree
import PegKit.Proofs.Tree.Walking

/-! # Walks through a subtree

What the two walks visit, in which order, and that they end without a bound.

* `Unbounded.preorder` and `Unbounded.byLevel` are the walks as loops, which look for children by
  walks without a bound themselves.
* `Tree.LevelBefore`: higher levels come first, and within a level what another list has first.
* `Sound.level_sublist`: a level has its nodes in the order of the walk in preorder.
* `WellFormed.walks_enumerate`: both walks list a subtree, each in its order.
-/

namespace PegKit

namespace Tree

variable {t : Tree} {id : NodeId}

/-! ## Order by level -/

/-- How many nodes are above a node. -/
def depth (t : Tree) (id : NodeId) : Nat :=
  (t.ancestors id).length

/-- The node `x` is on a higher level than `y`, or on the same one and before `y` in `order`. -/
def LevelBefore (t : Tree) (order : List NodeId) (x y : NodeId) : Prop :=
  t.depth x < t.depth y ∨ t.depth x = t.depth y ∧ order.idxOf x < order.idxOf y

/-- The nodes of a level are below the children of the node that levels are counted from. -/
theorem level_succ (t : Tree) (id : NodeId) (n : Nat) :
    t.level id (n + 1) = (t.children id).flatMap fun c => t.level c n := by
  induction n with
  | zero =>
    rw [level, level, List.flatMap_singleton]
    exact (List.flatMap_singleton' _).symm
  | succ n ih =>
    rw [level, ih, List.flatMap_assoc]
    rfl

theorem pairwise_idxOf {order : List NodeId} (h : order.Nodup) :
    order.Pairwise fun x y => order.idxOf x < order.idxOf y := by
  refine List.pairwise_iff_getElem.mpr fun i j hi hj hij => ?_
  rw [h.idxOf_getElem i hi, h.idxOf_getElem j hj]
  exact hij

namespace Sound

theorem depth_child (h : t.Sound) {c : NodeId} (hc : c ∈ t.children id) :
    t.depth c = t.depth id + 1 := by
  rw [depth, depth, h.ancestors_child hc, List.length_cons]

theorem depth_of_mem_level (h : t.Sound) {n : Nat} {x : NodeId} (hx : x ∈ t.level id n) :
    t.depth x = t.depth id + n := by
  induction n generalizing x with
  | zero =>
    rw [List.mem_singleton.mp hx]
    rfl
  | succ n ih =>
    rcases List.mem_flatMap.mp hx with ⟨p, hp, hxp⟩
    rw [h.depth_child hxp, ih hp, Nat.add_assoc]

/-- From left to right on a level is from first to last in preorder. -/
theorem level_sublist (h : t.Sound) (hid : id < t.size) (n : Nat) :
    List.Sublist (t.level id n) (t.preorder id) := by
  -- on the levels to go down, at any node to start from
  induction n generalizing id with
  | zero =>
    rw [h.preorder_eq hid]
    exact List.singleton_sublist.mpr List.mem_cons_self
  | succ n ih =>
    rw [level_succ, h.preorder_eq hid]
    refine List.Sublist.cons id (List.Sublist.flatMap_right _ fun c hc => ?_)
    exact ih (h.laidOut.lt_of_mem hc)

/-- The walk by level goes down, and through each level in preorder. -/
theorem pairwise_byLevel (h : t.Sound) (hid : id < t.size) :
    (t.byLevel id).Pairwise (t.LevelBefore (t.preorder id)) := by
  have hpre := pairwise_idxOf (h.enumerates_preorder hid).nodup
  rw [h.byLevel_eq_levels hid, levels, levelsTo]
  refine List.pairwise_flatMap.mpr ⟨fun n _ => ?_, List.pairwise_lt_range.imp ?_⟩
  · refine (hpre.sublist (h.level_sublist hid n)).imp_of_mem fun {x y} hx hy hlt => ?_
    exact .inr ⟨by rw [h.depth_of_mem_level hx, h.depth_of_mem_level hy], hlt⟩
  · intro m n hmn x hx y hy
    refine .inl ?_
    rw [h.depth_of_mem_level hx, h.depth_of_mem_level hy]
    exact Nat.add_lt_add_left hmn _

theorem enumerates_byLevel (h : t.Sound) (hid : id < t.size) :
    t.Enumerates id (t.byLevel id) := by
  have hg := gathered_byLevel h hid
  exact ⟨hg.head, hg.nodup, fun x => hg.mem_iff h⟩

end Sound

end Tree

/-! ## Walks without bounds -/

noncomputable section

namespace Unbounded

/-- A round visits the node on top of the stack and pushes its children, the last one first. -/
def stackRound (t : Tree) :
    List NodeId × List NodeId → Option (List NodeId ⊕ List NodeId × List NodeId)
  | (visited, []) => some (.inl visited)
  | (visited, id :: stack) => do
    let children ← walk t Node.left [] (t.node id).last
    return .inr (visited ++ [id], children.foldl (fun st c => c :: st) stack)

/-- The node and its descendants, each before its children. -/
def preorder (t : Tree) (id : NodeId) : Option (List NodeId) :=
  loop (stackRound t) ([], [id])

/-- A round visits the first node of the queue and queues its children. -/
def queueRound (t : Tree) :
    List NodeId × List NodeId → Option (List NodeId ⊕ List NodeId × List NodeId)
  | (visited, []) => some (.inl visited)
  | (visited, id :: queue) => do
    let children ← walk t Node.right [] (t.node id).first
    return .inr (visited ++ [id], queue ++ children)

/-- The node and its descendants, level by level. -/
def byLevel (t : Tree) (id : NodeId) : Option (List NodeId) :=
  loop (queueRound t) ([], [id])

variable {t : Tree} {id : NodeId}

theorem walk_childrenFromLast (h : t.Sound) (id : NodeId) :
    walk t Node.left [] (t.node id).last = some (t.childrenFromLast id) := by
  rw [h.childrenFromLast_eq]
  by_cases hid : id < t.size
  · exact walk_of_chain (h.laidOut.siblings hid).back []
  · have hle := Nat.le_of_not_lt hid
    have hend : t.Chain Node.left none [] := rfl
    rw [Tree.node_of_le hle, h.laidOut.dead id hle]
    exact walk_of_chain hend []

theorem bounds_visitStack (h : t.Sound) :
    Bounds (stackRound t) Prod.fst fun n a => a.1 ++ t.visitStack n a.2 := by
  constructor
  case zero => exact fun a => List.append_nil a.1
  case succ =>
    rintro ⟨visited, _ | ⟨id, stack⟩⟩
    · refine .inl ⟨rfl, fun n => ?_⟩
      rw [Tree.visitStack_nil, List.append_nil]
    · refine .inr ⟨_, by rw [stackRound, walk_childrenFromLast h]; rfl, by simp, fun n => ?_⟩
      rw [Tree.visitStack, List.append_assoc, List.singleton_append]

theorem bounds_visitQueue (h : t.Sound) :
    Bounds (queueRound t) Prod.fst fun n a => a.1 ++ t.visitQueue n a.2 := by
  constructor
  case zero => exact fun a => List.append_nil a.1
  case succ =>
    rintro ⟨visited, _ | ⟨id, queue⟩⟩
    · refine .inl ⟨rfl, fun n => ?_⟩
      cases n <;> exact List.append_nil visited
    · refine .inr ⟨_, by rw [queueRound, walk_children h]; rfl, by simp, fun n => ?_⟩
      rw [Tree.visitQueue, List.append_assoc, List.singleton_append]

/-- One more round would visit nothing, so the walk in preorder ends. -/
theorem preorder_eq (h : t.Sound) (hid : id < t.size) : preorder t id = some (t.preorder id) := by
  have hmore : t.visitStack (t.size + 1) [id] = t.visitStack t.size [id] :=
    h.visitStack_eq_preorder hid (Nat.le_succ _)
  exact (bounds_visitStack h).loop_eq (a := ([], [id])) hmore

theorem byLevel_eq (h : t.Sound) (hid : id < t.size) : byLevel t id = some (t.byLevel id) := by
  have hmore : t.visitQueue (t.size + 1) [id] = t.visitQueue t.size [id] := by
    rw [h.visitQueue_eq_levels hid (Nat.le_succ _), h.visitQueue_eq_levels hid (Nat.le_refl _)]
  exact (bounds_visitQueue h).loop_eq (a := ([], [id])) hmore

end Unbounded

end

/-! ## Both walks -/

namespace Tree

variable {t : Tree} {id : NodeId}

/-- From any node of a well-formed tree both walks end, and both list the node and all that is below
it, each node once and the first one first. The one visits a node and then what is below each of its
children, from left to right; the other goes down by levels, and through each of them in the order
of the first. -/
theorem WellFormed.walks_enumerate (h : t.WellFormed) (hid : id < t.size) :
    (Unbounded.preorder t id = some (t.preorder id) ∧ t.Enumerates id (t.preorder id) ∧
        t.preorder id = id :: (t.children id).flatMap t.preorder) ∧
      Unbounded.byLevel t id = some (t.byLevel id) ∧ t.Enumerates id (t.byLevel id) ∧
        (t.byLevel id).Pairwise (t.LevelBefore (t.preorder id)) := by
  have hs := h.sound
  exact ⟨⟨Unbounded.preorder_eq hs hid, hs.enumerates_preorder hid, hs.preorder_eq hid⟩,
    Unbounded.byLevel_eq hs hid, hs.enumerates_byLevel hid, hs.pairwise_byLevel hid⟩

/-- Two levels below a node that is not the root, whose sibling is on neither walk. -/
theorem walks_enumerate_twoLevels :
    let t := (Call.addChild 3 1 "d").run ((Call.addChild 1 1 "c").run ((Call.addChild 1 1 "").run
      ((Call.addChild 0 1 "b").run ((Call.addChild 0 1 "").run ((Call.makeRoot 1 "").run {})))))
    t.WellFormed ∧ 1 < t.size ∧ Unbounded.preorder t 1 = some [1, 3, 5, 4] ∧
      Unbounded.byLevel t 1 = some [1, 3, 4, 5] ∧ t.LevelBefore [1, 3, 5, 4] 4 5 := by
  intro t
  have h0 := Reachable.empty.call (.makeRoot 1 "") (by decide)
  have h1 := h0.call (.addChild 0 1 "") (by decide)
  have h2 := h1.call (.addChild 0 1 "b") (by decide)
  have h3 := h2.call (.addChild 1 1 "") (by decide)
  have h4 := h3.call (.addChild 1 1 "c") (by decide)
  have ht : Reachable t := h4.call (.addChild 3 1 "d") (by decide)
  have hw := ht.sound.wellFormed
  have hpre : t.preorder 1 = [1, 3, 5, 4] := by decide +kernel
  have hlev : t.byLevel 1 = [1, 3, 4, 5] := by decide +kernel
  rcases hw.walks_enumerate (show 1 < t.size by decide) with ⟨⟨hp, _, _⟩, hl, _, hpair⟩
  rw [hpre] at hp hpair
  rw [hlev] at hl hpair
  refine ⟨hw, by decide, hp, hl, ?_⟩
  exact List.rel_of_pairwise_cons (hpair.sublist (show List.Sublist [4, 5] _ by decide))
    List.mem_cons_self

end Tree

end PegKit
