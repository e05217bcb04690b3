import PegKit.Proofs.Tree.Subtree

/-! # What a clone is

A clone of a node is everything at and below the node once more, and shares nothing with it.

* `Sound.shape_map`: nodes that hold the same, with children that correspond, have one shape.
* `Tree.Cloned`: a tree has grown by a clone, node by node in breadth-first order.
* `WellFormed.clone_apart`: that is what a clone is, and what is done to the clone leaves the older
  nodes alone.
-/

namespace PegKit.Tree

variable {t u : Tree} {id root x : NodeId} {order : List NodeId}

/-! ## One shape in two trees -/

/-- Nodes that hold the same, with children that correspond, have one shape. -/
theorem Sound.shape_map (h : t.Sound) (hu : u.Sound) (f : NodeId → NodeId) (x : NodeId)
    (hf : ∀ y, t.Under y x → (u.node (f y)).kind = (t.node y).kind ∧
      (u.node (f y)).value = (t.node y).value ∧ u.children (f y) = (t.children y).map f) :
    u.shape (f x) = t.shape x := by
  induction x using h.induction_down with
  | step x ih =>
    rcases hf x (.refl x) with ⟨hk, hv, hc⟩
    rw [hu.shape_eq, h.shape_eq, hk, hv, hc, List.map_map]
    congr 1
    refine List.map_congr_left fun c hc => ih c hc fun y hy => hf y ?_
    exact hy.trans (.step (h.mem_children_iff.mp hc) (.refl x))

/-! ## Copies of a subtree -/

theorem Gathered.getElem?_zero (hg : t.Gathered root order) : order[0]? = some root :=
  List.head?_eq_getElem?.symm.trans hg.head

/-- The root is the first to be copied. -/
theorem Gathered.copyIndex_root (hg : t.Gathered root order) : t.copyIndex order root = t.size :=
  copyIndex_of_getElem? hg.nodup hg.getElem?_zero

/-- A copy holds what its original holds. -/
theorem content_copyIndex (hx : x ∈ order) :
    ((t.withCopies order).node (t.copyIndex order x)).kind = (t.node x).kind ∧
      ((t.withCopies order).node (t.copyIndex order x)).value = (t.node x).value := by
  rw [copyIndex, node_withCopies_add (exists_getElem?_of_mem hx)]
  exact ⟨rfl, rfl⟩

section Gathered

variable (h : t.Sound) (hg : t.Gathered root order)

include h hg

theorem children_withCopies_of_lt (hx : x < t.size) :
    (t.withCopies order).children x = t.children x := by
  rw [(laidOut_withCopies h hg).children_eq, copiedChildren_of_lt hx]

/-- A copy has the copies of what its original has. -/
theorem children_copyIndex (hx : x ∈ order) :
    (t.withCopies order).children (t.copyIndex order x) =
      (t.children x).map (t.copyIndex order) := by
  rw [(laidOut_withCopies h hg).children_eq, copyIndex, copiedChildren_add]
  exact exists_getElem?_of_mem hx

theorem shape_copyIndex (hx : x ∈ order) :
    (t.withCopies order).shape (t.copyIndex order x) = t.shape x := by
  refine h.shape_map (sound_withCopies h hg) (t.copyIndex order) x ?_
  intro y hy
  have hyo : y ∈ order := (hg.mem_iff h).mpr (hy.trans ((hg.mem_iff h).mp hx))
  rcases content_copyIndex (t := t) hyo with ⟨hk, hv⟩
  exact ⟨hk, hv, children_copyIndex h hg hyo⟩

/-- The copy of the root stands alone, because nothing above the root is copied. -/
theorem root_withCopies : ((t.withCopies order).node t.size).parent = none ∧
    ((t.withCopies order).node t.size).left = none ∧
    ((t.withCopies order).node t.size).right = none := by
  have h0 := hg.getElem?_zero
  have hp : ((t.withCopies order).node (t.size + 0)).parent = none := by
    apply Option.eq_none_iff_forall_ne_some.mpr
    intro q hq
    rcases parent_copy hg.nodup h0 hq with ⟨p, hpo, hp, _⟩
    exact h.acyclic hp ((hg.mem_iff h).mp hpo)
  exact ⟨hp, roots_copy h hg h0 hp⟩

end Gathered

/-! ## Clones -/

/-- The tree `u` is `t` with a clone of `id` and its descendants behind it. -/
structure Cloned (t : Tree) (id : NodeId) (u : Tree) : Prop where
  wellFormed : u.WellFormed
  size_eq : u.size = t.size + (t.levels id).length
  node_eq : ∀ x < t.size, u.node x = t.node x
  /-- A clone holds what its original holds and has the clones of its children, in their order. -/
  clones : ∀ k x, (t.levels id)[k]? = some x →
    (u.node (t.size + k)).kind = (t.node x).kind ∧
    (u.node (t.size + k)).value = (t.node x).value ∧
    u.children (t.size + k) = (t.children x).map fun c => t.size + (t.levels id).idxOf c
  root : (u.node t.size).parent = none ∧ (u.node t.size).left = none ∧
    (u.node t.size).right = none
  shape_eq : u.shape t.size = t.shape id

theorem Sound.gathered_levels (h : t.Sound) (hid : id < t.size) :
    t.Gathered id (t.levels id) := by
  rw [← h.byLevel_eq_levels hid]
  exact gathered_byLevel h hid

theorem Sound.cloned_withCopies (h : t.Sound) (hid : id < t.size) :
    Cloned t id (t.withCopies (t.levels id)) := by
  have hg := h.gathered_levels hid
  constructor
  case wellFormed => exact (sound_withCopies h hg).wellFormed
  case size_eq => exact size_withCopies
  case node_eq =>
    intro x hx
    exact node_withCopies_of_lt hx
  case clones =>
    intro k x hk
    have hx := List.mem_of_getElem? hk
    rcases content_copyIndex (t := t) hx with ⟨hkind, hvalue⟩
    have hkids := children_copyIndex h hg hx
    rw [copyIndex_of_getElem? hg.nodup hk] at hkind hvalue hkids
    exact ⟨hkind, hvalue, hkids⟩
  case root => exact root_withCopies h hg
  case shape_eq =>
    have hs := shape_copyIndex h hg (List.mem_of_mem_head? hg.head)
    rwa [hg.copyIndex_root] at hs

/-- The nodes at and below a node are those of its levels, each once. To clone the node adds one
node for each of them, in this order, and leaves the older nodes as they are; and so does every run
of calls after it that names only new nodes and goes back to no point before them. -/
theorem WellFormed.clone_apart (h : t.WellFormed) (hid : id < t.size) :
    (t.levels id).Nodup ∧ (∀ x, x ∈ t.levels id ↔ t.Under x id) ∧
      ∃ u, t.clone id = .ok (t.size, u) ∧ Cloned t id u ∧
        ∀ v, BuiltAbove t.size u v → ∀ x < t.size, v.node x = t.node x := by
  have hs := h.sound
  have hg := hs.gathered_levels hid
  have hcloned := hs.cloned_withCopies hid
  refine ⟨hg.nodup, fun x => hg.mem_iff hs, _, ?_, hcloned, ?_⟩
  · rw [clone_eq hid, hs.byLevel_eq_levels hid]
  · intro v hv x hx
    have hu := hcloned.wellFormed.sound
    have hspares := withCopies_spares (Nat.le_refl t.size) (t.levels id)
    have hapart := hspares.apart hs hs.apart hu
    rcases hv.sound_and_spares hu hapart hspares.le_size with ⟨_, hkept⟩
    rw [hkept.node_eq x hx, hcloned.node_eq x hx]

/-- The root 0 has the branch 1, which has the leaf 2, and the leaf 3. In the clone the leaf 3 comes
before what is below the branch; a clone is taken out, changed and rolled back together with
others. -/
theorem clone_apart_twoLevels :
    let t := (Call.addChild 0 3 "b").run ((Call.addChild 1 2 "a").run
      ((Call.addChild 0 1 "").run ((Call.makeRoot untyped "").run {})))
    let u := (Call.clone 0).run t
    let v := (Call.rollback 5).run ((Call.setValue 7 "z").run ((Call.detach 7).run u))
    t.WellFormed ∧ t.levels 0 = [0, 1, 3, 2] ∧ u.children 4 = [5, 6] ∧ u.children 5 = [7] ∧
      u.shape 4 = t.shape 0 ∧ v.size = 5 ∧ v.children 4 = [] ∧ ∀ x < 4, v.node x = t.node x := by
  intro t u v
  have h0 := Reachable.empty.call (.makeRoot untyped "") (by decide)
  have h1 := h0.call (.addChild 0 1 "") (by decide)
  have h2 := h1.call (.addChild 1 2 "a") (by decide)
  have ht : Reachable t := h2.call (.addChild 0 3 "b") (by decide)
  have hw := ht.sound.wellFormed
  have hsize : t.size = 4 := by decide +kernel
  have h0t : 0 < t.size := by decide +kernel
  rcases hw.clone_apart h0t with ⟨_, _, w, hclone, hcloned, hkept⟩
  have hu : u = w := by
    show t.orKeep ((t.clone 0).map (·.2)) = w
    rw [hclone]
    rfl
  rw [← hu, hsize] at hkept
  have hshape := hcloned.shape_eq
  rw [← hu, hsize] at hshape
  have hb0 : BuiltAbove 4 u u := .refl
  have hb1 := hb0.call (.detach 7) (by decide +kernel) (by simp [Call.Above, Call.ids])
  have hb2 := hb1.call (.setValue 7 "z") (by decide +kernel) (by simp [Call.Above, Call.ids])
  have hv : BuiltAbove 4 u v := hb2.call (.rollback 5) (by decide) (by simp [Call.Above])
  refine ⟨hw, by decide +kernel, by decide +kernel, by decide +kernel, hshape, ?_, ?_, hkept v hv⟩
  · decide +kernel
  · decide +kernel

end PegKit.Tree
