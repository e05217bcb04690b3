import PegKit.Proofs.Tree.Shape

/-! # The shape of a node

`Tree.shape` reads the shape of a node and its descendants off a tree, and `Sound.shape_eq` is the
equation that it satisfies where no node is below itself.

* `Sound.induction_down`: what holds of a node when it holds of its children holds of all nodes.
* `Sound.preorder_eq`: a walk in preorder visits a node and what is below each of its children,
  from left to right.
* `Sound.size_shape_le`: so a subtree has no more nodes than its tree.
* `Sound.shape_of_stands`: what stands in a tree is what is read off it.
-/

namespace PegKit

namespace Shape

mutual

/-- Number of levels; a single node is one level. -/
def height : Shape → Nat
  | node _ _ nodes => heights nodes + 1

/-- Number of levels of the highest tree of a forest. -/
def heights : List Shape → Nat
  | [] => 0
  | x :: xs => max x.height (heights xs)

end

end Shape

open Shape

namespace Tree

variable {t u : Tree} {id : NodeId}

/-! ## Down from the roots -/

theorem Under.trans {x a b : NodeId} (ha : t.Under x a) (hb : t.Under a b) : t.Under x b := by
  induction ha with
  | refl => exact hb
  | step hp _ ih => exact .step hp (ih hb)

/-- Two nodes that are above a third one are above each other. -/
theorem Under.linear {x a b : NodeId} (ha : t.Under x a) (hb : t.Under x b) :
    t.Under a b ∨ t.Under b a := by
  induction ha with
  | refl => exact .inl hb
  | step hp ha ih =>
    cases hb with
    | refl => exact .inr (.step hp ha)
    | step hp' hb =>
      rw [hp] at hp'
      cases hp'
      exact ih hb

namespace Sound

theorem chain_ancestors (h : t.Sound) (x : NodeId) :
    t.Chain Node.parent (t.node x).parent (t.ancestors x) ∧ (t.ancestors x).Nodup ∧
      ∀ y ∈ t.ancestors x, y < t.size ∧ y ≠ x := by
  rcases h.ranked with ⟨rank, hr⟩
  rcases h.exists_chain hr x with ⟨ids, hc, hn, hlow, _⟩
  have hanc : t.ancestors x = ids :=
    follow_eq_of_chain hc (length_le_of_nodup hn fun y hy => (hlow y hy).1)
  rw [hanc]
  refine ⟨hc, hn, fun y hy => ⟨(hlow y hy).1, ?_⟩⟩
  rintro rfl
  exact Nat.lt_irrefl _ (hlow y hy).2

/-- The way up from a child goes by its parent. -/
theorem ancestors_child (h : t.Sound) {c : NodeId} (hc : c ∈ t.children id) :
    t.ancestors c = id :: t.ancestors id := by
  rcases h.chain_ancestors c with ⟨hchain, hn, hall⟩
  rw [h.mem_children_iff.mp hc] at hchain
  have hle := length_le_of_nodup hn fun y hy => (hall y hy).1
  cases hids : t.ancestors c with
  | nil =>
    rw [hids] at hchain
    cases hchain
  | cons p ids =>
    rw [hids] at hchain hle
    rcases hchain with ⟨he, hup⟩
    cases he
    have hanc : t.ancestors id = ids := follow_eq_of_chain hup (Nat.le_of_succ_le hle)
    rw [hanc]

/-- A node has fewer ancestors than there are nodes. -/
theorem length_ancestors_lt (h : t.Sound) (hid : id < t.size) :
    (t.ancestors id).length < t.size := by
  rcases h.chain_ancestors id with ⟨_, hn, hall⟩
  have hcons : (id :: t.ancestors id).Nodup :=
    List.nodup_cons.mpr ⟨fun hmem => (hall id hmem).2 rfl, hn⟩
  refine length_le_of_nodup hcons fun y hy => ?_
  rcases List.mem_cons.mp hy with rfl | hy
  · exact hid
  · exact (hall y hy).1

/-- What passes from the children of a node to the node holds everywhere. -/
theorem induction_down (h : t.Sound) {P : NodeId → Prop}
    (step : ∀ id, (∀ c ∈ t.children id, P c) → P id) (id : NodeId) : P id := by
  -- on how many nodes are not above: a child has one fewer
  generalize hk : t.size - (t.ancestors id).length = k
  induction k generalizing id with
  | zero =>
    refine step id fun c hc => ?_
    have hid := (h.parent_lt (h.mem_children_iff.mp hc)).2
    have := h.length_ancestors_lt hid
    omega
  | succ k ih =>
    refine step id fun c hc => ih c ?_
    rw [h.ancestors_child hc, List.length_cons]
    omega

end Sound

/-! ## Reading a shape off a tree -/

/-- The shape of a node and of what is below it, cut off below a number of levels. -/
def shapeTo (t : Tree) : (levels : Nat) → NodeId → Shape
  | 0, id => .node (t.node id).kind (t.node id).value []
  | levels + 1, id =>
    .node (t.node id).kind (t.node id).value ((t.children id).map (t.shapeTo levels))

/-- The shape of a node and of what is below it. No tree has more levels than nodes. -/
def shape (t : Tree) (id : NodeId) : Shape :=
  t.shapeTo t.size id

namespace Sound

theorem children_of_length_ancestors (h : t.Sound) (hle : t.size ≤ (t.ancestors id).length) :
    t.children id = [] := by
  refine h.laidOut.dead id (Nat.le_of_not_lt fun hid => ?_)
  exact absurd (h.length_ancestors_lt hid) (Nat.not_lt.mpr hle)

/-- Levels below the last one add nothing. -/
theorem shapeTo_eq (h : t.Sound) {m n : Nat} (hm : t.size ≤ m + (t.ancestors id).length)
    (hn : t.size ≤ n + (t.ancestors id).length) : t.shapeTo m id = t.shapeTo n id := by
  induction m generalizing n id with
  | zero =>
    rw [Nat.zero_add] at hm
    cases n with
    | zero => rfl
    | succ n => rw [shapeTo, shapeTo, h.children_of_length_ancestors hm, List.map_nil]
  | succ m ih =>
    cases n with
    | zero =>
      rw [Nat.zero_add] at hn
      rw [shapeTo, shapeTo, h.children_of_length_ancestors hn, List.map_nil]
    | succ n =>
      rw [shapeTo, shapeTo]
      congr 1
      refine List.map_congr_left fun c hc => ih ?_ ?_
      · rw [h.ancestors_child hc, List.length_cons]
        omega
      · rw [h.ancestors_child hc, List.length_cons]
        omega

theorem shape_eq (h : t.Sound) (id : NodeId) :
    t.shape id = .node (t.node id).kind (t.node id).value ((t.children id).map t.shape) := by
  have hmore : t.shape id = t.shapeTo (t.size + 1) id :=
    h.shapeTo_eq (by omega) (by omega)
  rw [hmore, shapeTo]
  rfl

/-! ## Preorder -/

/-- What is below a node is the node itself and what is below its children. -/
theorem under_iff (h : t.Sound) {x : NodeId} :
    t.Under x id ↔ x = id ∨ ∃ c ∈ t.children id, t.Under x c := by
  constructor
  · intro hu
    by_cases hx : x = id
    · exact .inl hx
    · rcases hu.exists_below hx with ⟨c, hc, hp⟩
      exact .inr ⟨c, h.mem_children_iff.mpr hp, hc⟩
  · rintro (rfl | ⟨c, hc, hu⟩)
    · exact .refl x
    · exact hu.trans (.step (h.mem_children_iff.mp hc) (.refl id))

/-- No node is below two siblings. -/
theorem eq_of_under_children (h : t.Sound) {x c d : NodeId} (hc : c ∈ t.children id)
    (hd : d ∈ t.children id) (hxc : t.Under x c) (hxd : t.Under x d) : c = d := by
  -- of two siblings none is above the other
  have hapart : ∀ {a b : NodeId}, a ∈ t.children id → b ∈ t.children id → t.Under a b → a = b := by
    intro a b ha hb hu
    cases hu with
    | refl => rfl
    | step hp hu =>
      rw [h.mem_children_iff.mp ha] at hp
      cases hp
      exact absurd hu (h.acyclic (h.mem_children_iff.mp hb))
  rcases hxc.linear hxd with hu | hu
  · exact hapart hc hd hu
  · exact (hapart hd hc hu).symm

end Sound

/-- The list is a node with everything below it, each node once and that node in front. -/
structure Enumerates (t : Tree) (id : NodeId) (order : List NodeId) : Prop where
  head : order.head? = some id
  nodup : order.Nodup
  mem_iff : ∀ x, x ∈ order ↔ t.Under x id

/-- What is visited for a node that is on top of the stack, before anything else is. -/
def Visits (t : Tree) (id : NodeId) (order : List NodeId) : Prop :=
  ∀ fuel stack, t.visitStack (fuel + order.length) (id :: stack) =
    order ++ t.visitStack fuel stack

theorem visitStack_nil (t : Tree) (fuel : Nat) : t.visitStack fuel [] = [] := by
  cases fuel <;> rfl

/-- The nodes on the stack are visited one after the other. -/
theorem visitStack_append {cs : List NodeId} {order : NodeId → List NodeId}
    (h : ∀ c ∈ cs, t.Visits c (order c)) (fuel : Nat) (stack : List NodeId) :
    t.visitStack (fuel + (cs.flatMap order).length) (cs ++ stack) =
      cs.flatMap order ++ t.visitStack fuel stack := by
  induction cs with
  | nil => rfl
  | cons c cs ih =>
    rcases List.forall_mem_cons.mp h with ⟨hc, hcs⟩
    have hlen : fuel + ((c :: cs).flatMap order).length =
        fuel + (cs.flatMap order).length + (order c).length := by
      rw [List.flatMap_cons, List.length_append]
      omega
    rw [hlen, List.cons_append, hc, ih hcs, List.flatMap_cons, List.append_assoc]

/-- A walk with a bound that is large enough visits what there is to visit. -/
theorem Visits.visitStack_eq {order : List NodeId} (h : t.Visits id order) {fuel : Nat}
    (hf : order.length ≤ fuel) : t.visitStack fuel [id] = order := by
  obtain ⟨more, rfl⟩ := Nat.exists_eq_add_of_le' hf
  rw [h, visitStack_nil, List.append_nil]

namespace Sound

theorem visits_cons (h : t.Sound) {order : NodeId → List NodeId}
    (hc : ∀ c ∈ t.children id, t.Visits c (order c)) :
    t.Visits id (id :: (t.children id).flatMap order) := by
  intro fuel stack
  rw [List.length_cons, ← Nat.add_assoc, h.visitStack_cons, visitStack_append hc, List.cons_append]

theorem enumerates_cons (h : t.Sound) {order : NodeId → List NodeId}
    (hc : ∀ c ∈ t.children id, t.Enumerates c (order c)) :
    t.Enumerates id (id :: (t.children id).flatMap order) := by
  have hmem : ∀ {x}, x ∈ (t.children id).flatMap order ↔ ∃ c ∈ t.children id, t.Under x c := by
    intro x
    rw [List.mem_flatMap]
    exact exists_congr fun c => and_congr_right fun hcs => (hc c hcs).mem_iff x
  constructor
  case head => rfl
  case nodup =>
    refine List.nodup_cons.mpr ⟨?_, List.nodup_flatMap.mpr ⟨fun c hcs => (hc c hcs).nodup, ?_⟩⟩
    · intro hself
      rcases hmem.mp hself with ⟨c, hcs, hu⟩
      exact h.ne_of_under_child hcs hu rfl
    · refine (h.laidOut.nodup id).pairwise_of_forall_ne ?_
      intro c hcs d hds hne x hxc hxd
      exact hne (h.eq_of_under_children hcs hds (((hc c hcs).mem_iff x).mp hxc)
        (((hc d hds).mem_iff x).mp hxd))
  case mem_iff =>
    intro x
    rw [List.mem_cons, hmem, h.under_iff]

theorem lt_size_of_under (h : t.Sound) (hid : id < t.size) {x : NodeId} (hx : t.Under x id) :
    x < t.size := by
  cases hx with
  | refl => exact hid
  | step hp _ => exact (h.parent_lt hp).1

theorem length_le_of_enumerates (h : t.Sound) (hid : id < t.size) {order : List NodeId}
    (ho : t.Enumerates id order) : order.length ≤ t.size :=
  length_le_of_nodup ho.nodup fun x hx => h.lt_size_of_under hid ((ho.mem_iff x).mp hx)

/-- The walk with the stack visits a node, and then what it visits for each child. -/
theorem preorder_spec (h : t.Sound) (hid : id < t.size) : t.Visits id (t.preorder id) ∧
    t.Enumerates id (t.preorder id) ∧
      t.preorder id = id :: (t.children id).flatMap t.preorder := by
  induction id using h.induction_down with
  | step id ih =>
    have hc : ∀ c ∈ t.children id, _ := fun c hcs => ih c hcs (h.laidOut.lt_of_mem hcs)
    have hv := h.visits_cons fun c hcs => (hc c hcs).1
    have he := h.enumerates_cons fun c hcs => (hc c hcs).2.1
    have heq : t.preorder id = id :: (t.children id).flatMap t.preorder :=
      hv.visitStack_eq (h.length_le_of_enumerates hid he)
    rw [← heq] at hv he
    exact ⟨hv, he, heq⟩

theorem preorder_eq (h : t.Sound) (hid : id < t.size) :
    t.preorder id = id :: (t.children id).flatMap t.preorder :=
  (h.preorder_spec hid).2.2

theorem enumerates_preorder (h : t.Sound) (hid : id < t.size) :
    t.Enumerates id (t.preorder id) :=
  (h.preorder_spec hid).2.1

theorem mem_preorder_iff (h : t.Sound) (hid : id < t.size) {x : NodeId} :
    x ∈ t.preorder id ↔ t.Under x id :=
  (h.enumerates_preorder hid).mem_iff x

/-- A bound that is larger changes nothing. -/
theorem visitStack_eq_preorder (h : t.Sound) (hid : id < t.size) {fuel : Nat}
    (hf : t.size ≤ fuel) : t.visitStack fuel [id] = t.preorder id := by
  rcases h.preorder_spec hid with ⟨hv, he, _⟩
  exact hv.visitStack_eq (Nat.le_trans (h.length_le_of_enumerates hid he) hf)

/-! ## Size -/

theorem length_preorder (h : t.Sound) (hid : id < t.size) :
    (t.preorder id).length = (t.shape id).size := by
  have hsizes : ∀ cs : List NodeId, (∀ c ∈ cs, (t.preorder c).length = (t.shape c).size) →
      (cs.flatMap t.preorder).length = sizes (cs.map t.shape) := by
    intro cs hcs
    induction cs with
    | nil => rfl
    | cons c cs ih =>
      rcases List.forall_mem_cons.mp hcs with ⟨hc, hcs⟩
      rw [List.flatMap_cons, List.length_append, hc, ih hcs, List.map_cons, sizes]
  induction id using h.induction_down with
  | step id ih =>
    rw [h.preorder_eq hid, h.shape_eq, Shape.size, List.length_cons,
      hsizes _ fun c hc => ih c hc (h.laidOut.lt_of_mem hc)]

/-- A subtree has no more nodes than its tree. -/
theorem size_shape_le (h : t.Sound) (hid : id < t.size) : (t.shape id).size ≤ t.size := by
  rw [← h.length_preorder hid]
  exact h.length_le_of_enumerates hid (h.enumerates_preorder hid)

/-! ## What stands in a tree -/

mutual

/-- What stands in a tree is what is read off it. -/
theorem shape_of_stands (h : t.Sound) (x : Shape) (n : Nat) (hx : t.Stands n x) :
    t.shape n = x := by
  match x with
  | .node kind value nodes =>
    rcases hx with ⟨hk, hv, hc, hn⟩
    rw [h.shape_eq, hk, hv, hc, Sound.shapes_of_standEach h nodes (n + 1) hn]

theorem shapes_of_standEach (h : t.Sound) (f : List Shape) (n : Nat) (hf : t.StandEach n f) :
    (rootsFrom n f).map t.shape = f := by
  match f with
  | [] => rfl
  | x :: f =>
    rw [rootsFrom, List.map_cons, Sound.shape_of_stands h x n hf.1,
      Sound.shapes_of_standEach h f (n + x.size) hf.2]

end

end Sound

end Tree

end PegKit
