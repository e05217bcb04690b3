import PegKit.Proofs.Tree.Ownership
import PegKit.Proofs.Tree.WellFormed
import PegKit.Tree.Clone

/-! # Shapes of subtrees

What a subtree holds, apart from where it stands in the arena, and what it means for a tree to hold
a list of such shapes.

* `Tree.StandEach`: the nodes from an index on are those of a forest, each before its children.
* `Sound.preorder_of_standEach`: so a walk in preorder meets them in ascending order.
* `Tree.Planted` and `Tree.Grafted`: a tree has grown by one subtree that stands alone, and by a
  forest behind the children of a node.
* `Planted.graft`: attaching the one gives the other.
* `Grafted.sparesBut`: what a graft leaves as it was, link by link.
-/

namespace PegKit

/-- A node with its kind, its value and the shapes of its children. -/
inductive Shape where
  | node (kind : Kind) (value : String) (nodes : List Shape)

namespace Shape

mutual

/-- Number of nodes. -/
def size : Shape → Nat
  | node _ _ nodes => sizes nodes + 1

/-- Number of nodes of a forest. -/
def sizes : List Shape → Nat
  | [] => 0
  | x :: xs => x.size + sizes xs

end

mutual

/-- Shapes are compared node by node. -/
def decEq : (x y : Shape) → Decidable (x = y)
  | node k v xs, node l w ys =>
    have := decEqs xs ys
    decidable_of_iff (k = l ∧ v = w ∧ xs = ys) (by rw [node.injEq])

/-- So are forests. -/
def decEqs : (xs ys : List Shape) → Decidable (xs = ys)
  | [], [] => isTrue rfl
  | [], _ :: _ => isFalse nofun
  | _ :: _, [] => isFalse nofun
  | x :: xs, y :: ys =>
    have := decEq x y
    have := decEqs xs ys
    decidable_of_iff (x = y ∧ xs = ys) (by rw [List.cons.injEq])

end

instance : DecidableEq Shape := decEq

/-- The roots of a forest that is numbered in preorder from `n` on. -/
def rootsFrom (n : Nat) : List Shape → List NodeId
  | [] => []
  | x :: xs => n :: rootsFrom (n + x.size) xs

variable {f g : List Shape} {n : Nat}

theorem sizes_append : sizes (f ++ g) = sizes f + sizes g := by
  induction f with
  | nil => rw [List.nil_append, sizes, Nat.zero_add]
  | cons x f ih => rw [List.cons_append, sizes, sizes, ih, Nat.add_assoc]

theorem rootsFrom_append : rootsFrom n (f ++ g) = rootsFrom n f ++ rootsFrom (n + sizes f) g := by
  induction f generalizing n with
  | nil => rfl
  | cons x f ih => rw [List.cons_append, rootsFrom, rootsFrom, ih, sizes, Nat.add_assoc,
      List.cons_append]

theorem length_rootsFrom : (rootsFrom n f).length = f.length := by
  induction f generalizing n with
  | nil => rfl
  | cons x f ih => rw [rootsFrom, List.length_cons, ih, List.length_cons]

end Shape

open Shape

namespace Tree

/-! ## Standing in a tree -/

mutual

/-- The node `id` and its descendants have this shape and are numbered in preorder. -/
def Stands (t : Tree) (id : Nat) : Shape → Prop
  | .node kind value nodes =>
    (t.node id).kind = kind ∧ (t.node id).value = value ∧
      t.children id = rootsFrom (id + 1) nodes ∧ t.StandEach (id + 1) nodes

/-- The nodes from `id` on have the shapes of a forest and are numbered in preorder. -/
def StandEach (t : Tree) (id : Nat) : List Shape → Prop
  | [] => True
  | x :: xs => t.Stands id x ∧ t.StandEach (id + x.size) xs

end

variable {t u v : Tree} {p : NodeId} {x : Shape} {f g : List Shape} {n : Nat}

theorem standEach_append :
    t.StandEach n (f ++ g) ↔ t.StandEach n f ∧ t.StandEach (n + sizes f) g := by
  induction f generalizing n with
  | nil => exact (and_iff_right trivial).symm
  | cons x f ih => rw [List.cons_append, StandEach, StandEach, ih, sizes, Nat.add_assoc, and_assoc]

/-- Two trees agree on what the nodes from `n` up to `m` hold and on their children. -/
def AgreeOn (n m : Nat) (t u : Tree) : Prop :=
  ∀ j, n ≤ j → j < m → (u.node j).kind = (t.node j).kind ∧ (u.node j).value = (t.node j).value ∧
    u.children j = t.children j

mutual

/-- What stands in a tree stands in every tree that agrees with it there. -/
theorem Stands.congr (x : Shape) (n : Nat) (ha : AgreeOn n (n + x.size) t u)
    (h : t.Stands n x) : u.Stands n x := by
  match x with
  | .node kind value nodes =>
    rcases h with ⟨hk, hv, hc, hn⟩
    rw [Shape.size] at ha
    rcases ha n (Nat.le_refl n) (Nat.lt_add_of_pos_right (Nat.succ_pos _)) with ⟨hk', hv', hc'⟩
    refine ⟨hk'.trans hk, hv'.trans hv, hc'.trans hc, StandEach.congr nodes (n + 1) ?_ hn⟩
    intro j hj hj'
    exact ha j (by omega) (by omega)

theorem StandEach.congr (f : List Shape) (n : Nat) (ha : AgreeOn n (n + sizes f) t u)
    (h : t.StandEach n f) : u.StandEach n f := by
  match f with
  | [] => trivial
  | x :: f =>
    rw [sizes] at ha
    refine ⟨Stands.congr x n (fun j hj hj' => ha j hj (by omega)) h.1,
      StandEach.congr f (n + x.size) (fun j hj hj' => ha j (by omega) (by omega)) h.2⟩

end

/-! ## Walking -/

theorem Sound.childrenFromLast_eq (h : t.Sound) (id : NodeId) :
    t.childrenFromLast id = (t.children id).reverse := by
  by_cases hid : id < t.size
  · have hc : t.Chain Node.left (t.node id).last (t.children id).reverse :=
      (h.laidOut.siblings hid).back
    exact follow_eq_of_chain hc (List.length_reverse.trans_le h.laidOut.length_le)
  · have hle := Nat.le_of_not_lt hid
    rw [childrenFromLast, node_of_le hle, h.laidOut.dead id hle]
    cases t.size <;> rfl

theorem Sound.visitStack_cons (h : t.Sound) (fuel id : Nat) (stack : List NodeId) :
    t.visitStack (fuel + 1) (id :: stack) = id :: t.visitStack fuel (t.children id ++ stack) := by
  have hpush : ∀ (ids stack : List NodeId),
      ids.foldl (fun st c => c :: st) stack = ids.reverse ++ stack := by
    intro ids
    induction ids with
    | nil => exact fun _ => rfl
    | cons i ids ih =>
      intro stack
      rw [List.foldl_cons, ih, List.reverse_cons, List.append_assoc, List.singleton_append]
  rw [visitStack, hpush, h.childrenFromLast_eq, List.reverse_reverse]

mutual

/-- A walk in preorder meets the nodes of a shape in ascending order, and then goes on. -/
theorem Sound.visitStack_stands (h : t.Sound) (x : Shape) (n fuel : Nat) (stack : List NodeId)
    (hx : t.Stands n x) : t.visitStack (fuel + x.size) (n :: stack) =
      List.range' n x.size ++ t.visitStack fuel stack := by
  match x with
  | .node kind value nodes =>
    rcases hx with ⟨_, _, hc, hn⟩
    rw [Shape.size, ← Nat.add_assoc, h.visitStack_cons, hc,
      Sound.visitStack_standEach h nodes (n + 1) fuel stack hn, List.range'_succ, List.cons_append]

theorem Sound.visitStack_standEach (h : t.Sound) (f : List Shape) (n fuel : Nat)
    (stack : List NodeId) (hf : t.StandEach n f) :
    t.visitStack (fuel + sizes f) (rootsFrom n f ++ stack) =
      List.range' n (sizes f) ++ t.visitStack fuel stack := by
  match f with
  | [] => rfl
  | x :: f =>
    have hsize : fuel + (x.size + sizes f) = fuel + sizes f + x.size := by omega
    rw [sizes, rootsFrom, List.cons_append, hsize,
      Sound.visitStack_stands h x n (fuel + sizes f) _ hf.1,
      Sound.visitStack_standEach h f (n + x.size) fuel stack hf.2, ← List.append_assoc,
      List.range'_append_1]

end

theorem Sound.preorder_of_stands (h : t.Sound) (hx : t.Stands n x) (hs : x.size ≤ t.size) :
    t.preorder n = List.range' n x.size := by
  have hw := h.visitStack_stands x n (t.size - x.size) [] hx
  rw [Nat.sub_add_cancel hs] at hw
  rw [preorder, hw]
  cases t.size - x.size <;> exact List.append_nil _

/-- Walking the trees of a forest one after the other meets its nodes in ascending order. -/
theorem Sound.preorder_of_standEach (h : t.Sound) (hf : t.StandEach n f) (hs : sizes f ≤ t.size) :
    (rootsFrom n f).flatMap t.preorder = List.range' n (sizes f) := by
  induction f generalizing n with
  | nil => rfl
  | cons x f ih =>
    rw [sizes] at hs
    rw [rootsFrom, List.flatMap_cons, h.preorder_of_stands hf.1 (by omega), ih hf.2 (by omega),
      sizes, List.range'_append_1]

/-! ## Growing by a subtree -/

/-- The tree `u` is `t` with one subtree added, which stands alone. -/
structure Planted (t : Tree) (x : Shape) (u : Tree) : Prop where
  wellFormed : u.WellFormed
  size_eq : u.size = t.size + x.size
  node_eq : ∀ j < t.size, u.node j = t.node j
  root : (u.node t.size).parent = none
  stands : u.Stands t.size x

/-- A leaf is a subtree. -/
theorem planted_makeRoot (h : t.Sound) (kind : Kind) (value : String) :
    Planted t (.node kind value []) (t.makeRoot kind value).2 := by
  have hroot : (t.makeRoot kind value).2.node t.size = { kind, value } := by
    rw [node_makeRoot, if_pos rfl]
  constructor
  case wellFormed => exact (h.makeRoot kind value).wellFormed
  case size_eq => exact size_makeRoot
  case node_eq =>
    intro j hj
    rw [node_makeRoot, if_neg (Nat.ne_of_lt hj)]
  case root => rw [hroot]
  case stands =>
    refine ⟨by rw [hroot], by rw [hroot], ?_, trivial⟩
    rw [(h.laidOut.makeRoot kind value).children_eq, h.laidOut.dead _ (Nat.le_refl _)]
    rfl

namespace Planted

theorem spares (h : Planted t x u) : Spares t.size t u :=
  ⟨h.size_eq ▸ Nat.le_add_right _ _, h.node_eq⟩

theorem children_eq (ht : t.Sound) (h : Planted t x u) {q : NodeId} (hq : q < t.size) :
    u.children q = t.children q :=
  h.spares.children_eq ht ht.apart hq

/-- The way up from an older node meets older nodes only. -/
theorem not_mem_ancestors (ht : t.Sound) (h : Planted t x u) (hp : p < t.size) :
    t.size ∉ p :: u.ancestors p := by
  intro hmem
  have hlt : t.size < t.size := by
    refine lt_of_under ?_ (under_of_mem_ancestors hmem) hp
    intro y q hy hq
    rw [h.node_eq y hy] at hq
    exact (ht.parent_lt hq).2
  exact Nat.lt_irrefl _ hlt

end Planted

/-! ## Growing by a forest -/

/-- The tree `u` is `t` with a forest added behind the children of `p`. -/
structure Grafted (t : Tree) (p : NodeId) (f : List Shape) (u : Tree) : Prop where
  wellFormed : u.WellFormed
  size_eq : u.size = t.size + sizes f
  content_eq : ∀ x < t.size, (u.node x).kind = (t.node x).kind ∧
    (u.node x).value = (t.node x).value ∧ (u.node x).parent = (t.node x).parent
  children_eq : ∀ x < t.size,
    u.children x = if x = p then t.children p ++ rootsFrom t.size f else t.children x
  stands : u.StandEach t.size f

theorem Grafted.refl (h : t.Sound) (p : NodeId) : Grafted t p [] t where
  wellFormed := h.wellFormed
  size_eq := rfl
  content_eq := fun _ _ => ⟨rfl, rfl, rfl⟩
  children_eq := by
    intro x _
    split
    · next hx => rw [hx, rootsFrom, List.append_nil]
    · rfl
  stands := trivial

/-- One forest behind the other is their concatenation. -/
theorem Grafted.trans (hp : p < t.size) (hf : Grafted t p f u) (hg : Grafted u p g v) :
    Grafted t p (f ++ g) v := by
  have hlt : ∀ {x : NodeId}, x < t.size → x < u.size :=
    fun hx => hf.size_eq ▸ Nat.lt_add_right _ hx
  constructor
  case wellFormed => exact hg.wellFormed
  case size_eq => rw [hg.size_eq, hf.size_eq, sizes_append, Nat.add_assoc]
  case content_eq =>
    intro x hx
    rcases hf.content_eq x hx with ⟨hk, hv, hq⟩
    rcases hg.content_eq x (hlt hx) with ⟨hk', hv', hq'⟩
    exact ⟨hk'.trans hk, hv'.trans hv, hq'.trans hq⟩
  case children_eq =>
    intro x hx
    have hfp := hf.children_eq p hp
    rw [if_pos rfl] at hfp
    rw [hg.children_eq x (hlt hx), hf.children_eq x hx, hfp, hf.size_eq, rootsFrom_append,
      List.append_assoc]
    split <;> rfl
  case stands =>
    have hstay : AgreeOn t.size (t.size + sizes f) u v := by
      intro j hj hj'
      have hju : j < u.size := hf.size_eq ▸ hj'
      have hjp : j ≠ p := Nat.ne_of_gt (Nat.lt_of_lt_of_le hp hj)
      rcases hg.content_eq j hju with ⟨hk, hv, _⟩
      refine ⟨hk, hv, ?_⟩
      rw [hg.children_eq j hju, if_neg hjp]
    rw [standEach_append]
    exact ⟨StandEach.congr f t.size hstay hf.stands, hf.size_eq ▸ hg.stands⟩

/-- A subtree that stands alone can be attached to any older node without a value. -/
theorem Planted.graft (ht : t.Sound) (hp : p < t.size) (hv : (t.node p).value = "")
    (h : Planted t x u) : ∃ v, u.attach p t.size = .ok v ∧ Grafted t p [x] v := by
  have hu := h.wellFormed.sound
  have hone : 0 < x.size := by
    cases x
    exact Nat.succ_pos _
  have hp' : p < u.size := h.size_eq ▸ Nat.lt_add_right _ hp
  have hr : t.size < u.size := h.size_eq ▸ Nat.lt_add_of_pos_right hone
  have hve : ¬ (u.node p).value ≠ "" := by
    rw [h.node_eq p hp]
    exact not_not_intro hv
  have hroot : ¬ (u.node t.size).parent.isSome = true := by
    rw [h.root]
    exact Bool.false_ne_true
  have he : u.attach p t.size = .ok (u.linkUnder p t.size) := by
    rw [attach_eq hp' hr, if_neg hve, if_neg hroot, if_neg (h.not_mem_ancestors ht hp)]
  have hkids := hu.children_attach he
  have hnode := hu.node_attach he
  refine ⟨_, he, ?_⟩
  generalize u.linkUnder p t.size = v at he hkids hnode ⊢
  constructor
  case wellFormed => exact (hu.attach hp' hr he).wellFormed
  case size_eq => rw [size_attach he, h.size_eq, sizes, sizes, Nat.add_zero]
  case content_eq =>
    intro q hq
    rcases hnode q with ⟨hk, hval, hpar⟩
    rw [hk, hval, hpar, if_neg (Nat.ne_of_gt hq), h.node_eq q hq]
    exact ⟨rfl, rfl, rfl⟩
  case children_eq =>
    intro q hq
    rw [hkids, h.children_eq ht hq, h.children_eq ht hp]
    rfl
  case stands =>
    refine ⟨Stands.congr x t.size ?_ h.stands, trivial⟩
    intro j hj _
    rcases hnode j with ⟨hk, hval, _⟩
    refine ⟨hk, hval, ?_⟩
    rw [hkids, if_neg (Nat.ne_of_gt (Nat.lt_of_lt_of_le hp hj))]

/-! ## What a graft leaves as it was -/

namespace Grafted

/-- No older node gets another left neighbour, and only the last child of the parent gets a right
one. -/
theorem neighbours_eq (ht : t.Sound) (hp : p < t.size) (h : Grafted t p f u) {y : NodeId}
    (hy : y < t.size) : (u.node y).left = (t.node y).left ∧
      ((t.node p).last ≠ some y → (u.node y).right = (t.node y).right) := by
  have hu := h.wellFormed.sound
  have hy' : y < u.size := h.size_eq ▸ Nat.lt_add_right _ hy
  have hparent := (h.content_eq y hy).2.2
  cases hq : (t.node y).parent with
  | none =>
    rw [hq] at hparent
    rcases ht.laidOut.roots y hy hq with ⟨hl, hr⟩
    rcases hu.laidOut.roots y hy' hparent with ⟨hl', hr'⟩
    rw [hl, hr, hl', hr']
    exact ⟨rfl, fun _ => rfl⟩
  | some q =>
    rcases List.append_of_mem (ht.mem_children_iff.mpr hq) with ⟨ls, rs, hlr⟩
    rcases ht.laidOut.place q ls y rs hlr with ⟨_, _, hl, hr⟩
    have hkids := h.children_eq q (ht.parent_lt hq).2
    rw [hl, hr]
    by_cases hqp : q = p
    · rw [if_pos hqp, ← hqp, hlr, List.append_assoc, List.cons_append] at hkids
      rcases hu.laidOut.place q ls y _ hkids with ⟨_, _, hl', hr'⟩
      refine ⟨hl', fun hne => ?_⟩
      -- it is not the last one, so its right neighbour stays
      cases rs with
      | nil =>
        rw [(ht.laidOut.ends p hp).2.1, ← hqp, hlr, List.getLast?_concat] at hne
        exact absurd rfl hne
      | cons z rs => exact hr'
    · rw [if_neg hqp, hlr] at hkids
      rcases hu.laidOut.place q ls y rs hkids with ⟨_, _, hl', hr'⟩
      exact ⟨hl', fun _ => hr'⟩

theorem ends_eq (ht : t.Sound) (h : Grafted t p f u) {y : NodeId} (hy : y < t.size)
    (hne : y ≠ p) : (u.node y).first = (t.node y).first ∧ (u.node y).last = (t.node y).last ∧
      (u.node y).count = (t.node y).count := by
  have hy' : y < u.size := h.size_eq ▸ Nat.lt_add_right _ hy
  have hkids : u.children y = t.children y := by rw [h.children_eq y hy, if_neg hne]
  exact h.wellFormed.sound.laidOut.ends_congr ht.laidOut hy' hy hkids

end Grafted

/-- Nothing of `t` differs in `u` but where the children of `p` end. -/
structure SparesBut (t : Tree) (p : NodeId) (u : Tree) : Prop where
  parent : u.node p = { t.node p with
    first := (u.node p).first, last := (u.node p).last, count := (u.node p).count }
  last_child : ∀ l, (t.node p).last = some l →
    u.node l = { t.node l with right := (u.node l).right }
  others : ∀ y < t.size, y ≠ p → (t.node p).last ≠ some y → u.node y = t.node y

namespace Grafted

theorem sparesBut (ht : t.Sound) (hp : p < t.size) (h : Grafted t p f u) : SparesBut t p u := by
  have hmem : ∀ {l}, (t.node p).last = some l → l ∈ t.children p :=
    fun hl => ht.laidOut.last_mem hp hl
  -- a node is not among its own children
  have hne : ∀ {l}, (t.node p).last = some l → l ≠ p :=
    fun hl => ht.ne_of_under_child (hmem hl) (.refl _)
  constructor
  case parent =>
    rcases h.content_eq p hp with ⟨hk, hv, hq⟩
    rcases h.neighbours_eq ht hp hp with ⟨hl, hr⟩
    exact Node.ext hk hv hq hl (hr fun he => hne he rfl) rfl rfl rfl
  case last_child =>
    intro l hlast
    have hlt := ht.laidOut.lt_of_mem (hmem hlast)
    rcases h.content_eq l hlt with ⟨hk, hv, hq⟩
    rcases h.ends_eq ht hlt (hne hlast) with ⟨hf, hl, hn⟩
    exact Node.ext hk hv hq (h.neighbours_eq ht hp hlt).1 rfl hf hl hn
  case others =>
    intro y hy hyp hlast
    rcases h.content_eq y hy with ⟨hk, hv, hq⟩
    rcases h.neighbours_eq ht hp hy with ⟨hl, hr⟩
    rcases h.ends_eq ht hy hyp with ⟨hf, hla, hn⟩
    exact Node.ext hk hv hq hl (hr hlast) hf hla hn

/-! ## Gathering a forest under a new node -/

variable {kind : Kind} {value : String}

/-- A new root with a forest under it is a subtree that stands alone. -/
theorem planted (ht : t.Sound) (h : Grafted (t.makeRoot kind value).2 t.size f u) :
    Planted t (.node kind value f) u := by
  have hroot := planted_makeRoot ht kind value
  have ht1 := hroot.wellFormed.sound
  have hlt : t.size < (t.makeRoot kind value).2.size := size_makeRoot ▸ Nat.lt_succ_self t.size
  rcases hroot.stands with ⟨hk, hv, hc, _⟩
  rcases h.content_eq t.size hlt with ⟨hk', hv', hq'⟩
  constructor
  case wellFormed => exact h.wellFormed
  case size_eq => rw [h.size_eq, size_makeRoot, Shape.size, Nat.add_assoc, Nat.add_comm 1]
  case node_eq =>
    intro j hj
    have hnone : ((t.makeRoot kind value).2.node t.size).last = none := by
      rw [(ht1.laidOut.ends t.size hlt).2.1, hc]
      rfl
    have hj' : j < (t.makeRoot kind value).2.size := Nat.lt_trans hj hlt
    rw [(h.sparesBut ht1 hlt).others j hj' (Nat.ne_of_lt hj) (by rw [hnone]; exact nofun),
      hroot.node_eq j hj]
  case root => rw [hq', hroot.root]
  case stands =>
    have hstands := h.stands
    rw [size_makeRoot] at hstands
    refine ⟨hk'.trans hk, hv'.trans hv, ?_, hstands⟩
    rw [h.children_eq t.size hlt, if_pos rfl, hc, size_makeRoot]
    rfl

theorem count_eq (h : Grafted t p f u) (hp : p < t.size) (hnone : t.children p = []) :
    (u.node p).count = f.length := by
  have hp' : p < u.size := h.size_eq ▸ Nat.lt_add_right _ hp
  rw [h.wellFormed.sound.count_eq hp', h.children_eq p hp, if_pos rfl, hnone, List.nil_append,
    length_rootsFrom]

end Grafted

end Tree

end PegKit
