import PegKit.Proofs.Tree.Planting
import PegKit.Proofs.Tree.Subtree

/-! # Documents as a whole

A document is inserted as a whole or not at all.

* `Document.HasBoth`: some node of a document, at any level, has both a value and a list of nodes.
  `Document.shape?_eq_none_iff`: the other documents are the ones with a shape.
* `Tree.Represents`: a node and what is below it are what a document describes.
* `WellFormed.insertWhole_all_or_nothing`: when a document is refused, and what is in the tree
  afterwards.
-/

namespace PegKit

namespace Document

/-! ## Refused documents -/

/-- Some node of the document has both a value and a list of nodes, even an empty one. -/
inductive HasBoth : Document → Prop
  | root {kind : Kind} {value : String} {nodes : List Document} :
      HasBoth ⟨kind, some value, some nodes⟩
  | deeper {kind : Kind} {value : Option String} {nodes : List Document} {d : Document}
      (hd : d ∈ nodes) (h : HasBoth d) : HasBoth ⟨kind, value, some nodes⟩

mutual

theorem shape?_eq_none_iff (doc : Document) : doc.shape? = none ↔ doc.HasBoth := by
  match doc with
  | ⟨_, some _, some _⟩ => exact iff_of_true rfl .root
  | ⟨_, some _, none⟩ => exact iff_of_false nofun nofun
  | ⟨_, none, none⟩ => exact iff_of_false nofun nofun
  | ⟨kind, none, some nodes⟩ =>
    rw [shape?, Option.map_eq_none_iff, shapes?_eq_none_iff nodes]
    constructor
    · rintro ⟨d, hd, h⟩
      exact .deeper hd h
    · rintro (_ | ⟨hd, h⟩)
      exact ⟨_, hd, h⟩

theorem shapes?_eq_none_iff (ds : List Document) :
    shapes? ds = none ↔ ∃ d ∈ ds, d.HasBoth := by
  match ds with
  | [] => exact iff_of_false nofun nofun
  | d :: ds =>
    rw [shapes?, Option.bind_eq_none_iff, List.exists_mem_cons_iff, ← shape?_eq_none_iff d,
      ← shapes?_eq_none_iff ds]
    cases d.shape? <;> simp

end

mutual

/-- A shape has as many nodes as its document. -/
theorem size_of_shape (doc : Document) {x : Shape} (h : doc.shape? = some x) :
    x.size = doc.size := by
  match doc with
  | ⟨_, some _, none⟩ =>
    cases h
    rfl
  | ⟨_, none, none⟩ =>
    cases h
    rfl
  | ⟨_, none, some nodes⟩ =>
    obtain ⟨f, hf, rfl⟩ := Option.map_eq_some_iff.mp h
    rw [Shape.size, size, sizes_of_shapes nodes hf, Nat.add_comm]

theorem sizes_of_shapes (ds : List Document) {f : List Shape} (h : shapes? ds = some f) :
    Shape.sizes f = sizes ds := by
  match ds with
  | [] =>
    cases h
    rfl
  | d :: ds =>
    obtain ⟨x, hx, hds⟩ := Option.bind_eq_some_iff.mp h
    obtain ⟨f, hf, rfl⟩ := Option.map_eq_some_iff.mp hds
    rw [Shape.sizes, sizes, size_of_shape d hx, sizes_of_shapes ds hf]

end

end Document

namespace Tree

variable {t u : Tree} {id : NodeId}

/-! ## Inserted documents -/

/-- The node has the kind and the value of the document, and its children are the nodes of the
document's list, one by one. A value or a list that is not there is empty. -/
inductive Represents (t : Tree) : NodeId → Document → Prop
  | intro {id : NodeId} {kind : Kind} {value : Option String} {nodes : Option (List Document)}
      (kind_eq : (t.node id).kind = kind) (value_eq : (t.node id).value = value.getD "")
      (children : List.Forall₂ (Represents t) (t.children id) (nodes.getD [])) :
      Represents t id ⟨kind, value, nodes⟩

mutual

/-- Where the shape of a document stands, there is the document. -/
theorem Stands.represents (doc : Document) {x : Shape} {n : NodeId} (hd : doc.shape? = some x)
    (hx : t.Stands n x) : t.Represents n doc := by
  match doc with
  | ⟨_, some _, none⟩ =>
    cases hd
    exact ⟨hx.1, hx.2.1, hx.2.2.1 ▸ .nil⟩
  | ⟨_, none, none⟩ =>
    cases hd
    exact ⟨hx.1, hx.2.1, hx.2.2.1 ▸ .nil⟩
  | ⟨_, none, some nodes⟩ =>
    obtain ⟨f, hf, rfl⟩ := Option.map_eq_some_iff.mp hd
    rcases hx with ⟨hkind, hvalue, hchildren, hnodes⟩
    exact ⟨hkind, hvalue, hchildren ▸ StandEach.represents nodes hf hnodes⟩

theorem StandEach.represents (ds : List Document) {f : List Shape} {n : NodeId}
    (hd : Document.shapes? ds = some f) (hf : t.StandEach n f) :
    List.Forall₂ t.Represents (Shape.rootsFrom n f) ds := by
  match ds with
  | [] =>
    cases hd
    exact .nil
  | d :: ds =>
    obtain ⟨x, hx, hds⟩ := Option.bind_eq_some_iff.mp hd
    obtain ⟨f, hf', rfl⟩ := Option.map_eq_some_iff.mp hds
    exact .cons (Stands.represents d hx hf.1) (StandEach.represents ds hf' hf.2)

end

/-- Makes the nodes of a document and returns its root, which is a root of the tree. On an error the
tree is as it was. -/
def insertWhole (t : Tree) (doc : Document) : Except TreeError NodeId × Tree :=
  match t.insertDocument doc with
  | (.ok root, u) => (.ok root, u)
  | (.error e, u) => (.error e, u.rollback t.checkpoint)

/-- A text is decoded as a whole, and then inserted as a whole. -/
theorem insertJson_eq_insertWhole (text : String) : t.insertJson text =
    match Document.read? text with
    | none => (.error .json, t)
    | some doc => t.insertWhole doc := by
  unfold insertJson insertWhole
  cases Document.read? text <;> rfl

namespace Sound

/-- Whatever is made of a document before it is refused is undone, link by link. -/
theorem insertWhole_of_hasBoth (h : t.Sound) {doc : Document} (hd : doc.HasBoth) :
    t.insertWhole doc = (.error .valueAndNodes, t) := by
  have herr := h.insertDocument_eq_error ((Document.shape?_eq_none_iff doc).mpr hd)
  have hspares := insertDocument_spares h h.apart (Nat.le_refl _) doc
  have hback := (hspares.extends h (h.insertDocument doc)).rollback_eq h
  unfold insertWhole
  generalize t.insertDocument doc = out at herr hback
  rcases out with ⟨outcome, u⟩
  cases herr
  exact congrArg _ hback

/-- A document without fault is planted. -/
theorem insertWhole_of_not_hasBoth (h : t.Sound) {doc : Document} (hd : ¬ doc.HasBoth) :
    ∃ x u, doc.shape? = some x ∧ t.insertWhole doc = (.ok t.size, u) ∧ Planted t x u := by
  obtain ⟨x, hx⟩ := Option.ne_none_iff_exists'.mp (mt (Document.shape?_eq_none_iff doc).mp hd)
  rcases h.insertDocument_eq_ok hx with ⟨u, hu, hp⟩
  refine ⟨x, u, hx, ?_, hp⟩
  rw [insertWhole, hu]

end Sound

/-- In a well-formed tree a document is refused exactly if some node of it has both a value and a
list of nodes, and then the tree stays as it was. Every other document makes one node for each of its
own, numbered in preorder behind the older nodes, which stay as they were. They make up a tree that
stands alone and is what the document describes. -/
theorem WellFormed.insertWhole_all_or_nothing (h : t.WellFormed) (doc : Document) :
    ((t.insertWhole doc).1 = .error .valueAndNodes ↔ doc.HasBoth) ∧
      (doc.HasBoth → (t.insertWhole doc).2 = t) ∧
      (¬ doc.HasBoth → ∃ u, t.insertWhole doc = (.ok t.size, u) ∧ u.WellFormed ∧
        (∀ j < t.size, u.node j = t.node j) ∧ u.size = t.size + doc.size ∧
        u.preorder t.size = List.range' t.size doc.size ∧ (u.node t.size).parent = none ∧
        u.Represents t.size doc) ∧
      ∀ text, Document.read? text = some doc → t.insertJson text = t.insertWhole doc := by
  have hs := h.sound
  refine ⟨⟨fun herr => ?_, fun hd => ?_⟩, fun hd => ?_, fun hd => ?_, fun text hread => ?_⟩
  · refine Classical.byContradiction fun hd => ?_
    rcases hs.insertWhole_of_not_hasBoth hd with ⟨x, u, _, hu, _⟩
    rw [hu] at herr
    cases herr
  · rw [hs.insertWhole_of_hasBoth hd]
  · rw [hs.insertWhole_of_hasBoth hd]
  · rcases hs.insertWhole_of_not_hasBoth hd with ⟨x, u, hx, hu, hp⟩
    have hsize := Document.size_of_shape doc hx
    have hpre := hp.wellFormed.sound.preorder_of_stands hp.stands
      (hp.size_eq ▸ Nat.le_add_left x.size t.size)
    refine ⟨u, hu, hp.wellFormed, hp.node_eq, ?_, ?_, hp.root, hp.stands.represents doc hx⟩
    · rw [hp.size_eq, hsize]
    · rw [hpre, hsize]
  · rw [insertJson_eq_insertWhole, hread]

/-- An empty list beside the value of the last of four nodes: the three nodes before it are made and
undone. Without the list all four stay, behind the node that was there. -/
theorem insertWhole_all_or_nothing_late :
    let t := (Call.makeRoot 5 "x").run {}
    let first : Document := ⟨2, none, some [⟨3, none, none⟩]⟩
    let refused : Document := ⟨1, none, some [first, ⟨4, some "y", some []⟩]⟩
    let accepted : Document := ⟨1, none, some [first, ⟨4, some "y", none⟩]⟩
    t.WellFormed ∧ refused.HasBoth ∧ (t.insertDocument refused).2.size = 4 ∧
      (t.insertWhole refused).1 = .error .valueAndNodes ∧ (t.insertWhole refused).2 = t ∧
      ¬ accepted.HasBoth ∧ ∃ u, t.insertWhole accepted = (.ok 1, u) ∧
        u.node 0 = { kind := 5, value := "x" } ∧ u.size = 5 ∧ u.preorder 1 = [1, 2, 3, 4] ∧
        u.Represents 1 accepted := by
  intro t first refused accepted
  have ht : Reachable t := Reachable.empty.call (.makeRoot 5 "x") (by decide)
  have hw := ht.sound.wellFormed
  have hboth : refused.HasBoth := .deeper (List.mem_cons_of_mem _ List.mem_cons_self) .root
  have hnone : ¬ accepted.HasBoth := fun h => nomatch (Document.shape?_eq_none_iff _).mpr h
  rcases hw.insertWhole_all_or_nothing refused with ⟨hiff, hundone, _⟩
  rcases hw.insertWhole_all_or_nothing accepted with ⟨_, _, hmade, _⟩
  rcases hmade hnone with ⟨u, hu, _, hold, hsize, hpre, _, hrep⟩
  exact ⟨hw, hboth, by decide +kernel, hiff.mpr hboth, hundone hboth, hnone, u, hu,
    hold 0 (by decide), hsize, hpre, hrep⟩

end Tree

end PegKit
