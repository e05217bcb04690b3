import PegKit.Proofs.Tree.Insertion
import PegKit.Proofs.Tree.Shape

/-! # Planted documents

`Document.shape?` is the shape that a document describes, unless some node of it has both a value
and a list of nodes.

* `Grafted.nest`: a forest under a node that was just linked is part of the tree of that node.
* `Sound.insertPending_plants`: a pending document with a shape is grafted as it is taken up.
* `Sound.insertDocument_eq_ok`, `Sound.insertDocument_eq_error`: the subtree of a whole document is
  planted, or the document is refused for having no shape.
-/

namespace PegKit

namespace Document

mutual

/-- The shape of a document, if no node has both a value and a list of nodes. -/
def shape? : Document → Option Shape
  | ⟨_, some _, some _⟩ => none
  | ⟨kind, value, none⟩ => some (.node kind (value.getD "") [])
  | ⟨kind, none, some nodes⟩ => (shapes? nodes).map (.node kind "")

/-- The shapes of several documents, if all have one. -/
def shapes? : List Document → Option (List Shape)
  | [] => some []
  | d :: ds => d.shape?.bind fun x => (shapes? ds).map (x :: ·)

end

/-- A document with a shape is accepted, and its shape is made of its parts. -/
theorem parts_of_shape {doc : Document} {kind : Kind} {value : String} {f : List Shape}
    (h : doc.shape? = some (.node kind value f)) : ∃ nodes, doc.parts = .ok (kind, value, nodes) ∧
      shapes? nodes = some f ∧ (f ≠ [] → value = "") := by
  rcases doc with ⟨k, _ | v, _ | nodes⟩
  · cases h
    exact ⟨[], rfl, rfl, fun _ => rfl⟩
  · obtain ⟨g, hg, he⟩ := Option.map_eq_some_iff.mp h
    cases he
    exact ⟨nodes, rfl, hg, fun _ => rfl⟩
  · cases h
    exact ⟨[], rfl, rfl, fun hf => absurd rfl hf⟩
  · cases h

end Document

open Shape

namespace Tree

variable {t u : Tree} {p : NodeId} {kind : Kind} {value : String} {f : List Shape}

/-! ## Grafting node by node -/

/-- A new node is grafted as a leaf. -/
theorem grafted_linkNew (h : t.Sound) (hp : p < t.size) (hv : (t.node p).value = "") :
    Grafted t p [.node kind value []] ((t.makeRoot kind value).2.linkUnder p t.size) := by
  rcases (planted_makeRoot h kind value).graft h hp hv with ⟨v, he, hg⟩
  rw [(attach_eq_ok he).2] at hg
  exact hg

/-- A forest under the leaf that was just grafted makes it the root of a tree. -/
theorem Grafted.nest (hl : Grafted t p [.node kind value []] u) {v : Tree}
    (hf : Grafted u t.size f v) : Grafted t p [.node kind value f] v := by
  have hsize : u.size = t.size + 1 := hl.size_eq
  have hlt : ∀ {x : NodeId}, x < t.size → x < u.size :=
    fun hx => hsize ▸ Nat.lt_succ_of_lt hx
  have hroot : t.size < u.size := hsize ▸ Nat.lt_succ_self _
  constructor
  case wellFormed => exact hf.wellFormed
  case size_eq =>
    rw [hf.size_eq, hsize]
    simp only [sizes, Shape.size]
    omega
  case content_eq =>
    intro x hx
    rcases hl.content_eq x hx with ⟨hk, hv, hq⟩
    rcases hf.content_eq x (hlt hx) with ⟨hk', hv', hq'⟩
    exact ⟨hk'.trans hk, hv'.trans hv, hq'.trans hq⟩
  case children_eq =>
    intro x hx
    rw [hf.children_eq x (hlt hx), if_neg (Nat.ne_of_lt hx), hl.children_eq x hx]
    rfl
  case stands =>
    rcases hl.stands with ⟨⟨hk, hv, hc, _⟩, _⟩
    rcases hf.content_eq t.size hroot with ⟨hk', hv', _⟩
    refine ⟨⟨hk'.trans hk, hv'.trans hv, ?_, hsize ▸ hf.stands⟩, trivial⟩
    rw [hf.children_eq t.size hroot, if_pos rfl, hc, hsize]
    rfl

/-! ## Pending documents -/

theorem insertPending_cons {fuel : Nat} {doc : Document} {pending : List (Document × NodeId)}
    {nodes : List Document} (hd : doc.parts = .ok (kind, value, nodes)) :
    insertPending (fuel + 1) ((doc, p) :: pending) t =
      insertPending fuel (nodes.map (·, t.size) ++ pending)
        ((t.makeRoot kind value).2.linkUnder p t.size) := by
  rw [insertPending, hd]
  rfl

namespace Sound

mutual

/-- A pending document with a shape is grafted under the node that it waits for. -/
theorem insertPending_plants (x : Shape) (doc : Document) (hd : doc.shape? = some x) {t : Tree}
    {p : NodeId} (h : t.Sound) (hp : p < t.size) (hv : (t.node p).value = "") :
    ∃ u, Grafted t p [x] u ∧ ∀ fuel pending, insertPending (fuel + doc.size)
      ((doc, p) :: pending) t = insertPending fuel pending u := by
  match x with
  | .node kind value f =>
    rcases Document.parts_of_shape hd with ⟨nodes, hparts, hf, hvalue⟩
    have hlink : Grafted t p [.node kind value []] _ := grafted_linkNew h hp hv
    have hroot : t.size < ((t.makeRoot kind value).2.linkUnder p t.size).size :=
      size_linkNew ▸ Nat.lt_succ_self _
    have hstep : ∀ fuel pending, insertPending (fuel + doc.size) ((doc, p) :: pending) t =
        insertPending (fuel + Document.sizes nodes) (nodes.map (·, t.size) ++ pending)
          ((t.makeRoot kind value).2.linkUnder p t.size) := by
      intro fuel pending
      rw [Document.size_of_parts hparts, Nat.add_comm 1, ← Nat.add_assoc, insertPending_cons hparts]
    have hleaf : f ≠ [] →
        (((t.makeRoot kind value).2.linkUnder p t.size).node t.size).value = "" := by
      intro hne
      rw [value_linkNew h hp, if_pos rfl, hvalue hne]
    rcases Sound.insertPending_plantsEach f nodes hf hlink.wellFormed.sound hroot hleaf with
      ⟨u, hu, hrun⟩
    exact ⟨u, hlink.nest hu, fun fuel pending => (hstep fuel pending).trans (hrun fuel pending)⟩

theorem insertPending_plantsEach (f : List Shape) (ds : List Document)
    (hd : Document.shapes? ds = some f) {t : Tree} {p : NodeId} (h : t.Sound) (hp : p < t.size)
    (hv : f ≠ [] → (t.node p).value = "") :
    ∃ u, Grafted t p f u ∧ ∀ fuel pending, insertPending (fuel + Document.sizes ds)
      (ds.map (·, p) ++ pending) t = insertPending fuel pending u := by
  match f, ds with
  | f, [] =>
    cases hd
    exact ⟨t, .refl h p, fun _ _ => rfl⟩
  | [], d :: ds =>
    obtain ⟨x, _, hx⟩ := Option.bind_eq_some_iff.mp hd
    obtain ⟨f, _, he⟩ := Option.map_eq_some_iff.mp hx
    cases he
  | x :: f, d :: ds =>
    obtain ⟨x', hx, hf⟩ := Option.bind_eq_some_iff.mp hd
    obtain ⟨f', hf, he⟩ := Option.map_eq_some_iff.mp hf
    cases he
    have hv := hv (List.cons_ne_nil x f)
    rcases Sound.insertPending_plants x d hx h hp hv with ⟨u, hu, hrun⟩
    have hp' : p < u.size := hu.size_eq ▸ Nat.lt_add_right _ hp
    have hv' : (u.node p).value = "" := (hu.content_eq p hp).2.1.trans hv
    rcases Sound.insertPending_plantsEach f ds hf hu.wellFormed.sound hp' fun _ => hv' with
      ⟨v, hw, hrun'⟩
    refine ⟨v, hu.trans hp hw, fun fuel pending => ?_⟩
    rw [Document.add_sizes_cons, List.map_cons, List.cons_append, hrun, hrun']

end

mutual

/-- A pending document without a shape stops the insertion. -/
theorem insertPending_refuses (doc : Document) (hd : doc.shape? = none) {t : Tree} {p : NodeId}
    (h : t.Sound) (hp : p < t.size) (hv : (t.node p).value = "") (fuel : Nat)
    (pending : List (Document × NodeId)) :
    (insertPending (fuel + doc.size) ((doc, p) :: pending) t).1 = .error .valueAndNodes := by
  match doc with
  | ⟨_, some _, none⟩ => cases hd
  | ⟨_, none, none⟩ => cases hd
  | ⟨kind, some value, some nodes⟩ =>
    rw [Document.size, Nat.add_comm 1, ← Nat.add_assoc, insertPending]
    rfl
  | ⟨kind, none, some nodes⟩ =>
    have hnodes : Document.shapes? nodes = none := Option.map_eq_none_iff.mp hd
    have hparts : Document.parts ⟨kind, none, some nodes⟩ = .ok (kind, "", nodes) := rfl
    rw [Document.size_of_parts hparts, Nat.add_comm 1, ← Nat.add_assoc, insertPending_cons hparts]
    refine Sound.insertPending_refusesEach nodes hnodes (grafted_linkNew h hp hv).wellFormed.sound
      (size_linkNew ▸ Nat.lt_succ_self _) ?_ fuel pending
    rw [value_linkNew h hp, if_pos rfl]

theorem insertPending_refusesEach (ds : List Document) (hd : Document.shapes? ds = none) {t : Tree}
    {p : NodeId} (h : t.Sound) (hp : p < t.size) (hv : (t.node p).value = "") (fuel : Nat)
    (pending : List (Document × NodeId)) :
    (insertPending (fuel + Document.sizes ds) (ds.map (·, p) ++ pending) t).1 =
      .error .valueAndNodes := by
  match ds with
  | [] => cases hd
  | d :: ds =>
    rw [Document.add_sizes_cons, List.map_cons, List.cons_append]
    cases hx : d.shape? with
    | none => exact Sound.insertPending_refuses d hx h hp hv _ _
    | some x =>
      rcases Sound.insertPending_plants x d hx h hp hv with ⟨u, hu, hrun⟩
      have hds : Document.shapes? ds = none := by
        rw [Document.shapes?, hx] at hd
        exact Option.map_eq_none_iff.mp hd
      rw [hrun]
      exact Sound.insertPending_refusesEach ds hds hu.wellFormed.sound
        (hu.size_eq ▸ Nat.lt_add_right _ hp) ((hu.content_eq p hp).2.1.trans hv) fuel pending

end

/-! ## Whole documents -/

/-- A document with a shape is planted. -/
theorem insertDocument_eq_ok (h : t.Sound) {doc : Document} {x : Shape} (hd : doc.shape? = some x) :
    ∃ u, t.insertDocument doc = (.ok t.size, u) ∧ Planted t x u := by
  rcases x with ⟨kind, value, f⟩
  rcases Document.parts_of_shape hd with ⟨nodes, hparts, hf, hvalue⟩
  have hroot := h.makeRoot kind value
  have hleaf : f ≠ [] → ((t.makeRoot kind value).2.node t.size).value = "" := by
    intro hne
    rw [node_makeRoot, if_pos rfl, hvalue hne]
  rcases insertPending_plantsEach f nodes hf hroot (size_makeRoot ▸ Nat.lt_succ_self _) hleaf with
    ⟨u, hu, hrun⟩
  have hall := hrun 1 []
  rw [List.append_nil] at hall
  refine ⟨u, ?_, hu.planted h⟩
  rw [insertDocument_eq hparts, Document.size_of_parts hparts, hall]
  rfl

/-- A document without a shape is refused. -/
theorem insertDocument_eq_error (h : t.Sound) {doc : Document} (hd : doc.shape? = none) :
    (t.insertDocument doc).1 = .error .valueAndNodes := by
  match doc with
  | ⟨_, some _, none⟩ => cases hd
  | ⟨_, none, none⟩ => cases hd
  | ⟨kind, some value, some nodes⟩ => rfl
  | ⟨kind, none, some nodes⟩ =>
    have hnodes : Document.shapes? nodes = none := Option.map_eq_none_iff.mp hd
    have hparts : Document.parts ⟨kind, none, some nodes⟩ = .ok (kind, "", nodes) := rfl
    have hleaf : ((t.makeRoot kind "").2.node t.size).value = "" := by
      rw [node_makeRoot, if_pos rfl]
    have hall := insertPending_refusesEach nodes hnodes (h.makeRoot kind "")
      (size_makeRoot ▸ Nat.lt_succ_self _) hleaf 1 []
    rw [List.append_nil] at hall
    rw [insertDocument_eq hparts, Document.size]
    show (Except.map _ (insertPending _ _ _).1) = _
    rw [hall]
    rfl

end Sound

end Tree

end PegKit
