import Mathlib.Data.Finset.Card
import Mathlib.Data.Finset.Filter
import Mathlib.Data.List.Induction
import PegKit.Proofs.Tree.Guarded

/-! # Well-formed trees

What the links of a tree promise to who reads them, in terms of the links alone.

* `Tree.Siblings`: the children of one node, chained in both directions between `first` and `last`.
* `Tree.WellFormed`: every link is inside the arena, every node has its children, roots stand alone,
  no node is above itself, and a node with a value has no child.
* `Sound.wellFormed` and `WellFormed.sound`: it is the invariant in other words.
* `Reachable.wellFormed_and_faultless`: so no run of calls leaves a tree without it, and no call
  after it has a fault.
-/

namespace PegKit

/-- The nodes that the links of a node lead to. -/
def Node.links (n : Node) : List NodeId :=
  n.parent.toList ++ n.left.toList ++ n.right.toList ++ n.first.toList ++ n.last.toList

namespace Tree

/-- The children of `p`, first to last. -/
structure Siblings (t : Tree) (p : NodeId) (kids : List NodeId) : Prop where
  /-- The chain along `right` meets them and ends. -/
  forth : t.Chain Node.right (t.node p).first kids
  /-- The chain along `left` meets them in reverse and ends. -/
  back : t.Chain Node.left (t.node p).last kids.reverse
  nodup : kids.Nodup
  last_eq : (t.node p).last = kids.getLast?
  count_eq : (t.node p).count = kids.length
  /-- They are the nodes that have `p` as their parent. -/
  mem_iff : ∀ c, c ∈ kids ↔ c < t.size ∧ (t.node c).parent = some p
  /-- Going left undoes going right. -/
  inverse : ∀ a ∈ kids, ∀ b ∈ kids, (t.node a).right = some b ↔ (t.node b).left = some a

/-- What a reader of the links may rely on. -/
structure WellFormed (t : Tree) : Prop where
  inside : ∀ id < t.size, ∀ l ∈ (t.node id).links, l < t.size
  siblings : ∀ id < t.size, ∃ kids, t.Siblings id kids
  roots : ∀ id < t.size, (t.node id).parent = none →
    (t.node id).left = none ∧ (t.node id).right = none
  acyclic : ∀ x p, (t.node x).parent = some p → ¬ t.Under p x
  plain : ∀ id < t.size, (t.node id).value ≠ "" → ∀ c < t.size, (t.node c).parent ≠ some id

/-! ## Chains of children -/

namespace LaidOut

variable {t : Tree} {kids : NodeId → List NodeId} {p : NodeId}

/-- The chain along `left` lists the children that are passed on the way back. -/
theorem chain_left (h : t.LaidOut kids) {l r : List NodeId} (hlr : kids p = l ++ r) :
    t.Chain Node.left l.getLast? l.reverse := by
  -- from the end of what is passed, as the chain goes
  induction l using List.reverseRecOn generalizing r with
  | nil => rfl
  | append_singleton l c ih =>
    have hlr' : kids p = l ++ c :: r := by rw [hlr, List.append_assoc, List.singleton_append]
    rcases h.place p l c r hlr' with ⟨_, _, hleft, _⟩
    rw [List.getLast?_concat, List.reverse_concat]
    refine ⟨rfl, ?_⟩
    rw [hleft]
    exact ih hlr'

/-- Two children are neighbours in both directions or in none. -/
theorem right_eq_iff (h : t.LaidOut kids) {a b : NodeId} (ha : a ∈ kids p) (hb : b ∈ kids p) :
    (t.node a).right = some b ↔ (t.node b).left = some a := by
  constructor
  · intro hab
    rcases List.append_of_mem ha with ⟨l, r, hlr⟩
    rcases h.place p l a r hlr with ⟨_, _, _, hright⟩
    rcases List.head?_eq_some_iff.mp (hright.symm.trans hab) with ⟨r', rfl⟩
    have hlr' : kids p = (l ++ [a]) ++ b :: r' := by
      rw [hlr, List.append_assoc, List.singleton_append]
    rcases h.place p (l ++ [a]) b r' hlr' with ⟨_, _, hleft, _⟩
    rw [hleft, List.getLast?_concat]
  · intro hba
    rcases List.append_of_mem hb with ⟨l, r, hlr⟩
    rcases h.place p l b r hlr with ⟨_, _, hleft, _⟩
    rcases List.getLast?_eq_some_iff.mp (hleft.symm.trans hba) with ⟨l', rfl⟩
    have hlr' : kids p = l' ++ a :: (b :: r) := by
      rw [hlr, List.append_assoc, List.singleton_append]
    rcases h.place p l' a (b :: r) hlr' with ⟨_, _, _, hright⟩
    rw [hright, List.head?_cons]

theorem siblings (h : t.LaidOut kids) (hp : p < t.size) : t.Siblings p (kids p) := by
  rcases h.ends p hp with ⟨hfirst, hlast, hcount⟩
  constructor
  case forth =>
    rw [hfirst]
    exact h.chain (l := []) rfl
  case back =>
    rw [hlast]
    exact h.chain_left (r := []) (List.append_nil _).symm
  case nodup => exact h.nodup p
  case last_eq => exact hlast
  case count_eq => exact hcount
  case mem_iff =>
    intro c
    exact h.mem_iff
  case inverse =>
    intro a ha b hb
    exact h.right_eq_iff ha hb

/-- Links lead to a parent, to a neighbour or to a child, and these are in the tree. -/
theorem links_lt (h : t.LaidOut kids) (hp : p < t.size) {l : NodeId}
    (hl : l ∈ (t.node p).links) : l < t.size := by
  rcases h.neighbours_lt hp with ⟨hleft, hright⟩
  simp only [Node.links, List.mem_append, Option.mem_toList] at hl
  rcases hl with (((hl | hl) | hl) | hl) | hl
  · exact h.parent_lt hp hl
  · exact hleft l hl
  · exact hright l hl
  · rw [h.first_eq] at hl
    exact h.lt_of_mem (List.mem_of_head? hl)
  · exact h.lt_of_mem (h.last_mem hp hl)

end LaidOut

/-! ## The invariant -/

theorem Sound.wellFormed {t : Tree} (h : t.Sound) : t.WellFormed := by
  constructor
  case inside =>
    intro id hid l hl
    exact h.laidOut.links_lt hid hl
  case siblings =>
    intro id hid
    exact ⟨t.children id, h.laidOut.siblings hid⟩
  case roots => exact h.laidOut.roots
  case acyclic =>
    intro x p hp
    exact h.acyclic hp
  case plain =>
    intro id hid hv c hc hp
    have hmem : c ∈ t.children id := h.mem_children_iff.mpr hp
    rw [h.plain id hv] at hmem
    cases hmem

theorem Chain.head?_eq {t : Tree} {link : Node → Option NodeId} {start : Option NodeId}
    {ids : List NodeId} (h : t.Chain link start ids) : ids.head? = start := by
  cases ids with
  | nil => exact Eq.symm h
  | cons id ids => exact h.1.symm

/-- Each node of a chain links to the next one. -/
theorem Chain.link_eq {t : Tree} {link : Node → Option NodeId} {start : Option NodeId}
    {l r : List NodeId} {id : NodeId} (h : t.Chain link start (l ++ id :: r)) :
    link (t.node id) = r.head? := by
  induction l generalizing start with
  | nil => exact h.2.head?_eq.symm
  | cons x l ih => exact ih h.2

namespace Siblings

variable {t : Tree} {p c : NodeId} {kids : List NodeId}

theorem children_eq (h : t.Siblings p kids) : t.children p = kids :=
  follow_eq_of_chain h.forth (length_le_of_nodup h.nodup fun c hc => ((h.mem_iff c).mp hc).1)

theorem place (h : t.Siblings p kids) {l r : List NodeId} (hlr : kids = l ++ c :: r) :
    c < t.size ∧ (t.node c).parent = some p ∧ (t.node c).left = l.getLast? ∧
      (t.node c).right = r.head? := by
  subst hlr
  rcases (h.mem_iff c).mp List.mem_append_cons_self with ⟨hc, hp⟩
  have hback := h.back
  rw [List.reverse_append, List.reverse_cons, List.append_assoc, List.singleton_append] at hback
  refine ⟨hc, hp, ?_, h.forth.link_eq⟩
  rw [hback.link_eq, List.head?_reverse]

end Siblings

namespace WellFormed

variable {t : Tree} {p c : NodeId}

theorem siblings_children (h : t.WellFormed) (hp : p < t.size) : t.Siblings p (t.children p) := by
  rcases h.siblings p hp with ⟨kids, hk⟩
  rwa [hk.children_eq]

theorem lt_of_parent (h : t.WellFormed) (hc : c < t.size) (hp : (t.node c).parent = some p) :
    p < t.size := by
  apply h.inside c hc
  rw [Node.links, hp]
  exact List.mem_append_left _ (by simp)

theorem children_of_le (t : Tree) (hp : t.size ≤ p) : t.children p = [] := by
  rw [children, node_of_le hp]
  cases t.size <;> rfl

theorem laidOut (h : t.WellFormed) : t.LaidOut t.children := by
  constructor
  case ends =>
    intro p hp
    have hs := h.siblings_children hp
    exact ⟨hs.forth.head?_eq.symm, hs.last_eq, hs.count_eq⟩
  case place =>
    intro p l c r hlr
    by_cases hp : p < t.size
    · exact (h.siblings_children hp).place hlr
    · rw [children_of_le t (Nat.le_of_not_lt hp)] at hlr
      simp at hlr
  case roots => exact h.roots
  case owned =>
    intro c hc p hp
    have hlt := h.lt_of_parent hc hp
    exact ⟨hlt, ((h.siblings_children hlt).mem_iff c).mpr ⟨hc, hp⟩⟩
  case nodup =>
    intro p
    by_cases hp : p < t.size
    · exact (h.siblings_children hp).nodup
    · rw [children_of_le t (Nat.le_of_not_lt hp)]
      exact List.nodup_nil
  case dead =>
    intro p hp
    exact children_of_le t hp

/-- The number of nodes at or above a node grows on the way down. -/
theorem exists_ranked (h : t.WellFormed) : ∃ rank, t.Ranked rank := by
  classical
  refine ⟨fun x => ((Finset.range t.size).filter (t.Under x ·)).card, ?_⟩
  intro x p hp
  have hx : x < t.size := by
    apply Nat.lt_of_not_le
    intro hle
    rw [node_of_le hle] at hp
    cases hp
  apply Finset.card_lt_card
  refine (Finset.ssubset_iff_of_subset ?_).mpr ⟨x, ?_, ?_⟩
  · intro a ha
    rw [Finset.mem_filter] at ha ⊢
    exact ⟨ha.1, .step hp ha.2⟩
  · exact Finset.mem_filter.mpr ⟨Finset.mem_range.mpr hx, .refl x⟩
  · intro hmem
    exact h.acyclic x p hp (Finset.mem_filter.mp hmem).2

/-- What a reader may rely on is all that the edits need. -/
theorem sound (h : t.WellFormed) : t.Sound := by
  refine ⟨h.laidOut, h.exists_ranked, ?_⟩
  intro x hv
  by_cases hx : x < t.size
  · apply List.eq_nil_iff_forall_not_mem.mpr
    intro c hc
    rcases ((h.siblings_children hx).mem_iff c).mp hc with ⟨hlt, hp⟩
    exact h.plain x hx hv c hlt hp
  · exact children_of_le t (Nat.le_of_not_lt hx)

end WellFormed

/-! ## Reachable trees -/

/-- Every run of calls, with nodes that the tree has at the time of the call and whether they are
refused or not, leaves a well-formed tree, on which no call with nodes that it has reads or writes
outside of the arena or counts down from zero. -/
theorem Reachable.wellFormed_and_faultless {t : Tree} (h : Reachable t) :
    t.WellFormed ∧ ∀ c : Call, c.Live t → c.guarded t = .ok (c.run t) :=
  ⟨h.sound.wellFormed, fun _ hl => Call.guarded_eq h.sound hl⟩

/-- A node becomes a copy of its own parent, and part of that is rolled back: the node keeps the one
child made before the checkpoint, and it is still no place for what its parent has. -/
theorem wellFormed_rollback_of_become :
    let t := (Call.become 2 0).run ((Call.addChild 2 2 "b").run ((Call.addChild 0 untyped "").run
      ((Call.addChild 0 1 "a").run ((Call.makeRoot untyped "").run {}))))
    let u := (Call.rollback 6).run t
    Reachable u ∧ t.children 2 = [5, 6] ∧ u.children 2 = [5] ∧ u.WellFormed ∧
      (Call.adopt 2 0).Live u ∧ (Call.adopt 2 0).guarded u = .ok u := by
  intro t u
  have h0 := Reachable.empty.call (.makeRoot untyped "") (by decide)
  have h1 := h0.call (.addChild 0 1 "a") (by decide)
  have h2 := h1.call (.addChild 0 untyped "") (by decide)
  have h3 := h2.call (.addChild 2 2 "b") (by decide)
  have h4 := h3.call (.become 2 0) (by decide +kernel)
  have hu : Reachable u := h4.call (.rollback 6) (by decide)
  rcases Reachable.wellFormed_and_faultless hu with ⟨hw, hf⟩
  have hl : (Call.adopt 2 0).Live u := by decide +kernel
  refine ⟨hu, by decide +kernel, by decide +kernel, hw, hl, ?_⟩
  rw [hf (.adopt 2 0) hl]
  decide +kernel

end Tree

end PegKit
