import PegKit.Proofs.Tree.WellFormed
import Mathlib.Data.List.Nodup

/-! # What a rollback leaves

A rollback is the restriction of a tree to its older nodes, and a tree is known by its nodes and
their children.

* `Sound.children_rollback`, `Sound.kind_rollback` and `Sound.value_rollback`: an older node keeps
  its kind, its value and its older children.
* `Sound.eq_of_children`: two trees whose nodes have the same kinds, values and children are one.
* `WellFormed.rollback_restricts`: what is left of a well-formed tree, whatever linked older and
  newer nodes.
-/

namespace PegKit

attribute [ext] Node

namespace Tree

variable {t u : Tree} {c id q : NodeId}

/-! ## Trees known by their children -/

section LaidOut

variable {kids kids' : NodeId → List NodeId} {x : NodeId}

/-- The links of a node to its children are those of its list. -/
theorem LaidOut.ends_congr (h : t.LaidOut kids) (hu : u.LaidOut kids') (hx : x < t.size)
    (hx' : x < u.size) (hk : kids x = kids' x) :
    (t.node x).first = (u.node x).first ∧ (t.node x).last = (u.node x).last ∧
      (t.node x).count = (u.node x).count := by
  rcases h.ends x hx with ⟨hf, hl, hn⟩
  rcases hu.ends x hx' with ⟨hf', hl', hn'⟩
  rw [hf, hl, hn, hf', hl', hn', hk]
  exact ⟨rfl, rfl, rfl⟩

/-- The links of a node to its neighbours are those of the list of its parent. -/
theorem LaidOut.neighbours_congr (h : t.LaidOut kids) (hu : u.LaidOut kids') (hx : x < t.size)
    (hx' : x < u.size) (hp : (t.node x).parent = (u.node x).parent)
    (hk : ∀ q, (t.node x).parent = some q → kids q = kids' q) :
    (t.node x).left = (u.node x).left ∧ (t.node x).right = (u.node x).right := by
  cases hq : (t.node x).parent with
  | none =>
    rw [hq] at hp
    rcases h.roots x hx hq with ⟨hl, hr⟩
    rcases hu.roots x hx' hp.symm with ⟨hl', hr'⟩
    rw [hl, hr, hl', hr']
    exact ⟨rfl, rfl⟩
  | some q =>
    rcases List.append_of_mem (h.owned x hx q hq).2 with ⟨l, r, hlr⟩
    rcases h.place q l x r hlr with ⟨_, _, hl, hr⟩
    rcases hu.place q l x r (hk q hq ▸ hlr) with ⟨_, _, hl', hr'⟩
    rw [hl, hr, hl', hr']
    exact ⟨rfl, rfl⟩

/-- The lists of children say all that the links say. -/
theorem LaidOut.sameLinks (h : t.LaidOut kids) (hu : u.LaidOut kids) (hs : t.size = u.size) :
    t.SameLinks u := by
  refine ⟨hs, ?_⟩
  intro x
  by_cases hx : x < t.size
  · have hx' : x < u.size := hs ▸ hx
    -- the parent is the node whose list has it
    have hp : (t.node x).parent = (u.node x).parent := by
      apply Option.ext
      intro q
      have hq := (and_iff_right hx).symm.trans (h.mem_iff (p := q)).symm
      exact hq.trans (hu.mem_iff.trans (and_iff_right hx'))
    rcases h.neighbours_congr hu hx hx' hp (fun _ _ => rfl) with ⟨hl, hr⟩
    exact ⟨hp, hl, hr, h.ends_congr hu hx hx' rfl⟩
  · have hle := Nat.le_of_not_lt hx
    rw [node_of_le hle, node_of_le (hs ▸ hle)]
    exact ⟨rfl, rfl, rfl, rfl, rfl, rfl⟩

end LaidOut

theorem eq_of_node (hs : t.size = u.size) (hn : ∀ x < t.size, t.node x = u.node x) : t = u := by
  have ha : t.nodes = u.nodes := by
    apply Array.ext hs
    intro i hi hi'
    have hni := hn i hi
    rwa [node_of_lt hi, node_of_lt hi'] at hni
  cases t
  cases u
  exact congrArg Tree.mk ha

/-- A sound tree is known by the kinds, the values and the children of its nodes. -/
theorem Sound.eq_of_children (h : t.Sound) (hu : u.Sound) (hs : t.size = u.size)
    (hkind : ∀ x < t.size, (t.node x).kind = (u.node x).kind)
    (hvalue : ∀ x < t.size, (t.node x).value = (u.node x).value)
    (hkids : ∀ x < t.size, t.children x = u.children x) : t = u := by
  have hk : t.children = u.children := by
    funext x
    by_cases hx : x < t.size
    · exact hkids x hx
    · have hle := Nat.le_of_not_lt hx
      rw [h.laidOut.dead x hle, hu.laidOut.dead x (hs ▸ hle)]
  have hl := h.laidOut.sameLinks (hk ▸ hu.laidOut) hs
  apply eq_of_node hs
  intro x hx
  rcases hl.node_eq x with ⟨hp, hleft, hright, hf, hlast, hn⟩
  exact Node.ext (hkind x hx) (hvalue x hx) hp hleft hright hf hlast hn

/-! ## Children of unlinked nodes -/

namespace Sound

theorem children_unlink (h : t.Sound) (hid : id < t.size) (q : NodeId) :
    (t.unlink id).children q = (t.children q).erase id :=
  (h.laidOut.unlink hid).children_eq q

theorem kind_unlink (h : t.Sound) (hid : id < t.size) (x : NodeId) :
    ((t.unlink id).node x).kind = (t.node x).kind := by
  rw [node_unlink hid (fun p hp => h.laidOut.parent_lt hid hp) (h.laidOut.neighbours_lt hid).1
    (h.laidOut.neighbours_lt hid).2]

/-- Nodes that are unlinked one after the other leave the lists of children, and no node changes its
kind. -/
theorem children_foldl_unlink (h : t.Sound) (ids : List NodeId) (hids : ∀ id ∈ ids, id < t.size) :
    ∀ x, (ids.foldl Tree.unlink t).children x = (t.children x).diff ids ∧
      ((ids.foldl Tree.unlink t).node x).kind = (t.node x).kind := by
  induction ids generalizing t with
  | nil => exact fun x => ⟨rfl, rfl⟩
  | cons id ids ih =>
    have hid := hids id List.mem_cons_self
    have hrest : ∀ i ∈ ids, i < (t.unlink id).size := by
      intro i hi
      rw [size_unlink]
      exact hids i (List.mem_cons_of_mem id hi)
    intro x
    rcases ih (h.unlink hid) hrest x with ⟨hkids, hkind⟩
    rw [List.foldl_cons, hkids, hkind, h.children_unlink hid, h.kind_unlink hid, List.diff_cons]
    exact ⟨rfl, rfl⟩

end Sound

/-! ## Children after a rollback -/

/-- A node from the checkpoint on that is released leaves the older nodes' lists of children.
Nothing else does, since its older children are in none of these lists. -/
theorem release_keeps (h : t.Sound) (hid : id < t.size) (hc : c ≤ id) :
    (∀ q < c, (release c t id).children q = (t.children q).erase id) ∧
      ∀ x, ((release c t id).node x).kind = (t.node x).kind ∧
        ((release c t id).node x).value = (t.node x).value := by
  have hids : ∀ x ∈ (t.children id).filter (· < c), x < t.size := fun x hx =>
    h.laidOut.lt_of_mem (List.mem_filter.mp hx).1
  rcases h.foldl_unlink _ hids with ⟨hs, hsize, hnode⟩
  have hkeep := h.children_foldl_unlink _ hids
  have hkids : ∀ q < c, (((t.children id).filter (· < c)).foldl unlink t).children q =
      t.children q := by
    intro q hq
    rw [(hkeep q).1, List.Nodup.sdiff_eq_filter (h.laidOut.nodup q), List.filter_eq_self]
    intro y hy
    apply decide_eq_true
    intro hmem
    have hqid : q = id := h.laidOut.eq_of_mem hy (List.mem_filter.mp hmem).1
    exact Nat.not_lt.mpr hc (hqid ▸ hq)
  rw [release]
  generalize ((t.children id).filter (· < c)).foldl unlink t = t1 at hs hsize hnode hkeep hkids ⊢
  have hid1 : id < t1.size := hsize ▸ hid
  split
  · refine ⟨fun q hq => ?_, fun x => ?_⟩
    · rw [hs.children_unlink hid1, hkids q hq]
    · rw [hs.kind_unlink hid1, hs.value_unlink hid1, (hkeep x).2, (hnode x).2]
      exact ⟨rfl, rfl⟩
  · next hno =>
    refine ⟨fun q hq => ?_, fun x => ⟨(hkeep x).2, (hnode x).2⟩⟩
    -- it is not unlinked because it is no child of an older node
    rw [hkids q hq, List.erase_of_not_mem]
    intro hmem
    rw [← hkids q hq] at hmem
    rw [hs.mem_children_iff.mp hmem] at hno
    exact hno (decide_eq_true hq)

theorem foldl_release_keeps (h : t.Sound) {ids : List NodeId}
    (hids : ∀ id ∈ ids, c ≤ id ∧ id < t.size) :
    (∀ q < c, (ids.foldl (release c) t).children q = (t.children q).diff ids) ∧
      ∀ x, ((ids.foldl (release c) t).node x).kind = (t.node x).kind ∧
        ((ids.foldl (release c) t).node x).value = (t.node x).value := by
  induction ids generalizing t with
  | nil => exact ⟨fun _ _ => rfl, fun _ => ⟨rfl, rfl⟩⟩
  | cons id ids ih =>
    rcases hids id List.mem_cons_self with ⟨hc, hid⟩
    rcases release_spec (c := c) h hid with ⟨hs, hsize, _⟩
    rcases release_keeps h hid hc with ⟨hkids, hnode⟩
    obtain ⟨hkids', hnode'⟩ := ih hs fun i hi => by
      rw [hsize]
      exact hids i (List.mem_cons_of_mem id hi)
    refine ⟨fun q hq => ?_, fun x => ?_⟩
    · rw [List.foldl_cons, hkids' q hq, hkids q hq, List.diff_cons]
    · rw [List.foldl_cons, (hnode' x).1, (hnode' x).2, (hnode x).1, (hnode x).2]
      exact ⟨rfl, rfl⟩

/-- What is done before the nodes are dropped. -/
theorem released (h : t.Sound) (c : Nat) :
    ∃ u : Tree, t.rollback c = u.truncate c ∧ u.Sound ∧ u.size = t.size ∧
      (∀ x, c ≤ x → x < u.size → u.Severed c x) ∧
      (∀ q < c, u.children q = (t.children q).filter (· < c)) ∧
      ∀ x, (u.node x).kind = (t.node x).kind ∧ (u.node x).value = (t.node x).value := by
  rcases foldl_release_spec (c := c) h (lt_of_mem_forgotten t c) with ⟨hs, hsize, _, hsev⟩
  have hmem : ∀ x, x ∈ (List.range' c (t.size - c)).reverse ↔ c ≤ x ∧ x < t.size := by
    intro x
    rw [List.mem_reverse, List.mem_range'_1]
    omega
  rcases foldl_release_keeps h fun id hid => (hmem id).mp hid with ⟨hkids, hnode⟩
  refine ⟨_, rfl, hs, hsize, ?_, ?_, hnode⟩
  · intro x hcx hx
    exact hsev x ((hmem x).mpr ⟨hcx, hsize ▸ hx⟩)
  · intro q hq
    rw [hkids q hq, List.Nodup.sdiff_eq_filter (h.laidOut.nodup q)]
    apply List.filter_congr
    intro x hx
    have hlt := h.laidOut.lt_of_mem hx
    rw [decide_eq_decide, hmem]
    exact ⟨fun hno => Nat.lt_of_not_le fun hcx => hno ⟨hcx, hlt⟩,
      fun hxc hand => Nat.not_lt.mpr hand.1 hxc⟩

namespace Sound

theorem size_rollback (h : t.Sound) (c : Nat) : (t.rollback c).size = min c t.size := by
  rcases released h c with ⟨u, hu, _, hsize, _⟩
  rw [hu, size_truncate, hsize]

/-- An older node keeps its older children, in their order. -/
theorem children_rollback (h : t.Sound) (hq : q < c) :
    (t.rollback c).children q = (t.children q).filter (· < c) := by
  rcases released h c with ⟨u, hu, hs, _, hsev, hkids, _⟩
  rw [hu, (laidOut_truncate hs hsev).children_eq, if_pos hq, hkids q hq]

/-- An older node keeps its kind and its value. -/
theorem content_rollback (h : t.Sound) {x : NodeId} (hx : x < c) :
    ((t.rollback c).node x).kind = (t.node x).kind ∧
      ((t.rollback c).node x).value = (t.node x).value := by
  rcases released h c with ⟨u, hu, _, _, _, _, hnode⟩
  rw [hu, node_truncate, if_pos hx]
  exact hnode x

/-- An older node keeps an older parent, and becomes a root under a newer one. -/
theorem parent_rollback (h : t.Sound) {x : NodeId} (hx : x < c) :
    ((t.rollback c).node x).parent = (t.node x).parent.filter (· < c) := by
  have hs := h.rollback c
  -- parents are those whose lists of children a node is in
  have hmem : ∀ p < c, ((t.rollback c).node x).parent = some p ↔ (t.node x).parent = some p := by
    intro p hp
    rw [← hs.mem_children_iff, h.children_rollback hp, List.mem_filter, h.mem_children_iff]
    exact and_iff_left (decide_eq_true hx)
  apply Option.ext
  intro p
  rw [Option.filter_eq_some_iff, decide_eq_true_eq]
  constructor
  · intro hp
    have hpc : p < c := by
      have hlt := (hs.parent_lt hp).2
      rw [h.size_rollback] at hlt
      exact Nat.lt_of_lt_of_le hlt (Nat.min_le_left _ _)
    exact ⟨(hmem p hpc).mp hp, hpc⟩
  · rintro ⟨hp, hpc⟩
    exact (hmem p hpc).mpr hp

end Sound

/-! ## What is left -/

/-- After a rollback to `c`, whatever `c` is, the nodes below `c` are left. Each has the kind and the
value that it had, those of its children that are left, in their order, and its parent if that is
left, and else none; and the tree is as well-formed as before. -/
theorem WellFormed.rollback_restricts (h : t.WellFormed) (c : Nat) :
    (t.rollback c).WellFormed ∧ (t.rollback c).size = min c t.size ∧
      ∀ x < (t.rollback c).size,
        ((t.rollback c).node x).kind = (t.node x).kind ∧
        ((t.rollback c).node x).value = (t.node x).value ∧
        (t.rollback c).children x = (t.children x).filter (· < c) ∧
        ((t.rollback c).node x).parent = (t.node x).parent.filter (· < c) := by
  have hs := h.sound
  refine ⟨(hs.rollback c).wellFormed, hs.size_rollback c, fun x hx => ?_⟩
  have hxc : x < c := by
    rw [hs.size_rollback] at hx
    exact Nat.lt_of_lt_of_le hx (Nat.min_le_left _ _)
  rcases hs.content_rollback hxc with ⟨hkind, hvalue⟩
  exact ⟨hkind, hvalue, hs.children_rollback hxc, hs.parent_rollback hxc⟩

/-- The nodes 0, 1 and 2 are older. The root 2 is put under the new node 3, the node 0 becomes a copy
of 3 and so gets the new child 6, and then its former child 1 comes between that and the new
child 7. -/
theorem rollback_restricts_mixed :
    let t := (Call.addChild 0 9 "z").run ((Call.attach 0 1).run ((Call.become 0 3).run
      ((Call.attach 3 2).run ((Call.addChild 0 7 "n").run ((Call.makeRoot 5 "").run
        ((Call.makeRoot 2 "b").run ((Call.addChild 0 1 "a").run
          ((Call.makeRoot untyped "").run {}))))))))
    let u := t.rollback 3
    t.WellFormed ∧ t.size = 8 ∧ u.WellFormed ∧ u.size = 3 ∧
      t.children 0 = [6, 1, 7] ∧ u.children 0 = [1] ∧ (u.node 0).kind = 5 ∧
      (t.node 2).parent = some 3 ∧ (u.node 2).parent = none ∧ (u.node 1).parent = some 0 := by
  intro t u
  have h0 := Reachable.empty.call (.makeRoot untyped "") (by decide)
  have h1 := h0.call (.addChild 0 1 "a") (by decide)
  have h2 := h1.call (.makeRoot 2 "b") (by decide)
  have h3 := h2.call (.makeRoot 5 "") (by decide)
  have h4 := h3.call (.addChild 0 7 "n") (by decide)
  have h5 := h4.call (.attach 3 2) (by decide)
  have h6 := h5.call (.become 0 3) (by decide +kernel)
  have h7 := h6.call (.attach 0 1) (by decide +kernel)
  have ht : Reachable t := h7.call (.addChild 0 9 "z") (by decide +kernel)
  have hw := ht.sound.wellFormed
  have hsize : t.size = 8 := by decide +kernel
  have hkids : t.children 0 = [6, 1, 7] := by decide +kernel
  rcases hw.rollback_restricts 3 with ⟨hu, husize, hnode⟩
  have hu3 : u.size = 3 := husize.trans (by rw [hsize]; rfl)
  rcases hnode 0 (by omega) with ⟨hk, _, hc, _⟩
  rcases hnode 1 (by omega) with ⟨_, _, _, hp1⟩
  rcases hnode 2 (by omega) with ⟨_, _, _, hp2⟩
  refine ⟨hw, hsize, hu, hu3, hkids, ?_, ?_, by decide +kernel, ?_, ?_⟩
  · rw [hc, hkids]
    rfl
  · rw [hk]
    decide +kernel
  · rw [hp2]
    decide +kernel
  · rw [hp1]
    decide +kernel

end Tree
end PegKit
