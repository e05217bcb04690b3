import Mathlib.Data.List.Nodup
import PegKit.Proofs.Tree.Edits
import PegKit.Proofs.Tree.Levels
import PegKit.Tree.Clone

/-! # Copies

* `sound_withCopies`: copies of everything below a node, added behind the arena, are laid out as
  what they are copies of.
* `Sound.clone` and `Sound.become`: the two edits that copy keep a tree sound.
-/

namespace PegKit.Tree

variable {t : Tree} {order : List NodeId} {root : NodeId}

/-! ## Copied nodes -/

/-- The copy of a node, if it is copied. -/
def copyOf? (t : Tree) (order : List NodeId) (id : NodeId) : Option NodeId :=
  (order.idxOf? id).map (t.size + ·)

/-- The tree with copies of the nodes `order` behind its arena. -/
def withCopies (t : Tree) (order : List NodeId) : Tree :=
  { t with nodes := t.nodes ++ order.map fun o => (t.node o).mapLinks (t.copyOf? order) }

theorem clone_eq {id : NodeId} (hid : id < t.size) :
    t.clone id = .ok (t.size, t.withCopies (t.byLevel id)) := by
  -- `copyOf?` is the renaming that the edit makes for itself
  rw [clone, lookup_of_lt hid]
  rfl

theorem nodes_withCopies : (t.withCopies order).nodes.toList =
    t.nodes.toList ++ order.map fun o => (t.node o).mapLinks (t.copyOf? order) :=
  Array.toList_appendList

@[simp] theorem size_withCopies : (t.withCopies order).size = t.size + order.length := by
  rw [size, ← Array.length_toList, nodes_withCopies, List.length_append, List.length_map,
    Array.length_toList]
  rfl

theorem node_eq_toList (t : Tree) (j : NodeId) : t.node j = t.nodes.toList[j]?.getD {} := by
  rw [node, Array.getD_eq_getD_getElem?, Array.getElem?_toList]

theorem node_withCopies_of_lt {j : NodeId} (hj : j < t.size) :
    (t.withCopies order).node j = t.node j := by
  rw [node_eq_toList, node_eq_toList, nodes_withCopies, List.getElem?_append_left]
  exact hj

theorem node_withCopies_add {i : Nat} {o : NodeId} (ho : order[i]? = some o) :
    (t.withCopies order).node (t.size + i) = (t.node o).mapLinks (t.copyOf? order) := by
  have hle : t.nodes.toList.length ≤ t.size + i := Nat.le_add_right t.size i
  rw [node_eq_toList, nodes_withCopies, List.getElem?_append_right hle, List.getElem?_map]
  have hi : t.size + i - t.nodes.toList.length = i := Nat.add_sub_cancel_left t.size i
  rw [hi, ho]
  rfl

/-- The index at which the copy of a copied node stands. -/
def copyIndex (t : Tree) (order : List NodeId) (id : NodeId) : NodeId :=
  t.size + order.idxOf id

theorem copyIndex_of_getElem? (hn : order.Nodup) {i : Nat} {o : NodeId} (ho : order[i]? = some o) :
    t.copyIndex order o = t.size + i := by
  rcases List.getElem?_eq_some_iff.mp ho with ⟨hi, rfl⟩
  rw [copyIndex, hn.idxOf_getElem]

theorem exists_getElem?_of_mem {x : NodeId} (hx : x ∈ order) :
    order[order.idxOf x]? = some x :=
  List.getElem?_idxOf hx

theorem copyIndex_inj {x y : NodeId} (hx : x ∈ order)
    (h : t.copyIndex order x = t.copyIndex order y) : x = y :=
  (List.idxOf_inj hx).mp (Nat.add_left_cancel h)

theorem copyOf?_of_mem (hn : order.Nodup) {x : NodeId} (hx : x ∈ order) :
    t.copyOf? order x = some (t.copyIndex order x) := by
  have hi : order.idxOf? x = some (order.idxOf x) := by
    rcases Option.isSome_iff_exists.mp (List.isSome_idxOf?.mpr hx) with ⟨i, hi⟩
    rcases List.idxOf?_eq_some_iff.mp hi with ⟨hlt, rfl, _⟩
    rw [hi, hn.idxOf_getElem]
  rw [copyOf?, hi]
  rfl

theorem copyOf?_of_not_mem {x : NodeId} (hx : x ∉ order) : t.copyOf? order x = none := by
  rw [copyOf?, List.idxOf?_eq_none_iff.mpr hx]
  rfl

/-- A link between copied nodes is copied. -/
theorem bind_copyOf? (hn : order.Nodup) {link : Option NodeId}
    (h : ∀ x, link = some x → x ∈ order) : link.bind (t.copyOf? order) = link.map (t.copyIndex order) := by
  cases link with
  | none => rfl
  | some x => exact copyOf?_of_mem hn (h x rfl)

/-! ## The layout of copies -/

/-- The children of nodes and of copies. -/
def copiedChildren (t : Tree) (order : List NodeId) (j : NodeId) : List NodeId :=
  if j < t.size then t.children j
  else ((order[j - t.size]?).map fun o => (t.children o).map (t.copyIndex order)).getD []

theorem copiedChildren_of_lt {j : NodeId} (hj : j < t.size) :
    t.copiedChildren order j = t.children j :=
  if_pos hj

theorem copiedChildren_add {i : Nat} {o : NodeId} (ho : order[i]? = some o) :
    t.copiedChildren order (t.size + i) = (t.children o).map (t.copyIndex order) := by
  rw [copiedChildren, if_neg (Nat.not_lt.mpr (Nat.le_add_right _ _)), Nat.add_sub_cancel_left, ho]
  rfl

/-- An index of the tree with copies is an old one or that of a copy. -/
theorem lt_or_copy {j : Nat} (hj : j < (t.withCopies order).size) :
    j < t.size ∨ ∃ i o, order[i]? = some o ∧ j = t.size + i := by
  rw [size_withCopies] at hj
  by_cases hlt : j < t.size
  · exact Or.inl hlt
  · have hi : j - t.size < order.length := by omega
    exact Or.inr ⟨j - t.size, order[j - t.size], List.getElem?_eq_getElem hi, by omega⟩

/-- The parent of a copy is the copy of the parent. -/
theorem parent_copy (hn : order.Nodup) {i : Nat} {o q : NodeId} (ho : order[i]? = some o)
    (hp : ((t.withCopies order).node (t.size + i)).parent = some q) :
    ∃ p ∈ order, (t.node o).parent = some p ∧ q = t.copyIndex order p := by
  rw [node_withCopies_add ho] at hp
  rcases Option.bind_eq_some_iff.mp hp with ⟨p, hpo, hpq⟩
  have hpm : p ∈ order := by
    apply Decidable.byContradiction
    intro hno
    rw [copyOf?_of_not_mem hno] at hpq
    cases hpq
  rw [copyOf?_of_mem hn hpm] at hpq
  exact ⟨p, hpm, hpo, (Option.some.inj hpq).symm⟩

/-- A copy ranks as what it is a copy of. -/
def copiedRank (t : Tree) (order : List NodeId) (rank : NodeId → Nat) (j : NodeId) : Nat :=
  if j < t.size then rank j else ((order[j - t.size]?).map rank).getD 0

theorem copiedRank_of_lt {rank : NodeId → Nat} {j : NodeId} (hj : j < t.size) :
    t.copiedRank order rank j = rank j :=
  if_pos hj

theorem copiedRank_add {rank : NodeId → Nat} {i : Nat} {o : NodeId} (ho : order[i]? = some o) :
    t.copiedRank order rank (t.size + i) = rank o := by
  rw [copiedRank, if_neg (Nat.not_lt.mpr (Nat.le_add_right _ _)), Nat.add_sub_cancel_left, ho]
  rfl

section Layout

variable (h : t.Sound) (hg : t.Gathered root order)

include h hg

/-- Only the root of what is copied has a parent that is not. -/
theorem links_of_parent_not_mem {o p : NodeId} (ho : o ∈ order)
    (hp : (t.node o).parent = some p) (hno : p ∉ order) :
    (∀ l, (t.node o).left = some l → l ∉ order) ∧ ∀ r, (t.node o).right = some r → r ∉ order := by
  have hroot : o = root := by
    rcases hg.met o ho with hr | ⟨q, hq, hq'⟩
    · exact hr
    · rw [hp] at hq'
      cases hq'
      exact absurd hq hno
  -- another child of that parent would have to be the root as well
  have hsib : ∀ s, s ∈ t.children p → s ≠ o → s ∉ order := by
    intro s hs hne hmem
    rcases hg.met s hmem with hr | ⟨q, hq, hq'⟩
    · exact hne (hr.trans hroot.symm)
    · rw [h.mem_children_iff.mp hs] at hq'
      cases hq'
      exact hno hq
  rcases List.append_of_mem (h.mem_children_iff.mpr hp) with ⟨ls, rs, hlr⟩
  rcases h.laidOut.place p ls o rs hlr with ⟨_, _, hl, hr⟩
  -- both neighbours are such children
  have hnd := hlr ▸ h.laidOut.nodup p
  constructor
  · intro l hll
    have hmem := List.mem_of_getLast? (hl.symm.trans hll)
    refine hsib l (hlr ▸ List.mem_append_left _ hmem) ?_
    rintro rfl
    exact (List.nodup_append.mp hnd).2.2 l hmem l List.mem_cons_self rfl
  · intro r hrr
    have hmem := List.mem_of_head? (hr.symm.trans hrr)
    refine hsib r (hlr ▸ List.mem_append_right _ (List.mem_cons_of_mem o hmem)) ?_
    rintro rfl
    exact (List.nodup_cons.mp (List.nodup_append.mp hnd).2.1).1 hmem

/-- Among copies of children a copy has the place that its original has among these. -/
theorem place_copy {i : Nat} {o : NodeId} (ho : order[i]? = some o) {l r : List NodeId} {x : NodeId}
    (hlr : (t.children o).map (t.copyIndex order) = l ++ x :: r) :
    x < (t.withCopies order).size ∧ ((t.withCopies order).node x).parent = some (t.size + i) ∧
      ((t.withCopies order).node x).left = l.getLast? ∧
      ((t.withCopies order).node x).right = r.head? := by
  have hn := hg.nodup
  have hom := List.mem_of_getElem? ho
  rcases List.map_eq_append_iff.mp hlr with ⟨l', xr, hk, rfl, hxr⟩
  rcases List.map_eq_cons_iff.mp hxr with ⟨x', r', rfl, rfl, rfl⟩
  -- all children of a copied node are copied, so no link between them is dropped
  have hin : ∀ y ∈ l' ++ x' :: r', y ∈ order := fun y hy => hg.closed o hom y (hk ▸ hy)
  have hx' : x' ∈ order := hin x' List.mem_append_cons_self
  rcases h.laidOut.place o l' x' r' hk with ⟨_, hp, hleft, hright⟩
  have hnode := node_withCopies_add (t := t) (exists_getElem?_of_mem hx')
  rw [copyIndex, hnode, size_withCopies]
  refine ⟨Nat.add_lt_add_left (List.idxOf_lt_length_of_mem hx') _, ?_, ?_, ?_⟩
  · show (t.node x').parent.bind _ = _
    rw [hp, Option.bind_some, copyOf?_of_mem hn hom, copyIndex_of_getElem? hn ho]
  · show (t.node x').left.bind _ = _
    rw [hleft, List.getLast?_map]
    refine bind_copyOf? hn fun y hy => hin y ?_
    exact List.mem_append_left _ (List.mem_of_getLast? hy)
  · show (t.node x').right.bind _ = _
    rw [hright, List.head?_map]
    refine bind_copyOf? hn fun y hy => hin y ?_
    exact List.mem_append_right _ (List.mem_cons_of_mem x' (List.mem_of_head? hy))

/-- A copy without a parent has no neighbours, because neighbours of its original are not copied. -/
theorem roots_copy {i : Nat} {o : NodeId} (ho : order[i]? = some o)
    (hp : ((t.withCopies order).node (t.size + i)).parent = none) :
    ((t.withCopies order).node (t.size + i)).left = none ∧
      ((t.withCopies order).node (t.size + i)).right = none := by
  have hom := List.mem_of_getElem? ho
  rw [node_withCopies_add ho] at hp ⊢
  have hp : (t.node o).parent.bind (t.copyOf? order) = none := hp
  show (t.node o).left.bind _ = none ∧ (t.node o).right.bind _ = none
  cases hpo : (t.node o).parent with
  | none =>
    rcases h.laidOut.roots o (hg.live o hom) hpo with ⟨hleft, hright⟩
    rw [hleft, hright]
    exact ⟨rfl, rfl⟩
  | some p =>
    rw [hpo, Option.bind_some] at hp
    -- the parent is not copied
    have hno : p ∉ order := by
      intro hpm
      rw [copyOf?_of_mem hg.nodup hpm] at hp
      cases hp
    rcases links_of_parent_not_mem h hg hom hpo hno with ⟨hleft, hright⟩
    constructor
    · exact Option.bind_eq_none_iff.mpr fun l hll => copyOf?_of_not_mem (hleft l hll)
    · exact Option.bind_eq_none_iff.mpr fun r hrr => copyOf?_of_not_mem (hright r hrr)

/-- Old nodes keep their children, and a copy has the copies of its original's. -/
theorem laidOut_withCopies : (t.withCopies order).LaidOut (t.copiedChildren order) := by
  have hl := h.laidOut
  have hn := hg.nodup
  have hkids : ∀ {o}, o ∈ order → ∀ c, c ∈ t.children o → c ∈ order := fun ho => hg.closed _ ho
  constructor
  case ends =>
    intro q hq
    rcases lt_or_copy hq with hlt | ⟨i, o, ho, rfl⟩
    · rw [node_withCopies_of_lt hlt, copiedChildren_of_lt hlt]
      exact hl.ends q hlt
    · have hom := List.mem_of_getElem? ho
      have hends := hl.ends o (hg.live o hom)
      rw [node_withCopies_add ho, copiedChildren_add ho, List.head?_map, List.getLast?_map,
        List.length_map, ← hends.1, ← hends.2.1]
      refine ⟨bind_copyOf? hn ?_, bind_copyOf? hn ?_, hends.2.2⟩
      · intro x hx
        exact hkids hom x (List.mem_of_head? (hends.1.symm.trans hx))
      · intro x hx
        exact hkids hom x (List.mem_of_getLast? (hends.2.1.symm.trans hx))
  case place =>
    intro q l x r hlr
    by_cases hq : q < t.size
    · rw [copiedChildren_of_lt hq] at hlr
      have hplace := hl.place q l x r hlr
      rw [node_withCopies_of_lt hplace.1, size_withCopies]
      exact ⟨Nat.lt_add_right _ hplace.1, hplace.2⟩
    · obtain ⟨i, o, ho, rfl⟩ : ∃ i o, order[i]? = some o ∧ q = t.size + i := by
        cases ho : order[q - t.size]? with
        | none => simp [copiedChildren, hq, ho] at hlr
        | some o => exact ⟨q - t.size, o, ho, (Nat.add_sub_of_le (Nat.le_of_not_lt hq)).symm⟩
      rw [copiedChildren_add ho] at hlr
      exact place_copy h hg ho hlr
  case roots =>
    intro x hx hp
    rcases lt_or_copy hx with hlt | ⟨i, o, ho, rfl⟩
    · rw [node_withCopies_of_lt hlt] at hp ⊢
      exact hl.roots x hlt hp
    · exact roots_copy h hg ho hp
  case owned =>
    intro x hx q hp
    rcases lt_or_copy hx with hlt | ⟨i, o, ho, rfl⟩
    · rw [node_withCopies_of_lt hlt] at hp
      rcases hl.owned x hlt q hp with ⟨hq, hmem⟩
      rw [size_withCopies, copiedChildren_of_lt hq]
      exact ⟨Nat.lt_add_right _ hq, hmem⟩
    · obtain ⟨p, hpm, hpo, rfl⟩ := parent_copy hn ho hp
      rw [← copyIndex_of_getElem? hn ho, copyIndex, copyIndex, size_withCopies,
        copiedChildren_add (exists_getElem?_of_mem hpm)]
      refine ⟨Nat.add_lt_add_left (List.idxOf_lt_length_of_mem hpm) _, ?_⟩
      exact List.mem_map_of_mem (h.mem_children_iff.mpr hpo)
  case nodup =>
    intro q
    unfold copiedChildren
    split
    · exact hl.nodup q
    · cases ho : order[q - t.size]? with
      | none => exact List.nodup_nil
      | some o =>
        have hom := List.mem_of_getElem? ho
        exact List.Nodup.map_on (fun x hx y _ hxy => copyIndex_inj (hkids hom x hx) hxy)
          (hl.nodup o)
  case dead =>
    intro q hq
    rw [size_withCopies] at hq
    have hlt : ¬ q < t.size := by omega
    have hout : order.length ≤ q - t.size := by omega
    rw [copiedChildren, if_neg hlt, List.getElem?_eq_none hout]
    rfl

theorem ranked_withCopies {rank : NodeId → Nat} (hr : t.Ranked rank) :
    (t.withCopies order).Ranked (t.copiedRank order rank) := by
  intro x q hq
  have hx : x < (t.withCopies order).size := by
    apply Nat.lt_of_not_le
    intro hle
    -- a node that is not there has no parent
    rw [node_of_le hle] at hq
    cases hq
  rcases lt_or_copy hx with hlt | ⟨i, o, ho, rfl⟩
  · rw [node_withCopies_of_lt hlt] at hq
    rw [copiedRank_of_lt (h.parent_lt hq).2, copiedRank_of_lt hlt]
    exact hr x q hq
  · obtain ⟨p, hpm, hpo, rfl⟩ := parent_copy hg.nodup ho hq
    rw [copyIndex, copiedRank_add ho, copiedRank_add (exists_getElem?_of_mem hpm)]
    exact hr o p hpo

theorem sound_withCopies : (t.withCopies order).Sound := by
  rcases h.ranked with ⟨rank, hr⟩
  refine .of_laidOut (laidOut_withCopies h hg) ⟨_, ranked_withCopies h hg hr⟩ ?_
  intro x hx
  by_cases hlt : x < (t.withCopies order).size
  · rcases lt_or_copy hlt with hlt | ⟨i, o, ho, rfl⟩
    · rw [node_withCopies_of_lt hlt] at hx
      rw [copiedChildren_of_lt hlt]
      exact h.plain x hx
    · rw [node_withCopies_add ho] at hx
      rw [copiedChildren_add ho, h.plain o hx]
      rfl
  · rw [node_of_le (Nat.le_of_not_lt hlt)] at hx
    exact absurd rfl hx

end Layout

/-! ## Edits that copy -/

theorem SameLinks.trans {u v : Tree} (h : t.SameLinks u) (h' : u.SameLinks v) : t.SameLinks v := by
  refine ⟨h.size_eq.trans h'.size_eq, ?_⟩
  intro j
  rcases h.node_eq j with ⟨hp, hl, hr, hf, hla, hn⟩
  rcases h'.node_eq j with ⟨hp', hl', hr', hf', hla', hn'⟩
  exact ⟨hp.trans hp', hl.trans hl', hr.trans hr', hf.trans hf', hla.trans hla', hn.trans hn'⟩

/-- The children of a tree depend on its links only. -/
theorem SameLinks.children_eq {u : Tree} (hs : u.SameLinks t) (h : t.Sound) :
    u.children = t.children :=
  funext (h.laidOut.of_sameLinks hs).children_eq

/-- The copy gives its kind and its value to the target and keeps its children for now. -/
def fillFrom (t : Tree) (target copy : NodeId) : Tree :=
  let x := t.node copy
  let t := t.modify copy fun n => { n with value := "" }
  t.modify target fun n => { n with kind := x.kind, value := x.value }

/-- What `become` comes to: the copy of the source gives all it has to the target. -/
def becomeCopy (t : Tree) (target copy : NodeId) : Tree :=
  (t.fillFrom target copy).relinkChildren target copy

theorem become_eq {target source : NodeId} (ht : target < t.size) (hs : source < t.size) :
    t.become target source = .ok
      (((t.withCopies (t.byLevel source)).unlinkChildren target).becomeCopy target t.size) := by
  have ht' : target < (t.withCopies (t.byLevel source)).size := by
    rw [size_withCopies]
    exact Nat.lt_add_right _ ht
  rw [become, clone_eq hs]
  show ((t.withCopies (t.byLevel source)).lookup target >>= fun _ => _) = _
  rw [lookup_of_lt ht']
  rfl

/-- A copy takes part in no loop: an old node has only old ones above it. -/
theorem lt_of_under {n : Nat} (hold : ∀ x p, x < n → (t.node x).parent = some p → p < n)
    {x a : NodeId} (hu : t.Under x a) (hx : x < n) : a < n := by
  induction hu with
  | refl => exact hx
  | step hp _ ih => exact ih (hold _ _ hx hp)

namespace Sound

variable {id target source copy : NodeId}

theorem clone (h : t.Sound) (hid : id < t.size) {u : Tree}
    (he : t.clone id = .ok (copy, u)) : u.Sound := by
  rw [clone_eq hid] at he
  cases he
  exact sound_withCopies h (gathered_byLevel h hid)

/-- A childless target may take the kind and the value of a copy. -/
theorem fillFrom (h : t.Sound) (hc : copy < t.size) (ht : target < t.size)
    (hnone : t.children target = []) :
    (t.fillFrom target copy).Sound ∧ (t.fillFrom target copy).SameLinks t ∧
      ((t.fillFrom target copy).node target).value = (t.node copy).value := by
  have h1 : (t.modify copy fun n => { n with value := "" }).Sound :=
    h.modify hc (fun _ => rfl) fun hv => absurd rfl hv
  have hs1 : (t.modify copy fun n => { n with value := "" }).SameLinks t :=
    sameLinks_modify hc fun _ => rfl
  have hk1 := hs1.children_eq h
  rw [Tree.fillFrom]
  generalize t.modify copy (fun n => { n with value := "" }) = t1 at h1 hs1 hk1 ⊢
  have ht1 : target < t1.size := hs1.size_eq ▸ ht
  refine ⟨h1.modify ht1 (fun _ => rfl) ?_, ?_, ?_⟩
  · intro _
    rw [hk1]
    exact hnone
  · exact (sameLinks_modify ht1 fun _ => rfl).trans hs1
  · rw [node_modify ht1, if_pos rfl]

/-- The target may take the children as well if the copy is behind all nodes above the target. -/
theorem becomeCopy (h : t.Sound) (hc : copy < t.size) (ht : target < copy)
    (hnone : t.children target = [])
    (hold : ∀ x p, x < copy → (t.node x).parent = some p → p < copy) :
    (t.becomeCopy target copy).Sound := by
  have htlt : target < t.size := Nat.lt_trans ht hc
  rcases h.fillFrom hc htlt hnone with ⟨h2, hs2, hv2⟩
  have hk2 := hs2.children_eq h
  refine h2.relinkChildren ?_ ?_ (Nat.ne_of_lt ht) ?_ ?_
  · exact hs2.size_eq ▸ htlt
  · exact hs2.size_eq ▸ hc
  -- a child of the copy above the target would be older than the copy
  · intro c hcc hu
    have hclt : c < copy := by
      refine lt_of_under ?_ hu ht
      intro y p hy hp
      rw [(hs2.node_eq y).1] at hp
      exact hold y p hy hp
    have hcp := h2.mem_children_iff.mp hcc
    rw [(hs2.node_eq c).1] at hcp
    exact Nat.lt_irrefl _ (hold c copy hclt hcp)
  · intro hv
    rw [hk2]
    exact h.plain copy (hv2 ▸ hv)

theorem become (h : t.Sound) (ht : target < t.size) (hs : source < t.size) {u : Tree}
    (he : t.become target source = .ok u) : u.Sound := by
  rw [become_eq ht hs, Except.ok.injEq] at he
  rw [← he]
  have hg := gathered_byLevel h hs
  have h1 := sound_withCopies h hg
  rcases h1.unlinkChildren target with ⟨h2, hsize, hnone, hnode⟩
  have hpos : 0 < (t.byLevel source).length :=
    List.length_pos_of_mem (List.mem_of_head? hg.head)
  refine h2.becomeCopy ?_ ht hnone ?_
  · rw [hsize, size_withCopies]
    exact Nat.lt_add_of_pos_right hpos
  · intro x p hx hp
    rw [(hnode x).1, node_withCopies_of_lt hx] at hp
    split at hp
    · cases hp
    · exact (h.parent_lt hp).2

end Sound

end PegKit.Tree
