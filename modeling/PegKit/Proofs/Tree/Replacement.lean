import PegKit.Proofs.Tree.Cloning
import PegKit.Proofs.Tree.Refinement

/-! # What a node becomes

A node that becomes a copy of another changes nothing around it, whatever the two are to each other.

* `Sound.forest_becomeCopy`: what happens after the copy is made, said of lists of children.
* `Tree.Replaced`: a node has the shape of another, in its own place, and its children are roots.
* `WellFormed.become_replaces`: that is what `Tree.become` comes to.
-/

namespace PegKit

namespace Forest

/-- The node `i` gets what `k` holds and the children of `k`, which is left empty. The former
children of `i` become roots. -/
def inherit (f : Forest) (i k : NodeId) : Forest where
  size := f.size
  entry x :=
    { kind := if x = i then (f.entry k).kind else (f.entry x).kind
      value := if x = i then (f.entry k).value else if x = k then "" else (f.entry x).value
      parent := if x ∈ (f.entry k).children then some i
        else if x ∈ (f.entry i).children then none else (f.entry x).parent
      children := if x = i then (f.entry k).children else if x = k then []
        else (f.entry x).children }

end Forest

namespace Tree

variable {t u : Tree} {i k x target source : NodeId}

/-! ## After the copy is made -/

theorem node_fillFrom (hk : k < t.size) (hi : i < t.size) (x : NodeId) :
    (t.fillFrom i k).node x = { t.node x with
      kind := if x = i then (t.node k).kind else (t.node x).kind
      value := if x = i then (t.node k).value else if x = k then "" else (t.node x).value } := by
  have hi' : i < (t.modify k fun n => { n with value := "" }).size := by rwa [size_modify]
  rw [fillFrom, node_modify hi', node_modify hk]
  by_cases hxi : i = x
  · by_cases hxk : k = x
    · simp [hxi, hxk]
    · simp [hxi, hxk]
  · by_cases hxk : k = x
    · simp [Ne.symm hxi, hxi, hxk]
    · simp [Ne.symm hxi, hxi, Ne.symm hxk, hxk]

namespace Sound

/-- Once it has no children of its own, a node takes over what another holds. -/
theorem forest_becomeCopy (h : t.Sound) (hi : i < t.size) (hk : k < t.size) (hne : i ≠ k) :
    ((t.unlinkChildren i).becomeCopy i k).forest = t.forest.inherit i k := by
  have hkids := h.children_unlinkChildren i
  have hkind := h.kind_unlinkChildren i
  rcases h.unlinkChildren i with ⟨h1, hsize, hnone, hnode⟩
  generalize t.unlinkChildren i = t1 at hkids hkind h1 hsize hnone hnode ⊢
  have hi1 : i < t1.size := hsize ▸ hi
  have hk1 : k < t1.size := hsize ▸ hk
  have hfill := node_fillFrom hk1 hi1
  rcases h1.fillFrom hk1 hi1 hnone with ⟨h2, hlinks, _⟩
  have hkids2 := hlinks.children_eq h1
  rw [Tree.becomeCopy]
  generalize t1.fillFrom i k = t2 at hfill h2 hlinks hkids2 ⊢
  rw [h2.forest_relinkChildren (hlinks.size_eq ▸ hi1) (hlinks.size_eq ▸ hk1) hne]
  -- only the list of the node itself has changed so far
  have hkidsk : t2.children k = t.children k := by rw [hkids2, hkids, if_neg (Ne.symm hne)]
  have hkidsi : t2.children i = [] := by rw [hkids2, hkids, if_pos rfl]
  apply Forest.ext (hlinks.size_eq.trans hsize)
  funext x
  apply Entry.ext
  case kind =>
    show (t2.node x).kind = if x = i then (t.node k).kind else (t.node x).kind
    rw [hfill, hkind, hkind]
  case value =>
    show (t2.node x).value =
      if x = i then (t.node k).value else if x = k then "" else (t.node x).value
    rw [hfill, (hnode k).2, (hnode x).2]
  case parent =>
    show (if x ∈ t2.children k then some i else (t2.node x).parent) =
      if x ∈ t.children k then some i else if x ∈ t.children i then none else (t.node x).parent
    rw [hkidsk, (hlinks.node_eq x).1, (hnode x).1]
  case children =>
    show (if x = i then t2.children i ++ t2.children k else if x = k then [] else t2.children x) =
      if x = i then t.children k else if x = k then [] else t.children x
    rw [hkidsk, hkidsi, List.nil_append]
    by_cases hxi : x = i
    · rw [if_pos hxi, if_pos hxi]
    · rw [if_neg hxi, if_neg hxi, hkids2, hkids, if_neg hxi]

end Sound

/-! ## Nodes and copies -/

section Inherited

variable {order : List NodeId} (h : t.Sound) (hg : t.Gathered source order) (ht : target < t.size)

include h hg

/-- What is to be had from the copy of the source. -/
theorem copy_source : ((t.withCopies order).node t.size).kind = (t.node source).kind ∧
    ((t.withCopies order).node t.size).value = (t.node source).value ∧
    (t.withCopies order).children t.size = (t.children source).map (t.copyIndex order) := by
  have hmem : source ∈ order := List.mem_of_mem_head? hg.head
  rw [← hg.copyIndex_root]
  rcases content_copyIndex (t := t) hmem with ⟨hk, hv⟩
  exact ⟨hk, hv, children_copyIndex h hg hmem⟩

/-- The children of the copy are copies. -/
theorem not_mem_children_copy (hx : x < t.size) : x ∉ (t.withCopies order).children t.size := by
  rw [(copy_source h hg).2.2]
  intro hmem
  rcases List.mem_map.mp hmem with ⟨y, _, rfl⟩
  exact Nat.not_lt.mpr (Nat.le_add_right _ _) hx

include ht

/-- Another node is at most parted from its parent. -/
theorem entry_inherit_of_lt (hx : x < t.size) (hne : x ≠ target) :
    ((t.withCopies order).forest.inherit target t.size).entry x = { t.forest.entry x with
      parent := if x ∈ t.children target then none else (t.node x).parent } := by
  have hnode := @node_withCopies_of_lt t order x hx
  have hnew : x ≠ t.size := Nat.ne_of_lt hx
  unfold Forest.inherit forest
  apply Entry.ext
  case kind => simp only [if_neg hne, hnode]
  case value => simp only [if_neg hne, if_neg hnew, hnode]
  case parent =>
    simp only [if_neg (not_mem_children_copy h hg hx), children_withCopies_of_lt h hg ht, hnode]
  case children => simp only [if_neg hne, if_neg hnew, children_withCopies_of_lt h hg hx]

/-- The node itself is where it was, with the content of the source and the copies of its
children. -/
theorem entry_inherit_self :
    ((t.withCopies order).forest.inherit target t.size).entry target =
      { kind := (t.node source).kind
        value := (t.node source).value
        parent := (t.node target).parent
        children := (t.children source).map (t.copyIndex order) } := by
  rcases copy_source h hg with ⟨hk, hv, hkids⟩
  have hout := not_mem_children_copy h hg ht
  have hself : target ∉ t.children target := fun hmem =>
    h.ne_of_under_child hmem (.refl target) rfl
  unfold Forest.inherit forest
  apply Entry.ext
  case kind => simp only [if_true, hk]
  case value => simp only [if_true, hv]
  case parent =>
    simp only [if_neg hout, children_withCopies_of_lt h hg ht, if_neg hself,
      node_withCopies_of_lt ht]
  case children => simp only [if_true, hkids]

/-- The copy of what is below the source holds what that holds. -/
theorem entry_inherit_copy (hx : x ∈ order) (hne : x ≠ source) :
    let e := ((t.withCopies order).forest.inherit target t.size).entry (t.copyIndex order x)
    e.kind = (t.node x).kind ∧ e.value = (t.node x).value ∧
      e.children = (t.children x).map (t.copyIndex order) := by
  rcases content_copyIndex (t := t) hx with ⟨hk, hv⟩
  have hold : t.copyIndex order x ≠ target := by
    intro he
    exact Nat.not_lt.mpr (Nat.le_add_right _ _) (he.trans_lt ht)
  have hroot : t.copyIndex order x ≠ t.size := by
    intro he
    exact hne (copyIndex_inj hx (he.trans hg.copyIndex_root.symm))
  unfold Forest.inherit forest
  simp only [if_neg hold, if_neg hroot]
  exact ⟨hk, hv, children_copyIndex h hg hx⟩

end Inherited

/-! ## Replaced nodes -/

/-- In `u` the node `target` has become what `source` is in `t`. -/
structure Replaced (t : Tree) (target source : NodeId) (u : Tree) : Prop where
  wellFormed : u.WellFormed
  shape_eq : u.shape target = t.shape source
  /-- The node is where it was. -/
  place : (u.node target).parent = (t.node target).parent ∧
    (u.node target).left = (t.node target).left ∧ (u.node target).right = (t.node target).right
  /-- Each of its former children stands alone, with all that is below it. -/
  released : ∀ c ∈ t.children target,
    u.node c = { t.node c with parent := none, left := none, right := none } ∧
    u.children c = t.children c ∧ u.shape c = t.shape c
  others : ∀ x < t.size, x ≠ target → x ∉ t.children target → u.node x = t.node x

section Replaced

variable {order : List NodeId} (h : t.Sound) (hg : t.Gathered source order) (ht : target < t.size)
  (hu : u.Sound) (hf : u.forest = (t.withCopies order).forest.inherit target t.size)

include hf

theorem entry_of_inherit (x : NodeId) : u.forest.entry x =
    ((t.withCopies order).forest.inherit target t.size).entry x :=
  congrArg (fun f => f.entry x) hf

theorem lt_of_inherit (hx : x < t.size) : x < u.size := by
  have hs : u.size = (t.withCopies order).size := congrArg Forest.size hf
  rw [hs, size_withCopies]
  exact Nat.lt_add_right _ hx

include h hg ht

/-- Another node keeps its content and its children. -/
theorem kept_of_inherit (hx : x < t.size) (hne : x ≠ target) :
    (u.node x).kind = (t.node x).kind ∧ (u.node x).value = (t.node x).value ∧
      (u.node x).parent = (if x ∈ t.children target then none else (t.node x).parent) ∧
      u.children x = t.children x := by
  have he := (entry_of_inherit hf x).trans (entry_inherit_of_lt h hg ht hx hne)
  exact ⟨congrArg Entry.kind he, congrArg Entry.value he, congrArg Entry.parent he,
    congrArg Entry.children he⟩

include hu

theorem shape_of_inherit : u.shape target = t.shape source := by
  have hself := (entry_of_inherit hf target).trans (entry_inherit_self h hg ht)
  have hkind : (u.node target).kind = (t.node source).kind := congrArg Entry.kind hself
  have hvalue : (u.node target).value = (t.node source).value := congrArg Entry.value hself
  have hkids : u.children target = (t.children source).map (t.copyIndex order) :=
    congrArg Entry.children hself
  rw [hu.shape_eq, h.shape_eq, hkind, hvalue, hkids, List.map_map]
  congr 1
  refine List.map_congr_left fun c hc => h.shape_map hu (t.copyIndex order) c fun y hy => ?_
  have hys : t.Under y source := hy.trans (.step (h.mem_children_iff.mp hc) (.refl source))
  have hcopy := entry_inherit_copy h hg ht ((hg.mem_iff h).mpr hys) (h.ne_of_under_child hc hy)
  rw [← entry_of_inherit hf] at hcopy
  exact hcopy

/-- The parent of the node is another one, so it still has the node where it had it. -/
theorem place_of_inherit : (u.node target).parent = (t.node target).parent ∧
    (u.node target).left = (t.node target).left ∧
    (u.node target).right = (t.node target).right := by
  have hself := (entry_of_inherit hf target).trans (entry_inherit_self h hg ht)
  have hp : (u.node target).parent = (t.node target).parent := congrArg Entry.parent hself
  refine ⟨hp, hu.laidOut.neighbours_congr h.laidOut (lt_of_inherit hf ht) ht hp ?_⟩
  intro q hq
  rw [hp] at hq
  have hne : target ≠ q := h.ne_of_under_child (h.mem_children_iff.mpr hq) (.refl target)
  exact (kept_of_inherit h hg ht hf (h.parent_lt hq).2 hne.symm).2.2.2

theorem released_of_inherit {c : NodeId} (hc : c ∈ t.children target) :
    u.node c = { t.node c with parent := none, left := none, right := none } ∧
      u.children c = t.children c ∧ u.shape c = t.shape c := by
  have hcl := h.laidOut.lt_of_mem hc
  have hcl' : c < u.size := lt_of_inherit hf hcl
  have hne := h.ne_of_under_child hc (.refl c)
  rcases kept_of_inherit h hg ht hf hcl hne with ⟨hk, hv, hp, hkids⟩
  rw [if_pos hc] at hp
  rcases hu.laidOut.roots c hcl' hp with ⟨hleft, hright⟩
  rcases hu.laidOut.ends_congr h.laidOut hcl' hcl hkids with ⟨hfirst, hlast, hcount⟩
  refine ⟨Node.ext hk hv hp hleft hright hfirst hlast hcount, hkids, ?_⟩
  -- the node is not below its child, so all that is keeps what it has
  refine h.shape_map hu (fun y => y) c fun y hy => ?_
  have hyl : y < t.size := by
    cases hy with
    | refl => exact hcl
    | step hp _ => exact (h.parent_lt hp).1
  rcases kept_of_inherit h hg ht hf hyl (h.ne_of_under_child hc hy) with ⟨hyk, hyv, _, hykids⟩
  rw [List.map_id']
  exact ⟨hyk, hyv, hykids⟩

theorem node_of_inherit (hx : x < t.size) (hne : x ≠ target) (hout : x ∉ t.children target) :
    u.node x = t.node x := by
  have hx' : x < u.size := lt_of_inherit hf hx
  rcases kept_of_inherit h hg ht hf hx hne with ⟨hk, hv, hp, hkids⟩
  rw [if_neg hout] at hp
  -- the parent is another node as well, so its list is as it was
  have hlist : ∀ q, (u.node x).parent = some q → u.children q = t.children q := by
    intro q hq
    rw [hp] at hq
    have hqt : q ≠ target := by
      rintro rfl
      exact hout (h.mem_children_iff.mpr hq)
    exact (kept_of_inherit h hg ht hf (h.parent_lt hq).2 hqt).2.2.2
  rcases hu.laidOut.ends_congr h.laidOut hx' hx hkids with ⟨hfirst, hlast, hcount⟩
  rcases hu.laidOut.neighbours_congr h.laidOut hx' hx hp hlist with ⟨hleft, hright⟩
  exact Node.ext hk hv hp hleft hright hfirst hlast hcount

theorem replaced_of_inherit : Replaced t target source u where
  wellFormed := hu.wellFormed
  shape_eq := shape_of_inherit h hg ht hu hf
  place := place_of_inherit h hg ht hu hf
  released := fun _ hc => released_of_inherit h hg ht hu hf hc
  others := fun _ hx hne hout => node_of_inherit h hg ht hu hf hx hne hout

end Replaced

/-- Whatever two nodes of a well-formed tree are to each other, one becomes a copy of the other:
it has the shape that the other had before and stays where it is, its former children stand alone
with all that is below them, and every other node that was there is as it was. -/
theorem WellFormed.become_replaces (h : t.WellFormed) (ht : target < t.size)
    (hs : source < t.size) :
    ∃ u, t.become target source = .ok u ∧ Replaced t target source u := by
  have hsound := h.sound
  have hg := gathered_byLevel hsound hs
  have hbecome := become_eq ht hs
  refine ⟨_, hbecome, replaced_of_inherit hsound hg ht (hsound.become ht hs hbecome) ?_⟩
  have hpos := List.length_pos_of_mem (List.mem_of_mem_head? hg.head)
  have hcopy : t.size < (t.withCopies (t.byLevel source)).size := by
    rw [size_withCopies]
    exact Nat.lt_add_of_pos_right hpos
  exact (sound_withCopies hsound hg).forest_becomeCopy (ht.trans hcopy) hcopy (Nat.ne_of_lt ht)

/-- The root 0 has the branch 1, which has the leaf 2, and the leaf 3. The branch becomes a copy of
the root that it is under, and the root one of the branch that is under it. -/
theorem become_replaces_nested :
    let t := (Call.addChild 0 3 "b").run ((Call.addChild 1 2 "a").run
      ((Call.addChild 0 1 "").run ((Call.makeRoot untyped "").run {})))
    let u := (Call.become 1 0).run t
    let v := (Call.become 0 1).run t
    t.WellFormed ∧ u.shape 1 = t.shape 0 ∧ u.children 1 = [5, 6] ∧ u.node 0 = t.node 0 ∧
      (u.node 2).parent = none ∧ v.shape 0 = t.shape 1 ∧ v.children 0 = [5] ∧
      (v.node 1).parent = none ∧ v.children 1 = [2] ∧ v.node 2 = t.node 2 := by
  intro t u v
  have h0 := Reachable.empty.call (.makeRoot untyped "") (by decide)
  have h1 := h0.call (.addChild 0 1 "") (by decide)
  have h2 := h1.call (.addChild 1 2 "a") (by decide)
  have ht : Reachable t := h2.call (.addChild 0 3 "b") (by decide)
  have hw := ht.sound.wellFormed
  have hl0 : 0 < t.size := by decide +kernel
  have hl1 : 1 < t.size := by decide +kernel
  have hl2 : 2 < t.size := by decide +kernel
  have hkids0 : t.children 0 = [1, 3] := by decide +kernel
  have hkids1 : t.children 1 = [2] := by decide +kernel
  rcases hw.become_replaces hl1 hl0 with ⟨u', hu, hru⟩
  rcases hw.become_replaces hl0 hl1 with ⟨v', hv, hrv⟩
  have hu' : u = u' := by
    show t.orKeep (t.become 1 0) = u'
    rw [hu, orKeep_ok]
  have hv' : v = v' := by
    show t.orKeep (t.become 0 1) = v'
    rw [hv, orKeep_ok]
  rw [← hu'] at hru
  rw [← hv'] at hrv
  have h2u := hru.released 2 (by rw [hkids1]; exact List.mem_cons_self)
  have h1v := hrv.released 1 (by rw [hkids0]; exact List.mem_cons_self)
  refine ⟨hw, hru.shape_eq, by decide +kernel, ?_, ?_, hrv.shape_eq, by decide +kernel, ?_, ?_, ?_⟩
  · exact hru.others 0 hl0 (by decide) (by rw [hkids1]; decide)
  · rw [h2u.1]
  · rw [h1v.1]
  · rw [h1v.2.1, hkids1]
  · exact hrv.others 2 hl2 (by decide) (by rw [hkids0]; decide)

end Tree

end PegKit
