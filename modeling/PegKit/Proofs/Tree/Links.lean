import PegKit.Tree.Edit

/-! # What edits write

For each edit of links, the node that stands at an index afterwards, field by field.

* `node_linkUnder`, `node_unlink` and `node_relinkChildren`: the three edits that rewrite links.
* `node_reparent`: many nodes get one parent.
-/

namespace PegKit.Tree

variable {t : Tree} {id : NodeId} {f : Node → Node}

/-! ## Nodes of an arena -/

theorem node_of_lt (h : id < t.size) : t.node id = t.nodes[id] := by
  exact dif_pos h

theorem node_of_le (h : t.size ≤ id) : t.node id = {} := by
  exact dif_neg (Nat.not_lt.mpr h)

theorem lookup_of_lt (h : id < t.size) : t.lookup id = .ok (t.node id) := by
  have hn : t.nodes[id]? = some t.nodes[id] := Array.getElem?_eq_getElem h
  rw [lookup, hn, node_of_lt h]

@[simp] theorem size_modify : (t.modify id f).size = t.size := Array.size_modify

@[simp] theorem size_modifyLink {link : Option NodeId} : (t.modifyLink link f).size = t.size := by
  cases link with
  | none => rfl
  | some id => exact size_modify

theorem node_modify (h : id < t.size) (j : NodeId) :
    (t.modify id f).node j = if id = j then f (t.node j) else t.node j := by
  by_cases hj : j < t.size
  · have hj' : j < (t.modify id f).size := by rwa [size_modify]
    rw [node_of_lt hj', node_of_lt hj]
    exact Array.getElem_modify hj'
  · have hne : id ≠ j := fun he => hj (he ▸ h)
    rw [if_neg hne, node_of_le (Nat.le_of_not_lt hj)]
    exact node_of_le (by rw [size_modify]; exact Nat.le_of_not_lt hj)

theorem node_modifyLink {link : Option NodeId} (h : ∀ id, link = some id → id < t.size)
    (j : NodeId) :
    (t.modifyLink link f).node j = if link = some j then f (t.node j) else t.node j := by
  cases link with
  | none => rfl
  | some id =>
    rw [modifyLink, node_modify (h id rfl)]
    simp only [Option.some.injEq]

/-- Changing several nodes alike. -/
theorem node_foldl_modify {ids : List NodeId} (h : ∀ id ∈ ids, id < t.size)
    (hf : ∀ n, f (f n) = f n) (j : NodeId) :
    (ids.foldl (fun t id => t.modify id f) t).node j =
      if j ∈ ids then f (t.node j) else t.node j := by
  induction ids generalizing t with
  | nil => rfl
  | cons id ids ih =>
    have hlt := h id List.mem_cons_self
    have hih := ih (t := t.modify id f)
      (fun i hi => by rw [size_modify]; exact h i (List.mem_cons_of_mem id hi))
    rw [List.foldl_cons, hih, node_modify hlt]
    by_cases hj : id = j
    · simp [hj, hf]
    · simp [hj, Ne.symm hj]

/-- Giving several nodes one parent. -/
theorem node_reparent {ids : List NodeId} (h : ∀ id ∈ ids, id < t.size) (p j : NodeId) :
    (ids.foldl (fun t id => t.modify id fun n => { n with parent := some p }) t).node j =
      { t.node j with parent := if j ∈ ids then some p else (t.node j).parent } := by
  rw [node_foldl_modify (f := fun n => { n with parent := some p }) h fun _ => rfl]
  by_cases hj : j ∈ ids <;> simp [hj]

@[simp] theorem size_foldl_modify {ids : List NodeId} :
    (ids.foldl (fun t id => t.modify id f) t).size = t.size := by
  induction ids generalizing t with
  | nil => rfl
  | cons id ids ih => rw [List.foldl_cons, ih, size_modify]

/-! ## New roots -/

@[simp] theorem size_makeRoot {kind : Kind} {value : String} :
    (t.makeRoot kind value).2.size = t.size + 1 := Array.size_push _

theorem node_makeRoot {kind : Kind} {value : String} (j : NodeId) :
    (t.makeRoot kind value).2.node j = if j = t.size then { kind, value } else t.node j := by
  simp only [makeRoot, node, size, Array.getD_eq_getD_getElem?, Array.getElem?_push]
  split <;> rfl

/-! ## Edits of links -/

section Edits

variable {parent child receiver donor : NodeId}

@[simp] theorem size_linkUnder : (t.linkUnder parent child).size = t.size := by
  rw [linkUnder]
  cases (t.node parent).last <;> simp

theorem node_linkUnder (hp : parent < t.size) (hc : child < t.size)
    (hl : ∀ l, (t.node parent).last = some l → l < t.size) (j : NodeId) :
    (t.linkUnder parent child).node j = { t.node j with
      parent := if child = j then some parent else (t.node j).parent
      left := if child = j then (t.node parent).last else (t.node j).left
      right := if (t.node parent).last = some j then some child
        else if child = j then none else (t.node j).right
      first := if parent = j ∧ (t.node parent).last = none then some child else (t.node j).first
      last := if parent = j then some child else (t.node j).last
      count := if parent = j then (t.node j).count + 1 else (t.node j).count } := by
  rw [linkUnder]
  cases hlast : (t.node parent).last with
  | none =>
    simp only [node_modify, size_modify, hp, hc]
    by_cases h1 : parent = j <;> by_cases h2 : child = j <;> simp [h1, h2]
  | some l =>
    have hl' := hl l hlast
    simp only [node_modify, size_modify, hp, hc, hl']
    by_cases h1 : parent = j <;> by_cases h2 : child = j <;> by_cases h3 : l = j <;>
      simp [h1, h2, h3]

@[simp] theorem size_unlink : (t.unlink id).size = t.size := by
  simp [unlink]

theorem node_unlink (hid : id < t.size) (hp : ∀ p, (t.node id).parent = some p → p < t.size)
    (hl : ∀ l, (t.node id).left = some l → l < t.size)
    (hr : ∀ r, (t.node id).right = some r → r < t.size) (j : NodeId) :
    (t.unlink id).node j = { t.node j with
      parent := if id = j then none else (t.node j).parent
      left := if id = j then none
        else if (t.node id).right = some j then (t.node id).left else (t.node j).left
      right := if id = j then none
        else if (t.node id).left = some j then (t.node id).right else (t.node j).right
      first := if (t.node id).parent = some j ∧ (t.node j).first = some id then (t.node id).right
        else (t.node j).first
      last := if (t.node id).parent = some j ∧ (t.node j).last = some id then (t.node id).left
        else (t.node j).last
      count := if (t.node id).parent = some j then (t.node j).count - 1 else (t.node j).count } := by
  simp only [unlink, Node.withoutChild]
  generalize t.node id = x at hp hl hr ⊢
  rw [node_modify (by simpa using hid), node_modifyLink (by simpa using hp),
    node_modifyLink (by simpa using hr), node_modifyLink hl]
  by_cases h1 : id = j <;> by_cases h2 : x.left = some j <;> by_cases h3 : x.right = some j <;>
    by_cases h4 : x.parent = some j <;> simp [h1, h2, h3, h4]

theorem relinkChildren_of_none (h : (t.node donor).first = none) :
    t.relinkChildren receiver donor = t := by
  rw [relinkChildren, h]

@[simp] theorem size_relinkChildren : (t.relinkChildren receiver donor).size = t.size := by
  rw [relinkChildren]
  split
  · rfl
  · dsimp only
    split <;> simp

theorem node_relinkChildren (hne : receiver ≠ donor) (hr : receiver < t.size)
    (hd : donor < t.size) {first : NodeId} (hf : (t.node donor).first = some first)
    (hft : first < t.size) (hlast : ∀ l, (t.node receiver).last = some l → l < t.size)
    (hkids : ∀ c ∈ t.children donor, c < t.size) (j : NodeId) :
    (t.relinkChildren receiver donor).node j = { t.node j with
      parent := if j ∈ t.children donor then some receiver else (t.node j).parent
      left := if first = j ∧ (t.node receiver).last ≠ none then (t.node receiver).last
        else (t.node j).left
      right := if (t.node receiver).last = some j then some first else (t.node j).right
      first := if donor = j then none
        else if receiver = j ∧ (t.node receiver).last = none then some first else (t.node j).first
      last := if donor = j then none
        else if receiver = j then (t.node donor).last else (t.node j).last
      count := if donor = j then 0
        else if receiver = j then (t.node j).count + (t.node donor).count
        else (t.node j).count } := by
  simp only [relinkChildren, hf]
  generalize hu : (t.children donor).foldl
    (fun t c => t.modify c fun n => { n with parent := some receiver }) t = u
  have hsize : u.size = t.size := by rw [← hu, size_foldl_modify]
  have hnode : ∀ i, u.node i = { t.node i with
      parent := if i ∈ t.children donor then some receiver else (t.node i).parent } := by
    intro i
    rw [← hu, node_reparent hkids]
  have hd' : donor < u.size := by rwa [hsize]
  have hr' : receiver < u.size := by rwa [hsize]
  have hft' : first < u.size := by rwa [hsize]
  have hrd : ∀ g, ((u.modify donor g).node receiver).last = (t.node receiver).last := by
    intro g
    rw [node_modify hd', if_neg hne.symm, hnode]
  have hcount : (u.node donor).count = (t.node donor).count := by rw [hnode]
  have hdlast : (u.node donor).last = (t.node donor).last := by rw [hnode]
  rw [hrd, hcount, hdlast]
  cases hl : (t.node receiver).last with
  | none =>
    simp only [node_modify, size_modify, hd', hr', hnode]
    by_cases h1 : donor = j
    · have h2 : ¬ receiver = j := fun h => hne (h.trans h1.symm)
      simp [h1, h2]
    · by_cases h2 : receiver = j <;> simp [h1, h2]
  | some l =>
    have hl' : l < u.size := by rw [hsize]; exact hlast l hl
    simp only [node_modify, size_modify, hd', hr', hl', hft', hnode]
    by_cases h1 : donor = j
    · have h2 : ¬ receiver = j := fun h => hne (h.trans h1.symm)
      by_cases h3 : l = j <;> by_cases h4 : first = j <;> simp [h1, h2, h3, h4]
    · by_cases h2 : receiver = j <;> by_cases h3 : l = j <;> by_cases h4 : first = j <;>
        simp [h1, h2, h3, h4]

end Edits

end PegKit.Tree
