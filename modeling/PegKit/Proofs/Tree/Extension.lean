import PegKit.Proofs.Tree.Restriction

/-! # Trees that have grown

A tree with nodes added, its older nodes where they were.

* `Tree.Extends` is that, and goes along with new roots and with new nodes attached.
* `Extends.rollback_eq`: a rollback to the older nodes gives the older tree back, link by link.
-/

namespace PegKit.Tree

variable {t u v : Tree} {p id : NodeId}

/-- The tree `u` is `t` with nodes added. The nodes of `t` keep what they hold and where they are,
and new nodes may have come between and behind their children. -/
structure Extends (u t : Tree) : Prop where
  sound : u.Sound
  size_le : t.size ≤ u.size
  kind_eq : ∀ x < t.size, (u.node x).kind = (t.node x).kind
  value_eq : ∀ x < t.size, (u.node x).value = (t.node x).value
  parent_eq : ∀ x < t.size, (u.node x).parent = (t.node x).parent
  children_eq : ∀ x < t.size, (u.children x).filter (· < t.size) = t.children x

/-! ## Growing -/

namespace Extends

theorem refl (h : t.Sound) : t.Extends t where
  sound := h
  size_le := Nat.le_refl _
  kind_eq := fun _ _ => rfl
  value_eq := fun _ _ => rfl
  parent_eq := fun _ _ => rfl
  children_eq := by
    intro x _
    rw [List.filter_eq_self]
    intro y hy
    exact decide_eq_true (h.laidOut.lt_of_mem hy)

theorem trans (hv : v.Extends u) (hu : u.Extends t) : v.Extends t := by
  have hlt : ∀ {x : NodeId}, x < t.size → x < u.size := fun hx => Nat.lt_of_lt_of_le hx hu.size_le
  constructor
  case sound => exact hv.sound
  case size_le => exact Nat.le_trans hu.size_le hv.size_le
  case kind_eq =>
    intro x hx
    rw [hv.kind_eq x (hlt hx), hu.kind_eq x hx]
  case value_eq =>
    intro x hx
    rw [hv.value_eq x (hlt hx), hu.value_eq x hx]
  case parent_eq =>
    intro x hx
    rw [hv.parent_eq x (hlt hx), hu.parent_eq x hx]
  case children_eq =>
    intro x hx
    rw [← hu.children_eq x hx, ← hv.children_eq x (hlt hx), List.filter_filter]
    -- a node of the oldest tree is one of the tree in between
    apply List.filter_congr
    intro y _
    rw [← Bool.decide_and, decide_eq_decide]
    exact ⟨fun hy => ⟨hy, hlt hy⟩, And.left⟩

/-- A new root changes no older node. -/
theorem makeRoot (h : u.Extends t) (kind : Kind) (value : String) :
    (u.makeRoot kind value).2.Extends t := by
  have hnode : ∀ x < t.size, (u.makeRoot kind value).2.node x = u.node x := by
    intro x hx
    rw [node_makeRoot, if_neg (Nat.ne_of_lt (Nat.lt_of_lt_of_le hx h.size_le))]
  constructor
  case sound => exact h.sound.makeRoot kind value
  case size_le => exact size_makeRoot ▸ Nat.le_succ_of_le h.size_le
  case kind_eq =>
    intro x hx
    rw [hnode x hx, h.kind_eq x hx]
  case value_eq =>
    intro x hx
    rw [hnode x hx, h.value_eq x hx]
  case parent_eq =>
    intro x hx
    rw [hnode x hx, h.parent_eq x hx]
  case children_eq =>
    intro x hx
    rw [(h.sound.laidOut.makeRoot kind value).children_eq, h.children_eq x hx]

end Extends

/-! ## Attaching -/

theorem lt_of_lookup {n : Node} (h : t.lookup id = .ok n) : id < t.size := by
  apply Nat.lt_of_not_le
  intro hle
  have hn : t.nodes[id]? = none := Array.getElem?_eq_none hle
  rw [lookup, hn] at h
  cases h

theorem lt_of_requireBranch (h : t.requireBranch p = .ok ()) : p < t.size := by
  rw [requireBranch] at h
  cases hl : t.lookup p with
  | ok n => exact lt_of_lookup hl
  | error e =>
    rw [hl] at h
    cases h

/-- What is attached is in the tree, and so is what it is attached to. -/
theorem lt_of_attach (h : t.attach p id = .ok u) : p < t.size ∧ id < t.size := by
  rw [attach] at h
  cases hb : t.requireBranch p with
  | error e =>
    rw [hb] at h
    cases h
  | ok b =>
    rw [hb] at h
    cases hl : t.lookup id with
    | ok n => exact ⟨lt_of_requireBranch hb, lt_of_lookup hl⟩
    | error e =>
      rw [hl] at h
      cases h

/-- An attachment that is not refused is a link of a root. -/
theorem attach_eq_ok (h : t.attach p id = .ok u) :
    (t.node id).parent = none ∧ u = t.linkUnder p id := by
  rcases lt_of_attach h with ⟨hp, hid⟩
  rw [attach_eq hp hid] at h
  split at h
  · cases h
  split at h
  · cases h
  next hroot =>
  split at h
  · cases h
  cases h
  exact ⟨Option.not_isSome_iff_eq_none.mp hroot, rfl⟩

/-- An attached node comes behind the children of its parent. -/
theorem Sound.children_attach (h : t.Sound) (he : t.attach p id = .ok u) (q : NodeId) :
    u.children q = if q = p then t.children p ++ [id] else t.children q := by
  rcases lt_of_attach he with ⟨hp, hid⟩
  rcases attach_eq_ok he with ⟨hroot, rfl⟩
  exact (h.laidOut.linkUnder hp hid hroot).children_eq q

/-- Nothing but links changes, and no parent but that of the node attached. -/
theorem Sound.node_attach (h : t.Sound) (he : t.attach p id = .ok u) (x : NodeId) :
    (u.node x).kind = (t.node x).kind ∧ (u.node x).value = (t.node x).value ∧
      (u.node x).parent = if id = x then some p else (t.node x).parent := by
  rcases lt_of_attach he with ⟨hp, hid⟩
  rcases attach_eq_ok he with ⟨_, rfl⟩
  rw [node_linkUnder hp hid fun l hl => h.last_lt hp hl]
  exact ⟨rfl, rfl, rfl⟩

theorem size_attach (he : t.attach p id = .ok u) : u.size = t.size := by
  rcases attach_eq_ok he with ⟨_, rfl⟩
  exact size_linkUnder

/-- A new node may be attached anywhere. -/
theorem Extends.attach (h : u.Extends t) (hid : t.size ≤ id) (he : u.attach p id = .ok v) :
    v.Extends t := by
  rcases lt_of_attach he with ⟨hp, hid'⟩
  have hnode := h.sound.node_attach he
  constructor
  case sound => exact h.sound.attach hp hid' he
  case size_le => exact size_attach he ▸ h.size_le
  case kind_eq =>
    intro x hx
    rw [(hnode x).1, h.kind_eq x hx]
  case value_eq =>
    intro x hx
    rw [(hnode x).2.1, h.value_eq x hx]
  case parent_eq =>
    intro x hx
    have hne : id ≠ x := fun he => Nat.not_lt.mpr hid (he ▸ hx)
    rw [(hnode x).2.2, if_neg hne, h.parent_eq x hx]
  case children_eq =>
    intro x hx
    have hnew : ¬ id < t.size := Nat.not_lt.mpr hid
    rw [h.sound.children_attach he, ← h.children_eq x hx]
    -- the new child is none of the older ones
    split
    · next hxp =>
      rw [hxp, List.filter_append, List.filter_singleton, decide_eq_false hnew, cond_false,
        List.append_nil]
    · rfl

/-! ## Going back -/

/-- A rollback to the older nodes gives the older tree back. -/
theorem Extends.rollback_eq (h : t.Sound) (hu : u.Extends t) : u.rollback t.size = t := by
  have hs := hu.sound
  have hsize : (u.rollback t.size).size = t.size := by
    rw [hs.size_rollback, Nat.min_eq_left hu.size_le]
  have hlt : ∀ {x : NodeId}, x < (u.rollback t.size).size → x < t.size := fun hx => hsize ▸ hx
  refine (hs.rollback t.size).eq_of_children h hsize ?_ ?_ ?_
  · intro x hx
    rw [(hs.content_rollback (hlt hx)).1, hu.kind_eq x (hlt hx)]
  · intro x hx
    rw [(hs.content_rollback (hlt hx)).2, hu.value_eq x (hlt hx)]
  · intro x hx
    rw [hs.children_rollback (hlt hx), hu.children_eq x (hlt hx)]

end PegKit.Tree
