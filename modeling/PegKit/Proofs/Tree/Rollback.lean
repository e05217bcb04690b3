import PegKit.Proofs.Tree.Edits

/-! # Rollbacks

A rollback cuts every link across the checkpoint and then drops what is behind it.

* `release_spec`: one step cuts the links of one node, and cuts no others but to earlier nodes.
* `Sound.rollback`: whatever the checkpoint, a sound tree stays sound.
-/

namespace PegKit.Tree

variable {t u : Tree} {c id : NodeId}

/-! ## Cutting links -/

/-- No link leads from `x` to a node before `c`. -/
structure Severed (t : Tree) (c x : NodeId) : Prop where
  below : ∀ y, (t.node y).parent = some x → c ≤ y
  above : ∀ p, (t.node x).parent = some p → c ≤ p

/-- The edges of `u` are edges of `t`. -/
def Pruned (u t : Tree) : Prop :=
  ∀ x p, (u.node x).parent = some p → (t.node x).parent = some p

theorem Severed.of_pruned {x : NodeId} (h : t.Severed c x) (hp : u.Pruned t) : u.Severed c x :=
  ⟨fun y hy => h.below y (hp y x hy), fun p hx => h.above p (hp x p hx)⟩

theorem release_spec (h : t.Sound) (hid : id < t.size) :
    (release c t id).Sound ∧ (release c t id).size = t.size ∧ (release c t id).Pruned t ∧
      (release c t id).Severed c id := by
  have hids : ∀ x ∈ (t.children id).filter (· < c), x < t.size := fun x hx =>
    h.laidOut.lt_of_mem (List.mem_filter.mp hx).1
  rcases h.foldl_unlink _ hids with ⟨hs, hsize, hnode⟩
  rw [release]
  generalize ((t.children id).filter (· < c)).foldl unlink t = t1 at hs hsize hnode ⊢
  have hpruned : t1.Pruned t := by
    intro x p hx
    rw [(hnode x).1] at hx
    split at hx
    · cases hx
    · exact hx
  -- the children before the checkpoint are unlinked, so those that are left are behind it
  have hbelow : ∀ y, (t1.node y).parent = some id → c ≤ y := by
    intro y hy
    have hold := hpruned y id hy
    rw [(hnode y).1] at hy
    split at hy
    · cases hy
    · next hno =>
      refine Nat.le_of_not_lt fun hlt => hno (List.mem_filter.mpr ⟨?_, decide_eq_true hlt⟩)
      exact h.mem_children_iff.mpr hold
  split
  · have hid1 : id < t1.size := hsize ▸ hid
    have hparent := hs.parent_unlink hid1
    have hpruned' : (t1.unlink id).Pruned t1 := by
      intro x p hx
      rw [hparent] at hx
      split at hx
      · cases hx
      · exact hx
    refine ⟨hs.unlink hid1, size_unlink.trans hsize, ?_, ?_, ?_⟩
    · exact fun x p hx => hpruned x p (hpruned' x p hx)
    · exact fun y hy => hbelow y (hpruned' y id hy)
    intro p hp
    rw [hparent, if_pos rfl] at hp
    cases hp
  · next hno =>
    refine ⟨hs, hsize, hpruned, hbelow, ?_⟩
    intro p hp
    rw [hp] at hno
    exact Nat.le_of_not_lt fun hlt => hno (decide_eq_true hlt)

/-- Later steps bring no link back. -/
theorem foldl_release_spec (h : t.Sound) {ids : List NodeId} (hids : ∀ id ∈ ids, id < t.size) :
    (ids.foldl (release c) t).Sound ∧ (ids.foldl (release c) t).size = t.size ∧
      (ids.foldl (release c) t).Pruned t ∧ ∀ id ∈ ids, (ids.foldl (release c) t).Severed c id := by
  -- a step takes edges away only, so what is severed once stays so
  induction ids generalizing t with
  | nil => exact ⟨h, rfl, fun _ _ hx => hx, nofun⟩
  | cons id ids ih =>
    rcases release_spec (c := c) h (hids id List.mem_cons_self) with ⟨h1, hsize1, hpruned1, hsev1⟩
    obtain ⟨h2, hsize2, hpruned2, hsev2⟩ := ih h1 fun i hi => by
      rw [hsize1]
      exact hids i (List.mem_cons_of_mem id hi)
    refine ⟨h2, hsize2.trans hsize1, fun x p hx => hpruned1 x p (hpruned2 x p hx), ?_⟩
    intro i hi
    rcases List.mem_cons.mp hi with rfl | hi
    · exact hsev1.of_pruned hpruned2
    · exact hsev2 i hi

/-! ## Dropping nodes -/

/-- The tree without the nodes from `c` on. -/
def truncate (t : Tree) (c : Nat) : Tree :=
  { t with nodes := t.nodes.take c }

theorem size_truncate : (t.truncate c).size = min c t.size := by
  simp [truncate, size]

theorem node_truncate (j : NodeId) : (t.truncate c).node j = if j < c then t.node j else {} := by
  have hget : (t.truncate c).nodes[j]? = if j < min c t.size then t.nodes[j]? else none := by
    simp only [truncate, size, Array.take_eq_extract, Array.getElem?_extract, Nat.sub_zero,
      Nat.zero_add]
    rfl
  by_cases hjc : j < c
  · rw [if_pos hjc]
    by_cases hj : j < t.size
    · rw [node, node, Array.getD_eq_getD_getElem?, Array.getD_eq_getD_getElem?, hget,
        if_pos (Nat.lt_min.mpr ⟨hjc, hj⟩)]
    · have hle := Nat.le_of_not_lt hj
      rw [node_of_le hle, node_of_le]
      exact size_truncate ▸ Nat.le_trans (Nat.min_le_right _ _) hle
  · rw [if_neg hjc, node_of_le]
    exact size_truncate ▸ Nat.le_trans (Nat.min_le_left _ _) (Nat.le_of_not_lt hjc)

/-- No child is dropped under a node that stays. -/
theorem lt_of_severed (h : t.Sound) (hsev : ∀ x, c ≤ x → x < t.size → t.Severed c x)
    {x p : NodeId} (hp : (t.node x).parent = some p) : x < c ↔ p < c := by
  rcases h.parent_lt hp with ⟨hx, hp'⟩
  constructor
  · intro hlt
    exact Nat.lt_of_not_le fun hle => Nat.not_lt.mpr ((hsev p hle hp').below x hp) hlt
  · intro hlt
    exact Nat.lt_of_not_le fun hle => Nat.not_lt.mpr ((hsev x hle hx).above p hp) hlt

theorem laidOut_truncate (h : t.Sound) (hsev : ∀ x, c ≤ x → x < t.size → t.Severed c x) :
    (t.truncate c).LaidOut fun j => if j < c then t.children j else [] := by
  have hl := h.laidOut
  have hnode := @node_truncate t c
  constructor
  case ends =>
    intro q hq
    rw [size_truncate] at hq
    have hqc : q < c := Nat.lt_of_lt_of_le hq (Nat.min_le_left _ _)
    rw [hnode, if_pos hqc, if_pos hqc]
    exact hl.ends q (Nat.lt_of_lt_of_le hq (Nat.min_le_right _ _))
  case place =>
    intro q l x r hlr
    by_cases hqc : q < c
    · rw [if_pos hqc] at hlr
      have hplace := hl.place q l x r hlr
      -- no list of children is cut in the middle
      have hxc : x < c := (lt_of_severed h hsev hplace.2.1).mpr hqc
      rw [hnode, if_pos hxc, size_truncate]
      exact ⟨Nat.lt_min.mpr ⟨hxc, hplace.1⟩, hplace.2⟩
    · rw [if_neg hqc] at hlr
      simp at hlr
  case roots =>
    intro x hx hp
    rw [size_truncate] at hx
    have hxc : x < c := Nat.lt_of_lt_of_le hx (Nat.min_le_left _ _)
    rw [hnode, if_pos hxc] at hp ⊢
    exact hl.roots x (Nat.lt_of_lt_of_le hx (Nat.min_le_right _ _)) hp
  case owned =>
    intro x hx q hp
    rw [size_truncate] at hx
    have hxc : x < c := Nat.lt_of_lt_of_le hx (Nat.min_le_left _ _)
    rw [hnode, if_pos hxc] at hp
    have hqc : q < c := (lt_of_severed h hsev hp).mp hxc
    rw [size_truncate, if_pos hqc]
    exact ⟨Nat.lt_min.mpr ⟨hqc, (h.parent_lt hp).2⟩, h.mem_children_iff.mpr hp⟩
  case nodup =>
    intro q
    by_cases hqc : q < c
    · rw [if_pos hqc]
      exact hl.nodup q
    · rw [if_neg hqc]
      exact List.nodup_nil
  case dead =>
    intro q hq
    rw [size_truncate] at hq
    by_cases hqc : q < c
    · rw [if_pos hqc]
      exact hl.dead q (by omega)
    · rw [if_neg hqc]

theorem lt_of_mem_forgotten (t : Tree) (c : Nat) :
    ∀ id ∈ (List.range' c (t.size - c)).reverse, id < t.size := by
  intro id hid
  have hid := List.mem_range'_1.mp (List.mem_reverse.mp hid)
  omega

namespace Sound

theorem truncate (h : t.Sound) (hsev : ∀ x, c ≤ x → x < t.size → t.Severed c x) :
    (t.truncate c).Sound := by
  rcases h.ranked with ⟨rank, hr⟩
  have hnode := @node_truncate t c
  refine .of_laidOut (laidOut_truncate h hsev) ⟨rank, hr.of_edges ?_⟩ ?_
  · intro x q hq
    rw [hnode] at hq
    split at hq
    · exact hq
    · cases hq
  · intro x hx
    rw [hnode] at hx
    split at hx
    · next hxc => rw [if_pos hxc, h.plain x hx]
    · exact absurd rfl hx

/-- After every node from the checkpoint on is released, none of them is linked to an older one. -/
theorem rollback (h : t.Sound) (c : Nat) : (t.rollback c).Sound := by
  rcases foldl_release_spec (c := c) h (lt_of_mem_forgotten t c) with ⟨hs, hsize, _, hsev⟩
  refine hs.truncate fun x hcx hx => hsev x ?_
  rw [hsize] at hx
  refine List.mem_reverse.mpr (List.mem_range'_1.mpr ⟨hcx, ?_⟩)
  rwa [Nat.add_sub_of_le (Nat.le_trans hcx (Nat.le_of_lt hx))]

end Sound

end PegKit.Tree
